import CTree.Parse.Statement

/-!
# Sessions

The rules of all nonterminals, tied together. Every nonterminal opens a construct, and only so many
constructs may be open, so the rules are tied together once for each number of constructs that may
still be opened. A `Session` reads a source as a program, and may be asked to go on.
-/

namespace CTree

namespace Grammar

/-- The rule of a nonterminal. -/
def rule (g : Grammar) {α : Type} : Nonterminal α → Parse α
  | .assignment => g.assignment
  | .conditional => g.conditional
  | .unary => g.unary
  | .elements => g.elements
  | .statement => g.statement
  | .members owner bases access => g.members owner bases access
  | .items => g.items true
  | .item => g.item

/-- The grammar that opens at most the given number of constructs. One more than that is one more
than the settings allow, so it fails as `Parse.nested` does. -/
def ofDepth : Nat → Grammar
  | 0 => ⟨fun _ => do
    throw ⟨.tooDeep (← Parse.settings).maxDepth, (← Parse.peek).offset⟩⟩
  | n + 1 => ⟨fun r => Parse.nested ((ofDepth n).rule r)⟩

end Grammar

/-- A source that is read as a program. -/
structure Session where
  source : Source
  state : ParseState

namespace Session

/-- The session that starts with a text. Its lexical errors come first among the diagnostics. -/
def start (settings : Settings) (text : List Char) : Session :=
  let tokens := tokenize settings.dialect text
  { source := { settings, text, stream := .ofList tokens.tokens }
    state := { diagnostics := (Diagnostic.ofLexErrors text tokens.errors).toArray } }

/-- Reads the items that are left. -/
def parse (s : Session) (name : String) : Program × Session :=
  let grammar := Grammar.ofDepth s.source.settings.maxDepth
  match grammar.items false s.source s.state with
  | (.ok body, state) => (⟨name, body⟩, { s with state })
  | (.error _, state) => (⟨name, []⟩, { s with state })

/-- The token at which the session goes on. -/
def next (s : Session) : Token :=
  s.state.cursor.current s.source.stream

/-- Whether no token is left. -/
def atEnd (s : Session) : Bool :=
  s.state.cursor.atEnd s.source.stream

end Session

end CTree
