import CTree.Ast.Operator
import CTree.Parse.Lookahead
import CTree.Parse.Recovery
import CTree.TypeText

/-!
# Type names

Specifiers, type names and qualified names. A type is a core between qualifiers, followed by marks
of pointers and references:

    type ::= cv* core cv* ('*' | '&' | '&&' | cv)*
    core ::= builtin+ | ('struct' | 'class' | 'union' | 'enum' | 'typename') path
           | 'decltype' group | path
    path ::= '::'? name arguments? ('::' name arguments?)*

A path by itself is a type only if its name is known, or, in C++, if it has a scope. The flag of
the parse lifts that condition.
-/

namespace CTree

/-- The specifiers in front of a type. -/
structure Specifiers where
  isStatic : Bool := false
  isExternal : Bool := false
  isRegister : Bool := false
  isInline : Bool := false
  isConstexpr : Bool := false
  isVirtual : Bool := false
  isExplicit : Bool := false
  isMutable : Bool := false
  isThreadLocal : Bool := false
  deriving DecidableEq, Repr

/-- The storage that the specifiers give a variable. -/
def Specifiers.storage? (s : Specifiers) : Option String :=
  if s.isStatic then some "static"
  else if s.isExternal then some "extern"
  else if s.isRegister then some "register"
  else if s.isMutable then some "mutable"
  else if s.isThreadLocal then some "thread_local"
  else none

/-- The specifiers with the one that begins at the current token, if one does. -/
def View.specifier? (v : View) (s : Specifiers) : Option Specifiers :=
  match v.kind 0 with
  | .kwStatic => some { s with isStatic := true }
  | .kwExtern => if v.kind 1 == .stringLiteral then none else some { s with isExternal := true }
  | .kwRegister => some { s with isRegister := true }
  | .kwInline => some { s with isInline := true }
  | .kwConstexpr => some { s with isConstexpr := true }
  | .kwVirtual => some { s with isVirtual := true }
  | .kwExplicit => some { s with isExplicit := true }
  | .kwMutable => some { s with isMutable := true }
  | .identifier =>
    if (v.token 0).text == "thread_local" then some { s with isThreadLocal := true } else none
  | _ => none

/-- The brackets that are open inside template arguments, the first `<` included. -/
structure ArgumentNesting where
  angles : Nat := 1
  parens : Nat := 0
  deriving DecidableEq, Repr

/-- What the reading of template arguments does at a token. -/
inductive ArgumentStep
  /-- The arguments cannot go on like this. -/
  | fail
  /-- The token ends the last argument, which the given text belongs to. -/
  | close (extra : String)
  /-- The token ends an argument, and another follows. -/
  | cut
  /-- The token belongs to the argument. -/
  | take (inside : ArgumentNesting)
  deriving DecidableEq, Repr

/-- What the reading of template arguments does at a token of the given kind; a `>>` closes two
levels. -/
def ArgumentNesting.step (n : ArgumentNesting) (k : TokenKind) : ArgumentStep :=
  match k, n.parens with
  | .semicolon, _ | .lbrace, _ | .rbrace, _ | .eof, _ => .fail
  | .lparen, _ | .lbracket, _ => .take { n with parens := n.parens + 1 }
  | .rparen, 0 | .rbracket, 0 | .andAnd, 0 | .orOr, 0 => .fail
  | .rparen, p + 1 | .rbracket, p + 1 => .take { n with parens := p }
  | .lt, 0 => .take { n with angles := n.angles + 1 }
  | .gt, 0 => if n.angles ≤ 1 then .close "" else .take { n with angles := n.angles - 1 }
  | .shr, 0 =>
    if n.angles ≤ 1 then .close ""
    else if n.angles = 2 then .close ">"
    else .take { n with angles := n.angles - 2 }
  | .comma, 0 => if n.angles = 1 then .cut else .take n
  | _, _ => .take n

/-- A path of names, as it decides whether a type is meant. -/
structure TypePath where
  /-- The first name. -/
  first : String
  /-- All names, without template arguments. -/
  plain : String
  deriving DecidableEq, Repr

/-- Whether a path by itself is a type. -/
def View.accepts (v : View) (path : TypePath) : Bool :=
  v.lenient || v.isKnown path.plain || v.isKnown path.first ||
    (v.isCpp && TypeText.isQualified path.plain)

namespace Parse

/-- Takes any run of specifiers. -/
def specifiers : Parse Specifiers :=
  iterate (fun s => do
    match (← view).specifier? s with
    | some s =>
      skip
      return some s
    | none => return none) {}

/-- Reads template arguments, the text of the current one having begun at the index `start`. -/
def argumentsFrom (start : Nat) (inside : ArgumentNesting) : Nat → Parse (List String)
  | 0 => expected "'>' to close template arguments"
  | n + 1 => do
    match inside.step (← kind) with
    | .fail => expected "'>' to close template arguments"
    | .close extra =>
      let text ← textSince start
      skip
      return [text ++ extra]
    | .cut =>
      let text ← textSince start
      skip
      return text :: (← argumentsFrom (← position) inside n)
    | .take inside =>
      skip
      argumentsFrom start inside n

/-- Takes `<`, template arguments and `>`; the texts of the arguments. -/
def templateArguments : Parse (List String) := do
  skipOver .lt "to start template arguments"
  match ← argumentsFrom (← position) {} (← view).remaining with
  | [""] => return []
  | arguments => return arguments

/-- Takes `::` and a name, if they come next. -/
def plainSegment (path : TypePath) : Parse (Option TypePath) := do
  if (← check .colonColon) && (← checkAhead 1 .identifier) then
    skip
    return some { path with plain := path.plain ++ "::" ++ (← advance).text }
  else return none

/-- Takes `::` and a name, if they come next, with template arguments before them. -/
def typeSegment (path : TypePath) : Parse (Option TypePath) := do
  if (← isCpp) && (← check .lt) then
    let _ ← speculate templateArguments
  plainSegment path

/-- Takes the `::` of the global scope; its text, or the empty one. -/
def globalScope : Parse String := do
  if ← accept .colonColon then return "::" else return ""

/-- Takes a path of names with template arguments. -/
def typePath : Parse TypePath := do
  let scope ← globalScope
  let first ← name "in type name"
  iterate typeSegment ⟨first, scope ++ first⟩

/-- Takes a path that is a type by itself. -/
def namedType : Parse Unit := do
  let path ← typePath
  unless (← view).accepts path do
    unexpected ("'" ++ path.plain ++ "' is not a known type")

/-- Takes the core of a type. -/
def bareCore : Parse Unit := do
  match ← kind with
  | .kwStruct | .kwClass | .kwUnion | .kwEnum | .kwTypename =>
    skip
    let _ ← typePath
  | .kwDecltype =>
    skip
    skipBalanced .lparen .rparen
  | .identifier | .colonColon => namedType
  | k => if k.isBuiltinType then skipWhile TokenKind.isBuiltinType else expected "type name"

/-- Takes the core of a type and the qualifiers around it. -/
def typeCore : Parse Unit := do
  skipWhile View.isQualifier
  bareCore
  skipWhile View.isQualifier

/-- The marks and qualifiers after the core of a type. -/
def isTypeSuffix : TokenKind → Bool
  | .star | .amp | .andAnd | .kwConst | .kwVolatile => true
  | _ => false

/-- Takes a type; its normalized text. -/
def typeName : Parse String := do
  let start ← position
  typeCore
  skipWhile isTypeSuffix
  textSince start

/-- Takes `::` and a name, if they come next. -/
def nameSegment (path : String) : Parse (Option String) := do
  if (← check .colonColon) && (← checkAhead 1 .identifier) then
    skip
    return some (path ++ "::" ++ (← advance).text)
  else return none

/-- Takes `[` and `]`, if they come next; whether they did. -/
def emptyBrackets : Parse Bool := do
  if (← check .lbracket) && (← checkAhead 1 .rbracket) then
    skip
    skip
    return true
  else return false

/-- Takes a name with its scopes. -/
def qualifiedName : Parse String := do
  let scope ← if ← isCpp then globalScope else pure ""
  let first ← name
  iterate nameSegment (scope ++ first)

end Parse

end CTree
