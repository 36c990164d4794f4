import CTree.Text.Position
import CTree.Token.Kind

/-!
# Tokens

A token is a kind, its text, and the position at which the text starts. `Token.join` writes a run
of tokens back with normalized spacing; type names and template heads are kept in that form.
-/

namespace CTree

/-- A classified piece of a source text. -/
structure Token where
  kind : TokenKind
  text : String
  /-- The position of the first byte. -/
  offset : Nat
  deriving DecidableEq, Repr, Inhabited

namespace Token

/-- The position just after the last byte. -/
def stop (t : Token) : Nat :=
  t.offset + Text.byteLength t.text.toList

/-- A token as a diagnostic names it. -/
def describe (t : Token) : String :=
  match t.kind with
  | .identifier => "identifier '" ++ t.text ++ "'"
  | .hexLiteral | .octalLiteral | .intLiteral | .floatLiteral | .stringLiteral | .charLiteral =>
    t.kind.describe ++ " " ++ t.text
  | .otherDirective => "directive '" ++ t.text ++ "'"
  | .eof => "end of file"
  | _ => "'" ++ t.text ++ "'"

/-- A word stands apart from a word, and from what may end a type; all else only from a comma. -/
def spaced (left right : TokenKind) : Bool :=
  if right.isWordy then
    left.isWordy || match left with
      | .comma | .gt | .shr | .star | .amp | .andAnd | .ellipsis => true
      | _ => false
  else left == .comma

/-- The text of tokens that follow a token of the given kind. -/
def joinAfter (left : TokenKind) : List Token → String
  | [] => ""
  | t :: ts => (if spaced left t.kind then " " else "") ++ t.text ++ joinAfter t.kind ts

/-- The text of a run of tokens, as in `std::vector<int>`, `const char*`, `unsigned long`. -/
def join : List Token → String
  | [] => ""
  | t :: ts => t.text ++ joinAfter t.kind ts

end Token

end CTree
