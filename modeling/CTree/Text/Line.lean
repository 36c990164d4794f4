import CTree.Text.Position

/-!
# Logical lines

A line that ends in a backslash goes on in the next one. Carriage returns before the line feed do
not count.
-/

namespace CTree.Text

/-- The position of the line feed that ends a logical line, or of the end of the text. The text
starts at `offset`; `escaped` tells whether a backslash was the last character before it. -/
def logicalEndFrom (offset : Nat) (escaped : Bool) : List Char → Nat
  | [] => offset
  | c :: cs =>
    if c = '\n' && !escaped then offset
    else logicalEndFrom (offset + c.utf8Size) (if c = '\r' then escaped else c == '\\') cs

/-- Where the logical line ends that the position `offset` of a text lies in. -/
def logicalEnd (text : List Char) (offset : Nat) : Nat :=
  logicalEndFrom offset false (after offset text)

end CTree.Text
