import CTree.Text.WordChar

/-!
# Readers of lexemes

A reader says how many characters at the start of a text form a lexeme of one shape. Readers are
put together from texts and runs of a character class; none of them ever has a choice to take
back, so each shape has one length.
-/

namespace CTree

/-- The number of characters of the lexeme that a text starts with, if it starts with one. -/
abbrev Reader := List Char → Option Nat

namespace Reader

/-- The given text. -/
def text (w : List Char) : Reader := fun cs =>
  if w.isPrefixOf cs then some w.length else none

/-- One character of a class. -/
def one (p : Char → Bool) : Reader
  | [] => none
  | c :: _ => if p c then some 1 else none

/-- The longest run of a class, which may be empty. -/
def run (p : Char → Bool) : Reader := fun cs =>
  some (cs.takeWhile p).length

/-- The longest run of a class, which may not be empty. -/
def run1 (p : Char → Bool) : Reader := fun cs =>
  match (cs.takeWhile p).length with
  | 0 => none
  | n + 1 => some (n + 1)

/-- A lexeme that may be left out. -/
def optional (r : Reader) : Reader := fun cs =>
  some ((r cs).getD 0)

/-- Several lexemes, one after the other. -/
def sequence : List Reader → Reader
  | [], _ => some 0
  | r :: rs, cs => do
    let m ← r cs
    let n ← sequence rs (cs.drop m)
    pure (m + n)

/-- The place where a word ends: no word character follows. -/
def wordEnd : Reader
  | [] => some 0
  | c :: _ => if Text.isWordChar c then none else some 0

end Reader

end CTree
