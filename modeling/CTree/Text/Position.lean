/-!
# Positions in a text

A position is a number of bytes of the UTF-8 form. `before` and `after` cut a text at a
position, `slice` takes what lies between two, and `place` turns one into a line and a column.
-/

namespace CTree.Text

/-- The number of bytes that a text takes. -/
def byteLength : List Char → Nat
  | [] => 0
  | c :: cs => c.utf8Size + byteLength cs

@[simp] theorem byteLength_nil : byteLength [] = 0 := rfl

@[simp] theorem byteLength_cons (c : Char) (cs : List Char) :
    byteLength (c :: cs) = c.utf8Size + byteLength cs := rfl

@[simp] theorem byteLength_append (a b : List Char) :
    byteLength (a ++ b) = byteLength a + byteLength b := by
  induction a with
  | nil => simp
  | cons c cs ih => simp [ih, Nat.add_assoc]

/-- The characters that start before a position. -/
def before : Nat → List Char → List Char
  | _, [] => []
  | n, c :: cs => if n = 0 then [] else c :: before (n - c.utf8Size) cs

/-- The characters that start at a position or later. -/
def after : Nat → List Char → List Char
  | _, [] => []
  | n, c :: cs => if n = 0 then c :: cs else after (n - c.utf8Size) cs

/-- The characters that start at `start` or later and before `stop`. -/
def slice (start stop : Nat) (text : List Char) : List Char :=
  before (stop - start) (after start text)

theorem before_append_after (n : Nat) (text : List Char) : before n text ++ after n text = text := by
  fun_induction before n text <;> simp_all [after]

/-- A line and a column, both counted from one; a column is a number of characters. -/
structure Place where
  line : Nat
  column : Nat
  deriving DecidableEq, Repr

/-- Where a text begins. -/
def Place.start : Place := ⟨1, 1⟩

/-- The place after a character: only a line feed ends a line. -/
def Place.next (p : Place) (c : Char) : Place :=
  if c = '\n' then ⟨p.line + 1, 1⟩ else ⟨p.line, p.column + 1⟩

/-- The place of a position; one past the end has the place just after the last character. -/
def place (text : List Char) (position : Nat) : Place :=
  (before position text).foldl Place.next Place.start

end CTree.Text
