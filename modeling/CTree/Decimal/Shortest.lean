import CTree.Decimal.Binary64

/-!
# The shortest decimal of a double

Among the decimals that read back as a given double, the ones with the fewest digits, and of these
the nearest. A decimal reads back exactly if it lies between the midpoints to the two neighbours,
the midpoints themselves included when the significand is even. If some decimal of `n` digits lies
there, so does one of the two that enclose the double, so only these are tried.
-/

namespace CTree

/-- A decimal: `digits` times ten to the power `exponent`. -/
structure Decimal where
  digits : Nat
  exponent : Int
  deriving DecidableEq, Repr

/-- Which of two equally near decimals is taken. -/
inductive Tie
  | even
  | up
  deriving DecidableEq, Repr

namespace Binary64

/-- The midpoint to the neighbour below, in quarters of a unit: half as far away when the
significand is the least of its binade. -/
def lowerBound (x : Binary64) : Nat :=
  4 * x.units - (if x.fraction.val = 0 && 1 < x.exponent.val then x.gap else 2 * x.gap)

/-- The midpoint to the neighbour above, in quarters of a unit. -/
def upperBound (x : Binary64) : Nat :=
  4 * x.units + 2 * x.gap

end Binary64

namespace Decimal

/-- A decimal as a quotient of whole numbers, in quarters of 2^-1074. -/
def quarters (d : Decimal) : Nat × Nat :=
  if 0 ≤ d.exponent then (d.digits * Nat.pow 10 d.exponent.toNat * Nat.pow 2 1076, 1)
  else (d.digits * Nat.pow 2 1076, Nat.pow 10 (-d.exponent).toNat)

/-- Whether a decimal reads back as the given double. -/
def readsAs (d : Decimal) (x : Binary64) : Bool :=
  let (n, q) := d.quarters
  if x.significand % 2 = 0 then x.lowerBound * q ≤ n && n ≤ x.upperBound * q
  else x.lowerBound * q < n && n < x.upperBound * q

/-- The number of digits before the point of a double that is at least one; for a smaller one,
less one for each zero right after the point. -/
def pointOf (x : Binary64) : Int :=
  let whole := x.units / Nat.pow 2 1074
  if whole ≠ 0 then (toString whole).length
  else
    let zeros := (List.range 330).find? fun j => Nat.pow 2 1074 ≤ x.units * Nat.pow 10 (j + 1)
    Int.negOfNat (zeros.getD 0)

/-- The greatest decimal with the given exponent that is no greater than the double. -/
def floor (x : Binary64) (exponent : Int) : Decimal :=
  if 0 ≤ exponent then ⟨x.units / (Nat.pow 2 1074 * Nat.pow 10 exponent.toNat), exponent⟩
  else ⟨x.units * Nat.pow 10 (-exponent).toNat / Nat.pow 2 1074, exponent⟩

/-- The next decimal with the same exponent. -/
def next (d : Decimal) : Decimal :=
  { d with digits := d.digits + 1 }

/-- Of a decimal below a double and the next one above it, the nearer. -/
def nearer (tie : Tie) (x : Binary64) (d : Decimal) : Decimal :=
  let (below, q) := d.quarters
  let (above, _) := d.next.quarters
  let middle := 8 * x.units * q
  if middle < below + above then d
  else if below + above < middle then d.next
  else match tie with
    | .up => d.next
    | .even => if d.digits % 2 = 0 then d else d.next

/-- A decimal with the given exponent that reads back as the double, if there is one. -/
def atExponent? (tie : Tie) (x : Binary64) (exponent : Int) : Option Decimal :=
  let d := floor x exponent
  match d.readsAs x, d.next.readsAs x with
  | true, true => some (d.nearer tie x)
  | true, false => some d
  | false, true => some d.next
  | false, false => none

/-- The first decimal that reads back, trying more and more digits. -/
def search (tie : Tie) (x : Binary64) : Nat → Int → Decimal
  | 0, exponent => floor x exponent
  | n + 1, exponent => (atExponent? tie x exponent).getD (search tie x n (exponent - 1))

/-- A decimal without zeros at the end of its digits. -/
def trim (d : Decimal) : Decimal :=
  if h : d.digits ≠ 0 ∧ d.digits % 10 = 0 then trim ⟨d.digits / 10, d.exponent + 1⟩ else d
termination_by d.digits
decreasing_by omega

/-- The shortest decimal that reads back as the size of a finite double; zero for zero. Every
double is a decimal of at most 1100 digits, so the search ends. -/
def shortest (tie : Tie) (x : Binary64) : Decimal :=
  if x.units = 0 then ⟨0, 0⟩ else (search tie x 1100 (pointOf x - 1)).trim

end Decimal

end CTree
