import CTree.Decimal.Shortest

/-!
# Writing doubles

How the digits of a double are laid out: where the point stands, when an exponent is used instead,
and what marks a whole number.
-/

namespace CTree

/-- The decisions of one written form. -/
structure Layout where
  /-- Whether a number whose point stands after the given number of digits has no exponent. -/
  isPlain : Int → Bool
  /-- What follows the digits of a whole number. -/
  wholeMark : String
  tie : Tie

namespace Layout

/-- The given number of zeros. -/
def zeros (n : Nat) : String :=
  String.ofList (List.replicate n '0')

/-- Digits with the point after the given number of them. -/
def plain (layout : Layout) (digits : List Char) (point : Int) : String :=
  if point ≤ 0 then "0." ++ zeros (-point).toNat ++ String.ofList digits
  else if digits.length ≤ point.toNat then
    String.ofList digits ++ zeros (point.toNat - digits.length) ++ layout.wholeMark
  else String.ofList (digits.take point.toNat) ++ "." ++ String.ofList (digits.drop point.toNat)

/-- Digits with the point after the first of them, and the power of ten that makes up for it. -/
def scientific (digits : List Char) (point : Int) : String :=
  let tail := digits.drop 1
  String.ofList (digits.take 1) ++ (if tail.isEmpty then "" else "." ++ String.ofList tail) ++
    (if point ≤ 0 then "e-" else "e+") ++ toString (point - 1).natAbs

/-- The text of a finite double. -/
def write (layout : Layout) (x : Binary64) : String :=
  let d := Decimal.shortest layout.tie x
  let digits := (toString d.digits).toList
  let point := digits.length + d.exponent
  (if x.negative then "-" else "") ++
    if d.digits = 0 then "0" ++ layout.wholeMark
    else if layout.isPlain point then layout.plain digits point
    else scientific digits point

/-- The form of JSON documents: plain from 10^-5 up to 10^16, whole numbers with `.0`. -/
def json : Layout :=
  ⟨fun point => -4 ≤ point && point ≤ 16, ".0", .even⟩

/-- The form of outlines: never an exponent, whole numbers without a mark. -/
def outline : Layout :=
  ⟨fun _ => true, "", .up⟩

end Layout

end CTree
