/-!
# Double-precision numbers

A double is its three fields: sign, exponent, fraction. A finite one is a whole number of units of
2^-1074, which makes every comparison here one of natural numbers. `Binary64.ofDecimal` reads a
decimal to the nearest double, a tie going to the even fraction. Powers are `Nat.pow` by name, so
that no import changes what a definition says.
-/

namespace CTree

/-- A double-precision number, by its fields. -/
structure Binary64 where
  negative : Bool
  exponent : Fin 2048
  fraction : Fin (Nat.pow 2 52)
  deriving DecidableEq, Repr

namespace Binary64

/-- The numbers that are neither infinite nor undefined. -/
def isFinite (x : Binary64) : Bool :=
  x.exponent.val != 2047

/-- The whole number before the power of two. -/
def significand (x : Binary64) : Nat :=
  if x.exponent.val = 0 then x.fraction.val else Nat.pow 2 52 + x.fraction.val

/-- The distance to the next greater double, in units of 2^-1074. -/
def gap (x : Binary64) : Nat :=
  Nat.pow 2 (x.exponent.val - 1)

/-- The size of a finite double, in units of 2^-1074. -/
def units (x : Binary64) : Nat :=
  x.significand * x.gap

/-- The infinite double above all finite ones. -/
def infinity : Binary64 :=
  ⟨false, ⟨2047, by decide⟩, ⟨0, by decide⟩⟩

/-- The quotient of `n` by `d`, rounded to the nearest whole number, a tie to the even one. -/
def roundQuotient (n d : Nat) : Nat :=
  let q := n / d
  let r := n % d
  if 2 * r < d then q
  else if 2 * r > d then q + 1
  else if q % 2 = 0 then q else q + 1

/-- The fraction of a significand. -/
def fractionOf (m : Nat) : Fin (Nat.pow 2 52) :=
  ⟨m % Nat.pow 2 52, Nat.mod_lt m (by decide)⟩

/-- The double with the given significand, at most 2^53, and gap 2^(`e` - 1). -/
def ofSignificand (m e : Nat) : Binary64 :=
  let (m, e) := if m = Nat.pow 2 53 then (Nat.pow 2 52, e + 1) else (m, e)
  if m < Nat.pow 2 52 then ⟨false, Fin.ofNat 2048 0, fractionOf m⟩
  else if e < 2047 then ⟨false, Fin.ofNat 2048 e, fractionOf m⟩
  else infinity

/-- The double nearest to the quotient of `n` by `d`. The exponent is the least for which the
significand stays below 2^53; the logarithms are off by one at most. -/
def ofQuotient (n d : Nat) : Binary64 :=
  let n := n * Nat.pow 2 1074
  let e := n.log2 - d.log2 - 52
  let e := max 1 (if n < Nat.pow 2 53 * (d * Nat.pow 2 (e - 1)) then e else e + 1)
  ofSignificand (roundQuotient n (d * Nat.pow 2 (e - 1))) e

/-- The double nearest to `digits` times ten to the power `scale`. Beyond 10^310 all are infinite,
and below 10^-330 all are zero, so that the powers stay small. -/
def ofDecimal (digits : Nat) (scale : Int) : Binary64 :=
  let size := scale + (toString digits).length
  if digits = 0 || size < -330 then ofSignificand 0 1
  else if 310 < size then infinity
  else if 0 ≤ scale then ofQuotient (digits * Nat.pow 10 scale.toNat) 1
  else ofQuotient digits (Nat.pow 10 (-scale).toNat)

end Binary64

end CTree
