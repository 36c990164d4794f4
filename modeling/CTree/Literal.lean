import CTree.Decimal.Binary64
import CTree.Token.Rule

/-!
# Values of literals

What the lexemes of literals stand for: signed 64-bit integers, doubles, and the text between
quotes.
-/

namespace CTree

namespace Literal

/-- Why an integer literal has no value. -/
inductive IntFault
  /-- It needs more than 64 bits. -/
  | tooLarge
  /-- A digit does not belong to its base. -/
  | badDigit
  deriving DecidableEq, Repr

/-- The value that stands in for a literal that has none. -/
def IntFault.substitute : IntFault → Int64
  | .tooLarge => Int64.maxValue
  | .badDigit => 0

/-- The value of a digit, in any base up to sixteen. -/
def digitValue (c : Char) : Nat :=
  if c.isDigit then c.toNat - '0'.toNat
  else if 'a' ≤ c && c ≤ 'f' then c.toNat - 'a'.toNat + 10
  else if 'A' ≤ c && c ≤ 'F' then c.toNat - 'A'.toNat + 10
  else 16

/-- The value of digits in a base, put after the digits of `n`. -/
def digitsValue (base : Nat) (n : Nat) : List Char → Nat
  | [] => n
  | c :: cs => digitsValue base (n * base + digitValue c) cs

/-- A text without the characters of a class at its end. -/
def dropEnd (p : Char → Bool) (cs : List Char) : List Char :=
  (cs.reverse.dropWhile p).reverse

/-- The base of an integer literal without its suffix, and its digits in that base. -/
def radix : List Char → Nat × List Char
  | '0' :: 'x' :: cs | '0' :: 'X' :: cs => (16, cs)
  | '0' :: c :: cs => (8, c :: cs)
  | cs => (10, cs)

/-- The value of an integer literal. Values from 2^63 up to 2^64 wrap to negative ones. -/
def int (text : List Char) : Except IntFault Int64 :=
  let (base, digits) := radix (dropEnd Rule.isIntSuffix text)
  if digits.all (digitValue · < base) then
    let n := digitsValue base 0 digits
    if n < UInt64.size then .ok (Int64.ofNat n) else .error .tooLarge
  else .error .badDigit

/-- A mark at the end of a real literal. -/
def isRealSuffix (c : Char) : Bool :=
  c == 'f' || c == 'F' || c == 'l' || c == 'L'

/-- The power of ten of a real literal, from what follows its digits. -/
def powerOfTen : List Char → Int
  | _ :: '-' :: cs => -(digitsValue 10 0 cs : Int)
  | _ :: '+' :: cs => digitsValue 10 0 cs
  | _ :: cs => digitsValue 10 0 cs
  | [] => 0

/-- The value of a real literal: the double nearest to it. -/
def real (text : List Char) : Binary64 :=
  let cs := dropEnd isRealSuffix text
  let whole := cs.takeWhile Rule.isDigit
  let rest := (cs.dropWhile Rule.isDigit).drop 1
  let fraction := rest.takeWhile Rule.isDigit
  let power := powerOfTen (rest.dropWhile Rule.isDigit)
  Binary64.ofDecimal (digitsValue 10 0 (whole ++ fraction)) (power - fraction.length)

/-- The text between the quotes of a literal, escapes kept. An unterminated literal has no closing
quote to be dropped. -/
def body : List Char → List Char
  | [] => []
  | quote :: cs => if cs.getLast? == some quote then cs.dropLast else cs

end Literal

end CTree
