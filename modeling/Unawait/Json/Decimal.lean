import Unawait.Text.Basic

/-!
# Decimal numbers and the range of doubles

A number is read into a significand below `2 ^ 64` and a power of ten. Digits
that no longer fit are dropped: before the point they only raise the power, behind
it they count for nothing. The number is out of range if the product of the two
parts, each first rounded to a double, rounds to no finite double. Everything is
exact arithmetic of natural numbers.
-/

namespace Unawait.Json

/-- A number that was read digit by digit, without its sign. -/
structure Decimal where
  significand : Nat := 0
  power : Int := 0
deriving DecidableEq

namespace Decimal

/-- The value of a decimal digit. -/
def digitValue (c : Char) : Nat := c.toNat - '0'.toNat

/-- The significand with one more digit, if that fits. -/
def pushed? (number : Decimal) (digit : Char) : Option Nat :=
  let significand := number.significand * 10 + digitValue digit
  if significand < 0x10000000000000000 then some significand else none

/-- Take the digits before the point. -/
def whole (number : Decimal) : Text → Decimal
  | [] => number
  | digit :: rest =>
    match number.pushed? digit with
    | some significand => whole { number with significand } rest
    | none => { number with power := number.power + (rest.length + 1) }

/-- Take the digits behind the point. -/
def fraction (number : Decimal) : Text → Decimal
  | [] => number
  | digit :: rest =>
    match number.pushed? digit with
    | some significand => fraction { significand, power := number.power - 1 } rest
    | none => number

/-- The natural number that decimal digits write. -/
def natural (digits : Text) : Nat := digits.foldl (fun n digit => n * 10 + digitValue digit) 0

/-- Take an exponent. -/
def scaled (number : Decimal) (negative : Bool) (digits : Text) : Decimal :=
  let exponent : Int := natural digits
  { number with power := if negative then number.power - exponent else number.power + exponent }

/-- The nearest number with at most 53 significant bits; of two the even one. -/
def toDouble (n : Nat) : Nat :=
  let unit := Nat.pow 2 (n.log2 + 1 - 53)
  let quotient := n / unit
  let remainder := n % unit
  let up := unit < 2 * remainder || (unit == 2 * remainder && quotient % 2 == 1)
  (if up then quotient + 1 else quotient) * unit

/-- The least number that rounds to no finite double. -/
def bound : Nat := Nat.pow 2 1024 - Nat.pow 2 970

/-- Whether a number is too large for a double. -/
def isOutOfRange (number : Decimal) : Bool :=
  if number.significand == 0 || number.power < 0 then false
  else if 308 < number.power then true
  else bound ≤ toDouble number.significand * toDouble (Nat.pow 10 number.power.toNat)

end Decimal

end Unawait.Json
