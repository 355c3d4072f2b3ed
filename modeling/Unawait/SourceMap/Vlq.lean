import Unawait.Text.Basic

/-!
# Base-64 variable-length quantities

A number is written as a sequence of base-64 digits with five bits each, the low
bits first. The lowest bit of the number written is the sign; a digit to which
more digits follow carries the sixth bit.
-/

namespace Unawait.SourceMap.Vlq

/-- The digits of base 64 by value. -/
def alphabet : Array Char :=
  "ABCDEFGHIJKLMNOPQRSTUVWXYZabcdefghijklmnopqrstuvwxyz0123456789+/".toList.toArray

/-- The digit of a value below 64. -/
def digit (value : Nat) : Char := alphabet.getD value 'A'

/-- The digits of a number without sign, low bits first. The first argument
bounds their number. -/
def digits : Nat → Nat → Text
  | 0, value => [digit (value % 32)]
  | bound + 1, value =>
    if value < 32 then [digit value] else digit (32 + value % 32) :: digits bound (value / 32)

/-- The number with its sign in the lowest bit. -/
def signed (value : Int) : Nat :=
  if value < 0 then 2 * value.natAbs + 1 else 2 * value.natAbs

/-- The digits of a number. -/
def encode (value : Int) : Text := digits (signed value) (signed value)

end Unawait.SourceMap.Vlq
