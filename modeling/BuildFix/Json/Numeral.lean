import BuildFix.Json.Basic

/-!
# The range of numbers

A numeral is accepted when its value is a finite double.  The value is taken
from at most as many leading digits as fit into 64 bits, multiplied by the power
of ten that the other digits and the exponent leave.  Both factors and their
product are rounded to doubles.  A number with a negative power of ten is never
out of range.

The test is made on natural numbers, so it is exact.
-/

namespace BuildFix.Json

/-- The nearest natural number with at most 53 significant bits.  A tie goes to
the even one. -/
def roundToDouble (n : Nat) : Nat :=
  let drop := n.log2 + 1 - 53
  let unit := Nat.pow 2 drop
  let quotient := n / unit
  let rest := 2 * (n % unit)
  if rest > unit || (rest == unit && quotient % 2 == 1) then (quotient + 1) * unit
  else quotient * unit

/-- The value of a decimal digit. -/
def digitValue (c : Char) : Nat := c.toNat - '0'.toNat

/-- The natural number that digits spell. -/
def ofDigits (ds : List Char) : Nat := ds.foldl (fun n d => n * 10 + digitValue d) 0

/-- Extend `n` by leading digits as long as the result fits into 64 bits, and
count the digits that are left. -/
def absorb (n : Nat) : List Char → Nat × Nat
  | [] => (n, 0)
  | d :: ds =>
      if n * 10 + digitValue d < Nat.pow 2 64 then absorb (n * 10 + digitValue d) ds
      else (n, ds.length + 1)

/-- Decide whether `n` times ten to the power `e` rounds to an infinite double. -/
def overflows (n : Nat) (e : Int) : Bool :=
  n != 0 && 0 ≤ e &&
    (308 < e ||
      Nat.pow 2 1024 - Nat.pow 2 970 ≤ roundToDouble n * roundToDouble (Nat.pow 10 e.toNat))

/-- Decide whether the value of a numeral is a finite double. -/
def inRange (numeral : String) : Bool :=
  let cs := numeral.toList.dropWhile (· == '-')
  let whole := cs.takeWhile Char.isDigit
  let cs := cs.dropWhile Char.isDigit
  let fraction := if cs.head? = some '.' then cs.tail.takeWhile Char.isDigit else []
  let cs := if cs.head? = some '.' then cs.tail.dropWhile Char.isDigit else cs
  let power : Int :=
    match cs.tail with
    | '-' :: ds => -(ofDigits ds : Int)
    | '+' :: ds => ofDigits ds
    | ds => ofDigits ds
  let (front, left) := absorb 0 whole
  let (digits, unread) := absorb front fraction
  !overflows digits (left - (fraction.length - unread : Nat) + power)

example : inRange "1.7976931348623157e308" = true := by decide +kernel
example : inRange "-1e309" = false := by decide +kernel
example : inRange "0e999" = true := by decide +kernel

end BuildFix.Json
