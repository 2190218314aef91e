import ShaderReducer.Decimal.Shortest

/-!
# Decimals with so many digits

A floating-point number rounded to a number of places after the point, or to a number of digits.
What is exactly between two decimals goes to the one with the even digit.
-/

namespace ShaderReducer

namespace Decimal

/-- A fraction rounded to a whole number; a half goes to the even neighbour. -/
def roundedQuotient (n d : Nat) : Nat :=
  let floor := n / d
  let twice := 2 * (n % d)
  if twice < d then floor
  else if d < twice then floor + 1
  else floor + floor % 2

def fixedDigits (bits places : Nat) : List Char × List Char :=
  let r := Rounding.ofBits bits
  let n := roundedQuotient (r.value * Nat.pow 10 places) r.scale
  let digits := Nat.toDigits 10 n
  let digits := List.replicate (places + 1 - digits.length) '0' ++ digits
  (digits.take (digits.length - places), digits.drop (digits.length - places))

/-- The digits of a magnitude, of which one is before the point, and the power of ten of that. -/
def scientificDigits (bits places : Nat) : List Char × Int :=
  if bits = 0 then (List.replicate (places + 1) '0', 0)
  else
    let r := Rounding.ofBits bits
    let e := leadingExponent r
    let shift := (places : Int) - e
    let n := roundedQuotient (r.value * Nat.pow 10 shift.toNat)
      (r.scale * Nat.pow 10 (-shift).toNat)
    let digits := Nat.toDigits 10 n
    if places + 1 < digits.length then (digits.take (places + 1), e + 1) else (digits, e)

/-- The digits after a point, if there are any or the point is always shown. -/
def afterPoint (always : Bool) (digits : List Char) : List Char :=
  if digits.isEmpty && !always then [] else '.' :: digits

/-- An exponent with its sign and at least two digits. -/
def exponentText (e : Int) : List Char :=
  let digits := Nat.toDigits 10 e.natAbs
  'e' :: (if e < 0 then '-' else '+') :: (List.replicate (2 - digits.length) '0' ++ digits)

def withoutZeros (digits : List Char) : List Char :=
  (digits.reverse.dropWhile (· == '0')).reverse

def fixedText (bits places : Nat) (always : Bool) : List Char :=
  let (whole, fraction) := fixedDigits bits places
  whole ++ afterPoint always fraction

def exponentialText (bits places : Nat) (always : Bool) : List Char :=
  let (digits, e) := scientificDigits bits places
  digits.take 1 ++ afterPoint always (digits.drop 1) ++ exponentText e

/-- A magnitude with so many digits, in the shorter of both notations; zeros at the end are dropped
unless all digits are shown. -/
def generalText (bits count : Nat) (all : Bool) : List Char :=
  let count := max count 1
  let (digits, e) := scientificDigits bits (count - 1)
  let trim (cs : List Char) : List Char := if all then cs else withoutZeros cs
  if e < -4 || (count : Int) ≤ e then
    digits.take 1 ++ afterPoint all (trim (digits.drop 1)) ++ exponentText e
  else
    let (whole, fraction) := fixedDigits bits ((count : Int) - 1 - e).toNat
    whole ++ afterPoint all (trim fraction)

end Decimal

end ShaderReducer
