/-!
# Shortest decimals

The fewest digits that tell a binary floating-point number from its neighbours. A number `m · 2 ^ q`
is read back from all decimals between the midpoints to its neighbours, ends included where `m` is
even. Of the decimals with one digit, two digits and so on, the first in that interval is taken; of
two with the same number of digits, the nearer. Where both are equally near, the format decides.

All of it is exact arithmetic on natural numbers: a fraction is a numerator over a common
denominator.
-/

namespace ShaderReducer

namespace Decimal

structure Scientific where
  digits : List Char
  exponent : Int
  deriving Repr, DecidableEq

/-- A finite positive floating-point number and its interval: the number is `value / scale`, and the
decimals that read back lie between `low / scale` and `high / scale`. -/
structure Rounding where
  value : Nat
  low : Nat
  high : Nat
  scale : Nat
  closed : Bool
  deriving Repr, DecidableEq

/-- The interval of the number `m · 2 ^ q`. The gap below is half as wide at a power of two, unless
the number is among the smallest. -/
def Rounding.ofBinary (m : Nat) (q : Int) (narrow : Bool) : Rounding :=
  let up : Nat := Nat.pow 2 (q - 2).toNat
  let down : Nat := Nat.pow 2 (2 - q).toNat
  ⟨4 * m * up, (4 * m - (if narrow then 1 else 2)) * up, (4 * m + 2) * up, down, m % 2 == 0⟩

/-- The parts of the bits of a number: significand, exponent, and whether it stands just above a
power of two. -/
def Rounding.ofBits (bits : Nat) : Rounding :=
  let fraction : Nat := bits % Nat.pow 2 52
  let biased : Nat := bits / Nat.pow 2 52 % Nat.pow 2 11
  if biased = 0 then ofBinary fraction (-1074) false
  else ofBinary (Nat.pow 2 52 + fraction) ((biased : Int) - 1075) (fraction == 0 && 1 < biased)

def Rounding.accepts (r : Rounding) (n : Nat) : Bool :=
  if r.closed then r.low ≤ n && n ≤ r.high else r.low < n && n < r.high

/-- The power of ten at the first digit of a number. -/
def leadingExponent (r : Rounding) : Int :=
  ((Nat.toDigits 10 (r.value * Nat.pow 10 330 / r.scale)).length : Int) - 331

/-- Which of two decimals is taken if both are equally near. -/
inductive Tie where
  | toEven
  | up
  deriving Repr, DecidableEq

def Tie.isDown (tie : Tie) (below : Nat) : Bool :=
  match tie with
  | .toEven => below % 2 == 0
  | .up => false

/-- The decimal with `count` digits that is nearest to a number among those that read back. -/
def nearest? (tie : Tie) (r : Rounding) (exponent : Int) (count : Nat) : Option Scientific :=
  -- One unit in the last digit is `ten / scale` for the number over the common denominator `one`.
  let last := exponent - (count - 1 : Nat)
  let ten := r.scale * Nat.pow 10 last.toNat
  let one := Nat.pow 10 (-last).toNat
  let r : Rounding := ⟨r.value * one, r.low * one, r.high * one, r.scale * one, r.closed⟩
  let below := r.value / ten
  let above := below + 1
  let pick (n : Nat) : Option Scientific :=
    let digits := Nat.toDigits 10 n
    some ⟨digits, last + ((digits.length - 1 : Nat) : Int)⟩
  match r.accepts (below * ten), r.accepts (above * ten) with
  | true, true =>
    let left := r.value - below * ten
    let right := above * ten - r.value
    if left < right || (left == right && tie.isDown below) then pick below else pick above
  | true, false => pick below
  | false, true => pick above
  | false, false => none

def trimZeros (digits : List Char) : List Char :=
  match (digits.reverse.dropWhile (· == '0')).reverse with
  | [] => ['0']
  | trimmed => trimmed

/-- The first of the decimals with `count` digits or more that reads back. Seventeen digits
suffice. -/
def shortestFrom (tie : Tie) (r : Rounding) (exponent : Int) (count : Nat) : Nat → Scientific
  | 0 => ⟨['0'], 0⟩
  | more + 1 =>
    match nearest? tie r exponent count with
    | some found => ⟨trimZeros found.digits, found.exponent⟩
    | none => shortestFrom tie r exponent (count + 1) more

def shortest (tie : Tie) (bits : Nat) : Scientific :=
  let r := Rounding.ofBits bits
  shortestFrom tie r (leadingExponent r) 1 17

/-- A decimal without an exponent; `whole` is what is added where there is no fraction. -/
def positional (d : Scientific) (whole : String) : String :=
  let n := d.digits.length
  if d.exponent < 0 then
    "0." ++ String.ofList (List.replicate (-d.exponent - 1).toNat '0' ++ d.digits)
  else
    let k := d.exponent.toNat + 1
    if n ≤ k then String.ofList (d.digits ++ List.replicate (k - n) '0') ++ whole
    else String.ofList (d.digits.take k) ++ "." ++ String.ofList (d.digits.drop k)

def exponential (d : Scientific) : String :=
  let mantissa := match d.digits with
    | first :: rest =>
      if rest.isEmpty then String.ofList [first] else String.ofList (first :: '.' :: rest)
    | [] => "0"
  let sign := if d.exponent < 0 then "-" else "+"
  mantissa ++ "e" ++ sign ++ toString d.exponent.natAbs

def signText (x : Float) : String :=
  if x.toBits.toNat / Nat.pow 2 63 = 1 then "-" else ""

def magnitudeBits (x : Float) : Nat :=
  x.toBits.toNat % Nat.pow 2 63

/-- The text of a number in a JSON document: positional from a hundred-thousandth up to ten to the
sixteenth, and always with a point or an exponent. Ties go to the even digit. What is not finite is
written as null. -/
def jsonText (x : Float) : String :=
  if x.isFinite then
    signText x ++
      if magnitudeBits x = 0 then "0.0"
      else
        let d := shortest .toEven (magnitudeBits x)
        if -5 ≤ d.exponent ∧ d.exponent < 16 then positional d ".0" else exponential d
  else "null"

/-- The text of a number in a listing: always positional, and without a point where it is whole. Ties
go up. -/
def plainText (x : Float) : String :=
  if x.isNaN then "NaN"
  else signText x ++
    if x.isInf then "inf"
    else if magnitudeBits x = 0 then "0"
    else positional (shortest .up (magnitudeBits x)) ""

/-- A finite number rounded to one place after the point; a half goes to the even neighbour. -/
def oneDecimal (x : Float) : String :=
  let r := Rounding.ofBits (magnitudeBits x)
  let doubled := 2 * (r.value * 10) + r.scale
  let floor := doubled / (2 * r.scale)
  let tenths := if doubled % (2 * r.scale) == 0 && floor % 2 == 1 then floor - 1 else floor
  signText x ++ toString (tenths / 10) ++ "." ++ toString (tenths % 10)

end Decimal

end ShaderReducer
