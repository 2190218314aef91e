/-!
# Whole numbers in text

Digits of a base, and the reading of a whole number that must fit a given number of bits.
-/

namespace ShaderReducer

namespace Text

/-- The value of a digit in bases up to sixteen, in either case. -/
def digitValue? (c : Char) : Option Nat :=
  if '0' ≤ c ∧ c ≤ '9' then some (c.toNat - '0'.toNat)
  else if 'a' ≤ c ∧ c ≤ 'f' then some (c.toNat - 'a'.toNat + 10)
  else if 'A' ≤ c ∧ c ≤ 'F' then some (c.toNat - 'A'.toNat + 10)
  else none

/-- The value of the digits `cs` after a number `acc` already read, or `none` at a character that
is no digit of the base. -/
def digitsFrom? (base : Nat) : Nat → List Char → Option Nat
  | acc, [] => some acc
  | acc, c :: rest =>
    match digitValue? c with
    | some d => if d < base then digitsFrom? base (acc * base + d) rest else none
    | none => none

def digits? (base : Nat) (cs : List Char) : Option Nat :=
  if cs.isEmpty then none else digitsFrom? base 0 cs

/-- A natural number below `2 ^ bits`: digits of the base, after at most one `+`. -/
def natural? (base bits : Nat) (cs : List Char) : Option Nat :=
  let digits := match cs with
    | '+' :: rest => rest
    | _ => cs
  match digits? base digits with
  | some n => if n < Nat.pow 2 bits then some n else none
  | none => none

end Text

end ShaderReducer
