import ShaderReducer.Text.Number

/-!
# Reading decimals

The floating-point number that a text stands for: digits with at most one point between or beside
them and perhaps an exponent, or one of the words for infinity and for what is no number.
-/

namespace ShaderReducer

namespace Decimal

/-- The nearest number to `n · 10 ^ exponent`. Numbers far out of range are not computed. -/
def nearestFloat (n : Nat) (exponent : Int) : Float :=
  let size := (Nat.toDigits 10 n).length + exponent
  if n = 0 ∨ size < -400 then 0.0
  else if 400 < size then 1.0 / 0.0
  else Float.ofScientific n (exponent < 0) exponent.natAbs

def exponent? : List Char → Option Int
  | [] => some 0
  | mark :: rest =>
    if mark == 'e' || mark == 'E' then
      match rest with
      | '-' :: digits => (Text.digits? 10 digits).map fun n => -(n : Int)
      | '+' :: digits => (Text.digits? 10 digits).map fun n => (n : Int)
      | digits => (Text.digits? 10 digits).map fun n => (n : Int)
    else none

/-- The number without a sign that a text stands for. -/
def unsigned? (cs : List Char) : Option Float :=
  let word := String.ofList (cs.map Char.toLower)
  if word == "inf" || word == "infinity" then some (1.0 / 0.0)
  else if word == "nan" then some (0.0 / 0.0)
  else do
    let whole := cs.takeWhile Char.isDigit
    let rest := cs.drop whole.length
    let (fraction, rest) := match rest with
      | '.' :: after =>
        let fraction := after.takeWhile Char.isDigit
        (fraction, after.drop fraction.length)
      | _ => ([], rest)
    let n ← Text.digits? 10 (whole ++ fraction)
    return nearestFloat n ((← exponent? rest) - fraction.length)

def ofText? (cs : List Char) : Option Float :=
  match cs with
  | '-' :: rest => (unsigned? rest).map fun x => -x
  | '+' :: rest => unsigned? rest
  | _ => unsigned? cs

end Decimal

end ShaderReducer
