import ShaderReducer.Text.Number

/-!
# JSON values

What a JSON document holds, before it is known what its numbers and strings are for.
-/

namespace ShaderReducer

namespace Json

/-- A number as it is written: `significand · 10 ^ exponent`. The significand holds as many of the
digits as fit 64 bits. `whole` says that the number is written without point and exponent and that
all its digits fit. -/
structure Numeral where
  negative : Bool
  significand : Nat
  exponent : Int
  whole : Bool
  deriving Repr, DecidableEq

/-- A JSON value. A string is absent if an escape in it stands for half a character. -/
inductive Value where
  | null
  | bool (b : Bool)
  | number (n : Numeral)
  | string (text : Option String)
  | array (items : List Value)
  | object (fields : List (Option String × Value))

namespace Numeral

def power (n : Nat) : Float :=
  Float.ofScientific 1 false n

/-- A number divided by a power of ten of any size. Powers that are too large for a number are
divided by in parts; there are no more parts than `parts`. -/
def divide (x : Float) (n : Nat) : Nat → Float
  | 0 => 0.0
  | parts + 1 =>
    if n ≤ 308 then x / power n
    else if x == 0.0 then x
    else divide (x / power 308) (n - 308) parts

/-- The value of a numeral: the significand is rounded, and multiplied or divided by the power of
ten, which rounds again. A number that is too large has none. -/
def toFloat? (n : Numeral) : Option Float :=
  let x := n.significand.toUInt64.toFloat
  let magnitude : Option Float :=
    if 0 ≤ n.exponent then
      if n.exponent ≤ 308 then
        let y := x * power n.exponent.toNat
        if y.isInf then none else some y
      else if x == 0.0 then some x else none
    else some (divide x n.exponent.natAbs (n.exponent.natAbs + 1))
  magnitude.map fun y => if n.negative then -y else y

/-- The value of a numeral for a natural number below a bound. -/
def toNat? (n : Numeral) (bound : Nat) : Option Nat :=
  if n.whole && !n.negative && n.significand < bound then some n.significand else none

end Numeral

end Json

end ShaderReducer

/-!
## Reading JSON

`Json.parse?` reads the value that a text stands for. Each rule takes the text ahead and answers
with what it read and the text after it; a text that is no JSON has no answer.

Values within values are read down to a depth that is bounded by the length of the text, since each
level takes a character.
-/

namespace ShaderReducer

namespace Json

def isSpace (c : Char) : Bool :=
  c == ' ' || c == '\n' || c == '\t' || c == '\r'

def skip (cs : List Char) : List Char :=
  cs.dropWhile isSpace

/-- Reads digits into a significand as long as they fit 64 bits. Answers with the significand, the
number of digits that were read, the number of digits that are left, and the text after them. -/
def significand : Nat → List Char → Nat × Nat × Nat × List Char
  | n, c :: rest =>
    if c.isDigit then
      let next := n * 10 + (c.toNat - '0'.toNat)
      if next < Nat.pow 2 64 then
        let (m, read, left, after) := significand next rest
        (m, read + 1, left, after)
      else
        let digits := (c :: rest).takeWhile Char.isDigit
        (n, 0, digits.length, (c :: rest).drop digits.length)
    else (n, 0, 0, c :: rest)
  | n, [] => (n, 0, 0, [])

def exponent? (cs : List Char) : Option (Option Int × List Char) :=
  match cs with
  | e :: rest =>
    if e == 'e' || e == 'E' then
      let (negative, rest) := match rest with
        | '-' :: after => (true, after)
        | '+' :: after => (false, after)
        | _ => (false, rest)
      let digits := rest.takeWhile Char.isDigit
      match Text.digits? 10 digits with
      | some n => some (some (if negative then -(n : Int) else n), rest.drop digits.length)
      | none => none
    else some (none, cs)
  | [] => some (none, [])

def fraction? (negative : Bool) (n left : Nat) (cs : List Char) :
    Option (Numeral × List Char) :=
  match cs with
  | '.' :: rest =>
    let (m, read, dropped, after) := significand n rest
    if read + dropped = 0 then none
    else (exponent? after).map fun (e, after) =>
      (⟨negative, m, (left : Int) - read + e.getD 0, false⟩, after)
  | _ => (exponent? cs).map fun (e, after) =>
      (⟨negative, n, (left : Int) + e.getD 0, e.isNone && left == 0⟩, after)

/-- A number behind its sign. No digit may follow a zero in front. -/
def magnitude? (negative : Bool) (cs : List Char) : Option (Numeral × List Char) :=
  match cs with
  | '0' :: rest => if (rest.head?.any Char.isDigit) then none else fraction? negative 0 0 rest
  | c :: _ =>
    if c.isDigit then
      let (n, _, left, after) := significand 0 cs
      fraction? negative n left after
    else none
  | [] => none

def number? (cs : List Char) : Option (Numeral × List Char) :=
  match cs with
  | '-' :: rest => magnitude? true rest
  | _ => magnitude? false cs

def hexUnit? (cs : List Char) : Option (Nat × List Char) :=
  match cs with
  | a :: b :: c :: d :: rest => (Text.digits? 16 [a, b, c, d]).map (·, rest)
  | _ => none

/-- What an escape stands for, after the backslash: a character, or nothing if it is half of one. -/
def escape? (cs : List Char) : Option (Option Char × List Char) :=
  match cs with
  | '"' :: rest => some (some '"', rest)
  | '\\' :: rest => some (some '\\', rest)
  | '/' :: rest => some (some '/', rest)
  | 'b' :: rest => some (some '\x08', rest)
  | 'f' :: rest => some (some '\x0c', rest)
  | 'n' :: rest => some (some '\n', rest)
  | 'r' :: rest => some (some '\r', rest)
  | 't' :: rest => some (some '\t', rest)
  | 'u' :: rest => (hexUnit? rest).map fun (high, after) =>
    if 0xD800 ≤ high ∧ high < 0xDC00 then
      match after with
      | '\\' :: 'u' :: more =>
        match hexUnit? more with
        | some (low, after') =>
          if 0xDC00 ≤ low ∧ low < 0xE000 then
            (some (Char.ofNat (0x10000 + (high - 0xD800) * 0x400 + (low - 0xDC00))), after')
          else (none, after)
        | none => (none, after)
      | _ => (none, after)
    else if 0xDC00 ≤ high ∧ high < 0xE000 then (none, after)
    else (some (Char.ofNat high), after)
  | _ => none

/-- The characters of a string up to its closing quote. A control character may not stand in it. -/
def stringRest? : Nat → List Char → Option (Option (List Char) × List Char)
  | 0, _ => none
  | _ + 1, '"' :: rest => some (some [], rest)
  | fuel + 1, '\\' :: rest =>
    match escape? rest with
    | some (c, after) => (stringRest? fuel after).map fun (text, after) =>
      ((match c, text with
        | some c, some text => some (c :: text)
        | _, _ => none), after)
    | none => none
  | fuel + 1, c :: rest =>
    if c.toNat < 0x20 then none
    else (stringRest? fuel rest).map fun (text, after) => (text.map (c :: ·), after)
  | _ + 1, [] => none

def string? (cs : List Char) : Option (Option String × List Char) :=
  (stringRest? (cs.length + 1) cs).map fun (text, after) => (text.map String.ofList, after)

def word? (word : String) (cs : List Char) : Option (List Char) :=
  if word.toList.isPrefixOf cs then some (cs.drop word.length) else none

mutual

def value? (depth : Nat) (cs : List Char) : Option (Value × List Char) :=
  match depth with
  | 0 => none
  | depth + 1 =>
    match skip cs with
    | '"' :: rest => (string? rest).map fun (text, after) => (.string text, after)
    | '[' :: rest =>
      match skip rest with
      | ']' :: after => some (.array [], after)
      | rest => (items? depth rest).map fun (items, after) => (.array items, after)
    | '\x7b' :: rest =>
      match skip rest with
      | '\x7d' :: after => some (.object [], after)
      | rest => (fields? depth rest).map fun (fields, after) => (.object fields, after)
    | 'n' :: rest => (word? "ull" rest).map (.null, ·)
    | 't' :: rest => (word? "rue" rest).map (.bool true, ·)
    | 'f' :: rest => (word? "alse" rest).map (.bool false, ·)
    | rest => (number? rest).map fun (n, after) => (.number n, after)

def items? (depth : Nat) (cs : List Char) : Option (List Value × List Char) :=
  match depth with
  | 0 => none
  | depth + 1 =>
    match value? depth cs with
    | some (item, after) =>
      match skip after with
      | ',' :: rest => (items? depth rest).map fun (items, after) => (item :: items, after)
      | ']' :: rest => some ([item], rest)
      | _ => none
    | none => none

def fields? (depth : Nat) (cs : List Char) : Option (List (Option String × Value) × List Char) :=
  match depth with
  | 0 => none
  | depth + 1 =>
    match skip cs with
    | '"' :: rest =>
      match string? rest with
      | some (key, after) =>
        match skip after with
        | ':' :: rest =>
          match value? depth rest with
          | some (value, after) =>
            match skip after with
            | ',' :: rest =>
              (fields? depth rest).map fun (fields, after) => ((key, value) :: fields, after)
            | '\x7d' :: rest => some ([(key, value)], rest)
            | _ => none
          | none => none
        | _ => none
      | none => none
    | _ => none

end

def parse? (text : String) : Option Value :=
  let cs := text.toList
  match value? (2 * cs.length + 2) cs with
  | some (value, after) => if (skip after).isEmpty then some value else none
  | none => none

end Json

end ShaderReducer
