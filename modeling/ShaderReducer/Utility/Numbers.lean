import ShaderReducer.Shell.Condition
import ShaderReducer.Shell.Printing
import ShaderReducer.Utility.Arguments
import ShaderReducer.Utility.Regular

/-!
# Numbers

Rows of numbers, and the values of expressions.
-/

namespace ShaderReducer

namespace Utility

open Shell

/-! ## Rows of numbers -/

structure Scaled where
  digits : Int
  places : Nat
  deriving Repr, DecidableEq

def Scaled.ofText? (text : String) : Option Scaled :=
  let (sign, cs) := match text.toList with
    | '-' :: rest => ((-1 : Int), rest)
    | '+' :: rest => (1, rest)
    | cs => (1, cs)
  let whole := cs.takeWhile Char.isDigit
  match cs.drop whole.length with
  | [] => (Text.digits? 10 whole).map fun n => ⟨sign * Int.ofNat n, 0⟩
  | '.' :: part =>
    if !part.all Char.isDigit then none
    else (Text.digits? 10 (whole ++ part)).map fun n => ⟨sign * Int.ofNat n, part.length⟩
  | _ => none

def Scaled.atPlaces (s : Scaled) (places : Nat) : Int :=
  s.digits * Int.ofNat (Nat.pow 10 (places - s.places))

def scaledText (places : Nat) (n : Int) : List Char :=
  let digits := (toString n.natAbs).toList
  let digits := List.replicate (places + 1 - digits.length) '0' ++ digits
  let whole := digits.take (digits.length - places)
  (if n < 0 then ['-'] else []) ++ whole ++
    if places = 0 then [] else '.' :: digits.drop (digits.length - places)

/-- Writes the numbers from a first to a last one. -/
def seq (args : List String) : ShellM Nat := do
  -- A negative number is no option.
  let isNumber (a : String) : Bool := (Scaled.ofText? a).isSome
  let options := args.takeWhile fun a => !isNumber a
  let o := Options.ofLetters "f:s:w"
    [("format", 'f', .value), ("separator", 's', .value), ("equal-width", 'w', .nothing)]
  let isValue := match options.getLast? with
    | some "-s" | some "-f" | some "--separator" | some "--format" => true
    | _ => false
  let options := args.take (options.length + if isValue then 1 else 0)
  let operands := args.drop options.length
  withArguments "seq" { o with mixed := false } 1 options fun g => do
    let operands := g.operands ++ operands
    let stop (reason : String) : ShellM Nat := do
      complain ("seq: " ++ reason)
      return 1
    match operands.find? fun a => !isNumber a with
    | some a => return ← stop ("invalid floating point argument: '" ++ a ++ "'")
    | none => pure ()
    let one : Scaled := ⟨1, 0⟩
    let numbers := operands.filterMap Scaled.ofText?
    let range ← match numbers with
      | [last] => pure (some (one, one, last))
      | [first, last] => pure (some (first, one, last))
      | [first, step, last] => pure (some (first, step, last))
      | _ => pure none
    match range with
    | none =>
      if operands.isEmpty then stop "missing operand"
      else stop ("extra operand '" ++ (operands[3]?).getD "" ++ "'")
    | some (first, step, last) =>
      if step.digits = 0 then
        return ← stop ("invalid Zero increment value: '" ++ (operands[1]?).getD "" ++ "'")
      let shown := max first.places step.places
      let places := max shown last.places
      let a := first.atPlaces places
      let d := step.atPlaces places
      let z := last.atPlaces places
      let count : Nat :=
        if 0 < d then (if z < a then 0 else ((z - a) / d).toNat + 1)
        else (if a < z then 0 else ((a - z) / (-d)).toNat + 1)
      let count := min count 1000000
      let text (i : Nat) : List Char :=
        let n := a + Int.ofNat i * d
        scaledText shown (n / Int.ofNat (Nat.pow 10 (places - shown)))
      let texts := (List.range count).map text
      let width := max (text 0).length (text (count - 1)).length
      let pad (cs : List Char) : List Char :=
        if !g.has 'w' then cs
        else match cs with
          | '-' :: rest => '-' :: List.replicate (width - cs.length) '0' ++ rest
          | cs => List.replicate (width - cs.length) '0' ++ cs
      let shownTexts := match g.value? 'f' with
        | some format => texts.map fun t => (formatted format [String.ofList t]).text
        | none => texts.map pad
      let sep := ((g.value? 's').getD "\n").toList
      if count != 0 then emitList ((shownTexts.intersperse sep).flatten ++ ['\n'])
      return 0

/-! ## Expressions -/

inductive ExprFault where
  | malformed
  | noNumber
  | divisionByZero
  | regular (reason : String)
  deriving Repr, DecidableEq

def ExprFault.message : ExprFault → String
  | malformed => "syntax error"
  | noNumber => "non-integer argument"
  | divisionByZero => "division by zero"
  | regular reason => reason

abbrev ExprM (α : Type) : Type := StateT (List String) (Except ExprFault) α

def exprNumber? (w : String) : Option Int :=
  match w.toList with
  | '-' :: cs => (Text.digits? 10 cs).map fun n => -Int.ofNat n
  | cs => (Text.digits? 10 cs).map Int.ofNat

def isNothing (w : String) : Bool :=
  w.isEmpty || exprNumber? w == some 0 ||
    (match w.toList with
      | '-' :: cs => !cs.isEmpty && cs.all (· == '0')
      | cs => cs.all (· == '0'))

def exprNumber (w : String) : ExprM Int :=
  match exprNumber? w with
  | some n => return n
  | none => throw .noNumber

def acceptWord (w : String) : ExprM Bool := do
  match ← get with
  | v :: rest =>
    if v == w then
      set rest
      return true
    else return false
  | [] => return false

def nextWord : ExprM String := do
  match ← get with
  | v :: rest =>
    set rest
    return v
  | [] => throw .malformed

/-- Matches a text with an expression that has to match from its beginning on: the first group, or the
number of characters. -/
def matchText (text pattern : String) : ExprM String := do
  match Regular.ofText ⟨false, false⟩ pattern.toList with
  | .error reason => throw (.regular reason)
  | .ok (r, groups) =>
    match Regular.matchAt? (Regular.Subject.ofText r false false text.toList) r 0 with
    | some m =>
      if groups = 0 then return toString m.stop
      else match m.groups.lookup 1 with
        | some (a, b) => return String.ofList ((text.toList.drop a).take (b - a))
        | none => return ""
    | none => return if groups = 0 then "0" else ""

def leftward (operand : ExprM String) (operator : String → Option (String → String → ExprM String)) :
    Nat → String → ExprM String
  | 0, value => return value
  | fuel + 1, value => do
    match ← get with
    | w :: rest =>
      match operator w with
      | some f =>
        set rest
        let right ← operand
        leftward operand operator fuel (← f value right)
      | none => return value
    | [] => return value

/-- How two words compare: as numbers if both are. -/
def compareWords (f : Ordering → Bool) (a b : String) : ExprM String :=
  let order := match exprNumber? a, exprNumber? b with
    | some m, some n => compare m n
    | _, _ => compare a b
  return if f order then "1" else "0"

def calculateWords (f : Int → Int → Option Int) (a b : String) : ExprM String := do
  match f (← exprNumber a) (← exprNumber b) with
  | some n => return toString n
  | none => throw .divisionByZero

def exprPrimary (inner : ExprM String) : ExprM String := do
  if ← acceptWord "+" then nextWord
  else if ← acceptWord "(" then
    let value ← inner
    if ← acceptWord ")" then return value else throw .malformed
  else
    match ← get with
    | ")" :: _ => throw .malformed
    | _ => nextWord

def exprText (inner : ExprM String) : Nat → ExprM String
  | 0 => throw .malformed
  | fuel + 1 => do
    let words ← get
    let hasOperand := 1 < words.length
    match words with
    | "length" :: rest =>
      if !hasOperand then exprPrimary inner
      else
        set rest
        return toString (← exprText inner fuel).length
    | "match" :: rest =>
      if !hasOperand then exprPrimary inner
      else
        set rest
        let text ← exprText inner fuel
        matchText text (← exprText inner fuel)
    | "index" :: rest =>
      if !hasOperand then exprPrimary inner
      else
        set rest
        let text ← exprText inner fuel
        let chars ← exprText inner fuel
        let n := (text.toList.takeWhile fun c => !chars.toList.contains c).length
        return toString (if n < text.length then n + 1 else 0)
    | "substr" :: rest =>
      if !hasOperand then exprPrimary inner
      else
        set rest
        let text ← exprText inner fuel
        let start ← exprText inner fuel
        let count ← exprText inner fuel
        match exprNumber? start, exprNumber? count with
        | some a, some n =>
          if a ≤ 0 || n ≤ 0 then return ""
          else return String.ofList ((text.toList.drop (a.toNat - 1)).take n.toNat)
        | _, _ => return ""
    | _ => exprPrimary inner

def exprValue : Nat → ExprM String
  | 0 => throw .malformed
  | depth + 1 => do
    let count := (← get).length + 1
    let inner := exprValue depth
    let text : ExprM String := do
      let first ← exprText inner count
      leftward (exprText inner count) (fun
        | ":" => some matchText
        | _ => none) count first
    let product : ExprM String := do
      let first ← text
      leftward text (fun
        | "*" => some (calculateWords fun a b => some (a * b))
        | "/" => some (calculateWords fun a b => if b = 0 then none else some (a.tdiv b))
        | "%" => some (calculateWords fun a b => if b = 0 then none else some (a.tmod b))
        | _ => none) count first
    let sum : ExprM String := do
      let first ← product
      leftward product (fun
        | "+" => some (calculateWords fun a b => some (a + b))
        | "-" => some (calculateWords fun a b => some (a - b))
        | _ => none) count first
    let comparison : ExprM String := do
      let first ← sum
      leftward sum (fun
        | "<" => some (compareWords (· == .lt))
        | "<=" => some (compareWords (· != .gt))
        | "=" | "==" => some (compareWords (· == .eq))
        | "!=" => some (compareWords (· != .eq))
        | ">=" => some (compareWords (· != .lt))
        | ">" => some (compareWords (· == .gt))
        | _ => none) count first
    let both : ExprM String := do
      let first ← comparison
      leftward comparison (fun
        | "&" => some fun a b => return if isNothing a || isNothing b then "0" else a
        | _ => none) count first
    let first ← both
    leftward both (fun
      | "|" => some fun a b => return if !isNothing a then a else if isNothing b then "0" else b
      | _ => none) count first

def expr (args : List String) : ShellM Nat := do
  let args := if args.head? == some "--" then args.drop 1 else args
  if args.isEmpty then
    complain "expr: missing operand"
    return 2
  match (exprValue (args.length + 1)).run args with
  | .ok (value, []) =>
    emit (value ++ "\n")
    return if isNothing value then 1 else 0
  | .ok (_, w :: _) =>
    complain ("expr: syntax error: unexpected argument '" ++ w ++ "'")
    return 2
  | .error fault =>
    complain ("expr: " ++ fault.message)
    return 2

end Utility

end ShaderReducer
