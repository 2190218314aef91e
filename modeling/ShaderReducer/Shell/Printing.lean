import ShaderReducer.Decimal.Fixed
import ShaderReducer.Decimal.Reader
import ShaderReducer.Shell.Arithmetic
import ShaderReducer.Shell.Process

/-!
# Printing

How commands write texts with escapes and values in formats. A format is used again as long as it
uses up values; a value that is no number is written as far as it is one, and the command fails.
-/

namespace ShaderReducer

namespace Shell

/-! ## Escapes -/

/-- The octet of what follows a backslash, and the text after it. What is no escape is a backslash
itself. -/
def escapedOctet (cs : List Char) : Char × List Char :=
  match cs with
  | [] => ('\\', [])
  | c :: rest =>
    match namedEscape? c with
    | some d => (d, rest)
    | none =>
      if c == 'e' then ('\x1b', rest)
      else if '0' ≤ c && c ≤ '7' then
        let (n, after) := leadingDigits 8 3 0 cs
        (octet n, after)
      else ('\\', cs)

/-- A text with its escapes replaced, up to an escape that ends all output; and whether there is one.
A zero in front of octal digits does not count as one of them. -/
def unescaped : Nat → List Char → List Char × Bool
  | _, [] => ([], false)
  | 0, _ => ([], false)
  | _, '\\' :: 'c' :: _ => ([], true)
  | fuel + 1, '\\' :: rest =>
    let digits := match rest with
      | '0' :: d :: more => if '0' ≤ d && d ≤ '7' then d :: more else rest
      | _ => rest
    let (c, after) := escapedOctet digits
    let (more, ended) := unescaped fuel after
    (c :: more, ended)
  | fuel + 1, c :: rest =>
    let (more, ended) := unescaped fuel rest
    (c :: more, ended)

def echoFlags : List String → List Char × List String
  | [] => ([], [])
  | a :: rest =>
    match a.toList with
    | '-' :: f :: more =>
      if (f :: more).all fun c => c == 'n' || c == 'e' || c == 'E' then
        let (flags, rest) := echoFlags rest
        (f :: more ++ flags, rest)
      else ([], a :: rest)
    | _ => ([], a :: rest)

def unescapedFully : Nat → List Char → List Char × Bool
  | _, [] => ([], false)
  | 0, _ => ([], false)
  | _, '\\' :: 'c' :: _ => ([], true)
  | fuel + 1, '\\' :: 'x' :: rest =>
    let (n, after) := leadingDigits 16 2 0 rest
    if after.length = rest.length then
      let (more, ended) := unescapedFully fuel rest
      ('\\' :: 'x' :: more, ended)
    else
      let (more, ended) := unescapedFully fuel after
      (octet n :: more, ended)
  | fuel + 1, '\\' :: rest =>
    let (c, after) := match rest with
      | '0' :: more =>
        let (n, after) := leadingDigits 8 3 0 more
        (octet n, after)
      | d :: _ => if d.isDigit then ('\\', rest) else escapedOctet rest
      | [] => ('\\', [])
    let (more, ended) := unescapedFully fuel after
    (c :: more, ended)
  | fuel + 1, c :: rest =>
    let (more, ended) := unescapedFully fuel rest
    (c :: more, ended)

def echo (args : List String) : ShellM Nat := do
  let (text, ended) ←
    if (← getProcess).dialect == .extended then do
      let (flags, args) := echoFlags args
      let text := (" ".intercalate args).toList
      let escapes := flags.filter (· != 'n')
      let (text, ended) := if escapes.getLast? == some 'e' then unescapedFully text.length text
        else (text, false)
      pure (text, ended || flags.contains 'n')
    else do
      let (args, bare) := if args.head? == some "-n" then (args.drop 1, true) else (args, false)
      let text := (" ".intercalate args).toList
      let (text, ended) := unescaped text.length text
      pure (text, ended || bare)
  emitList (text ++ if ended then [] else ['\n'])
  return 0

/-! ## Formats -/

structure Layout where
  flags : List Char := []
  width : Nat := 0
  precision : Option Nat := none
  deriving Repr, DecidableEq

namespace Layout

def has (l : Layout) (flag : Char) : Bool := l.flags.contains flag

def pad (l : Layout) (cs : List Char) : List Char :=
  let missing := List.replicate (l.width - cs.length) ' '
  if l.has '-' then cs ++ missing else missing ++ cs

/-- A sign or mark with digits, filled up to the width with blanks, or with zeros between both. -/
def padNumber (l : Layout) (zeros : Bool) (mark digits : List Char) : List Char :=
  if zeros && l.has '0' && !l.has '-' then
    mark ++ List.replicate (l.width - mark.length - digits.length) '0' ++ digits
  else l.pad (mark ++ digits)

def sign (l : Layout) (negative : Bool) : List Char :=
  if negative then ['-'] else if l.has '+' then ['+'] else if l.has ' ' then [' '] else []

/-- Digits with as many zeros in front as the precision asks for. -/
def precise (l : Layout) (digits : List Char) : List Char :=
  match l.precision with
  | none => digits
  | some 0 => if digits = ['0'] then [] else digits
  | some n => List.replicate (n - digits.length) '0' ++ digits

def signed (l : Layout) (n : Int) : List Char :=
  l.padNumber l.precision.isNone (l.sign (n < 0)) (l.precise (Nat.toDigits 10 n.natAbs))

def unsigned (l : Layout) (kind : Char) (n : Nat) : List Char :=
  let digits := match kind with
    | 'o' => Nat.toDigits 8 n
    | 'x' => Nat.toDigits 16 n
    | 'X' => (Nat.toDigits 16 n).map Char.toUpper
    | _ => Nat.toDigits 10 n
  let digits := l.precise digits
  let digits := if kind == 'o' && l.has '#' && digits.head? != some '0' then '0' :: digits
    else digits
  let mark := if l.has '#' && n ≠ 0 && (kind == 'x' || kind == 'X') then ['0', kind] else []
  l.padNumber l.precision.isNone mark digits

def float (l : Layout) (kind : Char) (x : Float) : List Char :=
  let bits := Decimal.magnitudeBits x
  let places := l.precision.getD 6
  let isWord := x.isNaN || x.isInf
  let digits :=
    if x.isNaN then "nan".toList
    else if x.isInf then "inf".toList
    else match kind.toLower with
      | 'e' => Decimal.exponentialText bits places (l.has '#')
      | 'g' => Decimal.generalText bits places (l.has '#')
      | _ => Decimal.fixedText bits places (l.has '#')
  let digits := if kind.isUpper then digits.map Char.toUpper else digits
  l.padNumber (!isWord) (l.sign (Decimal.signText x == "-")) digits

end Layout

/-- A directive of a format: how a value is written, where stars take width and precision from
values. -/
structure Directive where
  layout : Layout
  starWidth : Bool
  starPrecision : Bool
  kind : Char
  deriving Repr, DecidableEq

inductive Piece where
  | text (c : Char)
  | directive (d : Directive)
  | malformed (text : List Char)
  deriving Repr, DecidableEq

def directiveKinds : List Char := "diouxXfFeEgGaAcsb".toList

def directive (cs : List Char) : Piece × List Char :=
  let flags := cs.takeWhile fun c => "#-+ 0".toList.contains c
  let rest := cs.drop flags.length
  let (starWidth, width, rest) := match rest with
    | '*' :: rest => (true, 0, rest)
    | _ =>
      let digits := rest.takeWhile Char.isDigit
      (false, (leadingDigits 10 digits.length 0 digits).1, rest.drop digits.length)
  let (starPrecision, precision, rest) := match rest with
    | '.' :: '*' :: rest => (true, none, rest)
    | '.' :: rest =>
      let digits := rest.takeWhile Char.isDigit
      (false, some (leadingDigits 10 digits.length 0 digits).1, rest.drop digits.length)
    | _ => (false, none, rest)
  match rest with
  | kind :: rest' =>
    if directiveKinds.contains kind then
      (.directive ⟨⟨flags, width, precision⟩, starWidth, starPrecision, kind⟩, rest')
    else (.malformed (cs.take (cs.length - rest'.length)), rest')
  | [] => (.malformed cs, [])

def pieces : Nat → List Char → List Piece
  | _, [] => []
  | 0, _ => []
  | fuel + 1, '%' :: '%' :: rest => .text '%' :: pieces fuel rest
  | fuel + 1, '%' :: rest =>
    let (p, after) := directive rest
    p :: pieces fuel after
  | fuel + 1, '\\' :: rest =>
    let (c, after) := escapedOctet rest
    .text c :: pieces fuel after
  | fuel + 1, c :: rest => .text c :: pieces fuel rest

inductive NumberFault where
  | noNumber
  | notAll
  | tooLarge
  deriving Repr, DecidableEq

/-- The whole number at the beginning of a value, or the code of the character after a quote. -/
def wholeValue (value : String) : Int × Option NumberFault :=
  match value.toList with
  | [] => (0, none)
  | '"' :: c :: _ | '\'' :: c :: _ => (c.toNat, none)
  | cs =>
    let cs := cs.dropWhile Octets.isSpace
    let (negative, digits) := match cs with
      | '-' :: rest => (true, rest)
      | '+' :: rest => (false, rest)
      | _ => (false, cs)
    let base := match digits with
      | '0' :: 'x' :: _ | '0' :: 'X' :: _ => 16
      | '0' :: _ => 8
      | _ => 10
    let body := if base = 16 then digits.drop 2 else digits
    let (n, rest) := leadingDigits base body.length 0 body
    let (n, rest, empty) :=
      if rest.length < body.length then (n, rest, false)
      else if base = 16 then (0, digits.drop 1, false)
      else (0, digits, true)
    if empty then (0, some .noNumber)
    else
      (if negative then -Int.ofNat n else Int.ofNat n, if rest.isEmpty then none else some .notAll)

def floatValue (value : String) : Float × Option NumberFault :=
  match value.toList with
  | [] => (0.0, none)
  | '"' :: c :: _ | '\'' :: c :: _ => (Float.ofNat c.toNat, none)
  | cs =>
    let cs := cs.dropWhile Octets.isSpace
    let lengths := (List.range (cs.length + 1)).reverse
    match lengths.findSome? fun n =>
        if n = 0 then none else (Decimal.ofText? (cs.take n)).map fun x => (x, n) with
    | some (x, n) => (x, if n = cs.length then none else some .notAll)
    | none => (0.0, some .noNumber)

/-- What is written: the text, the values that are left, the faults with the values that they are
about, whether all output ends, and what is wrong with the format. -/
structure Printed where
  text : List Char := []
  values : List String
  used : Nat := 0
  faults : List (String × NumberFault) := []
  ended : Bool := false
  malformed : Option (List Char) := none

def Printed.next (p : Printed) : String × Printed :=
  match p.values with
  | v :: rest => (v, { p with values := rest, used := p.used + 1 })
  | [] => ("", p)

/-- A number as it fits into 64 bits with a sign, or the fault that it does not. -/
def clampedSigned (n : Int) : Int × Bool :=
  if n < -9223372036854775808 then (-9223372036854775808, true)
  else if Expression.largest < n then (Expression.largest, true)
  else (n, false)

/-- A number as it fits into 64 bits without a sign. -/
def clampedUnsigned (n : Int) : Nat × Bool :=
  if 18446744073709551615 < n || n < -18446744073709551615 then (18446744073709551615, true)
  else if n < 0 then ((n + 18446744073709551616).toNat, false)
  else (n.toNat, false)

def Layout.cut (l : Layout) (cs : List Char) : List Char :=
  match l.precision with
  | some n => cs.take n
  | none => cs

def Printed.direct (p : Printed) (d : Directive) : Printed :=
  let (l, p) := if d.starWidth then
      let (v, p) := p.next
      let n := (wholeValue v).1
      ({ d.layout with
          width := n.natAbs
          flags := if n < 0 then '-' :: d.layout.flags else d.layout.flags }, p)
    else (d.layout, p)
  let (l, p) := if d.starPrecision then
      let (v, p) := p.next
      let n := (wholeValue v).1
      ({ l with precision := if n < 0 then none else some n.toNat }, p)
    else (l, p)
  let (v, p) := p.next
  let p' (text : List Char) (fault : Option NumberFault) : Printed :=
    { p with
      text := p.text ++ text
      faults := p.faults ++ (fault.map fun f => (v, f)).toList }
  match d.kind with
  | 's' => p' (l.pad (l.cut v.toList)) none
  | 'c' => p' (l.pad [v.toList.headD '\x00']) none
  | 'b' =>
    let (text, ended) := unescaped v.length v.toList
    { p' (l.pad (l.cut text)) none with ended := ended }
  | 'd' | 'i' =>
    let (n, fault) := wholeValue v
    let (n, large) := clampedSigned n
    p' (l.signed n) (fault <|> if large then some .tooLarge else none)
  | 'o' | 'u' | 'x' | 'X' =>
    let (n, fault) := wholeValue v
    let (n, large) := clampedUnsigned n
    p' (l.unsigned d.kind n) (fault <|> if large then some .tooLarge else none)
  | kind =>
    let (x, fault) := floatValue v
    p' (l.float kind x) fault

def Printed.once (p : Printed) : List Piece → Printed
  | [] => p
  | .text c :: rest => Printed.once { p with text := p.text ++ [c] } rest
  | .malformed text :: _ => { p with ended := true, malformed := some text }
  | .directive d :: rest =>
    let p := p.direct d
    if p.ended then p else Printed.once p rest

/-- Writes the pieces of a format as long as they use up values. -/
def Printed.all (format : List Piece) : Nat → Printed → Printed
  | 0, p => p
  | fuel + 1, p =>
    let p := { p with used := 0 }.once format
    if p.ended || p.values.isEmpty || p.used = 0 then p else Printed.all format fuel p

def NumberFault.message : NumberFault → String
  | noNumber => "expected numeric value"
  | notAll => "not completely converted"
  | tooLarge => "Numerical result out of range"

def formatted (format : String) (values : List String) : Printed :=
  Printed.all (pieces format.length format.toList) (values.length + 1) { values := values }

def printf (args : List String) : ShellM Nat := do
  let args := if args.head? == some "--" then args.drop 1 else args
  match args with
  | [] =>
    complainOf "printf: usage: printf format [arg ...]"
    return 2
  | format :: values =>
    let p := formatted format values
    emitList p.text
    for (value, fault) in p.faults do
      complainOf ("printf: " ++ value ++ ": " ++ fault.message)
    match p.malformed with
    | some [] =>
      complainOf "printf: missing format character"
      return 2
    | some text =>
      complainOf ("printf: %" ++ String.ofList text ++ ": invalid directive")
      return 2
    | none => return if p.faults.isEmpty then 0 else 1

end Shell

end ShaderReducer
