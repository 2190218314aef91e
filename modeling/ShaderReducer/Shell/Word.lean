import ShaderReducer.Shell.Source
import ShaderReducer.Text.Number

/-!
# Reading words

A word is read part by part, in a context that says where it ends and which signs have a meaning in
it. What is nested in a word is read by a reader that is given.
-/

namespace ShaderReducer

namespace Shell

inductive Place where
  /-- In the open: a sign or a gap ends the word. -/
  | bare
  /-- Between double quotes. -/
  | double
  /-- In a document. -/
  | document
  /-- In braces, between double quotes or not, up to one of some signs. -/
  | braces (inQuotes : Bool) (ends : List Char)
  /-- In an expression, up to two brackets or, inside brackets, up to one. -/
  | expression (inner : Bool)
  /-- In brackets of a condition, where brackets and bars are text. -/
  | expressionText
  deriving Repr, DecidableEq

namespace Place

def quotes : Place → Bool
  | bare | expressionText => false
  | braces inQuotes _ => inQuotes
  | _ => true

def mayRunOut : Place → Bool
  | bare | document | expressionText => true
  | _ => false

def endsBefore (p : Place) (cs : List Char) : Bool :=
  match p, cs with
  | _, [] => true
  | bare, c :: _ => endsWord c
  | double, c :: _ => c == '"'
  | document, _ => false
  | braces _ ends, c :: _ => ends.contains c
  | expression false, cs => "))".toList.isPrefixOf cs
  | expression true, c :: _ => c == ')'
  | expressionText, c :: _ => isGap c || c == '\n'

def escapes (p : Place) (c : Char) : Bool :=
  match p with
  | bare | expressionText => true
  | braces false _ => true
  | braces true _ => "$\x60\"\\\x7d".toList.contains c
  | document => "$\x60\\".toList.contains c
  | _ => "$\x60\"\\".toList.contains c

end Place

/-- Joins neighbouring texts that are quoted alike. An empty text that is quoted stays a part. -/
def joined : List Part → List Part
  | [] => []
  | .text cs quoted :: rest =>
    match joined rest with
    | .text ds quoted' :: more =>
      if quoted = quoted' then .text (cs ++ ds) quoted :: more
      else .text cs quoted :: .text ds quoted' :: more
    | more => .text cs quoted :: more
  | part :: rest => part :: joined rest

structure Nested where
  /-- A script up to the bracket that closes it, or all of a text. -/
  script : ReaderM Script

def within {α : Type} (text : List Char) (read : ReaderM α) : ReaderM α := do
  let outer ← get
  set { outer with rest := text, lastLine := outer.line + newlines text, announced := [] }
  let a ← read
  modify fun inner => { inner with
    rest := outer.rest, lastLine := outer.lastLine, announced := outer.announced }
  return a

/-- A text up to the mark that ends a command between backquotes, without the backslashes that keep
signs from being read, and what follows the mark. -/
def backquoted? (double : Bool) : List Char → Option (List Char × List Char)
  | [] => none
  | '\x60' :: rest => some ([], rest)
  | '\\' :: '\n' :: rest => backquoted? double rest
  | '\\' :: c :: rest => do
    let (cs, after) ← backquoted? double rest
    if "\\\x60$".toList.contains c || (double && c == '"') then return (c :: cs, after)
    else return ('\\' :: c :: cs, after)
  | c :: rest => do
    let (cs, after) ← backquoted? double rest
    return (c :: cs, after)

def namedEscape? : Char → Option Char
  | 'a' => some '\x07'
  | 'b' => some '\x08'
  | 'f' => some '\x0c'
  | 'n' => some '\n'
  | 'r' => some '\r'
  | 't' => some '\t'
  | 'v' => some '\x0b'
  | '\\' => some '\\'
  | _ => none

/-- The value of the first digits of a base, of which there may be so many, and the text after
them. -/
def leadingDigits (base : Nat) : Nat → Nat → List Char → Nat × List Char
  | 0, n, cs => (n, cs)
  | _, n, [] => (n, [])
  | count + 1, n, c :: rest =>
    match Text.digitValue? c with
    | some d => if d < base then leadingDigits base count (base * n + d) rest else (n, c :: rest)
    | none => (n, c :: rest)

def octet (n : Nat) : Char := Char.ofNat (n % 256)

def escaped? : Nat → List Char → Option (List Char × List Char)
  | 0, _ => none
  | _, [] => none
  | _, '\'' :: rest => some ([], rest)
  | fuel + 1, '\\' :: c :: rest =>
    let going (cs rest : List Char) : Option (List Char × List Char) :=
      (escaped? fuel rest).map fun (more, after) => (cs ++ more, after)
    match namedEscape? c with
    | some d => going [d] rest
    | none =>
      if c == '\'' || c == '"' || c == '?' then going [c] rest
      else if c == 'e' || c == 'E' then going ['\x1b'] rest
      else if c == 'x' then
        let (n, after) := leadingDigits 16 2 0 rest
        if after.length = rest.length then going ['\\', 'x'] rest else going [octet n] after
      else if '0' ≤ c && c ≤ '7' then
        let (n, after) := leadingDigits 8 3 0 (c :: rest)
        going [octet n] after
      else going ['\\', c] rest
  | fuel + 1, c :: rest => (escaped? fuel rest).map fun (more, after) => (c :: more, after)

/-- The use of a parameter whose value may stand for it or not. -/
def questionUsage? (c : Char) (orEmpty : Bool) : Option Usage :=
  match c with
  | '-' => some (.otherwise orEmpty)
  | '=' => some (.assigning orEmpty)
  | '?' => some (.demanding orEmpty)
  | '+' => some (.instead orEmpty)
  | _ => none

/-- Reads the words that some signs end, up to the brace that ends the last one. -/
def argument (parts : Place → ReaderM Word) (double : Bool) : ReaderM Word := do
  let w ← parts (.braces double ['\x7d'])
  demand "\x7d"
  return w

def usage (parts : Place → ReaderM Word) (double : Bool) : ReaderM (Usage × List Word) := do
  let cs ← ahead
  let one (u : Usage) (rest : List Char) (double : Bool) : ReaderM (Usage × List Word) := do
    goTo rest
    return (u, [← argument parts double])
  let extended ← isExtended
  match cs with
  | '\x7d' :: rest =>
    goTo rest
    return (.value, [])
  | '%' :: '%' :: rest => one (.withoutEnd true) rest false
  | '%' :: rest => one (.withoutEnd false) rest false
  | '#' :: '#' :: rest => one (.withoutStart true) rest false
  | '#' :: rest => one (.withoutStart false) rest false
  | ':' :: c :: rest =>
    match questionUsage? c true with
    | some u => one u rest double
    | none =>
      if !extended then one .malformed (c :: rest) double
      else
        goTo (c :: rest)
        let start ← parts (.braces true [':', '\x7d'])
        if ← accept ":" then return (.slice, [start, ← argument parts true])
        demand "\x7d"
        return (.slice, [start])
  | c :: rest =>
    match questionUsage? c false with
    | some u => one u rest double
    | none =>
      if extended && c == '/' then
        let (u, rest) := match rest with
          | '/' :: rest => (Usage.replacing true none, rest)
          | '#' :: rest => (Usage.replacing false (some true), rest)
          | '%' :: rest => (Usage.replacing false (some false), rest)
          | rest => (Usage.replacing false none, rest)
        goTo rest
        let pattern ← parts (.braces false ['/', '\x7d'])
        if ← accept "/" then return (u, [pattern, ← argument parts double])
        demand "\x7d"
        return (u, [pattern])
      else if extended && (c == '^' || c == ',') then
        let all := rest.head? == some c
        goTo (if all then rest.drop 1 else rest)
        return (.recased (c == '^') all, [← argument parts false])
      else one .malformed cs double
  | [] => failure

def braced (parts : Place → ReaderM Word) (double : Bool) : ReaderM Part := do
  let named (name : List Char) (rest : List Char) : ReaderM Part := do
    goTo rest
    let (u, arguments) ← usage parts double
    return .parameter (String.ofList name) u arguments double
  let malformed : ReaderM Part := do
    return .parameter "" .malformed [← argument parts double] double
  match ← ahead with
  | '#' :: c :: rest =>
    if isNameChar c then
      let name := (c :: rest).takeWhile (if c.isDigit then Char.isDigit else isNameChar)
      goTo ((c :: rest).drop name.length)
      if ← accept "\x7d" then return .parameter (String.ofList name) .length [] double
      malformed
    else if isParameterSign c && rest.head? == some '\x7d' then
      goTo (rest.drop 1)
      return .parameter (String.singleton c) .length [] double
    else named ['#'] (c :: rest)
  | c :: rest =>
    if isNameStart c then
      let name := (c :: rest).takeWhile isNameChar
      named name ((c :: rest).drop name.length)
    else if c.isDigit then
      let name := (c :: rest).takeWhile Char.isDigit
      named name ((c :: rest).drop name.length)
    else if isParameterSign c then named [c] rest
    else malformed
  | [] => failure

def dollar (nested : Nested) (parts : Place → ReaderM Word) (place : Place) : ReaderM Part := do
  let quoted := place.quotes
  match ← ahead with
  | '(' :: '(' :: rest =>
    goTo rest
    let e ← parts (.expression false)
    demand "))"
    return .arithmetic e quoted
  | '(' :: rest =>
    goTo rest
    let script ← nested.script
    demand ")"
    return .output script quoted
  | '\x7b' :: rest =>
    goTo rest
    braced parts quoted
  | c :: rest =>
    if isNameStart c then
      let name := (c :: rest).takeWhile isNameChar
      goTo ((c :: rest).drop name.length)
      return .parameter (String.ofList name) .value [] quoted
    else if isParameterSign c then
      goTo rest
      return .parameter (String.singleton c) .value [] quoted
    else if (← isExtended) && !quoted && c == '\'' then
      match escaped? (rest.length + 1) rest with
      | some (text, rest) => do
        goTo rest
        return .text text true
      | none => failure
    else if (← isExtended) && !quoted && c == '"' then return .text [] false
    else return .text ['$'] quoted
  | [] => return .text ['$'] quoted

def escapedSign (place : Place) : ReaderM (List Part) := do
  match ← ahead with
  | '\n' :: rest =>
    goTo rest
    return []
  | c :: rest =>
    goTo rest
    return [.text (if place.escapes c then [c] else ['\\', c]) true]
  | [] => return [.text ['\\'] true]

/-- Reads the next parts of a word, if it does not end. -/
def nextParts (nested : Nested) (parts : Place → ReaderM Word) (place : Place) :
    ReaderM (Option (List Part)) := do
  let cs ← ahead
  if place.endsBefore cs then
    if cs.isEmpty && !place.mayRunOut then failure
    return none
  match cs with
  | [] => return none
  | c :: rest =>
    match c with
    | '\\' =>
      goTo rest
      return some (← escapedSign place)
    | '$' =>
      goTo rest
      return some [← dollar nested parts place]
    | '\x60' =>
      match backquoted? (place == .double) rest with
      | none => failure
      | some (text, rest) => do
        goTo rest
        return some [.output (← within text nested.script) place.quotes]
    | '"' =>
      goTo rest
      match place with
      | .document => return some [.text ['"'] true]
      | .expression _ => return some []
      | .braces true _ => return some [.text [] true]
      | _ => do
        let inside ← parts .double
        demand "\""
        return some (if inside.isEmpty then [.text [] true] else inside)
    | '\'' =>
      if place.quotes then
        goTo rest
        return some [.text ['\''] true]
      let text := rest.takeWhile (· != '\'')
      if text.length < rest.length then
        goTo (rest.drop (text.length + 1))
        return some [.text text true]
      else failure
    | '(' =>
      goTo rest
      match place with
      | .expression _ => do
        let inside ← parts (.expression true)
        demand ")"
        return some (.text ['('] true :: inside ++ [.text [')'] true])
      | _ => return some [.text ['('] place.quotes]
    | c =>
      let plain := rest.takeWhile fun d =>
        !(isSpecial d || d == '(' || place.endsBefore [d] || d == ')')
      goTo (rest.drop plain.length)
      return some [.text (c :: plain) place.quotes]

/-- Reads the parts of a word in at most so many places inside each other. -/
def partsIn (nested : Nested) : Nat → Place → ReaderM Word
  | 0, _ => failure
  | depth + 1, place => do
    return joined (← many (nextParts nested (partsIn nested depth) place)).flatten

def deepestPlace : Nat := 400

def word (nested : Nested) : ReaderM Word := partsIn nested deepestPlace .bare

end Shell

end ShaderReducer
