import ShaderReducer.Utility.Arguments

/-!
# Parts of texts

Counting, and choosing lines, fields and characters.
-/

namespace ShaderReducer

namespace Utility

open Shell

/-! ## Counting -/

/-- The number of words. A word begins with a character that can be seen. -/
def countWords (cs : List Char) : Nat :=
  let step (s : Nat × Bool) (c : Char) : Nat × Bool :=
    if Octets.isSpace c then (s.1, false)
    else if !Octets.isGraph c then s
    else if s.2 then s
    else (s.1 + 1, true)
  (cs.foldl step (0, false)).1

def widestLine (cs : List Char) : Nat :=
  let step (s : Nat × Nat) (c : Char) : Nat × Nat :=
    let (widest, column) := s
    if c == '\n' || c == '\r' || c == '\x0c' then (max widest column, 0)
    else if c == '\t' then (widest, (column / 8 + 1) * 8)
    else if ' ' ≤ c && c ≤ '~' then (widest, column + 1)
    else s
  let (widest, column) := cs.foldl step (0, 0)
  max widest column

def countsOf (cs : List Char) : List (Char × Nat) :=
  [('l', cs.count '\n'), ('w', countWords cs), ('m', cs.length), ('c', cs.length),
   ('L', widestLine cs)]

def sizeBefore (s : Session) (file : String) : Option (Option Nat) :=
  if file == "-" then
    match s.opening? 0 with
    | some (_, ⟨.file l _ _, _, _⟩) => some (some (s.bytesAt l).length)
    | some _ => some none
    | none => none
  else
    match s.disk.entry (pathOf file) with
    | .ok (.file bytes _) => some (some bytes.length)
    | .ok .directory => some none
    | .error _ => if file == "/dev/null" then some none else none

/-- The width of the columns of counts for some files. -/
def countWidth (s : Session) (files : List String) : Nat :=
  let sizes := files.filterMap (sizeBefore s)
  let total := (sizes.map fun n => n.getD 0).foldl (· + ·) 0
  max (toString total).length (if sizes.any Option.isNone then 7 else 1)

def wc (args : List String) : ShellM Nat :=
  let o := Options.ofLetters "clLmw"
    [("bytes", 'c', .nothing), ("chars", 'm', .nothing), ("lines", 'l', .nothing),
     ("max-line-length", 'L', .nothing), ("words", 'w', .nothing)]
  withArguments "wc" o 1 args fun g => do
    let letters := if g.options.isEmpty then ['l', 'w', 'c']
      else ['l', 'w', 'm', 'c', 'L'].filter g.has
    let files := if g.operands.isEmpty then ["-"] else g.operands
    let s ← get
    let width := if files.length = 1 && letters.length = 1 then 1 else countWidth s files
    let show' (counts : List (Char × Nat)) (name : String) : ShellM Unit := do
      let columns := letters.map fun c =>
        padLeft width (toString ((counts.lookup c).getD 0)).toList
      emitList ((columns.intersperse [' ']).flatten ++
        (if name.isEmpty then [] else ' ' :: name.toList) ++ ['\n'])
    let mut status := 0
    let mut total : List (Char × Nat) := countsOf []
    for file in files do
      let text ← if file == "-" then (do return (← readRest 0).elim (.error .isDirectory) .ok)
        else readFile file
      let name := if g.operands.isEmpty then "" else file
      match text with
      | .error fault =>
        complainAbout "wc" file fault
        status := 1
        if fault == .isDirectory then show' (countsOf []) name
      | .ok text =>
        let counts := countsOf text
        show' counts name
        total := (total.zip counts).map fun (s, t) =>
          (s.1, if s.1 == 'L' then max s.2 t.2 else s.2 + t.2)
    if 1 < files.length then show' total "total"
    return status

/-! ## Beginnings and ends -/

def sizedNumber? (cs : List Char) : Option Nat := do
  let digits := cs.takeWhile Char.isDigit
  let n ← Text.digits? 10 digits
  match cs.drop digits.length with
  | [] => some n
  | ['b'] => some (n * 512)
  | ['k'] | ['K'] | ['K', 'i', 'B'] => some (n * 1024)
  | ['k', 'B'] | ['K', 'B'] => some (n * 1000)
  | ['m'] | ['M'] => some (n * 1048576)
  | ['M', 'B'] => some (n * 1000000)
  | ['G'] => some (n * 1073741824)
  | _ => none

def withoutOldNumber (args : List String) : List String :=
  match args with
  | a :: rest =>
    match a.toList with
    | '-' :: c :: cs =>
      let digits := (c :: cs).takeWhile Char.isDigit
      let letters := (c :: cs).drop digits.length
      if !digits.isEmpty && letters.all fun d => "cqvlbkmf".toList.contains d then
        let isBytes := letters.contains 'c'
        let others := letters.filter fun d => d == 'q' || d == 'v' || d == 'f'
        (if isBytes then "-c" else "-n") :: String.ofList digits ::
          (if others.isEmpty then rest else String.ofList ('-' :: others) :: rest)
      else args
    | _ => args
  | [] => []

/-- Arguments with an option in the place of a leading number after a plus sign, which at most one
file follows. -/
def withoutOldStart (args : List String) : List String :=
  match args with
  | a :: rest =>
    match a.toList, rest with
    | '+' :: c :: cs, [] | '+' :: c :: cs, [_] =>
      let digits := (c :: cs).takeWhile Char.isDigit
      match (c :: cs).drop digits.length with
      | [] | ['l'] => "-n" :: String.ofList ('+' :: digits) :: rest
      | ['c'] => "-c" :: String.ofList ('+' :: digits) :: rest
      | _ => args
    | _, _ => args
  | [] => []

/-- Which part of a text is shown: a number of lines or octets, and the sign before the number. -/
structure Portion where
  octets : Bool
  sign : Option Char
  count : Nat

def portionOf (g : Given) : Except String Portion :=
  match (g.options.reverse.find? fun o => o.1 == 'n' || o.1 == 'c') with
  | none => .ok ⟨false, none, 10⟩
  | some (c, text) =>
    let (sign, cs) := match text.toList with
      | '-' :: rest => (some '-', rest)
      | '+' :: rest => (some '+', rest)
      | cs => (none, cs)
    match sizedNumber? cs with
    | some n => .ok ⟨c == 'c', sign, n⟩
    | none => .error ("invalid number of " ++ (if c == 'c' then "bytes" else "lines") ++ ": '" ++
        text ++ "'")

def Portion.head (p : Portion) (sep : Char) (cs : List Char) : List Char :=
  let keep {α : Type} (xs : List α) : List α :=
    xs.take (if p.sign == some '-' then xs.length - p.count else p.count)
  if p.octets then keep cs else (keep (wholeLines sep cs)).flatten

def Portion.tail (p : Portion) (sep : Char) (cs : List Char) : List Char :=
  let keep {α : Type} (xs : List α) : List α :=
    xs.drop (if p.sign == some '+' then p.count - 1 else xs.length - p.count)
  if p.octets then keep cs else (keep (wholeLines sep cs)).flatten

def showParts (utility : String) (g : Given) (part : List Char → List Char) : ShellM Nat := do
  let files := if g.operands.isEmpty then ["-"] else g.operands
  let named := match g.last? ['q', 'v'] with
    | some 'v' => true
    | some _ => false
    | none => 1 < files.length
  let mut status := 0
  let mut isFirst := true
  for file in files do
    let name := if file == "-" then "standard input" else file
    let s ← get
    let isDirectory := file != "-" && s.disk.isDirectory (pathOf file)
    let text ← if file == "-" then (do return (← readRest 0).elim (.error .isDirectory) .ok)
      else readFile file
    let start := (if isFirst then "" else "\n") ++ "==> " ++ name ++ " <==\n"
    match text with
    | .ok text =>
      if named then emit start
      isFirst := false
      emitList (part text)
    | .error fault =>
      status := 1
      if isDirectory then
        if named then emit start
        isFirst := false
        complain (utility ++ ": error reading '" ++ file ++ "': Is a directory")
      else
        complain (utility ++ ": cannot open '" ++ file ++ "' for reading: " ++ faultText fault)
  return status

def partOptions : Options :=
  Options.ofLetters "c:n:qvzfFs:"
    [("bytes", 'c', .value), ("lines", 'n', .value), ("quiet", 'q', .nothing),
     ("silent", 'q', .nothing), ("verbose", 'v', .nothing), ("zero-terminated", 'z', .nothing)]

/-- Shows the beginnings of files. Of the input, only what is shown is read. -/
def head (args : List String) : ShellM Nat :=
  withArguments "head" partOptions 1 (withoutOldNumber args) fun g => do
    let sep := if g.has 'z' then '\x00' else '\n'
    match portionOf g with
    | .error reason =>
      complain ("head: " ++ reason)
      return 1
    | .ok p =>
      let before := (← get).opening? 0
      let status ← showParts "head" g (p.head sep)
      -- What was read of a file, but not shown, is left to others.
      match before with
      | some (place, o) =>
        match o.stream with
        | .file l position appends =>
          if g.operands.isEmpty || g.operands.contains "-" then
            let cs := Octets.ofBytes (((← get).bytesAt l).drop position)
            let used := (p.head sep cs).length
            modify fun s => { s with
              openings := s.openings.setIfInBounds place
                { o with stream := .file l (position + used) appends } }
        | _ => pure ()
      | none => pure ()
      return status

def tail (args : List String) : ShellM Nat :=
  withArguments "tail" partOptions 1 (withoutOldStart (withoutOldNumber args)) fun g => do
    match portionOf g with
    | .error reason =>
      complain ("tail: " ++ reason)
      return 1
    | .ok p => showParts "tail" g (p.tail (if g.has 'z' then '\x00' else '\n'))

/-! ## Fields and characters -/

/-- The numbers from a first to a last one, if there is a last one. -/
structure NumberRange where
  first : Nat
  last : Option Nat
  deriving Repr, DecidableEq

def inNumberRanges (ranges : List NumberRange) (n : Nat) : Bool :=
  ranges.any fun r => r.first ≤ n && r.last.all fun m => n ≤ m

def rangeOf? (isField : Bool) (cs : List Char) : Except String NumberRange :=
  let kind := if isField then "field" else "byte/character"
  let low := cs.takeWhile Char.isDigit
  let zero := (if isField then "fields" else "byte/character positions") ++ " are numbered from 1"
  let invalid := "invalid " ++ kind ++ (if isField then " value '" else " position '") ++
    String.ofList cs ++ "'"
  match cs.drop low.length with
  | [] =>
    match Text.digits? 10 low with
    | some 0 => .error zero
    | some n => .ok ⟨n, some n⟩
    | none => .error zero
  | '-' :: high =>
    if low.isEmpty && high.isEmpty then .error "invalid range with no endpoint: -"
    else if !high.all Char.isDigit then .error invalid
    else
      let first := (Text.digits? 10 low).getD 1
      let last := Text.digits? 10 high
      if first = 0 then .error zero
      else if last.any (· < first) then .error "invalid decreasing range"
      else .ok ⟨first, last⟩
  | _ => .error invalid

def rangesOf (isField : Bool) (text : String) : Except String (List NumberRange) :=
  let parts := (Text.splitOn ',' text.toList).flatMap fun p => Text.splitOn ' ' p
  parts.mapM (rangeOf? isField)

/-- Chosen characters of a line. What stands between chosen ranges may be shown between them. -/
def cutChars (chosen : Nat → Bool) (between : List Char) (starts : Nat → Bool)
    (line : List Char) : List Char :=
  let shown := (line.zipIdx 1).filter fun c => chosen c.2
  (shown.zipIdx.map fun ((c, n), i) =>
    if i != 0 && (starts n || !chosen (n - 1)) then between ++ [c] else [c]).flatten

def cutFields (chosen : Nat → Bool) (sep : Char) (between : List Char) (line : List Char) :
    List Char :=
  let fields := ((Text.splitOn sep line).zipIdx 1).filter fun f => chosen f.2
  ((fields.map Prod.fst).intersperse between).flatten

def cut (args : List String) : ShellM Nat :=
  let o := Options.ofLetters "b:c:d:f:nsz"
    [("bytes", 'b', .value), ("characters", 'c', .value), ("delimiter", 'd', .value),
     ("fields", 'f', .value), ("only-delimited", 's', .nothing), ("complement", '\x01', .nothing),
     ("output-delimiter", '\x02', .value), ("zero-terminated", 'z', .nothing)]
  withArguments "cut" o 1 args fun g => do
    let end' := if g.has 'z' then '\x00' else '\n'
    let stop (reason : String) : ShellM Nat := do
      complain ("cut: " ++ reason)
      return 1
    let lists := g.options.filter fun o => o.1 == 'b' || o.1 == 'c' || o.1 == 'f'
    match lists with
    | [] => stop "you must specify a list of bytes, characters, or fields"
    | _ :: _ :: _ => stop "only one list may be specified"
    | [(kind, text)] =>
      let isField := kind == 'f'
      if g.has 'd' && !isField then
        return ← stop "an input delimiter may be specified only when operating on fields"
      if g.has 's' && !isField then
        return ← stop ("suppressing non-delimited lines makes sense\n\t" ++
          "only when operating on fields")
      let sep ← match g.value? 'd' with
        | none => pure (some '\t')
        | some d =>
          match d.toList with
          | [c] => pure (some c)
          | [] => pure (some '\x00')
          | _ => pure none
      match sep, rangesOf isField text with
      | none, _ => stop "the delimiter must be a single character"
      | _, .error reason => stop reason
      | some sep, .ok ranges =>
        let chosen (n : Nat) : Bool := inNumberRanges ranges n != g.has '\x01'
        let starts (n : Nat) : Bool :=
          !g.has '\x01' && ranges.any (fun r => r.first == n) &&
            !ranges.any fun r => r.first < n && r.last.all fun m => n ≤ m
        let between := (g.value? '\x02').map String.toList
        forOperands 1 g.operands fun file => do
          match ← readOperand "cut" file with
          | none => return false
          | some text =>
            let out := (linesOf end' text).flatMap fun line =>
              if isField then
                if line.contains sep then
                  cutFields chosen sep (between.getD [sep]) line ++ [end']
                else if g.has 's' then [] else line ++ [end']
              else cutChars chosen (between.getD []) (fun n => between.isSome && starts n) line ++
                [end']
            emitList out
            return true

/-- The separators that a list with backslashes stands for; an empty one may be among them. -/
def pasteSeparators : List Char → List (List Char)
  | '\\' :: 'n' :: rest => ['\n'] :: pasteSeparators rest
  | '\\' :: 't' :: rest => ['\t'] :: pasteSeparators rest
  | '\\' :: '0' :: rest => [] :: pasteSeparators rest
  | '\\' :: c :: rest => [c] :: pasteSeparators rest
  | c :: rest => [c] :: pasteSeparators rest
  | [] => []

def joinInTurn (separators : List (List Char)) : Nat → List (List Char) → List Char
  | _, [] => []
  | _, [l] => l
  | n, l :: rest =>
    l ++ (separators[n % separators.length]?).getD [] ++ joinInTurn separators (n + 1) rest

def paste (args : List String) : ShellM Nat :=
  let o := Options.ofLetters "d:sz"
    [("delimiters", 'd', .value), ("serial", 's', .nothing), ("zero-terminated", 'z', .nothing)]
  withArguments "paste" o 1 args fun g => do
    let end' := if g.has 'z' then '\x00' else '\n'
    let separators := match (g.value? 'd').map String.toList with
      | none => [['\t']]
      | some [] => [[]]
      | some cs => pasteSeparators cs
    let operands := if g.operands.isEmpty then ["-"] else g.operands
    let mut files : List (List (List Char)) := []
    -- The lines of the input are dealt out to the operands that stand for it.
    let inputs := (operands.filter (· == "-")).length
    let input ← if 0 < inputs then readRest 0 else pure none
    let input := linesOf end' (input.getD [])
    let mut inputIndex := 0
    for file in operands do
      if file == "-" then
        let n := inputIndex
        let dealt := if g.has 's' then (if n = 0 then input else [])
          else (input.zipIdx.filter fun l => l.2 % inputs == n).map Prod.fst
        inputIndex := inputIndex + 1
        files := files ++ [dealt]
      else
        match ← readFile file with
        | .ok text => files := files ++ [linesOf end' text]
        | .error fault =>
          complainAbout "paste" file fault
          return 1
    if g.has 's' then
      emitList (files.flatMap fun lines => joinInTurn separators 0 lines ++ [end'])
    else
      let count := ((files.map List.length).max?).getD 0
      let rows := (List.range count).map fun i =>
        joinInTurn separators 0 (files.map fun lines => (lines[i]?).getD []) ++ [end']
      emitList rows.flatten
    return 0

/-! ## Whole lines -/

def tac (args : List String) : ShellM Nat :=
  withArguments "tac" (Options.ofLetters "brs:" [("separator", 's', .value)]) 1 args fun g =>
    forOperands 1 g.operands fun file => do
      match ← readOperand "tac" file with
      | none => return false
      | some text =>
        emitList (wholeLines '\n' text).reverse.flatten
        return true

def rev (args : List String) : ShellM Nat :=
  withArguments "rev" (Options.ofLetters "0" []) 1 args fun g =>
    forOperands 1 g.operands fun file => do
      match ← readOperand "rev" file with
      | none => return false
      | some text =>
        emitList ((wholeLines '\n' text).flatMap fun l =>
          if l.getLast? == some '\n' then l.dropLast.reverse ++ ['\n'] else l.reverse)
        return true

/-- A line in pieces that are not wider than so many columns, where one may end with a blank. -/
def foldLine (width : Nat) (atBlanks octets : Bool) : Nat → List Char → List Char
  | 0, cs => cs
  | fuel + 1, cs =>
    let columns := cs.foldl (fun (columns : List Nat) c =>
      let column := columns.headD 0
      (if octets then column + 1
        else if c == '\t' then (column / 8 + 1) * 8
        else if c == '\x08' then column - 1
        else if c == '\r' then 0
        else column + 1) :: columns) []
    let fits := (columns.reverse.takeWhile (· ≤ width)).length
    if cs.length ≤ fits then cs
    else
      let fits := max fits 1
      let blanks := (cs.take fits).zipIdx.filter fun c => isGap c.1
      let n := match atBlanks, blanks.getLast? with
        | true, some (_, i) => i + 1
        | _, _ => fits
      cs.take n ++ '\n' :: foldLine width atBlanks octets fuel (cs.drop n)

def fold (args : List String) : ShellM Nat :=
  let o := Options.ofLetters "bsw:"
    [("bytes", 'b', .nothing), ("spaces", 's', .nothing), ("width", 'w', .value)]
  let args := args.map fun a => match a.toList with
    | '-' :: c :: cs => if (c :: cs).all Char.isDigit then "-w" ++ String.ofList (c :: cs) else a
    | _ => a
  withArguments "fold" o 1 args fun g => do
    let width := ((g.value? 'w').map String.toNat?).getD (some 80)
    match width with
    | none | some 0 =>
      complain ("fold: invalid number of columns: '" ++ (g.value? 'w').getD "" ++ "'")
      return 1
    | some width =>
      forOperands 1 g.operands fun file => do
        match ← readOperand "fold" file with
        | none => return false
        | some text =>
          emitList ((wholeLines '\n' text).flatMap fun l =>
            let ended := l.getLast? == some '\n'
            let line := if ended then l.dropLast else l
            foldLine width (g.has 's') (g.has 'b') (line.length + 1) line ++
              if ended then ['\n'] else [])
          return true

def nl (args : List String) : ShellM Nat :=
  let o := Options.ofLetters "b:d:f:h:i:l:n:ps:v:w:"
    [("body-numbering", 'b', .value), ("number-format", 'n', .value),
     ("number-separator", 's', .value), ("number-width", 'w', .value),
     ("starting-line-number", 'v', .value), ("line-increment", 'i', .value)]
  withArguments "nl" o 1 args fun g => do
    let number (c : Char) (otherwise : Nat) : Nat :=
      ((g.value? c).bind String.toNat?).getD otherwise
    let width := number 'w' 6
    let sep := ((g.value? 's').getD "\t").toList
    let style := (g.value? 'b').getD "t"
    let (text, complete) ← readAll "nl" g.operands
    let mut n := number 'v' 1
    for line in linesOf '\n' text do
      let counts := style == "a" || (style == "t" && !line.isEmpty)
      if counts then
        let digits := (toString n).toList
        let shown := match g.value? 'n' with
          | some "ln" => digits ++ List.replicate (width - digits.length) ' '
          | some "rz" => List.replicate (width - digits.length) '0' ++ digits
          | _ => padLeft width digits
        emitList (shown ++ sep ++ line ++ ['\n'])
        n := n + number 'i' 1
      else emitList (List.replicate (width + sep.length) ' ' ++ line ++ ['\n'])
    return if complete then 0 else 1

def expandTabs (width : Nat) (line : List Char) : List Char :=
  (line.foldl (fun (s : List Char × Nat) c =>
    let (out, column) := s
    if c == '\t' then
      let n := width - column % width
      (List.replicate n ' ' ++ out, column + n)
    else (c :: out, column + 1)) ([], 0)).1.reverse

def expandUtility (args : List String) : ShellM Nat :=
  withArguments "expand" (Options.ofLetters "it:" [("tabs", 't', .value)]) 1 args fun g =>
    forOperands 1 g.operands fun file => do
      match ← readOperand "expand" file with
      | none => return false
      | some text =>
        let width := max 1 (((g.value? 't').bind String.toNat?).getD 8)
        emitList ((wholeLines '\n' text).flatMap (expandTabs width))
        return true

/-! ## Replacing characters -/

inductive TrItem where
  | chars (cs : List Char)
  | class (name : String)
  | repeated (c : Char) (count : Nat)
  deriving Repr, DecidableEq

def trChar : List Char → Option (Char × List Char)
  | '\\' :: c :: rest =>
    match c with
    | 'a' => some ('\x07', rest)
    | 'b' => some ('\x08', rest)
    | 'f' => some ('\x0c', rest)
    | 'n' => some ('\n', rest)
    | 'r' => some ('\r', rest)
    | 't' => some ('\t', rest)
    | 'v' => some ('\x0b', rest)
    | c =>
      let digits := ((c :: rest).take 3).takeWhile fun d => '0' ≤ d && d ≤ '7'
      let digits := if 255 < (Text.digits? 8 digits).getD 0 then digits.take 2 else digits
      match Text.digits? 8 digits with
      | some n => some (Char.ofNat n, (c :: rest).drop digits.length)
      | none => some (c, rest)
  | c :: rest => some (c, rest)
  | [] => none

def charsBetween (a b : Char) : List Char :=
  (List.range (b.toNat + 1 - a.toNat)).map fun i => Char.ofNat (a.toNat + i)

def allOctets : List Char := (List.range 256).map Char.ofNat

def classChars? (name : String) : Option (List Char) :=
  match name with
  | "alpha" => some (allOctets.filter Char.isAlpha)
  | "digit" => some (allOctets.filter Char.isDigit)
  | "alnum" => some (allOctets.filter Char.isAlphanum)
  | "upper" => some (allOctets.filter Char.isUpper)
  | "lower" => some (allOctets.filter Char.isLower)
  | "space" => some (allOctets.filter Octets.isSpace)
  | "blank" => some ['\t', ' ']
  | "punct" => some (allOctets.filter fun c => Octets.isGraph c && !c.isAlphanum)
  | "print" => some (allOctets.filter fun c => Octets.isGraph c || c == ' ')
  | "graph" => some (allOctets.filter Octets.isGraph)
  | "cntrl" => some (allOctets.filter fun c => c.toNat < 32 || c.toNat == 127)
  | "xdigit" => some ("0123456789ABCDEFabcdef".toList)
  | _ => none

def toBracket? (sign : Char) : List Char → Option (List Char × List Char)
  | [] | [_] => none
  | c :: d :: rest =>
    if c == sign && d == ']' then some ([], rest)
    else (toBracket? sign (d :: rest)).map fun (text, after) => (c :: text, after)

def trItems : Nat → List Char → Except String (List TrItem)
  | 0, _ => .ok []
  | _, [] => .ok []
  | fuel + 1, cs => do
    let special : Option (Except String TrItem × List Char) := match cs with
      | '[' :: ':' :: rest =>
        (toBracket? ':' rest).map fun (name, after) =>
          let name := String.ofList name
          (if (classChars? name).isSome then .ok (.class name)
            else .error ("invalid character class '" ++ name ++ "'"), after)
      | '[' :: '=' :: rest =>
        (toBracket? '=' rest).map fun (name, after) =>
          (match name with
            | [c] => .ok (.chars [c])
            | _ => .error (String.ofList name ++
                ": equivalence class operand must be a single character"), after)
      | '[' :: rest =>
        match trChar rest with
        | some (c, '*' :: more) =>
          let digits := more.takeWhile (· != ']')
          if digits.all Char.isDigit && (more.drop digits.length).head? == some ']' then
            let base := if digits.head? == some '0' then 8 else 10
            some (.ok (.repeated c ((Text.digits? base digits).getD 0)),
              more.drop (digits.length + 1))
          else none
        | _ => none
      | _ => none
    match special with
    | some (item, after) => return (← item) :: (← trItems fuel after)
    | none =>
      match trChar cs with
      | none => return []
      | some (a, rest) =>
        match rest with
        | '-' :: c :: more =>
          match trChar (c :: more) with
          | some (b, after) =>
            if b < a then
              throw ("range-endpoints of '" ++ String.ofList [a, '-', b] ++
                "' are in reverse collating sequence order")
            return .chars (charsBetween a b) :: (← trItems fuel after)
          | none => return .chars [a] :: (← trItems fuel rest)
        | rest => return .chars [a] :: (← trItems fuel rest)

/-- The characters of a set, where a repetition without a number fills it up to a length. -/
def trChars (length : Nat) (items : List TrItem) : List Char :=
  let plain : TrItem → List Char
    | .chars cs => cs
    | .class name => (classChars? name).getD []
    | .repeated c n => List.replicate n c
  let size := (items.map fun i => (plain i).length).foldl (· + ·) 0
  items.flatMap fun
    | .repeated c 0 => List.replicate (length - size) c
    | item => plain item

/-- A character of a set: whether a construct begins with it, whether that is a class of letters in
one case, and how many characters of the construct are left after it. -/
structure TrStep where
  begins : Bool
  cased : Bool
  left : Nat

def trSteps (item : TrItem) : List TrStep :=
  let (count, cased) := match item with
    | .class name => (((classChars? name).getD []).length, name == "upper" || name == "lower")
    | .chars cs => (cs.length, false)
    | .repeated _ n => (n, false)
  (List.range count).map fun i => ⟨i == 0, cased, count - 1 - i⟩

/-- Whether each class in one case of the second set stands where the first one has such a class. -/
def alignsClasses : Nat → List TrStep → List TrStep → Bool
  | 0, _, _ => true
  | _, _, [] => true
  | _, [], b :: _ => !(b.begins && b.cased)
  | fuel + 1, a :: as, b :: bs =>
    if b.begins && b.cased then
      a.begins && a.cased && alignsClasses fuel (as.drop a.left) (bs.drop b.left)
    else alignsClasses fuel as bs

/-- Why characters of one set cannot be replaced by those of another one. The first set may be all the
characters that are not in it. -/
def trFault? (complement truncates : Bool) (first second : List TrItem) (set1 set2 : List Char) :
    Option String :=
  let isClass : TrItem → Bool
    | .class _ => true
    | _ => false
  let isCased : TrItem → Bool
    | .class name => name == "upper" || name == "lower"
    | _ => true
  let steps (items : List TrItem) : List TrStep := items.flatMap trSteps
  let fuel := set1.length + set2.length + 2
  let isLonger := set2.length < set1.length && !truncates
  let isUniform := set2.all fun c => some c == set2.head?
  if !second.all isCased then
    some ("when translating, the only character classes that may appear in\n" ++
      "string2 are 'upper' and 'lower'")
  else if !complement && second.any isClass && !alignsClasses fuel (steps first) (steps second) then
    some "misaligned [:upper:] and/or [:lower:] construct"
  else if isLonger && set2.isEmpty then
    some "when not truncating set1, string2 must be non-empty"
  else if isLonger && second.getLast?.any isClass then
    some ("when translating with string1 longer than string2,\n" ++
      "the latter string must not end with a character class")
  else if complement && first.any isClass && !isUniform then
    some ("when translating with complemented character classes,\n" ++
      "string2 must map all characters in the domain to one")
  else none

/-- Characters without those that are the same as the one before, if they are in a set. -/
def squeeze (set : List Char) : Option Char → List Char → List Char
  | _, [] => []
  | last, c :: rest =>
    if last == some c && set.contains c then squeeze set last rest
    else c :: squeeze set (some c) rest

def tr (args : List String) : ShellM Nat :=
  let o := Options.ofLetters "cCdst"
    [("complement", 'c', .nothing), ("delete", 'd', .nothing), ("squeeze-repeats", 's', .nothing),
     ("truncate-set1", 't', .nothing)]
  withArguments "tr" { o with mixed := false } 1 args fun g => do
    let stop (reason : String) : ShellM Nat := do
      complain ("tr: " ++ reason)
      return 1
    let deletes := g.has 'd'
    let squeezes := g.has 's'
    let least := if deletes == squeezes then 2 else 1
    let most := if deletes && !squeezes then 1 else 2
    if g.operands.isEmpty then return ← stop "missing operand"
    if g.operands.length < least then
      return ← stop ("missing operand after '" ++ g.operands.headD "" ++ "'")
    if most < g.operands.length then
      return ← stop ("extra operand '" ++ (g.operands[most]?).getD "" ++ "'")
    let items (s : String) : Except String (List TrItem) := trItems (s.length + 1) s.toList
    match items (g.operands.headD ""), (g.operands[1]?).mapM items with
    | .error reason, _ | _, .error reason => stop reason
    | .ok first, .ok second =>
      let set1 := trChars 0 first
      let set1 := if g.has 'c' || g.has 'C' then allOctets.filter fun c => !set1.contains c else set1
      let set2 := second.map (trChars set1.length)
      let translates := set2.isSome && !deletes
      let complement := g.has 'c' || g.has 'C'
      let fault := if translates then
          trFault? complement (g.has 't') first (second.getD []) set1 (set2.getD [])
        else none
      match fault with
      | some reason => return ← stop reason
      | none => pure ()
      let set1 := if translates && g.has 't' then set1.take (set2.getD []).length else set1
      let text := (← readRest 0).getD []
      let last := (set2.getD []).getLast?
      let target (n : Nat) (c : Char) : Char := match (set2.getD [])[n]?, last with
        | some d, _ => d
        | none, some d => d
        | none, none => c
      let pairs := set1.zipIdx.map fun (c, n) => (c, target n c)
      let table := pairs.foldl (fun (t : Array Char) (c, d) => t.setIfInBounds c.toNat d)
        allOctets.toArray
      let turned := if translates then text.map fun c => (table[c.toNat]?).getD c
        else if deletes then text.filter fun c => !set1.contains c
        else text
      let set := if squeezes then set2.getD set1 else []
      emitList (if squeezes then squeeze set none turned else turned)
      return 0

end Utility

end ShaderReducer
