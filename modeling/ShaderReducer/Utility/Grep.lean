import ShaderReducer.Shell.Glob
import ShaderReducer.Utility.Arguments
import ShaderReducer.Utility.Regular

/-!
# Searching files for lines

A line is selected if it holds a match of one of some patterns. What is written for the selected
lines, and for those around them, is up to the options.
-/

namespace ShaderReducer

namespace Utility

open Shell

structure Search where
  patterns : List Regular
  folds : Bool := false
  whole : Bool := false
  words : Bool := false
  inverted : Bool := false

namespace Search

def accepts (q : Search) (s : Regular.Subject) (start stop : Nat) : Bool :=
  (!q.whole || (start == 0 && stop == s.text.size)) &&
  (!q.words || q.whole || (!s.wordBefore start && !s.wordAt stop))

def endAt? (q : Search) (text : Array Char) (start : Nat) : Option Nat :=
  let ends := q.patterns.flatMap fun r =>
    let s : Regular.Subject := { text, folds := q.folds, exact := r.copies }
    ((Regular.ways s r ⟨start, []⟩).map (·.position)).filter (q.accepts s start)
  ends.max?

def matchFrom? (q : Search) (text : Array Char) : Nat → Nat → Option (Nat × Nat)
  | 0, _ => none
  | fuel + 1, start =>
    match q.endAt? text start with
    | some stop => some (start, stop)
    | none => if q.whole then none else matchFrom? q text fuel (start + 1)

def selects (q : Search) (line : List Char) : Bool :=
  let text := line.toArray
  (q.matchFrom? text (text.size + 1) 0).isSome != q.inverted

def allMatches (q : Search) (text : Array Char) : Nat → Nat → List (Nat × Nat)
  | 0, _ => []
  | fuel + 1, start =>
    match q.matchFrom? text (text.size + 1 - start) start with
    | none => []
    | some (a, b) =>
      if a < b then (a, b) :: allMatches q text fuel b
      else allMatches q text fuel (a + 1)

end Search

structure Report where
  given : Given
  search : Search
  before : Nat := 0
  after : Nat := 0
  /-- What is written between groups of lines that do not follow one another. -/
  between : Option String := none
  most : Option Nat := none
  names : Bool := false
  label : String := "(standard input)"
  separator : Char := '\n'
  /-- How wide numbers are at least. -/
  width : Nat := 0

/-- A line of a file: its number, the number of octets before it, and whether it is selected. -/
structure Line where
  number : Nat
  offset : Nat
  text : List Char
  selected : Bool

def numbered (q : Search) : Nat → Nat → List (List Char) → List Line
  | _, _, [] => []
  | number, offset, text :: rest =>
    ⟨number, offset, text, q.selects text⟩ ::
      numbered q (number + 1) (offset + text.length + 1) rest

/-- The selected lines up to the greatest number of them, and the lines that may be written after
those. -/
def cutLines : Option Nat → List Line → List Line
  | _, [] => []
  | none, lines => lines
  | some 0, lines => lines.takeWhile fun l => !l.selected
  | some (n + 1), l :: rest =>
    l :: cutLines (some (if l.selected then n else n + 1)) rest

def linesShown (before after : Nat) (lines : List Line) : List Line :=
  let numbers := (lines.filter (·.selected)).map (·.number)
  let rec go : List Nat → Nat → List Line → List Line
    | _, _, [] => []
    | ahead, left, l :: rest =>
      let ahead := ahead.dropWhile (· < l.number)
      if l.selected then l :: go ahead after rest
      else if 0 < left then l :: go ahead (left - 1) rest
      else if ahead.head?.any fun n => n ≤ l.number + before then l :: go ahead 0 rest
      else go ahead 0 rest
  go numbers 0 lines

def Report.start (r : Report) (name : String) (number offset : Nat) (sign : String) : String :=
  let g := r.given
  let named := if r.names then name ++ (if g.has 'Z' then "\x00" else sign) else ""
  let padded (n : Nat) : String :=
    let digits := toString n
    String.ofList (List.replicate (r.width - digits.length) ' ') ++ digits
  let counted := if g.has 'n' then padded number ++ sign else ""
  let placed := if g.has 'b' then padded offset ++ sign else ""
  let head := named ++ counted ++ placed
  if g.has 'T' && !head.isEmpty then head ++ "\t" else head

def Report.writeLine (r : Report) (name : String) (l : Line) : ShellM Unit := do
  let ending := [r.separator]
  if r.given.has 'o' then
    if l.selected && !r.search.inverted then
      let text := l.text.toArray
      for (a, b) in r.search.allMatches text (text.size + 1) 0 do
        emitList ((r.start name l.number (l.offset + a) ":").toList ++
          (text.extract a b).toList ++ ending)
  else
    let sign := if l.selected then ":" else "-"
    emitList ((r.start name l.number l.offset sign).toList ++ l.text ++ ending)

inductive Written where
  | nothing
  | elsewhere
  | line (number : Nat)
  deriving Repr, DecidableEq

def Report.writeLines (r : Report) (name : String) : Written → List Line → ShellM Unit
  | _, [] => return
  | last, l :: rest => do
    let follows := match last with
      | .nothing => true
      | .elsewhere => false
      | .line n => n + 1 == l.number
    match r.between with
    | some text => if !follows then emit (text ++ "\n")
    | none => pure ()
    r.writeLine name l
    r.writeLines name (.line l.number) rest

/-- What becomes of texts that are not made of lines. -/
def binaryTreatment (g : Given) : String :=
  match g.last? ['a', 'I', '\x0e'] with
  | some 'a' => "text"
  | some 'I' => "without-match"
  | some _ => (g.value? '\x0e').getD "binary"
  | none => "binary"

def isBinary (r : Report) (text : List Char) : Bool :=
  text.contains '\x00' && binaryTreatment r.given != "text" && r.separator == '\n'

/-- Searches a text; says how many lines are selected. Nothing more is written once that is
enough. -/
def Report.searchText (r : Report) (name : String) (hasWritten : Bool) (text : List Char) :
    ShellM Nat := do
  let g := r.given
  let size := if name == "-" then Nat.pow 2 64 - 1
    else text.length + if g.has 'n' then 1 else 0
  let r := if g.has 'T' then { r with width := (toString size).length } else r
  let shown := if name == "-" then r.label else name
  let lines := numbered r.search 1 0 (linesOf r.separator text)
  let lines := if r.most == some 0 then [] else cutLines r.most lines
  let count := (lines.filter (·.selected)).length
  let count := if isBinary r text && binaryTreatment g == "without-match" then 0 else count
  if g.has 'q' then return count
  let listed := match g.last? ['l', 'L'] with
    | some 'l' => count != 0
    | some _ => count == 0
    | none => false
  if (g.last? ['l', 'L']).isSome then
    if listed then emit (shown ++ if g.has 'Z' then "\x00" else "\n")
  else if g.has 'c' then
    let start := if r.names then shown ++ (if g.has 'Z' then "\x00" else ":") else ""
    emit (start ++ toString count ++ "\n")
  else if isBinary r text then
    if 0 < count then complain ("grep: " ++ shown ++ ": binary file matches")
  else
    r.writeLines shown (if hasWritten then .elsewhere else .nothing)
      (linesShown r.before r.after lines)
  return count

/-- What a search has come to: whether a line was selected, whether something failed, and whether
lines were written. -/
structure Searched where
  found : Bool := false
  failed : Bool := false
  wrote : Bool := false

def Report.searchFiles (r : Report) : Searched → List String → ShellM Searched
  | s, [] => return s
  | s, file :: rest => do
    let quiet := r.given.has 's'
    let state ← get
    let place := if file == "-" then match state.opening? 0 with
        | some (_, ⟨.file l _ _, _, _⟩) => some l
        | _ => none
      else match state.disk.locate (pathOf file) with
        | .ok location => some location
        | .error _ => none
    let isOutput := match state.opening? 1, place with
      | some (_, ⟨.file l _ _, _, _⟩), some l' => l = l'
      | _, _ => false
    let lists := r.given.has 'q' || r.given.has 'l' || r.given.has 'L'
    if isOutput && !lists && !r.given.has 'c' && r.most.all (1 < ·) then
      complain ("grep: " ++ (if file == "-" then r.label else file) ++
        ": input file is also the output")
      r.searchFiles { s with failed := true } rest
    else
      let text ← if file == "-" then (do return (← readRest 0).elim (.error .isDirectory) .ok)
        else readFile file
      match text with
      | .error fault =>
        if !quiet then complain ("grep: " ++ file ++ ": " ++ faultText fault)
        if fault == .isDirectory && r.given.has 'c' && !lists then
          emit ((if r.names then file ++ ":" else "") ++ "0\n")
        r.searchFiles { s with failed := true } rest
      | .ok text =>
        let count ← r.searchText file s.wrote text
        let s := { s with found := s.found || 0 < count, wrote := s.wrote || 0 < count }
        if r.given.has 'q' && s.found then return s
        r.searchFiles s rest

/-- The files below a directory, in the order of their names, without those in directories that are
skipped. -/
def filesIn (disk : Disk) (skips : List Char → Bool) : Nat → String → List String
  | 0, _ => []
  | depth + 1, directory =>
    (Glob.namesIn disk directory).flatMap fun name =>
      let path := (Path.join ⟨directory⟩ name).text
      if !disk.isDirectory (pathOf path) then [path]
      else if skips name.toList then []
      else filesIn disk skips depth path

def fitsName (name : List Char) (pattern : String) : Bool :=
  Glob.covers (pattern.toList.map fun c => (c, false)) name

def isAskedFor (g : Given) (path : String) : Bool :=
  let name := (path.toList.reverse.takeWhile (· != '/')).reverse
  let wanted := g.values '\x01'
  (wanted.isEmpty || wanted.any (fitsName name)) && !(g.values '\x02').any (fitsName name)

def searchedFiles (g : Given) (disk : Disk) (operands : List String) : List String :=
  let recursive := g.has 'r' || g.has 'R'
  let operands := if operands.isEmpty then [if recursive then "" else "-"] else operands
  operands.flatMap fun file =>
    if recursive && file != "-" && (file.isEmpty || disk.isDirectory (pathOf file)) then
      let skips (name : List Char) : Bool := (g.values '\x08').any (fitsName name)
      let found := filesIn disk skips 100 (if file.isEmpty then "." else file)
      let found := if file.isEmpty then found.map fun p => String.ofList (p.toList.drop 2)
        else found
      found.filter (isAskedFor g)
    else if isAskedFor g file then [file]
    else []

def grepOptions : Options :=
  Options.ofLetters "EFGPe:f:iyvwxcLlm:oqsbHhnTZzaIrRA:B:C:Ud:D:0123456789V"
    [("extended-regexp", 'E', .nothing), ("fixed-strings", 'F', .nothing),
     ("basic-regexp", 'G', .nothing), ("perl-regexp", 'P', .nothing), ("regexp", 'e', .value),
     ("file", 'f', .value), ("ignore-case", 'i', .nothing), ("no-ignore-case", '\x03', .nothing),
     ("invert-match", 'v', .nothing), ("word-regexp", 'w', .nothing),
     ("line-regexp", 'x', .nothing), ("count", 'c', .nothing),
     ("files-without-match", 'L', .nothing), ("files-with-matches", 'l', .nothing),
     ("max-count", 'm', .value), ("only-matching", 'o', .nothing), ("quiet", 'q', .nothing),
     ("silent", 'q', .nothing), ("no-messages", 's', .nothing), ("byte-offset", 'b', .nothing),
     ("with-filename", 'H', .nothing), ("no-filename", 'h', .nothing),
     ("line-number", 'n', .nothing), ("initial-tab", 'T', .nothing), ("null", 'Z', .nothing),
     ("null-data", 'z', .nothing), ("text", 'a', .nothing), ("recursive", 'r', .nothing),
     ("dereference-recursive", 'R', .nothing), ("after-context", 'A', .value),
     ("before-context", 'B', .value), ("context", 'C', .value), ("include", '\x01', .value),
     ("exclude", '\x02', .value), ("exclude-dir", '\x08', .value),
     ("label", '\x04', .value), ("color", '\x05', .joined),
     ("colour", '\x05', .joined), ("line-buffered", '\x05', .nothing),
     ("binary", 'U', .nothing), ("group-separator", '\x06', .value),
     ("no-group-separator", '\x07', .nothing), ("binary-files", '\x0e', .value),
     ("directories", 'd', .value), ("version", 'V', .nothing)]

def literal : List Char → Regular
  | [] => .empty
  | [c] => .one c
  | c :: rest => .sequence (.one c) (literal rest)

/-- Whether a pattern is a class of characters without the brackets of a set. -/
def isBareClass (cs : List Char) : Bool :=
  match cs with
  | '[' :: ':' :: rest =>
    let name := rest.takeWhile (· != ':')
    rest.drop name.length == [':', ']'] && name.all fun c => c.isAlpha
  | _ => false

def patternsOf (kind : Option Char) (text : String) : Except String (List Regular) :=
  (Text.splitOn '\n' text.toList).mapM fun cs =>
    match kind with
    | some 'F' => .ok (literal cs)
    | kind =>
      if isBareClass cs then .error "character class syntax is [[:space:]], not [:space:]"
      else
        let extended := kind == some 'E' || kind == some 'P'
        (Regular.ofText { extended, lenient := true } cs).map Prod.fst

/-- The numbers of lines around those that are selected, where a number stands for both. -/
def contextOf (g : Given) (letter : Char) : Except String (Option Nat) :=
  let digits := String.ofList ((g.options.filter fun o => o.1.isDigit).map Prod.fst)
  let value := match g.value? letter, g.value? 'C' with
    | some v, _ => some v
    | none, some v => some v
    | none, none => if digits.isEmpty then none else some digits
  match value with
  | none => .ok none
  | some v =>
    match Text.digits? 10 v.toList with
    | some n => .ok (some n)
    | none => .error (v ++ ": invalid context length argument")

/-- What is searched for and written, by the options that were given. Without patterns all lines are
those that no match of the empty pattern is in. -/
def reportOf (g : Given) (patterns : List String) (operands : List String) :
    Except String Report := do
  let before ← contextOf g 'B'
  let after ← contextOf g 'A'
  let most ← match g.value? 'm' with
    | none => pure none
    | some v =>
      match Text.digits? 10 v.toList with
      | some n => pure (some n)
      | none => if v == "-1" then pure none else throw "invalid max count"
  let kinds := (g.options.map Prod.fst).filter fun c => "EFGP".toList.contains c
  if kinds.any fun c => some c != kinds.head? then throw "conflicting matchers specified"
  let regulars ← (if patterns.isEmpty then [""] else patterns).mapM (patternsOf kinds.head?)
  let folds := match g.last? ['i', 'y', '\x03'] with
    | some '\x03' | none => false
    | some _ => true
  let search : Search :=
    { patterns := regulars.flatten
      folds
      whole := g.has 'x' && !patterns.isEmpty
      words := g.has 'w' && !patterns.isEmpty
      inverted := g.has 'v' != patterns.isEmpty }
  let hasContext := before.isSome || after.isSome
  let separator := if g.has '\x07' then none else some ((g.value? '\x06').getD "--")
  let names := match g.last? ['H', 'h'] with
    | some 'H' => true
    | some _ => false
    | none => g.has 'r' || g.has 'R' || 1 < operands.length
  return {
    given := g
    search
    before := if g.has 'o' then 0 else before.getD 0
    after := if g.has 'o' then 0 else after.getD 0
    between := if hasContext then separator else none
    most
    names
    label := (g.value? '\x04').getD "(standard input)"
    separator := if g.has 'z' then '\x00' else '\n' }

/-- The patterns in files, or nothing if one cannot be read, which is said. -/
def filePatterns : List String → ShellM (Option (List String))
  | [] => return some []
  | file :: rest => do
    match ← readOperand "grep" file with
    | none => return none
    | some text =>
      let lines := (linesOf '\n' text).map String.ofList
      return (← filePatterns rest).map (lines ++ ·)

/-- Searches files for patterns. The kind of the patterns may be given by the name. -/
def grep (kind : Option Char) (args : List String) : ShellM Nat :=
  withArguments "grep" grepOptions 2 args fun g => do
    let g := match kind with
      | some c => { g with options := g.options ++ [(c, "")] }
      | none => g
    if g.has 'V' then
      emit "grep (GNU grep) 3.8\n"
      return 0
    match ← filePatterns (g.values 'f') with
    | none => return 2
    | some fromFiles =>
      let isGiven := g.has 'e' || g.has 'f'
      let patterns := if isGiven then g.values 'e' ++ fromFiles else g.operands.take 1
      let operands := if isGiven then g.operands else g.operands.drop 1
      if !isGiven && g.operands.isEmpty then
        complain "Usage: grep [OPTION]... PATTERNS [FILE]..."
        return 2
      match reportOf g patterns operands with
      | .error reason =>
        complain ("grep: " ++ reason)
        return 2
      | .ok report => do
        let q := report.search
        let selectsNone := q.inverted && !q.whole && !q.words && q.patterns.all (· == .empty)
        if (report.most == some 0 || selectsNone) && g.last? ['l', 'L'] != some 'L' then return 1
        let s ← report.searchFiles {} (searchedFiles g (← get).disk operands)
        if s.found && g.has 'q' then return 0
        return if s.failed then 2 else if s.found then 0 else 1

end Utility

end ShaderReducer
