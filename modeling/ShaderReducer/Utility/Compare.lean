import ShaderReducer.Shell.Glob
import ShaderReducer.Utility.Arguments

/-!
# Comparing files

The first place where two files differ, and the lines that have to be taken away and put in to make one
file of the other.
-/

namespace ShaderReducer

namespace Utility

open Shell

/-! ## Octets -/

def commonStart : List Char → List Char → Nat
  | a :: as, b :: bs => if a == b then commonStart as bs + 1 else 0
  | _, _ => 0

def cmp (args : List String) : ShellM Nat :=
  let o := Options.ofLetters "bi:ln:s"
    [("print-bytes", 'b', .nothing), ("ignore-initial", 'i', .value), ("verbose", 'l', .nothing),
     ("bytes", 'n', .value), ("quiet", 's', .nothing), ("silent", 's', .nothing)]
  withArguments "cmp" o 2 args fun g => do
    if g.operands.isEmpty then
      complain "cmp: missing operand after 'cmp'"
      return 2
    let first := g.operands.headD "-"
    let second := (g.operands[1]?).getD "-"
    let number (text : Option String) : Nat := ((text.bind String.toNat?)).getD 0
    let skips := match (g.value? 'i').map fun v => Text.splitOn ':' v.toList with
      | some [m, n] => (number (some (String.ofList m)), number (some (String.ofList n)))
      | some [m] => (number (some (String.ofList m)), number (some (String.ofList m)))
      | _ => (number (g.operands[2]?), number ((g.operands[3]?) <|> none))
    let read (file : String) : ShellM (Option (List Char)) := do
      let text ← if file == "-" then (do return (← readRest 0).elim (.error .isDirectory) .ok)
        else readFile file
      match text with
      | .ok text => return some text
      | .error fault =>
        if !g.has 's' then complainAbout "cmp" file fault
        return none
    match ← read first, ← read second with
    | some a, some b =>
      let cutTo (cs : List Char) : List Char := match (g.value? 'n').bind String.toNat? with
        | some n => cs.take n
        | none => cs
      let a := cutTo (a.drop skips.1)
      let b := cutTo (b.drop skips.2)
      let n := commonStart a b
      if a == b then return 0
      let atEnd := n == a.length || n == b.length
      let shorter := if a.length < b.length then first else second
      let shown := if a.length < b.length then a else b
      if g.has 's' then return 1
      if g.has 'l' then
        let octal (c : Char) : List Char := padLeft 3 (Nat.toDigits 8 c.toNat)
        let width := (toString (min a.length b.length)).length
        for ((x, y), i) in (a.zip b).zipIdx 1 do
          if x != y then
            emitList (padLeft width (toString i).toList ++ ' ' :: octal x ++ ' ' :: octal y ++ ['\n'])
        if a.length != b.length then
          complain ("cmp: EOF on " ++ shorter ++
            if shown.isEmpty then " which is empty" else " after byte " ++ toString shown.length)
        return 1
      if atEnd then
        let lines := shown.count '\n'
        let inLine := shown.getLast? != some '\n'
        complain ("cmp: EOF on " ++ shorter ++
          if shown.isEmpty then " which is empty"
          else " after byte " ++ toString n ++ (if inLine then ", in line " else ", line ") ++
            toString (if inLine then lines + 1 else lines))
      else
        let line := (a.take n).count '\n' + 1
        emit (first ++ " " ++ second ++ " differ: char " ++ toString (n + 1) ++ ", line " ++
          toString line ++ "\n")
      return 1
    | _, _ => return 2

/-! ## Lines -/

/-- Lines that are taken away from one file, and those that are put in their place: the numbers of lines
before them and how many they are. -/
structure Hunk where
  first : Nat
  removed : Nat
  second : Nat
  added : Nat
  deriving Repr, DecidableEq

/-- The lengths of the longest common rows of lines of a line's rest and the rests of another file, from
those of what follows the line. -/
def commonRow (line : List Char) (others : List (List Char)) (below : List Nat) : List Nat :=
  let rec go : List (List Char) → List Nat → List Nat
    | o :: os, d :: r :: ds =>
      let row := go os (r :: ds)
      (if o == line then r + 1 else max d (row.headD 0)) :: row
    | _, _ => [0]
  go others below

def commonTable (as bs : List (List Char)) : List (Array Nat) :=
  let last := List.replicate (bs.length + 1) 0
  let rows := as.foldr (fun a (rows : List (List Nat)) =>
    commonRow a bs (rows.headD last) :: rows) [last]
  rows.map List.toArray

/-- The lines that are not in a longest common row, as steps: whether a line of the first and of the
second file is passed. Lines are paired as early as possible. -/
def editSteps : Nat → List (List Char) → List (List Char) → List (Array Nat) → Nat →
    List (Bool × Bool)
  | 0, _, _, _, _ => []
  | fuel + 1, a :: as, b :: bs, rows, j =>
    let at' (row : Nat) (j : Nat) : Nat := ((rows[row]?).getD #[])[j]?.getD 0
    if a == b then (true, true) :: editSteps fuel as bs (rows.drop 1) (j + 1)
    else if at' 0 (j + 1) ≤ at' 1 j then (true, false) :: editSteps fuel as (b :: bs) (rows.drop 1) j
    else (false, true) :: editSteps fuel (a :: as) bs rows (j + 1)
  | fuel + 1, _ :: as, [], rows, j => (true, false) :: editSteps fuel as [] (rows.drop 1) j
  | fuel + 1, [], _ :: bs, rows, j => (false, true) :: editSteps fuel [] bs rows (j + 1)
  | _, [], [], _, _ => []

/-- Adds a step to the hunks that were found, the last one first. -/
def addStep (s : List Hunk × Nat × Nat × Bool) (step : Bool × Bool) : List Hunk × Nat × Nat × Bool :=
  let (hunks, i, j, isOpen) := s
  match step with
  | (true, true) => (hunks, i + 1, j + 1, false)
  | (a, b) =>
    let m := if a then 1 else 0
    let n := if b then 1 else 0
    let (h, rest) := match isOpen, hunks with
      | true, h :: rest => (h, rest)
      | _, hunks => (⟨i, 0, j, 0⟩, hunks)
    ({ h with removed := h.removed + m, added := h.added + n } :: rest, i + m, j + n, true)

def commonLines : List (List Char) → List (List Char) → Nat
  | a :: as, b :: bs => if a == b then commonLines as bs + 1 else 0
  | _, _ => 0

def hunksOf (as bs : List (List Char)) : List Hunk :=
  let head := commonLines as bs
  let as := as.drop head
  let bs := bs.drop head
  let tail := commonLines as.reverse bs.reverse
  let as := as.take (as.length - tail)
  let bs := bs.take (bs.length - tail)
  let steps := editSteps (as.length + bs.length + 1) as bs (commonTable as bs) 0
  ((steps.foldl addStep ([], head, head, false)).1).reverse

/-- Moves hunks that only take lines away, or only put lines in, as far down as possible. -/
def slideHunk (as bs : Array (List Char)) : Nat → Hunk → Nat → Nat → Hunk
  | 0, h, _, _ => h
  | fuel + 1, h, lastA, lastB =>
    let next (xs : Array (List Char)) (start count last : Nat) : Bool :=
      start + count < last && xs[start]? == xs[start + count]? && (xs[start]?).isSome
    let slides := (h.added = 0 && next as h.first h.removed lastA && h.second < lastB) ||
      (h.removed = 0 && next bs h.second h.added lastB && h.first < lastA)
    if slides then
      slideHunk as bs fuel { h with first := h.first + 1, second := h.second + 1 } lastA lastB
    else h

def slideHunks (as bs : Array (List Char)) : List Hunk → List Hunk
  | [] => []
  | h :: rest =>
    let (lastA, lastB) := match rest with
      | next :: _ => (next.first, next.second)
      | [] => (as.size, bs.size)
    slideHunk as bs (as.size + bs.size) h lastA lastB :: slideHunks as bs rest

/-! ## Writing differences -/

structure DiffStyle where
  given : Given
  /-- The number of lines around changes, in the unified form. -/
  unified : Option Nat

def DiffStyle.compared (d : DiffStyle) (line : List Char) : List Char :=
  let has := d.given.has
  let line := if has '\x01' then
      (if line.getLast? == some '\r' then line.dropLast else line)
    else line
  let trim (cs : List Char) : List Char := (cs.reverse.dropWhile Octets.isSpace).reverse
  let rec oneBlank : List Char → List Char
    | a :: b :: rest =>
      if Octets.isSpace a && Octets.isSpace b then oneBlank (b :: rest)
      else (if Octets.isSpace a then ' ' else a) :: oneBlank (b :: rest)
    | [a] => [if Octets.isSpace a then ' ' else a]
    | [] => []
  let line := if has 'w' then line.filter fun c => !Octets.isSpace c
    else if has 'b' then oneBlank (trim line)
    else if has 'Z' then trim line
    else line
  if has 'i' then line.map Char.toLower else line

def lineNumbers (start count : Nat) : String :=
  if count = 0 then toString start
  else if count = 1 then toString (start + 1)
  else toString (start + 1) ++ "," ++ toString (start + count)

def signedLine (sign : String) (line : List Char) : List Char :=
  if line.getLast? == some '\n' then sign.toList ++ line
  else sign.toList ++ line ++ "\n\\ No newline at end of file\n".toList

def signedLines (sign : String) (lines : List (List Char)) (start count : Nat) : List Char :=
  ((lines.drop start).take count).flatMap (signedLine sign)

def normalDiff (as bs : List (List Char)) (hunks : List Hunk) : List Char :=
  hunks.flatMap fun h =>
    let letter := if h.removed = 0 then "a" else if h.added = 0 then "d" else "c"
    (lineNumbers h.first h.removed ++ letter ++ lineNumbers h.second h.added ++ "\n").toList ++
      signedLines "< " as h.first h.removed ++
      (if h.removed = 0 || h.added = 0 then [] else "---\n".toList) ++
      signedLines "> " bs h.second h.added

def groupHunks (context : Nat) : List Hunk → List (List Hunk)
  | [] => []
  | h :: rest =>
    match groupHunks context rest with
    | (next :: group) :: groups =>
      if next.first ≤ h.first + h.removed + 2 * context then (h :: next :: group) :: groups
      else [h] :: (next :: group) :: groups
    | groups => [h] :: groups

/-- The lines of hunks with the lines around them, from a line of the first file on. -/
def unifiedLines (as bs : List (List Char)) (stop : Nat) : Nat → List Hunk → List Char
  | start, [] => signedLines " " as start (stop - start)
  | start, h :: rest =>
    signedLines " " as start (h.first - start) ++ signedLines "-" as h.first h.removed ++
      signedLines "+" bs h.second h.added ++ unifiedLines as bs stop (h.first + h.removed) rest

def unifiedNumbers (start count : Nat) : String :=
  if count = 1 then toString (start + 1)
  else toString (if count = 0 then start else start + 1) ++ "," ++ toString count

def unifiedDiff (context : Nat) (as bs : List (List Char)) (hunks : List Hunk) : List Char :=
  (groupHunks context hunks).flatMap fun group =>
    match group.head?, group.getLast? with
    | some h, some l =>
      let startA := h.first - context
      let startB := h.second - (h.first - startA)
      let stopA := min (l.first + l.removed + context) as.length
      let stopB := l.second + l.added + (stopA - (l.first + l.removed))
      ("@@ -" ++ unifiedNumbers startA (stopA - startA) ++ " +" ++
        unifiedNumbers startB (stopB - startB) ++ " @@\n").toList ++
        unifiedLines as bs stopA startA group
    | _, _ => []

/-- Writes how two texts differ; says whether they do. -/
def DiffStyle.texts (d : DiffStyle) (nameA nameB : String) (a b : List Char) : ShellM Nat := do
  let has := d.given.has
  let same : ShellM Nat := do
    if has 's' then emit ("Files " ++ nameA ++ " and " ++ nameB ++ " are identical\n")
    return 0
  if a == b then return ← same
  let isBinary (cs : List Char) : Bool := cs.contains '\x00'
  if (isBinary a || isBinary b) && !has 'a' then
    emit ((if has 'q' then "Files " else "Binary files ") ++ nameA ++ " and " ++ nameB ++
      " differ\n")
    return if has 'q' then 1 else 2
  let as := wholeLines '\n' a
  let bs := wholeLines '\n' b
  let keysA := as.map d.compared
  let keysB := bs.map d.compared
  let hunks := slideHunks keysA.toArray keysB.toArray (hunksOf keysA keysB)
  let isBlank (l : List Char) : Bool := l == ['\n']
  let hunks := if has 'B' then hunks.filter fun h =>
      !(((as.drop h.first).take h.removed).all isBlank &&
        ((bs.drop h.second).take h.added).all isBlank)
    else hunks
  if hunks.isEmpty then return ← same
  if has 'q' then
    emit ("Files " ++ nameA ++ " and " ++ nameB ++ " differ\n")
    return 1
  match d.unified with
  | none => emitList (normalDiff as bs hunks)
  | some context =>
    let labels := d.given.values '\x02'
    let time := "\t1970-01-01 00:00:00.000000000 +0000"
    emit ("--- " ++ labels.headD (nameA ++ time) ++ "\n")
    emit ("+++ " ++ (labels.drop 1).headD (nameB ++ time) ++ "\n")
    emitList (unifiedDiff context as bs hunks)
  return 1

/-- Writes how two files or directories differ, down to some depth. The arguments are what stands at
the head of a difference between files in directories. -/
def DiffStyle.paths (d : DiffStyle) (args : List String) :
    Nat → Bool → String → String → ShellM Nat
  | 0, _, _, _ => return 2
  | depth + 1, inside, a, b => do
    let has := d.given.has
    let disk := (← get).disk
    let isDirectory (p : String) : Bool := p != "-" && disk.isDirectory (pathOf p)
    let text (file : String) : ShellM (Option (List Char)) := do
      let result ← if file == "-" then (do return (← readRest 0).elim (.error .isDirectory) .ok)
        else readFile file
      match result with
      | .ok text => return some text
      | .error fault =>
        if has 'N' && fault == .notFound then return some []
        complainAbout "diff" file fault
        return none
    match isDirectory a, isDirectory b with
    | true, true =>
      if inside && !has 'r' then
        emit ("Common subdirectories: " ++ a ++ " and " ++ b ++ "\n")
        return 0
      let namesA := Glob.namesIn disk a
      let namesB := Glob.namesIn disk b
      let names := (namesA ++ namesB.filter fun n => !namesA.contains n).mergeSort
        fun m n => m ≤ n
      let mut status := 0
      for n in names do
        let pathA := (Path.join ⟨a⟩ n).text
        let pathB := (Path.join ⟨b⟩ n).text
        if (namesA.contains n && namesB.contains n) || has 'N' then
          status := max status (← d.paths args depth true pathA pathB)
        else
          emit ("Only in " ++ (if namesA.contains n then a else b) ++ ": " ++ n ++ "\n")
          status := max status 1
      return status
    | true, false | false, true =>
      if inside then
        let kind (p : String) : String := if isDirectory p then "directory" else "regular file"
        emit ("File " ++ a ++ " is a " ++ kind a ++ " while file " ++ b ++ " is a " ++ kind b ++ "\n")
        return 1
      let last (p : String) : String :=
        String.ofList (p.toList.reverse.takeWhile (· != '/')).reverse
      if isDirectory a then d.paths args depth false (Path.join ⟨a⟩ (last b)).text b
      else d.paths args depth false a (Path.join ⟨b⟩ (last a)).text
    | false, false =>
      if a == b && a == "-" then return 0
      match ← text a, ← text b with
      | some x, some y =>
        if inside && !has 'q' && x != y then
          let keys (t : List Char) := (wholeLines '\n' t).map d.compared
          if keys x != keys y && !x.contains '\x00' && !y.contains '\x00' then
            emit ("diff " ++ String.join (args.map (· ++ " ")) ++ a ++ " " ++ b ++ "\n")
        d.texts a b x y
      | _, _ => return 2

def diff (args : List String) : ShellM Nat :=
  let o := Options.ofLetters "abBdEiI:NpqrsStTuU:wZ"
    [("text", 'a', .nothing), ("ignore-space-change", 'b', .nothing),
     ("ignore-blank-lines", 'B', .nothing), ("minimal", 'd', .nothing),
     ("ignore-case", 'i', .nothing), ("new-file", 'N', .nothing), ("brief", 'q', .nothing),
     ("recursive", 'r', .nothing), ("report-identical-files", 's', .nothing),
     ("unified", 'u', .joined), ("ignore-all-space", 'w', .nothing),
     ("ignore-trailing-space", 'Z', .nothing), ("strip-trailing-cr", '\x01', .nothing),
     ("label", '\x02', .value), ("normal", '\x03', .nothing), ("color", '\x04', .joined)]
  withArguments "diff" o 2 args fun g => do
    let count := (g.value? 'U' <|> (g.value? 'u').filter fun v => !v.isEmpty)
    let unified := if g.has 'u' || g.has 'U' then
        some (((count.map String.toNat?)).getD (some 3))
      else none
    match unified with
    | some none =>
      complain ("diff: invalid context length '" ++ count.getD "" ++ "'")
      return 2
    | _ => pure ()
    match g.operands with
    | [a, b] =>
      let shown := args.filter fun x => x.toList.head? == some '-' && x != "-" && x != "--"
      let d : DiffStyle := { given := g, unified := unified.map fun n => n.getD 3 }
      d.paths shown 100 false a b
    | [] =>
      complain "diff: missing operand after 'diff'"
      return 2
    | [a] =>
      complain ("diff: missing operand after '" ++ a ++ "'")
      return 2
    | _ :: _ :: extra :: _ =>
      complain ("diff: extra operand '" ++ extra ++ "'")
      return 2

end Utility

end ShaderReducer
