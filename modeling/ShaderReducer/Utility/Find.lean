import ShaderReducer.Shell.Condition
import ShaderReducer.Utility.Files
import ShaderReducer.Utility.Regular

/-!
# Finding files

Going through directories and doing something with what is found, and running a command with arguments
that are read.
-/

namespace ShaderReducer

namespace Utility

open Shell

/-! ## Running commands -/

/-- Runs a command for a utility, which says if there is none; gives the status. -/
def runFor (run : Runner) (utility : String) (words : List String) : ShellM Nat := do
  let name := words.headD ""
  match lookUp run.programs (← get) name with
  | .missing =>
    complain (utility ++ ": '" ++ name ++ "': No such file or directory")
    return 127
  | .denied =>
    complain (utility ++ ": '" ++ name ++ "': Permission denied")
    return 126
  | _ =>
    run.program words
    return (← getProcess).status

def replaceText (old new : List Char) : Nat → List Char → List Char
  | 0, cs => cs
  | _, [] => []
  | fuel + 1, c :: rest =>
    if !old.isEmpty && old.isPrefixOf (c :: rest) then
      new ++ replaceText old new fuel ((c :: rest).drop old.length)
    else c :: replaceText old new fuel rest

def replaceIn (sign new word : String) : String :=
  String.ofList (replaceText sign.toList new.toList (word.length + 1) word.toList)

/-! ## Conditions on files -/

inductive FindTest where
  | name (pattern : String) (folds whole : Bool)
  | regular (r : Regular) (folds : Bool)
  | kind (letters : List Char)
  | size (sign : Option Char) (count unit : Nat)
  | isEmpty
  | newer (file : String)
  | runs
  | always (value : Bool)
  | negation (t : FindTest)
  | both (t u : FindTest)
  | either (t u : FindTest)
  | inTurn (t u : FindTest)
  | write (ending : String)
  | writeFormat (format : List Char)
  | delete
  | run (words : List String) (inDirectory : Bool)
  | collect (words : List String)
  | quit
  | prune

def FindTest.acts : FindTest → Bool
  | .write _ | .writeFormat _ | .delete | .run .. | .collect _ | .quit => true
  | .negation t => t.acts
  | .both t u | .either t u | .inTurn t u => t.acts || u.acts
  | _ => false

def FindTest.deletes : FindTest → Bool
  | .delete => true
  | .negation t => t.deletes
  | .both t u | .either t u | .inTurn t u => t.deletes || u.deletes
  | _ => false

structure FindRange where
  least : Nat := 0
  most : Option Nat := none
  holdingFirst : Bool := false

abbrev FindReadM (α : Type) : Type := StateT (List String × FindRange) (Except String) α

def findValue (before : String) : FindReadM String := do
  match ← get with
  | (w :: rest, range) =>
    set (rest, range)
    return w
  | ([], _) => throw ("missing argument to '" ++ before ++ "'")

def commandWords : List String → Option (List String × Bool × List String)
  | [] => none
  | ";" :: rest => some ([], false, rest)
  | "\x7b\x7d" :: "+" :: rest => some ([], true, rest)
  | w :: rest => (commandWords rest).map fun (words, many, after) => (w :: words, many, after)

def findCommand (before : String) : FindReadM (List String × Bool) := do
  let (words, range) ← get
  match commandWords words with
  | some (command, many, rest) =>
    if command.isEmpty then throw ("invalid argument \x60;' to \x60" ++ before ++ "'")
    set (rest, range)
    return (command, many)
  | none => throw ("missing argument to '" ++ before ++ "'")

def findSize? (text : String) : Option FindTest :=
  let (sign, cs) := match text.toList with
    | '+' :: rest => (some '+', rest)
    | '-' :: rest => (some '-', rest)
    | cs => (none, cs)
  let digits := cs.takeWhile Char.isDigit
  let unit := match cs.drop digits.length with
    | [] | ['b'] => some 512
    | ['c'] => some 1
    | ['w'] => some 2
    | ['k'] => some 1024
    | ['M'] => some 1048576
    | ['G'] => some 1073741824
    | _ => none
  match Text.digits? 10 digits, unit with
  | some n, some unit => some (.size sign n unit)
  | _, _ => none

def findTest (word : String) : FindReadM FindTest := do
  let number : FindReadM Nat := do
    let v ← findValue word
    match v.toNat? with
    | some n => return n
    | none => throw ("Expected a positive decimal integer argument to " ++ word ++ ", but got '" ++
        v ++ "'")
  match word with
  | "-name" => return .name (← findValue word) false false
  | "-iname" => return .name (← findValue word) true false
  | "-path" | "-wholename" => return .name (← findValue word) false true
  | "-ipath" | "-iwholename" => return .name (← findValue word) true true
  | "-regex" | "-iregex" =>
    match Regular.ofText ⟨false, true⟩ (← findValue word).toList with
    | .ok (r, _) => return .regular r (word == "-iregex")
    | .error reason => throw reason
  | "-type" | "-xtype" =>
    let v ← findValue word
    let letters := v.toList.filter (· != ',')
    if letters.isEmpty || !letters.all fun c => "bcdpflsD".toList.contains c then
      throw ("Unknown argument to -type: " ++ v)
    return .kind letters
  | "-size" =>
    let v ← findValue word
    match findSize? v with
    | some t => return t
    | none => throw ("Invalid argument \x60" ++ v ++ "' to -size")
  | "-empty" => return .isEmpty
  | "-newer" => return .newer (← findValue word)
  | "-executable" => return .runs
  | "-readable" | "-writable" | "-true" | "-daystart" | "-mount" | "-xdev" | "-noleaf" |
    "-follow" => return .always true
  | "-false" => return .always false
  | "-perm" | "-user" | "-group" | "-mtime" | "-mmin" | "-ctime" | "-cmin" | "-atime" | "-amin" =>
    let _ ← findValue word
    return .always true
  | "-print" => return .write "\n"
  | "-print0" => return .write "\x00"
  | "-printf" => return .writeFormat (← findValue word).toList
  | "-delete" => return .delete
  | "-prune" => return .prune
  | "-quit" => return .quit
  | "-exec" | "-execdir" | "-ok" => do
    let (words, many) ← findCommand word
    return if many then .collect words else .run words (word == "-execdir")
  | "-maxdepth" =>
    let n ← number
    modify fun (ws, range) => (ws, { range with most := some n })
    return .always true
  | "-mindepth" =>
    let n ← number
    modify fun (ws, range) => (ws, { range with least := n })
    return .always true
  | "-depth" | "-d" =>
    modify fun (ws, range) => (ws, { range with holdingFirst := true })
    return .always true
  | w =>
    if w.toList.head? == some '-' then throw ("unknown predicate \x60" ++ w ++ "'")
    else throw ("paths must precede expression: \x60" ++ w ++ "'")

mutual

def findPrimary : Nat → FindReadM FindTest
  | 0 => throw "expression too deep"
  | fuel + 1 => do
    match ← get with
    | ([], _) => throw "expected an expression"
    | (w :: rest, range) => do
      set (rest, range)
      match w with
      | "!" | "-not" => return .negation (← findPrimary fuel)
      | "(" => do
        let t ← findInTurn fuel
        match ← get with
        | (")" :: rest, range) =>
          set (rest, range)
          return t
        | _ => throw "invalid expression; expected to find a ')' but didn't see one."
      | ")" => throw "invalid expression; you have too many ')'"
      | w => findTest w

def findBoth : Nat → FindReadM FindTest
  | 0 => throw "expression too deep"
  | fuel + 1 => do
    let first ← findPrimary fuel
    match ← get with
    | ([], _) => return first
    | (w :: rest, range) =>
      if w == "-o" || w == "-or" || w == ")" || w == "," then return first
      if w == "-a" || w == "-and" then set (rest, range)
      return .both first (← findBoth fuel)

def findEither : Nat → FindReadM FindTest
  | 0 => throw "expression too deep"
  | fuel + 1 => do
    let first ← findBoth fuel
    match ← get with
    | ("-o" :: rest, range) | ("-or" :: rest, range) =>
      set (rest, range)
      return .either first (← findEither fuel)
    | _ => return first

def findInTurn : Nat → FindReadM FindTest
  | 0 => throw "expression too deep"
  | fuel + 1 => do
    let first ← findEither fuel
    match ← get with
    | ("," :: rest, range) =>
      set (rest, range)
      return .inTurn first (← findInTurn fuel)
    | _ => return first

end

/-! ## Going through directories -/

structure Found where
  path : String
  start : String
  depth : Nat

/-- How far a search has come: whether it is over, whether the directory is passed over, the paths that
are collected for commands, and the status. -/
structure Finding where
  ended : Bool := false
  pruned : Bool := false
  collected : List (List String × List String) := []
  status : Nat := 0

abbrev FindM (α : Type) : Type := StateT Finding ShellM α

def findLift {α : Type} (work : ShellM α) : FindM α := StateT.lift work

def kindLetter (disk : Disk) (path : String) : Char :=
  if disk.isDirectory (pathOf path) then 'd' else 'f'

def foundText (disk : Disk) (f : Found) (c : Char) : List Char :=
  let size := match disk.entry (pathOf f.path) with
    | .ok (.file bytes _) => bytes.length
    | _ => 4096
  match c with
  | 'p' => f.path.toList
  | 'f' => (lastName f.path).toList
  | 'h' => (directoryName f.path).toList
  | 'P' => ((f.path.toList.drop f.start.length).dropWhile (· == '/'))
  | 's' => (toString size).toList
  | 'd' => (toString f.depth).toList
  | 'y' => [kindLetter disk f.path]
  | 'H' => f.start.toList
  | '%' => ['%']
  | c => ['%', c]

def foundFormat (disk : Disk) (f : Found) : List Char → List Char
  | '%' :: c :: rest => foundText disk f c ++ foundFormat disk f rest
  | '\\' :: c :: rest =>
    (match c with
      | 'n' => ['\n']
      | 't' => ['\t']
      | '0' => ['\x00']
      | '\\' => ['\\']
      | c => ['\\', c]) ++ foundFormat disk f rest
  | c :: rest => c :: foundFormat disk f rest
  | [] => []

def FindTest.holds (run : Runner) (f : Found) : FindTest → FindM Bool
  | .name pattern folds whole => do
    let text := if whole then f.path else lastName f.path
    let fold (s : String) : List Char := if folds then s.toList.map Char.toLower else s.toList
    return Glob.covers ((fold pattern).map fun c => (c, false)) (fold text)
  | .regular r folds => do
    let text := f.path.toList
    let s := Regular.Subject.ofText r folds false text
    return (Regular.ways s r ⟨0, []⟩).any fun p => p.position == text.length
  | .kind letters => do
    return letters.contains (kindLetter (← findLift get).disk f.path)
  | .size sign count unit => do
    let size := match (← findLift get).disk.entry (pathOf f.path) with
      | .ok (.file bytes _) => bytes.length
      | _ => 4096
    let n := (size + unit - 1) / unit
    return match sign with
      | some '+' => count < n
      | some _ => n < count
      | none => n == count
  | .isEmpty => do
    let disk := (← findLift get).disk
    match disk.entry (pathOf f.path) with
    | .ok (.file bytes _) => return bytes.isEmpty
    | .ok .directory => return (Glob.namesIn disk f.path).isEmpty
    | .error _ => return false
  | .newer file => do
    let s ← findLift get
    return match Condition.lastChange s f.path, Condition.lastChange s file with
      | some m, some n => n < m
      | some _, none => true
      | none, _ => false
  | .runs => do
    let s ← findLift get
    return match kindAt run.programs s f.path with
      | .file _ canRun => canRun
      | .directory => true
      | _ => false
  | .always value => return value
  | .negation t => return !(← t.holds run f)
  | .both t u => do if ← t.holds run f then u.holds run f else return false
  | .either t u => do if ← t.holds run f then return true else u.holds run f
  | .inTurn t u => do
    let _ ← t.holds run f
    u.holds run f
  | .write ending => do
    findLift (emit (f.path ++ ending))
    return true
  | .writeFormat format => do
    findLift (emitList (foundFormat (← findLift get).disk f format))
    return true
  | .delete => do
    if f.path == "." then return true
    let isDirectory := (← findLift get).disk.isDirectory (pathOf f.path)
    match ← findLift (change fun d =>
        if isDirectory then d.removeDirectory (pathOf f.path) else d.remove (pathOf f.path)) with
    | none => return true
    | some fault =>
      findLift (complain ("find: cannot delete '" ++ f.path ++ "': " ++ faultText fault))
      modify fun s => { s with status := 1 }
      return false
  | .run words _ => do
    let words := words.map (replaceIn "\x7b\x7d" f.path)
    return (← findLift (runFor run "find" words)) == 0
  | .collect words => do
    modify fun s =>
      let paths := (s.collected.lookup words).getD []
      { s with collected := (s.collected.filter fun c => c.1 != words) ++
          [(words, paths ++ [f.path])] }
    return true
  | .quit => do
    modify fun s => { s with ended := true }
    return true
  | .prune => do
    modify fun s => { s with pruned := true }
    return true

def goThrough (run : Runner) (range : FindRange) (t : FindTest) : Nat → Found → FindM Unit
  | 0, _ => return
  | fuel + 1, f => do
    if (← get).ended then return
    let disk := (← findLift get).disk
    let isDirectory := disk.isDirectory (pathOf f.path)
    let asks := range.least ≤ f.depth
    modify fun s => { s with pruned := false }
    if asks && !range.holdingFirst then
      let _ ← t.holds run f
    let goesIn := isDirectory && range.most.all (f.depth < ·) && !(← get).pruned
    if goesIn then
      for name in Glob.namesIn disk f.path do
        let path := if f.path.toList.getLast? == some '/' then f.path ++ name
          else f.path ++ "/" ++ name
        goThrough run range t fuel ⟨path, f.start, f.depth + 1⟩
    if asks && range.holdingFirst && !(← get).ended then
      let _ ← t.holds run f

def find (run : Runner) (args : List String) : ShellM Nat := do
  let args := args.dropWhile fun a => a == "-L" || a == "-H" || a == "-P"
  let isPath (a : String) : Bool :=
    !(a == "!" || a == "(" || a == ")" || a == "," || (a.toList.head? == some '-' && a != "-"))
  let paths := args.takeWhile isPath
  let words := args.drop paths.length
  let stop (reason : String) : ShellM Nat := do
    complain ("find: " ++ reason)
    return 1
  let read : FindReadM FindTest := do
    if words.isEmpty then return .always true
    let t ← findInTurn (3 * words.length + 10)
    match ← get with
    | ([], _) => return t
    | _ => throw "invalid expression; you have too many ')'"
  match read.run (words, {}) with
  | .error reason => stop reason
  | .ok (t, (_, range)) => do
    let range := if t.deletes then { range with holdingFirst := true } else range
    let t := if t.acts then t else .both t (.write "\n")
    let all : FindM Unit := do
      for path in if paths.isEmpty then ["."] else paths do
        let disk := (← findLift get).disk
        if Glob.isThere disk path then goThrough run range t 200 ⟨path, path, 0⟩
        else
          findLift (complain ("find: '" ++ path ++ "': No such file or directory"))
          modify fun s => { s with status := 1 }
    let (_, s) ← all.run {}
    let mut status := s.status
    for (words, paths) in s.collected do
      if (← runFor run "find" (words ++ paths)) != 0 then status := 1
    return status

/-! ## Arguments that are read -/

/-- The words of a text, where quotes and backslashes hide blanks; nothing if a quote is not closed. -/
def quotedWords : Nat → Option (List Char) → List Char → Option (List (List Char))
  | 0, _, _ => some []
  | _, none, [] => some []
  | _, some w, [] => some [w.reverse]
  | fuel + 1, w, c :: rest =>
    if c == ' ' || c == '\t' || c == '\n' then
      match w with
      | none => quotedWords fuel none rest
      | some w => (quotedWords fuel none rest).map (w.reverse :: ·)
    else if c == '\\' then
      match rest with
      | d :: rest => quotedWords fuel (some (d :: w.getD [])) rest
      | [] => quotedWords fuel (some (w.getD [])) []
    else if c == '\'' || c == '"' then
      let inside := rest.takeWhile fun d => d != c && d != '\n'
      match rest.drop inside.length with
      | d :: rest =>
        if d == c then quotedWords fuel (some (inside.reverse ++ w.getD [])) rest else none
      | [] => none
    else quotedWords fuel (some (c :: w.getD [])) rest

def inGroups {α : Type} (size : Nat) : Nat → List α → List (List α)
  | 0, _ => []
  | _, [] => []
  | fuel + 1, items => items.take size :: inGroups size fuel (items.drop size)

def xargsStatus (status : Nat) : Nat :=
  if status = 0 then 0
  else if status = 126 || status = 127 then status
  else if status = 255 then 124
  else if 128 < status then 125
  else 123

def xargs (run : Runner) (args : List String) : ShellM Nat :=
  let o := Options.ofLetters "0a:d:E:e::I:i::L:l::n:oP:prs:tx"
    [("null", '0', .nothing), ("arg-file", 'a', .value), ("delimiter", 'd', .value),
     ("max-args", 'n', .value), ("max-lines", 'L', .value), ("replace", 'i', .joined),
     ("max-procs", 'P', .value), ("no-run-if-empty", 'r', .nothing), ("verbose", 't', .nothing),
     ("exit", 'x', .nothing), ("max-chars", 's', .value)]
  withArguments "xargs" { o with mixed := false } 1 args fun g => do
    let command := if g.operands.isEmpty then ["echo"] else g.operands
    let text ← match g.value? 'a' with
      | some file => readOperand "xargs" file
      | none => readRest 0
    let sep := if g.has '0' then some '\x00' else match (g.value? 'd').map String.toList with
      | some ['\\', 'n'] => some '\n'
      | some ['\\', 't'] => some '\t'
      | some ['\\', '0'] => some '\x00'
      | some (c :: _) => some c
      | _ => none
    let sign : Option String := match g.value? 'I' with
      | some s => some s
      | none => (g.value? 'i').map fun s => if s.isEmpty then "\x7b\x7d" else s
    let text : List Char := text.getD []
    let items : Option (List (List Char)) := match sep with
      | some c => some (linesOf c text)
      | none =>
        if sign.isSome then
          let lines := ((linesOf '\n' text).map (List.dropWhile isGap)).filter (!·.isEmpty)
          (lines.mapM fun l =>
            (quotedWords (l.length + 1) none (l.map fun c => if isGap c then '\x00' else c)).map
              fun words => (words.flatten).map fun c => if c == '\x00' then ' ' else c)
        else quotedWords (text.length + 1) none text
    match items with
    | none =>
      complain ("xargs: unmatched single quote; by default quotes are special to xargs " ++
        "unless you use the -0 option")
      return 1
    | some items =>
      let number (c : Char) : Option Nat := (g.value? c).bind String.toNat?
      let words := items.map String.ofList
      let calls : List (List String) := match sign with
        | some sign => words.map fun w => command.map (replaceIn sign w)
        | none =>
          match number 'L' <|> number 'l' with
          | some n =>
            let lines := (linesOf '\n' text).filter (!·.isEmpty)
            (inGroups (max 1 n) lines.length lines).map fun group =>
              command ++ ((group.map fun l =>
                (quotedWords (l.length + 1) none l).getD []).flatten).map String.ofList
          | none =>
            if words.isEmpty then if g.has 'r' then [] else [command]
            else match number 'n' with
              | some n => (inGroups (max 1 n) words.length words).map (command ++ ·)
              | none => [command ++ words]
      let input ← addOpening ⟨.null, true, false⟩
      let before := (← getProcess).descriptors
      modifyProcess fun p => p.withDescriptor 0 (some input)
      let mut status := 0
      for call in calls do
        if g.has 't' then complain (" ".intercalate call)
        if status != 124 && status != 125 && status != 126 && status != 127 then
          let result := xargsStatus (← runFor run "xargs" call)
          if result != 0 then status := result
      modifyProcess fun p => { p with descriptors := before }
      return status

end Utility

end ShaderReducer
