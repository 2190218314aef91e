import ShaderReducer.Shell.Process
import ShaderReducer.Utility.Arguments
import ShaderReducer.Utility.Sed.Script

/-!
# Running `sed`

A script is run once for each line of the input. It works on the line that was read, which may grow
beyond one line, and on a text that is kept between the lines.
-/

namespace ShaderReducer

namespace Utility

namespace Sed

open Shell

/-- A line of the input: its text, whether a newline ended it, the file that it is from, whether it is
the last one that counts as such, and whether the numbers of lines begin anew with it. -/
structure InputLine where
  text : List Char
  ended : Bool
  file : String
  isLast : Bool
  begins : Bool := false

inductive Queued where
  | text (cs : List Char)
  | file (name : String)
  | line (cs : List Char)

/-- Whether a range of lines was not begun, is open up to some line or a match, or is over. -/
inductive RangeState where
  | waiting
  | openTo (line : Nat)
  | openUntil
  | closed
  deriving Repr, DecidableEq

/-- A file that lines are saved to: the place where it is open, and whether its last line lacks a
newline. -/
structure Saved where
  name : String
  place : Nat
  lacksEnd : Bool := false

structure State where
  text : List Char := []
  ended : Bool := true
  kept : List Char := []
  keptEnded : Bool := true
  number : Nat := 0
  file : String := "-"
  isLast : Bool := false
  input : List InputLine
  replaced : Bool := false
  queue : List Queued := []
  ranges : Array RangeState
  lastExpression : Option Expression := none
  written : List (List Char) := []
  lacksEnd : Bool := false
  saved : List Saved := []
  unread : List (String × List (List Char)) := []

structure Options where
  quiet : Bool
  zero : Bool
  width : Nat := 70

def Options.ending (o : Options) : Char := if o.zero then '\x00' else '\n'

/-- Why the run ends early: by its own will, with a status and perhaps without writing the line, or
because of an error. -/
inductive Stop where
  | quit (status : Nat) (writes : Bool)
  | error (reason : String)

abbrev RunM (α : Type) : Type := ExceptT Stop (StateT State ShellM) α

def lift {α : Type} (work : ShellM α) : RunM α := ExceptT.lift (StateT.lift work)

/-! ## Writing -/

/-- Writes to the output, after the newline that the last line lacks. -/
def write (o : Options) (cs : List Char) (ended : Bool) : RunM Unit :=
  modify fun s =>
    let start := if s.lacksEnd then [[o.ending]] else []
    let ending := if ended then [o.ending] else []
    { s with written := ending :: cs :: start ++ s.written, lacksEnd := !ended }

def writeRaw (o : Options) (cs : List Char) : RunM Unit :=
  modify fun s =>
    if cs.isEmpty then s
    else
      let start := if s.lacksEnd then [[o.ending]] else []
      { s with written := cs :: start ++ s.written, lacksEnd := false }

def save (o : Options) (name : String) (cs : List Char) (ended : Bool) : RunM Unit := do
  if name == "/dev/stdout" then write o cs ended
  else match (← get).saved.find? fun f => f.name == name with
    | none => return
    | some f =>
      let start := if f.lacksEnd then [o.ending] else []
      let _ ← lift (writeAt f.place (start ++ cs ++ if ended then [o.ending] else []))
      modify fun s => { s with
        saved := s.saved.map fun g => if g.name == name then { g with lacksEnd := !ended } else g }

def writeQueue (o : Options) : RunM Unit := do
  let queue := (← get).queue
  modify fun s => { s with queue := [] }
  for q in queue.reverse do
    match q with
    | .text cs => writeRaw o cs
    | .line cs => write o cs true
    | .file name =>
      if name == "/dev/stdin" then
        match ← lift (readRest 0) with
        | some cs => writeRaw o cs
        | none => pure ()
      else match ← lift (readFile name) with
        | .ok cs => writeRaw o cs
        | .error .isDirectory => throw (.error ("read error on " ++ name ++ ": Is a directory"))
        | .error _ => pure ()

/-! ## Matching -/

def search (e : Expression) (start : Nat) : RunM (Option Regular.Match) := do
  let s ← get
  let e ← match e.regular, s.lastExpression with
    | some _, _ => pure e
    | none, some last => pure last
    | none, none => throw (.error "-e expression #1, char 0: no previous regular expression")
  modify fun s => { s with lastExpression := some e }
  match e.regular with
  | some r => return Regular.find? (Regular.Subject.ofText r e.folds e.lines s.text) r start
  | none => return none

def isAt (a : Address) : RunM Bool := do
  let s ← get
  match a with
  | .line n => return s.number == n
  | .every first step =>
    return if step = 0 then s.number == first
      else first ≤ s.number && (s.number - first) % step == 0
  | .last => return s.isLast
  | .holding e => return (← search e 0).isSome

def setRange (index : Nat) (r : RangeState) : RunM Unit :=
  modify fun s => { s with ranges := s.ranges.setIfInBounds index r }

/-- Begins a range of lines, unless it ends with the line that it begins with. -/
def beginRange (index : Nat) (start : Address) (stop : RangeEnd) : RunM Bool := do
  let n := (← get).number
  let openTo (last : Nat) : RunM Bool := do
    if n < last then setRange index (.openTo last)
    else match start with
      | .line _ => setRange index .closed
      | _ => pure ()
    return true
  match stop with
  | .after count => openTo (n + count)
  | .multiple m => openTo (if m = 0 then n else (n / m + 1) * m)
  | .at (.line last) =>
    match start with
    | .line first => do
      let _ ← openTo last
      return n ≤ last || n == first
    | _ => openTo last
  | .at _ =>
    setRange index .openUntil
    return true

def applies (index : Nat) (c : Command) : RunM Bool := do
  let found ← match c.start, c.stop with
    | none, _ => pure true
    | some a, none => isAt a
    | some a, some stop => do
      let s ← get
      match (s.ranges[index]?).getD .waiting with
      | .openTo last =>
        if last ≤ s.number then setRange index .closed
        pure (s.number ≤ last)
      | .openUntil =>
        match stop with
        | .at b => if ← isAt b then setRange index .closed
        | _ => pure ()
        pure true
      | state =>
        let begins ← match a with
          | .line n => pure (state == .waiting && n ≤ s.number)
          | a => isAt a
        if begins then beginRange index a stop else pure false
  return found != c.negated

/-! ## Substitution -/

structure CaseState where
  next : Option Bool := none
  rest : Option Bool := none

def CaseState.apply (k : CaseState) : List Char → CaseState × List Char
  | [] => (k, [])
  | c :: cs =>
    let turn (upper : Option Bool) (c : Char) : Char := match upper with
      | some true => c.toUpper
      | some false => c.toLower
      | none => c
    let first := turn (k.next <|> k.rest) c
    ({ k with next := none }, first :: cs.map (turn k.rest))

def replacement (text : Array Char) (m : Regular.Match) : CaseState → List Piece → List Char
  | _, [] => []
  | k, .casing c :: rest =>
    let k : CaseState := match c with
      | .upper => ⟨none, some true⟩
      | .lower => ⟨none, some false⟩
      | .asIs => ⟨none, none⟩
      | .upperNext => { k with next := some true }
      | .lowerNext => { k with next := some false }
    replacement text m k rest
  | k, .text cs :: rest =>
    let (k, cs) := k.apply cs
    cs ++ replacement text m k rest
  | k, .group n :: rest =>
    let (start, stop) := if n = 0 then (m.start, m.stop) else (m.groups.lookup n).getD (0, 0)
    let (k, cs) := k.apply (text.extract start stop).toList
    cs ++ replacement text m k rest

/-- Replaces matches from a position on; gives the text from there on, and whether there was a match to
replace. An empty match right after another match does not count. -/
def replaceFrom (u : Substitution) (text : Array Char) :
    Nat → Nat → Nat → Option Nat → RunM (List Char × Bool)
  | 0, position, _, _ => return ((text.extract position text.size).toList, false)
  | fuel + 1, position, count, last => do
    let left (n : Nat) : List Char := (text.extract n text.size).toList
    if text.size < position then return ([], false)
    match ← search u.expression position with
    | none => return (left position, false)
    | some m =>
      let skipped := (text.extract position m.start).toList
      let isEmpty := m.start == m.stop
      let follows := isEmpty && last == some m.start
      let step := (text.extract m.start (m.start + 1)).toList
      if follows then
        let (rest, done) ← replaceFrom u text fuel (m.start + 1) count none
        return (skipped ++ step ++ rest, done)
      else
        let replaces := u.first ≤ count + 1
        let new := if replaces then replacement text m {} u.pieces
          else (text.extract m.start m.stop).toList
        if replaces && !u.all then return (skipped ++ new ++ left m.stop, true)
        let (rest, done) ← if isEmpty then do
            let (rest, done) ← replaceFrom u text fuel (m.start + 1) (count + 1) none
            pure (step ++ rest, done)
          else replaceFrom u text fuel m.stop (count + 1) (some m.stop)
        return (skipped ++ new ++ rest, replaces || done)

/-! ## Commands -/

def shown (cs : List Char) : List (List Char) :=
  cs.map fun c =>
    match c with
    | '\\' => ['\\', '\\']
    | '\x07' => ['\\', 'a']
    | '\x08' => ['\\', 'b']
    | '\x0c' => ['\\', 'f']
    | '\n' => ['\\', 'n']
    | '\r' => ['\\', 'r']
    | '\t' => ['\\', 't']
    | '\x0b' => ['\\', 'v']
    | c =>
      if ' ' ≤ c && c ≤ '~' then [c]
      else
        let digits := Nat.toDigits 8 c.toNat
        '\\' :: List.replicate (3 - digits.length) '0' ++ digits

def broken (width : Nat) : Nat → List (List Char) → List Char
  | _, [] => []
  | column, c :: rest =>
    if 0 < width && width - 1 < column + c.length then
      '\\' :: '\n' :: c ++ broken width c.length rest
    else c ++ broken width (column + c.length) rest

/-- Reads the next line; says whether there is one. -/
def readLine (joins : Bool) (o : Options) : RunM Bool := do
  let s ← get
  match s.input with
  | [] => return false
  | l :: rest =>
    set { s with
      text := if joins then s.text ++ o.ending :: l.text else l.text
      ended := l.ended
      number := (if l.begins then 0 else s.number) + 1
      ranges := if l.begins then s.ranges.map fun r => if r == RangeState.closed then .waiting else r
        else s.ranges
      file := l.file
      isLast := l.isLast
      replaced := false
      input := rest }
    return true

def atEnd : RunM Bool := return (← get).input.isEmpty

inductive Leave where
  | done
  | deleted
  | again
  deriving Repr, DecidableEq

inductive Onward where
  | next
  | jump (target : Nat)
  | leave (how : Leave)

def firstLine (cs : List Char) : List Char := cs.takeWhile (· != '\n')

def perform (run : Runner) (o : Options) (index : Nat) (c : Command) : RunM Onward := do
  let s ← get
  match c.action with
  | .block _ | .nothing => return .next
  | .delete => return .leave .deleted
  | .deleteFirst =>
    if s.text.contains '\n' then
      set { s with text := s.text.drop ((firstLine s.text).length + 1) }
      return .leave .again
    else return .leave .deleted
  | .write =>
    write o s.text s.ended
    return .next
  | .writeFirst =>
    write o (firstLine s.text) (s.ended || s.text.contains '\n')
    return .next
  | .next =>
    if ← atEnd then
      throw (.quit 0 true)
    if !o.quiet then write o s.text s.ended
    writeQueue o
    let _ ← readLine false o
    return .next
  | .appendNext =>
    if ← atEnd then throw (.quit 0 true)
    writeQueue o
    let _ ← readLine true o
    return .next
  | .hold =>
    set { s with kept := s.text, keptEnded := s.ended }
    return .next
  | .holdMore =>
    set { s with kept := s.kept ++ o.ending :: s.text, keptEnded := s.ended }
    return .next
  | .fetch =>
    set { s with text := s.kept, ended := s.keptEnded }
    return .next
  | .fetchMore =>
    set { s with text := s.text ++ o.ending :: s.kept, ended := s.keptEnded }
    return .next
  | .exchange =>
    set { s with text := s.kept, ended := s.keptEnded, kept := s.text, keptEnded := s.ended }
    return .next
  | .quit status => throw (.quit status true)
  | .quitSilently status => throw (.quit status false)
  | .number =>
    writeRaw o (toString s.number ++ "\n").toList
    return .next
  | .list width =>
    let width := width.getD o.width
    writeRaw o (broken width 0 (shown s.text) ++ ['$', '\n'])
    return .next
  | .append text =>
    set { s with queue := .text text :: s.queue }
    return .next
  | .insert text =>
    writeRaw o text
    return .next
  | .change text =>
    let isOpen := match (s.ranges[index]?).getD .waiting with
      | .openTo _ | .openUntil => true
      | _ => false
    if c.stop.isNone || !isOpen || c.negated then writeRaw o text
    return .leave .deleted
  | .read file =>
    set { s with queue := .file file :: s.queue }
    return .next
  | .readLine file =>
    let lines ← match s.unread.lookup file with
      | some lines => pure lines
      | none => do
        match ← lift (readFile file) with
        | .ok text => pure (linesOf o.ending text)
        | .error .isDirectory => throw (.error ("read error on " ++ file ++ ": Is a directory"))
        | .error _ => pure []
    let others := s.unread.filter fun f => f.1 != file
    match lines with
    | [] => set { s with unread := (file, []) :: others }
    | l :: rest => set { s with unread := (file, rest) :: others, queue := .line l :: s.queue }
    return .next
  | .save file =>
    save o file s.text s.ended
    return .next
  | .saveFirst file =>
    save o file (firstLine s.text) (s.ended || s.text.contains '\n')
    return .next
  | .substitute u =>
    let text := s.text.toArray
    let (new, done) ← replaceFrom u text (text.size + 2) 0 0 none
    if done then
      let new ← if u.runs then do
          let output ← lift (outputOf run (run.text new))
          pure (if output.getLast? == some '\n' then output.dropLast else output)
        else pure new
      modify fun s => { s with text := new, replaced := true }
      if u.prints then write o new s.ended
      match u.file with
      | some file => save o file new s.ended
      | none => pure ()
    return .next
  | .exchangeChars pairs =>
    set { s with text := s.text.map fun c => (pairs.lookup c).getD c }
    return .next
  | .jump target => return .jump target
  | .jumpIf target =>
    if s.replaced then
      set { s with replaced := false }
      return .jump target
    else return .next
  | .jumpUnless target =>
    if s.replaced then
      set { s with replaced := false }
      return .next
    else return .jump target
  | .clear =>
    set { s with text := [] }
    return .next
  | .name =>
    writeRaw o (s.file ++ "\n").toList
    return .next
  | .run command =>
    if command.isEmpty then
      let output ← lift (outputOf run (run.text s.text))
      set { s with text := if output.getLast? == some '\n' then output.dropLast else output }
    else
      writeRaw o (← lift (outputOf run (run.text command)))
    return .next

/-- Runs the commands from one of them on. Each command is a step. -/
def runFrom (run : Runner) (o : Options) (script : Array Command) : Nat → Nat → RunM Leave
  | 0, _ => lift (throw .outOfTime)
  | fuel + 1, index => do
    match script[index]? with
    | none => return .done
    | some c =>
      if ← applies index c then
        match ← perform run o index c with
        | .next => runFrom run o script fuel (index + 1)
        | .jump target => runFrom run o script fuel target
        | .leave how => return how
      else match c.action with
        | .block behind => runFrom run o script fuel behind
        | _ => runFrom run o script fuel (index + 1)

def mostCommands : Nat := 500000

def runLines (run : Runner) (o : Options) (script : Array Command) : Nat → Bool → RunM Unit
  | 0, _ => lift (throw .outOfTime)
  | fuel + 1, again => do
    let hasLine ← if again then pure true else readLine false o
    if !hasLine then return
    let how ← runFrom run o script mostCommands 0
    let s ← get
    if how == .done && !o.quiet then write o s.text s.ended
    writeQueue o
    runLines run o script fuel (how == .again)

/-- Runs the script for the input; gives the status. -/
def runInput (run : Runner) (o : Options) (script : Array Command) (s : State) :
    ShellM (Except String Nat × State) := do
  let work : RunM Unit := runLines run o script 1000000 false
  let (result, s) ← work.run.run s
  match result with
  | .ok () => return (.ok 0, s)
  | .error (.error reason) => return (.error reason, s)
  | .error (.quit status writes) =>
    let finish : RunM Unit := do
      let s ← get
      if writes then
        if !o.quiet then write o s.text s.ended
        writeQueue o
    let (result, s) ← finish.run.run s
    match result with
    | .error (.error reason) => return (.error reason, s)
    | _ => return (.ok status, s)

end Sed

end Utility

end ShaderReducer

/-!
## The stream editor

The arguments of `sed`: scripts, and the files that are edited to the output or in their places.
-/

namespace ShaderReducer

namespace Utility

namespace Sed

open Shell

def options : Utility.Options :=
  Options.ofLetters "ne:f:Eri::sl:uz"
    [("quiet", 'n', .nothing), ("silent", 'n', .nothing), ("expression", 'e', .value),
     ("file", 'f', .value), ("regexp-extended", 'E', .nothing), ("in-place", 'i', .joined),
     ("separate", 's', .nothing), ("line-length", 'l', .value), ("unbuffered", 'u', .nothing),
     ("null-data", 'z', .nothing), ("zero-terminated", 'z', .nothing), ("posix", '\x01', .nothing),
     ("debug", '\x01', .nothing), ("sandbox", '\x01', .nothing), ("version", '\x02', .nothing),
     ("follow-symlinks", '\x01', .nothing), ("help", '\x03', .nothing)]

def scriptParts : List (Char × String) → ShellM (Except String (List (List Char)))
  | [] => return .ok []
  | (letter, value) :: rest => do
    let part : Except String (List (List Char)) ← match letter with
      | 'e' => pure (.ok [value.toList])
      | 'f' => do
        let text ← if value == "-" then (do return (← readRest 0).elim (.error .isDirectory) .ok)
          else readFile value
        match text with
        | .ok text => pure (.ok [if text.getLast? == some '\n' then text.dropLast else text])
        | .error fault => pure (.error ("couldn't open file " ++ value ++ ": " ++ faultText fault))
      | _ => pure (.ok [])
    match part, ← scriptParts rest with
    | .ok part, .ok more => return .ok (part ++ more)
    | .error reason, _ | _, .error reason => return .error reason

def inputLines (sep : Char) (file : String) (text : List Char) : List InputLine :=
  let lines := wholeLines sep text
  lines.map fun l =>
    let ended := l.getLast? == some sep
    ⟨if ended then l.dropLast else l, ended, file, false, false⟩

/-- Lines of which the last one counts as the last. -/
def markLast : List InputLine → List InputLine
  | [] => []
  | [l] => [{ l with isLast := true }]
  | l :: rest => l :: markLast rest

/-- Lines of which the first one has the number one. -/
def markFirst : List InputLine → List InputLine
  | [] => []
  | l :: rest => { l with begins := true } :: rest

/-- What was read of the input: its lines, the status so far, and why the rest was not read. -/
structure Read where
  lines : List InputLine := []
  status : Nat := 0
  broken : Option String := none

def readInput (sep : Char) (separate : Bool) : List String → ShellM Read
  | [] => return {}
  | file :: rest => do
    let text ← if file == "-" then (do return (← readRest 0).elim (.error .isDirectory) .ok)
      else readFile file
    match text with
    | .error .isDirectory =>
      return { broken := some ("read error on " ++ file ++ ": Is a directory"), status := 4 }
    | .error fault =>
      complain ("sed: can't read " ++ file ++ ": " ++ faultText fault)
      let more ← readInput sep separate rest
      return { more with status := max more.status 2 }
    | .ok text =>
      let lines := inputLines sep file text
      let lines := if separate then markFirst (markLast lines) else lines
      let more ← readInput sep separate rest
      return { more with lines := lines ++ more.lines }

def openSaved (script : List Command) : ShellM (List Saved) := do
  let mut saved : List Saved := []
  for c in script do
    let name := match c.action with
      | .save f | .saveFirst f => some f
      | .substitute u => u.file
      | _ => none
    match name with
    | none => pure ()
    | some name =>
      if !(saved.any fun f => f.name == name) && name != "/dev/stdout" then
        match ← openPath name .write with
        | .ok place => saved := saved ++ [⟨name, place, false⟩]
        | .error _ => pure ()
  return saved

def State.begin (script : List Command) (saved : List Saved) (input : List InputLine) : State :=
  { input
    saved
    ranges := (script.map fun c => if c.fromStart then .openUntil else .waiting).toArray }

def State.output (s : State) : List Char := s.written.reverse.flatten

def backupName (suffix file : String) : String :=
  let parts := Text.splitOn '/' file.toList
  let name := String.ofList (parts.getLast?.getD [])
  let directory := String.ofList (file.toList.take (file.length - name.length))
  let new := if suffix.toList.contains '*' then
      String.ofList (suffix.toList.flatMap fun c => if c == '*' then name.toList else [c])
    else name ++ suffix
  if new.toList.contains '/' then new else directory ++ new

/-- Edits files in their places. What is kept between lines is kept between files too. -/
def editInPlace (run : Runner) (o : Options) (script : List Command) (suffix : String) :
    State → List String → ShellM Nat
  | _, [] => return 0
  | s, file :: rest => do
    match ← readFile file with
    | .error .isDirectory =>
      complain ("sed: couldn't edit " ++ file ++ ": not a regular file")
      return max 4 (← editInPlace run o script suffix s rest)
    | .error fault =>
      complain ("sed: can't read " ++ file ++ ": " ++ faultText fault)
      return max 2 (← editInPlace run o script suffix s rest)
    | .ok text =>
      let lines := markFirst (markLast (inputLines o.ending file text))
      let start := { s with input := lines, written := [], lacksEnd := false }
      let (result, s) ← runInput run o script.toArray start
      match result with
      | .error reason =>
        complain ("sed: " ++ reason)
        return 1
      | .ok status => do
        if !suffix.isEmpty then
          let _ ← writeFile (backupName suffix file) text
        let _ ← writeFile file s.output
        if !s.input.isEmpty || status != 0 then return status
        return max status (← editInPlace run o script suffix s rest)

def main (run : Runner) (args : List String) : ShellM Nat :=
  withArguments "sed" options 1 args fun g => do
    if g.has '\x02' then
      emit "sed (GNU sed) 4.9\n"
      return 0
    if g.has '\x03' then return 0
    let isGiven := g.has 'e' || g.has 'f'
    if !isGiven && g.operands.isEmpty then
      complain "Usage: sed [OPTION]... \x7bscript-only-if-no-other-script\x7d [input-file]..."
      return 1
    let files := if isGiven then g.operands else g.operands.drop 1
    let parts ← if isGiven then scriptParts g.options
      else pure (.ok [(g.operands.headD "").toList])
    match parts with
    | .error reason =>
      complain ("sed: " ++ reason)
      return 4
    | .ok parts =>
      let text := (parts.intersperse ['\n']).flatten
      let o : Options :=
        { quiet := g.has 'n' || "#n\n".toList.isPrefixOf (text ++ ['\n'])
          zero := g.has 'z'
          width := (((g.value? 'l').bind String.toNat?).getD 70) }
      match script (g.has 'E' || g.has 'r') text with
      | .error reason =>
        complain ("sed: " ++ reason)
        return if "can't find".toList.isPrefixOf reason.toList then 4 else 1
      | .ok commands => do
        let saved ← openSaved commands
        match g.value? 'i' with
        | some suffix =>
          if files.isEmpty then
            complain "sed: no input files"
            return 4
          editInPlace run o commands suffix (State.begin commands saved []) files
        | none => do
          let files := if files.isEmpty then ["-"] else files
          let input ← readInput o.ending (g.has 's') files
          let lines := if g.has 's' || input.broken.isSome then input.lines
            else markLast input.lines
          let (result, s) ← runInput run o commands.toArray (State.begin commands saved lines)
          emitList s.output
          match result, input.broken with
          | .error reason, _ =>
            complain ("sed: " ++ reason)
            return if "read error".toList.isPrefixOf reason.toList then 4 else 1
          | .ok status, none => return if status = 0 then input.status else status
          | .ok _, some reason =>
            complain ("sed: " ++ reason)
            return input.status

end Sed

end Utility

end ShaderReducer
