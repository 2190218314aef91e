import ShaderReducer.Files.Disk
import ShaderReducer.Shell.Source
import ShaderReducer.Text.Utf8

/-!
# Shell sessions

What commands work on: the disk, what is open for reading and writing, a clock, and the process that
runs, with its variables, functions and descriptors. Only commands that wait move the clock. A
subshell works on a copy of the process, so that what it changes there is lost when it ends.
-/

namespace ShaderReducer

namespace Shell

/-- A variable, which may be known without a value. -/
structure Variable where
  value : Option String
  exported : Bool := false
  fixed : Bool := false
  deriving Repr, DecidableEq

/-- What was written to a pipe and not yet read: what can be read next, and what was added after it,
the last part first. -/
structure Pipe where
  ready : List Char := []
  added : List (List Char) := []
  size : Nat := 0
  deriving Repr, DecidableEq

def Pipe.toList (p : Pipe) : List Char := p.ready ++ p.added.reverse.flatten

def Pipe.add (p : Pipe) (text : List Char) : Pipe :=
  { p with added := text :: p.added, size := p.size + text.length }

inductive Stream where
  | null
  | full
  | directory
  | pipe (number : Nat)
  | file (location : Location) (position : Nat) (appends : Bool)
  deriving Repr, DecidableEq

/-- A stream that is open. All descriptors that were copied from one another share it. -/
structure Opening where
  stream : Stream
  reads : Bool
  writes : Bool
  deriving Repr, DecidableEq

/-- A process: what a script can change without changing more than its own shell. -/
structure Process where
  name : String := "sh"
  number : Nat
  parent : Nat
  dialect : Dialect := .plain
  /-- Whether the process is a copy of the one that has the number. -/
  isCopy : Bool := false
  vars : List (String × Variable) := []
  functions : List (String × Script) := []
  parameters : List String := []
  options : List Char := []
  descriptors : List (Nat × Nat) := []
  traps : List (String × String) := []
  status : Nat := 0
  /-- The status of the last nested command since a command began, if there was one. -/
  nestedStatus : Option Nat := none
  background : Option Nat := none
  /-- Whether the status of what runs is asked for, so that a failure does not end the script. -/
  tested : Bool := false
  loops : Nat := 0
  functionDepth : Nat := 0
  /-- The variables that functions have made their own, with what they were before. -/
  saved : List (List (String × Option Variable)) := []
  aliases : List (String × String) := []
  /-- How far in a word of options the next option begins. -/
  optionOffset : Option Nat := none
  mask : Nat := 18
  line : Nat := 1

structure Job where
  process : Process
  directory : Location
  script : Script
  start : Float

structure Session where
  disk : Disk
  process : Process
  openings : Array Opening := #[]
  pipes : Array Pipe := #[]
  documents : List (Nat × Word) := []
  nextDocument : Nat := 0
  clock : Float := 0.0
  deadline : Option Float := none
  steps : Nat
  nextNumber : Nat
  /-- The jobs that have not run yet, and the statuses of those that have. -/
  jobs : List (Nat × Job) := []
  finished : List (Nat × Nat × Float) := []
  /-- Signals that were sent to processes that have not seen them yet. -/
  signals : List (Nat × Nat) := []
  /-- Whether the command that runs could not write what it wanted to. -/
  writeFailed : Bool := false

/-- Why a script ends before its last command. A script that failed ends because the shell could not
do what it says. -/
inductive Halt where
  | exited (status : Nat)
  | failed
  | killed (signal : Nat)
  | outOfTime
  | returned (status : Nat)
  | broken (levels : Nat) (goesOn : Bool)
  deriving Repr, DecidableEq

abbrev ShellM (α : Type) : Type := ExceptT Halt (StateM Session) α

def outcome {α : Type} (work : ShellM α) : ShellM (Except Halt α) := ExceptT.lift work.run

def modifyProcess (f : Process → Process) : ShellM Unit :=
  modify fun s => { s with process := f s.process }

def getProcess : ShellM Process := return (← get).process

def setStatus (status : Nat) : ShellM Unit :=
  modifyProcess fun p => { p with status := status }

/-- Takes one of the steps that a run may take. A run that needs more is one that does not end. -/
def tick : ShellM Unit := do
  let s ← get
  match s.steps with
  | 0 => throw .outOfTime
  | n + 1 => set { s with steps := n }

def wait (seconds : Float) : ShellM Unit := do
  let s ← get
  let clock := s.clock + seconds
  match s.deadline with
  | some deadline =>
    if clock ≥ deadline then
      set { s with clock := deadline }
      throw .outOfTime
    else set { s with clock := clock }
  | none => set { s with clock := clock }

/-! ## Variables -/

def Process.variableNamed? (p : Process) (name : String) : Option Variable :=
  p.vars.lookup name

def Process.value? (p : Process) (name : String) : Option String :=
  (p.variableNamed? name).bind Variable.value

def Process.withVariable (p : Process) (name : String) (v : Variable) : Process :=
  { p with vars := (name, v) :: p.vars.filter fun w => w.1 != name }

def Process.withoutVariable (p : Process) (name : String) : Process :=
  { p with vars := p.vars.filter fun w => w.1 != name }

def Process.has (p : Process) (option : Char) : Bool := p.options.contains option

def searchDirectories : String :=
  "/usr/local/sbin:/usr/local/bin:/usr/sbin:/usr/bin:/sbin:/bin"

/-! ## Streams -/

def faultText : FileFault → String
  | .notFound => "No such file or directory"
  | .notDirectory => "Not a directory"
  | .isDirectory => "Is a directory"
  | .alreadyThere => "File exists"
  | .notEmpty => "Directory not empty"
  | .invalidName => "File name too long"

def pathOf (name : String) : Path := ⟨Octets.decode name⟩

/-- Makes something open; gives its place. -/
def addOpening (o : Opening) : ShellM Nat := do
  let s ← get
  set { s with openings := s.openings.push o }
  return s.openings.size

/-- Makes a pipe; gives the places of its two ends, the one that is read first. -/
def addPipe (text : List Char) : ShellM (Nat × Nat) := do
  let s ← get
  set { s with pipes := s.pipes.push (Pipe.add {} text) }
  let reading ← addOpening ⟨.pipe s.pipes.size, true, false⟩
  let writing ← addOpening ⟨.pipe s.pipes.size, false, true⟩
  return (reading, writing)

def Session.opening? (s : Session) (descriptor : Nat) : Option (Nat × Opening) := do
  let place ← s.process.descriptors.lookup descriptor
  return (place, ← s.openings[place]?)

/-- Points a descriptor at an opening, or at nothing. -/
def Process.withDescriptor (p : Process) (descriptor : Nat) (place : Option Nat) : Process :=
  let others := p.descriptors.filter fun d => d.1 != descriptor
  { p with descriptors := match place with
    | some n => (descriptor, n) :: others
    | none => others }

def change (operation : Disk → Except FileFault Disk) : ShellM (Option FileFault) := do
  match operation (← get).disk with
  | .ok disk =>
    modify fun s => { s with disk := disk }
    return none
  | .error fault => return some fault

/-- The most octets that a pipe takes before its writer is stopped because nobody reads. -/
def pipeRoom : Nat := 1000000

def brokenPipe : Nat := 13

def Session.bytesAt (s : Session) (location : Location) : List UInt8 :=
  match s.disk.tree.get? location with
  | some (.file bytes _) => bytes
  | _ => []

/-- Writes octets to what is open at a place; says whether that was possible. -/
def writeAt (place : Nat) (text : List Char) : ShellM Bool := do
  let s ← get
  match s.openings[place]? with
  | none => return false
  | some o =>
    if !o.writes then return false
    match o.stream with
    | .null => return true
    | .full => return text.isEmpty
    | .directory => return false
    | .pipe n =>
      let pipe := ((s.pipes[n]?).getD {}).add text
      if pipeRoom < pipe.size then throw (.killed brokenPipe)
      set { s with pipes := s.pipes.setIfInBounds n pipe }
      return true
    | .file location position appends =>
      if text.isEmpty then return true
      let before := s.bytesAt location
      let start := if appends then before.length else position
      let padding := List.replicate (start - before.length) (0 : UInt8)
      let bytes := Octets.toBytes text
      let after := before.take start ++ padding ++ bytes ++ before.drop (start + bytes.length)
      let o' : Opening := { o with stream := .file location (start + bytes.length) appends }
      let isThere := (s.disk.tree.get? location).isSome
      set { s with
        disk := if isThere then s.disk.amend location after else s.disk
        openings := s.openings.setIfInBounds place o' }
      return true

/-- Writes octets to a descriptor; says whether that was possible. -/
def writeTo (descriptor : Nat) (text : List Char) : ShellM Bool := do
  match (← get).process.descriptors.lookup descriptor with
  | some place => writeAt place text
  | none => return false

def emitList (text : List Char) : ShellM Unit := do
  if !(← writeTo 1 text) then modify fun s => { s with writeFailed := true }

def emit (text : String) : ShellM Unit := emitList text.toList

def complain (text : String) : ShellM Unit := do
  let _ ← writeTo 2 (text ++ "\n").toList

def Session.ahead? (s : Session) (descriptor : Nat) : Option (List Char) := do
  let (_, o) ← s.opening? descriptor
  if !o.reads then none
  else match o.stream with
    | .null | .full => some []
    | .directory => none
    | .pipe n => some ((s.pipes[n]?).getD {}).toList
    | .file location position _ => some (Octets.ofBytes ((s.bytesAt location).drop position))

def consume (descriptor count : Nat) : ShellM Unit := do
  let s ← get
  match s.opening? descriptor with
  | none => return
  | some (place, o) =>
    match o.stream with
    | .pipe n => set { s with pipes := s.pipes.modify n fun pipe =>
        let left := pipe.toList.drop count
        ⟨left, [], left.length⟩ }
    | .file location position appends =>
      let o' : Opening := { o with stream := .file location (position + count) appends }
      set { s with openings := s.openings.setIfInBounds place o' }
    | _ => return

def readRest (descriptor : Nat) : ShellM (Option (List Char)) := do
  match (← get).ahead? descriptor with
  | none => return none
  | some text =>
    consume descriptor text.length
    return some text

inductive Opening.Mode where
  | read
  | write
  | append
  | readWrite
  deriving Repr, DecidableEq

def systemDescriptor? (name : String) : Option Nat :=
  match name with
  | "/dev/stdin" => some 0
  | "/dev/stdout" => some 1
  | "/dev/stderr" => some 2
  | _ =>
    let start := "/dev/fd/".toList
    if start.isPrefixOf name.toList then (String.ofList (name.toList.drop start.length)).toNat?
    else none

/-- Opens a path; gives the place of what is open. -/
def openPath (name : String) (mode : Opening.Mode) : ShellM (Except FileFault Nat) := do
  let s ← get
  let reads := mode == .read || mode == .readWrite
  let writes := mode != .read
  if name == "/dev/null" then return .ok (← addOpening ⟨.null, reads, writes⟩)
  if name == "/dev/full" then return .ok (← addOpening ⟨.full, reads, writes⟩)
  match systemDescriptor? name with
  | some n =>
    match s.process.descriptors.lookup n with
    | some place => return .ok place
    | none => return .error .notFound
  | none =>
    match s.disk.locate (pathOf name) with
    | .error fault => return .error fault
    | .ok location =>
      match s.disk.tree.get? location, mode with
      | some .directory, .read => return .ok (← addOpening ⟨.directory, true, false⟩)
      | some .directory, _ => return .error .isDirectory
      | none, .read => return .error .notFound
      | there, _ =>
        if mode == .write || there.isNone then
          match s.disk.write (pathOf name) [] with
          | .error fault => return .error fault
          | .ok disk => set { s with disk := disk }
        return .ok (← addOpening ⟨.file location 0 (mode == .append), reads, writes⟩)

def readFile (name : String) : ShellM (Except FileFault (List Char)) := do
  match ← openPath name .read with
  | .error fault => return .error fault
  | .ok place =>
    let outer ← getProcess
    modifyProcess fun p => p.withDescriptor 9 (some place)
    let text ← readRest 9
    modifyProcess fun p => { p with descriptors := outer.descriptors }
    match text with
    | some text => return .ok text
    | none => return .error .isDirectory

/-- Writes a file; says why that is not possible. -/
def writeFile (name : String) (text : List Char) : ShellM (Option FileFault) := do
  match ← openPath name .write with
  | .error fault => return some fault
  | .ok place =>
    let _ ← writeAt place text
    return none

end Shell

end ShaderReducer
