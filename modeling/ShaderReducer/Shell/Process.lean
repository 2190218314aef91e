import ShaderReducer.Shell.Session
import ShaderReducer.Text.Number

/-!
# Processes

How scripts end and begin processes. A process ends with what its shell was told to do at the end,
and with the signals that it was sent. A subshell is a copy of a process and a nested shell is a new
one; neither changes the process that it was begun by, except for the exit status.
-/

namespace ShaderReducer

namespace Shell

structure Runner where
  /-- The names of the programs that the system has. -/
  programs : List String
  /-- Runs a script. -/
  script : Script → ShellM Unit
  /-- Reads a text line by line and runs it. -/
  text : List Char → ShellM Unit
  /-- Runs a program with its arguments. -/
  program : List String → ShellM Unit

def rethrow {α : Type} : Except Halt α → ShellM α
  | .ok a => return a
  | .error halt => throw halt

def complainOf (text : String) : ShellM Unit := do
  let p ← getProcess
  complain (p.name ++ ": " ++ toString p.line ++ ": " ++ text)

def fail {α : Type} (text : String) : ShellM α := do
  complainOf text
  throw .failed

/-! ## Variables -/

/-- Sets a variable, unless it is one that cannot be changed. -/
def assign (name value : String) : ShellM Unit := do
  let p ← getProcess
  match p.variableNamed? name with
  | some v =>
    if v.fixed then fail (name ++ ": is read only")
    else modifyProcess fun p => p.withVariable name { v with value := some value }
  | none =>
    modifyProcess fun p => p.withVariable name ⟨some value, p.has 'a', false⟩
  if name == "OPTIND" then modifyProcess fun p => { p with optionOffset := none }

def exportName (name : String) : ShellM Unit :=
  modifyProcess fun p =>
    let v := (p.variableNamed? name).getD ⟨none, false, false⟩
    p.withVariable name { v with exported := true }

/-! ## Signals -/

def signals : List (String × Nat) :=
  [("EXIT", 0), ("HUP", 1), ("INT", 2), ("QUIT", 3), ("ILL", 4), ("TRAP", 5), ("ABRT", 6),
   ("BUS", 7), ("FPE", 8), ("KILL", 9), ("USR1", 10), ("SEGV", 11), ("USR2", 12), ("PIPE", 13),
   ("ALRM", 14), ("TERM", 15), ("STKFLT", 16), ("CHLD", 17), ("CONT", 18), ("STOP", 19),
   ("TSTP", 20), ("TTIN", 21), ("TTOU", 22), ("URG", 23), ("XCPU", 24), ("XFSZ", 25),
   ("VTALRM", 26), ("PROF", 27), ("WINCH", 28), ("IO", 29), ("PWR", 30), ("SYS", 31)]

def signalName (n : Nat) : String :=
  ((signals.find? fun s => s.2 == n).map Prod.fst).getD (toString n)

def signal? (dialect : Dialect) (text : String) : Option Nat :=
  if !text.isEmpty && text.toList.all Char.isDigit then
    (Text.digits? 10 text.toList).bind fun n => if n ≤ 64 then some n else none
  else
    let upper := String.ofList (text.toList.map Char.toUpper)
    let isLong := dialect == .extended && "SIG".toList.isPrefixOf upper.toList
    signals.lookup (if isLong then String.ofList (upper.toList.drop 3) else upper)

/-- The signals that a process does not notice unless it asks for them. -/
def harmless : List Nat := [17, 18, 23, 28]

def handle (run : Runner) (action : String) : ShellM Unit := do
  let status := (← getProcess).status
  run.text action.toList
  setStatus status

def settle (run : Runner) : ShellM Unit := do
  let s ← get
  if s.process.isCopy then return
  let (own, others) := s.signals.partition fun t => t.1 == s.process.number
  if own.isEmpty then return
  set { s with signals := others }
  for (_, n) in own do
    match (← getProcess).traps.lookup (signalName n) with
    | some action => if n != 9 && n != 19 then handle run action else throw (.killed n)
    | none => if !harmless.contains n then throw (.killed n)

/-! ## Ends and beginnings -/

def atExit (run : Runner) : ShellM Unit := do
  match (← getProcess).traps.lookup "EXIT" with
  | none => return
  | some action =>
    modifyProcess fun p => { p with traps := p.traps.filter fun t => t.1 != "EXIT" }
    handle run action

def Halt.status? (current : Nat) : Halt → Option Nat
  | .exited status | .returned status => some status
  | .failed => some 2
  | .broken .. => some current
  | .killed signal => some (128 + signal)
  | .outOfTime => none

def wholeProcess (run : Runner) (body : ShellM Unit) : ShellM Nat := do
  match ← outcome body with
  | .error (.killed signal) => return 128 + signal
  | .error .outOfTime => throw .outOfTime
  | ended => do
    let current := (← getProcess).status
    match ended with
    | .error halt => setStatus ((halt.status? current).getD current)
    | .ok () => pure ()
    match ← outcome (atExit run) with
    | .ok () => return (← getProcess).status % 256
    | .error halt =>
      match halt.status? (← getProcess).status with
      | some status => return status % 256
      | none => throw halt

/-- Runs work in a process that another one begins, which stays what it was. -/
def inProcess (run : Runner) (start : Process → Process) (body : ShellM Unit) : ShellM Unit := do
  let outer ← get
  modifyProcess start
  let result ← outcome (wholeProcess run body)
  modify fun s => { s with
    process := { outer.process with status := match result with
      | .ok status => status
      | .error _ => outer.process.status }
    disk := { s.disk with workingDirectory := outer.disk.workingDirectory }
    writeFailed := outer.writeFailed }
  match result with
  | .ok _ => return
  | .error halt => throw halt

/-- The process that a subshell starts with. What signals do is forgotten, except for those that are
not noticed at all. -/
def Process.copied (p : Process) : Process :=
  { p with
    isCopy := true
    traps := p.traps.filter fun t => t.2.isEmpty }

def inSubshell (run : Runner) (body : ShellM Unit) : ShellM Unit :=
  inProcess run Process.copied body

/-- The process that a nested shell starts with: of the variables it knows those that are exported,
and nothing else of the shell around it. -/
def Process.nested (p : Process) (number : Nat) (dialect : Dialect) : Process :=
  { number
    parent := p.number
    dialect
    mask := p.mask
    vars := ("OPTIND", ⟨some "1", false, false⟩) ::
      ("PPID", ⟨some (toString p.number), false, false⟩) ::
      (p.vars.filter fun v => v.2.exported && v.2.value.isSome).map fun (name, v) =>
        (name, { v with fixed := false })
    descriptors := p.descriptors
    traps := p.traps.filter fun t => t.2.isEmpty }

def inNestedShell (run : Runner) (dialect : Dialect) (body : ShellM Unit) : ShellM Unit := do
  let number := (← get).nextNumber
  modify fun s => { s with nextNumber := number + 1 }
  inProcess run (fun p => p.nested number dialect) body

end Shell

end ShaderReducer

/-!
## Jobs

Scripts that run beside the one that begins them. A job is put off until something has to wait for
it: the script waits for it or for some time, or reads what the job still writes. Where time passes
only the jobs run that end in that time; what the others do is put off further.
-/

namespace ShaderReducer

namespace Shell

def never : Float := 1.0e300

def beginJob (script : Script) : ShellM Unit := do
  let input ← addOpening ⟨.null, true, false⟩
  let s ← get
  let process := s.process.copied.withDescriptor 0 (some input)
  let job : Job := ⟨process, s.disk.workingDirectory, script, s.clock⟩
  set { s with
    jobs := s.jobs ++ [(s.nextNumber, job)]
    nextNumber := s.nextNumber + 1
    process := { s.process with background := some s.nextNumber, status := 0 } }

def jobSteps : Nat := 100000

/-- Runs a job if it ends before some time; says whether it did. A job that does not end by itself
is kept as one that takes forever. -/
def runJob (run : Runner) (limit : Float) (number : Nat) (job : Job) : ShellM Bool := do
  let before ← get
  let others := before.jobs.filter fun j => j.1 != number
  let keep (start : Float) (steps : Nat) : ShellM Unit :=
    set { before with jobs := others ++ [(number, { job with start := start })], steps := steps }
  if limit ≤ job.start then return false
  set { before with
    process := job.process
    disk := { before.disk with workingDirectory := job.directory }
    clock := job.start
    deadline := some limit
    steps := min before.steps jobSteps
    jobs := others }
  let result ← outcome (wholeProcess run (run.script job.script))
  let after ← get
  let left := before.steps - (min before.steps jobSteps - after.steps)
  match result with
  | .error _ =>
    keep (if after.steps = 0 then never else job.start) left
    return false
  | .ok status =>
    set { after with
      process := before.process
      disk := { after.disk with workingDirectory := before.disk.workingDirectory }
      clock := before.clock
      deadline := before.deadline
      steps := left
      finished := (number, status, after.clock) :: after.finished }
    return true

def Session.finished? (s : Session) (number : Nat) : Option (Nat × Float) :=
  s.finished.lookup number

def finishJob (run : Runner) (number : Nat) : ShellM Unit := do
  let s ← get
  match s.jobs.lookup number with
  | none => return
  | some job => do
    let limit := s.deadline.getD never
    if !(← runJob run limit number job) then
      modify fun s => { s with clock := limit }
      throw .outOfTime
    match (← get).finished? number with
    | some (_, time) => modify fun s => { s with clock := max s.clock time }
    | none => return

/-- Runs the jobs that satisfy a condition to their ends. Those that they begin are not among
them. -/
def finishJobs (run : Runner) (wanted : Job → Bool) : ShellM Unit := do
  for (number, job) in (← get).jobs do
    if wanted job then finishJob run number

def Job.holds (place : Nat) (job : Job) : Bool :=
  job.process.descriptors.any fun d => d.2 == place

def outputOf (run : Runner) (work : ShellM Unit) : ShellM (List Char) := do
  let (_, writing) ← addPipe []
  let number := (← get).pipes.size - 1
  inSubshell run do
    modifyProcess fun p => { p.withDescriptor 1 (some writing) with tested := false }
    work
  finishJobs run (Job.holds writing)
  let text := (((← get).pipes[number]?).getD {}).toList
  modify fun s => { s with pipes := s.pipes.setIfInBounds number {} }
  return text

def pause (run : Runner) (seconds : Float) : ShellM Unit := do
  let s ← get
  let limit := min (s.clock + seconds) (s.deadline.getD never)
  for (number, job) in s.jobs do
    let _ ← runJob run limit number job
  wait seconds

/-- Sends a signal to a job, which ends it unless it does not notice it; says whether there is such
a job. A job that is over takes no notice. -/
def signalJob (number signal : Nat) : ShellM Bool := do
  let s ← get
  match s.jobs.lookup number with
  | some job =>
    let ignored := job.process.traps.any fun t => t.1 == signalName signal && t.2.isEmpty
    let isHarmless := signal == 0 || harmless.contains signal || (ignored && signal != 9)
    if !isHarmless then
      set { s with
        jobs := s.jobs.filter fun j => j.1 != number
        finished := (number, 128 + signal, s.clock) :: s.finished }
    return true
  | none => return (s.finished? number).isSome

end Shell

end ShaderReducer
