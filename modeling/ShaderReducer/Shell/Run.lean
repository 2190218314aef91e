import ShaderReducer.Shell.Call

/-!
# Running scripts

Each kind of script is run by means of a runner for the scripts inside it. A runner that goes as deep
as asked for is made from one that goes less deep, so that the depth bounds how far functions call
themselves; the steps of a session bound how long loops go on.
-/

namespace ShaderReducer

namespace Shell

/-! ## Pipelines -/

/-- Runs the stages of a pipeline, each in a subshell that reads what the one before has written. All
begin at the same time; gives the time when the last one ends. -/
def runStages (run : Runner) (start : Float) : Option Nat → List Script → ShellM Float
  | _, [] => return start
  | input, stage :: rest => do
    let setInput : ShellM Unit := match input with
      | some place => modifyProcess fun p => p.withDescriptor 0 (some place)
      | none => pure ()
    modify fun s => { s with clock := start }
    if rest.isEmpty then
      inSubshell run do
        setInput
        run.script stage
      return (← get).clock
    else
      let (reading, writing) ← addPipe []
      inSubshell run do
        setInput
        modifyProcess fun p => p.withDescriptor 1 (some writing)
        run.script stage
      finishJobs run (Job.holds writing)
      let failed := (← getProcess).status
      let time := (← get).clock
      let last ← runStages run start (some reading) rest
      let p ← getProcess
      if p.has 'o' && p.status = 0 then setStatus failed
      return max time last

/-- The text of a word in which nothing is expanded. -/
def literal? (w : Word) : Option String :=
  let isText : Part → Bool
    | .text _ _ => true
    | _ => false
  if w.all isText then some (String.ofList w.bare.1) else none

def openedAtOnce : Script → List (Opening.Mode × String)
  | .simple _ _ _ rs | .redirected _ rs => rs.filterMap fun (.mk _ kind target) =>
    match kind with
    | .toFile | .overFile | .toFileWithErrors => (literal? target).map (.write, ·)
    | .appendToFile | .appendWithErrors => (literal? target).map (.append, ·)
    | _ => none
  | _ => []

/-- Whether a stage is a program, which takes longer to begin than what the shell does by itself. -/
def isProgram (p : Process) : Script → Bool
  | .simple _ _ (w :: _) _ => (literal? w).any fun name =>
    !p.hasBuiltin name && (p.functions.lookup name).isNone
  | _ => false

/-- Opens the files that the stages after the first one write to. This comes before the first stage
does anything, if that is a program; otherwise it only makes the files that are not there. -/
def openAhead (first : Script) (rest : List Script) : ShellM Unit := do
  let p ← getProcess
  for (mode, name) in rest.flatMap openedAtOnce do
    let isThere := (← get).disk.isFile (pathOf name)
    if !p.has 'C' && (!isThere || isProgram p first) then
      let _ ← openPath name mode

def runPipeline (run : Runner) (stages : List Script) : ShellM Unit := do
  openAhead (stages.headD .nothing) (stages.drop 1)
  let start := (← get).clock
  let last ← runStages run start none stages
  modify fun s => { s with clock := last }

/-! ## Loops -/

def withLoop (work : ShellM Unit) : ShellM Unit := do
  let before := (← getProcess).loops
  modifyProcess fun p => { p with loops := before + 1 }
  let result ← outcome work
  modifyProcess fun p => { p with loops := before }
  rethrow result

/-- Runs the work of one turn of a loop; says whether the loop goes on. -/
def turn (work : ShellM Bool) : ShellM Bool := do
  match ← outcome work with
  | .ok goesOn => return goesOn
  | .error (.broken levels goesOn) =>
    setStatus 0
    if levels ≤ 1 then return goesOn else throw (.broken (levels - 1) goesOn)
  | .error halt => throw halt

/-- Repeats turns as long as they say so. Each turn is a step. -/
def repeatTurns (work : ShellM Bool) : Nat → ShellM Unit
  | 0 => throw .outOfTime
  | fuel + 1 => do
    tick
    if ← turn work then repeatTurns work fuel

/-- Repeats a body as long as a condition succeeds, or fails. The status is that of the last body,
which is handed on while the condition is asked. -/
def repeatWhile (run : Runner) (condition body : Script) (wanted : Bool) : Nat → Nat → ShellM Unit
  | 0, _ => throw .outOfTime
  | fuel + 1, last => do
    tick
    let goesOn ← turn do
      asked (run.script condition)
      if ((← getProcess).status == 0) == wanted then
        run.script body
        return true
      else
        setStatus last
        return false
    if goesOn then repeatWhile run condition body wanted fuel (← getProcess).status

def runLoop (run : Runner) (condition body : Script) (wanted : Bool) : ShellM Unit := do
  let steps := (← get).steps
  withLoop (repeatWhile run condition body wanted (steps + 1) 0)

def runEach (run : Runner) (name : String) (body : Script) : List String → ShellM Unit
  | [] => return
  | value :: rest => do
    tick
    let goesOn ← turn do
      assignFor "for" name value
      run.script body
      return true
    if goesOn then runEach run name body rest

def expressionText (run : Runner) (w : Word) : ShellM (List Char) := do
  return (wholeOf (← expandParts run mostParts .whole false w)).map Prod.fst

/-- The value of an expression, where nothing stands for a value. -/
def valueOr (run : Runner) (otherwise : Int) (w : Word) : ShellM Int := do
  let text ← expressionText run w
  if text.all Octets.isSpace then return otherwise else calculate text

/-- Repeats a body as long as an expression is not zero. -/
def runCount (run : Runner) (start condition step : Word) (body : Script) : ShellM Unit := do
  let steps := (← get).steps
  let _ ← valueOr run 0 start
  withLoop do
    repeatTurns (do
      if (← valueOr run 1 condition) == 0 then return false
      let goesOn ← turn do
        run.script body
        return true
      if goesOn then
        let _ ← valueOr run 0 step
      return goesOn) (steps + 1)

/-! ## Choices -/

/-- Whether one of some patterns covers a text. They are expanded one after the other. -/
def coveredBy (run : Runner) (text : List Char) : List Word → ShellM Bool
  | [] => return false
  | w :: rest => do
    if Glob.covers (← expandMarked run w) text then return true
    else coveredBy run text rest

/-- Runs the first branch of which a pattern covers a text. -/
def runBranches (run : Runner) (text : List Char) :
    List (List Word × Script) → ShellM Unit
  | [] => setStatus 0
  | (patterns, body) :: rest => do
    if ← coveredBy run text patterns then
      match body with
      | .nothing => setStatus 0
      | body => run.script body
    else runBranches run text rest

/-! ## Conditions -/

def numberOperators : List String := ["-eq", "-ne", "-lt", "-le", "-gt", "-ge"]

def holds (run : Runner) : Condition → ShellM Bool
  | .unary operator operand => do
    let text ← expandWhole run operand
    if operator == "-v" then return ((← getProcess).value? text).isSome
    return (testOf [operator, text] (← get))
  | .binary left operator right => do
    let a ← expandWhole run left
    match operator with
    | "=" | "==" => return Glob.covers (← expandMarked run right) a.toList
    | "!=" => return !Glob.covers (← expandMarked run right) a.toList
    | _ =>
      let b ← expandWhole run right
      if numberOperators.contains operator then
        return testOf [toString (← valueOfText a), operator, toString (← valueOfText b)] (← get)
      else return testOf [a, operator, b] (← get)
  | .negation c => do return !(← holds run c)
  | .both c d => do if ← holds run c then holds run d else return false
  | .either c d => do if ← holds run c then return true else holds run d
where
  /-- The value of a condition, which fails if it is none. -/
  testOf (words : List String) (s : Session) : Bool :=
    match Condition.evaluate run.programs s words with
    | .ok value => value
    | .error _ => false
  /-- The value of an expression, where nothing is zero. -/
  valueOfText (text : String) : ShellM Int :=
    if text.isEmpty then return 0 else calculate text.toList

/-! ## Scripts -/

def afterCommand (run : Runner) : ShellM Unit := do
  settle run
  checkStatus

def runScript (run : Runner) : Script → ShellM Unit
  | .nothing => return
  | .simple line assignments words rs => do
    runSimple run line assignments words rs
    afterCommand run
  | .pipeline stages => do
    runPipeline run stages
    afterCommand run
  | .negated body => do
    asked (run.script body)
    setStatus (if (← getProcess).status = 0 then 1 else 0)
  | .both first second => do
    asked (run.script first)
    if (← getProcess).status = 0 then run.script second
  | .either first second => do
    asked (run.script first)
    if (← getProcess).status ≠ 0 then run.script second
  | .sequence first second => do
    run.script first
    run.script second
  | .background body => beginJob body
  | .redirected body rs =>
    redirecting run false rs (run.script body) (do
      setStatus 2
      checkStatus)
  | .subshell body => do
    tick
    inSubshell run (run.script body)
    afterCommand run
  | .branch condition body otherwise => do
    asked (run.script condition)
    if (← getProcess).status = 0 then run.script body
    else match otherwise with
      | .nothing => setStatus 0
      | otherwise => run.script otherwise
  | .loop condition body wanted => runLoop run condition body wanted
  | .each name words body => do
    let values ← match words with
      | some words => expand run words
      | none => pure (← getProcess).parameters
    setStatus 0
    withLoop (runEach run name body values)
  | .count start condition step body => runCount run start condition step body
  | .choose word branches => do
    let text ← expandWhole run word
    runBranches run text.toList branches
  | .define name body => do
    modifyProcess fun p => { p with
      functions := (name, body) :: p.functions.filter fun f => f.1 != name }
    setStatus 0
  | .calculate expression => do
    tick
    setStatus (statusOf ((← calculate (← expressionText run expression)) != 0))
    afterCommand run
  | .condition c => do
    tick
    setStatus (statusOf (← holds run c))
    afterCommand run

/-- Runs the commands that are left of a text line by line. A line is read when all before it was
run. -/
def runLines (run : Runner) : Nat → Bool → Source → ShellM Unit
  | 0, _, _ => return
  | fuel + 1, hasRun, source => do
    match nextCommands.run source with
    | none => fail "Syntax error"
    | some (none, _) => if !hasRun then setStatus 0
    | some (some script, source) =>
      modify fun s => { s with
        documents := source.documents ++ s.documents
        nextDocument := source.nextDocument }
      let source := { source with documents := [] }
      match script with
      | .nothing => runLines run fuel hasRun source
      | script =>
        run.script script
        runLines run fuel true source

def runText (run : Runner) (text : List Char) : ShellM Unit := do
  let s ← get
  runLines run (text.length + 1) false (.ofText s.process.dialect s.nextDocument text)

/-- A runner for scripts that are so deep. What is deeper does not fit into the stack. -/
def runnerAt : Nat → Runner
  | 0 =>
    { programs := Utility.table.map Prod.fst
      script := fun _ => throw (.killed 11)
      text := fun _ => throw (.killed 11)
      program := fun _ => throw (.killed 11) }
  | depth + 1 =>
    let run := runnerAt depth
    { programs := run.programs
      script := fun script => do if !(← getProcess).has 'n' then runScript run script
      text := runText run
      program := runProgram run }

def deepestScript : Nat := 4000

def runner : Runner := runnerAt deepestScript

/-! ## Outcomes -/

inductive Ending where
  | exited (status : Nat)
  | killed (signal : Nat)
  | timedOut (seconds : Float)

def reactionTime : Float := 0.001

/-- The most steps that a command may take. One that takes more is held to be one that does not
end. -/
def mostSteps : Nat := 300000

def firstVariables (directory : Location) : List (String × Variable) :=
  let path := "/" ++ "/".intercalate (directory.map Octets.encode)
  [("PATH", ⟨some searchDirectories, true, false⟩), ("HOME", ⟨some "/root", true, false⟩),
   ("PWD", ⟨some path, true, false⟩), ("OPTIND", ⟨some "1", false, false⟩),
   ("IFS", ⟨some " \t\n", false, false⟩), ("PS1", ⟨some "# ", false, false⟩),
   ("PS2", ⟨some "> ", false, false⟩), ("PS4", ⟨some "+ ", false, false⟩),
   ("PPID", ⟨some (toString (firstNumber - 1)), false, false⟩)]

/-- The session that a command begins in. It reads nothing, and nobody looks at what it writes. -/
def firstSession (directory : Location) (deadline : Option Float) (disk : Disk) : Session :=
  { disk := { disk with workingDirectory := directory }
    process :=
      { number := firstNumber
        parent := firstNumber - 1
        vars := firstVariables directory
        descriptors := [(0, 0), (1, 1), (2, 2)] }
    openings := #[⟨.null, true, false⟩, ⟨.null, false, true⟩, ⟨.null, false, true⟩]
    deadline
    steps := mostSteps
    nextNumber := firstNumber + 1 }

/-- Runs the first process to its end, and then the jobs that keep its output open. The others go on
as long as that takes. -/
def runFirst (text : List Char) : ShellM Ending := do
  let result ← outcome (runText runner text)
  let ending ← match result with
    | .error .outOfTime => throw .outOfTime
    | .error (.killed signal) => pure (Ending.killed signal)
    | .ok () => finish (← getProcess).status
    | .error halt =>
      let current := (← getProcess).status
      setStatus ((halt.status? current).getD current)
      finish (← getProcess).status
  finishJobs runner fun job => job.holds 1 || job.holds 2
  finishJobs runner fun job => job.holds 1 || job.holds 2
  pause runner 0.01
  return ending
where
  /-- Does what is to be done at the end. -/
  finish (status : Nat) : ShellM Ending := do
    match ← outcome (atExit runner) with
    | .ok () => return .exited (status % 256)
    | .error .outOfTime => throw .outOfTime
    | .error (.killed signal) => return .killed signal
    | .error halt => return .exited (((halt.status? (← getProcess).status).getD status) % 256)

def execute (source : String) (directory : Location) (deadline : Option Float) (disk : Disk) :
    Ending × Disk :=
  let (result, s) := (runFirst (Octets.encode source).toList).run (firstSession directory deadline disk)
  let ending := match result with
    | .ok ending => ending
    | .error _ => .timedOut (deadline.getD s.clock + reactionTime)
  (ending, { s.disk with workingDirectory := disk.workingDirectory })

end Shell

end ShaderReducer
