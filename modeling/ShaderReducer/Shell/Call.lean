import ShaderReducer.Shell.Expand
import ShaderReducer.Utility.Table

/-!
# Redirections

The descriptors that a command gets. They are opened one after the other; if one cannot be opened,
the command is not run and the descriptors are what they were before.
-/

namespace ShaderReducer

namespace Shell

def openFaultText (isNew : Bool) : FileFault → String
  | .notFound | .notDirectory => if isNew then "Directory nonexistent" else "No such file"
  | fault => faultText fault

/-- Points a descriptor at what a path names, or gives the words for why that is not possible. -/
def openFor (descriptor : Nat) (name : String) (mode : Opening.Mode) :
    ShellM (Except String Unit) := do
  let isNew := mode != .read
  match ← openPath name mode with
  | .ok place =>
    modifyProcess fun p => p.withDescriptor descriptor (some place)
    return .ok ()
  | .error fault =>
    let start := if isNew then "cannot create " else "cannot open "
    return .error (start ++ name ++ ": " ++ openFaultText isNew fault)

def copyDescriptor (descriptor : Nat) (source : String) : ShellM (Except String Unit) := do
  match source.toList with
  | ['-'] =>
    modifyProcess fun p => p.withDescriptor descriptor none
    return .ok ()
  | [c] =>
    if !c.isDigit then fail "Bad fd number"
    match (← getProcess).descriptors.lookup (c.toNat - '0'.toNat) with
    | some place =>
      modifyProcess fun p => p.withDescriptor descriptor (some place)
      return .ok ()
    | none => return .error (source ++ ": Bad file descriptor")
  | _ => fail "Bad fd number"

def openText (descriptor : Nat) (text : List Char) : ShellM (Except String Unit) := do
  let (reading, _) ← addPipe text
  modifyProcess fun p => p.withDescriptor descriptor (some reading)
  return .ok ()

def openBoth (name : String) (mode : Opening.Mode) : ShellM (Except String Unit) := do
  match ← openFor 1 name mode with
  | .error reason => return .error reason
  | .ok () => copyDescriptor 2 "1"

def targetOf (run : Runner) : Channeling → Word → ShellM (List Char)
  | .fromDocument n, _ => do
    match (← get).documents.lookup n with
    | some word => return (← expandWhole run word).toList
    | none => return []
  | .fromText, w => return (← expandWhole run w).toList ++ ['\n']
  | _, w => return (← expandWhole run w).toList

def redirectTo (descriptor : Nat) (kind : Channeling) (target : List Char) :
    ShellM (Except String Unit) := do
  let name := String.ofList target
  let p ← getProcess
  match kind with
  | .fromFile => openFor descriptor name .read
  | .toFile =>
    let isThere := (← get).disk.isFile (pathOf name)
    if p.has 'C' && isThere then return .error ("cannot create " ++ name ++ ": File exists")
    else openFor descriptor name .write
  | .overFile => openFor descriptor name .write
  | .appendToFile => openFor descriptor name .append
  | .withFile => openFor descriptor name .readWrite
  | .copyOf =>
    let isCopy := target = ['-'] || (!target.isEmpty && target.all Char.isDigit)
    if p.dialect == .extended && descriptor == 1 && !isCopy then openBoth name .write
    else copyDescriptor descriptor name
  | .toFileWithErrors => openBoth name .write
  | .appendWithErrors => openBoth name .append
  | .fromText | .fromDocument _ => openText descriptor target

def targetsOf (run : Runner) : List Redirection → ShellM (List (Nat × Channeling × List Char))
  | [] => return []
  | .mk descriptor kind target :: rest => do
    let text ← targetOf run kind target
    return (descriptor, kind, text) :: (← targetsOf run rest)

/-- Does what redirections say, up to the first one that fails. -/
def redirectAll : List (Nat × Channeling × List Char) → ShellM (Except String Unit)
  | [] => return .ok ()
  | (descriptor, kind, target) :: rest => do
    match ← redirectTo descriptor kind target with
    | .ok () => redirectAll rest
    | .error reason => return .error reason

def changedBy : List Redirection → List Nat
  | [] => []
  | .mk descriptor kind _ :: rest =>
    match kind with
    | .toFileWithErrors | .appendWithErrors => 1 :: 2 :: changedBy rest
    | .copyOf => descriptor :: 2 :: changedBy rest
    | _ => descriptor :: changedBy rest

def restoreDescriptors (before : List (Nat × Nat)) (changed : List Nat) : ShellM Unit :=
  modifyProcess fun p => changed.foldl (fun p d => p.withDescriptor d (before.lookup d)) p

/-- Runs work with redirections, or other work if they cannot be done, which is said. They are undone
afterwards, or kept. -/
def redirecting (run : Runner) (keeps : Bool) (rs : List Redirection) (work : ShellM Unit)
    (otherwise : ShellM Unit) : ShellM Unit := do
  let before := (← getProcess).descriptors
  let restore := restoreDescriptors before (changedBy rs)
  match ← outcome (do redirectAll (← targetsOf run rs)) with
  | .error halt =>
    restore
    throw halt
  | .ok (.error reason) =>
    restore
    complainOf reason
    otherwise
  | .ok (.ok ()) =>
    let result ← outcome work
    if !keeps then restore
    rethrow result

end Shell

end ShaderReducer

/-!
## Calling commands

What a name at the head of a command stands for is looked for among the special commands, the
functions, the other commands of the shell and the programs, in this order.
-/

namespace ShaderReducer

namespace Shell

/-! ## Tests and output -/

def asked (work : ShellM Unit) : ShellM Unit := do
  let before := (← getProcess).tested
  modifyProcess fun p => { p with tested := true }
  let result ← outcome work
  modifyProcess fun p => { p with tested := before }
  rethrow result

def unasked (work : ShellM Unit) : ShellM Unit := do
  let before := (← getProcess).tested
  modifyProcess fun p => { p with tested := false }
  let result ← outcome work
  modifyProcess fun p => { p with tested := before }
  rethrow result

def checkStatus : ShellM Unit := do
  let p ← getProcess
  if p.status != 0 && p.has 'e' && !p.tested then throw (.exited p.status)

/-- Work that fails if it could not write what it wanted to. -/
def withOutput (name reason : String) (work : ShellM Nat) : ShellM Nat := do
  let before := (← get).writeFailed
  modify fun s => { s with writeFailed := false }
  let status ← work
  let failed := (← get).writeFailed
  modify fun s => { s with writeFailed := before }
  if failed then
    complain (name ++ ": " ++ reason)
    return if status = 0 then 1 else status
  else return status

/-! ## Programs -/

def runProgram (run : Runner) : List String → ShellM Unit
  | [] => setStatus 0
  | name :: args => do
    tick
    match lookUp run.programs (← get) name with
    | .utility u =>
      match Utility.table.lookup u with
      | some f => inSubshell run do
          setStatus (← withOutput u "write error" (f run args))
      | none => setStatus 127
    | .script path =>
      match ← readFile path with
      | .error _ => setStatus 126
      | .ok text =>
        match interpreter? text with
        | none => inSubshell run do setStatus (← nestedShell .plain path run (path :: args))
        | some command =>
          match lookUp run.programs (← get) (command.headD "") with
          | .missing =>
            complainOf (name ++ ": not found")
            setStatus 127
          | .denied =>
            complainOf (name ++ ": Permission denied")
            setStatus 126
          | _ => run.program (command ++ path :: args)
    | .missing =>
      complainOf (name ++ ": not found")
      setStatus 127
    | .denied =>
      complainOf (name ++ ": Permission denied")
      setStatus 126

/-! ## Functions -/

def restoreVariables : List (String × Option Variable) → ShellM Unit
  | [] => return
  | (name, before) :: rest => do
    modifyProcess fun p => match before with
      | some v => p.withVariable name v
      | none => p.withoutVariable name
    restoreVariables rest

def callFunction (run : Runner) (body : Script) (args : List String) : ShellM Nat := do
  let outer ← getProcess
  modifyProcess fun p => { p with
    parameters := args
    loops := 0
    functionDepth := p.functionDepth + 1
    optionOffset := none
    saved := [] :: p.saved }
  let result ← outcome (run.script body)
  restoreVariables ((← getProcess).saved.headD [])
  modifyProcess fun p => { p with
    parameters := outer.parameters
    loops := outer.loops
    functionDepth := outer.functionDepth
    optionOffset := outer.optionOffset
    saved := outer.saved }
  match result with
  | .ok () => return (← getProcess).status
  | .error (.returned status) => return status
  | .error halt => throw halt

/-! ## Commands of the shell -/

def scriptPath (run : Runner) (name : String) : ShellM String := do
  if name.toList.contains '/' then return name
  let s ← get
  let directories := Text.splitOn ':' ((s.process.value? "PATH").getD "").toList
  let paths := directories.map fun d => inSearched (String.ofList d) name
  let paths := if s.process.dialect == .extended then paths ++ [name] else paths
  match paths.find? fun path => match kindAt run.programs s path with
      | .file .. => true
      | _ => false with
  | some path => return path
  | none => fail (".: " ++ name ++ ": not found")

def runFile (run : Runner) (args : List String) : ShellM Nat := do
  match args with
  | [] => return 0
  | name :: parameters =>
    let path ← scriptPath run name
    match ← readFile path with
    | .error fault =>
      fail (".: cannot open " ++ path ++ ": " ++
        if fault == .notFound || fault == .notDirectory then "No such file" else faultText fault)
    | .ok text =>
      let outer ← getProcess
      let isCall := outer.dialect == .extended && !parameters.isEmpty
      if isCall then modifyProcess fun p => { p with parameters := parameters }
      let result ← outcome (unasked (run.text text))
      modifyProcess fun p => { p with loops := outer.loops }
      if isCall then modifyProcess fun p => { p with parameters := outer.parameters }
      match result with
      | .ok () => return (← getProcess).status
      | .error (.returned status) => return status
      | .error halt => throw halt

def leaveLoops (name : String) (goesOn : Bool) (args : List String) : ShellM Nat := do
  let n ← match args with
    | [] => pure 1
    | a :: _ => numberOf name a
  if n = 0 then fail (name ++ ": Illegal number: 0")
  let loops := (← getProcess).loops
  if loops = 0 then return 0
  throw (.broken (min n loops) goesOn)

def statusOf (value : Bool) : Nat := if value then 0 else 1

def testCondition (run : Runner) (name : String) (args : List String) : ShellM Nat := do
  let words ← if name != "[" then pure args
    else if args.getLast? == some "]" then pure args.dropLast
    else fail "[: missing ]"
  match Condition.evaluate run.programs (← get) words with
  | .ok value => return statusOf value
  | .error reason => fail (name ++ ": " ++ reason)

def declareVariables (args : List String) : ShellM Nat := do
  let isOption (a : String) : Bool := a.toList.head?.any fun c => c == '-' || c == '+'
  let letters := (args.takeWhile isOption).flatMap String.toList
  let operands := args.dropWhile isOption
  let isLocal := (← getProcess).functionDepth != 0 && !letters.contains 'g'
  let _ ← if isLocal then makeLocal operands else mark "declare" (fun _ => false) id operands
  for a in operands do
    let (name, _) := splitOperand a
    if letters.contains 'x' then exportName name
    if letters.contains 'r' then modifyVariable name fun v => { v with fixed := true }
    if letters.contains 'i' then
      let value := ((← getProcess).value? name).getD ""
      assign name (toString (← calculate value.toList))
  return 0

/-- Calculates expressions; succeeds if the last one is not zero. -/
def calculateAll (args : List String) : ShellM Nat := do
  let mut value : Int := 0
  for a in args do value ← calculate a.toList
  return statusOf (value != 0)

/-- The status that an argument says, or the one of the last command. -/
def statusFrom (name : String) (args : List String) : ShellM Nat := do
  match args with
  | [] => return (← getProcess).status
  | a :: _ => numberOf name a

def callBuiltin (run : Runner) (name : String) (args : List String) : ShellM Nat := do
  match name with
  | ":" | "true" => return 0
  | "false" => return 1
  | "echo" => echo args
  | "printf" => printf args
  | "test" | "[" => testCondition run name args
  | "cd" | "chdir" => changeDirectory args
  | "pwd" => printDirectory args
  | "export" => mark name (·.exported) (fun v => { v with exported := true }) args
  | "readonly" => mark name (·.fixed) (fun v => { v with fixed := true }) args
  | "unset" => unset args
  | "local" => makeLocal args
  | "set" => setParameters (args.length + 2) false args
  | "shift" => shift args
  | "getopts" => getOption args
  | "read" => readVariables args
  | "trap" => setTraps args
  | "kill" => kill args
  | "wait" => waitForJobs run args
  | "type" => describeAll run false args
  | "alias" => setAliases args
  | "unalias" => unsetAliases args
  | "umask" => setMask args
  | "ulimit" => showLimits args
  | "times" =>
    emit "0m0.000000s 0m0.000000s\n0m0.000000s 0m0.000000s\n"
    return 0
  | "jobs" | "shopt" | "disown" | "enable" => return 0
  | "hash" =>
    let s ← get
    let found (a : String) : Bool :=
      a.toList.head? == some '-' || s.process.hasBuiltin a ||
        (s.process.functions.lookup a).isSome || (searchPath? run.programs s a).isSome
    match args.find? fun a => !found a with
    | some a =>
      complainOf ("hash: " ++ a ++ ": not found")
      return 1
    | none => return 0
  | "fg" | "bg" => fail (name ++ ": No current job")
  | "command" =>
    withOptions "command" "pVv" args fun options operands => do
      let named := if (← getProcess).dialect == .extended then operands else operands.take 1
      match options.getLast? with
      | some ('v', _) => describeAll run true named
      | some ('V', _) => describeAll run false named
      | _ => return 0
  | "eval" =>
    run.text (" ".intercalate args).toList
    return (← getProcess).status
  | "." | "source" => runFile run args
  | "exit" => throw (.exited (← statusFrom name args))
  | "return" => throw (.returned (← statusFrom name args))
  | "break" => leaveLoops name false args
  | "continue" => leaveLoops name true args
  | "exec" =>
    if args.isEmpty then return 0
    match lookUp run.programs (← get) (args.headD "") with
    | .missing =>
      complainOf ("exec: " ++ args.headD "" ++ ": not found")
      throw (.exited 127)
    | .denied =>
      complainOf ("exec: " ++ args.headD "" ++ ": Permission denied")
      throw (.exited 126)
    | _ =>
      modifyProcess fun p => { p with traps := p.traps.filter fun t => t.2.isEmpty }
      run.program args
      throw (.exited (← getProcess).status)
  | "declare" | "typeset" => declareVariables args
  | "let" => calculateAll args
  | _ => return 127

/-! ## Simple commands -/

inductive Callee where
  | special
  | function (body : Script)
  | builtin
  | program

def Process.callee (p : Process) (passesFunctions : Bool) (name : String) : Callee :=
  if isSpecialName name then .special
  else match if passesFunctions then none else p.functions.lookup name with
    | some body => .function body
    | none => if p.hasBuiltin name then .builtin else .program

/-- A command without the words that only say how its name is looked up, and whether there were
some. -/
def withoutCommand (p : Process) : Nat → List String → List String × Bool
  | 0, words => (words, false)
  | fuel + 1, "command" :: rest =>
    if (p.functions.lookup "command").isSome then ("command" :: rest, false)
    else
      let operands := match rest with
        | "-p" :: "--" :: more | "-p" :: more | "--" :: more => more
        | more => more
      match operands with
      | name :: _ =>
        if name.toList.head? == some '-' && rest.length = operands.length && name != "-" then
          ("command" :: rest, false)
        else ((withoutCommand p fuel operands).1, true)
      | [] => ("command" :: rest, false)
  | _, "builtin" :: rest =>
    if p.dialect == .extended && !rest.isEmpty then (rest, true) else ("builtin" :: rest, false)
  | _, words => (words, false)

/-- Whether the operands of a command are variables with values, which are not split. -/
def declares (name : String) : Bool :=
  ["export", "readonly", "local", "alias", "declare", "typeset"].contains name

/-- The words of a command after expansion. The first one says how the others are expanded. -/
def expandCommand (run : Runner) : List Word → ShellM (List String)
  | [] => return []
  | w :: rest => do
    match ← expand run [w] with
    | [] => expandCommand run rest
    | "command" :: more => return "command" :: more ++ (← expandCommand run rest)
    | name :: more =>
      if !declares name then return name :: more ++ (← expand run rest)
      let mut words := name :: more
      for w in rest do
        match assignment? false w with
        | some (.mk key _ value) =>
          words := words ++ [key ++ "=" ++ (← expandValue run value)]
        | none => words := words ++ (← expand run [w])
      return words

/-- Sets variables in order; gives their values. -/
def assignAll (run : Runner) (exports : Bool) : List Assignment → ShellM (List String)
  | [] => return []
  | .mk name adding value :: rest => do
    let text ← expandValue run value
    let before := ((← getProcess).value? name).getD ""
    let text := if adding then before ++ text else text
    assign name text
    if exports then exportName name
    return (name ++ "=" ++ text) :: (← assignAll run exports rest)

def Assignment.name : Assignment → String
  | .mk name _ _ => name

/-- Runs work that fails without an end of the script. -/
def forgiving (work : ShellM Nat) : ShellM Nat := do
  match ← outcome work with
  | .error .failed => return 2
  | result => rethrow result

def traceCommand (place : Option Nat) (words : List String) : ShellM Unit := do
  let p ← getProcess
  match p.has 'x', place with
  | true, some place =>
    let start := (p.value? "PS4").getD "+ "
    let _ ← writeAt place (start ++ " ".intercalate words ++ "\n").toList
  | _, _ => return

def withAssignments (run : Runner) (assignments : List Assignment)
    (work : List String → ShellM Nat) : ShellM Nat := do
  let p ← getProcess
  let before := assignments.map fun a => (a.name, p.variableNamed? a.name)
  match ← outcome (assignAll run true assignments) with
  | .error halt => throw halt
  | .ok texts =>
    let result ← outcome (work texts)
    restoreVariables before.reverse
    rethrow result

def runSimple (run : Runner) (line : Nat) (assignments : List Assignment) (words : List Word)
    (rs : List Redirection) : ShellM Unit := do
  tick
  modifyProcess fun p => { p with line := line, nestedStatus := none }
  let words ← expandCommand run words
  let p ← getProcess
  let errors := p.descriptors.lookup 2
  let (words, isForced) := withoutCommand p words.length words
  match words with
  | [] =>
    redirecting run false rs
      (do
        let texts ← assignAll run false assignments
        traceCommand errors texts
        setStatus ((← getProcess).nestedStatus.getD 0))
      (setStatus 2)
  | name :: args =>
    match p.callee isForced name with
    | .special =>
      let call (exports : Bool) : ShellM Nat := do
        let texts ← if isForced then pure [] else assignAll run exports assignments
        traceCommand errors (texts ++ words)
        withOutput name "I/O error" (callBuiltin run name args)
      let keeps := name == "exec"
      if isForced then
        redirecting run keeps rs
          (do setStatus (← forgiving (withAssignments run assignments fun _ => call false)))
          (setStatus 2)
      else
        redirecting run keeps rs (do setStatus (← call (keeps && !args.isEmpty))) (throw .failed)
    | callee =>
      redirecting run false rs
        (do setStatus (← withAssignments run assignments fun texts => do
              traceCommand errors (texts ++ words)
              match callee with
              | .function body => callFunction run body args
              | .builtin => forgiving (withOutput name "I/O error" (callBuiltin run name args))
              | _ =>
                run.program words
                return (← getProcess).status))
        (setStatus 2)

end Shell

end ShaderReducer
