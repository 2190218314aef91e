import ShaderReducer.Shell.Builtin
import ShaderReducer.Utility.Find
import ShaderReducer.Utility.Numbers

/-!
# Running programs in another way

Programs that run other programs with other variables or for a limited time, that wait, and that tell
what the system is.
-/

namespace ShaderReducer

namespace Utility

open Shell

/-! ## Variables -/

def tableRow (name : String) : Nat :=
  match name.toList with
  | c :: cs => (c.toNat * 16 + ((c :: cs).map Char.toNat).foldl (· + ·) 0) % 39
  | [] => 0

def exportedVariables (p : Process) : List (String × String) :=
  let all := p.vars.reverse.filterMap fun (name, v) =>
    if v.exported then v.value.map (name, ·) else none
  all.mergeSort fun a b => tableRow a.1 ≤ tableRow b.1

def withExported (p : Process) (vs : List (String × String)) : Process :=
  { p with vars := vs.map fun (name, value) => (name, ⟨some value, true, false⟩) }

def env (run : Runner) (args : List String) : ShellM Nat :=
  let o := Options.ofLetters "0iu:C:S:v"
    [("ignore-environment", 'i', .nothing), ("null", '0', .nothing), ("unset", 'u', .value),
     ("chdir", 'C', .value), ("split-string", 'S', .value)]
  let args := match args with
    | "-" :: rest => "-i" :: rest
    | args => args
  withArguments "env" { o with mixed := false } 125 args fun g => do
    let before := (← getProcess)
    let split := match g.value? 'S' with
      | some text => ((Text.splitOn ' ' text.toList).filter (!·.isEmpty)).map String.ofList
      | none => []
    let operands := split ++ g.operands
    let isSetting (a : String) : Bool := a.toList.contains '='
    let settings := (operands.takeWhile isSetting).map splitOperand
    let command := operands.dropWhile isSetting
    let start := if g.has 'i' then [] else
      (exportedVariables before).filter fun v => !(g.values 'u').contains v.1
    let all := settings.foldl (fun vs (name, value) =>
      let value := value.getD ""
      if vs.any fun v => v.1 == name then vs.map fun v => if v.1 == name then (name, value) else v
      else vs ++ [(name, value)]) start
    match g.value? 'C' with
    | some directory =>
      match (← get).disk.locate (pathOf directory) with
      | .ok location => modify fun s => { s with disk := { s.disk with workingDirectory := location } }
      | .error fault =>
        complain ("env: cannot change directory to '" ++ directory ++ "': " ++ faultText fault)
        return 125
    | none => pure ()
    match command with
    | [] =>
      for (name, value) in all do
        emit (name ++ "=" ++ value ++ if g.has '0' then "\x00" else "\n")
      return 0
    | _ =>
      modifyProcess fun p => withExported p all
      runFor run "env" command

def printenv (args : List String) : ShellM Nat := do
  let p ← getProcess
  let names := args.filter fun a => a.toList.head? != some '-'
  if names.isEmpty then
    for (name, value) in exportedVariables p do emit (name ++ "=" ++ value ++ "\n")
    return 0
  let mut status := 0
  for name in names do
    match p.variableNamed? name with
    | some ⟨some value, true, _⟩ => emit (value ++ "\n")
    | _ => status := 1
  return status

/-! ## Time -/

def seconds? (text : String) : Option Float :=
  let cs := text.toList
  let (digits, unit) := match cs.getLast? with
    | some 's' => (cs.dropLast, 1.0)
    | some 'm' => (cs.dropLast, 60.0)
    | some 'h' => (cs.dropLast, 3600.0)
    | some 'd' => (cs.dropLast, 86400.0)
    | _ => (cs, 1.0)
  if digits == "inf".toList || digits == "infinity".toList then some never
  else match Scaled.ofText? (String.ofList digits) with
    | some s =>
      if s.digits < 0 then none
      else some (Float.ofScientific s.digits.natAbs true s.places * unit)
    | none => none

def sleep (run : Runner) (args : List String) : ShellM Nat := do
  let args := if args.head? == some "--" then args.drop 1 else args
  if args.isEmpty then
    complain "sleep: missing operand"
    return 1
  match args.find? fun a => (seconds? a).isNone with
  | some a =>
    complain ("sleep: invalid time interval '" ++ a ++ "'")
    return 1
  | none =>
    pause run ((args.filterMap seconds?).foldl (· + ·) 0.0)
    return 0

/-- Runs a program for a limited time. Of what the program does, that counts which it does in time. -/
def timeout (run : Runner) (args : List String) : ShellM Nat :=
  let o := Options.ofLetters "k:s:v"
    [("kill-after", 'k', .value), ("signal", 's', .value), ("foreground", '\x01', .nothing),
     ("preserve-status", '\x02', .nothing), ("verbose", 'v', .nothing)]
  withArguments "timeout" { o with mixed := false } 125 args fun g => do
    match g.operands with
    | duration :: name :: rest =>
      match seconds? duration, (g.value? 's').map (signal? .extended) with
      | none, _ =>
        complain ("timeout: invalid time interval '" ++ duration ++ "'")
        return 125
      | _, some none =>
        complain ("timeout: " ++ (g.value? 's').getD "" ++ ": invalid signal")
        return 125
      | some limit, signal => do
        let before ← get
        let signal := (signal.getD (some 15)).getD 15
        let ends := before.clock + limit
        let isShorter := limit > 0.0 && before.deadline.all fun d => ends < d
        if !isShorter then return ← runFor run "timeout" (name :: rest)
        let steps := before.steps / 2
        set { before with deadline := some ends, steps := steps }
        let result ← outcome (runFor run "timeout" (name :: rest))
        let after ← get
        set { after with
          deadline := before.deadline
          steps := before.steps - (steps - after.steps)
          clock := match result with
            | .error .outOfTime => ends
            | _ => after.clock
          process := before.process
          disk := { after.disk with workingDirectory := before.disk.workingDirectory } }
        match result with
        | .error .outOfTime =>
          return if g.has '\x02' then 128 + signal else if signal = 9 then 137 else 124
        | .error halt => throw halt
        | .ok status => return status
    | _ =>
      complain "timeout: missing operand"
      return 125

def runPlainly (name letters : String) (run : Runner) (args : List String) : ShellM Nat :=
  withArguments name { Options.ofLetters letters [] with mixed := false } 125 args fun g => do
    if g.operands.isEmpty then
      complain (name ++ ": missing operand")
      return 125
    runFor run name g.operands

/-- The most chunks that are written by a program that writes without end. -/
def mostChunks : Nat := 1000

/-- Writes a line again and again, until nobody reads it. -/
def yes (args : List String) : ShellM Nat := do
  let line := ((if args.isEmpty then "y" else " ".intercalate args) ++ "\n").toList
  let count := 4000 / line.length + 1
  let chunk := (List.replicate count line).flatten
  for _ in List.range mostChunks do emitList chunk
  throw .outOfTime

/-! ## The system -/

def which (run : Runner) (args : List String) : ShellM Nat := do
  let all := args.contains "-a"
  let names := args.filter fun a => a != "-a" && a != "--"
  let s ← get
  let mut status := if names.isEmpty then 1 else 0
  for name in names do
    let path := if name.toList.contains '/' then
        match programAt run.programs s name with
        | .utility _ | .script _ => some name
        | _ => none
      else searchPath? run.programs s name
    match path with
    | some p =>
      emit (p ++ "\n")
      if all && "/usr/bin/".toList.isPrefixOf p.toList then
        emit (String.ofList (p.toList.drop 4) ++ "\n")
    | none => status := 1
  return status

def uname (args : List String) : ShellM Nat := do
  let letters := args.flatMap fun a => a.toList.drop 1
  let part (c : Char) : String := match c with
    | 'n' => "localhost"
    | 'r' => "6.0.0"
    | 'v' => "#1 SMP"
    | 'm' | 'p' | 'i' => "x86_64"
    | 'o' => "GNU/Linux"
    | _ => "Linux"
  let shown := if letters.contains 'a' then "snrvmo".toList
    else if letters.isEmpty then ['s']
    else "snrvmpio".toList.filter letters.contains
  emit (" ".intercalate (shown.map part) ++ "\n")
  return 0

def showIdentity (args : List String) : ShellM Nat := do
  let letters := args.flatMap fun a => a.toList.drop 1
  let name := letters.contains 'n'
  if letters.contains 'u' || letters.contains 'g' || letters.contains 'G' then
    emit (if name then "root\n" else "0\n")
  else emit "uid=0(root) gid=0(root) groups=0(root)\n"
  return 0

def date (args : List String) : ShellM Nat := do
  let seconds := toString ((← get).clock.floor.toUInt64.toNat)
  match args with
  | ["+%s"] => emit (seconds ++ "\n")
  | _ => emit "Thu Jan  1 00:00:00 UTC 1970\n"
  return 0

/-! ## Commands of the shell as programs -/

def asExtended (work : List String → ShellM Nat) (args : List String) : ShellM Nat := do
  modifyProcess fun p => { p with dialect := .extended }
  work args

def testUtility (name : String) (run : Runner) (args : List String) : ShellM Nat := do
  modifyProcess fun p => { p with dialect := .extended }
  if name == "[" && args.getLast? != some "]" then
    complain "[: missing ']'"
    return 2
  let words := if name == "[" then args.dropLast else args
  match Condition.evaluate run.programs (← get) words with
  | .ok value => return if value then 0 else 1
  | .error reason =>
    complain (name ++ ": " ++ reason)
    return 2

def killUtility (args : List String) : ShellM Nat := do
  modifyProcess fun p => { p with dialect := .extended }
  match ← outcome (kill args) with
  | .ok status => return status
  | .error .failed => return 1
  | .error halt => throw halt

end Utility

end ShaderReducer
