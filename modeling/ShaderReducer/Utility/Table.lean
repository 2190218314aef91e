import ShaderReducer.Shell.Builtin
import ShaderReducer.Utility.Compare
import ShaderReducer.Utility.Grep
import ShaderReducer.Utility.Invoke
import ShaderReducer.Utility.Lines
import ShaderReducer.Utility.Sed.Run
import ShaderReducer.Utility.Sort

/-!
# Nested shells

The program that runs a script: the text of an argument, a file, or the input.
-/

namespace ShaderReducer

namespace Shell

structure Invocation where
  isText : Bool := false
  readsInput : Bool := false
  operands : List String := []

def readInvocation (dialect : Dialect) : Nat → List String → ShellM Invocation
  | 0, args => return { operands := args }
  | _, [] => return {}
  | fuel + 1, a :: rest => do
    match a.toList with
    | ['-', '-'] | ['-'] => return { operands := rest }
    | '-' :: '-' :: word =>
      if dialect == .extended then
        let skipped := if word = "rcfile".toList || word = "init-file".toList then 1 else 0
        readInvocation dialect fuel (rest.drop skipped)
      else fail "Illegal option --"
    | sign :: letters =>
      if sign == '-' || sign == '+' then
        let known := letters.filter fun c => c != 'c' && c != 'l' && c != 's'
        let rest ← setOptions "" (sign == '-') known rest
        let invocation ← readInvocation dialect fuel rest
        return { invocation with
          isText := invocation.isText || letters.contains 'c'
          readsInput := invocation.readsInput || letters.contains 's' }
      else return { operands := a :: rest }
    | [] => return { operands := a :: rest }

def setInvocation (name : String) (parameters : List String) : ShellM Unit :=
  modifyProcess fun p => { p with name := name, parameters := parameters }

def invoke (run : Runner) (dialect : Dialect) (i : Invocation) : ShellM Unit := do
  let name := (← getProcess).name
  let fromInput (parameters : List String) : ShellM Unit := do
    setInvocation name parameters
    let text := (← readRest 0).getD []
    run.text text
  if i.isText then
    match i.operands with
    | [] => fail "-c requires an argument"
    | text :: rest =>
      setInvocation (rest.headD name) (rest.drop 1)
      run.text text.toList
  else if i.readsInput then fromInput i.operands
  else match i.operands with
    | [] => fromInput []
    | path :: parameters =>
      match ← readFile path with
      | .ok text =>
        setInvocation path parameters
        run.text text
      | .error .isDirectory => if dialect == .extended then throw (.exited 126)
      | .error fault =>
        complainOf ("cannot open " ++ path ++ ": " ++
          if fault == .notFound || fault == .notDirectory then "No such file" else faultText fault)
        throw (.exited (if dialect == .extended then 127 else 2))

def nestedShell (dialect : Dialect) (name : String) (run : Runner) (args : List String) :
    ShellM Nat := do
  inNestedShell run dialect do
    modifyProcess fun p => { p with name := name, line := 0 }
    invoke run dialect (← readInvocation dialect (args.length + 1) args)
  return (← getProcess).status

end Shell

end ShaderReducer

/-!
## The table of utilities

The programs that a system has, by their names.
-/

namespace ShaderReducer

namespace Utility

open Shell

abbrev Program : Type := Runner → List String → ShellM Nat

def alone (f : List String → ShellM Nat) : Program := fun _ => f

def constant (status : Nat) : Program := fun _ _ => return status

def table : List (String × Program) :=
  [("basename", alone basename), ("dirname", alone dirname), ("realpath", alone realpath),
   ("readlink", alone readlink), ("cp", alone cp), ("mv", alone mv), ("ln", alone ln),
   ("rm", alone rm), ("mkdir", alone mkdir), ("rmdir", alone rmdir), ("touch", alone touch),
   ("chmod", alone chmod), ("truncate", alone truncate), ("mktemp", alone mktemp),
   ("ls", alone ls), ("stat", alone stat), ("cat", alone cat), ("tee", alone tee),
   ("sh", nestedShell .plain "sh"), ("dash", nestedShell .plain "dash"),
   ("bash", nestedShell .extended "bash"), ("rbash", nestedShell .extended "bash"),
   ("grep", alone (grep none)), ("egrep", alone (grep (some 'E'))),
   ("fgrep", alone (grep (some 'F'))), ("sed", Sed.main),
   ("sort", alone sort), ("uniq", alone uniq), ("comm", alone comm), ("wc", alone wc),
   ("head", alone head), ("tail", alone tail), ("cut", alone cut), ("paste", alone paste),
   ("tac", alone tac), ("rev", alone rev), ("fold", alone fold), ("nl", alone nl),
   ("expand", alone expandUtility), ("tr", alone tr), ("cmp", alone cmp), ("diff", alone diff),
   ("seq", alone seq), ("expr", alone expr), ("find", find), ("xargs", xargs), ("env", env),
   ("printenv", alone printenv), ("sleep", sleep), ("timeout", timeout),
   ("nohup", runPlainly "nohup" ""), ("nice", runPlainly "nice" "n:"),
   ("setsid", runPlainly "setsid" "cfw"), ("stdbuf", runPlainly "stdbuf" "i:o:e:"),
   ("yes", alone yes), ("which", which), ("uname", alone uname), ("id", alone showIdentity),
   ("whoami", alone fun _ => do
      emit "root\n"
      return 0),
   ("date", alone date), ("echo", alone (asExtended echo)), ("printf", alone (asExtended printf)),
   ("true", constant 0), ("false", constant 1), ("pwd", alone printDirectory),
   ("test", testUtility "test"), ("[", testUtility "["), ("kill", alone killUtility),
   ("sync", constant 0), ("chown", constant 0), ("chgrp", constant 0)]

end Utility

end ShaderReducer
