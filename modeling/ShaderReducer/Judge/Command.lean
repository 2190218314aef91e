import ShaderReducer.Judge.Basic
import ShaderReducer.Shell.Run

/-!
# Judging by a command

A judge that writes the candidate to files, puts their paths in the place of the placeholders of a
command, and runs the command in the directory of the files. The candidate is accepted if the
command exits with zero in time.
-/

namespace ShaderReducer

/-- A command with placeholders, the directory where it finds the candidate and is run, the
extension of the shader's file, and the time that it may take in seconds. -/
structure JudgeCommand where
  template : String
  scratch : Path
  extension : String
  timeout : Option Float := none

namespace JudgeCommand

def shaderPath (c : JudgeCommand) : Path := c.scratch.join ("candidate." ++ c.extension)

def bindingsPath (c : JudgeCommand) : Path := c.scratch.join "candidate.json"

/-- The placeholders of a command that judges a candidate, and the paths that they stand for. -/
def paths (c : JudgeCommand) : List (String × Path) :=
  [("\x7bfile\x7d", c.shaderPath), ("\x7bjson\x7d", c.bindingsPath)]

def makeScratch (c : JudgeCommand) : DiskM JudgeError Unit := do
  match (Disk.makeDirectories c.scratch).run (← get) with
  | (.ok (), d) => set d
  | (.error _, d) => do
    set d
    throw (.inaccessible c.scratch)

def writeText (p : Path) (text : String) : DiskM JudgeError Unit :=
  Disk.perform (·.write p (Utf8.encode text)) fun _ => .inaccessible p

def writeCandidate (c : JudgeCommand) (candidate : ReductionState) : DiskM JudgeError Unit := do
  c.makeScratch
  writeText c.shaderPath candidate.source
  writeText c.bindingsPath candidate.bindings.text

def replaceAll (placeholder value : List Char) : Nat → List Char → List Char
  | 0, cs => cs
  | _, [] => []
  | fuel + 1, c :: rest =>
    if placeholder.isPrefixOf (c :: rest) then
      value ++ replaceAll placeholder value fuel ((c :: rest).drop placeholder.length)
    else c :: replaceAll placeholder value fuel rest

/-- The command for some values. A value that holds a placeholder is replaced where that one comes
later. -/
def expand (template : String) (values : List (String × Path)) : String :=
  String.ofList <| values.foldl (fun text (placeholder, value) =>
    replaceAll placeholder.toList value.text.toList text.length text) template.toList

def run (c : JudgeCommand) (command : String) : DiskM JudgeError Shell.Ending := do
  let disk ← get
  match command.toList.contains '\x00', disk.locate c.scratch with
  | false, .ok directory =>
    let (ending, disk) := Shell.execute command directory c.timeout disk
    set disk
    return ending
  | _, _ => throw (.notSpawned command)

end JudgeCommand

namespace Judge

def command {σ : Type} (c : JudgeCommand) : Judge σ := ofDisk fun candidate => do
  c.writeCandidate candidate
  match ← c.run (JudgeCommand.expand c.template c.paths) with
  | .exited status => return status == 0
  | _ => return false

end Judge

end ShaderReducer
