import ShaderReducer.Binding.Basic
import ShaderReducer.Files.Disk
import ShaderReducer.Parser.Program
import ShaderReducer.Reduction.Error
import ShaderReducer.Shader.Tree
import ShaderReducer.Text.Utf8

/-!
# States of a reduction

A shader with the bindings of its uniforms, as it is reduced, and how it is read from two files.
-/

namespace ShaderReducer

namespace Shader

/-- What is wrong with a shader that is not read back from its own text. -/
def candidateFault? (s : Shader) : Option CandidateFault :=
  match Program.parse s.print with
  | .error error => some (.unreadable error)
  | .ok program => if (ofProgram program).agrees s then none else some .differs

end Shader

structure ReductionState where
  shader : Shader
  bindings : Bindings

namespace ReductionState

def source (s : ReductionState) : String :=
  s.shader.print

def readText (p : Path) : DiskM ReductionError String := do
  let bytes ← Disk.query (·.read p) fun _ => .inaccessible p
  match Utf8.decode? bytes with
  | some text => return text
  | none => throw (.inaccessible p)

def loadShader (p : Path) : DiskM ReductionError Shader := do
  let text ← readText p
  match Program.parse text with
  | .ok program => return Shader.ofProgram program
  | .error error => throw (.unparsable p text error)

/-- The bindings in a file. A file that is not there holds none. -/
def loadBindings (p : Path) : DiskM ReductionError Bindings := do
  match (← get).read p with
  | .error .notFound => return {}
  | _ =>
    match Bindings.parse? (← readText p) with
    | some bindings => return bindings
    | none => throw (.invalidBindings p)

def load (shader bindings : Path) : DiskM ReductionError ReductionState := do
  return ⟨← loadShader shader, ← loadBindings bindings⟩

end ReductionState

end ShaderReducer
