import ShaderReducer.Analysis.Scope
import ShaderReducer.Binding.Basic
import ShaderReducer.Random.Source
import ShaderReducer.Typing.Type

/-!
# Values for unset uniforms

A uniform that is declared with a scalar, vector or matrix type gets what its binding lacks: the
call for its type, and one random argument for each component of each element. The injection switch
gets zero and one.
-/

namespace ShaderReducer

/-- A declared uniform: its name, its type where that is a scalar, vector or matrix, and its size
where it is an array. -/
structure Uniform where
  name : String
  type : Ty
  arraySize : Option Nat
  deriving Repr, DecidableEq

namespace Uniform

def ofDecl {ρ σ : Type} : Decl ρ σ → List Uniform
  | .vars decl =>
    if decl.type.hasQualifier .uniform then
      match Ty.ofName? decl.type.name with
      | some type =>
        if type.componentCount?.isSome then
          decl.declarators.map fun d => ⟨d.name, type, d.arraySize⟩
        else []
      | none => []
    else []
  | _ => []

def ofShader (s : Shader) : List Uniform :=
  s.decls.flatMap fun id => ofDecl (s.decl id)

/-- The letter for the arguments of a call. Truth values are passed as integers. -/
def argumentLetter : ScalarKind → String
  | .float => "f"
  | .int | .bool => "i"
  | .uint => "ui"

def setter (u : Uniform) : String :=
  let count := u.type.componentCount?.getD 0
  let ending := if u.arraySize.isSome then "v" else ""
  match u.type with
  | .matrix columns rows =>
    if columns = rows then "glUniformMatrix" ++ toString columns ++ "fv"
    else "glUniformMatrix" ++ toString columns ++ "x" ++ toString rows ++ "fv"
  | type =>
    "glUniform" ++ toString count ++ argumentLetter (type.component?.getD .float) ++ ending

def argumentCount (u : Uniform) : Nat :=
  u.type.componentCount?.getD 0 * u.arraySize.getD 1

end Uniform

namespace RandomSource

def integerBound : Nat := Nat.pow 2 15

def component (kind : ScalarKind) (r : RandomSource) : Float × RandomSource :=
  match kind with
  | .float => r.unit
  | .int | .uint => let (n, r) := below integerBound r; (Float.ofNat n, r)
  | .bool => let (n, r) := below 2 r; (Float.ofNat n, r)

def components (kind : ScalarKind) : Nat → RandomSource → List Float × RandomSource
  | 0, r => ([], r)
  | n + 1, r =>
    let (x, r) := component kind r
    let (rest, r) := components kind n r
    (x :: rest, r)

end RandomSource

namespace Bindings

def complete (b : Bindings) (u : Uniform) (r : RandomSource) : Bindings × RandomSource :=
  let old := (b.get? u.name).getD {}
  let func := old.func.or (some u.setter)
  match old.args with
  | some args => (b.insert u.name ⟨func, some args⟩, r)
  | none =>
    if u.name = injectionSwitch then (b.insert u.name ⟨func, some [0.0, 1.0]⟩, r)
    else
      let (args, r) := RandomSource.components (u.type.component?.getD .float) u.argumentCount r
      (b.insert u.name ⟨func, some args⟩, r)

def completeAll (b : Bindings) : List Uniform → RandomSource → Bindings × RandomSource
  | [], r => (b, r)
  | u :: rest, r =>
    let (b, r) := b.complete u r
    b.completeAll rest r

def withDefaults (b : Bindings) (s : Shader) (r : RandomSource) : Bindings × RandomSource :=
  b.completeAll (Uniform.ofShader s) r

end Bindings

end ShaderReducer
