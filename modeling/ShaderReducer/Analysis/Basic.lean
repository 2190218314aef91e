import ShaderReducer.Analysis.Scope
import ShaderReducer.Typing.Infer

/-!
# Facts about a shader

Everything that the search for opportunities needs to know, gathered once for a shader.
-/

namespace ShaderReducer

/-- The dialect, the scope of the reduction, the types, the uses of names, the functions and the
expressions that are written to. -/
structure Analysis where
  dialect : Version
  scope : ReductionScope
  types : Types
  uses : NameUses
  callables : Callables
  written : Marks

namespace Analysis

def ofShader (s : Shader) (everywhere : Bool) : Analysis where
  dialect := s.dialect
  scope := ReductionScope.ofShader s everywhere
  types := Types.ofShader s
  uses := NameUses.ofShader s
  callables := Callables.ofShader s
  written := Marks.ofList s.exprs.size (s.writtenSlots.map ExprId.index)

def isWritten (a : Analysis) (id : ExprId) : Bool :=
  a.written.contains id.index

end Analysis

end ShaderReducer
