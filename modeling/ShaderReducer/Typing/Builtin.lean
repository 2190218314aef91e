import ShaderReducer.Typing.Type

/-!
# Built-in names

The variables and functions of the language, as far as their types are of use here.
-/

namespace ShaderReducer

namespace Builtin

def variableType? (name : String) : Option Ty :=
  if ["gl_FragColor", "gl_FragCoord", "gl_Position"].contains name then some (.vector .float 4)
  else if name = "gl_PointCoord" then some (.vector .float 2)
  else if name = "gl_FrontFacing" then some (.scalar .bool)
  else if ["gl_PointSize", "gl_FragDepth"].contains name then some (.scalar .float)
  else if ["gl_VertexID", "gl_InstanceID"].contains name then some (.scalar .int)
  else none

def outPositions (name : String) : List Nat :=
  if ["modf", "frexp"].contains name then [1]
  else if ["uaddCarry", "usubBorrow"].contains name then [2]
  else if ["umulExtended", "imulExtended"].contains name then [2, 3]
  else []

/-- Functions whose value has the type of their first argument. -/
def likeFirst : List String :=
  ["radians", "degrees", "sin", "cos", "tan", "asin", "acos", "atan", "sinh", "cosh", "tanh",
   "asinh", "acosh", "atanh", "pow", "exp", "log", "exp2", "log2", "sqrt", "inversesqrt", "abs",
   "sign", "floor", "trunc", "round", "roundEven", "ceil", "fract", "mod", "min", "max", "clamp",
   "mix", "normalize", "faceforward", "reflect", "refract", "dFdx", "dFdy", "fwidth", "not",
   "transpose", "inverse", "matrixCompMult", "modf", "frexp", "ldexp", "uaddCarry", "usubBorrow"]

def comparisons : List String :=
  ["isnan", "isinf", "lessThan", "lessThanEqual", "greaterThan", "greaterThanEqual", "equal",
   "notEqual"]

def textureReads : List String :=
  ["texture", "texture2D", "texture2DProj", "texture2DLod", "textureCube", "textureLod",
   "textureProj", "texelFetch", "textureGrad"]

def call? (name : String) (args : List (Option Ty)) : Option Ty :=
  let first := args.head?.join
  if likeFirst.contains name then first
  else if ["step", "smoothstep"].contains name then args.getLast?.join
  else if ["length", "distance", "dot", "determinant"].contains name then some (.scalar .float)
  else if name = "cross" then some (.vector .float 3)
  else if ["any", "all"].contains name then some (.scalar .bool)
  else if comparisons.contains name then first.bind (Ty.withComponent? .bool)
  else if name = "floatBitsToInt" then first.bind (Ty.withComponent? .int)
  else if name = "floatBitsToUint" then first.bind (Ty.withComponent? .uint)
  else if ["intBitsToFloat", "uintBitsToFloat"].contains name then
    first.bind (Ty.withComponent? .float)
  else if textureReads.contains name then some (.vector .float 4)
  else none

end Builtin

end ShaderReducer
