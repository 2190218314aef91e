import ShaderReducer.Shader.Tree
import ShaderReducer.Typing.Builtin

/-!
# Writes

Which expressions are written to, and which have effects. An assignment, an increment and an
argument at an output position write to an expression, and with it to what it is a part of.
-/

namespace ShaderReducer

def Param.isOutput (param : Param) : Bool :=
  param.type.hasQualifier .output || param.type.hasQualifier .inputOutput

namespace FunctionDecl

def outPositions {σ : Type} (f : FunctionDecl σ) : List Nat :=
  (f.params.zipIdx.filter fun (param, _) => param.isOutput).map Prod.snd

end FunctionDecl

structure Callables where
  functions : List (FunctionDecl StmtId)

namespace Callables

def ofShader (s : Shader) : Callables :=
  ⟨s.functions.map Prod.snd⟩

def isUserFunction (c : Callables) (name : String) : Bool :=
  c.functions.any fun f => f.name == name

/-- The positions of the arguments that a call may write to: those that any function of that name
writes to, or those of the built-in function where there is none. -/
def outPositions (c : Callables) (callee : String) : List Nat :=
  if c.isUserFunction callee then
    (c.functions.filter fun f => f.name == callee).flatMap FunctionDecl.outPositions
  else Builtin.outPositions callee

variable {ε : Type}

def writesArguments (c : Callables) : Expr ε → Bool
  | .node _ (.call callee _) => !(c.outPositions callee).isEmpty
  | _ => false

/-- Whether an expression by itself, its parts aside, may have an effect: it writes, or it calls a
function that may do so. -/
def isEffect (c : Callables) : Expr ε → Bool
  | .node _ (.binary op _ _) => op.isAssignment
  | .node _ (.unary op _) => op.writesOperand
  | .node _ (.call callee _) =>
    c.isUserFunction callee || !(Builtin.outPositions callee).isEmpty
  | _ => false

def hasSideEffects (c : Callables) (e : Expr ε) : Bool :=
  e.subexprs.any c.isEffect

end Callables

namespace Expr

variable {ε : Type}

/-- The tags of an expression and of what it is a part of: the inside of parentheses, and the value
that a member or element belongs to. -/
def storageChain : Expr ε → List ε
  | node tag (.paren inner) => tag :: inner.storageChain
  | node tag (.member base _) => tag :: base.storageChain
  | node tag (.index base _) => tag :: base.storageChain
  | node tag _ => [tag]

def written (c : Callables) : Expr ε → List (Expr ε)
  | node _ (.binary op lhs _) => if op.isAssignment then [lhs] else []
  | node _ (.unary op operand) => if op.writesOperand then [operand] else []
  | node _ (.call callee args) => (c.outPositions callee).filterMap fun i => args[i]?
  | _ => []

end Expr

namespace Shader

/-- All expressions that the declarations of a shader reach, each before its parts, with their
depths. -/
def exprVisits (s : Shader) : List (Nat × Expr ExprId) :=
  s.declTrees.flatMap DeclTree.exprVisits

/-- All statements that the declarations of a shader reach, each before its parts, with their
depths. -/
def stmtVisits (s : Shader) : List (Nat × Stmt ExprId StmtId) :=
  s.declTrees.flatMap DeclTree.stmtVisits

def writtenSlots (s : Shader) : List ExprId :=
  let callables := Callables.ofShader s
  s.exprVisits.flatMap fun (_, e) => (e.written callables).flatMap Expr.storageChain

end Shader

end ShaderReducer
