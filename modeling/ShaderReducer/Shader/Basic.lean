import ShaderReducer.Shader.Arena
import ShaderReducer.Syntax.Tree

/-!
# Shaders

A shader is the syntax of a program laid out in arenas, one for each sort of node, so that every
expression, statement and declaration has a number of its own. A copy of a shader has the same
numbers, which is how a change that was found in one shader can be tried on another.

A number that is no slot reads as an empty name, statement or line; none of the operations hands out
such a number.
-/

namespace ShaderReducer

structure ExprId where
  index : Nat
  deriving Repr, DecidableEq

structure StmtId where
  index : Nat
  deriving Repr, DecidableEq

structure DeclId where
  index : Nat
  deriving Repr, DecidableEq

def ExprId.text (id : ExprId) : String := "expr#" ++ toString id.index

def StmtId.text (id : StmtId) : String := "stmt#" ++ toString id.index

def DeclId.text (id : DeclId) : String := "decl#" ++ toString id.index

/-- A program laid out in arenas: the declarations at top level in order, and the slots of all
nodes. -/
structure Shader where
  version : Option Version := none
  decls : List DeclId := []
  exprs : Arena (ExprNode ExprId) := {}
  stmts : Arena (StmtNode ExprId StmtId) := {}
  declNodes : Arena (Decl ExprId StmtId) := {}
  deriving Repr, DecidableEq

namespace Shader

def dialect (s : Shader) : Version :=
  s.version.getD Version.implicit

def addExpr (s : Shader) (node : ExprNode ExprId) : ExprId × Shader :=
  (⟨s.exprs.size⟩, { s with exprs := s.exprs.push node })

def addStmt (s : Shader) (node : StmtNode ExprId StmtId) : StmtId × Shader :=
  (⟨s.stmts.size⟩, { s with stmts := s.stmts.push node })

def addDecl (s : Shader) (node : Decl ExprId StmtId) : DeclId × Shader :=
  let id : DeclId := ⟨s.declNodes.size⟩
  (id, { s with declNodes := s.declNodes.push node, decls := s.decls ++ [id] })

def expr (s : Shader) (id : ExprId) : ExprNode ExprId :=
  (s.exprs.get? id.index).getD (.ident "")

def stmt (s : Shader) (id : StmtId) : StmtNode ExprId StmtId :=
  (s.stmts.get? id.index).getD .empty

def decl (s : Shader) (id : DeclId) : Decl ExprId StmtId :=
  (s.declNodes.get? id.index).getD (.directive "")

def setExpr (s : Shader) (id : ExprId) (node : ExprNode ExprId) : Shader :=
  { s with exprs := s.exprs.set id.index node }

def setStmt (s : Shader) (id : StmtId) (node : StmtNode ExprId StmtId) : Shader :=
  { s with stmts := s.stmts.set id.index node }

def setDecl (s : Shader) (id : DeclId) (node : Decl ExprId StmtId) : Shader :=
  { s with declNodes := s.declNodes.set id.index node }

def isExprLive (s : Shader) (id : ExprId) : Bool :=
  s.exprs.isLive id.index

def isStmtLive (s : Shader) (id : StmtId) : Bool :=
  s.stmts.isLive id.index

def isDeclLive (s : Shader) (id : DeclId) : Bool :=
  s.declNodes.isLive id.index && s.decls.contains id

def liveCount (s : Shader) : Nat :=
  s.exprs.liveCount + s.stmts.liveCount + s.declNodes.liveCount

def functions (s : Shader) : List (DeclId × FunctionDecl StmtId) :=
  s.decls.filterMap fun id => (s.decl id).function?.map (id, ·)

def structs (s : Shader) : List (DeclId × StructDecl) :=
  s.decls.filterMap fun id => (s.decl id).struct?.map (id, ·)

def findStruct? (s : Shader) (name : String) : Option (DeclId × StructDecl) :=
  s.structs.find? fun (_, decl) => decl.name == name

end Shader

end ShaderReducer
