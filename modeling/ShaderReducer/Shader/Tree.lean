import ShaderReducer.Shader.Basic
import ShaderReducer.Syntax.Equality
import ShaderReducer.Syntax.Printer

/-!
# Shaders and syntax trees

The tree below a slot is read off the arenas; each of its nodes is tagged with its slot. No way down
from a slot is longer than its arena, unless the arena has a node below itself, and a tree is not
read any further down than that.

Laying a tree out gives every node the next free slot after those of its parts. `compact` lays the
syntax of a shader out anew, so that no slot is left over.
-/

namespace ShaderReducer

namespace Shader

/-- The tree below the slot of an expression, no deeper than a bound. -/
def readExpr (s : Shader) : Nat → ExprId → Expr ExprId
  | 0, id => .node id (.ident "")
  | depth + 1, id => .node id ((s.expr id).map (s.readExpr depth))

def exprTree (s : Shader) (id : ExprId) : Expr ExprId :=
  s.readExpr s.exprs.size id

/-- The tree below the slot of a statement, no deeper than a bound. -/
def readStmt (s : Shader) : Nat → StmtId → Stmt ExprId StmtId
  | 0, id => .node id .empty
  | depth + 1, id => .node id ((s.stmt id).map s.exprTree (s.readStmt depth))

def stmtTree (s : Shader) (id : StmtId) : Stmt ExprId StmtId :=
  s.readStmt s.stmts.size id

def declTree (s : Shader) (id : DeclId) : DeclTree ExprId StmtId :=
  (s.decl id).map s.exprTree s.stmtTree

def declTrees (s : Shader) : List (DeclTree ExprId StmtId) :=
  s.decls.map s.declTree

def toProgram (s : Shader) : Program :=
  ⟨s.version, s.declTrees.map DeclTree.erase⟩

def print (s : Shader) : String :=
  s.toProgram.print

def exprText (s : Shader) (id : ExprId) : String :=
  (s.exprTree id).text

def agrees (s t : Shader) : Bool :=
  s.dialect == t.dialect && DeclTree.agreesAll s.declTrees t.declTrees

end Shader

namespace Expr

variable {ε : Type}

mutual

def place : Expr ε → StateM Shader ExprId
  | node _ (.literal value) => fun s => s.addExpr (.literal value)
  | node _ (.ident name) => fun s => s.addExpr (.ident name)
  | node _ (.paren inner) => do
    let inner ← inner.place
    (Shader.addExpr · (.paren inner))
  | node _ (.unary op operand) => do
    let operand ← operand.place
    (Shader.addExpr · (.unary op operand))
  | node _ (.binary op lhs rhs) => do
    let lhs ← lhs.place
    let rhs ← rhs.place
    (Shader.addExpr · (.binary op lhs rhs))
  | node _ (.ternary cond onTrue onFalse) => do
    let cond ← cond.place
    let onTrue ← onTrue.place
    let onFalse ← onFalse.place
    (Shader.addExpr · (.ternary cond onTrue onFalse))
  | node _ (.call callee args) => do
    let args ← placeAll args
    (Shader.addExpr · (.call callee args))
  | node _ (.member base field) => do
    let base ← base.place
    (Shader.addExpr · (.member base field))
  | node _ (.index base offset) => do
    let base ← base.place
    let offset ← offset.place
    (Shader.addExpr · (.index base offset))

def placeAll : List (Expr ε) → StateM Shader (List ExprId)
  | [] => pure []
  | e :: rest => do
    let id ← e.place
    let ids ← placeAll rest
    pure (id :: ids)

end

def placeOption : Option (Expr ε) → StateM Shader (Option ExprId)
  | some e => do return some (← e.place)
  | none => pure none

end Expr

def Declarator.placeAll {ε : Type} :
    List (Declarator (Expr ε)) → StateM Shader (List (Declarator ExprId))
  | [] => pure []
  | d :: rest => do
    let init ← Expr.placeOption d.init
    let more ← placeAll rest
    pure (⟨d.name, d.arraySize, init⟩ :: more)

def VarDecl.place {ε : Type} (v : VarDecl (Expr ε)) : StateM Shader (VarDecl ExprId) := do
  return ⟨v.type, ← Declarator.placeAll v.declarators⟩

namespace Stmt

variable {ε σ : Type}

mutual

def place : Stmt ε σ → StateM Shader StmtId
  | node _ (.block body) => do
    let body ← placeAll body
    (Shader.addStmt · (.block body))
  | node _ (.vars decl) => do
    let decl ← decl.place
    (Shader.addStmt · (.vars decl))
  | node _ (.expr value) => do
    let value ← value.place
    (Shader.addStmt · (.expr value))
  | node _ (.ifElse cond onTrue none) => do
    let cond ← cond.place
    let onTrue ← onTrue.place
    (Shader.addStmt · (.ifElse cond onTrue none))
  | node _ (.ifElse cond onTrue (some onFalse)) => do
    let cond ← cond.place
    let onTrue ← onTrue.place
    let onFalse ← onFalse.place
    (Shader.addStmt · (.ifElse cond onTrue (some onFalse)))
  | node _ (.forLoop start cond step body) => do
    let start ← start.place
    let cond ← Expr.placeOption cond
    let step ← Expr.placeOption step
    let body ← body.place
    (Shader.addStmt · (.forLoop start cond step body))
  | node _ (.whileLoop cond body) => do
    let cond ← cond.place
    let body ← body.place
    (Shader.addStmt · (.whileLoop cond body))
  | node _ (.doWhile body cond) => do
    let body ← body.place
    let cond ← cond.place
    (Shader.addStmt · (.doWhile body cond))
  | node _ (.returns value) => do
    let value ← Expr.placeOption value
    (Shader.addStmt · (.returns value))
  | node _ .breaks => (Shader.addStmt · .breaks)
  | node _ .continues => (Shader.addStmt · .continues)
  | node _ .discards => (Shader.addStmt · .discards)
  | node _ .empty => (Shader.addStmt · .empty)

def placeAll : List (Stmt ε σ) → StateM Shader (List StmtId)
  | [] => pure []
  | s :: rest => do
    let id ← s.place
    let ids ← placeAll rest
    pure (id :: ids)

end

end Stmt

def DeclTree.place {ε σ : Type} : DeclTree ε σ → StateM Shader DeclId
  | .directive text => (Shader.addDecl · (.directive text))
  | .precision level typeName => (Shader.addDecl · (.precision level typeName))
  | .struct decl => (Shader.addDecl · (.struct decl))
  | .function ⟨returnType, name, params, none⟩ =>
    (Shader.addDecl · (.function ⟨returnType, name, params, none⟩))
  | .function ⟨returnType, name, params, some body⟩ => do
    let body ← body.place
    (Shader.addDecl · (.function ⟨returnType, name, params, some body⟩))
  | .vars decl => do
    let decl ← decl.place
    (Shader.addDecl · (.vars decl))

namespace Shader

def placeDecls {ε σ : Type} : List (DeclTree ε σ) → Shader → Shader
  | [], s => s
  | d :: rest, s => placeDecls rest (DeclTree.place d s).2

def ofProgram (p : Program) : Shader :=
  placeDecls p.decls { version := p.version }

def compact (s : Shader) : Shader :=
  placeDecls s.declTrees { version := s.version }

end Shader

end ShaderReducer
