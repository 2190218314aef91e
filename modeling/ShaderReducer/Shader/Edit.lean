import ShaderReducer.Shader.Tree

/-!
# Changing shaders

The changes that the reductions are made of. Each says which slots it drops: a subtree that is cut
off is dead with all its slots, and a node that moves to another slot leaves its own dead.
-/

namespace ShaderReducer

namespace Shader

def exprSlots (s : Shader) (id : ExprId) : List ExprId :=
  (s.exprTree id).subexprs.map Expr.tag

def stmtSlots (s : Shader) (id : StmtId) : List StmtId :=
  ((s.stmtTree id).visits 0).map fun (_, t) => t.tag

def stmtExprSlots (s : Shader) (id : StmtId) : List ExprId :=
  ((s.stmtTree id).exprVisits 0).map fun (_, e) => e.tag

def forgetExprs (s : Shader) (ids : List ExprId) : Shader :=
  { s with exprs := s.exprs.killAll (ids.map ExprId.index) }

def forgetStmts (s : Shader) (ids : List StmtId) : Shader :=
  { s with stmts := s.stmts.killAll (ids.map StmtId.index) }

def forgetExpr (s : Shader) (id : ExprId) : Shader :=
  s.forgetExprs [id]

def forgetStmt (s : Shader) (id : StmtId) : Shader :=
  s.forgetStmts [id]

def killExpr (s : Shader) (id : ExprId) : Shader :=
  s.forgetExprs (s.exprSlots id)

def killStmt (s : Shader) (id : StmtId) : Shader :=
  (s.forgetExprs (s.stmtExprSlots id)).forgetStmts (s.stmtSlots id)

def killExprs (s : Shader) (ids : List ExprId) : Shader :=
  ids.foldl killExpr s

def killContents (s : Shader) : Decl ExprId StmtId → Shader
  | .function decl => decl.body.elim s s.killStmt
  | .vars decl => s.killExprs decl.inits
  | .directive _ | .precision _ _ | .struct _ => s

/-- Takes a declaration away and drops what it holds; says whether it was there. -/
def removeDecl (s : Shader) (id : DeclId) : Bool × Shader :=
  if s.decls.contains id then
    let s := { s with decls := s.decls.erase id }
    let s := s.killContents (s.decl id)
    (true, { s with declNodes := s.declNodes.kill id.index })
  else (false, s)

/-- Takes a statement out of a block and drops it; says whether it was there. -/
def removeFromBlock (s : Shader) (block stmt : StmtId) : Bool × Shader :=
  match s.stmt block with
  | .block body =>
    if body.contains stmt then (true, (s.setStmt block (.block (body.erase stmt))).killStmt stmt)
    else (false, s)
  | _ => (false, s)

/-- Puts a part of an expression in the place of the whole: its node moves to the slot of the whole,
its own slot is left, and the other parts are dropped. -/
def replaceWithChild (s : Shader) (target child : ExprId) : Shader :=
  let s := s.killExprs ((s.expr target).children.filter (· ≠ child))
  (s.forgetExpr child).setExpr target (s.expr child)

def replaceWithLeaf (s : Shader) (target : ExprId) (leaf : ExprNode ExprId) : Shader :=
  (s.killExprs (s.expr target).children).setExpr target leaf

end Shader

end ShaderReducer
