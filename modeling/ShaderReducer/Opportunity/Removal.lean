import ShaderReducer.Opportunity.Basic

/-!
# What may go

Declarations, statements and variables that may be taken away, and statements that may be replaced by
what they stand around.
-/

namespace ShaderReducer

/-! ## Declarations and statements that may go

A function that is never called, other than `main`, and a structure that is neither constructed nor
named may be taken away. No change adds a reference, so a declaration that was found remains without
any while it stands.

A statement of a block may be taken out if it is in scope or an injected condition. Declarations are
left to the search for variables, and a function keeps the values that it returns. -/

namespace UnusedDecl

/-- Whether nothing refers to a declaration that may be taken away. -/
def isUnused (uses : NameUses) : Decl ExprId StmtId → Bool
  | .function decl => decl.name != "main" && uses.calls decl.name == 0
  | .struct decl => uses.calls decl.name == 0 && uses.typeRefs decl.name == 0
  | .directive _ | .precision _ _ | .vars _ => false

def find (s : Shader) (a : Analysis) : List Opportunity :=
  (s.decls.filter fun id => isUnused a.uses (s.decl id)).map fun id => ⟨0, .removeDecl id⟩

end UnusedDecl

namespace RemovableStmt

/-- Whether a statement may be taken out of a block of a function that returns a value or not. -/
def isRemovable (a : Analysis) (returnsValue : Bool) (stmt : Stmt ExprId StmtId) : Bool :=
  (match stmt.form with
    | .vars _ => false
    | .returns (some _) => !returnsValue
    | _ => true) &&
  (a.scope.containsStmt stmt.tag || a.scope.isDeadIf stmt.tag)

def blockBody {ε σ : Type} (stmt : Stmt ε σ) : List (Stmt ε σ) :=
  match stmt.form with
  | .block body => body
  | _ => []

def find (s : Shader) (a : Analysis) : List Opportunity :=
  s.bodies.flatMap fun (_, f, body) =>
    (body.visits 1).flatMap fun (depth, block) =>
      ((blockBody block).filter (isRemovable a (f.returnType.name != "void"))).map fun stmt =>
        ⟨depth + 1, .removeStmt block.tag stmt.tag⟩

end RemovableStmt

/-! ## Variables that nothing refers to

A local variable whose name does not occur in its function may be taken out of its declaration,
unless that would drop an effect of code that can run. A declaration without variables goes as a
whole; in the header of a loop it leaves an empty statement. -/

namespace UnusedVariable

def holds (s : Shader) (stmt : StmtId) (block : Option StmtId) (name : String) : Bool :=
  s.isStmtLive stmt &&
    (match s.stmt stmt with
      | .vars decl => decl.declarators.any fun d => d.name == name
      | _ => false) &&
    match block with
    | some block => s.standsIn block stmt
    | none => true

def apply (s : Shader) (stmt : StmtId) (block : Option StmtId) (name : String) : Shader :=
  match s.stmt stmt with
  | .vars decl =>
    match decl.declarators.find? fun d => d.name == name with
    | some removed =>
      let rest := decl.declarators.eraseP fun d => d.name == name
      let s := s.setStmt stmt (.vars ⟨decl.type, rest⟩)
      let s := s.killExprs removed.init.toList
      if rest.isEmpty then
        match block with
        | some block => (s.removeFromBlock block stmt).2
        | none => s.setStmt stmt .empty
      else s
    | none => s
  | _ => s

/-- The declarations directly in a statement: those of a block, each with that block, and the first
part of a loop. -/
def localDecls (stmt : Stmt ExprId StmtId) : List (Stmt ExprId StmtId × Option StmtId) :=
  match stmt with
  | .node id (.block body) => body.map fun child => (child, some id)
  | .node _ (.forLoop start _ _ _) => [(start, none)]
  | _ => []

def isRemovable (a : Analysis) (function : DeclId) (stmt : StmtId) (d : Declarator (Expr ExprId)) :
    Bool :=
  a.uses.identUsesIn function d.name == 0 &&
    (a.scope.containsStmt stmt || !d.init.any a.callables.hasSideEffects)

def find (s : Shader) (a : Analysis) : List Opportunity :=
  s.bodies.flatMap fun (function, _, body) =>
    (body.visits 1).flatMap fun (depth, parent) =>
      (localDecls parent).flatMap fun (stmt, block) =>
        match stmt.form with
        | .vars decl =>
          (decl.declarators.filter (isRemovable a function stmt.tag)).map fun d =>
            ⟨depth + 1, .removeVariable stmt.tag block d.name⟩
        | _ => []

end UnusedVariable

/-! ## Statements around statements

An `if` in a block may be replaced by one of its branches, and a block in a block by its statements.
A block that declares names is kept, for its names would be visible too far. So are injected
conditions: they go as a whole. -/

namespace Unwrap

def fits (s : Shader) (target : StmtId) (way : UnwrapWay) : Bool :=
  match way, s.stmt target with
  | .onTrue, .ifElse _ _ _ => true
  | .onFalse, .ifElse _ _ onFalse => onFalse.isSome
  | .block, .block body => body.all fun child => match s.stmt child with
    | .vars _ => false
    | _ => true
  | _, _ => false

def holds (s : Shader) (block target : StmtId) (way : UnwrapWay) : Bool :=
  s.standsIn block target && fits s target way

def splice (s : Shader) (block target : StmtId) (replacement : List StmtId) : Shader :=
  match s.stmt block with
  | .block body =>
    match body.idxOf? target with
    | some i => s.setStmt block (.block (body.take i ++ replacement ++ body.drop (i + 1)))
    | none => s
  | _ => s

def apply (s : Shader) (block target : StmtId) (way : UnwrapWay) : Shader :=
  match s.stmt target with
  | .ifElse cond onTrue onFalse =>
    let s := s.killExpr cond
    let (kept, dropped) := match way, onFalse with
      | .onFalse, some onFalse => (onFalse, some onTrue)
      | _, _ => (onTrue, onFalse)
    let s := dropped.elim s s.killStmt
    splice (s.forgetStmt target) block target [kept]
  | .block body => splice (s.forgetStmt target) block target body
  | _ => s

def find (s : Shader) (a : Analysis) : List Opportunity :=
  s.bodies.flatMap fun (_, _, body) =>
    (body.visits 1).flatMap fun (depth, block) =>
      match block.form with
      | .block body =>
        let inScope := body.filter fun stmt =>
          a.scope.containsStmt stmt.tag && !a.scope.isDeadIf stmt.tag
        inScope.flatMap fun stmt =>
          ([.onTrue, .onFalse, .block].filter (fits s stmt.tag)).map fun way =>
            ⟨depth + 1, .unwrap block.tag stmt.tag way⟩
      | _ => []

end Unwrap

end ShaderReducer
