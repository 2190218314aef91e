import ShaderReducer.Analysis.Basic
import ShaderReducer.Shader.Edit

/-!
# Opportunities

An opportunity is one change that may make a shader smaller, named by the slots that it touches. It
is found in a shader and may be tried on that shader or on a copy of it after other changes; whether
it still makes sense there is checked first.
-/

namespace ShaderReducer

inductive OpportunityKind where
  | compoundExprToSubExpr
  | exprToConstant
  | removeDeclaration
  | inlineStructifiedField
  | removeStmt
  | removeVariable
  | unwrapStmt
  deriving Repr, DecidableEq

namespace OpportunityKind

def all : List OpportunityKind :=
  [compoundExprToSubExpr, exprToConstant, removeDeclaration, inlineStructifiedField, removeStmt,
   removeVariable, unwrapStmt]

def name : OpportunityKind → String
  | compoundExprToSubExpr => "compound-expr-to-sub-expr"
  | exprToConstant => "expr-to-constant"
  | removeDeclaration => "remove-declaration"
  | inlineStructifiedField => "inline-structified-field"
  | removeStmt => "remove-stmt"
  | removeVariable => "remove-variable"
  | unwrapStmt => "unwrap-stmt"

def ofName? (text : String) : Option OpportunityKind :=
  all.find? fun kind => kind.name == text

theorem mem_all (kind : OpportunityKind) : kind ∈ all := by
  cases kind <;> decide

end OpportunityKind

/-- A constant that an expression may be replaced by: a literal, or a vector whose components are
all one literal. -/
inductive Constant where
  | scalar (value : Literal)
  | vector (constructor : String) (element : Literal)
  deriving Repr, DecidableEq

/-- What is left of a statement that is unwrapped: one branch of an `if`, or the statements of a
block. -/
inductive UnwrapWay where
  | onTrue
  | onFalse
  | block
  deriving Repr, DecidableEq

def UnwrapWay.name : UnwrapWay → String
  | onTrue => "Then"
  | onFalse => "Else"
  | block => "Block"

inductive Change where
  /-- Puts an operand in the place of an operation. -/
  | toSubExpr (target child : ExprId)
  /-- Puts a constant in the place of an expression. -/
  | toConstant (target : ExprId) (constant : Constant)
  /-- Takes a function or structure away that nothing refers to. -/
  | removeDecl (decl : DeclId)
  /-- Puts the fields of a synthetic structure in the place of a field that holds one. -/
  | inlineField (outer : DeclId) (field : String)
  /-- Takes a statement out of its block. -/
  | removeStmt (block stmt : StmtId)
  /-- Takes a variable out of a declaration, which stands in a block or in the header of a loop. -/
  | removeVariable (stmt : StmtId) (block : Option StmtId) (name : String)
  /-- Puts a part of a statement in its place in a block. -/
  | unwrap (block target : StmtId) (way : UnwrapWay)
  deriving Repr, DecidableEq

structure Opportunity where
  depth : Nat
  change : Change
  deriving Repr, DecidableEq

namespace Change

def kind : Change → OpportunityKind
  | toSubExpr _ _ => .compoundExprToSubExpr
  | toConstant _ _ => .exprToConstant
  | removeDecl _ => .removeDeclaration
  | inlineField _ _ => .inlineStructifiedField
  | removeStmt _ _ => .removeStmt
  | removeVariable _ _ _ => .removeVariable
  | unwrap _ _ _ => .unwrapStmt

end Change

def Constant.text : Constant → String
  | scalar value => value.text
  | vector constructor element => constructor ++ "(" ++ element.text ++ ")"

namespace Opportunity

def kind (o : Opportunity) : OpportunityKind :=
  o.change.kind

def text (o : Opportunity) : String :=
  o.kind.name ++ " " ++
    match o.change with
    | .toSubExpr target child => target.text ++ " -> " ++ child.text
    | .toConstant target constant => target.text ++ " -> " ++ constant.text
    | .removeDecl decl => decl.text
    | .inlineField outer field => outer.text ++ "." ++ field
    | .removeStmt _ stmt => stmt.text
    | .removeVariable stmt _ name => name ++ " in " ++ stmt.text
    | .unwrap _ target way => target.text ++ " (" ++ way.name ++ ")"

end Opportunity

namespace Shader

/-- Whether a statement stands in a block, both of them live. -/
def standsIn (s : Shader) (block stmt : StmtId) : Bool :=
  s.isStmtLive block && s.isStmtLive stmt &&
    match s.stmt block with
    | .block body => body.contains stmt
    | _ => false

def bodies (s : Shader) : List (DeclId × FunctionDecl StmtId × Stmt ExprId StmtId) :=
  s.functions.filterMap fun (id, f) => f.body.map fun body => (id, f, s.stmtTree body)

end Shader

end ShaderReducer
