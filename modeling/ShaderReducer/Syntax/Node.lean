import ShaderReducer.Syntax.Operator

/-!
# One level of syntax

The forms of expressions, statements and declarations, with the parts below them left open: `ρ`
stands for expressions and `σ` for statements. With trees for the parts a form is the top of a tree;
with slot numbers it is the content of a slot.
-/

namespace ShaderReducer

/-!
## Type specifiers

The name of a type as it stands in a declaration, with the qualifiers before it.
-/

inductive Precision where
  | high | medium | low
  deriving Repr, DecidableEq

def Precision.spelling : Precision → String
  | high => "highp"
  | medium => "mediump"
  | low => "lowp"

structure LayoutItem where
  key : String
  value : Option String
  deriving Repr, DecidableEq

inductive Qualifier where
  | const | uniform | input | output | inputOutput | vertexAttribute | varying | flat | invariant
  | precision (level : Precision)
  | layout (items : List LayoutItem)
  deriving Repr, DecidableEq

structure TypeSpec where
  qualifiers : List Qualifier
  name : String
  deriving Repr, DecidableEq

namespace TypeSpec

def ofName (name : String) : TypeSpec := ⟨[], name⟩

def hasQualifier (spec : TypeSpec) (q : Qualifier) : Bool := spec.qualifiers.contains q

end TypeSpec

/-! ## Forms -/

inductive Literal where
  | int (text : String)
  | uint (text : String)
  | float (text : String)
  | bool (value : Bool)
  deriving Repr, DecidableEq

def Literal.text : Literal → String
  | int text | uint text | float text => text
  | bool true => "true"
  | bool false => "false"

/-- A form of expression. A `call` is a call of a function or of a constructor; a `member` is a
field of a structure or a choice of vector components. -/
inductive ExprNode (ρ : Type) where
  | literal (value : Literal)
  | ident (name : String)
  | paren (inner : ρ)
  | unary (op : UnaryOp) (operand : ρ)
  | binary (op : BinaryOp) (lhs rhs : ρ)
  | ternary (cond onTrue onFalse : ρ)
  | call (callee : String) (args : List ρ)
  | member (base : ρ) (field : String)
  | index (base offset : ρ)
  deriving Repr, DecidableEq

structure Declarator (ρ : Type) where
  name : String
  arraySize : Option Nat
  init : Option ρ
  deriving Repr, DecidableEq

structure VarDecl (ρ : Type) where
  type : TypeSpec
  declarators : List (Declarator ρ)
  deriving Repr, DecidableEq

/-- A form of statement. The first part of a `forLoop` is a declaration, an expression or an empty
statement. -/
inductive StmtNode (ρ σ : Type) where
  | block (body : List σ)
  | vars (decl : VarDecl ρ)
  | expr (value : ρ)
  | ifElse (cond : ρ) (onTrue : σ) (onFalse : Option σ)
  | forLoop (start : σ) (cond step : Option ρ) (body : σ)
  | whileLoop (cond : ρ) (body : σ)
  | doWhile (body : σ) (cond : ρ)
  | returns (value : Option ρ)
  | breaks
  | continues
  | discards
  | empty
  deriving Repr, DecidableEq

structure FieldDecl where
  type : TypeSpec
  name : String
  arraySize : Option Nat
  deriving Repr, DecidableEq

structure StructDecl where
  name : String
  fields : List FieldDecl
  deriving Repr, DecidableEq

/-- A parameter of a function; it need not have a name. -/
structure Param where
  type : TypeSpec
  name : Option String
  arraySize : Option Nat
  deriving Repr, DecidableEq

structure FunctionDecl (σ : Type) where
  returnType : TypeSpec
  name : String
  params : List Param
  body : Option σ
  deriving Repr, DecidableEq

/-- A form of top-level declaration. A `directive` is a preprocessor line. -/
inductive Decl (ρ σ : Type) where
  | directive (text : String)
  | precision (level : Precision) (typeName : String)
  | struct (decl : StructDecl)
  | function (decl : FunctionDecl σ)
  | vars (decl : VarDecl ρ)
  deriving Repr, DecidableEq

namespace ExprNode

variable {ρ τ : Type}

def children : ExprNode ρ → List ρ
  | literal _ | ident _ => []
  | paren inner => [inner]
  | unary _ operand => [operand]
  | binary _ lhs rhs => [lhs, rhs]
  | ternary cond onTrue onFalse => [cond, onTrue, onFalse]
  | call _ args => args
  | member base _ => [base]
  | index base offset => [base, offset]

def map (f : ρ → τ) : ExprNode ρ → ExprNode τ
  | literal value => literal value
  | ident name => ident name
  | paren inner => paren (f inner)
  | unary op operand => unary op (f operand)
  | binary op lhs rhs => binary op (f lhs) (f rhs)
  | ternary cond onTrue onFalse => ternary (f cond) (f onTrue) (f onFalse)
  | call callee args => call callee (args.map f)
  | member base field => member (f base) field
  | index base offset => index (f base) (f offset)

def precedence : ExprNode ρ → Nat
  | binary op _ _ => op.precedence
  | ternary _ _ _ => Precedence.conditional
  | unary op _ => op.precedence
  | call _ _ | member _ _ | index _ _ => Precedence.access
  | literal _ | ident _ | paren _ => Precedence.primary

@[simp] theorem children_map (f : ρ → τ) (e : ExprNode ρ) :
    (e.map f).children = e.children.map f := by
  cases e <;> simp [map, children]

@[simp] theorem precedence_map (f : ρ → τ) (e : ExprNode ρ) :
    (e.map f).precedence = e.precedence := by
  cases e <;> rfl

end ExprNode

namespace Declarator

def map {ρ τ : Type} (f : ρ → τ) (d : Declarator ρ) : Declarator τ :=
  ⟨d.name, d.arraySize, d.init.map f⟩

end Declarator

namespace VarDecl

def inits {ρ : Type} (v : VarDecl ρ) : List ρ :=
  v.declarators.filterMap Declarator.init

def map {ρ τ : Type} (f : ρ → τ) (v : VarDecl ρ) : VarDecl τ :=
  ⟨v.type, v.declarators.map (Declarator.map f)⟩

end VarDecl

namespace StmtNode

variable {ρ σ ρ' σ' : Type}

def childStmts : StmtNode ρ σ → List σ
  | block body => body
  | ifElse _ onTrue onFalse => onTrue :: onFalse.toList
  | forLoop start _ _ body => [start, body]
  | whileLoop _ body | doWhile body _ => [body]
  | vars _ | expr _ | returns _ | breaks | continues | discards | empty => []

def childExprs : StmtNode ρ σ → List ρ
  | vars decl => decl.inits
  | expr value => [value]
  | ifElse cond _ _ | whileLoop cond _ | doWhile _ cond => [cond]
  | forLoop _ cond step _ => cond.toList ++ step.toList
  | returns value => value.toList
  | block _ | breaks | continues | discards | empty => []

def map (f : ρ → ρ') (g : σ → σ') : StmtNode ρ σ → StmtNode ρ' σ'
  | block body => block (body.map g)
  | vars decl => vars (decl.map f)
  | expr value => expr (f value)
  | ifElse cond onTrue onFalse => ifElse (f cond) (g onTrue) (onFalse.map g)
  | forLoop start cond step body => forLoop (g start) (cond.map f) (step.map f) (g body)
  | whileLoop cond body => whileLoop (f cond) (g body)
  | doWhile body cond => doWhile (g body) (f cond)
  | returns value => returns (value.map f)
  | breaks => breaks
  | continues => continues
  | discards => discards
  | empty => empty

end StmtNode

namespace StructDecl

def fieldIndex? (s : StructDecl) (name : String) : Option Nat :=
  s.fields.findIdx? fun field => field.name == name

end StructDecl

namespace Decl

variable {ρ σ ρ' σ' : Type}

def map (f : ρ → ρ') (g : σ → σ') : Decl ρ σ → Decl ρ' σ'
  | directive text => directive text
  | precision level typeName => precision level typeName
  | struct decl => struct decl
  | function decl => function ⟨decl.returnType, decl.name, decl.params, decl.body.map g⟩
  | vars decl => vars (decl.map f)

def function? : Decl ρ σ → Option (FunctionDecl σ)
  | function decl => some decl
  | _ => none

def struct? : Decl ρ σ → Option StructDecl
  | struct decl => some decl
  | _ => none

end Decl

end ShaderReducer
