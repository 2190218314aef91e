import ShaderReducer.Syntax.Tree

/-!
# Equal syntax

Two trees agree if they have the same forms, names and texts at the same places. Tags do not count,
nor do parentheses around an expression.
-/

namespace ShaderReducer

namespace Expr

variable {ε ε' : Type}

mutual

def agrees : Expr ε → Expr ε' → Bool
  | node _ (.paren inner), other => inner.agrees other
  | node _ (.literal value), other => match other.stripParens with
    | node _ (.literal value') => value == value'
    | _ => false
  | node _ (.ident name), other => match other.stripParens with
    | node _ (.ident name') => name == name'
    | _ => false
  | node _ (.unary op operand), other => match other.stripParens with
    | node _ (.unary op' operand') => op == op' && operand.agrees operand'
    | _ => false
  | node _ (.binary op lhs rhs), other => match other.stripParens with
    | node _ (.binary op' lhs' rhs') => op == op' && lhs.agrees lhs' && rhs.agrees rhs'
    | _ => false
  | node _ (.ternary cond onTrue onFalse), other => match other.stripParens with
    | node _ (.ternary cond' onTrue' onFalse') =>
      cond.agrees cond' && onTrue.agrees onTrue' && onFalse.agrees onFalse'
    | _ => false
  | node _ (.call callee args), other => match other.stripParens with
    | node _ (.call callee' args') => callee == callee' && agreesAll args args'
    | _ => false
  | node _ (.member base field), other => match other.stripParens with
    | node _ (.member base' field') => field == field' && base.agrees base'
    | _ => false
  | node _ (.index base offset), other => match other.stripParens with
    | node _ (.index base' offset') => base.agrees base' && offset.agrees offset'
    | _ => false

def agreesAll : List (Expr ε) → List (Expr ε') → Bool
  | [], [] => true
  | e :: rest, e' :: rest' => e.agrees e' && agreesAll rest rest'
  | _, _ => false

end

/-- Whether two optional expressions are both absent or the same. -/
def agreesOption : Option (Expr ε) → Option (Expr ε') → Bool
  | some e, some e' => e.agrees e'
  | none, none => true
  | _, _ => false

end Expr

def Declarator.agrees {ε ε' : Type} (d : Declarator (Expr ε)) (d' : Declarator (Expr ε')) : Bool :=
  d.name == d'.name && d.arraySize == d'.arraySize && Expr.agreesOption d.init d'.init

def VarDecl.agrees {ε ε' : Type} (v : VarDecl (Expr ε)) (v' : VarDecl (Expr ε')) : Bool :=
  v.type == v'.type && v.declarators.length == v'.declarators.length &&
    (v.declarators.zip v'.declarators).all fun (d, d') => d.agrees d'

namespace Stmt

variable {ε σ ε' σ' : Type}

mutual

def agrees : Stmt ε σ → Stmt ε' σ' → Bool
  | node _ (.block body), node _ (.block body') => agreesAll body body'
  | node _ (.vars decl), node _ (.vars decl') => decl.agrees decl'
  | node _ (.expr value), node _ (.expr value') => value.agrees value'
  | node _ (.ifElse cond onTrue none), node _ (.ifElse cond' onTrue' none) =>
    cond.agrees cond' && onTrue.agrees onTrue'
  | node _ (.ifElse cond onTrue (some onFalse)), node _ (.ifElse cond' onTrue' (some onFalse')) =>
    cond.agrees cond' && onTrue.agrees onTrue' && onFalse.agrees onFalse'
  | node _ (.forLoop start cond step body), node _ (.forLoop start' cond' step' body') =>
    start.agrees start' && Expr.agreesOption cond cond' && Expr.agreesOption step step' &&
      body.agrees body'
  | node _ (.whileLoop cond body), node _ (.whileLoop cond' body') =>
    cond.agrees cond' && body.agrees body'
  | node _ (.doWhile body cond), node _ (.doWhile body' cond') =>
    cond.agrees cond' && body.agrees body'
  | node _ (.returns value), node _ (.returns value') => Expr.agreesOption value value'
  | node _ .breaks, node _ .breaks => true
  | node _ .continues, node _ .continues => true
  | node _ .discards, node _ .discards => true
  | node _ .empty, node _ .empty => true
  | _, _ => false

def agreesAll : List (Stmt ε σ) → List (Stmt ε' σ') → Bool
  | [], [] => true
  | s :: rest, s' :: rest' => s.agrees s' && agreesAll rest rest'
  | _, _ => false

end

/-- Whether two optional statements are both absent or the same. -/
def agreesOption : Option (Stmt ε σ) → Option (Stmt ε' σ') → Bool
  | some s, some s' => s.agrees s'
  | none, none => true
  | _, _ => false

end Stmt

def DeclTree.agrees {ε σ ε' σ' : Type} : DeclTree ε σ → DeclTree ε' σ' → Bool
  | .directive text, .directive text' => text == text'
  | .precision level typeName, .precision level' typeName' =>
    level == level' && typeName == typeName'
  | .struct decl, .struct decl' => decl == decl'
  | .function decl, .function decl' =>
    decl.returnType == decl'.returnType && decl.name == decl'.name && decl.params == decl'.params &&
      Stmt.agreesOption decl.body decl'.body
  | .vars decl, .vars decl' => decl.agrees decl'
  | _, _ => false

def DeclTree.agreesAll {ε σ ε' σ' : Type} :
    List (DeclTree ε σ) → List (DeclTree ε' σ') → Bool
  | [], [] => true
  | d :: rest, d' :: rest' => DeclTree.agrees d d' && agreesAll rest rest'
  | _, _ => false

def Program.agrees (p q : Program) : Bool :=
  p.dialect == q.dialect && DeclTree.agreesAll p.decls q.decls

end ShaderReducer
