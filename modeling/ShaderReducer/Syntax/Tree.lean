import ShaderReducer.Syntax.Node
import ShaderReducer.Version

/-!
# Syntax trees

Expressions and statements as trees whose nodes carry a tag: `ε` for expressions and `σ` for
statements. Syntax as it is read and printed has `Unit` tags; a tree read from a shader carries the
slot of each node. `erase` forgets the tags.

A `Program` is the syntax of a whole shader.
-/

namespace ShaderReducer

inductive Expr (ε : Type) where
  | node (tag : ε) (form : ExprNode (Expr ε))

inductive Stmt (ε σ : Type) where
  | node (tag : σ) (form : StmtNode (Expr ε) (Stmt ε σ))

abbrev DeclTree (ε σ : Type) : Type := Decl (Expr ε) (Stmt ε σ)

namespace Expr

variable {ε : Type}

def tag : Expr ε → ε
  | node tag _ => tag

def form : Expr ε → ExprNode (Expr ε)
  | node _ form => form

def precedence (e : Expr ε) : Nat :=
  e.form.precedence

/-- An expression without the parentheses around it. -/
def stripParens : Expr ε → Expr ε
  | node _ (.paren inner) => inner.stripParens
  | e => e

mutual

def erase : Expr ε → Expr Unit
  | node _ (.literal value) => node () (.literal value)
  | node _ (.ident name) => node () (.ident name)
  | node _ (.paren inner) => node () (.paren inner.erase)
  | node _ (.unary op operand) => node () (.unary op operand.erase)
  | node _ (.binary op lhs rhs) => node () (.binary op lhs.erase rhs.erase)
  | node _ (.ternary cond onTrue onFalse) =>
    node () (.ternary cond.erase onTrue.erase onFalse.erase)
  | node _ (.call callee args) => node () (.call callee (eraseAll args))
  | node _ (.member base field) => node () (.member base.erase field)
  | node _ (.index base offset) => node () (.index base.erase offset.erase)

def eraseAll : List (Expr ε) → List (Expr Unit)
  | [] => []
  | e :: rest => e.erase :: eraseAll rest

end

mutual

/-- An expression and all expressions below it, each before its parts, with their depths; the
expression itself is at depth `depth`. -/
def visits (depth : Nat) : Expr ε → List (Nat × Expr ε)
  | e@(node _ (.literal _)) | e@(node _ (.ident _)) => [(depth, e)]
  | e@(node _ (.paren inner)) => (depth, e) :: inner.visits (depth + 1)
  | e@(node _ (.unary _ operand)) => (depth, e) :: operand.visits (depth + 1)
  | e@(node _ (.binary _ lhs rhs)) =>
    (depth, e) :: (lhs.visits (depth + 1) ++ rhs.visits (depth + 1))
  | e@(node _ (.ternary cond onTrue onFalse)) =>
    (depth, e) :: (cond.visits (depth + 1) ++ (onTrue.visits (depth + 1) ++
      onFalse.visits (depth + 1)))
  | e@(node _ (.call _ args)) => (depth, e) :: visitsAll (depth + 1) args
  | e@(node _ (.member base _)) => (depth, e) :: base.visits (depth + 1)
  | e@(node _ (.index base offset)) =>
    (depth, e) :: (base.visits (depth + 1) ++ offset.visits (depth + 1))

def visitsAll (depth : Nat) : List (Expr ε) → List (Nat × Expr ε)
  | [] => []
  | e :: rest => e.visits depth ++ visitsAll depth rest

end

def subexprs (e : Expr ε) : List (Expr ε) :=
  (e.visits 0).map Prod.snd

end Expr

namespace Stmt

variable {ε σ : Type}

def tag : Stmt ε σ → σ
  | node tag _ => tag

def form : Stmt ε σ → StmtNode (Expr ε) (Stmt ε σ)
  | node _ form => form

mutual

def erase : Stmt ε σ → Stmt Unit Unit
  | node _ (.block body) => node () (.block (eraseAll body))
  | node _ (.vars decl) => node () (.vars (decl.map Expr.erase))
  | node _ (.expr value) => node () (.expr value.erase)
  | node _ (.ifElse cond onTrue none) => node () (.ifElse cond.erase onTrue.erase none)
  | node _ (.ifElse cond onTrue (some onFalse)) =>
    node () (.ifElse cond.erase onTrue.erase (some onFalse.erase))
  | node _ (.forLoop start cond step body) =>
    node () (.forLoop start.erase (cond.map Expr.erase) (step.map Expr.erase) body.erase)
  | node _ (.whileLoop cond body) => node () (.whileLoop cond.erase body.erase)
  | node _ (.doWhile body cond) => node () (.doWhile body.erase cond.erase)
  | node _ (.returns value) => node () (.returns (value.map Expr.erase))
  | node _ .breaks => node () .breaks
  | node _ .continues => node () .continues
  | node _ .discards => node () .discards
  | node _ .empty => node () .empty

def eraseAll : List (Stmt ε σ) → List (Stmt Unit Unit)
  | [] => []
  | s :: rest => s.erase :: eraseAll rest

end

mutual

/-- A statement and all statements below it, each before its parts, with their depths; the statement
itself is at depth `depth`. -/
def visits (depth : Nat) : Stmt ε σ → List (Nat × Stmt ε σ)
  | s@(node _ (.block body)) => (depth, s) :: visitsAll (depth + 1) body
  | s@(node _ (.ifElse _ onTrue none)) => (depth, s) :: onTrue.visits (depth + 1)
  | s@(node _ (.ifElse _ onTrue (some onFalse))) =>
    (depth, s) :: (onTrue.visits (depth + 1) ++ onFalse.visits (depth + 1))
  | s@(node _ (.forLoop start _ _ body)) =>
    (depth, s) :: (start.visits (depth + 1) ++ body.visits (depth + 1))
  | s@(node _ (.whileLoop _ body)) => (depth, s) :: body.visits (depth + 1)
  | s@(node _ (.doWhile body _)) => (depth, s) :: body.visits (depth + 1)
  | s@(node _ (.vars _)) | s@(node _ (.expr _)) | s@(node _ (.returns _)) | s@(node _ .breaks)
  | s@(node _ .continues) | s@(node _ .discards) | s@(node _ .empty) => [(depth, s)]

def visitsAll (depth : Nat) : List (Stmt ε σ) → List (Nat × Stmt ε σ)
  | [] => []
  | s :: rest => s.visits depth ++ visitsAll depth rest

end

mutual

/-- All expressions in a statement at depth `depth`, in the order they are written in, with their
depths. -/
def exprVisits (depth : Nat) : Stmt ε σ → List (Nat × Expr ε)
  | node _ (.block body) => exprVisitsAll (depth + 1) body
  | node _ (.vars decl) => decl.inits.flatMap (Expr.visits (depth + 1))
  | node _ (.expr value) => value.visits (depth + 1)
  | node _ (.ifElse cond onTrue none) => cond.visits (depth + 1) ++ onTrue.exprVisits (depth + 1)
  | node _ (.ifElse cond onTrue (some onFalse)) =>
    cond.visits (depth + 1) ++
      (onTrue.exprVisits (depth + 1) ++ onFalse.exprVisits (depth + 1))
  | node _ (.forLoop start cond step body) =>
    start.exprVisits (depth + 1) ++ (cond.toList.flatMap (Expr.visits (depth + 1)) ++
      (step.toList.flatMap (Expr.visits (depth + 1)) ++ body.exprVisits (depth + 1)))
  | node _ (.whileLoop cond body) => cond.visits (depth + 1) ++ body.exprVisits (depth + 1)
  | node _ (.doWhile body cond) => body.exprVisits (depth + 1) ++ cond.visits (depth + 1)
  | node _ (.returns value) => value.toList.flatMap (Expr.visits (depth + 1))
  | node _ .breaks | node _ .continues | node _ .discards | node _ .empty => []

def exprVisitsAll (depth : Nat) : List (Stmt ε σ) → List (Nat × Expr ε)
  | [] => []
  | s :: rest => s.exprVisits depth ++ exprVisitsAll depth rest

end

end Stmt

namespace DeclTree

variable {ε σ : Type}

def erase (d : DeclTree ε σ) : DeclTree Unit Unit :=
  d.map Expr.erase Stmt.erase

/-- All statements of a declaration, with their depths; the declaration itself is at depth zero. -/
def stmtVisits (d : DeclTree ε σ) : List (Nat × Stmt ε σ) :=
  match d with
  | .function decl => decl.body.toList.flatMap (Stmt.visits 1)
  | _ => []

def exprVisits (d : DeclTree ε σ) : List (Nat × Expr ε) :=
  match d with
  | .function decl => decl.body.toList.flatMap (Stmt.exprVisits 1)
  | .vars decl => decl.inits.flatMap (Expr.visits 1)
  | _ => []

end DeclTree

structure Program where
  version : Option Version
  decls : List (DeclTree Unit Unit)

def Program.dialect (p : Program) : Version :=
  p.version.getD Version.implicit

end ShaderReducer
