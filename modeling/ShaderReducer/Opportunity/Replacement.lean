import ShaderReducer.Opportunity.Basic

/-!
# What may stand for an expression

An expression may be replaced by a part of itself or by a constant.
-/

namespace ShaderReducer

/-! ## From operations to operands

An operation may be replaced by an operand of the same type. What is written to may only be replaced
by what keeps its storage, which is the value that an element is taken of. -/

namespace SubExpr

/-- Whether an expression is an operation that does not write. -/
def isOperation {ρ : Type} : ExprNode ρ → Bool
  | .binary op _ _ => !op.isAssignment
  | .unary op _ => !op.writesOperand
  | .ternary _ _ _ | .call _ _ | .index _ _ => true
  | .literal _ | .ident _ | .paren _ | .member _ _ => false

def keepsStorage (node : ExprNode ExprId) (child : ExprId) : Bool :=
  match node with
  | .index base _ => base == child
  | _ => false

def holds (s : Shader) (target child : ExprId) : Bool :=
  s.isExprLive target && s.isExprLive child && (s.expr target).children.contains child

def operands (a : Analysis) (e : Expr ExprId) : List ExprId :=
  let node := e.form.map Expr.tag
  if isOperation node && !a.callables.writesArguments e && a.scope.containsExpr e.tag then
    match a.types.get? e.tag with
    | some type => node.children.filter fun child =>
        a.types.get? child == some type && (!a.isWritten e.tag || keepsStorage node child)
    | none => []
  else []

def find (s : Shader) (a : Analysis) : List Opportunity :=
  s.exprVisits.flatMap fun (depth, e) =>
    (operands a e).map fun child => ⟨depth, .toSubExpr e.tag child⟩

end SubExpr

/-! ## From expressions to constants

A scalar or vector that is only read may be replaced by the constant one, or true, of its type. -/

namespace Constant

/-- The literal for a component. Unsigned literals are not a part of every dialect. -/
def element? (unsigned : Bool) : ScalarKind → Option Literal
  | .int => some (.int "1")
  | .uint => if unsigned then some (.uint "1u") else none
  | .float => some (.float "1.0")
  | .bool => some (.bool true)

def ofType? (unsigned : Bool) : Ty → Option Constant
  | .scalar kind => (element? unsigned kind).map .scalar
  | .vector kind width =>
    (element? unsigned kind).map (.vector (Ty.vector kind width).text)
  | _ => none

def isAt (constant : Constant) (s : Shader) (id : ExprId) : Bool :=
  match constant, s.expr id with
  | .scalar value, .literal value' => value == value'
  | .vector constructor element, .call callee [arg] =>
    callee == constructor && match s.expr arg with
      | .literal value => value == element
      | _ => false
  | _, _ => false

def holds (s : Shader) (target : ExprId) (constant : Constant) : Bool :=
  s.isExprLive target && !constant.isAt s target

def apply (s : Shader) (target : ExprId) (constant : Constant) : Shader :=
  match constant with
  | .scalar value => s.replaceWithLeaf target (.literal value)
  | .vector constructor element =>
    let (arg, s) := s.addExpr (.literal element)
    s.replaceWithLeaf target (.call constructor [arg])

/-- Whether a constant may take the place of an expression of some form. A literal is constant
already, parentheses leave it to what is inside, and what writes is a matter for statements. -/
def isReplaceable {ρ : Type} : ExprNode ρ → Bool
  | .literal _ | .paren _ => false
  | .binary op _ _ => !op.isAssignment
  | .unary op _ => !op.writesOperand
  | _ => true

def replacement? (s : Shader) (a : Analysis) (e : Expr ExprId) : Option Constant :=
  if isReplaceable e.form && !a.isWritten e.tag && !a.callables.writesArguments e &&
      a.scope.containsExpr e.tag then do
    let type ← a.types.get? e.tag
    let constant ← ofType? a.dialect.supportsUnsigned type
    if constant.isAt s e.tag then none else some constant
  else none

def find (s : Shader) (a : Analysis) : List Opportunity :=
  s.exprVisits.filterMap fun (depth, e) =>
    (replacement? s a e).map fun constant => ⟨depth, .toConstant e.tag constant⟩

end Constant

end ShaderReducer
