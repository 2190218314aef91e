import ShaderReducer.Parser.Basic
import ShaderReducer.Syntax.Tree
import ShaderReducer.Token.Operator

/-!
# Reading expressions

The rules for the comma, assignment and the conditional stand above one rule for all binary
operators: `binary least` reads operands joined by operators that bind more tightly than `least`,
and groups them to the left.

Each rule that reads a row of parts has a second one for what follows the first part, under the name
of the first with `More`.
-/

namespace ShaderReducer

namespace Parser

mutual

def expression (ts : List Token) : Outcome (Expr Unit) ts.length := do
  let ⟨first, rest, h⟩ ← assignment ts
  let ⟨e, rest, h⟩ ← (expressionMore first rest).sinceMaybe h
  return ⟨e, rest, h⟩
termination_by 8 * ts.length + 6
decreasing_by all_goals omega

def expressionMore (left : Expr Unit) (ts : List Token) : Outcome (Expr Unit) (ts.length + 1) :=
  match ts with
  | t :: after => if t.kind = .symbol .comma then Outcome.loosen do
      let ⟨right, rest, h⟩ ← (assignment after).since (tail_lt t after)
      let ⟨e, rest, h⟩ ← (expressionMore (.node () (.binary .comma left right)) rest).sinceMaybe h
      return ⟨e, rest, h⟩
    else return .nothing left (t :: after)
  | [] => return .nothing left []
termination_by 8 * ts.length + 7
decreasing_by
  all_goals simp only [List.length_cons] at *
  all_goals omega

def assignment (ts : List Token) : Outcome (Expr Unit) ts.length := do
  let ⟨left, rest, h⟩ ← conditional ts
  let ⟨e, rest, h⟩ ← (assignmentMore left rest).sinceMaybe h
  return ⟨e, rest, h⟩
termination_by 8 * ts.length + 5
decreasing_by all_goals omega

def assignmentMore (left : Expr Unit) (ts : List Token) : Outcome (Expr Unit) (ts.length + 1) :=
  match ts with
  | t :: after => match t.kind.assignmentOp? with
    | some op => Outcome.loosen do
      let ⟨right, rest, h⟩ ← (assignment after).since (tail_lt t after)
      return ⟨.node () (.binary op left right), rest, h⟩
    | none => return .nothing left (t :: after)
  | [] => return .nothing left []
termination_by 8 * ts.length + 7
decreasing_by
  all_goals simp only [List.length_cons] at *
  all_goals omega

def conditional (ts : List Token) : Outcome (Expr Unit) ts.length := do
  let ⟨cond, rest, h⟩ ← binary Precedence.conditional ts
  let ⟨e, rest, h⟩ ← (conditionalMore cond rest).sinceMaybe h
  return ⟨e, rest, h⟩
termination_by 8 * ts.length + 4
decreasing_by all_goals omega

def conditionalMore (cond : Expr Unit) (ts : List Token) : Outcome (Expr Unit) (ts.length + 1) :=
  match ts with
  | t :: after => if t.kind = .symbol .question then Outcome.loosen do
      let ⟨onTrue, rest, h⟩ ← (expression after).since (tail_lt t after)
      let ⟨_, rest, h⟩ ← (expectSymbol .colon rest).since h
      let ⟨onFalse, rest, h⟩ ← (assignment rest).since h
      return ⟨.node () (.ternary cond onTrue onFalse), rest, h⟩
    else return .nothing cond (t :: after)
  | [] => return .nothing cond []
termination_by 8 * ts.length + 7
decreasing_by
  all_goals simp only [List.length_cons] at *
  all_goals omega

def binary (least : Nat) (ts : List Token) : Outcome (Expr Unit) ts.length := do
  let ⟨first, rest, h⟩ ← unary ts
  let ⟨e, rest, h⟩ ← (binaryMore least first rest).sinceMaybe h
  return ⟨e, rest, h⟩
termination_by 8 * ts.length + 3
decreasing_by all_goals omega

def binaryMore (least : Nat) (left : Expr Unit) (ts : List Token) :
    Outcome (Expr Unit) (ts.length + 1) :=
  match ts with
  | t :: after => match t.kind.binaryOp? with
    | some op => if least < op.precedence then Outcome.loosen do
        let ⟨right, rest, h⟩ ← (binary op.precedence after).since (tail_lt t after)
        let ⟨e, rest, h⟩ ← (binaryMore least (.node () (.binary op left right)) rest).sinceMaybe h
        return ⟨e, rest, h⟩
      else return .nothing left (t :: after)
    | none => return .nothing left (t :: after)
  | [] => return .nothing left []
termination_by 8 * ts.length + 7
decreasing_by
  all_goals simp only [List.length_cons] at *
  all_goals omega

def unary (ts : List Token) : Outcome (Expr Unit) ts.length :=
  match ts with
  | t :: after => match t.kind.leadingOp? with
    | some op => do
      let ⟨operand, rest, h⟩ ← (unary after).since (tail_lt t after)
      return ⟨.node () (.unary op operand), rest, h⟩
    | none => access (t :: after)
  | [] => access []
termination_by 8 * ts.length + 2
decreasing_by
  all_goals try simp only [List.length_cons] at *
  all_goals omega

def access (ts : List Token) : Outcome (Expr Unit) ts.length := do
  let ⟨base, rest, h⟩ ← primary ts
  let ⟨e, rest, h⟩ ← (accessMore base rest).sinceMaybe h
  return ⟨e, rest, h⟩
termination_by 8 * ts.length + 1
decreasing_by all_goals omega

def accessMore (base : Expr Unit) (ts : List Token) : Outcome (Expr Unit) (ts.length + 1) :=
  match ts with
  | t :: after => match t.kind with
    | .symbol .lBracket => Outcome.loosen do
      let ⟨offset, rest, h⟩ ← (expression after).since (tail_lt t after)
      let ⟨_, rest, h⟩ ← (expectSymbol .rBracket rest).since h
      let ⟨e, rest, h⟩ ← (accessMore (.node () (.index base offset)) rest).sinceMaybe h
      return ⟨e, rest, h⟩
    | .symbol .dot => Outcome.loosen do
      let ⟨field, rest, h⟩ ← (identifier after).since (tail_lt t after)
      let ⟨e, rest, h⟩ ← (accessMore (.node () (.member base field)) rest).sinceMaybe h
      return ⟨e, rest, h⟩
    | .symbol .plusPlus => Outcome.loosen do
      let counted := .node () (.unary .postInc base)
      let ⟨e, rest, h⟩ ← (accessMore counted after).sinceMaybe (tail_lt t after)
      return ⟨e, rest, h⟩
    | .symbol .minusMinus => Outcome.loosen do
      let counted := .node () (.unary .postDec base)
      let ⟨e, rest, h⟩ ← (accessMore counted after).sinceMaybe (tail_lt t after)
      return ⟨e, rest, h⟩
    | _ => return .nothing base (t :: after)
  | [] => return .nothing base []
termination_by 8 * ts.length + 7
decreasing_by
  all_goals simp only [List.length_cons] at *
  all_goals omega

def primary (ts : List Token) : Outcome (Expr Unit) ts.length :=
  match ts with
  | t :: after => match t.kind with
    | .intLiteral => return .one (.node () (.literal (.int t.lexeme))) t after
    | .uintLiteral => return .one (.node () (.literal (.uint t.lexeme))) t after
    | .floatLiteral => return .one (.node () (.literal (.float t.lexeme))) t after
    | .keyword .kwTrue => return .one (.node () (.literal (.bool true))) t after
    | .keyword .kwFalse => return .one (.node () (.literal (.bool false))) t after
    | .identifier => match after with
      | t' :: after' => if t'.kind = .symbol .lParen then do
          let ⟨args, rest, h⟩ ← (arguments after').since (tail_tail_lt t t' after')
          return ⟨.node () (.call t.lexeme args), rest, h⟩
        else return .one (.node () (.ident t.lexeme)) t (t' :: after')
      | [] => return .one (.node () (.ident t.lexeme)) t []
    | .symbol .lParen => do
      let ⟨inner, rest, h⟩ ← (expression after).since (tail_lt t after)
      let ⟨_, rest, h⟩ ← (expectSymbol .rParen rest).since h
      return ⟨.node () (.paren inner), rest, h⟩
    | _ => .error ⟨.expression, t :: after⟩
  | [] => .error ⟨.expression, []⟩
termination_by 8 * ts.length + 0
decreasing_by
  all_goals simp only [List.length_cons] at *
  all_goals omega

def arguments (ts : List Token) : Outcome (List (Expr Unit)) ts.length :=
  match ts with
  | t :: after => if t.kind = .symbol .rParen then return .one [] t after
    else do
      let ⟨first, rest, h⟩ ← assignment (t :: after)
      let ⟨more, rest, h⟩ ← (argumentsMore rest).since h
      return ⟨first :: more, rest, h⟩
  | [] => .error ⟨.expression, []⟩
termination_by 8 * ts.length + 6
decreasing_by
  all_goals simp only [List.length_cons] at *
  all_goals omega

def argumentsMore (ts : List Token) : Outcome (List (Expr Unit)) ts.length :=
  match ts with
  | t :: after => if t.kind = .symbol .comma then do
      let ⟨next, rest, h⟩ ← (assignment after).since (tail_lt t after)
      let ⟨more, rest, h⟩ ← (argumentsMore rest).since h
      return ⟨next :: more, rest, h⟩
    else do
      let ⟨_, rest, h⟩ ← expectSymbol .rParen (t :: after)
      return ⟨[], rest, h⟩
  | [] => .error ⟨.token (.symbol .rParen), []⟩
termination_by 8 * ts.length + 7
decreasing_by
  all_goals simp only [List.length_cons] at *
  all_goals omega

end

end Parser

end ShaderReducer
