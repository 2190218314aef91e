import ShaderReducer.Parser.Specifier

/-!
# Reading statements

A statement that starts with a qualifier, or with two names in a row, is a declaration; one that
starts with any other expression is that expression.
-/

namespace ShaderReducer

namespace Parser

def startsDeclaration (ts : List Token) : Bool :=
  match ts with
  | t :: rest => t.kind.isQualifier || (t.kind == .identifier && headKind rest == .identifier)
  | [] => false

def declaration (ts : List Token) : Outcome (VarDecl (Expr Unit)) ts.length := do
  let ⟨type, rest, h⟩ ← typeSpec ts
  let ⟨name, rest, h⟩ ← (identifier rest).since h
  let ⟨decl, rest, h⟩ ← (varDecl type name rest).since h
  return ⟨decl, rest, h⟩

/-- An expression, unless a token that may stand in its place is ahead. -/
def expressionUnless (sign : Symbol) (ts : List Token) :
    Outcome (Option (Expr Unit)) (ts.length + 1) :=
  if headKind ts = .symbol sign then return .nothing none ts
  else Outcome.loosen do
    let ⟨e, rest, h⟩ ← expression ts
    return ⟨some e, rest, h⟩

def expressionStatement (ts : List Token) : Outcome (Stmt Unit Unit) ts.length := do
  let ⟨e, rest, h⟩ ← expression ts
  let ⟨_, rest, h⟩ ← (expectSymbol .semicolon rest).since h
  return ⟨.node () (.expr e), rest, h⟩

def declarationOrExpression (ts : List Token) : Outcome (Stmt Unit Unit) ts.length :=
  if startsDeclaration ts then do
    let ⟨decl, rest, h⟩ ← declaration ts
    return ⟨.node () (.vars decl), rest, h⟩
  else expressionStatement ts

/-- The first part of a loop header: a declaration, an expression or nothing, and a semicolon. -/
def loopStart (ts : List Token) : Outcome (Stmt Unit Unit) ts.length :=
  match ts with
  | t :: after => if t.kind = .symbol .semicolon then
      return .one (.node () .empty) t after
    else declarationOrExpression (t :: after)
  | [] => declarationOrExpression []

def wordStatement (form : StmtNode (Expr Unit) (Stmt Unit Unit)) (ts : List Token) :
    Outcome (Stmt Unit Unit) ts.length := do
  let ⟨_, rest, h⟩ ← expectSymbol .semicolon ts
  return ⟨.node () form, rest, h⟩

def condition (ts : List Token) : Outcome (Expr Unit) ts.length := do
  let ⟨_, rest, h⟩ ← expectSymbol .lParen ts
  let ⟨cond, rest, h⟩ ← (expression rest).since h
  let ⟨_, rest, h⟩ ← (expectSymbol .rParen rest).since h
  return ⟨cond, rest, h⟩

mutual

def statement (ts : List Token) : Outcome (Stmt Unit Unit) ts.length :=
  match ts with
  | t :: after => match t.kind with
    | .symbol .lBrace => do
      let ⟨body, rest, h⟩ ← (blockBody after).since (tail_lt t after)
      return ⟨.node () (.block body), rest, h⟩
    | .keyword .kwIf => do
      let ⟨cond, rest, h⟩ ← (condition after).since (tail_lt t after)
      let ⟨onTrue, rest, h⟩ ← (statement rest).since h
      let ⟨onFalse, rest, h⟩ ← (elseBranch rest).sinceMaybe h
      return ⟨.node () (.ifElse cond onTrue onFalse), rest, h⟩
    | .keyword .kwFor => do
      let ⟨_, rest, h⟩ ← (expectSymbol .lParen after).since (tail_lt t after)
      let ⟨start, rest, h⟩ ← (loopStart rest).since h
      let ⟨cond, rest, h⟩ ← (expressionUnless .semicolon rest).sinceMaybe h
      let ⟨_, rest, h⟩ ← (expectSymbol .semicolon rest).since h
      let ⟨step, rest, h⟩ ← (expressionUnless .rParen rest).sinceMaybe h
      let ⟨_, rest, h⟩ ← (expectSymbol .rParen rest).since h
      let ⟨body, rest, h⟩ ← (statement rest).since h
      return ⟨.node () (.forLoop start cond step body), rest, h⟩
    | .keyword .kwWhile => do
      let ⟨cond, rest, h⟩ ← (condition after).since (tail_lt t after)
      let ⟨body, rest, h⟩ ← (statement rest).since h
      return ⟨.node () (.whileLoop cond body), rest, h⟩
    | .keyword .kwDo => do
      let ⟨body, rest, h⟩ ← (statement after).since (tail_lt t after)
      let ⟨_, rest, h⟩ ← (expectKeyword .kwWhile rest).since h
      let ⟨cond, rest, h⟩ ← (condition rest).since h
      let ⟨_, rest, h⟩ ← (expectSymbol .semicolon rest).since h
      return ⟨.node () (.doWhile body cond), rest, h⟩
    | .keyword .kwReturn => do
      let ⟨value, rest, h⟩ ← (expressionUnless .semicolon after).sinceMaybe (tail_lt t after)
      let ⟨_, rest, h⟩ ← (expectSymbol .semicolon rest).since h
      return ⟨.node () (.returns value), rest, h⟩
    | .keyword .kwBreak => do
      let ⟨s, rest, h⟩ ← (wordStatement .breaks after).since (tail_lt t after)
      return ⟨s, rest, h⟩
    | .keyword .kwContinue => do
      let ⟨s, rest, h⟩ ← (wordStatement .continues after).since (tail_lt t after)
      return ⟨s, rest, h⟩
    | .keyword .kwDiscard => do
      let ⟨s, rest, h⟩ ← (wordStatement .discards after).since (tail_lt t after)
      return ⟨s, rest, h⟩
    | .symbol .semicolon => return .one (.node () .empty) t after
    | _ => declarationOrExpression (t :: after)
  | [] => declarationOrExpression []
termination_by 8 * ts.length + 1
decreasing_by
  all_goals simp only [List.length_cons] at *
  all_goals omega

def elseBranch (ts : List Token) : Outcome (Option (Stmt Unit Unit)) (ts.length + 1) :=
  match ts with
  | t :: after => if t.kind = .keyword .kwElse then Outcome.loosen do
      let ⟨s, rest, h⟩ ← (statement after).since (tail_lt t after)
      return ⟨some s, rest, h⟩
    else return .nothing none (t :: after)
  | [] => return .nothing none []
termination_by 8 * ts.length + 0
decreasing_by
  all_goals simp only [List.length_cons] at *
  all_goals omega

def blockBody (ts : List Token) : Outcome (List (Stmt Unit Unit)) ts.length :=
  match ts with
  | t :: after => if t.kind = .symbol .rBrace then return .one [] t after
    else do
      let ⟨first, rest, h⟩ ← statement (t :: after)
      let ⟨more, rest, h⟩ ← (blockBody rest).since h
      return ⟨first :: more, rest, h⟩
  | [] => .error ⟨.token (.symbol .rBrace), []⟩
termination_by 8 * ts.length + 2
decreasing_by
  all_goals simp only [List.length_cons] at *
  all_goals omega

end

def block (ts : List Token) : Outcome (Stmt Unit Unit) ts.length := do
  let ⟨_, rest, h⟩ ← expectSymbol .lBrace ts
  let ⟨body, rest, h⟩ ← (blockBody rest).since h
  return ⟨.node () (.block body), rest, h⟩

end Parser

end ShaderReducer
