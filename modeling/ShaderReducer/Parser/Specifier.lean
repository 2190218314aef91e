import ShaderReducer.Parser.Expr
import ShaderReducer.Text.Number

/-!
# Reading specifiers and declarators

Qualifiers, type names, array sizes, and the declarators of variables.
-/

namespace ShaderReducer

namespace Parser

/-- The value of an integer literal: decimal, or hexadecimal after `0x`; an unsigned suffix does not
count. It has 32 bits. -/
def integerValue? (lexeme : String) : Option Nat :=
  let digits := (lexeme.toList.reverse.dropWhile fun c => c == 'u' || c == 'U').reverse
  match digits with
  | '0' :: 'x' :: hex | '0' :: 'X' :: hex => Text.natural? 16 32 hex
  | _ => Text.natural? 10 32 digits

def arraySize (ts : List Token) : Outcome (Option Nat) (ts.length + 1) :=
  match ts with
  | t :: after => if t.kind = .symbol .lBracket then
      match after with
      | size :: after' =>
        if size.kind = .intLiteral ∨ size.kind = .uintLiteral then
          match integerValue? size.lexeme with
          | some n => Outcome.loosen do
            let ⟨_, rest, h⟩ ← (expectSymbol .rBracket after').since (tail_tail_lt t size after')
            return ⟨some n, rest, h⟩
          | none => .error ⟨.arraySize, size :: after'⟩
        else .error ⟨.arraySize, size :: after'⟩
      | [] => .error ⟨.arraySize, []⟩
    else return .nothing none (t :: after)
  | [] => return .nothing none []

def layoutValue (ts : List Token) : Outcome (Option String) (ts.length + 1) :=
  match ts with
  | t :: after => if t.kind = .symbol .eq then
      match after with
      | value :: rest =>
        if value.kind = .intLiteral ∨ value.kind = .uintLiteral ∨ value.kind = .identifier then
          Outcome.loosen (return ⟨some value.lexeme, rest, tail_tail_lt t value rest⟩)
        else .error ⟨.anotherToken, value :: rest⟩
      | [] => .error ⟨.anotherToken, []⟩
    else return .nothing none (t :: after)
  | [] => return .nothing none []

def layoutItems (ts : List Token) : Outcome (List LayoutItem) ts.length := do
  let ⟨key, rest, h⟩ ← identifier ts
  let ⟨value, rest, h⟩ ← (layoutValue rest).sinceMaybe h
  if headKind rest = .symbol .comma then do
    let ⟨_, rest, h⟩ ← (expectSymbol .comma rest).since h
    let ⟨more, rest, h⟩ ← (layoutItems rest).since h
    return ⟨⟨key, value⟩ :: more, rest, h⟩
  else do
    let ⟨_, rest, h⟩ ← (expectSymbol .rParen rest).since h
    return ⟨[⟨key, value⟩], rest, h⟩
termination_by ts.length
decreasing_by all_goals omega

def plainQualifier? : Keyword → Option Qualifier
  | .kwConst => some .const
  | .kwUniform => some .uniform
  | .kwIn => some .input
  | .kwOut => some .output
  | .kwInout => some .inputOutput
  | .kwAttribute => some .vertexAttribute
  | .kwVarying => some .varying
  | .kwFlat => some .flat
  | .kwInvariant => some .invariant
  | .kwHighp => some (.precision .high)
  | .kwMediump => some (.precision .medium)
  | .kwLowp => some (.precision .low)
  | _ => none

def qualifiers (ts : List Token) : Outcome (List Qualifier) (ts.length + 1) :=
  match ts with
  | t :: after => match t.kind with
    | .keyword .kwLayout => Outcome.loosen do
      let ⟨_, rest, h⟩ ← (expectSymbol .lParen after).since (tail_lt t after)
      let ⟨items, rest, h⟩ ← (layoutItems rest).since h
      let ⟨more, rest, h⟩ ← (qualifiers rest).sinceMaybe h
      return ⟨.layout items :: more, rest, h⟩
    | .keyword word => match plainQualifier? word with
      | some q => Outcome.loosen do
        let ⟨more, rest, h⟩ ← (qualifiers after).sinceMaybe (tail_lt t after)
        return ⟨q :: more, rest, h⟩
      | none => return .nothing [] (t :: after)
    | _ => return .nothing [] (t :: after)
  | [] => return .nothing [] []
termination_by ts.length
decreasing_by
  all_goals simp only [List.length_cons] at *
  all_goals omega

def typeSpec (ts : List Token) : Outcome TypeSpec ts.length := do
  let ⟨qs, rest, h⟩ ← qualifiers ts
  let ⟨typeName, rest, h⟩ ← (name .typeName rest).after h
  return ⟨⟨qs, typeName⟩, rest, h⟩

def initializer (ts : List Token) : Outcome (Option (Expr Unit)) (ts.length + 1) :=
  match ts with
  | t :: after => if t.kind = .symbol .eq then Outcome.loosen do
      let ⟨value, rest, h⟩ ← (assignment after).since (tail_lt t after)
      return ⟨some value, rest, h⟩
    else return .nothing none (t :: after)
  | [] => return .nothing none []

def declarator (name : String) (ts : List Token) :
    Outcome (Declarator (Expr Unit)) (ts.length + 1) := do
  let ⟨size, rest, h⟩ ← arraySize ts
  let ⟨init, rest, h⟩ ← (initializer rest).sinceMaybe h
  return ⟨⟨name, size, init⟩, rest, h⟩

def declaratorsMore (ts : List Token) : Outcome (List (Declarator (Expr Unit))) ts.length :=
  match ts with
  | t :: after => if t.kind = .symbol .comma then do
      let ⟨name, rest, h⟩ ← (identifier after).since (tail_lt t after)
      let ⟨first, rest, h⟩ ← (declarator name rest).sinceMaybe h
      let ⟨more, rest, h⟩ ← (declaratorsMore rest).since h
      return ⟨first :: more, rest, h⟩
    else do
      let ⟨_, rest, h⟩ ← expectSymbol .semicolon (t :: after)
      return ⟨[], rest, h⟩
  | [] => .error ⟨.token (.symbol .semicolon), []⟩
termination_by ts.length
decreasing_by
  all_goals simp only [List.length_cons] at *
  all_goals omega

/-- What follows the type and the first name of a declaration of variables. -/
def varDecl (type : TypeSpec) (name : String) (ts : List Token) :
    Outcome (VarDecl (Expr Unit)) ts.length := do
  let ⟨first, rest, h⟩ ← declarator name ts
  let ⟨more, rest, h⟩ ← (declaratorsMore rest).after h
  return ⟨⟨type, first :: more⟩, rest, h⟩

end Parser

end ShaderReducer
