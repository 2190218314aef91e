import ShaderReducer.Parser.Stmt
import ShaderReducer.Token.Lexer

/-!
# Reading programs

A program is a row of declarations, after a version directive where there is one. A directive counts
as one for the version only as the first token of the text, and then it has to be well formed;
`Program.parse` reads the program that a text stands for.
-/

namespace ShaderReducer

namespace Parser

def fieldsMore (type : TypeSpec) (ts : List Token) : Outcome (List FieldDecl) ts.length :=
  match ts with
  | t :: after => if t.kind = .symbol .comma then do
      let ⟨name, rest, h⟩ ← (identifier after).since (tail_lt t after)
      let ⟨size, rest, h⟩ ← (arraySize rest).sinceMaybe h
      let ⟨more, rest, h⟩ ← (fieldsMore type rest).since h
      return ⟨⟨type, name, size⟩ :: more, rest, h⟩
    else do
      let ⟨_, rest, h⟩ ← expectSymbol .semicolon (t :: after)
      return ⟨[], rest, h⟩
  | [] => .error ⟨.token (.symbol .semicolon), []⟩
termination_by ts.length
decreasing_by
  all_goals simp only [List.length_cons] at *
  all_goals omega

def structFields (ts : List Token) : Outcome (List FieldDecl) ts.length :=
  match ts with
  | t :: after => if t.kind = .symbol .rBrace then return .one [] t after
    else do
      let ⟨type, rest, h⟩ ← typeSpec (t :: after)
      let ⟨name, rest, h⟩ ← (identifier rest).since h
      let ⟨size, rest, h⟩ ← (arraySize rest).sinceMaybe h
      let ⟨same, rest, h⟩ ← (fieldsMore type rest).since h
      let ⟨more, rest, h⟩ ← (structFields rest).since h
      return ⟨⟨type, name, size⟩ :: (same ++ more), rest, h⟩
  | [] => .error ⟨.token (.symbol .rBrace), []⟩
termination_by ts.length
decreasing_by
  all_goals simp only [List.length_cons] at *
  all_goals omega

def structDecl (ts : List Token) : Outcome StructDecl ts.length := do
  let ⟨name, rest, h⟩ ← identifier ts
  let ⟨_, rest, h⟩ ← (expectSymbol .lBrace rest).since h
  let ⟨fields, rest, h⟩ ← (structFields rest).since h
  let ⟨_, rest, h⟩ ← (expectSymbol .semicolon rest).since h
  return ⟨⟨name, fields⟩, rest, h⟩

def precision? (t : Token) : Option Precision :=
  match t.kind with
  | .keyword .kwHighp => some .high
  | .keyword .kwMediump => some .medium
  | .keyword .kwLowp => some .low
  | _ => none

def precisionDecl (ts : List Token) : Outcome (DeclTree Unit Unit) ts.length :=
  match ts with
  | t :: after =>
    match precision? t with
    | some level => do
      let ⟨typeName, rest, h⟩ ← (name .typeName after).since (tail_lt t after)
      let ⟨_, rest, h⟩ ← (expectSymbol .semicolon rest).since h
      return ⟨.precision level typeName, rest, h⟩
    | none => .error ⟨.anotherToken, t :: after⟩
  | [] => .error ⟨.anotherToken, []⟩

def param (ts : List Token) : Outcome Param ts.length := do
  let ⟨type, rest, h⟩ ← typeSpec ts
  if headKind rest = .identifier then do
    let ⟨name, rest, h⟩ ← (identifier rest).since h
    let ⟨size, rest, h⟩ ← (arraySize rest).sinceMaybe h
    return ⟨⟨type, some name, size⟩, rest, h⟩
  else return ⟨⟨type, none, none⟩, rest, h⟩

def paramsMore (ts : List Token) : Outcome (List Param) ts.length :=
  match ts with
  | t :: after => if t.kind = .symbol .comma then do
      let ⟨next, rest, h⟩ ← (param after).since (tail_lt t after)
      let ⟨more, rest, h⟩ ← (paramsMore rest).since h
      return ⟨next :: more, rest, h⟩
    else do
      let ⟨_, rest, h⟩ ← expectSymbol .rParen (t :: after)
      return ⟨[], rest, h⟩
  | [] => .error ⟨.token (.symbol .rParen), []⟩
termination_by ts.length
decreasing_by
  all_goals simp only [List.length_cons] at *
  all_goals omega

def params (ts : List Token) : Outcome (List Param) ts.length :=
  if headKind ts = .symbol .rParen then do
    let ⟨_, rest, h⟩ ← expectSymbol .rParen ts
    return ⟨[], rest, h⟩
  else do
    let ⟨first, rest, h⟩ ← param ts
    let ⟨more, rest, h⟩ ← (paramsMore rest).since h
    return ⟨first :: more, rest, h⟩

def withoutVoid (ps : List Param) : List Param :=
  match ps with
  | [⟨⟨[], "void"⟩, none, _⟩] => []
  | _ => ps

def functionBody (ts : List Token) : Outcome (Option (Stmt Unit Unit)) ts.length :=
  if headKind ts = .symbol .semicolon then do
    let ⟨_, rest, h⟩ ← expectSymbol .semicolon ts
    return ⟨none, rest, h⟩
  else if headKind ts = .symbol .lBrace then do
    let ⟨body, rest, h⟩ ← block ts
    return ⟨some body, rest, h⟩
  else .error ⟨.anotherToken, ts⟩

/-- What follows a type and a name at top level: the parameters and body of a function, or the
declarators of variables. -/
def functionOrVars (type : TypeSpec) (name : String) (ts : List Token) :
    Outcome (DeclTree Unit Unit) ts.length :=
  if headKind ts = .symbol .lParen then do
    let ⟨_, rest, h⟩ ← expectSymbol .lParen ts
    let ⟨ps, rest, h⟩ ← (params rest).since h
    let ⟨body, rest, h⟩ ← (functionBody rest).since h
    return ⟨.function ⟨type, name, withoutVoid ps, body⟩, rest, h⟩
  else do
    let ⟨decl, rest, h⟩ ← varDecl type name ts
    return ⟨.vars decl, rest, h⟩

/-- A declaration at top level, or a stray semicolon, which stands for nothing. -/
def topLevel (ts : List Token) : Outcome (Option (DeclTree Unit Unit)) ts.length :=
  match ts with
  | t :: after =>
    if t.kind = .directive then return .one (some (.directive t.lexeme)) t after
    else if t.kind = .symbol .semicolon then return .one none t after
    else if t.kind = .keyword .kwPrecision then do
      let ⟨decl, rest, h⟩ ← (precisionDecl after).since (tail_lt t after)
      return ⟨some decl, rest, h⟩
    else if t.kind = .keyword .kwStruct then do
      let ⟨decl, rest, h⟩ ← (structDecl after).since (tail_lt t after)
      return ⟨some (.struct decl), rest, h⟩
    else if t.kind = .identifier ∨ t.kind.isQualifier = true then do
      let ⟨type, rest, h⟩ ← typeSpec (t :: after)
      let ⟨name, rest, h⟩ ← (identifier rest).since h
      let ⟨decl, rest, h⟩ ← (functionOrVars type name rest).since h
      return ⟨some decl, rest, h⟩
    else .error ⟨.declaration, t :: after⟩
  | [] => .error ⟨.declaration, []⟩

def declarations (ts : List Token) : Except Failure (List (DeclTree Unit Unit)) :=
  match ts with
  | [] => return []
  | t :: after => do
    let ⟨decl, rest, _⟩ ← topLevel (t :: after)
    let more ← declarations rest
    return decl.toList ++ more
termination_by ts.length
decreasing_by
  all_goals simp only [List.length_cons] at *
  all_goals omega

def isVersionDirective (t : Token) : Bool :=
  t.kind == .directive && Text.occursIn "version".toList t.lexeme.toList

def program (ts : List Token) : Except Failure Program :=
  match ts with
  | t :: after =>
    if isVersionDirective t then
      match Version.ofDirective? t.lexeme with
      | some version => do return ⟨some version, ← declarations after⟩
      | none => .error ⟨.versionDirective, t :: after⟩
    else do return ⟨none, ← declarations (t :: after)⟩
  | [] => return ⟨none, []⟩

end Parser

def Program.parse (source : String) : Except ParseError Program :=
  let stream := TokenStream.ofText source
  (Parser.program stream.tokens).mapError (Parser.Failure.toError stream)

end ShaderReducer
