import ShaderReducer.Parser.Program
import ShaderReducer.Shader.Tree

/-!
# Reading a shader in one pass

`Program.parse` reads a tree from all the tokens of a text. The reader takes the tokens from the
lexer one at a time and puts each node into a slot of a shader as soon as the parts of the node are
read. The rules are those of the grammar, one for one.

Of the errors of the lexer the reader keeps one. It asks for them only when the token it comes to is
malformed and it has kept none so far, and where it looks one token ahead it does so on a copy of
the lexer. A rule that fails at a malformed token reports the error that was kept.

A rule that calls itself has a bound on how often it may do so, and no answer beyond it. The bound is
taken from the text ahead and is never reached.
-/

namespace ShaderReducer

/-- The reader between two tokens: the lexer behind the current token, and what has been made. -/
structure Reader where
  lexer : Lexer.State
  current : Token
  kept : Option LexicalError
  shader : Shader

namespace Reader

open ShaderReducer.Parser (plainQualifier? integerValue? precision? withoutVoid isVersionDirective)

def start (source : String) : Reader :=
  let (current, lexer) := (Lexer.State.ofText source).next
  let (errors, lexer) := lexer.takeErrors
  ⟨lexer, current, errors.head?, {}⟩

def advance (r : Reader) : Reader :=
  let (next, lexer) := r.lexer.next
  if next.kind.isMalformed && r.kept.isNone then
    let (errors, lexer) := lexer.takeErrors
    { r with lexer := lexer, current := next, kept := errors.head? }
  else { r with lexer := lexer, current := next }

/-- The token after the current one; the lexer stays where it is. -/
def peek (r : Reader) : Token :=
  r.lexer.next.1

def error (r : Reader) (expected : Expectation) : ParseError :=
  match r.current.kind, r.kept with
  | .malformed _, some first => ⟨.lexical first.defect, r.current.span⟩
  | _, _ => ⟨.missing expected r.current.lexeme, r.current.span⟩

abbrev Rule (α : Type) : Type :=
  StateT Reader (ExceptT ParseError Option) α

/-! ## Single tokens and single slots -/

def current? : Rule Token := fun r => pure (r.current, r)

def kind : Rule TokenKind := fun r => pure (r.current.kind, r)

def shift : Rule Unit := fun r => pure ((), r.advance)

def fail {α : Type} (expected : Expectation) : Rule α := fun r => throw (r.error expected)

def noAnswer {α : Type} : Rule α := fun _ => ExceptT.mk none

/-- A rule with enough calls for the text ahead: no more tokens follow than characters, and eight
calls lead from one token to the next. -/
def bounded {α : Type} (rule : Nat → Rule α) : Rule α := fun r =>
  rule (8 * r.lexer.ahead.length + 16) r

def accept (wanted : TokenKind) : Rule Bool := do
  if (← kind) = wanted then
    shift
    return true
  else return false

def expect (wanted : TokenKind) : Rule Unit := do
  if (← kind) = wanted then shift else fail (.token wanted)

def name (expected : Expectation) : Rule String := do
  let t ← current?
  if t.kind = .identifier then
    shift
    return t.lexeme
  else fail expected

def identifier : Rule String :=
  name .identifier

def newExpr (node : ExprNode ExprId) : Rule ExprId := fun r =>
  let (id, shader) := r.shader.addExpr node
  pure (id, { r with shader := shader })

def newStmt (node : StmtNode ExprId StmtId) : Rule StmtId := fun r =>
  let (id, shader) := r.shader.addStmt node
  pure (id, { r with shader := shader })

def newDecl (node : Decl ExprId StmtId) : Rule Unit := fun r =>
  pure ((), { r with shader := (r.shader.addDecl node).2 })

def setVersion (version : Version) : Rule Unit := fun r =>
  pure ((), { r with shader := { r.shader with version := some version } })

/-! ## Expressions -/

mutual

def expressionWithin : Nat → Rule ExprId
  | 0 => noAnswer
  | fuel + 1 => do expressionMoreWithin fuel (← assignmentWithin fuel)

def expressionMoreWithin : Nat → ExprId → Rule ExprId
  | 0, _ => noAnswer
  | fuel + 1, left => do
    if ← accept (.symbol .comma) then
      let right ← assignmentWithin fuel
      expressionMoreWithin fuel (← newExpr (.binary .comma left right))
    else return left

def assignmentWithin : Nat → Rule ExprId
  | 0 => noAnswer
  | fuel + 1 => do assignmentMoreWithin fuel (← conditionalWithin fuel)

def assignmentMoreWithin : Nat → ExprId → Rule ExprId
  | 0, _ => noAnswer
  | fuel + 1, left => do
    match (← kind).assignmentOp? with
    | some op =>
      shift
      let right ← assignmentWithin fuel
      newExpr (.binary op left right)
    | none => return left

def conditionalWithin : Nat → Rule ExprId
  | 0 => noAnswer
  | fuel + 1 => do conditionalMoreWithin fuel (← binaryWithin fuel Precedence.conditional)

def conditionalMoreWithin : Nat → ExprId → Rule ExprId
  | 0, _ => noAnswer
  | fuel + 1, cond => do
    if ← accept (.symbol .question) then
      let onTrue ← expressionWithin fuel
      expect (.symbol .colon)
      let onFalse ← assignmentWithin fuel
      newExpr (.ternary cond onTrue onFalse)
    else return cond

def binaryWithin : Nat → Nat → Rule ExprId
  | 0, _ => noAnswer
  | fuel + 1, least => do binaryMoreWithin fuel least (← unaryWithin fuel)

def binaryMoreWithin : Nat → Nat → ExprId → Rule ExprId
  | 0, _, _ => noAnswer
  | fuel + 1, least, left => do
    match (← kind).binaryOp? with
    | some op =>
      if least < op.precedence then
        shift
        let right ← binaryWithin fuel op.precedence
        binaryMoreWithin fuel least (← newExpr (.binary op left right))
      else return left
    | none => return left

def unaryWithin : Nat → Rule ExprId
  | 0 => noAnswer
  | fuel + 1 => do
    match (← kind).leadingOp? with
    | some op =>
      shift
      let operand ← unaryWithin fuel
      newExpr (.unary op operand)
    | none => accessWithin fuel

def accessWithin : Nat → Rule ExprId
  | 0 => noAnswer
  | fuel + 1 => do accessMoreWithin fuel (← primaryWithin fuel)

def accessMoreWithin : Nat → ExprId → Rule ExprId
  | 0, _ => noAnswer
  | fuel + 1, base => do
    match ← kind with
    | .symbol .lBracket =>
      shift
      let offset ← expressionWithin fuel
      expect (.symbol .rBracket)
      accessMoreWithin fuel (← newExpr (.index base offset))
    | .symbol .dot =>
      shift
      let field ← identifier
      accessMoreWithin fuel (← newExpr (.member base field))
    | .symbol .plusPlus =>
      shift
      accessMoreWithin fuel (← newExpr (.unary .postInc base))
    | .symbol .minusMinus =>
      shift
      accessMoreWithin fuel (← newExpr (.unary .postDec base))
    | _ => return base

def primaryWithin : Nat → Rule ExprId
  | 0 => noAnswer
  | fuel + 1 => do
    let t ← current?
    match t.kind with
    | .intLiteral =>
      shift
      newExpr (.literal (.int t.lexeme))
    | .uintLiteral =>
      shift
      newExpr (.literal (.uint t.lexeme))
    | .floatLiteral =>
      shift
      newExpr (.literal (.float t.lexeme))
    | .keyword .kwTrue =>
      shift
      newExpr (.literal (.bool true))
    | .keyword .kwFalse =>
      shift
      newExpr (.literal (.bool false))
    | .identifier =>
      shift
      if ← accept (.symbol .lParen) then
        let args ← argumentsWithin fuel
        newExpr (.call t.lexeme args)
      else newExpr (.ident t.lexeme)
    | .symbol .lParen =>
      shift
      let inner ← expressionWithin fuel
      expect (.symbol .rParen)
      newExpr (.paren inner)
    | _ => fail .expression

def argumentsWithin : Nat → Rule (List ExprId)
  | 0 => noAnswer
  | fuel + 1 => do
    if ← accept (.symbol .rParen) then return []
    else
      let first ← assignmentWithin fuel
      let more ← argumentsMoreWithin fuel
      return first :: more

def argumentsMoreWithin : Nat → Rule (List ExprId)
  | 0 => noAnswer
  | fuel + 1 => do
    if ← accept (.symbol .comma) then
      let next ← assignmentWithin fuel
      let more ← argumentsMoreWithin fuel
      return next :: more
    else
      expect (.symbol .rParen)
      return []

end

def expression : Rule ExprId :=
  bounded expressionWithin

def assignment : Rule ExprId :=
  bounded assignmentWithin

/-! ## Specifiers and declarators -/

def arraySize : Rule (Option Nat) := do
  if ← accept (.symbol .lBracket) then
    let size ← current?
    if size.kind = .intLiteral ∨ size.kind = .uintLiteral then
      match integerValue? size.lexeme with
      | some n =>
        shift
        expect (.symbol .rBracket)
        return some n
      | none => fail .arraySize
    else fail .arraySize
  else return none

def layoutValue : Rule (Option String) := do
  if ← accept (.symbol .eq) then
    let value ← current?
    if value.kind = .intLiteral ∨ value.kind = .uintLiteral ∨ value.kind = .identifier then
      shift
      return some value.lexeme
    else fail .anotherToken
  else return none

def layoutItemsWithin : Nat → Rule (List LayoutItem)
  | 0 => noAnswer
  | fuel + 1 => do
    let key ← identifier
    let value ← layoutValue
    if ← accept (.symbol .comma) then
      let more ← layoutItemsWithin fuel
      return ⟨key, value⟩ :: more
    else
      expect (.symbol .rParen)
      return [⟨key, value⟩]

def layoutItems : Rule (List LayoutItem) :=
  bounded layoutItemsWithin

def qualifiersWithin : Nat → Rule (List Qualifier)
  | 0 => noAnswer
  | fuel + 1 => do
    match ← kind with
    | .keyword .kwLayout =>
      shift
      expect (.symbol .lParen)
      let items ← layoutItems
      let more ← qualifiersWithin fuel
      return .layout items :: more
    | .keyword word => match plainQualifier? word with
      | some q =>
        shift
        let more ← qualifiersWithin fuel
        return q :: more
      | none => return []
    | _ => return []

def qualifiers : Rule (List Qualifier) :=
  bounded qualifiersWithin

def typeSpec : Rule TypeSpec := do
  let qs ← qualifiers
  let typeName ← name .typeName
  return ⟨qs, typeName⟩

def initializer : Rule (Option ExprId) := do
  if ← accept (.symbol .eq) then
    let value ← assignment
    return some value
  else return none

def declarator (name : String) : Rule (Declarator ExprId) := do
  let size ← arraySize
  let init ← initializer
  return ⟨name, size, init⟩

def declaratorsMoreWithin : Nat → Rule (List (Declarator ExprId))
  | 0 => noAnswer
  | fuel + 1 => do
    if ← accept (.symbol .comma) then
      let name ← identifier
      let first ← declarator name
      let more ← declaratorsMoreWithin fuel
      return first :: more
    else
      expect (.symbol .semicolon)
      return []

def declaratorsMore : Rule (List (Declarator ExprId)) :=
  bounded declaratorsMoreWithin

def varDecl (type : TypeSpec) (name : String) : Rule (VarDecl ExprId) := do
  let first ← declarator name
  let more ← declaratorsMore
  return ⟨type, first :: more⟩

/-! ## Statements -/

def startsDeclaration : Rule Bool := fun r =>
  pure (r.current.kind.isQualifier ||
    (r.current.kind == .identifier && r.peek.kind == .identifier), r)

def declaration : Rule (VarDecl ExprId) := do
  let type ← typeSpec
  let name ← identifier
  varDecl type name

def expressionUnless (sign : Symbol) : Rule (Option ExprId) := do
  if (← kind) = .symbol sign then return none
  else
    let e ← expression
    return some e

def expressionStatement : Rule StmtId := do
  let e ← expression
  expect (.symbol .semicolon)
  newStmt (.expr e)

def declarationOrExpression : Rule StmtId := do
  if ← startsDeclaration then
    let decl ← declaration
    newStmt (.vars decl)
  else expressionStatement

def loopStart : Rule StmtId := do
  if ← accept (.symbol .semicolon) then newStmt .empty
  else declarationOrExpression

def wordStatement (form : StmtNode ExprId StmtId) : Rule StmtId := do
  expect (.symbol .semicolon)
  newStmt form

def condition : Rule ExprId := do
  expect (.symbol .lParen)
  let cond ← expression
  expect (.symbol .rParen)
  return cond

mutual

def statementWithin : Nat → Rule StmtId
  | 0 => noAnswer
  | fuel + 1 => do
    match ← kind with
    | .symbol .lBrace =>
      shift
      let body ← blockBodyWithin fuel
      newStmt (.block body)
    | .keyword .kwIf =>
      shift
      let cond ← condition
      let onTrue ← statementWithin fuel
      let onFalse ← elseBranchWithin fuel
      newStmt (.ifElse cond onTrue onFalse)
    | .keyword .kwFor =>
      shift
      expect (.symbol .lParen)
      let start ← loopStart
      let cond ← expressionUnless .semicolon
      expect (.symbol .semicolon)
      let step ← expressionUnless .rParen
      expect (.symbol .rParen)
      let body ← statementWithin fuel
      newStmt (.forLoop start cond step body)
    | .keyword .kwWhile =>
      shift
      let cond ← condition
      let body ← statementWithin fuel
      newStmt (.whileLoop cond body)
    | .keyword .kwDo =>
      shift
      let body ← statementWithin fuel
      expect (.keyword .kwWhile)
      let cond ← condition
      expect (.symbol .semicolon)
      newStmt (.doWhile body cond)
    | .keyword .kwReturn =>
      shift
      let value ← expressionUnless .semicolon
      expect (.symbol .semicolon)
      newStmt (.returns value)
    | .keyword .kwBreak =>
      shift
      wordStatement .breaks
    | .keyword .kwContinue =>
      shift
      wordStatement .continues
    | .keyword .kwDiscard =>
      shift
      wordStatement .discards
    | .symbol .semicolon =>
      shift
      newStmt .empty
    | _ => declarationOrExpression

def elseBranchWithin : Nat → Rule (Option StmtId)
  | 0 => noAnswer
  | fuel + 1 => do
    if ← accept (.keyword .kwElse) then
      let s ← statementWithin fuel
      return some s
    else return none

def blockBodyWithin : Nat → Rule (List StmtId)
  | 0 => noAnswer
  | fuel + 1 => do
    if (← kind) = .symbol .rBrace ∨ (← kind) = .endOfFile then
      expect (.symbol .rBrace)
      return []
    else
      let first ← statementWithin fuel
      let more ← blockBodyWithin fuel
      return first :: more

end

def blockBody : Rule (List StmtId) :=
  bounded blockBodyWithin

def block : Rule StmtId := do
  expect (.symbol .lBrace)
  let body ← blockBody
  newStmt (.block body)

/-! ## Declarations -/

def fieldsMoreWithin : Nat → TypeSpec → Rule (List FieldDecl)
  | 0, _ => noAnswer
  | fuel + 1, type => do
    if ← accept (.symbol .comma) then
      let name ← identifier
      let size ← arraySize
      let more ← fieldsMoreWithin fuel type
      return ⟨type, name, size⟩ :: more
    else
      expect (.symbol .semicolon)
      return []

def fieldsMore (type : TypeSpec) : Rule (List FieldDecl) :=
  bounded fun fuel => fieldsMoreWithin fuel type

def structFieldsWithin : Nat → Rule (List FieldDecl)
  | 0 => noAnswer
  | fuel + 1 => do
    if (← kind) = .symbol .rBrace ∨ (← kind) = .endOfFile then
      expect (.symbol .rBrace)
      return []
    else
      let type ← typeSpec
      let name ← identifier
      let size ← arraySize
      let same ← fieldsMore type
      let more ← structFieldsWithin fuel
      return ⟨type, name, size⟩ :: (same ++ more)

def structFields : Rule (List FieldDecl) :=
  bounded structFieldsWithin

def structDecl : Rule StructDecl := do
  let name ← identifier
  expect (.symbol .lBrace)
  let fields ← structFields
  expect (.symbol .semicolon)
  return ⟨name, fields⟩

def precisionDecl : Rule Unit := do
  match precision? (← current?) with
  | some level =>
    shift
    let typeName ← name .typeName
    expect (.symbol .semicolon)
    newDecl (.precision level typeName)
  | none => fail .anotherToken

def param : Rule Param := do
  let type ← typeSpec
  if (← kind) = .identifier then
    let name ← identifier
    let size ← arraySize
    return ⟨type, some name, size⟩
  else return ⟨type, none, none⟩

def paramsMoreWithin : Nat → Rule (List Param)
  | 0 => noAnswer
  | fuel + 1 => do
    if ← accept (.symbol .comma) then
      let next ← param
      let more ← paramsMoreWithin fuel
      return next :: more
    else
      expect (.symbol .rParen)
      return []

def paramsMore : Rule (List Param) :=
  bounded paramsMoreWithin

def params : Rule (List Param) := do
  if ← accept (.symbol .rParen) then return []
  else
    let first ← param
    let more ← paramsMore
    return first :: more

def functionBody : Rule (Option StmtId) := do
  if ← accept (.symbol .semicolon) then return none
  else if (← kind) = .symbol .lBrace then
    let body ← block
    return some body
  else fail .anotherToken

def functionOrVars (type : TypeSpec) (name : String) : Rule Unit := do
  if ← accept (.symbol .lParen) then
    let ps ← params
    let body ← functionBody
    newDecl (.function ⟨type, name, withoutVoid ps, body⟩)
  else
    let decl ← varDecl type name
    newDecl (.vars decl)

def topLevel : Rule Unit := do
  let t ← current?
  if t.kind = .directive then
    shift
    newDecl (.directive t.lexeme)
  else if t.kind = .symbol .semicolon then shift
  else if t.kind = .keyword .kwPrecision then
    shift
    precisionDecl
  else if t.kind = .keyword .kwStruct then
    shift
    let decl ← structDecl
    newDecl (.struct decl)
  else if t.kind = .identifier ∨ t.kind.isQualifier = true then
    let type ← typeSpec
    let name ← identifier
    functionOrVars type name
  else fail .declaration

def declarationsWithin : Nat → Rule Unit
  | 0 => noAnswer
  | fuel + 1 => do
    if (← kind) = .endOfFile then return ()
    else
      topLevel
      declarationsWithin fuel

def declarations : Rule Unit :=
  bounded declarationsWithin

def program : Rule Unit := do
  let t ← current?
  if isVersionDirective t then
    match Version.ofDirective? t.lexeme with
    | some version =>
      setVersion version
      shift
      declarations
    | none => fail .versionDirective
  else declarations

end Reader

def Shader.read (source : String) : Option (Except ParseError Shader) :=
  (Reader.program.run (Reader.start source)).run.map fun answer => answer.map fun p => p.2.shader

end ShaderReducer
