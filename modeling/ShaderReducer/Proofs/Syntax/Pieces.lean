import ShaderReducer.Proofs.Syntax.Explicit
import ShaderReducer.Proofs.Token.Written
import ShaderReducer.Token.Operator

/-!
# The pieces of syntax

The tokens that syntax is written with, without their places. The pieces of an expression are those
of the tree as it is; statements and declarations hold the parentheses that the printer adds.
-/

namespace ShaderReducer

/-- A symbol as a piece of text. -/
def Symbol.piece (sign : Symbol) : Piece :=
  ⟨.symbol sign, sign.spelling⟩

/-- A reserved word as a piece of text. -/
def Keyword.piece (word : Keyword) : Piece :=
  ⟨.keyword word, word.spelling⟩

/-- A name as a piece of text. -/
def namePiece (name : String) : Piece :=
  ⟨.identifier, name⟩

/-- A text as a piece of the kind that it is recognised as. -/
def textPiece (text : String) : Piece :=
  ⟨Lexer.kindOf text.toList, text⟩

/-- Some rows of pieces with commas between them. -/
def commaPieces (rows : List (List Piece)) : List Piece :=
  [Symbol.comma.piece].intercalate rows

theorem commaPieces_cons_cons (row row' : List Piece) (rows : List (List Piece)) :
    commaPieces (row :: row' :: rows) = row ++ Symbol.comma.piece :: commaPieces (row' :: rows) := rfl

/-- After the first of some rows each of the others stands behind a comma. -/
theorem commaPieces_cons (row : List Piece) (rows : List (List Piece)) :
    commaPieces (row :: rows) = row ++ rows.flatMap (Symbol.comma.piece :: ·) := by
  induction rows generalizing row with
  | nil => simp [commaPieces]
  | cons row' rows ih =>
      rw [commaPieces_cons_cons, ih, List.flatMap_cons, List.cons_append]

/-- The number of points among some pieces. -/
def pointsIn (ps : List Piece) : Nat :=
  ps.countP fun p => p.kind == .symbol .dot

theorem pointsIn_cons (p : Piece) (ps : List Piece) : pointsIn (p :: ps) =
    pointsIn ps + if p.kind = .symbol .dot then 1 else 0 := by
  rw [pointsIn, List.countP_cons]
  simp [pointsIn]

/-! ## Operators -/

namespace UnaryOp

/-- The symbol of an operator. -/
def symbol : UnaryOp → Symbol
  | neg => .minus
  | plus => .plus
  | not => .bang
  | bitNot => .tilde
  | preInc | postInc => .plusPlus
  | preDec | postDec => .minusMinus

theorem spelling_symbol (op : UnaryOp) : op.symbol.spelling = op.spelling := by
  cases op <;> rfl

theorem leadingOp?_symbol {op : UnaryOp} (h : op.isTrailing = false) :
    op.symbol.leadingOp? = some op := by
  cases op <;> first | rfl | cases h

end UnaryOp

namespace BinaryOp

/-- The symbol of an operator. -/
def symbol : BinaryOp → Symbol
  | mul => .star | div => .slash | mod => .percent | add => .plus | sub => .minus
  | shl => .lessLess | shr => .greaterGreater
  | lt => .lt | gt => .gt | le => .ltEq | ge => .gtEq | eq => .eqEq | ne => .bangEq
  | bitAnd => .ampersand | bitXor => .caret | bitOr => .pipe
  | and => .ampAmp | xor => .caretCaret | or => .pipePipe
  | assign => .eq | mulAssign => .starEq | divAssign => .slashEq | modAssign => .percentEq
  | addAssign => .plusEq | subAssign => .minusEq | shlAssign => .lessLessEq
  | shrAssign => .greaterGreaterEq | andAssign => .ampEq | xorAssign => .caretEq
  | orAssign => .pipeEq
  | comma => .comma

theorem spelling_symbol (op : BinaryOp) : op.symbol.spelling = op.spelling := by
  cases op <;> rfl

theorem assignmentOp?_symbol {op : BinaryOp} (h : op.isAssignment = true) :
    op.symbol.assignmentOp? = some op := by
  cases op <;> first | rfl | cases h

theorem binaryOp?_symbol {op : BinaryOp} (h : Precedence.conditional < op.precedence) :
    op.symbol.binaryOp? = some op := by
  cases op <;> first | rfl | exact absurd h (by decide)

/-- An operator is the comma, an assignment, or binds more tightly than the conditional one. -/
theorem comma_or_assignment_or (op : BinaryOp) :
    op = .comma ∨ op.isAssignment = true ∨ Precedence.conditional < op.precedence := by
  cases op <;> decide

end BinaryOp

/-! ## Expressions -/

namespace Expr

mutual

/-- The pieces of an expression. -/
def pieces : Expr Unit → List Piece
  | node _ (.literal value) => [textPiece value.text]
  | node _ (.ident name) => [namePiece name]
  | node _ (.paren inner) => Symbol.lParen.piece :: (inner.pieces ++ [Symbol.rParen.piece])
  | node _ (.unary op operand) =>
    if op.isTrailing then operand.pieces ++ [op.symbol.piece] else op.symbol.piece :: operand.pieces
  | node _ (.binary op lhs rhs) => lhs.pieces ++ op.symbol.piece :: rhs.pieces
  | node _ (.ternary cond onTrue onFalse) =>
    cond.pieces ++ Symbol.question.piece ::
      (onTrue.pieces ++ Symbol.colon.piece :: onFalse.pieces)
  | node _ (.call callee args) =>
    namePiece callee :: Symbol.lParen.piece ::
      (commaPieces (piecesAll args) ++ [Symbol.rParen.piece])
  | node _ (.member base field) => base.pieces ++ [Symbol.dot.piece, namePiece field]
  | node _ (.index base offset) =>
    base.pieces ++ Symbol.lBracket.piece :: (offset.pieces ++ [Symbol.rBracket.piece])

/-- The pieces of each of some expressions. -/
def piecesAll : List (Expr Unit) → List (List Piece)
  | [] => []
  | e :: rest => e.pieces :: piecesAll rest

end

theorem piecesAll_eq_map (l : List (Expr Unit)) : piecesAll l = l.map pieces := by
  induction l with
  | nil => rfl
  | cons e rest ih => rw [piecesAll, ih, List.map_cons]

variable {base offset inner operand lhs rhs cond onTrue onFalse : Expr Unit}

theorem pieces_paren : (node () (.paren inner)).pieces =
    Symbol.lParen.piece :: (inner.pieces ++ [Symbol.rParen.piece]) := rfl

theorem pieces_leading {op : UnaryOp} (h : op.isTrailing = false) :
    (node () (.unary op operand)).pieces = op.symbol.piece :: operand.pieces := by
  change ite _ _ _ = _
  rw [h, if_neg Bool.false_ne_true]

theorem pieces_trailing {op : UnaryOp} (h : op.isTrailing = true) :
    (node () (.unary op operand)).pieces = operand.pieces ++ [op.symbol.piece] := by
  change ite _ _ _ = _
  rw [h, if_pos rfl]

theorem pieces_binary {op : BinaryOp} : (node () (.binary op lhs rhs)).pieces =
    lhs.pieces ++ op.symbol.piece :: rhs.pieces := rfl

theorem pieces_ternary : (node () (.ternary cond onTrue onFalse)).pieces =
    cond.pieces ++ Symbol.question.piece ::
      (onTrue.pieces ++ Symbol.colon.piece :: onFalse.pieces) := rfl

theorem pieces_call {callee : String} {args : List (Expr Unit)} :
    (node () (.call callee args)).pieces = namePiece callee :: Symbol.lParen.piece ::
      (commaPieces (args.map pieces) ++ [Symbol.rParen.piece]) := by
  rw [← piecesAll_eq_map]
  rfl

theorem pieces_member {field : String} : (node () (.member base field)).pieces =
    base.pieces ++ [Symbol.dot.piece, namePiece field] := rfl

theorem pieces_index : (node () (.index base offset)).pieces =
    base.pieces ++ Symbol.lBracket.piece :: (offset.pieces ++ [Symbol.rBracket.piece]) := rfl

/-- The pieces that the printer writes for an expression at a place where it has to bind at least as
tightly as `required`. -/
def piecesAt (required : Nat) (e : Expr Unit) : List Piece :=
  (e.explicit required).pieces

end Expr

/-! ## Types and variables -/

/-- The pieces of an array size after a name. -/
def arraySizePieces : Option Nat → List Piece
  | some n => [Symbol.lBracket.piece, ⟨.intLiteral, toString n⟩, Symbol.rBracket.piece]
  | none => []

/-- The pieces of an entry of a layout. -/
def LayoutItem.pieces (item : LayoutItem) : List Piece :=
  namePiece item.key ::
    match item.value with
    | some value => [Symbol.eq.piece, textPiece value]
    | none => []

/-- The reserved word of a precision. -/
def Precision.keyword : Precision → Keyword
  | high => .kwHighp
  | medium => .kwMediump
  | low => .kwLowp

namespace Qualifier

/-- The reserved word that a qualifier starts with. -/
def keyword : Qualifier → Keyword
  | const => .kwConst
  | uniform => .kwUniform
  | input => .kwIn
  | output => .kwOut
  | inputOutput => .kwInout
  | vertexAttribute => .kwAttribute
  | varying => .kwVarying
  | flat => .kwFlat
  | invariant => .kwInvariant
  | precision level => level.keyword
  | layout _ => .kwLayout

/-- The pieces of a qualifier. -/
def pieces (q : Qualifier) : List Piece :=
  q.keyword.piece ::
    match q with
    | layout items => Symbol.lParen.piece ::
      (commaPieces (items.map LayoutItem.pieces) ++ [Symbol.rParen.piece])
    | _ => []

end Qualifier

/-- The pieces of a type. -/
def TypeSpec.pieces (spec : TypeSpec) : List Piece :=
  spec.qualifiers.flatMap Qualifier.pieces ++ [namePiece spec.name]

/-- The pieces of an initial value. -/
def initPieces : Option (Expr Unit) → List Piece
  | some init => Symbol.eq.piece :: init.piecesAt Precedence.assignment
  | none => []

/-- The pieces of a declarator after its name. -/
def Declarator.morePieces (d : Declarator (Expr Unit)) : List Piece :=
  arraySizePieces d.arraySize ++ initPieces d.init

/-- The pieces of a declarator. -/
def Declarator.pieces (d : Declarator (Expr Unit)) : List Piece :=
  namePiece d.name :: d.morePieces

/-- The pieces of a declaration of variables, without the semicolon. -/
def VarDecl.pieces (v : VarDecl (Expr Unit)) : List Piece :=
  v.type.pieces ++ commaPieces (v.declarators.map Declarator.pieces)

/-! ## Statements -/

namespace Stmt

/-- The pieces of an expression that may be absent. -/
def optionPieces : Option (Expr Unit) → List Piece
  | some e => e.piecesAt 0
  | none => []

/-- The pieces of a condition in parentheses. -/
def conditionPieces (cond : Expr Unit) : List Piece :=
  Symbol.lParen.piece :: (cond.piecesAt 0 ++ [Symbol.rParen.piece])

mutual

/-- The pieces of a statement. -/
def pieces : Stmt Unit Unit → List Piece
  | node _ (.block body) => Symbol.lBrace.piece :: (piecesAll body ++ [Symbol.rBrace.piece])
  | node _ (.vars decl) => decl.pieces ++ [Symbol.semicolon.piece]
  | node _ (.expr value) => value.piecesAt 0 ++ [Symbol.semicolon.piece]
  | node _ (.ifElse cond onTrue none) =>
    Keyword.kwIf.piece :: (conditionPieces cond ++ onTrue.pieces)
  | node _ (.ifElse cond onTrue (some onFalse)) =>
    Keyword.kwIf.piece :: (conditionPieces cond ++ (onTrue.pieces ++
      Keyword.kwElse.piece :: onFalse.pieces))
  | node _ (.forLoop start cond step body) =>
    Keyword.kwFor.piece :: Symbol.lParen.piece :: (start.pieces ++ (optionPieces cond ++
      Symbol.semicolon.piece :: (optionPieces step ++ Symbol.rParen.piece :: body.pieces)))
  | node _ (.whileLoop cond body) =>
    Keyword.kwWhile.piece :: (conditionPieces cond ++ body.pieces)
  | node _ (.doWhile body cond) =>
    Keyword.kwDo.piece :: (body.pieces ++ Keyword.kwWhile.piece :: (conditionPieces cond ++
      [Symbol.semicolon.piece]))
  | node _ (.returns value) =>
    Keyword.kwReturn.piece :: (optionPieces value ++ [Symbol.semicolon.piece])
  | node _ .breaks => [Keyword.kwBreak.piece, Symbol.semicolon.piece]
  | node _ .continues => [Keyword.kwContinue.piece, Symbol.semicolon.piece]
  | node _ .discards => [Keyword.kwDiscard.piece, Symbol.semicolon.piece]
  | node _ .empty => [Symbol.semicolon.piece]

/-- The pieces of some statements in a row. -/
def piecesAll : List (Stmt Unit Unit) → List Piece
  | [] => []
  | s :: rest => s.pieces ++ piecesAll rest

end

end Stmt

/-! ## Programs -/

/-- The pieces of a field. -/
def FieldDecl.pieces (field : FieldDecl) : List Piece :=
  field.type.pieces ++ namePiece field.name :: (arraySizePieces field.arraySize ++
    [Symbol.semicolon.piece])

/-- The pieces of a structure. -/
def StructDecl.pieces (s : StructDecl) : List Piece :=
  Keyword.kwStruct.piece :: namePiece s.name :: Symbol.lBrace.piece ::
    (s.fields.flatMap FieldDecl.pieces ++ [Symbol.rBrace.piece, Symbol.semicolon.piece])

/-- The pieces of a parameter. -/
def Param.pieces (param : Param) : List Piece :=
  param.type.pieces ++
    match param.name with
    | some name => namePiece name :: arraySizePieces param.arraySize
    | none => []

/-- The pieces of the body of a function, or of the semicolon of a prototype. -/
def bodyPieces : Option (Stmt Unit Unit) → List Piece
  | some body => body.pieces
  | none => [Symbol.semicolon.piece]

/-- The pieces of a function. -/
def FunctionDecl.pieces (f : FunctionDecl (Stmt Unit Unit)) : List Piece :=
  f.returnType.pieces ++ namePiece f.name :: Symbol.lParen.piece ::
    (commaPieces (f.params.map Param.pieces) ++ Symbol.rParen.piece :: bodyPieces f.body)

/-- The pieces of a declaration. -/
def DeclTree.pieces : DeclTree Unit Unit → List Piece
  | .directive text => [⟨.directive, text⟩]
  | .precision level typeName =>
    [Keyword.kwPrecision.piece, level.keyword.piece, namePiece typeName, Symbol.semicolon.piece]
  | .struct decl => decl.pieces
  | .function decl => decl.pieces
  | .vars decl => decl.pieces ++ [Symbol.semicolon.piece]

/-- The pieces of a version directive. -/
def versionPieces : Option Version → List Piece
  | some version => [⟨.directive, version.directive⟩]
  | none => []

/-- The pieces of a program. -/
def Program.pieces (p : Program) : List Piece :=
  versionPieces p.version ++ p.decls.flatMap DeclTree.pieces

end ShaderReducer
