import ShaderReducer.Syntax.Tree

/-!
# Printing

Syntax as text. The printer owns the parentheses: an expression that binds more loosely than its
place allows gets a pair, so that a tree reads back as it is whether or not it holds parentheses of
its own.

Blocks are indented by four columns a level; a body that is no block stands on a line of its own.
-/

namespace ShaderReducer

namespace Expr

variable {ε : Type}

/-- Whether an expression is an operator before its operand. Two of them in a row need parentheses
between, lest `- -x` become `--x`. -/
def startsWithOperator : Expr ε → Bool
  | node _ (.unary op _) => !op.isTrailing
  | _ => false

def enclose (precedence required : Nat) (text : String) : String :=
  if precedence < required then "(" ++ text ++ ")" else text

def separator (op : BinaryOp) : String :=
  if op = .comma then ", " else " " ++ op.spelling ++ " "

/-- How tightly the left operand of a binary operator has to bind: operators group to the left, but
the target of an assignment is an operand of a unary operator at least. -/
def lhsPrecedence (op : BinaryOp) : Nat :=
  if op.isAssignment then Precedence.unary else op.precedence

/-- How tightly the right operand of a binary operator has to bind: assignments group to the
right. -/
def rhsPrecedence (op : BinaryOp) : Nat :=
  if op.isAssignment then op.precedence else op.precedence + 1

mutual

/-- The text of an expression at a place where it has to bind at least as tightly as `required`. -/
def print (required : Nat) : Expr ε → String
  | node _ (.literal value) => enclose Precedence.primary required value.text
  | node _ (.ident name) => enclose Precedence.primary required name
  | node _ (.paren inner) => enclose Precedence.primary required ("(" ++ inner.print 0 ++ ")")
  | node _ (.unary op operand) =>
    enclose op.precedence required <|
      if op.isTrailing then operand.print Precedence.access ++ op.spelling
      else op.spelling ++ operand.print
        (if operand.startsWithOperator then Precedence.primary else Precedence.unary)
  | node _ (.binary op lhs rhs) =>
    enclose op.precedence required
      (lhs.print (lhsPrecedence op) ++ separator op ++ rhs.print (rhsPrecedence op))
  | node _ (.ternary cond onTrue onFalse) =>
    enclose Precedence.conditional required
      (cond.print (Precedence.conditional + 1) ++ " ? " ++ onTrue.print Precedence.assignment ++
        " : " ++ onFalse.print Precedence.conditional)
  | node _ (.call callee args) =>
    enclose Precedence.access required
      (callee ++ "(" ++ ", ".intercalate (printAll args) ++ ")")
  | node _ (.member base field) =>
    enclose Precedence.access required (base.print Precedence.access ++ "." ++ field)
  | node _ (.index base offset) =>
    enclose Precedence.access required
      (base.print Precedence.access ++ "[" ++ offset.print 0 ++ "]")

/-- The texts of the arguments of a call; a comma expression among them is in parentheses. -/
def printAll : List (Expr ε) → List String
  | [] => []
  | e :: rest => e.print Precedence.assignment :: printAll rest

end

end Expr

def printArraySize : Option Nat → String
  | some n => "[" ++ toString n ++ "]"
  | none => ""

def LayoutItem.print (item : LayoutItem) : String :=
  match item.value with
  | some value => item.key ++ " = " ++ value
  | none => item.key

def Qualifier.print : Qualifier → String
  | const => "const"
  | uniform => "uniform"
  | input => "in"
  | output => "out"
  | inputOutput => "inout"
  | vertexAttribute => "attribute"
  | varying => "varying"
  | flat => "flat"
  | invariant => "invariant"
  | precision level => level.spelling
  | layout items => "layout(" ++ ", ".intercalate (items.map LayoutItem.print) ++ ")"

def TypeSpec.print (spec : TypeSpec) : String :=
  String.join (spec.qualifiers.map fun q => q.print ++ " ") ++ spec.name

def Declarator.print {ε : Type} (d : Declarator (Expr ε)) : String :=
  d.name ++ printArraySize d.arraySize ++
    match d.init with
    | some init => " = " ++ init.print Precedence.assignment
    | none => ""

/-- The text of a declaration of variables, without the semicolon. -/
def VarDecl.print {ε : Type} (v : VarDecl (Expr ε)) : String :=
  v.type.print ++ " " ++ ", ".intercalate (v.declarators.map Declarator.print)

def newline (depth : Nat) : String :=
  String.ofList ('\n' :: List.replicate (4 * depth) ' ')

namespace Stmt

variable {ε σ : Type}

def isBlock : Stmt ε σ → Bool
  | node _ (.block _) => true
  | _ => false

/-- What stands before a body: nothing before a block, a new line before anything else. -/
def lead (depth : Nat) (body : Stmt ε σ) : String :=
  if body.isBlock then "" else newline (depth + 1)

/-- The indentation of a body: a block does not count as a level of its own. -/
def bodyDepth (depth : Nat) (body : Stmt ε σ) : Nat :=
  if body.isBlock then depth else depth + 1

def optional : Option (Expr ε) → String
  | some e => " " ++ e.print 0
  | none => ""

mutual

def print (depth : Nat) : Stmt ε σ → String
  | node _ (.block []) => "\x7b\x7d"
  | node _ (.block (s :: rest)) =>
    "\x7b" ++ newline (depth + 1) ++ s.print (depth + 1) ++ printRest (depth + 1) rest ++
      newline depth ++ "\x7d"
  | node _ (.vars decl) => decl.print ++ ";"
  | node _ (.expr value) => value.print 0 ++ ";"
  | node _ (.ifElse cond onTrue none) =>
    "if (" ++ cond.print 0 ++ ") " ++ onTrue.lead depth ++ onTrue.print (onTrue.bodyDepth depth)
  | node _ (.ifElse cond onTrue (some onFalse)) =>
    "if (" ++ cond.print 0 ++ ") " ++ onTrue.lead depth ++ onTrue.print (onTrue.bodyDepth depth) ++
      (if onTrue.isBlock then " " else newline depth) ++
      "else " ++ onFalse.lead depth ++ onFalse.print (onFalse.bodyDepth depth)
  | node _ (.forLoop start cond step body) =>
    "for (" ++ start.print depth ++ optional cond ++ ";" ++ optional step ++ ") " ++
      body.lead depth ++ body.print (body.bodyDepth depth)
  | node _ (.whileLoop cond body) =>
    "while (" ++ cond.print 0 ++ ") " ++ body.lead depth ++ body.print (body.bodyDepth depth)
  | node _ (.doWhile body cond) =>
    "do " ++ body.lead depth ++ body.print (body.bodyDepth depth) ++
      " while (" ++ cond.print 0 ++ ");"
  | node _ (.returns (some value)) => "return " ++ value.print 0 ++ ";"
  | node _ (.returns none) => "return;"
  | node _ .breaks => "break;"
  | node _ .continues => "continue;"
  | node _ .discards => "discard;"
  | node _ .empty => ";"

def printRest (depth : Nat) : List (Stmt ε σ) → String
  | [] => ""
  | s :: rest => newline depth ++ s.print depth ++ printRest depth rest

end

end Stmt

def FieldDecl.print (field : FieldDecl) : String :=
  field.type.print ++ " " ++ field.name ++ printArraySize field.arraySize ++ ";"

def StructDecl.print (s : StructDecl) : String :=
  "struct " ++ s.name ++ " \x7b" ++
    String.join (s.fields.map fun field => newline 1 ++ field.print) ++
    (if s.fields.isEmpty then "" else newline 0) ++ "\x7d;"

def Param.print (param : Param) : String :=
  param.type.print ++
    match param.name with
    | some name => " " ++ name ++ printArraySize param.arraySize
    | none => ""

def FunctionDecl.print {ε σ : Type} (f : FunctionDecl (Stmt ε σ)) : String :=
  let params := ", ".intercalate (f.params.map Param.print)
  f.returnType.print ++ " " ++ f.name ++ "(" ++ params ++ ")" ++
    match f.body with
    | some body => " " ++ body.print 0
    | none => ";"

def DeclTree.print {ε σ : Type} : DeclTree ε σ → String
  | .directive text => text
  | .precision level typeName => "precision " ++ level.spelling ++ " " ++ typeName ++ ";"
  | .struct decl => decl.print
  | .function decl => decl.print
  | .vars decl => decl.print ++ ";"

/-- A text without white space at the end of any line; the last line ends with a newline. -/
def tidyLines (text : String) : String :=
  let tidy := ['\n'].intercalate ((Text.linesList text.toList).map Text.trimEndList)
  String.ofList (if tidy.getLast? = some '\n' then tidy else tidy ++ ['\n'])

def Expr.text {ε : Type} (e : Expr ε) : String :=
  Text.trimEnd (tidyLines (e.print 0))

/-- The text of a program: the version and the declarations, with an empty line between any two. -/
def Program.print (p : Program) : String :=
  let decls := (newline 0 ++ newline 0).intercalate (p.decls.map DeclTree.print)
  tidyLines <|
    match p.version with
    | some version => version.directive ++ newline 0 ++ newline 0 ++ decls
    | none => decls

end ShaderReducer
