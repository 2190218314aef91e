import ShaderReducer.Shader.Tree
import ShaderReducer.Typing.Builtin

/-!
# Types of expressions

The type of an expression follows from the declarations in scope, the structures and functions of
the shader, and the table of built-in names. An expression that none of these places has no type.

A name that is declared with an unknown type hides an outer one all the same.
-/

namespace ShaderReducer

/-- The names of variables and their types, the innermost declaration first. -/
abbrev TypeScope : Type := List (String × Option Ty)

structure Signatures where
  structs : List StructDecl
  functions : List (FunctionDecl StmtId)

namespace Signatures

def ofShader (s : Shader) : Signatures :=
  ⟨s.structs.map Prod.snd, s.functions.map Prod.snd⟩

def hasStruct (sig : Signatures) (name : String) : Bool :=
  sig.structs.any fun decl => decl.name == name

def resolve (sig : Signatures) (spec : TypeSpec) (arraySize : Option Nat) : Option Ty :=
  let base := (Ty.ofName? spec.name).or
    (if sig.hasStruct spec.name then some (.struct spec.name) else none)
  match arraySize with
  | some n => base.map (.array · n)
  | none => base

/-- The type of a field. Of two structures with one name the later counts, and of two fields with
one name the earlier. -/
def fieldType (sig : Signatures) (structName fieldName : String) : Option Ty := do
  let decl ← sig.structs.reverse.find? fun decl => decl.name == structName
  let field ← decl.fields.find? fun field => field.name == fieldName
  sig.resolve field.type field.arraySize

/-- Whether a function takes arguments of some types; a type that is not known fits any other. -/
def accepts (sig : Signatures) (f : FunctionDecl StmtId) (args : List (Option Ty)) : Bool :=
  f.params.length == args.length &&
    (f.params.zip args).all fun (param, arg) =>
      match sig.resolve param.type param.arraySize, arg with
      | some expected, some actual => expected == actual
      | _, _ => true

/-- The type of a call. A type or structure of that name is constructed; else the first function of
that name that takes the arguments is called; a built-in function is called only where the shader
has no function of its name. -/
def callType (sig : Signatures) (callee : String) (args : List (Option Ty)) : Option Ty :=
  match Ty.ofName? callee with
  | some type => some type
  | none =>
    if sig.hasStruct callee then some (.struct callee)
    else
      let overloads := sig.functions.filter fun f => f.name == callee
      if overloads.isEmpty then Builtin.call? callee args
      else (overloads.find? fun f => sig.accepts f args).bind fun f => sig.resolve f.returnType none

def nameType (scope : TypeScope) (name : String) : Option Ty :=
  match scope.lookup name with
  | some type => type
  | none => Builtin.variableType? name

def literalType : Literal → Ty
  | .int _ => .scalar .int
  | .uint _ => .scalar .uint
  | .float _ => .scalar .float
  | .bool _ => .scalar .bool

def binaryType (op : BinaryOp) (l r : Option Ty) : Option Ty :=
  if op = .comma then r
  else if op.isAssignment then l
  else if op.yieldsBool then some (.scalar .bool)
  else if op = .shl ∨ op = .shr then l
  else do
    let l ← l
    let r ← r
    if op = .mul then (l.linearProduct? r).or (l.componentwise? r) else l.componentwise? r

def memberType (sig : Signatures) (base : Ty) (field : String) : Option Ty :=
  match base with
  | .struct name => sig.fieldType name field
  | .vector kind width => Ty.swizzle? kind width field.toList
  | _ => none

def elementType : Ty → Option Ty
  | .array element _ => some element
  | .vector kind _ => some (.scalar kind)
  | .matrix _ rows => some (.vector .float rows)
  | _ => none

mutual

def typeOf {ε : Type} (sig : Signatures) (scope : TypeScope) : Expr ε → Option Ty
  | .node _ (.literal value) => some (literalType value)
  | .node _ (.ident name) => nameType scope name
  | .node _ (.paren inner) => sig.typeOf scope inner
  | .node _ (.unary op operand) =>
    match sig.typeOf scope operand with
    | some type => if op = .not ∧ type ≠ .scalar .bool then none else some type
    | none => none
  | .node _ (.binary op lhs rhs) => binaryType op (sig.typeOf scope lhs) (sig.typeOf scope rhs)
  | .node _ (.ternary _ onTrue onFalse) =>
    match sig.typeOf scope onTrue, sig.typeOf scope onFalse with
    | some type, some type' => if type = type' then some type else none
    | _, _ => none
  | .node _ (.call callee args) => sig.callType callee (sig.typesOf scope args)
  | .node _ (.member base field) =>
    (sig.typeOf scope base).bind fun type => sig.memberType type field
  | .node _ (.index base _) => (sig.typeOf scope base).bind elementType

def typesOf {ε : Type} (sig : Signatures) (scope : TypeScope) : List (Expr ε) → List (Option Ty)
  | [] => []
  | e :: rest => sig.typeOf scope e :: sig.typesOf scope rest

end

abbrev Entry : Type := ExprId × Option Ty

def exprEntries (sig : Signatures) (scope : TypeScope) (e : Expr ExprId) : List Entry :=
  e.subexprs.map fun sub => (sub.tag, sig.typeOf scope sub)

def declare {ε : Type} (sig : Signatures) (scope : TypeScope) (decl : VarDecl ε) : TypeScope :=
  decl.declarators.foldl (fun scope d => (d.name, sig.resolve decl.type d.arraySize) :: scope) scope

/-- The types of the initial values of a declaration. Its own names are not in scope yet. -/
def varEntries (sig : Signatures) (scope : TypeScope) (decl : VarDecl (Expr ExprId)) : List Entry :=
  decl.inits.flatMap (sig.exprEntries scope)

def optionEntries (sig : Signatures) (scope : TypeScope) (e : Option (Expr ExprId)) : List Entry :=
  e.toList.flatMap (sig.exprEntries scope)

mutual

/-- The types of all expressions in a statement, and the scope after it. Blocks and `for` loops have
scopes of their own; a declaration that is the whole body of an `if` or of another loop is still
in scope after it. -/
def stmtEntries (sig : Signatures) (scope : TypeScope) :
    Stmt ExprId StmtId → List Entry × TypeScope
  | .node _ (.block body) => ((sig.stmtsEntries scope body).1, scope)
  | .node _ (.vars decl) => (sig.varEntries scope decl, sig.declare scope decl)
  | .node _ (.expr value) => (sig.exprEntries scope value, scope)
  | .node _ (.ifElse cond onTrue none) =>
    let (types, scope') := sig.stmtEntries scope onTrue
    (sig.exprEntries scope cond ++ types, scope')
  | .node _ (.ifElse cond onTrue (some onFalse)) =>
    let (types, scope') := sig.stmtEntries scope onTrue
    let (types', scope'') := sig.stmtEntries scope' onFalse
    (sig.exprEntries scope cond ++ (types ++ types'), scope'')
  | .node _ (.forLoop start cond step body) =>
    let (types, scope') := sig.stmtEntries scope start
    let (types', _) := sig.stmtEntries scope' body
    (types ++ (sig.optionEntries scope' cond ++ (sig.optionEntries scope' step ++ types')), scope)
  | .node _ (.whileLoop cond body) =>
    let (types, scope') := sig.stmtEntries scope body
    (sig.exprEntries scope cond ++ types, scope')
  | .node _ (.doWhile body cond) =>
    let (types, scope') := sig.stmtEntries scope body
    (types ++ sig.exprEntries scope' cond, scope')
  | .node _ (.returns value) => (sig.optionEntries scope value, scope)
  | .node _ .breaks | .node _ .continues | .node _ .discards | .node _ .empty => ([], scope)

def stmtsEntries (sig : Signatures) (scope : TypeScope) :
    List (Stmt ExprId StmtId) → List Entry × TypeScope
  | [] => ([], scope)
  | s :: rest =>
    let (types, scope') := sig.stmtEntries scope s
    let (types', scope'') := sig.stmtsEntries scope' rest
    (types ++ types', scope'')

end

def paramScope (sig : Signatures) (scope : TypeScope) (ps : List Param) : TypeScope :=
  ps.foldl (fun scope p => match p.name with
    | some name => (name, sig.resolve p.type p.arraySize) :: scope
    | none => scope) scope

def declEntries (sig : Signatures) (scope : TypeScope) :
    DeclTree ExprId StmtId → List Entry × TypeScope
  | .function decl =>
    match decl.body with
    | some body => ((sig.stmtEntries (sig.paramScope scope decl.params) body).1, scope)
    | none => ([], scope)
  | .vars decl => (sig.varEntries scope decl, sig.declare scope decl)
  | .directive _ | .precision _ _ | .struct _ => ([], scope)

def declsEntries (sig : Signatures) : TypeScope → List (DeclTree ExprId StmtId) → List Entry
  | _, [] => []
  | scope, d :: rest =>
    let (types, scope') := sig.declEntries scope d
    types ++ sig.declsEntries scope' rest

end Signatures

structure Types where
  bySlot : Array (Option Ty)

namespace Types

def note (types : Array (Option Ty)) (entry : Signatures.Entry) : Array (Option Ty) :=
  match entry with
  | (id, some type) => types.setIfInBounds id.index (some type)
  | (_, none) => types

def ofShader (s : Shader) : Types :=
  let entries := (Signatures.ofShader s).declsEntries [] s.declTrees
  ⟨entries.foldl note (Array.replicate s.exprs.size none)⟩

def get? (types : Types) (id : ExprId) : Option Ty :=
  types.bySlot[id.index]?.join

def count (types : Types) : Nat :=
  types.bySlot.countP Option.isSome

end Types

end ShaderReducer
