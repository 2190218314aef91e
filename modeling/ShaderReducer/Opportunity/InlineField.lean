import ShaderReducer.Opportunity.Basic

/-!
# Fields of synthetic structures

A synthetic structure may have a field that holds another synthetic structure. The fields of the
inner one may take its place: constructors of the outer structure are then called with the arguments
of the inner constructor, and accesses through the field become accesses to the inner field.

Names that were made up are joined, as in `_f1_f0` for the field `_f0` inside `_f1`. A name that is
taken gets a number.
-/

namespace ShaderReducer

/-- Numbers for made-up names. Each is handed out once. -/
structure NameSupply where
  next : Nat := 0
  deriving Repr, DecidableEq

def NameSupply.fresh (supply : NameSupply) : Nat × NameSupply :=
  (supply.next, ⟨supply.next + 1⟩)

namespace InlineField

def structStart : String := "_GLF_struct_"

def fieldStart : String := "_f"

def startsWith (name start : String) : Bool :=
  Text.startsWith start.toList name.toList

/-- An access through the field: `member` is `base.outer.inner`, `wrapper` is `base.outer`, and
`position` is that of the inner field. -/
structure Access where
  member : ExprId
  wrapper : ExprId
  base : ExprId
  position : Nat
  deriving Repr, DecidableEq

/-- All that changes when the field at `position` is replaced by `fields`: the calls of the
constructor and the accesses through the field. -/
structure Plan where
  position : Nat
  fields : List FieldDecl
  constructors : List ExprId
  accesses : List Access
  deriving Repr, DecidableEq

/-- The value that a wrapper is a member of: an expression is one if it takes the field of a value
of the outer structure. -/
def wrapperBase? (types : Types) (outer field : String) (e : Expr ExprId) :
    Option (Expr ExprId) :=
  match e with
  | .node _ (.member base name) =>
    if name = field ∧ types.get? base.tag = some (.struct outer) then some base else none
  | _ => none

/-- Whether an expression stands in the way: a constructor of the outer structure without one of the
inner structure at its place, or a member of that name of a value whose type is not known. -/
def blocks (types : Types) (outer : StructDecl) (inner field : String) (position : Nat)
    (e : Expr ExprId) : Bool :=
  match e with
  | .node _ (.call callee args) =>
    callee == outer.name &&
      !(args.length == outer.fields.length &&
        match args[position]?.map Expr.stripParens with
        | some (.node _ (.call callee' _)) => callee' == inner
        | _ => false)
  | .node _ (.member base name) => name == field && (types.get? base.tag).isNone
  | _ => false

def constructor? (outer : String) (e : Expr ExprId) : Option ExprId :=
  match e with
  | .node id (.call callee _) => if callee = outer then some id else none
  | _ => none

/-- A member of a wrapper: its slot, those of the wrapper and of the value, and the name of the
inner field. -/
def throughWrapper? (types : Types) (outer field : String) (e : Expr ExprId) :
    Option (ExprId × ExprId × ExprId × String) :=
  match e with
  | .node id (.member wrapper name) =>
    (wrapperBase? types outer field wrapper).map fun base => (id, wrapper.tag, base.tag, name)
  | _ => none

/-- The plan to replace a field by the fields of the structure in it, if nothing stands in the
way. -/
def plan? (s : Shader) (types : Types) (outerId : DeclId) (field : String) : Option Plan := do
  let outer ← (s.decl outerId).struct?
  if !startsWith outer.name structStart || !startsWith field fieldStart then none
  let position ← outer.fieldIndex? field
  let wrapper ← outer.fields[position]?
  if wrapper.arraySize.isSome || !startsWith wrapper.type.name structStart then none
  let (_, inner) ← s.findStruct? wrapper.type.name
  let exprs := s.exprVisits.map Prod.snd
  if exprs.any (blocks types outer inner.name field position) then none
  let accesses ← (exprs.filterMap (throughWrapper? types outer.name field)).mapM
    fun (member, wrapper, base, name) =>
      (inner.fieldIndex? name).map fun position => ⟨member, wrapper, base, position⟩
  let wrappers := exprs.filter fun e => (wrapperBase? types outer.name field e).isSome
  if wrappers.all fun e => accesses.any fun access => access.wrapper == e.tag then
    some ⟨position, inner.fields, exprs.filterMap (constructor? outer.name), accesses⟩
  else none

/-- The first of a name and its numbered forms that is not taken. There are more of them than names
that are taken, so `attempts` does not run out. -/
def freeName (taken : List String) (preferred name : String) (supply : NameSupply) :
    Nat → String × NameSupply
  | 0 => (name, supply)
  | attempts + 1 =>
    if taken.contains name then
      let (n, supply) := supply.fresh
      freeName taken preferred (preferred ++ "_" ++ toString n) supply attempts
    else (name, supply)

def joinedName (field : String) (inner : FieldDecl) : String :=
  if startsWith inner.name fieldStart then field ++ inner.name else inner.name

/-- The inner fields under names that are not taken. -/
def renamed (field : String) (taken : List String) (supply : NameSupply) :
    List FieldDecl → List FieldDecl × NameSupply
  | [] => ([], supply)
  | inner :: rest =>
    let preferred := joinedName field inner
    let (name, supply) := freeName taken preferred preferred supply (taken.length + 1)
    let (fields, supply) := renamed field (name :: taken) supply rest
    (⟨inner.type, name, inner.arraySize⟩ :: fields, supply)

def parenSlots {ε : Type} : Expr ε → List ε
  | .node id (.paren inner) => id :: parenSlots inner
  | .node id _ => [id]

def spliceConstructor (position : Nat) (s : Shader) (call : ExprId) : Shader :=
  match s.expr call with
  | .call callee args =>
    match args[position]? with
    | some wrapped =>
      let wrappedTree := s.exprTree wrapped
      match s.expr wrappedTree.stripParens.tag with
      | .call _ innerArgs =>
        let s := s.forgetExprs (parenSlots wrappedTree)
        s.setExpr call (.call callee (args.take position ++ innerArgs ++ args.drop (position + 1)))
      | _ => s
    | none => s
  | _ => s

def redirect (names : List String) (s : Shader) (access : Access) : Shader :=
  (s.setExpr access.member (.member access.base (names[access.position]?.getD ""))).forgetExpr
    access.wrapper

def holds (s : Shader) (outer : DeclId) (field : String) : Bool :=
  s.isDeclLive outer && (plan? s (Types.ofShader s) outer field).isSome

def apply (s : Shader) (supply : NameSupply) (outerId : DeclId) (field : String) :
    Shader × NameSupply :=
  match plan? s (Types.ofShader s) outerId field, (s.decl outerId).struct? with
  | some plan, some outer =>
    let before := outer.fields.take plan.position
    let after := outer.fields.drop (plan.position + 1)
    let (fields, supply) := renamed field ((before ++ after).map FieldDecl.name) supply plan.fields
    let s := s.setDecl outerId (.struct ⟨outer.name, before ++ fields ++ after⟩)
    let s := plan.constructors.foldl (spliceConstructor plan.position) s
    (plan.accesses.foldl (redirect (fields.map FieldDecl.name)) s, supply)
  | _, _ => (s, supply)

def find (s : Shader) (a : Analysis) : List Opportunity :=
  s.structs.flatMap fun (outer, decl) =>
    (decl.fields.filter fun field => (plan? s a.types outer field.name).isSome).map fun field =>
      ⟨0, .inlineField outer field.name⟩

end InlineField

end ShaderReducer
