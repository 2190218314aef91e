import ShaderReducer.Analysis.Writes

/-!
# Uses of names

How often functions are called, types are named and variables are referred to.
-/

namespace ShaderReducer

/-- The uses of names in a shader: the names that are called, constructors among them; the names of
types in declarations; and the identifiers in the body of each function. -/
structure NameUses where
  called : List String
  typeNames : List String
  identifiers : List (DeclId × List String)

namespace NameUses

def calledName? {ε : Type} : Expr ε → Option String
  | .node _ (.call callee _) => some callee
  | _ => none

def identifier? {ε : Type} : Expr ε → Option String
  | .node _ (.ident name) => some name
  | _ => none

def localTypeName? {ε σ : Type} : Stmt ε σ → Option String
  | .node _ (.vars decl) => some decl.type.name
  | _ => none

def typeNamesOf {ε σ : Type} (d : DeclTree ε σ) : List String :=
  match d with
  | .function decl =>
    decl.returnType.name :: decl.params.map (fun param => param.type.name) ++
      d.stmtVisits.filterMap fun (_, s) => localTypeName? s
  | .struct decl => decl.fields.map fun field => field.type.name
  | .vars decl => [decl.type.name]
  | .directive _ | .precision _ _ => []

def identifiersOf {ε σ : Type} (d : DeclTree ε σ) : List String :=
  match d with
  | .function _ => d.exprVisits.filterMap fun (_, e) => identifier? e
  | _ => []

def ofShader (s : Shader) : NameUses where
  called := s.exprVisits.filterMap fun (_, e) => calledName? e
  typeNames := s.declTrees.flatMap typeNamesOf
  identifiers := s.decls.map fun id => (id, identifiersOf (s.declTree id))

def calls (uses : NameUses) (name : String) : Nat :=
  uses.called.count name

def typeRefs (uses : NameUses) (name : String) : Nat :=
  uses.typeNames.count name

def identUsesIn (uses : NameUses) (function : DeclId) (name : String) : Nat :=
  match uses.identifiers.lookup function with
  | some names => names.count name
  | none => 0

end NameUses

end ShaderReducer
