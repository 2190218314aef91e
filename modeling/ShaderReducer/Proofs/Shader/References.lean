import ShaderReducer.Analysis.Uses
import ShaderReducer.Proofs.Shader.Places

/-!
# What names refer to

An identifier refers to the newest declaration of its name that is visible where it stands. A
variable at top level is visible from its declarator on, a parameter in the body of its function,
and a variable in a function from its declarator to the end of the innermost block, `for` statement,
branch or body of a loop around it. Whether it is visible in its own initial value is left open:
`own` says so.

What is below a node can be told without what is visible around it. The identifiers that are left
open then are looked up there.
-/

namespace ShaderReducer

/-- A declaration that an identifier can refer to, by its position in the declaration of variables
or in the row of parameters that it is in. -/
inductive Referent where
  | inDecl (decl : DeclId) (position : Nat)
  | param (function : DeclId) (position : Nat)
  | inStmt (stmt : StmtId) (position : Nat)
  deriving Repr, DecidableEq

/-- The names that are visible, newest first, with what they refer to. -/
abbrev NameScope := List (String × Referent)

/-- The names that one declaration makes visible. -/
def NameScope.ofNames (referent : Nat → Referent) (names : List (Option String)) : NameScope :=
  (names.zipIdx.filterMap fun (name, i) => name.map fun name => (name, referent i)).reverse

/-- An identifier, and what it refers to. -/
structure Reference where
  id : ExprId
  name : String
  referent : Option Referent
  deriving Repr, DecidableEq

/-- An identifier that was left open is looked up. -/
def Reference.resolve (outer : NameScope) (r : Reference) : Reference :=
  { r with referent := r.referent.or (outer.lookup r.name) }

namespace Expr

/-- What an expression refers to if it is an identifier. -/
def reference? (scope : NameScope) (e : Expr ExprId) : Option Reference :=
  (NameUses.identifier? e).map fun name => ⟨e.tag, name, scope.lookup name⟩

/-- What the identifiers in an expression refer to. -/
def references (scope : NameScope) (e : Expr ExprId) : List Reference :=
  e.subexprs.filterMap (reference? scope)

end Expr

/-- What the identifiers in the initial values of variables refer to. -/
def Declarator.references (own : Bool) (referent : Nat → Referent) (scope : NameScope) :
    List (Declarator (Expr ExprId)) → List Reference
  | [] => []
  | d :: rest =>
    let inner := (d.name, referent 0) :: scope
    d.init.toList.flatMap (Expr.references (if own then inner else scope)) ++
      references own (fun i => referent (i + 1)) inner rest

/-- The names that the variables of a declaration make visible. -/
def VarDecl.declared {ρ : Type} (referent : Nat → Referent) (decl : VarDecl ρ) : NameScope :=
  .ofNames referent (decl.declarators.map fun d => some d.name)

@[simp] theorem VarDecl.declared_map {ρ τ : Type} (f : ρ → τ) (referent : Nat → Referent)
    (decl : VarDecl ρ) : (decl.map f).declared referent = decl.declared referent := by
  rw [declared, declared, map, List.map_map]
  rfl

/-- The names that a form of statement makes visible in what comes after it. -/
def StmtNode.declared {ρ σ : Type} (id : StmtId) : StmtNode ρ σ → NameScope
  | .vars decl => decl.declared (.inStmt id)
  | _ => []

@[simp] theorem StmtNode.declared_map {ρ σ ρ' σ' : Type} (f : ρ → ρ') (g : σ → σ') (id : StmtId)
    (form : StmtNode ρ σ) : (form.map f g).declared id = form.declared id := by
  cases form with
  | vars decl => exact decl.declared_map f _
  | _ => rfl

namespace Stmt

/-- The names that a statement makes visible in what comes after it. -/
def declared {ε : Type} (t : Stmt ε StmtId) : NameScope :=
  t.form.declared t.tag

/-- The names that a row of statements makes visible in what comes after it. -/
def declaredAll {ε : Type} : List (Stmt ε StmtId) → NameScope
  | [] => []
  | t :: rest => declaredAll rest ++ t.declared

mutual

/-- What the identifiers in a statement refer to. -/
def references (own : Bool) (scope : NameScope) : Stmt ExprId StmtId → List Reference
  | .node _ (.block body) => referencesAll own scope body
  | .node tag (.vars decl) => Declarator.references own (.inStmt tag) scope decl.declarators
  | .node _ (.expr value) => value.references scope
  | .node _ (.ifElse cond onTrue none) => cond.references scope ++ onTrue.references own scope
  | .node _ (.ifElse cond onTrue (some onFalse)) =>
    cond.references scope ++ (onTrue.references own scope ++ onFalse.references own scope)
  | .node _ (.forLoop start cond step body) =>
    let inner := start.declared ++ scope
    start.references own scope ++ (cond.toList.flatMap (Expr.references inner) ++
      (step.toList.flatMap (Expr.references inner) ++ body.references own inner))
  | .node _ (.whileLoop cond body) => cond.references scope ++ body.references own scope
  | .node _ (.doWhile body cond) => body.references own scope ++ cond.references scope
  | .node _ (.returns value) => value.toList.flatMap (Expr.references scope)
  | .node _ .breaks | .node _ .continues | .node _ .discards | .node _ .empty => []

/-- What the identifiers in a row of statements refer to. -/
def referencesAll (own : Bool) (scope : NameScope) : List (Stmt ExprId StmtId) → List Reference
  | [] => []
  | t :: rest => t.references own scope ++ referencesAll own (t.declared ++ scope) rest

end

end Stmt

namespace DeclTree

/-- The names that a declaration at top level makes visible in what comes after it. -/
def declared {ε σ : Type} (id : DeclId) : DeclTree ε σ → NameScope
  | .vars decl => decl.declared (.inDecl id)
  | .directive _ | .precision _ _ | .struct _ | .function _ => []

theorem declared_map {ρ τ ε σ : Type} {f : ρ → Expr ε} {g g' : τ → Stmt ε σ} (id : DeclId)
    (d : Decl ρ τ) : declared id (d.map f g) = declared id (d.map f g') := by
  cases d <;> rfl

/-- What the identifiers in a declaration at top level refer to. -/
def references (own : Bool) (id : DeclId) (scope : NameScope) :
    DeclTree ExprId StmtId → List Reference
  | .function decl =>
    let inner := .ofNames (.param id) (decl.params.map Param.name) ++ scope
    decl.body.toList.flatMap (Stmt.references own inner)
  | .vars decl => Declarator.references own (.inDecl id) scope decl.declarators
  | .directive _ | .precision _ _ | .struct _ => []

end DeclTree

namespace Shader

/-- What the identifiers in a row of declarations refer to. -/
def referencesFrom (s : Shader) (own : Bool) (scope : NameScope) : List DeclId → List Reference
  | [] => []
  | d :: rest =>
    (s.declTree d).references own d scope ++
      s.referencesFrom own ((s.declTree d).declared d ++ scope) rest

/-- What the identifiers in a shader refer to. -/
def references (s : Shader) (own : Bool) : List Reference :=
  s.referencesFrom own [] s.decls

/-- What the identifier in a slot refers to, if there is one in the slot and it is in the shader. -/
def referent? (s : Shader) (own : Bool) (id : ExprId) : Option (Option Referent) :=
  ((s.references own).find? fun r => r.id == id).map Reference.referent

end Shader

/-! ## Identifiers that are left open -/

namespace Reference

variable {inner outer : NameScope}

theorem referent_resolve_of_none {r : Reference} (h : r.referent = none) (outer : NameScope) :
    (r.resolve outer).referent = outer.lookup r.name := by
  rw [resolve, h, Option.none_or]

theorem reference?_append (e : Expr ExprId) :
    e.reference? (inner ++ outer) = (e.reference? inner).map (resolve outer) := by
  rw [Expr.reference?, Expr.reference?, Option.map_map]
  congr 1
  funext name
  rw [List.lookup_append]
  rfl

end Reference

section Resolve

variable {own : Bool}

open Reference (resolve)

theorem Expr.references_append (e : Expr ExprId) (inner outer : NameScope) :
    e.references (inner ++ outer) = (e.references inner).map (resolve outer) := by
  rw [Expr.references, Expr.references, List.map_filterMap]
  exact List.filterMap_congr fun sub _ => Reference.reference?_append sub

theorem Expr.flatMap_references_append (es : List (Expr ExprId)) (inner outer : NameScope) :
    es.flatMap (references (inner ++ outer)) =
      (es.flatMap (references inner)).map (resolve outer) := by
  rw [List.map_flatMap]
  exact List.flatMap_congr fun e _ => e.references_append inner outer

theorem Declarator.references_append (referent : Nat → Referent)
    (ds : List (Declarator (Expr ExprId))) (inner outer : NameScope) :
    Declarator.references own referent (inner ++ outer) ds =
      (Declarator.references own referent inner ds).map (resolve outer) := by
  induction ds generalizing referent inner with
  | nil => rfl
  | cons d ds ih =>
      have hscope : (if own then (d.name, referent 0) :: (inner ++ outer) else inner ++ outer) =
          (if own then (d.name, referent 0) :: inner else inner) ++ outer := by
        cases own <;> rfl
      rw [Declarator.references, Declarator.references, hscope, Expr.flatMap_references_append,
        ← List.cons_append, ih, List.map_append]

theorem Stmt.referencesAll_append_of_forall {ts : List (Stmt ExprId StmtId)} {outer : NameScope}
    (h : ∀ t ∈ ts, ∀ inner : NameScope,
      t.references own (inner ++ outer) = (t.references own inner).map (resolve outer))
    (inner : NameScope) :
    referencesAll own (inner ++ outer) ts = (referencesAll own inner ts).map (resolve outer) := by
  induction ts generalizing inner with
  | nil => rfl
  | cons t ts ih =>
      rw [referencesAll, referencesAll, h t List.mem_cons_self, ← List.append_assoc,
        ih fun t' ht' => h t' (List.mem_cons_of_mem _ ht'), List.map_append]

/-- What is visible around a statement matters to the identifiers that are left open in it. -/
theorem Stmt.references_append (t : Stmt ExprId StmtId) (inner outer : NameScope) :
    t.references own (inner ++ outer) = (t.references own inner).map (resolve outer) := by
  induction t generalizing inner with
  | node tag form ih =>
      cases form with
      | block body => exact referencesAll_append_of_forall ih inner
      | vars decl => exact Declarator.references_append _ _ inner outer
      | expr value => exact value.references_append inner outer
      | ifElse cond onTrue onFalse =>
          have htrue := ih onTrue (by simp [StmtNode.childStmts]) inner
          cases onFalse with
          | none => rw [references, references, Expr.references_append, htrue, List.map_append]
          | some onFalse =>
              have hfalse := ih onFalse (by simp [StmtNode.childStmts]) inner
              rw [references, references, Expr.references_append, htrue, hfalse, List.map_append,
                List.map_append]
      | forLoop start cond step body =>
          have hstart := ih start (by simp [StmtNode.childStmts]) inner
          have hbody := ih body (by simp [StmtNode.childStmts]) (start.declared ++ inner)
          have hscope : start.declared ++ (inner ++ outer) = start.declared ++ inner ++ outer :=
            (List.append_assoc _ _ _).symm
          simp only [references, hscope, hstart, hbody, Expr.flatMap_references_append,
            List.map_append]
      | whileLoop cond body =>
          have hbody := ih body (by simp [StmtNode.childStmts]) inner
          rw [references, references, Expr.references_append, hbody, List.map_append]
      | doWhile body cond =>
          have hbody := ih body (by simp [StmtNode.childStmts]) inner
          rw [references, references, Expr.references_append, hbody, List.map_append]
      | returns value => exact Expr.flatMap_references_append _ inner outer
      | breaks => rfl
      | continues => rfl
      | discards => rfl
      | empty => rfl

/-- What a row of statements refers to is told by what is left open in it. -/
theorem Stmt.referencesAll_eq_map (outer : NameScope) (ts : List (Stmt ExprId StmtId)) :
    referencesAll own outer ts = (referencesAll own [] ts).map (resolve outer) :=
  referencesAll_append_of_forall (fun t _ inner => t.references_append inner outer) []

end Resolve

/-! ## Parts and wholes -/

/-- The statements in a block, and the first part of a loop: what they declare is visible after
them. -/
def StmtNode.rowStmts {ρ σ : Type} : StmtNode ρ σ → List σ
  | .block body => body
  | .forLoop start _ _ _ => [start]
  | _ => []

theorem StmtNode.rowStmts_subset {ρ σ : Type} (form : StmtNode ρ σ) :
    form.rowStmts ⊆ form.childStmts := by
  cases form <;> simp [rowStmts, childStmts]

theorem NameScope.exists_of_mem_ofNames {referent : Nat → Referent} {names : List (Option String)}
    {entry : String × Referent} (h : entry ∈ NameScope.ofNames referent names) :
    ∃ i, entry.2 = referent i := by
  obtain ⟨⟨name, i⟩, -, hentry⟩ := List.mem_filterMap.mp (List.mem_reverse.mp h)
  obtain ⟨name, -, rfl⟩ := Option.map_eq_some_iff.mp hentry
  exact ⟨i, rfl⟩

theorem NameScope.mem_of_lookup_eq_some {scope : NameScope} {name : String} {referent : Referent}
    (h : scope.lookup name = some referent) : (name, referent) ∈ scope := by
  obtain ⟨before, after, rfl, -⟩ := List.lookup_eq_some_iff.mp h
  exact List.mem_append_right _ List.mem_cons_self

section Row

variable {own : Bool} {scope : NameScope} {ρ σ : Type} {f : ρ → Expr ExprId}
  {g g' : σ → Stmt ExprId StmtId}

theorem append_subset_append {α : Type} {l₁ l₂ l₁' l₂' : List α} (h : l₁ ⊆ l₁') (h' : l₂ ⊆ l₂') :
    l₁ ++ l₂ ⊆ l₁' ++ l₂' :=
  List.append_subset.mpr
    ⟨List.subset_append_of_subset_left _ h, List.subset_append_of_subset_right _ h'⟩

namespace Stmt

theorem declaredAll_map_congr {ts : List σ} (h : ∀ c ∈ ts, (g c).declared = (g' c).declared) :
    declaredAll (ts.map g) = declaredAll (ts.map g') := by
  induction ts with
  | nil => rfl
  | cons c ts ih =>
      rw [List.map_cons, List.map_cons, declaredAll, declaredAll, h c List.mem_cons_self,
        ih fun c' hc' => h c' (List.mem_cons_of_mem _ hc')]

/-- A row of statements refers to no more than another one if each of its statements does. -/
theorem referencesAll_map_subset {ts : List σ}
    (hdeclared : ∀ c ∈ ts, (g c).declared = (g' c).declared)
    (h : ∀ c ∈ ts, ∀ scope, (g c).references own scope ⊆ (g' c).references own scope) :
    referencesAll own scope (ts.map g) ⊆ referencesAll own scope (ts.map g') := by
  induction ts generalizing scope with
  | nil => exact List.Subset.refl _
  | cons c ts ih =>
      rw [List.map_cons, List.map_cons, referencesAll, referencesAll,
        hdeclared c List.mem_cons_self]
      exact append_subset_append (h c List.mem_cons_self scope)
        (ih (fun c' hc' => hdeclared c' (List.mem_cons_of_mem _ hc'))
          fun c' hc' => h c' (List.mem_cons_of_mem _ hc'))

/-- A statement refers to no more than another one of its form if its parts do. -/
theorem references_map_subset {tag : StmtId} {form : StmtNode ρ σ}
    (hdeclared : ∀ c ∈ form.childStmts, (g c).declared = (g' c).declared)
    (h : ∀ c ∈ form.childStmts, ∀ scope,
      (g c).references own scope ⊆ (g' c).references own scope) :
    (node tag (form.map f g)).references own scope ⊆
      (node tag (form.map f g')).references own scope := by
  cases form with
  | block body => exact referencesAll_map_subset hdeclared h
  | ifElse cond onTrue onFalse =>
      have htrue := h onTrue (by simp [StmtNode.childStmts]) scope
      cases onFalse with
      | none => exact append_subset_append (List.Subset.refl _) htrue
      | some onFalse =>
          have hfalse := h onFalse (by simp [StmtNode.childStmts]) scope
          exact append_subset_append (List.Subset.refl _) (append_subset_append htrue hfalse)
  | forLoop start cond step body =>
      have hstart := h start (by simp [StmtNode.childStmts]) scope
      have hbody := h body (by simp [StmtNode.childStmts]) ((g' start).declared ++ scope)
      rw [StmtNode.map, StmtNode.map, references, references,
        hdeclared start (by simp [StmtNode.childStmts])]
      exact append_subset_append hstart (append_subset_append (List.Subset.refl _)
        (append_subset_append (List.Subset.refl _) hbody))
  | whileLoop cond body =>
      exact append_subset_append (List.Subset.refl _) (h body (by simp [StmtNode.childStmts]) scope)
  | doWhile body cond =>
      exact append_subset_append (h body (by simp [StmtNode.childStmts]) scope) (List.Subset.refl _)
  | _ => exact List.Subset.refl _

theorem declaredAll_append {ε : Type} (ts ts' : List (Stmt ε StmtId)) :
    declaredAll (ts ++ ts') = declaredAll ts' ++ declaredAll ts := by
  induction ts with
  | nil => rw [List.nil_append, declaredAll, List.append_nil]
  | cons t ts ih => rw [List.cons_append, declaredAll, declaredAll, ih, List.append_assoc]

theorem mem_declaredAll {ε : Type} {ts : List (Stmt ε StmtId)} {entry : String × Referent} :
    entry ∈ declaredAll ts ↔ ∃ t ∈ ts, entry ∈ t.declared := by
  induction ts with
  | nil => simp [declaredAll]
  | cons t ts ih => simp [declaredAll, ih, or_comm]

/-- What a statement declares is declared in its slot. -/
theorem exists_of_mem_declared {ε : Type} {t : Stmt ε StmtId} {entry : String × Referent}
    (h : entry ∈ t.declared) : ∃ i, entry.2 = .inStmt t.tag i := by
  obtain ⟨tag, form⟩ := t
  cases form with
  | vars decl => exact NameScope.exists_of_mem_ofNames h
  | _ => cases h

theorem referencesAll_append_row (scope : NameScope) (ts ts' : List (Stmt ExprId StmtId)) :
    referencesAll own scope (ts ++ ts') =
      referencesAll own scope ts ++ referencesAll own (declaredAll ts ++ scope) ts' := by
  induction ts generalizing scope with
  | nil => rfl
  | cons t ts ih =>
      rw [List.cons_append, referencesAll, referencesAll, ih, declaredAll, List.append_assoc,
        List.append_assoc]

/-- A part of a statement refers to what it refers to in the statement, where it is given the names
that are declared before it. -/
theorem exists_references_subset (own : Bool) (scope : NameScope) {form : StmtNode ρ σ} {c : σ}
    (hc : c ∈ form.childStmts) (tag : StmtId) (f : ρ → Expr ExprId) (g : σ → Stmt ExprId StmtId) :
    ∃ inner : NameScope, (∀ entry ∈ inner, ∃ u ∈ form.rowStmts, entry ∈ (g u).declared) ∧
      ∀ g' : σ → Stmt ExprId StmtId, (∀ u ∈ form.childStmts, (g' u).declared = (g u).declared) →
        (g' c).references own (inner ++ scope) ⊆
          (node tag (form.map f g')).references own scope := by
  cases form with
  | block body =>
      obtain ⟨before, after, rfl⟩ := List.append_of_mem hc
      refine ⟨declaredAll (before.map g), fun entry hentry => ?_, fun g' hdeclared => ?_⟩
      · obtain ⟨t, ht, hentry⟩ := mem_declaredAll.mp hentry
        obtain ⟨u, hu, rfl⟩ := List.mem_map.mp ht
        exact ⟨u, List.mem_append_left _ hu, hentry⟩
      · have hbefore : declaredAll (before.map g') = declaredAll (before.map g) :=
          declaredAll_map_congr fun u hu => hdeclared u (List.mem_append_left _ hu)
        rw [StmtNode.map, references, List.map_append, List.map_cons, referencesAll_append_row,
          hbefore, referencesAll]
        exact List.subset_append_of_subset_right _ (List.subset_append_left _ _)
  | forLoop start cond step body =>
      rcases List.mem_cons.mp hc with rfl | hc
      · refine ⟨[], fun _ h => absurd h List.not_mem_nil, fun g' _ => ?_⟩
        exact List.subset_append_left _ _
      · obtain rfl := List.mem_singleton.mp hc
        refine ⟨(g start).declared, fun entry hentry => ⟨start, List.mem_cons_self, hentry⟩,
          fun g' hdeclared => ?_⟩
        rw [StmtNode.map, references, hdeclared start List.mem_cons_self]
        exact List.subset_append_of_subset_right _ (List.subset_append_of_subset_right _
          (List.subset_append_right _ _))
  | ifElse cond onTrue onFalse =>
      refine ⟨[], fun _ h => absurd h List.not_mem_nil, fun g' _ => ?_⟩
      cases onFalse with
      | none =>
          obtain rfl := List.mem_singleton.mp hc
          exact List.subset_append_right _ _
      | some onFalse =>
          refine List.subset_append_of_subset_right _ ?_
          rcases List.mem_cons.mp hc with rfl | hc
          · exact List.subset_append_left _ _
          · obtain rfl := List.mem_singleton.mp hc
            exact List.subset_append_right _ _
  | whileLoop cond body =>
      obtain rfl := List.mem_singleton.mp hc
      exact ⟨[], fun _ h => absurd h List.not_mem_nil, fun g' _ => List.subset_append_right _ _⟩
  | doWhile body cond =>
      obtain rfl := List.mem_singleton.mp hc
      exact ⟨[], fun _ h => absurd h List.not_mem_nil, fun g' _ => List.subset_append_left _ _⟩
  | _ => cases hc

end Stmt

end Row

/-! ## Identifiers and places -/

section Places

variable {own : Bool}

/-- The expressions that are identifiers, by their slots. -/
def Expr.identifierIds (es : List (Expr ExprId)) : List ExprId :=
  (es.filter fun e => (NameUses.identifier? e).isSome).map Expr.tag

theorem Expr.identifierIds_append (es es' : List (Expr ExprId)) :
    identifierIds (es ++ es') = identifierIds es ++ identifierIds es' := by
  rw [identifierIds, List.filter_append, List.map_append]
  rfl

theorem Expr.map_id_references (depth : Nat) (scope : NameScope) (e : Expr ExprId) :
    (e.references scope).map Reference.id = identifierIds ((e.visits depth).map Prod.snd) := by
  rw [references, map_snd_visits, identifierIds]
  generalize e.subexprs = subs
  induction subs with
  | nil => rfl
  | cons sub subs ih =>
      rw [List.filterMap_cons, List.filter_cons, reference?]
      cases NameUses.identifier? sub with
      | none => exact ih
      | some name => exact congrArg (List.cons sub.tag) ih

theorem Expr.map_id_flatMap_references (depth : Nat) (scope : NameScope)
    (es : List (Expr ExprId)) :
    (es.flatMap (references scope)).map Reference.id =
      identifierIds ((es.flatMap (visits depth)).map Prod.snd) := by
  induction es with
  | nil => rfl
  | cons e es ih =>
      rw [List.flatMap_cons, List.flatMap_cons, List.map_append, List.map_append,
        identifierIds_append, map_id_references depth, ih]

theorem Declarator.map_id_references (depth : Nat) (referent : Nat → Referent)
    (scope : NameScope) (ds : List (Declarator (Expr ExprId))) :
    (Declarator.references own referent scope ds).map Reference.id = Expr.identifierIds
      (((ds.filterMap Declarator.init).flatMap (Expr.visits depth)).map Prod.snd) := by
  induction ds generalizing referent scope with
  | nil => rfl
  | cons d ds ih =>
      have hinits : (d :: ds).filterMap Declarator.init =
          d.init.toList ++ ds.filterMap Declarator.init := by
        rw [List.filterMap_cons]
        cases d.init <;> rfl
      rw [hinits, Declarator.references, List.map_append, List.flatMap_append, List.map_append,
        Expr.identifierIds_append, ih, Expr.map_id_flatMap_references depth]

theorem Stmt.map_id_referencesAll_of_forall {depth : Nat} {ts : List (Stmt ExprId StmtId)}
    (h : ∀ t ∈ ts, ∀ scope : NameScope, (t.references own scope).map Reference.id =
      Expr.identifierIds ((t.exprVisits depth).map Prod.snd)) (scope : NameScope) :
    (referencesAll own scope ts).map Reference.id =
      Expr.identifierIds ((exprVisitsAll depth ts).map Prod.snd) := by
  induction ts generalizing scope with
  | nil => rfl
  | cons t ts ih =>
      rw [referencesAll, exprVisitsAll, List.map_append, List.map_append, Expr.identifierIds_append,
        h t List.mem_cons_self, ih fun t' ht' => h t' (List.mem_cons_of_mem _ ht')]

/-- The identifiers in a statement are those among the expressions that are visited in it. -/
theorem Stmt.map_id_references (depth : Nat) (scope : NameScope) (t : Stmt ExprId StmtId) :
    (t.references own scope).map Reference.id =
      Expr.identifierIds ((t.exprVisits depth).map Prod.snd) := by
  induction t generalizing depth scope with
  | node tag form ih =>
      cases form with
      | block body =>
          exact map_id_referencesAll_of_forall (fun t ht => ih t ht (depth + 1)) scope
      | vars decl => exact Declarator.map_id_references (depth + 1) _ scope _
      | expr value => exact value.map_id_references (depth + 1) scope
      | ifElse cond onTrue onFalse =>
          have htrue := ih onTrue (by simp [StmtNode.childStmts]) (depth + 1) scope
          cases onFalse with
          | none =>
              rw [references, exprVisits, List.map_append, List.map_append,
                Expr.identifierIds_append, htrue, Expr.map_id_references]
          | some onFalse =>
              have hfalse := ih onFalse (by simp [StmtNode.childStmts]) (depth + 1) scope
              simp only [references, exprVisits, List.map_append, Expr.identifierIds_append, htrue,
                hfalse, Expr.map_id_references (depth + 1)]
      | forLoop start cond step body =>
          have hstart := ih start (by simp [StmtNode.childStmts]) (depth + 1) scope
          have hbody := ih body (by simp [StmtNode.childStmts]) (depth + 1)
            (start.declared ++ scope)
          simp only [references, exprVisits, List.map_append, Expr.identifierIds_append, hstart,
            hbody, Expr.map_id_flatMap_references (depth + 1)]
      | whileLoop cond body =>
          have hbody := ih body (by simp [StmtNode.childStmts]) (depth + 1) scope
          simp only [references, exprVisits, List.map_append, Expr.identifierIds_append, hbody,
            Expr.map_id_references (depth + 1)]
      | doWhile body cond =>
          have hbody := ih body (by simp [StmtNode.childStmts]) (depth + 1) scope
          simp only [references, exprVisits, List.map_append, Expr.identifierIds_append, hbody,
            Expr.map_id_references (depth + 1)]
      | returns value => exact Expr.map_id_flatMap_references (depth + 1) scope _
      | breaks => rfl
      | continues => rfl
      | discards => rfl
      | empty => rfl

theorem DeclTree.map_id_references (id : DeclId) (scope : NameScope)
    (d : DeclTree ExprId StmtId) :
    (d.references own id scope).map Reference.id =
      Expr.identifierIds (d.exprVisits.map Prod.snd) := by
  cases d with
  | function decl =>
      obtain ⟨type, name, params, body⟩ := decl
      cases body with
      | none => rfl
      | some body =>
          simp only [references, exprVisits, Option.toList_some, List.flatMap_cons,
            List.flatMap_nil, List.append_nil]
          exact body.map_id_references 1 _
  | vars decl => exact Declarator.map_id_references 1 _ scope _
  | _ => rfl

namespace Shader

variable {s : Shader}

theorem Grounded.declared_stmtTree (h : s.Grounded) (id : StmtId) :
    (s.stmtTree id).declared = (s.stmt id).declared id := by
  rw [h.stmtTree_eq, Stmt.declared, Stmt.form, Stmt.tag, StmtNode.declared_map]

theorem map_id_referencesFrom (s : Shader) (scope : NameScope) (ds : List DeclId) :
    (s.referencesFrom own scope ds).map Reference.id =
      Expr.identifierIds (((ds.map s.declTree).flatMap DeclTree.exprVisits).map Prod.snd) := by
  induction ds generalizing scope with
  | nil => rfl
  | cons d ds ih =>
      rw [referencesFrom, List.map_append, List.map_cons, List.flatMap_cons, List.map_append,
        Expr.identifierIds_append, ih, DeclTree.map_id_references]

/-- The identifiers that refer to something or to nothing are those that are visited. -/
theorem map_id_references (s : Shader) (own : Bool) :
    (s.references own).map Reference.id = Expr.identifierIds (s.exprVisits.map Prod.snd) :=
  s.map_id_referencesFrom [] s.decls

theorem Owned.nodup_references (h : s.Grounded) (ho : s.Owned) (own : Bool) :
    ((s.references own).map Reference.id).Nodup := by
  rw [map_id_references, Expr.identifierIds]
  refine List.Nodup.sublist ((List.filter_sublist).map Expr.tag) ?_
  rw [List.map_map]
  exact ho.nodup_exprVisits h

/-- An identifier refers to one thing. -/
theorem Owned.referent?_of_mem (h : s.Grounded) (ho : s.Owned) {r : Reference}
    (hr : r ∈ s.references own) : s.referent? own r.id = some r.referent := by
  rw [referent?, find?_key_of_nodup (ho.nodup_references h own) hr]
  rfl

/-- What refers to something or to nothing is an identifier that is reached. -/
theorem Owned.of_mem_references (h : s.Grounded) (ho : s.Owned) {r : Reference}
    (hr : r ∈ s.references own) :
    s.Reaches (.expr r.id) ∧ ∃ name, s.expr r.id = .ident name := by
  have hid := List.mem_map_of_mem (f := Reference.id) hr
  rw [map_id_references] at hid
  obtain ⟨e, he, htag⟩ := List.mem_map.mp hid
  obtain ⟨hvisit, hname⟩ := List.mem_filter.mp he
  obtain ⟨hlive, htree⟩ := (ho.mem_exprVisits h).mp hvisit
  rw [← htag]
  refine ⟨ho.reaches_of_mem_liveExprs h hlive, ?_⟩
  obtain ⟨tag, form⟩ := e
  cases form with
  | ident name => exact ⟨name, (h.expr_of_exprTree htree.symm).2⟩
  | _ => cases hname

/-- Every identifier that is reached refers to something or to nothing. -/
theorem Owned.exists_reference (h : s.Grounded) (ho : s.Owned) (own : Bool) {id : ExprId}
    (hid : s.Reaches (.expr id)) {name : String} (hname : s.expr id = .ident name) :
    ∃ r ∈ s.references own, r.id = id := by
  have htree : s.exprTree id = .node id (.ident name) := by
    rw [h.exprTree_eq, hname]
    rfl
  have hmem : id ∈ (s.references own).map Reference.id := by
    rw [map_id_references]
    refine List.mem_map.mpr ⟨s.exprTree id, List.mem_filter.mpr ⟨?_, ?_⟩, tag_exprTree s id⟩
    · exact ho.exprTree_mem_exprVisits h hid
    · rw [htree]
      rfl
  obtain ⟨r, hr, heq⟩ := List.mem_map.mp hmem
  exact ⟨r, hr, heq⟩

end Shader

end Places

end ShaderReducer
