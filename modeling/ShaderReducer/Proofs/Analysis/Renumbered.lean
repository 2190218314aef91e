import ShaderReducer.Analysis.Basic
import ShaderReducer.Opportunity.Basic
import ShaderReducer.Proofs.Analysis.Writes
import ShaderReducer.Proofs.Shader.Renumbered
import ShaderReducer.Proofs.Typing.Scoped

/-!
# Facts about shaders with other numbers

The facts that are gathered for a search are the same for two shaders that differ in numbers only:
names, types and calls do not depend on numbers, and a mark or a type that is kept for a slot is kept
for the slot of the same node. `Analysis.Alike` says so for the nodes that are reached, in the terms
of a search.
-/

namespace ShaderReducer

/-! ## Functions and structures -/

namespace Callables

variable {ε τ : Type} (g : StmtId → StmtId) (f : ε → τ) (c : Callables)

/-- The functions with other numbers. -/
def renumber : Callables :=
  ⟨c.functions.map (FunctionDecl.map g)⟩

@[simp] theorem isUserFunction_renumber (name : String) :
    (c.renumber g).isUserFunction name = c.isUserFunction name := by
  rw [isUserFunction, renumber, List.any_map]
  rfl

@[simp] theorem outPositions_renumber (callee : String) :
    (c.renumber g).outPositions callee = c.outPositions callee := by
  rw [outPositions, isUserFunction_renumber, renumber, List.filter_map, List.flatMap_map]
  rfl

@[simp] theorem writesArguments_retag (e : Expr ε) :
    (c.renumber g).writesArguments (e.retag f) = c.writesArguments e := by
  obtain ⟨tag, form⟩ := e
  rw [Expr.retag_node]
  cases form <;> simp [ExprNode.map, writesArguments]

theorem isEffect_retag (e : Expr ε) : (c.renumber g).isEffect (e.retag f) = c.isEffect e := by
  obtain ⟨tag, form⟩ := e
  rw [Expr.retag_node]
  cases form <;> simp [ExprNode.map, isEffect]

@[simp] theorem hasSideEffects_retag (e : Expr ε) :
    (c.renumber g).hasSideEffects (e.retag f) = c.hasSideEffects e := by
  rw [hasSideEffects, Expr.subexprs_retag, List.any_map, hasSideEffects]
  congr 1
  funext sub
  exact c.isEffect_retag g f sub

theorem written_retag (e : Expr ε) :
    (e.retag f).written (c.renumber g) = (e.written c).map (Expr.retag f) := by
  obtain ⟨tag, form⟩ := e
  have hwritten : ∀ form : ExprNode (Expr τ), form.written (c.renumber g) = form.written c := by
    intro form
    cases form <;> simp [ExprNode.written]
  rw [Expr.retag_node, Expr.written_node, Expr.written_node, hwritten, ExprNode.written_map]

end Callables

theorem Expr.storageChain_retag {ε τ : Type} (f : ε → τ) (e : Expr ε) :
    (e.retag f).storageChain = e.storageChain.map f := by
  induction e with
  | node tag form ih => cases form <;> simp_all [retag, storageChain, ExprNode.children]

namespace Signatures

variable {ε : Type} (f : ExprId → ExprId) (g : StmtId → StmtId) (sig : Signatures)

/-- The functions with other numbers. -/
def renumber : Signatures :=
  ⟨sig.structs, sig.functions.map (FunctionDecl.map g)⟩

theorem callType_renumber (callee : String) (args : List (Option Ty)) :
    (sig.renumber g).callType callee args = sig.callType callee args := by
  have hfilter : (sig.renumber g).functions.filter (fun f => f.name == callee) =
      (sig.functions.filter fun f => f.name == callee).map (FunctionDecl.map g) := by
    rw [renumber, List.filter_map]
    rfl
  simp only [callType, hfilter, List.isEmpty_map, List.find?_map, Option.bind_map]
  rfl

theorem typeOf_retag {τ : Type} (k : ε → τ) (scope : TypeScope) (e : Expr ε) :
    (sig.renumber g).typeOf scope (e.retag k) = sig.typeOf scope e := by
  induction e with
  | node tag form ih =>
      rw [Expr.retag_node, typeOf_node, formType_map, typeOf_node]
      exact formType_congr ih (fun _ _ => rfl)
        (fun callee args _ => sig.callType_renumber g callee _) fun _ _ _ _ _ => rfl

theorem exprEntries_retag (scope : TypeScope) (e : Expr ExprId) :
    (sig.renumber g).exprEntries scope (e.retag f) =
      (sig.exprEntries scope e).map (Prod.map f id) := by
  rw [exprEntries, Expr.subexprs_retag, List.map_map, exprEntries, List.map_map]
  refine List.map_congr_left fun sub _ => ?_
  rw [Function.comp_apply, Expr.tag_retag, typeOf_retag]
  rfl

theorem flatMap_exprEntries_retag (scope : TypeScope) (es : List (Expr ExprId)) :
    (es.map (Expr.retag f)).flatMap ((sig.renumber g).exprEntries scope) =
      (es.flatMap (sig.exprEntries scope)).map (Prod.map f id) := by
  rw [List.flatMap_map, List.map_flatMap]
  exact List.flatMap_congr fun e _ => sig.exprEntries_retag f g scope e

theorem varEntries_retag (scope : TypeScope) (decl : VarDecl (Expr ExprId)) :
    (sig.renumber g).varEntries scope (decl.map (Expr.retag f)) =
      (sig.varEntries scope decl).map (Prod.map f id) := by
  rw [varEntries, VarDecl.inits_map, flatMap_exprEntries_retag, varEntries]

theorem optionEntries_retag (scope : TypeScope) (o : Option (Expr ExprId)) :
    (sig.renumber g).optionEntries scope (o.map (Expr.retag f)) =
      (sig.optionEntries scope o).map (Prod.map f id) := by
  rw [optionEntries, Option.toList_map, flatMap_exprEntries_retag, optionEntries]

theorem declare_retag (scope : TypeScope) (decl : VarDecl (Expr ExprId)) :
    (sig.renumber g).declare scope (decl.map (Expr.retag f)) = sig.declare scope decl :=
  (sig.renumber g).declare_map (Expr.retag f) decl

theorem stmtsEntries_retag {ts : List (Stmt ExprId StmtId)}
    (h : ∀ t ∈ ts, ∀ scope, (sig.renumber g).stmtEntries scope (t.retag f g) =
      Prod.map (List.map (Prod.map f id)) id (sig.stmtEntries scope t)) (scope : TypeScope) :
    (sig.renumber g).stmtsEntries scope (ts.map (Stmt.retag f g)) =
      Prod.map (List.map (Prod.map f id)) id (sig.stmtsEntries scope ts) := by
  induction ts generalizing scope with
  | nil => rfl
  | cons t ts ih =>
      simp only [List.map_cons, stmtsEntries, h t List.mem_cons_self, Prod.map_fst, Prod.map_snd,
        ih fun t' ht' => h t' (List.mem_cons_of_mem t ht'), id]
      simp

theorem stmtEntries_retag (t : Stmt ExprId StmtId) (scope : TypeScope) :
    (sig.renumber g).stmtEntries scope (t.retag f g) =
      Prod.map (List.map (Prod.map f id)) id (sig.stmtEntries scope t) := by
  induction t generalizing scope with
  | node tag form ih =>
      cases form with
      | block body =>
          have hbody := stmtsEntries_retag f g sig ih scope
          rw [StmtNode.childStmts] at hbody
          rw [Stmt.retag, Stmt.retagAll_eq_map, stmtEntries, hbody]
          rfl
      | vars decl =>
          rw [Stmt.retag, stmtEntries, varEntries_retag, declare_retag]
          rfl
      | ifElse cond onTrue onFalse =>
          cases onFalse <;>
            simp_all [Stmt.retag, stmtEntries, StmtNode.childStmts, exprEntries_retag]
      | _ =>
          simp_all [Stmt.retag, stmtEntries, StmtNode.childStmts, exprEntries_retag,
            optionEntries_retag]

theorem declEntries_retag (d : DeclTree ExprId StmtId) (scope : TypeScope) :
    (sig.renumber g).declEntries scope (DeclTree.retag f g d) =
      Prod.map (List.map (Prod.map f id)) id (sig.declEntries scope d) := by
  cases d with
  | function decl =>
      obtain ⟨type, name, params, body⟩ := decl
      cases body with
      | none => rfl
      | some body =>
          have hbody := sig.stmtEntries_retag f g body (sig.paramScope scope params)
          exact congrArg (fun entries => (entries.1, scope)) hbody
  | vars decl =>
      change ((sig.renumber g).varEntries scope _, (sig.renumber g).declare scope _) = _
      rw [varEntries_retag, declare_retag]
      rfl
  | _ => rfl

theorem declsEntries_retag (ds : List (DeclTree ExprId StmtId)) (scope : TypeScope) :
    (sig.renumber g).declsEntries scope (ds.map (DeclTree.retag f g)) =
      (sig.declsEntries scope ds).map (Prod.map f id) := by
  induction ds generalizing scope with
  | nil => rfl
  | cons d ds ih =>
      simp only [List.map_cons, declsEntries, declEntries_retag, Prod.map_fst, Prod.map_snd, ih, id,
        List.map_append]

end Signatures

/-! ## Names and conditions -/

section

variable {ε ε' σ σ' : Type} (f : ε → ε') (g : σ → σ')

@[simp] theorem NameUses.calledName?_retag (e : Expr ε) :
    calledName? (e.retag f) = calledName? e := by
  obtain ⟨tag, form⟩ := e
  rw [Expr.retag_node]
  cases form <;> rfl

@[simp] theorem NameUses.identifier?_retag (e : Expr ε) :
    identifier? (e.retag f) = identifier? e := by
  obtain ⟨tag, form⟩ := e
  rw [Expr.retag_node]
  cases form <;> rfl

@[simp] theorem NameUses.localTypeName?_retag (t : Stmt ε σ) :
    localTypeName? (t.retag f g) = localTypeName? t := by
  obtain ⟨tag, form⟩ := t
  rw [Stmt.retag_node]
  cases form <;> rfl

theorem NameUses.typeNamesOf_retag (d : DeclTree ε σ) :
    typeNamesOf (DeclTree.retag f g d) = typeNamesOf d := by
  cases d with
  | function decl =>
      have hvisits := DeclTree.stmtVisits_retag (f := f) (g := g) (.function decl)
      rw [DeclTree.retag, Decl.map] at hvisits ⊢
      simp only [typeNamesOf, hvisits, List.filterMap_map]
      refine congrArg (_ ++ ·) (List.filterMap_congr fun v _ => ?_)
      exact localTypeName?_retag f g v.2
  | _ => rfl

theorem NameUses.identifiersOf_retag (d : DeclTree ε σ) :
    identifiersOf (DeclTree.retag f g d) = identifiersOf d := by
  cases d with
  | function decl =>
      have hvisits := DeclTree.exprVisits_retag (f := f) (g := g) (.function decl)
      rw [DeclTree.retag, Decl.map] at hvisits ⊢
      simp only [identifiersOf, hvisits, List.filterMap_map]
      exact List.filterMap_congr fun v _ => identifier?_retag f v.2
  | _ => rfl

theorem Expr.isSwitchComponent_retag (component : String) (e : Expr ε) :
    (e.retag f).isSwitchComponent component = e.isSwitchComponent component := by
  rw [isSwitchComponent, stripParens_retag, isSwitchComponent]
  obtain ⟨tag, form⟩ := e.stripParens
  rw [retag_node]
  cases form with
  | member base field =>
      simp only [ExprNode.map, stripParens_retag]
      obtain ⟨tag', form'⟩ := base.stripParens
      rw [retag_node]
      cases form' <;> rfl
  | _ => rfl

@[simp] theorem Expr.isDeadCondition_retag (e : Expr ε) :
    (e.retag f).isDeadCondition = e.isDeadCondition := by
  rw [isDeadCondition, stripParens_retag, isDeadCondition]
  obtain ⟨tag, form⟩ := e.stripParens
  rw [retag_node]
  cases form with
  | binary op lhs rhs => cases op <;> simp [ExprNode.map, isSwitchComponent_retag]
  | _ => rfl

theorem Stmt.deadBranch?_retag (t : Stmt ε σ) :
    (t.retag f g).deadBranch? = t.deadBranch?.map (Stmt.retag f g) := by
  obtain ⟨tag, form⟩ := t
  rw [Stmt.retag_node]
  cases form with
  | ifElse cond onTrue onFalse =>
      simp only [StmtNode.map, deadBranch?, Expr.isDeadCondition_retag]
      split <;> rfl
  | _ => rfl

end

namespace Decl

variable {ρ σ ρ' σ' : Type}

theorem function?_map (f : ρ → ρ') (g : σ → σ') (d : Decl ρ σ) :
    (d.map f g).function? = d.function?.map (FunctionDecl.map g) := by
  cases d <;> rfl

theorem struct?_map (f : ρ → ρ') (g : σ → σ') (d : Decl ρ σ) : (d.map f g).struct? = d.struct? := by
  cases d <;> rfl

end Decl

/-! ## What is below a statement -/

namespace Shader

variable {s : Shader} {t : Stmt ExprId StmtId}

theorem exists_body_of_mem_stmtVisits (ht : t ∈ s.stmtVisits.map Prod.snd) :
    ∃ d ∈ s.declTrees, ∃ body ∈ d.bodies, t ∈ body.substmts := by
  rw [stmtVisits, List.map_flatMap] at ht
  obtain ⟨d, hd, ht⟩ := List.mem_flatMap.mp ht
  rw [DeclTree.map_snd_stmtVisits] at ht
  obtain ⟨body, hbody, ht⟩ := List.mem_flatMap.mp ht
  exact ⟨d, hd, body, hbody, ht⟩

theorem mem_stmtVisits_of_mem_body {d : DeclTree ExprId StmtId} (hd : d ∈ s.declTrees)
    {body : Stmt ExprId StmtId} (hbody : body ∈ d.bodies) (ht : t ∈ body.substmts) :
    t ∈ s.stmtVisits.map Prod.snd := by
  rw [stmtVisits, List.map_flatMap]
  refine List.mem_flatMap.mpr ⟨d, hd, ?_⟩
  rw [DeclTree.map_snd_stmtVisits]
  exact List.mem_flatMap.mpr ⟨body, hbody, ht⟩

/-- The statements below a statement that is visited are visited. -/
theorem mem_stmtVisits_of_mem_substmts (ht : t ∈ s.stmtVisits.map Prod.snd)
    {u : Stmt ExprId StmtId} (hu : u ∈ t.substmts) : u ∈ s.stmtVisits.map Prod.snd := by
  obtain ⟨d, hd, body, hbody, ht⟩ := exists_body_of_mem_stmtVisits ht
  exact mem_stmtVisits_of_mem_body hd hbody (Stmt.mem_substmts_trans ht hu)

/-- The statements directly in a statement that is visited are visited. -/
theorem mem_stmtVisits_of_mem_childStmts (ht : t ∈ s.stmtVisits.map Prod.snd)
    {u : Stmt ExprId StmtId} (hu : u ∈ t.form.childStmts) : u ∈ s.stmtVisits.map Prod.snd := by
  refine mem_stmtVisits_of_mem_substmts ht ?_
  obtain ⟨tag, form⟩ := t
  rw [Stmt.substmts_node]
  exact List.mem_cons_of_mem _ (List.mem_flatMap.mpr ⟨u, hu, Stmt.mem_substmts_self u⟩)

/-- The expressions in a statement that is visited are visited. -/
theorem mem_exprVisits_of_mem_exprs (ht : t ∈ s.stmtVisits.map Prod.snd) {e : Expr ExprId}
    (he : e ∈ t.exprs) : e ∈ s.exprVisits.map Prod.snd := by
  obtain ⟨d, hd, body, hbody, ht⟩ := exists_body_of_mem_stmtVisits ht
  obtain ⟨u, hu, he⟩ := List.mem_flatMap.mp he
  rw [(exprVisits_perm s).mem_iff]
  refine List.mem_flatMap.mpr ⟨d, hd, List.mem_append_right _ (List.mem_flatMap.mpr
    ⟨body, hbody, List.mem_flatMap.mpr ⟨u, Stmt.mem_substmts_trans ht hu, he⟩⟩)⟩

/-- The expressions below an expression that is visited are visited. -/
theorem mem_exprVisits_of_mem_subexprs {e sub : Expr ExprId}
    (he : e ∈ s.exprVisits.map Prod.snd) (hsub : sub ∈ e.subexprs) :
    sub ∈ s.exprVisits.map Prod.snd := by
  rw [exprVisits, List.map_flatMap] at he ⊢
  obtain ⟨d, hd, he⟩ := List.mem_flatMap.mp he
  exact List.mem_flatMap.mpr ⟨d, hd, DeclTree.mem_exprVisits_of_mem_subexprs he hsub⟩

/-- The parts of an expression that is visited are visited. -/
theorem mem_exprVisits_of_mem_children {e part : Expr ExprId}
    (he : e ∈ s.exprVisits.map Prod.snd) (hpart : part ∈ e.form.children) :
    part ∈ s.exprVisits.map Prod.snd := by
  refine mem_exprVisits_of_mem_subexprs he ?_
  obtain ⟨tag, form⟩ := e
  rw [Expr.subexprs_node]
  exact List.mem_cons_of_mem _ (List.mem_flatMap.mpr ⟨part, hpart, Expr.mem_subexprs_self part⟩)

/-- What an expression is a part of is below it. -/
theorem mem_subexprs_of_mem_storageChain {e : Expr ExprId} {id : ExprId}
    (hid : id ∈ e.storageChain) : ∃ sub ∈ e.subexprs, sub.tag = id := by
  induction e with
  | node tag form ih =>
      have hbelow : ∀ part ∈ form.children, id ∈ part.storageChain →
          ∃ sub ∈ (Expr.node tag form).subexprs, sub.tag = id := by
        intro part hpart hmem
        obtain ⟨sub, hsub, rfl⟩ := ih part hpart hmem
        rw [Expr.subexprs_node]
        exact ⟨sub, List.mem_cons_of_mem _ (List.mem_flatMap.mpr ⟨part, hpart, hsub⟩), rfl⟩
      have hself : id = tag → ∃ sub ∈ (Expr.node tag form).subexprs, sub.tag = id := by
        rintro rfl
        exact ⟨_, Expr.mem_subexprs_self _, rfl⟩
      cases form with
      | paren inner =>
          exact (List.mem_cons.mp hid).elim hself (hbelow inner (by simp [ExprNode.children]))
      | member base field =>
          exact (List.mem_cons.mp hid).elim hself (hbelow base (by simp [ExprNode.children]))
      | index base offset =>
          exact (List.mem_cons.mp hid).elim hself (hbelow base (by simp [ExprNode.children]))
      | _ => exact hself (List.mem_singleton.mp hid)

/-- The slots that are written to are reached. -/
theorem mem_exprIds_of_mem_writtenSlots {id : ExprId} (hid : id ∈ s.writtenSlots) :
    id ∈ s.exprIds := by
  obtain ⟨v, hv, hid⟩ := List.mem_flatMap.mp hid
  obtain ⟨part, hpart, hid⟩ := List.mem_flatMap.mp hid
  obtain ⟨sub, hsub, rfl⟩ := mem_subexprs_of_mem_storageChain hid
  refine mem_exprIds.mpr ⟨sub, mem_exprVisits_of_mem_subexprs ?_ hsub, rfl⟩
  refine mem_exprVisits_of_mem_children (List.mem_map_of_mem hv) ?_
  obtain ⟨depth, tag, form⟩ := v
  rw [Expr.written_node] at hpart
  exact ExprNode.mem_children_of_written hpart

theorem mem_decls_of_mem_functions {id : DeclId} {f : FunctionDecl StmtId}
    (h : (id, f) ∈ s.functions) : id ∈ s.decls ∧ s.decl id = .function f := by
  obtain ⟨d, hd, hf⟩ := List.mem_filterMap.mp h
  obtain ⟨f', hf', heq⟩ := Option.map_eq_some_iff.mp hf
  obtain ⟨rfl, rfl⟩ := Prod.mk.inj heq
  refine ⟨hd, ?_⟩
  cases hdecl : s.decl d <;> rw [hdecl] at hf' <;> cases hf'
  rfl

/-- The body of a function is visited. -/
theorem mem_stmtVisits_of_body {id : DeclId} (hid : id ∈ s.decls)
    {body : Stmt ExprId StmtId} (hbody : body ∈ (s.declTree id).bodies) :
    body ∈ s.stmtVisits.map Prod.snd :=
  mem_stmtVisits_of_mem_body (List.mem_map_of_mem hid) hbody (Stmt.mem_substmts_self body)

/-- The roots of the scope are visited. -/
theorem mem_stmtVisits_of_mem_roots {root : Stmt ExprId StmtId}
    (hroot : root ∈ ReductionScope.roots s) : root ∈ s.stmtVisits.map Prod.snd := by
  rcases List.mem_append.mp hroot with hroot | hroot
  · obtain ⟨d, hd, hbody⟩ := List.mem_filterMap.mp hroot
    obtain ⟨⟨d', f⟩, hf, rfl⟩ := List.mem_map.mp hd
    have hdecl := (mem_decls_of_mem_functions (List.mem_filter.mp hf).1).1
    refine mem_stmtVisits_of_body hdecl ?_
    cases htree : s.declTree d' <;> rw [htree] at hbody <;> simp_all [Decl.bodies]
  · obtain ⟨⟨id, branch⟩, hmem, rfl⟩ := List.mem_map.mp hroot
    obtain ⟨v, hv, hbranch⟩ := List.mem_filterMap.mp hmem
    obtain ⟨b, hb, heq⟩ := Option.map_eq_some_iff.mp hbranch
    obtain ⟨-, rfl⟩ := Prod.mk.inj heq
    refine mem_stmtVisits_of_mem_childStmts (List.mem_map_of_mem hv) ?_
    obtain ⟨depth, tag, form⟩ := v
    cases form with
    | ifElse cond onTrue onFalse =>
        simp only [Stmt.deadBranch?] at hb
        split at hb
        · cases hb
          exact List.mem_cons_self
        · cases hb
    | _ => cases hb

end Shader

/-! ## Facts about renumbered shaders -/

namespace Shader.Renumbers

variable {ρ : Renumbering} {s t : Shader}

theorem dialect_eq (h : Renumbers ρ s t) : t.dialect = s.dialect := by
  rw [dialect, h.version_eq, dialect]

theorem functions_eq (h : Renumbers ρ s t) :
    t.functions = s.functions.map fun f => (ρ.decl f.1, f.2.map ρ.stmt) := by
  rw [functions, h.decls_eq, List.filterMap_map, functions, List.map_filterMap]
  refine List.filterMap_congr fun id hid => ?_
  rw [Function.comp_apply, h.decl_eq hid, Decl.function?_map, Option.map_map, Option.map_map]
  rfl

theorem structs_eq (h : Renumbers ρ s t) :
    t.structs = s.structs.map fun d => (ρ.decl d.1, d.2) := by
  rw [structs, h.decls_eq, List.filterMap_map, structs, List.map_filterMap]
  refine List.filterMap_congr fun id hid => ?_
  rw [Function.comp_apply, h.decl_eq hid, Decl.struct?_map, Option.map_map]
  rfl

theorem callables_eq (h : Renumbers ρ s t) :
    Callables.ofShader t = (Callables.ofShader s).renumber ρ.stmt := by
  simp only [Callables.ofShader, Callables.renumber, h.functions_eq, List.map_map]
  rfl

theorem signatures_eq (h : Renumbers ρ s t) :
    Signatures.ofShader t = (Signatures.ofShader s).renumber ρ.stmt := by
  simp only [Signatures.ofShader, Signatures.renumber, h.functions_eq, h.structs_eq, List.map_map]
  rfl

theorem mem_exprIds (h : Renumbers ρ s t) {id : ExprId} (hid : id ∈ s.exprIds) :
    ρ.expr id ∈ t.exprIds := by
  obtain ⟨e, he, rfl⟩ := Shader.mem_exprIds.mp hid
  obtain ⟨v, hv, rfl⟩ := List.mem_map.mp he
  refine Shader.mem_exprIds.mpr ⟨v.2.retag ρ.expr, ?_, Expr.tag_retag ρ.expr v.2⟩
  rw [h.exprVisits_eq, List.map_map]
  exact List.mem_map.mpr ⟨v, hv, rfl⟩

theorem mem_stmtIds (h : Renumbers ρ s t) {id : StmtId} (hid : id ∈ s.stmtIds) :
    ρ.stmt id ∈ t.stmtIds := by
  obtain ⟨v, hv, rfl⟩ := List.mem_map.mp hid
  rw [stmtIds, h.stmtVisits_eq, List.map_map]
  exact List.mem_map.mpr ⟨v, hv, Stmt.tag_retag ρ.expr ρ.stmt v.2⟩

/-- The type of an expression is that of the same expression. -/
theorem get?_types (h : Renumbers ρ s t) {id : ExprId} (hid : id ∈ s.exprIds) :
    (Types.ofShader t).get? (ρ.expr id) = (Types.ofShader s).get? id := by
  have hfst := ((Signatures.ofShader s).notes_decls s.declTrees []).map_fst
  have hentry : id ∈ ((Signatures.ofShader s).declsEntries [] s.declTrees).map Prod.fst := by
    rw [hfst]
    exact List.mem_map.mpr (Shader.mem_exprIds.mp hid)
  obtain ⟨⟨id, type⟩, hmem, rfl⟩ := List.mem_map.mp hentry
  rw [Types.get?_of_mem h.source hmem]
  refine Types.get?_of_mem h.target ?_
  rw [h.signatures_eq, h.declTrees_eq, Signatures.declsEntries_retag]
  exact List.mem_map.mpr ⟨_, hmem, rfl⟩

/-- A mark on an expression that is reached is a mark on the same expression. -/
theorem contains_exprMarks (h : Renumbers ρ s t) {ids : List ExprId}
    (hids : ∀ i ∈ ids, i ∈ s.exprIds) {id : ExprId} (hid : id ∈ s.exprIds) :
    (Marks.ofList t.exprs.size ((ids.map ρ.expr).map ExprId.index)).contains (ρ.expr id).index =
      (Marks.ofList s.exprs.size (ids.map ExprId.index)).contains id.index := by
  have hlt : ∀ {u : Shader}, u.ReachesOnce → ∀ {i}, i ∈ u.exprIds → i.index < u.exprs.size := by
    intro u hu i hi
    obtain ⟨e, he, rfl⟩ := Shader.mem_exprIds.mp hi
    obtain ⟨v, hv, rfl⟩ := List.mem_map.mp he
    exact hu.exprs_lt v hv
  rw [Marks.contains_ofList, Marks.contains_ofList,
    decide_eq_true (hlt h.target (h.mem_exprIds hid)), decide_eq_true (hlt h.source hid),
    Bool.and_true, Bool.and_true, Bool.eq_iff_iff, List.contains_iff_mem, List.contains_iff_mem,
    List.mem_map_of_injective ExprId.index_injective,
    List.mem_map_of_injective ExprId.index_injective, List.mem_map]
  constructor
  · rintro ⟨i, hi, heq⟩
    exact (h.expr_inj (hids i hi) hid).mp heq ▸ hi
  · exact fun hmem => ⟨id, hmem, rfl⟩

/-- A mark on a statement that is reached is a mark on the same statement. -/
theorem contains_stmtMarks (h : Renumbers ρ s t) {ids : List StmtId}
    (hids : ∀ i ∈ ids, i ∈ s.stmtIds) {id : StmtId} (hid : id ∈ s.stmtIds) :
    (Marks.ofList t.stmts.size ((ids.map ρ.stmt).map StmtId.index)).contains (ρ.stmt id).index =
      (Marks.ofList s.stmts.size (ids.map StmtId.index)).contains id.index := by
  rw [Marks.contains_ofList, Marks.contains_ofList,
    decide_eq_true (h.target.stmts_lt _ (h.mem_stmtIds hid)),
    decide_eq_true (h.source.stmts_lt _ hid), Bool.and_true, Bool.and_true, Bool.eq_iff_iff,
    List.contains_iff_mem, List.contains_iff_mem,
    List.mem_map_of_injective StmtId.index_injective,
    List.mem_map_of_injective StmtId.index_injective, List.mem_map]
  constructor
  · rintro ⟨i, hi, heq⟩
    exact (h.stmt_inj (hids i hi) hid).mp heq ▸ hi
  · exact fun hmem => ⟨id, hmem, rfl⟩

theorem writtenSlots_eq (h : Renumbers ρ s t) : t.writtenSlots = s.writtenSlots.map ρ.expr := by
  simp only [writtenSlots, h.exprVisits_eq, h.callables_eq, List.flatMap_map, List.map_flatMap]
  refine List.flatMap_congr fun v _ => ?_
  simp only [Prod.map_snd, Callables.written_retag, List.flatMap_map]
  exact List.flatMap_congr fun part _ => Expr.storageChain_retag ρ.expr part

/-! ### The scope -/

theorem callGraph_eq (h : Renumbers ρ s t) : CallGraph.ofShader t = CallGraph.ofShader s := by
  rw [CallGraph.ofShader, h.declTrees_eq, List.filterMap_map, CallGraph.ofShader]
  refine List.filterMap_congr fun d _ => ?_
  cases d with
  | function decl =>
      obtain ⟨type, name, params, body⟩ := decl
      cases body with
      | none => rfl
      | some body =>
          have hcalls : ((body.retag ρ.expr ρ.stmt).exprVisits 1).filterMap
              (fun v => NameUses.calledName? v.2) =
                (body.exprVisits 1).filterMap fun v => NameUses.calledName? v.2 := by
            rw [Stmt.exprVisits_retag, List.filterMap_map]
            exact List.filterMap_congr fun v _ => NameUses.calledName?_retag ρ.expr v.2
          exact congrArg (fun calls => some (name, calls)) hcalls
  | _ => rfl

theorem unreachableFunctions_eq (h : Renumbers ρ s t) :
    ReductionScope.unreachableFunctions t = (ReductionScope.unreachableFunctions s).map ρ.decl := by
  simp only [ReductionScope.unreachableFunctions, h.functions_eq, h.callGraph_eq, List.filter_map,
    List.map_map]
  refine congrArg (List.map _) (List.filter_congr fun f _ => ?_)
  simp [FunctionDecl.map]

theorem deadBranches_eq (h : Renumbers ρ s t) : ReductionScope.deadBranches t =
    (ReductionScope.deadBranches s).map (Prod.map ρ.stmt (Stmt.retag ρ.expr ρ.stmt)) := by
  simp only [ReductionScope.deadBranches, h.stmtVisits_eq, List.filterMap_map, List.map_filterMap]
  refine List.filterMap_congr fun v _ => ?_
  simp only [Function.comp_apply, Prod.map_snd, Stmt.deadBranch?_retag, Option.map_map,
    Function.comp_def, Stmt.tag_retag]
  rfl

theorem roots_eq (h : Renumbers ρ s t) :
    ReductionScope.roots t = (ReductionScope.roots s).map (Stmt.retag ρ.expr ρ.stmt) := by
  simp only [ReductionScope.roots, h.unreachableFunctions_eq, h.deadBranches_eq, List.map_append,
    List.filterMap_map, List.map_filterMap, List.map_map]
  congr 1
  refine List.filterMap_congr fun id hid => ?_
  obtain ⟨⟨id, f⟩, hf, rfl⟩ := List.mem_map.mp hid
  rw [Function.comp_apply,
    h.declTree_eq (mem_decls_of_mem_functions (List.mem_filter.mp hf).1).1]
  cases s.declTree id <;> rfl

theorem containsStmt_eq (h : Renumbers ρ s t) (everywhere : Bool) {id : StmtId}
    (hid : id ∈ s.stmtIds) : (ReductionScope.ofShader t everywhere).containsStmt (ρ.stmt id) =
      (ReductionScope.ofShader s everywhere).containsStmt id := by
  have hids : ∀ i ∈ (ReductionScope.roots s).flatMap (fun root => root.substmts.map Stmt.tag),
      i ∈ s.stmtIds := by
    intro i hi
    obtain ⟨root, hroot, hi⟩ := List.mem_flatMap.mp hi
    obtain ⟨u, hu, rfl⟩ := List.mem_map.mp hi
    exact Shader.mem_stmtIds.mpr
      ⟨u, mem_stmtVisits_of_mem_substmts (mem_stmtVisits_of_mem_roots hroot) hu, rfl⟩
  have hmarks := h.contains_stmtMarks hids hid
  simp only [ReductionScope.containsStmt, ReductionScope.ofShader, h.roots_eq]
  refine congrArg (everywhere || ·) ?_
  simpa only [List.map_flatMap, List.flatMap_map, Stmt.visits_retag, Stmt.substmts, List.map_map,
    Function.comp_def, Prod.map_snd, Stmt.tag_retag] using hmarks

theorem containsExpr_eq (h : Renumbers ρ s t) (everywhere : Bool) {id : ExprId}
    (hid : id ∈ s.exprIds) : (ReductionScope.ofShader t everywhere).containsExpr (ρ.expr id) =
      (ReductionScope.ofShader s everywhere).containsExpr id := by
  have hids : ∀ i ∈ (ReductionScope.roots s).flatMap
      (fun root => (root.exprVisits 0).map fun v => v.2.tag), i ∈ s.exprIds := by
    intro i hi
    obtain ⟨root, hroot, hi⟩ := List.mem_flatMap.mp hi
    obtain ⟨v, hv, rfl⟩ := List.mem_map.mp hi
    have hv' := (Stmt.map_snd_exprVisits_perm 0 root).mem_iff.mp (List.mem_map_of_mem hv)
    exact Shader.mem_exprIds.mpr
      ⟨v.2, mem_exprVisits_of_mem_exprs (mem_stmtVisits_of_mem_roots hroot) hv', rfl⟩
  have hmarks := h.contains_exprMarks hids hid
  simp only [ReductionScope.containsExpr, ReductionScope.ofShader, h.roots_eq]
  refine congrArg (everywhere || ·) ?_
  simpa only [List.map_flatMap, List.flatMap_map, Stmt.exprVisits_retag, List.map_map,
    Function.comp_def, Prod.map_snd, Expr.tag_retag] using hmarks

theorem isDeadIf_eq (h : Renumbers ρ s t) (everywhere : Bool) {id : StmtId}
    (hid : id ∈ s.stmtIds) : (ReductionScope.ofShader t everywhere).isDeadIf (ρ.stmt id) =
      (ReductionScope.ofShader s everywhere).isDeadIf id := by
  have hids : ∀ i ∈ (ReductionScope.deadBranches s).map Prod.fst, i ∈ s.stmtIds := by
    intro i hi
    obtain ⟨⟨i, branch⟩, hmem, rfl⟩ := List.mem_map.mp hi
    obtain ⟨v, hv, hbranch⟩ := List.mem_filterMap.mp hmem
    obtain ⟨b, -, heq⟩ := Option.map_eq_some_iff.mp hbranch
    obtain ⟨rfl, -⟩ := Prod.mk.inj heq
    exact List.mem_map_of_mem hv
  have hmarks := h.contains_stmtMarks hids hid
  simp only [ReductionScope.isDeadIf, ReductionScope.ofShader, h.deadBranches_eq]
  simpa only [List.map_map, Function.comp_def, Prod.map_fst] using hmarks

/-! ### Uses of names -/

theorem identUsesIn_eq (h : Renumbers ρ s t) {d : DeclId} (hd : d ∈ s.decls) (name : String) :
    (NameUses.ofShader t).identUsesIn (ρ.decl d) name =
      (NameUses.ofShader s).identUsesIn d name := by
  have hd' : ρ.decl d ∈ t.decls := h.decls_eq ▸ List.mem_map_of_mem hd
  rw [NameUses.identUsesIn, NameUses.ofShader, List.lookup_graph _ hd', h.declTree_eq hd,
    NameUses.identifiersOf_retag, NameUses.identUsesIn, NameUses.ofShader, List.lookup_graph _ hd]

theorem called_eq (h : Renumbers ρ s t) :
    (NameUses.ofShader t).called = (NameUses.ofShader s).called := by
  simp only [NameUses.ofShader, h.exprVisits_eq, List.filterMap_map]
  exact List.filterMap_congr fun v _ => NameUses.calledName?_retag ρ.expr v.2

theorem typeNames_eq (h : Renumbers ρ s t) :
    (NameUses.ofShader t).typeNames = (NameUses.ofShader s).typeNames := by
  simp only [NameUses.ofShader, h.declTrees_eq, List.flatMap_map]
  exact List.flatMap_congr fun d _ => NameUses.typeNamesOf_retag ρ.expr ρ.stmt d

end Shader.Renumbers

/-! ## Facts for a search -/

/-- The facts about two shaders that differ in numbers only. -/
structure Analysis.Alike (ρ : Renumbering) (s : Shader) (a a' : Analysis) : Prop where
  dialect_eq : a'.dialect = a.dialect
  callables_eq : a'.callables = a.callables.renumber ρ.stmt
  get?_eq : ∀ id ∈ s.exprIds, a'.types.get? (ρ.expr id) = a.types.get? id
  isWritten_eq : ∀ id ∈ s.exprIds, a'.isWritten (ρ.expr id) = a.isWritten id
  containsExpr_eq : ∀ id ∈ s.exprIds, a'.scope.containsExpr (ρ.expr id) = a.scope.containsExpr id
  containsStmt_eq : ∀ id ∈ s.stmtIds, a'.scope.containsStmt (ρ.stmt id) = a.scope.containsStmt id
  isDeadIf_eq : ∀ id ∈ s.stmtIds, a'.scope.isDeadIf (ρ.stmt id) = a.scope.isDeadIf id
  called_eq : a'.uses.called = a.uses.called
  typeNames_eq : a'.uses.typeNames = a.uses.typeNames
  identUsesIn_eq : ∀ d ∈ s.decls, ∀ name,
    a'.uses.identUsesIn (ρ.decl d) name = a.uses.identUsesIn d name

theorem Shader.Renumbers.alike {ρ : Renumbering} {s t : Shader} (h : Renumbers ρ s t)
    (everywhere : Bool) :
    Analysis.Alike ρ s (Analysis.ofShader s everywhere) (Analysis.ofShader t everywhere) where
  dialect_eq := h.dialect_eq
  callables_eq := h.callables_eq
  get?_eq _ hid := h.get?_types hid
  isWritten_eq id hid := by
    rw [Analysis.isWritten, Analysis.ofShader, h.writtenSlots_eq]
    exact h.contains_exprMarks (fun i hi => mem_exprIds_of_mem_writtenSlots hi) hid
  containsExpr_eq _ hid := h.containsExpr_eq everywhere hid
  containsStmt_eq _ hid := h.containsStmt_eq everywhere hid
  isDeadIf_eq _ hid := h.isDeadIf_eq everywhere hid
  called_eq := h.called_eq
  typeNames_eq := h.typeNames_eq
  identUsesIn_eq _ hd name := h.identUsesIn_eq hd name

end ShaderReducer
