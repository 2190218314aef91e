import ShaderReducer.Opportunity.Find
import ShaderReducer.Proofs.Opportunity.InlinePlan

/-!
# Opportunities that were just found

An opportunity that is found in a shader whose slots are owned holds in that shader: the slots it
names belong to nodes that were visited, so they are live, and stand where the search saw them.
-/

namespace ShaderReducer

namespace Shader

variable {s : Shader}

/-- A statement of a function that is visited is live, and the tree of its slot. -/
theorem Owned.of_mem_visits (h : s.Grounded) (ho : s.Owned)
    {f : DeclId × FunctionDecl StmtId × Stmt ExprId StmtId} (hf : f ∈ s.bodies)
    {v : Nat × Stmt ExprId StmtId} (hv : v ∈ f.2.2.visits 1) :
    v.2.tag ∈ s.liveStmts ∧ v.2 = s.stmtTree v.2.tag := by
  obtain ⟨⟨d, decl⟩, hdecl, hbody⟩ := List.mem_filterMap.mp hf
  obtain ⟨root, hroot, rfl⟩ := Option.map_eq_some_iff.mp hbody
  obtain ⟨hd, hnode⟩ := mem_functions.mp hdecl
  have hmem : v.2 ∈ (s.stmtTree root).substmts := by
    rw [← Stmt.map_snd_visits 1]
    exact List.mem_map_of_mem hv
  have hlive : root ∈ s.liveStmts := by
    refine ho.stmts.mem_of_mem_roots (Multiset.mem_add.mpr (Or.inr ?_))
    exact Multiset.mem_bind.mpr ⟨d, hd, by simp [hnode, Decl.bodies, hroot]⟩
  refine ⟨Multiset.mem_of_le (ho.stmts.stmtSlotsOf_le h hlive) ?_, h.eq_stmtTree_of_mem_substmts hmem⟩
  rw [stmtSlotsOf, stmtSlots_eq_map, Multiset.mem_coe]
  exact List.mem_map_of_mem hmem

/-- A statement of a block that is visited stands in that block. -/
theorem Owned.standsIn_of_mem_visits (h : s.Grounded) (ho : s.Owned)
    {f : DeclId × FunctionDecl StmtId × Stmt ExprId StmtId} (hf : f ∈ s.bodies) {depth : Nat}
    {id : StmtId} {body : List (Stmt ExprId StmtId)}
    (hv : (depth, .node id (.block body)) ∈ f.2.2.visits 1) {t : Stmt ExprId StmtId}
    (ht : t ∈ body) : s.standsIn id t.tag = true := by
  obtain ⟨hlive, htree⟩ := ho.of_mem_visits h hf hv
  rw [Stmt.tag] at hlive htree
  have hstmt := (h.stmt_of_stmtTree htree.symm).2
  have hmem : t.tag ∈ body.map Stmt.tag := List.mem_map_of_mem ht
  have hpart : t.tag ∈ s.liveStmts := by
    refine ho.stmts.mem_of_mem_parts hlive ?_
    rw [stmtPartsOf, stmtParts, hstmt]
    exact hmem
  rw [standsIn, hstmt, mem_liveStmts.mp hlive, mem_liveStmts.mp hpart]
  exact List.contains_iff_mem.mpr hmem

end Shader

variable {s : Shader} {a : Analysis} {o : Opportunity}

theorem SubExpr.holds_of_mem_find (h : s.Grounded) (ho : s.Owned) (hfind : o ∈ find s a) :
    o.holds s = true := by
  obtain ⟨⟨depth, e⟩, hv, hmem⟩ := List.mem_flatMap.mp hfind
  obtain ⟨child, hchild, rfl⟩ := List.mem_map.mp hmem
  have he := List.mem_map_of_mem (f := Prod.snd) hv
  obtain ⟨hlive, htree⟩ := (ho.mem_exprVisits h).mp he
  have hpart : child ∈ (s.expr e.tag).children := by
    obtain ⟨tag, form⟩ := e
    rw [(h.expr_of_exprTree htree.symm).2]
    simp only [operands] at hchild
    split at hchild
    next =>
      split at hchild
      next => exact (List.mem_filter.mp hchild).1
      next => cases hchild
    next => cases hchild
  have hchildLive : child ∈ s.liveExprs := ho.exprs.mem_of_mem_parts hlive hpart
  simp only [Opportunity.holds, SubExpr.holds, Bool.and_eq_true]
  exact ⟨⟨Shader.mem_liveExprs.mp hlive, Shader.mem_liveExprs.mp hchildLive⟩,
    List.contains_iff_mem.mpr hpart⟩

/-- A constant is found for an expression that is visited and has its type. -/
theorem Constant.of_mem_find (hfind : o ∈ find s a) : ∃ e constant type,
    o.change = .toConstant e.tag constant ∧ e ∈ s.exprVisits.map Prod.snd ∧
      a.types.get? e.tag = some type ∧
      ofType? a.dialect.supportsUnsigned type = some constant ∧ constant.isAt s e.tag = false := by
  obtain ⟨⟨depth, e⟩, hv, hmem⟩ := List.mem_filterMap.mp hfind
  obtain ⟨constant, hconstant, rfl⟩ := Option.map_eq_some_iff.mp hmem
  unfold replacement? at hconstant
  split at hconstant
  next =>
    obtain ⟨type, htype, hconstant⟩ := Option.bind_eq_some_iff.mp hconstant
    obtain ⟨constant', hof, hconstant⟩ := Option.bind_eq_some_iff.mp hconstant
    split at hconstant
    next => cases hconstant
    next hat =>
      cases hconstant
      exact ⟨e, constant, type, rfl, List.mem_map_of_mem (f := Prod.snd) hv, htype, hof,
        Bool.eq_false_of_not_eq_true hat⟩
  next => cases hconstant

theorem Constant.holds_of_mem_find (h : s.Grounded) (ho : s.Owned) (hfind : o ∈ find s a) :
    o.holds s = true := by
  obtain ⟨e, constant, type, hchange, he, -, -, hdiffers⟩ := of_mem_find hfind
  have hlive := ((ho.mem_exprVisits h).mp he).1
  rw [Opportunity.holds, hchange]
  simp only [Constant.holds, Bool.and_eq_true]
  exact ⟨Shader.mem_liveExprs.mp hlive, by rw [hdiffers]; rfl⟩

theorem Shader.OwnsDecls.isDeclLive (ho : s.OwnsDecls) {d : DeclId} (hd : d ∈ s.decls) :
    s.isDeclLive d = true := by
  rw [Shader.isDeclLive, Bool.and_eq_true]
  exact ⟨(ho.isLive_iff d).mpr hd, List.contains_iff_mem.mpr hd⟩

theorem UnusedDecl.holds_of_mem_find (ho : s.Owned) (hfind : o ∈ find s a) :
    o.holds s = true := by
  obtain ⟨d, hd, rfl⟩ := List.mem_map.mp hfind
  exact ho.decls.isDeclLive (List.mem_filter.mp hd).1

theorem InlineField.holds_of_mem_find (ho : s.Owned) (hfind : o ∈ find s a)
    (ha : a.types = Types.ofShader s) : o.holds s = true := by
  obtain ⟨⟨d, decl⟩, hstruct, hmem⟩ := List.mem_flatMap.mp hfind
  obtain ⟨field, hfield, rfl⟩ := List.mem_map.mp hmem
  obtain ⟨d', hd, heq⟩ := List.mem_filterMap.mp hstruct
  obtain ⟨decl', -, hid⟩ := Option.map_eq_some_iff.mp heq
  obtain rfl : d' = d := congrArg Prod.fst hid
  have hplan := (List.mem_filter.mp hfield).2
  rw [ha] at hplan
  simp only [Opportunity.holds, InlineField.holds, Bool.and_eq_true]
  exact ⟨ho.decls.isDeclLive hd, hplan⟩

theorem RemovableStmt.holds_of_mem_find (h : s.Grounded) (ho : s.Owned) (hfind : o ∈ find s a) :
    o.holds s = true := by
  obtain ⟨f, hf, hmem⟩ := List.mem_flatMap.mp hfind
  obtain ⟨⟨depth, block⟩, hv, hmem⟩ := List.mem_flatMap.mp hmem
  obtain ⟨t, ht, rfl⟩ := List.mem_map.mp hmem
  have hbody := (List.mem_filter.mp ht).1
  obtain ⟨tag, form⟩ := block
  cases form with
  | block body => exact ho.standsIn_of_mem_visits h hf hv hbody
  | _ => cases hbody

theorem UnusedVariable.mem_childStmts {id : StmtId}
    {form : StmtNode (Expr ExprId) (Stmt ExprId StmtId)} {t : Stmt ExprId StmtId}
    {block : Option StmtId} (ht : (t, block) ∈ localDecls (.node id form)) : t ∈ form.childStmts := by
  cases form with
  | block body =>
      obtain ⟨t', ht', heq⟩ := List.mem_map.mp ht
      cases heq
      exact ht'
  | forLoop start cond step body =>
      cases List.mem_singleton.mp ht
      exact List.mem_cons_self
  | _ => cases ht

/-- The declarations directly in a statement that is visited are live; those of a block stand in
it. -/
theorem Shader.Owned.of_mem_localDecls (h : s.Grounded) (ho : s.Owned)
    {f : DeclId × FunctionDecl StmtId × Stmt ExprId StmtId} (hf : f ∈ s.bodies)
    {v : Nat × Stmt ExprId StmtId} (hv : v ∈ f.2.2.visits 1) {t : Stmt ExprId StmtId}
    {block : Option StmtId} (ht : (t, block) ∈ UnusedVariable.localDecls v.2) :
    t.tag ∈ s.liveStmts ∧ t = s.stmtTree t.tag ∧
      ∀ b, block = some b → s.standsIn b t.tag = true := by
  obtain ⟨hlive, htree⟩ := ho.of_mem_visits h hf hv
  obtain ⟨depth, id, form⟩ := v
  rw [Stmt.tag] at hlive htree
  have hpart := UnusedVariable.mem_childStmts ht
  refine ⟨?_, ?_, ?_⟩
  · refine ho.stmts.mem_of_mem_parts hlive ?_
    rw [Shader.stmtPartsOf, Shader.stmtParts, (h.stmt_of_stmtTree htree.symm).2,
      StmtNode.childStmts_map]
    exact List.mem_map_of_mem hpart
  · exact h.eq_stmtTree_of_mem_childStmts htree.symm hpart
  · rintro b rfl
    cases form with
    | block body =>
        obtain ⟨t', ht', heq⟩ := List.mem_map.mp ht
        cases heq
        exact ho.standsIn_of_mem_visits h hf hv ht'
    | forLoop start cond step body => cases List.mem_singleton.mp ht
    | _ => cases ht

theorem UnusedVariable.holds_of_mem_find (h : s.Grounded) (ho : s.Owned) (hfind : o ∈ find s a) :
    o.holds s = true := by
  obtain ⟨⟨function, decl, body⟩, hf, hmem⟩ := List.mem_flatMap.mp hfind
  obtain ⟨⟨depth, parent⟩, hv, hmem⟩ := List.mem_flatMap.mp hmem
  obtain ⟨⟨t, block⟩, ht, hmem⟩ := List.mem_flatMap.mp hmem
  obtain ⟨hlive, htree, hin⟩ := ho.of_mem_localDecls h hf hv ht
  obtain ⟨tag, form⟩ := t
  cases form with
  | vars decl =>
      obtain ⟨d, hd, rfl⟩ := List.mem_map.mp hmem
      have hstmt := (h.stmt_of_stmtTree htree.symm).2
      have hany : (decl.map Expr.tag).declarators.any (fun d' => d'.name == d.name) = true := by
        rw [VarDecl.map, List.any_map]
        exact List.any_eq_true.mpr ⟨d, (List.mem_filter.mp hd).1, BEq.rfl⟩
      simp only [Opportunity.holds, holds, Stmt.tag, Bool.and_eq_true]
      rw [Stmt.tag] at hlive hstmt hin
      refine ⟨⟨Shader.mem_liveStmts.mp hlive, ?_⟩, ?_⟩
      · rw [hstmt]
        exact hany
      · cases block with
        | none => rfl
        | some b => exact hin b rfl
  | _ => cases hmem

theorem Unwrap.holds_of_mem_find (h : s.Grounded) (ho : s.Owned) (hfind : o ∈ find s a) :
    o.holds s = true := by
  obtain ⟨f, hf, hmem⟩ := List.mem_flatMap.mp hfind
  obtain ⟨⟨depth, block⟩, hv, hmem⟩ := List.mem_flatMap.mp hmem
  obtain ⟨tag, form⟩ := block
  cases form with
  | block body =>
      obtain ⟨t, ht, hmem⟩ := List.mem_flatMap.mp hmem
      obtain ⟨way, hway, rfl⟩ := List.mem_map.mp hmem
      simp only [Opportunity.holds, Unwrap.holds, Bool.and_eq_true]
      exact ⟨ho.standsIn_of_mem_visits h hf hv (List.mem_filter.mp ht).1, (List.mem_filter.mp hway).2⟩
  | _ => cases hmem

/-! ## All kinds -/

namespace Opportunity

/-- The search for a kind finds changes of that kind. -/
theorem kind_of_mem_ofKind {kind : OpportunityKind} (h : o ∈ ofKind s a kind) : o.kind = kind := by
  cases kind with
  | compoundExprToSubExpr =>
      obtain ⟨v, -, hmem⟩ := List.mem_flatMap.mp h
      obtain ⟨child, -, rfl⟩ := List.mem_map.mp hmem
      rfl
  | exprToConstant =>
      obtain ⟨v, -, hmem⟩ := List.mem_filterMap.mp h
      obtain ⟨constant, -, rfl⟩ := Option.map_eq_some_iff.mp hmem
      rfl
  | removeDeclaration =>
      obtain ⟨d, -, rfl⟩ := List.mem_map.mp h
      rfl
  | inlineStructifiedField =>
      obtain ⟨outer, -, hmem⟩ := List.mem_flatMap.mp h
      obtain ⟨field, -, rfl⟩ := List.mem_map.mp hmem
      rfl
  | removeStmt =>
      obtain ⟨f, -, hmem⟩ := List.mem_flatMap.mp h
      obtain ⟨v, -, hmem⟩ := List.mem_flatMap.mp hmem
      obtain ⟨t, -, rfl⟩ := List.mem_map.mp hmem
      rfl
  | removeVariable =>
      obtain ⟨f, -, hmem⟩ := List.mem_flatMap.mp h
      obtain ⟨v, -, hmem⟩ := List.mem_flatMap.mp hmem
      obtain ⟨⟨t, block⟩, -, hmem⟩ := List.mem_flatMap.mp hmem
      dsimp only at hmem
      split at hmem
      next =>
        obtain ⟨d, -, rfl⟩ := List.mem_map.mp hmem
        rfl
      next => cases hmem
  | unwrapStmt =>
      obtain ⟨f, -, hmem⟩ := List.mem_flatMap.mp h
      obtain ⟨v, -, hmem⟩ := List.mem_flatMap.mp hmem
      dsimp only at hmem
      split at hmem
      next =>
        obtain ⟨t, -, hmem⟩ := List.mem_flatMap.mp hmem
        obtain ⟨way, -, rfl⟩ := List.mem_map.mp hmem
        rfl
      next => cases hmem

/-- What is found was found by the search for its kind. -/
theorem mem_ofKind_of_mem_find {everywhere : Bool} {kinds : List OpportunityKind}
    (h : o ∈ find s everywhere kinds) : o ∈ ofKind s (Analysis.ofShader s everywhere) o.kind := by
  obtain ⟨kind, -, hkind⟩ := List.mem_flatMap.mp (List.mem_mergeSort.mp h)
  rwa [kind_of_mem_ofKind hkind]

/-- An opportunity that is found in a shader whose slots are owned holds there. -/
theorem holds_of_mem_find (h : s.Grounded) (ho : s.Owned) {everywhere : Bool}
    {kinds : List OpportunityKind} (hfind : o ∈ find s everywhere kinds) : o.holds s = true := by
  obtain ⟨kind, -, hkind⟩ := List.mem_flatMap.mp (List.mem_mergeSort.mp hfind)
  cases kind with
  | compoundExprToSubExpr => exact SubExpr.holds_of_mem_find h ho hkind
  | exprToConstant => exact Constant.holds_of_mem_find h ho hkind
  | removeDeclaration => exact UnusedDecl.holds_of_mem_find ho hkind
  | inlineStructifiedField => exact InlineField.holds_of_mem_find ho hkind rfl
  | removeStmt => exact RemovableStmt.holds_of_mem_find h ho hkind
  | removeVariable => exact UnusedVariable.holds_of_mem_find h ho hkind
  | unwrapStmt => exact Unwrap.holds_of_mem_find h ho hkind

end Opportunity

end ShaderReducer
