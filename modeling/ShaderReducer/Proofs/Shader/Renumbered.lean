import ShaderReducer.Proofs.Shader.Places
import ShaderReducer.Proofs.Syntax.Retag

/-!
# Shaders with other numbers

Two shaders of one syntax differ in the numbers of their nodes. Where neither reaches a slot twice,
`Renumbering.between` takes the number of a node in one to the number of the same node in the other,
and every node that is reached holds the same in both, with the numbers in it changed.

`ReachesOnce` asks nothing of the slots that are out of reach, and no ranks: a tree that meets no
slot twice is no deeper than its arena, so it is read to its end.
-/

namespace ShaderReducer

/-- New numbers for the nodes of a shader. -/
structure Renumbering where
  expr : ExprId → ExprId
  stmt : StmtId → StmtId
  decl : DeclId → DeclId

theorem ExprId.index_injective : Function.Injective ExprId.index := fun _ _ h =>
  congrArg ExprId.mk h

theorem StmtId.index_injective : Function.Injective StmtId.index := fun _ _ h =>
  congrArg StmtId.mk h

/-! ## Counterparts -/

/-- The member of a second row where a first row has a value. -/
def counterpart {α : Type} [DecidableEq α] (l l' : List α) (a : α) : α :=
  ((l.zip l').lookup a).getD a

theorem map_counterpart {α : Type} [DecidableEq α] {l l' : List α} (hnodup : l.Nodup)
    (hlength : l.length = l'.length) : l.map (counterpart l l') = l' := by
  induction l generalizing l' with
  | nil => exact (List.length_eq_zero_iff.mp hlength.symm).symm
  | cons a l ih =>
      cases l' with
      | nil => cases hlength
      | cons b l' =>
          obtain ⟨hnot, hnodup⟩ := List.nodup_cons.mp hnodup
          have htail : ∀ x ∈ l, counterpart (a :: l) (b :: l') x = counterpart l l' x := by
            intro x hx
            have hne : (x == a) = false := beq_false_of_ne fun h => hnot (h ▸ hx)
            rw [counterpart, List.zip_cons_cons, List.lookup_cons, hne]
            rfl
          rw [List.map_cons, List.map_congr_left htail, ih hnodup (Nat.succ.inj hlength)]
          simp [counterpart]

namespace Shader

/-- The numbers of the statements that the declarations reach, in order. -/
def stmtIds (s : Shader) : List StmtId :=
  s.stmtVisits.map fun v => v.2.tag

/-- The numbers of the expressions that the declarations reach, those of one statement together. -/
def exprIds (s : Shader) : List ExprId :=
  (s.declTrees.flatMap DeclTree.exprs).map Expr.tag

end Shader

/-- The numbers in one shader become those at the same places in another. -/
def Renumbering.between (s t : Shader) : Renumbering where
  expr := counterpart s.exprIds t.exprIds
  stmt := counterpart s.stmtIds t.stmtIds
  decl := counterpart s.decls t.decls

namespace Shader

variable {s t : Shader}

/-- No slot is reached twice from the declarations, and only slots are reached. -/
structure ReachesOnce (s : Shader) : Prop where
  decls : s.decls.Nodup
  stmts : s.stmtIds.Nodup
  exprs : (s.exprVisits.map fun v => v.2.tag).Nodup
  stmts_lt : ∀ id ∈ s.stmtIds, id.index < s.stmts.size
  exprs_lt : ∀ v ∈ s.exprVisits, v.2.tag.index < s.exprs.size

theorem Owned.reachesOnce (h : s.Grounded) (ho : s.Owned) : s.ReachesOnce where
  decls := ho.decls.nodup
  stmts := by
    rw [stmtIds, ← Multiset.coe_nodup, ho.coe_stmtVisits h]
    exact nodup_liveStmts s
  exprs := ho.nodup_exprVisits h
  stmts_lt id hid := by
    rw [stmtIds, ← Multiset.mem_coe, ho.coe_stmtVisits h] at hid
    exact lt_size_of_mem_liveStmts hid
  exprs_lt := ho.lt_size_of_mem_exprVisits h

theorem exprVisits_perm (s : Shader) :
    (s.exprVisits.map Prod.snd).Perm (s.declTrees.flatMap DeclTree.exprs) := by
  rw [exprVisits, List.map_flatMap]
  exact List.Perm.flatMap_left _ fun d _ => DeclTree.exprs_perm d

theorem mem_exprIds {id : ExprId} :
    id ∈ s.exprIds ↔ ∃ e ∈ s.exprVisits.map Prod.snd, e.tag = id := by
  rw [exprIds, ((exprVisits_perm s).map Expr.tag).mem_iff.symm, List.mem_map]

theorem mem_stmtIds {id : StmtId} :
    id ∈ s.stmtIds ↔ ∃ t ∈ s.stmtVisits.map Prod.snd, t.tag = id := by
  rw [← List.mem_map, List.map_map]
  rfl

theorem ReachesOnce.nodup_exprIds (h : s.ReachesOnce) : s.exprIds.Nodup := by
  rw [exprIds, ← ((exprVisits_perm s).map Expr.tag).nodup_iff, List.map_map]
  exact h.exprs

/-! ## Trees that are read to their end -/

theorem sublist_flatMap_of_mem {α β : Type} {l : List α} {a : α} (h : a ∈ l) (F : α → List β) :
    (F a).Sublist (l.flatMap F) := by
  rw [List.flatMap_def]
  exact List.sublist_flatten_of_mem (List.mem_map_of_mem h)

@[simp] theorem tag_readExpr (s : Shader) (depth : Nat) (id : ExprId) :
    (s.readExpr depth id).tag = id := by
  cases depth <;> rfl

@[simp] theorem tag_readStmt (s : Shader) (depth : Nat) (id : StmtId) :
    (s.readStmt depth id).tag = id := by
  cases depth <;> rfl

/-- A tree that is not read to its end has more nodes than the depth it is read to. -/
theorem readExpr_complete_or (s : Shader) (depth : Nat) (id : ExprId) :
    (∀ e ∈ (s.readExpr depth id).subexprs, s.expr e.tag = e.form.map Expr.tag) ∨
      depth < (s.readExpr depth id).subexprs.length := by
  induction depth generalizing id with
  | zero => exact Or.inr (by simp [readExpr, Expr.subexprs_node])
  | succ depth ih =>
      rw [readExpr, Expr.subexprs_node, ExprNode.children_map, List.flatMap_map]
      by_cases hparts : ∀ c ∈ (s.expr id).children, ∀ e ∈ (s.readExpr depth c).subexprs,
          s.expr e.tag = e.form.map Expr.tag
      · refine Or.inl fun e he => ?_
        rcases List.mem_cons.mp he with rfl | he
        · rw [Expr.tag, Expr.form, ExprNode.map_map]
          exact (ExprNode.map_id _).symm.trans
            (ExprNode.map_congr fun c _ => (tag_readExpr s depth c).symm)
        · obtain ⟨c, hc, he⟩ := List.mem_flatMap.mp he
          exact hparts c hc e he
      · push Not at hparts
        obtain ⟨c, hc, e, he, hne⟩ := hparts
        have hdeep : depth < (s.readExpr depth c).subexprs.length :=
          (ih c).resolve_left fun hall => hne (hall e he)
        have hle := (sublist_flatMap_of_mem hc fun c => (s.readExpr depth c).subexprs).length_le
        exact Or.inr (by rw [List.length_cons]; omega)

/-- A tree that is not read to its end has more nodes than the depth it is read to. -/
theorem readStmt_complete_or (s : Shader) (depth : Nat) (id : StmtId) :
    (∀ t ∈ (s.readStmt depth id).substmts, s.stmt t.tag = t.form.map Expr.tag Stmt.tag) ∨
      depth < (s.readStmt depth id).substmts.length := by
  induction depth generalizing id with
  | zero => exact Or.inr (by simp [readStmt, Stmt.substmts_node])
  | succ depth ih =>
      rw [readStmt, Stmt.substmts_node, StmtNode.childStmts_map, List.flatMap_map]
      by_cases hparts : ∀ c ∈ (s.stmt id).childStmts, ∀ t ∈ (s.readStmt depth c).substmts,
          s.stmt t.tag = t.form.map Expr.tag Stmt.tag
      · refine Or.inl fun t ht => ?_
        rcases List.mem_cons.mp ht with rfl | ht
        · rw [Stmt.tag, Stmt.form, StmtNode.map_map]
          exact (StmtNode.map_id _).symm.trans (StmtNode.map_congr
            (fun e _ => (tag_exprTree s e).symm) fun c _ => (tag_readStmt s depth c).symm)
        · obtain ⟨c, hc, ht⟩ := List.mem_flatMap.mp ht
          exact hparts c hc t ht
      · push Not at hparts
        obtain ⟨c, hc, t, ht, hne⟩ := hparts
        have hdeep : depth < (s.readStmt depth c).substmts.length :=
          (ih c).resolve_left fun hall => hne (hall t ht)
        have hle := (sublist_flatMap_of_mem hc fun c => (s.readStmt depth c).substmts).length_le
        exact Or.inr (by rw [List.length_cons]; omega)

/-- Different numbers below a bound are no more than the bound. -/
theorem length_le_of_nodup {α : Type} {l : List α} {index : α → Nat} {n : Nat}
    (hinjective : Function.Injective index) (hnodup : l.Nodup) (hlt : ∀ a ∈ l, index a < n) :
    l.length ≤ n := by
  have hsub : l.map index ⊆ List.range n := fun i hi => by
    obtain ⟨a, ha, rfl⟩ := List.mem_map.mp hi
    exact List.mem_range.mpr (hlt a ha)
  simpa using (List.subperm_of_subset (hnodup.map hinjective) hsub).length_le

/-- The expressions in a statement are read from their slots. -/
theorem eq_exprTree_of_mem_childExprs {depth : Nat} {id : StmtId} {t : Stmt ExprId StmtId}
    (ht : t ∈ (s.readStmt depth id).substmts) {e : Expr ExprId} (he : e ∈ t.form.childExprs) :
    e = s.exprTree e.tag := by
  induction depth generalizing id with
  | zero =>
      rw [readStmt, Stmt.substmts_node, StmtNode.childStmts, List.flatMap_nil,
        List.mem_singleton] at ht
      subst ht
      cases he
  | succ depth ih =>
      rw [readStmt, Stmt.substmts_node, List.mem_cons, StmtNode.childStmts_map,
        List.flatMap_map] at ht
      rcases ht with rfl | ht
      · rw [Stmt.form, StmtNode.childExprs_map] at he
        obtain ⟨c, -, rfl⟩ := List.mem_map.mp he
        rw [tag_exprTree]
      · obtain ⟨c, -, ht⟩ := List.mem_flatMap.mp ht
        exact ih ht

/-- An expression that is visited is below a slot all of whose nodes are visited. -/
theorem exists_root_of_mem_exprs {e : Expr ExprId} (he : e ∈ s.declTrees.flatMap DeclTree.exprs) :
    ∃ id, e ∈ (s.exprTree id).subexprs ∧ (s.exprSlots id).Sublist s.exprIds := by
  obtain ⟨d, hd, he⟩ := List.mem_flatMap.mp he
  have hdecl := (sublist_flatMap_of_mem hd DeclTree.exprs).map Expr.tag
  obtain ⟨id, -, rfl⟩ := List.mem_map.mp hd
  rcases List.mem_append.mp he with he | he
  · obtain ⟨root, hroot, he⟩ := List.mem_flatMap.mp he
    have hsub := (sublist_flatMap_of_mem hroot Expr.subexprs).trans
      (List.sublist_append_left _ ((s.declTree id).bodies.flatMap Stmt.exprs))
    rw [declTree, Decl.inits_map] at hroot
    obtain ⟨root, -, rfl⟩ := List.mem_map.mp hroot
    exact ⟨root, he, (hsub.map Expr.tag).trans hdecl⟩
  · obtain ⟨body, hbody, he⟩ := List.mem_flatMap.mp he
    obtain ⟨t, ht, he⟩ := List.mem_flatMap.mp he
    obtain ⟨root, hroot, heroot⟩ := List.mem_flatMap.mp he
    have hsub := ((sublist_flatMap_of_mem hroot Expr.subexprs).trans
      (sublist_flatMap_of_mem ht fun t => t.form.childExprs.flatMap Expr.subexprs)).trans
        ((sublist_flatMap_of_mem hbody Stmt.exprs).trans
          (List.sublist_append_right ((s.declTree id).inits.flatMap Expr.subexprs) _))
    rw [declTree, Decl.bodies_map] at hbody
    obtain ⟨body, -, rfl⟩ := List.mem_map.mp hbody
    rw [eq_exprTree_of_mem_childExprs ht hroot] at heroot hsub
    exact ⟨root.tag, heroot, (hsub.map Expr.tag).trans hdecl⟩

/-- What a slot holds is the topmost node of the tree that is visited there. -/
theorem ReachesOnce.expr_eq (h : s.ReachesOnce) {e : Expr ExprId}
    (he : e ∈ s.exprVisits.map Prod.snd) : s.expr e.tag = e.form.map Expr.tag := by
  rw [(exprVisits_perm s).mem_iff] at he
  obtain ⟨root, he, hsub⟩ := exists_root_of_mem_exprs he
  have hlt : ∀ id ∈ s.exprSlots root, id.index < s.exprs.size := by
    intro id hid
    obtain ⟨e, he, rfl⟩ := mem_exprIds.mp (hsub.subset hid)
    obtain ⟨v, hv, rfl⟩ := List.mem_map.mp he
    exact h.exprs_lt v hv
  have hle := length_le_of_nodup ExprId.index_injective (h.nodup_exprIds.sublist hsub) hlt
  rw [exprSlots, List.length_map] at hle
  exact (readExpr_complete_or s s.exprs.size root).resolve_right (by rw [← exprTree]; omega) e he

/-- What a slot holds is the topmost node of the tree that is visited there. -/
theorem ReachesOnce.stmt_eq (h : s.ReachesOnce) {t : Stmt ExprId StmtId}
    (ht : t ∈ s.stmtVisits.map Prod.snd) : s.stmt t.tag = t.form.map Expr.tag Stmt.tag := by
  have hids : s.stmtIds = s.declTrees.flatMap fun d => d.bodies.flatMap fun b =>
      b.substmts.map Stmt.tag := by
    rw [stmtIds, stmtVisits, List.map_flatMap]
    refine List.flatMap_congr fun d _ => ?_
    rw [← List.map_flatMap, ← DeclTree.map_snd_stmtVisits, List.map_map]
    rfl
  rw [stmtVisits, List.map_flatMap] at ht
  obtain ⟨d, hd, ht⟩ := List.mem_flatMap.mp ht
  rw [DeclTree.map_snd_stmtVisits] at ht
  obtain ⟨body, hbody, ht⟩ := List.mem_flatMap.mp ht
  have hsub : (body.substmts.map Stmt.tag).Sublist s.stmtIds := by
    rw [hids]
    exact (sublist_flatMap_of_mem hbody fun b => b.substmts.map Stmt.tag).trans
      (sublist_flatMap_of_mem hd fun d : DeclTree ExprId StmtId =>
        d.bodies.flatMap fun b => b.substmts.map Stmt.tag)
  obtain ⟨id, -, rfl⟩ := List.mem_map.mp hd
  rw [declTree, Decl.bodies_map] at hbody
  obtain ⟨root, -, rfl⟩ := List.mem_map.mp hbody
  have hle := length_le_of_nodup StmtId.index_injective (h.stmts.sublist hsub)
    fun id hid => h.stmts_lt id (hsub.subset hid)
  rw [List.length_map] at hle
  exact (readStmt_complete_or s s.stmts.size root).resolve_right (by rw [← stmtTree]; omega) t ht

/-! ## Renumbered shaders -/

/-- Two shaders, neither of which reaches a slot twice, that differ in numbers only. -/
structure Renumbers (ρ : Renumbering) (s t : Shader) : Prop where
  version_eq : t.version = s.version
  decls_eq : t.decls = s.decls.map ρ.decl
  declTrees_eq : t.declTrees = s.declTrees.map (DeclTree.retag ρ.expr ρ.stmt)
  source : s.ReachesOnce
  target : t.ReachesOnce

theorem renumbers_between (hs : s.ReachesOnce) (ht : t.ReachesOnce)
    (h : s.toProgram = t.toProgram) : Renumbers (.between s t) s t := by
  have hversion : s.version = t.version := congrArg Program.version h
  have htrees : s.declTrees.map DeclTree.erase = t.declTrees.map DeclTree.erase :=
    congrArg Program.decls h
  have hdecls : s.decls.length = t.decls.length := by
    simpa [declTrees] using congrArg List.length htrees
  have hstmts : s.stmtIds.length = t.stmtIds.length := by
    have herase : ∀ u : Shader, (u.stmtVisits.map Prod.snd).map Stmt.erase =
        (u.declTrees.map DeclTree.erase).flatMap fun d => d.stmtVisits.map Prod.snd := by
      intro u
      rw [stmtVisits, List.map_flatMap, List.map_flatMap, List.flatMap_map]
      exact List.flatMap_congr fun d _ => (DeclTree.map_snd_stmtVisits_erase d).symm
    have hlength := congrArg List.length (herase s)
    rw [htrees, ← herase t] at hlength
    simpa [stmtIds] using hlength
  have hexprs : s.exprIds.length = t.exprIds.length := by
    have herase : ∀ u : Shader, (u.declTrees.flatMap DeclTree.exprs).map Expr.erase =
        (u.declTrees.map DeclTree.erase).flatMap DeclTree.exprs := by
      intro u
      rw [List.map_flatMap, List.flatMap_map]
      exact List.flatMap_congr fun d _ => (DeclTree.exprs_erase d).symm
    have hlength := congrArg List.length (herase s)
    rw [htrees, ← herase t] at hlength
    simpa [exprIds] using hlength
  refine ⟨hversion.symm, (map_counterpart hs.decls hdecls).symm, ?_, hs, ht⟩
  refine DeclTree.eq_map_retag htrees ?_ ?_
  · have := map_counterpart hs.stmts hstmts
    rw [stmtIds, stmtIds, List.map_map] at this
    exact this
  · have := map_counterpart hs.nodup_exprIds hexprs
    rw [exprIds, exprIds, List.map_map] at this
    exact this

/-- A shader that is laid out anew has other numbers and nothing else. -/
theorem renumbers_compact (hs : s.ReachesOnce) : Renumbers (.between s s.compact) s s.compact :=
  have hlaid := laidOut_compact s
  renumbers_between hs (hlaid.owned.reachesOnce hlaid.layered.grounded) (toProgram_compact s).symm

namespace Renumbers

variable {ρ : Renumbering}

theorem exprVisits_eq (h : Renumbers ρ s t) :
    t.exprVisits = s.exprVisits.map (Prod.map id (Expr.retag ρ.expr)) := by
  rw [exprVisits, h.declTrees_eq, List.flatMap_map, exprVisits, List.map_flatMap]
  exact List.flatMap_congr fun d _ => DeclTree.exprVisits_retag d

theorem stmtVisits_eq (h : Renumbers ρ s t) :
    t.stmtVisits = s.stmtVisits.map (Prod.map id (Stmt.retag ρ.expr ρ.stmt)) := by
  rw [stmtVisits, h.declTrees_eq, List.flatMap_map, stmtVisits, List.map_flatMap]
  exact List.flatMap_congr fun d _ => DeclTree.stmtVisits_retag d

/-- Different nodes have different numbers. -/
theorem expr_inj (h : Renumbers ρ s t) {a b : ExprId} (ha : a ∈ s.exprIds) (hb : b ∈ s.exprIds) :
    ρ.expr a = ρ.expr b ↔ a = b := by
  have hnodup := h.target.exprs
  rw [h.exprVisits_eq, List.map_map] at hnodup
  have hmap : (s.exprVisits.map fun v => v.2.tag).map ρ.expr =
      s.exprVisits.map ((fun v => v.2.tag) ∘ Prod.map id (Expr.retag ρ.expr)) := by
    rw [List.map_map]
    exact List.map_congr_left fun v _ => (Expr.tag_retag ρ.expr v.2).symm
  rw [← hmap] at hnodup
  have hmem : ∀ {c}, c ∈ s.exprIds → c ∈ s.exprVisits.map fun v => v.2.tag := by
    intro c hc
    obtain ⟨e, he, rfl⟩ := mem_exprIds.mp hc
    obtain ⟨v, hv, rfl⟩ := List.mem_map.mp he
    exact List.mem_map_of_mem hv
  exact ⟨List.inj_on_of_nodup_map hnodup (hmem ha) (hmem hb), congrArg ρ.expr⟩

/-- Different nodes have different numbers. -/
theorem stmt_inj (h : Renumbers ρ s t) {a b : StmtId} (ha : a ∈ s.stmtIds) (hb : b ∈ s.stmtIds) :
    ρ.stmt a = ρ.stmt b ↔ a = b := by
  have hnodup := h.target.stmts
  rw [stmtIds, h.stmtVisits_eq, List.map_map] at hnodup
  have hmap : s.stmtIds.map ρ.stmt =
      s.stmtVisits.map ((fun v => v.2.tag) ∘ Prod.map id (Stmt.retag ρ.expr ρ.stmt)) := by
    rw [stmtIds, List.map_map]
    exact List.map_congr_left fun v _ => (Stmt.tag_retag ρ.expr ρ.stmt v.2).symm
  rw [← hmap] at hnodup
  exact ⟨List.inj_on_of_nodup_map hnodup ha hb, congrArg ρ.stmt⟩

/-! ### What is read -/

/-- An expression that is reached holds the same, with other numbers. -/
theorem expr_eq (h : Renumbers ρ s t) {id : ExprId} (hid : id ∈ s.exprIds) :
    t.expr (ρ.expr id) = (s.expr id).map ρ.expr := by
  obtain ⟨e, he, rfl⟩ := mem_exprIds.mp hid
  have ht : e.retag ρ.expr ∈ t.exprVisits.map Prod.snd := by
    obtain ⟨v, hv, rfl⟩ := List.mem_map.mp he
    rw [h.exprVisits_eq, List.map_map]
    exact List.mem_map.mpr ⟨v, hv, rfl⟩
  have hread := h.target.expr_eq ht
  rw [Expr.tag_retag, Expr.form_retag, ExprNode.map_map] at hread
  rw [hread, h.source.expr_eq he, ExprNode.map_map]
  exact ExprNode.map_congr fun c _ => Expr.tag_retag ρ.expr c

/-- A statement that is reached holds the same, with other numbers. -/
theorem stmt_eq (h : Renumbers ρ s t) {id : StmtId} (hid : id ∈ s.stmtIds) :
    t.stmt (ρ.stmt id) = (s.stmt id).map ρ.expr ρ.stmt := by
  obtain ⟨u, hu, rfl⟩ := mem_stmtIds.mp hid
  have ht : u.retag ρ.expr ρ.stmt ∈ t.stmtVisits.map Prod.snd := by
    obtain ⟨v, hv, rfl⟩ := List.mem_map.mp hu
    rw [h.stmtVisits_eq, List.map_map]
    exact List.mem_map.mpr ⟨v, hv, rfl⟩
  have hread := h.target.stmt_eq ht
  rw [Stmt.tag_retag, Stmt.form_retag, StmtNode.map_map] at hread
  rw [hread, h.source.stmt_eq hu, StmtNode.map_map]
  exact StmtNode.map_congr (fun e _ => Expr.tag_retag ρ.expr e)
    fun c _ => Stmt.tag_retag ρ.expr ρ.stmt c

/-- The tree of a declaration is the same, with other numbers. -/
theorem declTree_eq (h : Renumbers ρ s t) {id : DeclId} (hid : id ∈ s.decls) :
    t.declTree (ρ.decl id) = DeclTree.retag ρ.expr ρ.stmt (s.declTree id) := by
  have htrees := h.declTrees_eq
  rw [declTrees, h.decls_eq, List.map_map, declTrees, List.map_map] at htrees
  exact List.map_inj_left.mp htrees id hid

theorem decl_eq_map_tag (s : Shader) (id : DeclId) :
    s.decl id = (s.declTree id).map Expr.tag Stmt.tag := by
  rw [declTree, Decl.map_map]
  exact (Decl.map_id _).symm.trans (Decl.map_congr (fun e _ => (tag_exprTree s e).symm)
    fun b _ => (tag_stmtTree s b).symm)

/-- A declaration holds the same, with other numbers. -/
theorem decl_eq (h : Renumbers ρ s t) {id : DeclId} (hid : id ∈ s.decls) :
    t.decl (ρ.decl id) = (s.decl id).map ρ.expr ρ.stmt := by
  rw [decl_eq_map_tag, h.declTree_eq hid, decl_eq_map_tag s, DeclTree.retag, Decl.map_map,
    Decl.map_map]
  exact Decl.map_congr (fun e _ => Expr.tag_retag ρ.expr e)
    fun b _ => Stmt.tag_retag ρ.expr ρ.stmt b

end Renumbers

end Shader

end ShaderReducer
