import Mathlib.Data.Multiset.Pairwise
import ShaderReducer.Analysis.Writes
import ShaderReducer.Proofs.Shader.Placed

/-!
# Slots that are reached

A slot is reached if the declarations at top level name it, or a slot that is reached does. In a
shader whose slots are owned the live slots are the reached ones, and they are the slots of the nodes
that are visited.
-/

namespace ShaderReducer

namespace Shader

variable {s : Shader}

/-! ## Visits -/

theorem map_tag_stmtVisits (s : Shader) (d : DeclId) :
    ((s.declTree d).stmtVisits.map Prod.snd).map Stmt.tag =
      (s.decl d).bodies.flatMap s.stmtSlots := by
  rw [DeclTree.map_snd_stmtVisits, declTree, Decl.bodies_map, List.flatMap_map, List.map_flatMap]
  exact List.flatMap_congr fun t _ => (stmtSlots_eq_map s t).symm

/-- The slots of the statements that are visited are those below the bodies. -/
theorem coe_stmtVisits (s : Shader) :
    ((s.stmtVisits.map fun v => v.2.tag : List StmtId) : Multiset StmtId) =
      s.bodyRoots.bind s.stmtSlotsOf := by
  have hof : ∀ d ∈ s.decls, ((s.declTree d).stmtVisits.map fun v => v.2.tag) =
      (s.decl d).bodies.flatMap s.stmtSlots := by
    intro d _
    rw [← map_tag_stmtVisits, List.map_map]
    rfl
  rw [stmtVisits, declTrees, List.flatMap_map, List.map_flatMap, List.flatMap_congr hof,
    bodyRoots, Multiset.bind_assoc, ← Multiset.coe_bind]
  exact Multiset.bind_congr fun d _ => (Multiset.coe_bind _ _).symm

theorem Grounded.perm_exprVisits (h : s.Grounded) (d : DeclId) :
    ((s.declTree d).exprVisits.map fun v => v.2.tag).Perm
      ((s.decl d).inits.flatMap s.exprSlots ++ ((s.decl d).bodies.flatMap s.stmtSlots).flatMap
        fun t => (s.stmt t).childExprs.flatMap s.exprSlots) := by
  have hperm := (DeclTree.map_snd_exprVisits_perm (s.declTree d)).map Expr.tag
  have hof : ∀ t ∈ (s.declTree d).stmtVisits.map Prod.snd,
      (t.form.childExprs.flatMap Expr.subexprs).map Expr.tag =
        (s.stmt t.tag).childExprs.flatMap s.exprSlots := by
    intro t ht
    rw [DeclTree.map_snd_stmtVisits, declTree, Decl.bodies_map, List.flatMap_map] at ht
    obtain ⟨b, -, htb⟩ := List.mem_flatMap.mp ht
    exact h.map_tag_subexprs htb
  rw [List.map_map, List.map_append, List.map_flatMap, List.map_flatMap,
    List.flatMap_congr hof] at hperm
  have hinits : (s.declTree d).inits.flatMap (fun e => e.subexprs.map Expr.tag) =
      (s.decl d).inits.flatMap s.exprSlots := by
    rw [declTree, Decl.inits_map, List.flatMap_map]
    rfl
  rw [hinits] at hperm
  rw [← map_tag_stmtVisits, List.flatMap_map]
  exact hperm

/-- The slots of the expressions that are visited are those below the initial values at top level
and below the expressions of the statements that are visited. -/
theorem Grounded.coe_exprVisits (h : s.Grounded) :
    ((s.exprVisits.map fun v => v.2.tag : List ExprId) : Multiset ExprId) =
      (s.initRoots + (s.bodyRoots.bind s.stmtSlotsOf).bind s.stmtExprsOf).bind s.exprSlotsOf := by
  have hof : ∀ d ∈ (s.decls : Multiset DeclId),
      (((s.declTree d).exprVisits.map fun v => v.2.tag : List ExprId) : Multiset ExprId) =
        ((s.decl d).inits : Multiset ExprId).bind s.exprSlotsOf +
          (((s.decl d).bodies : Multiset StmtId).bind s.stmtSlotsOf).bind fun t =>
            (s.stmtExprsOf t).bind s.exprSlotsOf := by
    intro d _
    rw [Multiset.coe_eq_coe.mpr (h.perm_exprVisits d), ← Multiset.coe_add, ← Multiset.coe_bind,
      ← Multiset.coe_bind, ← Multiset.coe_bind]
    congr 1
    exact Multiset.bind_congr fun t _ => (Multiset.coe_bind _ _).symm
  rw [exprVisits, declTrees, List.flatMap_map, List.map_flatMap, ← Multiset.coe_bind,
    Multiset.bind_congr hof, Multiset.bind_add, initRoots, bodyRoots, Multiset.add_bind,
    Multiset.bind_assoc, Multiset.bind_assoc, Multiset.bind_assoc]
  congr 1
  rw [Multiset.bind_assoc]
  exact Multiset.bind_congr fun d _ => Multiset.bind_assoc

/-- A statement that is visited is the tree of its slot. -/
theorem Grounded.eq_stmtTree_of_mem_stmtVisits (h : s.Grounded) {t : Stmt ExprId StmtId}
    (ht : t ∈ s.stmtVisits.map Prod.snd) : t = s.stmtTree t.tag := by
  rw [stmtVisits, declTrees, List.flatMap_map, List.map_flatMap] at ht
  obtain ⟨d, -, ht⟩ := List.mem_flatMap.mp ht
  rw [DeclTree.map_snd_stmtVisits, declTree, Decl.bodies_map, List.flatMap_map] at ht
  obtain ⟨b, -, ht⟩ := List.mem_flatMap.mp ht
  exact h.eq_stmtTree_of_mem_substmts ht

/-- An expression that is visited is the tree of its slot. -/
theorem Grounded.eq_exprTree_of_mem_exprVisits (h : s.Grounded) {e : Expr ExprId}
    (he : e ∈ s.exprVisits.map Prod.snd) : e = s.exprTree e.tag := by
  rw [exprVisits, declTrees, List.flatMap_map, List.map_flatMap] at he
  obtain ⟨d, -, he⟩ := List.mem_flatMap.mp he
  rw [(DeclTree.map_snd_exprVisits_perm _).mem_iff, List.mem_append] at he
  rcases he with he | he
  · obtain ⟨root, hroot, he⟩ := List.mem_flatMap.mp he
    rw [declTree, Decl.inits_map] at hroot
    obtain ⟨id, -, rfl⟩ := List.mem_map.mp hroot
    exact h.eq_exprTree_of_mem_subexprs he
  · obtain ⟨t, ht, he⟩ := List.mem_flatMap.mp he
    rw [DeclTree.map_snd_stmtVisits, declTree, Decl.bodies_map, List.flatMap_map] at ht
    obtain ⟨b, -, ht⟩ := List.mem_flatMap.mp ht
    rw [h.eq_stmtTree_of_mem_substmts ht, h.stmtTree_eq, Stmt.form, StmtNode.childExprs_map,
      List.flatMap_map] at he
    obtain ⟨id, -, he⟩ := List.mem_flatMap.mp he
    exact h.eq_exprTree_of_mem_subexprs he

/-- The statements that are visited are the live ones. -/
theorem Owned.coe_stmtVisits (h : s.Grounded) (ho : s.Owned) :
    ((s.stmtVisits.map fun v => v.2.tag : List StmtId) : Multiset StmtId) = s.liveStmts := by
  rw [Shader.coe_stmtVisits, ho.stmts.liveStmts_eq h, zero_add]

/-- The expressions that are visited are the live ones. -/
theorem Owned.coe_exprVisits (h : s.Grounded) (ho : s.Owned) :
    ((s.exprVisits.map fun v => v.2.tag : List ExprId) : Multiset ExprId) = s.liveExprs := by
  rw [h.coe_exprVisits, ho.exprs.liveExprs_eq h, zero_add, ho.stmts.liveStmts_eq h, zero_add]

theorem Owned.nodup_exprVisits (h : s.Grounded) (ho : s.Owned) :
    (s.exprVisits.map fun v => v.2.tag).Nodup := by
  rw [← Multiset.coe_nodup, ho.coe_exprVisits h]
  exact nodup_liveExprs s

theorem Owned.mem_exprVisits (h : s.Grounded) (ho : s.Owned) {e : Expr ExprId} :
    e ∈ s.exprVisits.map Prod.snd ↔ e.tag ∈ s.liveExprs ∧ e = s.exprTree e.tag := by
  rw [← ho.coe_exprVisits h, Multiset.mem_coe]
  constructor
  · intro he
    obtain ⟨v, hv, rfl⟩ := List.mem_map.mp he
    exact ⟨List.mem_map.mpr ⟨v, hv, rfl⟩, h.eq_exprTree_of_mem_exprVisits he⟩
  · rintro ⟨hmem, he⟩
    obtain ⟨v, hv, htag⟩ := List.mem_map.mp hmem
    have hv' := h.eq_exprTree_of_mem_exprVisits (List.mem_map_of_mem hv)
    rw [he, ← htag, ← hv']
    exact List.mem_map_of_mem hv

/-- The parts of an expression that is visited are visited. -/
theorem Owned.mem_exprVisits_of_mem_children (h : s.Grounded) (ho : s.Owned) {id : ExprId}
    {form : ExprNode (Expr ExprId)} (he : .node id form ∈ s.exprVisits.map Prod.snd)
    {c : Expr ExprId} (hc : c ∈ form.children) : c ∈ s.exprVisits.map Prod.snd := by
  obtain ⟨hlive, htree⟩ := (ho.mem_exprVisits h).mp he
  rw [Expr.tag] at hlive htree
  refine (ho.mem_exprVisits h).mpr ⟨?_, h.eq_exprTree_of_mem_children htree.symm hc⟩
  refine ho.exprs.mem_of_mem_parts hlive ?_
  rw [exprPartsOf, exprParts, (h.expr_of_exprTree htree.symm).2, ExprNode.children_map]
  exact List.mem_map_of_mem hc

theorem Owned.lt_size_of_mem_exprVisits (h : s.Grounded) (ho : s.Owned) :
    ∀ v ∈ s.exprVisits, v.2.tag.index < s.exprs.size := by
  intro v hv
  exact lt_size_of_mem_liveExprs ((ho.mem_exprVisits h).mp (List.mem_map_of_mem hv)).1

end Shader

/-!
## Places that name slots

A declaration at top level, a statement or an expression names slots, each at a position of its own.
In a shader whose slots are owned, what is reached from the declarations is what is live, and every
slot that is reached is named at one position of one node.
-/

/-- What has a key of its own among some things is found by that key. -/
theorem find?_key_of_nodup {α κ : Type} [DecidableEq κ] {key : α → κ} {l : List α}
    (hnodup : (l.map key).Nodup) {a : α} (ha : a ∈ l) : l.find? (fun b => key b == key a) = some a := by
  induction l with
  | nil => cases ha
  | cons b l ih =>
      obtain ⟨hb, hnodup⟩ := List.nodup_cons.mp hnodup
      rcases List.mem_cons.mp ha with rfl | ha
      · exact List.find?_cons_of_pos BEq.rfl
      · rw [List.find?_cons_of_neg]
        · exact ih hnodup ha
        · intro heq
          exact hb (eq_of_beq heq ▸ List.mem_map_of_mem ha)

/-- A node by the sort of its slot. -/
inductive NodeId where
  | decl (id : DeclId)
  | stmt (id : StmtId)
  | expr (id : ExprId)

namespace Shader

variable {s : Shader}

/-- The statements that a node names, in order. -/
def stmtsIn (s : Shader) : NodeId → List StmtId
  | .decl id => (s.decl id).bodies
  | .stmt id => (s.stmt id).childStmts
  | .expr _ => []

/-- The expressions that a node names, in order. -/
def exprsIn (s : Shader) : NodeId → List ExprId
  | .decl id => (s.decl id).inits
  | .stmt id => (s.stmt id).childExprs
  | .expr id => (s.expr id).children

/-- The nodes that are reached from the declarations at top level. -/
inductive Reaches (s : Shader) : NodeId → Prop
  | decl {d : DeclId} (h : d ∈ s.decls) : Reaches s (.decl d)
  | stmt {n : NodeId} {t : StmtId} (hn : Reaches s n) (h : t ∈ s.stmtsIn n) : Reaches s (.stmt t)
  | expr {n : NodeId} {e : ExprId} (hn : Reaches s n) (h : e ∈ s.exprsIn n) : Reaches s (.expr e)

/-- Whether the slot of a node is live. -/
def isLive (s : Shader) : NodeId → Bool
  | .decl id => s.declNodes.isLive id.index
  | .stmt id => s.isStmtLive id
  | .expr id => s.isExprLive id

/-- The nodes with live slots. -/
def liveNodes (s : Shader) : Multiset NodeId :=
  (s.decls : Multiset DeclId).map .decl + (s.liveStmts.map .stmt + s.liveExprs.map .expr)

theorem Owned.mem_liveNodes (ho : s.Owned) {n : NodeId} :
    n ∈ s.liveNodes ↔ s.isLive n = true := by
  cases n with
  | decl id => simp [liveNodes, isLive, ho.decls.isLive_iff]
  | stmt id => simp [liveNodes, isLive, mem_liveStmts]
  | expr id => simp [liveNodes, isLive, mem_liveExprs]

/-- All that live nodes name, one by one, is what is live. -/
theorem Owned.bind_stmtsIn (ho : s.Owned) :
    s.liveNodes.bind (fun n => (s.stmtsIn n : Multiset StmtId)) = s.liveStmts := by
  have hforest := ho.stmts
  rw [OwnsStmts, Forest, zero_add] at hforest
  rw [liveNodes, Multiset.add_bind, Multiset.add_bind, Multiset.bind_map, Multiset.bind_map,
    Multiset.bind_map]
  conv_rhs => rw [← hforest]
  simp only [stmtsIn, Multiset.coe_nil, Multiset.bind_zero, add_zero]
  rfl

theorem Owned.bind_exprsIn (ho : s.Owned) :
    s.liveNodes.bind (fun n => (s.exprsIn n : Multiset ExprId)) = s.liveExprs := by
  have hforest := ho.exprs
  rw [OwnsExprs, Forest, zero_add] at hforest
  rw [liveNodes, Multiset.add_bind, Multiset.add_bind, Multiset.bind_map, Multiset.bind_map,
    Multiset.bind_map, ← add_assoc]
  conv_rhs => rw [← hforest]
  rfl

theorem Grounded.reaches_stmtSlots (h : s.Grounded) {id t : StmtId} (hid : s.Reaches (.stmt id))
    (ht : t ∈ s.stmtSlotsOf id) : s.Reaches (.stmt t) := by
  induction id using h.stmt_induction with
  | step id ih =>
      rw [h.stmtSlotsOf_eq, Multiset.mem_cons, Multiset.mem_bind] at ht
      rcases ht with rfl | ⟨part, hpart, ht⟩
      · exact hid
      · exact ih part hpart (.stmt hid hpart) ht

theorem Grounded.reaches_exprSlots (h : s.Grounded) {id e : ExprId} (hid : s.Reaches (.expr id))
    (he : e ∈ s.exprSlotsOf id) : s.Reaches (.expr e) := by
  induction id using h.expr_induction with
  | step id ih =>
      rw [h.exprSlotsOf_eq, Multiset.mem_cons, Multiset.mem_bind] at he
      rcases he with rfl | ⟨part, hpart, he⟩
      · exact hid
      · exact ih part hpart (.expr hid hpart) he

theorem Owned.reaches_of_mem_liveStmts (h : s.Grounded) (ho : s.Owned) {t : StmtId}
    (ht : t ∈ s.liveStmts) : s.Reaches (.stmt t) := by
  rw [ho.stmts.liveStmts_eq h, zero_add, Multiset.mem_bind] at ht
  obtain ⟨root, hroot, ht⟩ := ht
  obtain ⟨d, hd, hroot⟩ := Multiset.mem_bind.mp hroot
  exact h.reaches_stmtSlots (.stmt (.decl hd) hroot) ht

theorem Owned.reaches_of_mem_liveExprs (h : s.Grounded) (ho : s.Owned) {e : ExprId}
    (he : e ∈ s.liveExprs) : s.Reaches (.expr e) := by
  rw [ho.exprs.liveExprs_eq h, zero_add, Multiset.mem_bind] at he
  obtain ⟨root, hroot, he⟩ := he
  refine h.reaches_exprSlots ?_ he
  rcases Multiset.mem_add.mp hroot with hroot | hroot
  · obtain ⟨d, hd, hroot⟩ := Multiset.mem_bind.mp hroot
    exact .expr (.decl hd) hroot
  · obtain ⟨t, ht, hroot⟩ := Multiset.mem_bind.mp hroot
    exact .expr (ho.reaches_of_mem_liveStmts h ht) hroot

/-- The live slots are those that are reached. -/
theorem Owned.isLive_iff_reaches (h : s.Grounded) (ho : s.Owned) (n : NodeId) :
    s.isLive n = true ↔ s.Reaches n := by
  constructor
  · intro hlive
    cases n with
    | decl d => exact .decl ((ho.decls.isLive_iff d).mp hlive)
    | stmt t => exact ho.reaches_of_mem_liveStmts h (mem_liveStmts.mpr hlive)
    | expr e => exact ho.reaches_of_mem_liveExprs h (mem_liveExprs.mpr hlive)
  · intro hreach
    induction hreach with
    | decl hd => exact (ho.decls.isLive_iff _).mpr hd
    | stmt _ ht ih =>
        refine mem_liveStmts.mp ?_
        rw [← ho.bind_stmtsIn]
        exact Multiset.mem_bind.mpr ⟨_, ho.mem_liveNodes.mpr ih, ht⟩
    | expr _ he ih =>
        refine mem_liveExprs.mp ?_
        rw [← ho.bind_exprsIn]
        exact Multiset.mem_bind.mpr ⟨_, ho.mem_liveNodes.mpr ih, he⟩

/-- What is named once among some things is named at one position of one of them. -/
theorem existsUnique_position {α β : Type} {f : α → List β} {m : Multiset α}
    (hnodup : (m.bind fun a => (f a : Multiset β)).Nodup) {b : β}
    (hb : b ∈ m.bind fun a => (f a : Multiset β)) :
    ∃! p : α × Nat, p.1 ∈ m ∧ (f p.1)[p.2]? = some b := by
  rw [Multiset.nodup_bind] at hnodup
  obtain ⟨hself, hothers⟩ := hnodup
  obtain ⟨a, ha, hba⟩ := Multiset.mem_bind.mp hb
  obtain ⟨i, hi⟩ := List.mem_iff_getElem?.mp hba
  refine ⟨(a, i), ⟨ha, hi⟩, ?_⟩
  rintro ⟨a', i'⟩ ⟨ha', hi'⟩
  have hsymm : Std.Symm fun a a' : α => Disjoint (f a : Multiset β) (f a') :=
    ⟨fun _ _ hd => hd.symm⟩
  have heq : a' = a := by
    by_contra hne
    have hdisjoint := hothers.forall ha' ha hne
    exact Multiset.disjoint_left.mp hdisjoint (List.mem_of_getElem? hi') hba
  subst heq
  have hindex : i = i' := by
    obtain ⟨hlt, hi⟩ := List.getElem?_eq_some_iff.mp hi
    obtain ⟨hlt', hi'⟩ := List.getElem?_eq_some_iff.mp hi'
    have hnodup := Multiset.coe_nodup.mp (hself a' ha')
    exact (hnodup.getElem_inj_iff).mp (hi.trans hi'.symm)
  rw [hindex]

/-- What is reached is live, and visited. -/
theorem Owned.mem_liveExprs_of_reaches (h : s.Grounded) (ho : s.Owned) {e : ExprId}
    (he : s.Reaches (.expr e)) : e ∈ s.liveExprs :=
  mem_liveExprs.mpr ((ho.isLive_iff_reaches h (.expr e)).mpr he)

theorem Owned.exprTree_mem_exprVisits (h : s.Grounded) (ho : s.Owned) {e : ExprId}
    (he : s.Reaches (.expr e)) : s.exprTree e ∈ s.exprVisits.map Prod.snd :=
  (ho.mem_exprVisits h).mpr (by simpa using ho.mem_liveExprs_of_reaches h he)

/-- A statement that is reached is named at one place. -/
theorem Owned.existsUnique_stmt (h : s.Grounded) (ho : s.Owned) {t : StmtId}
    (ht : s.Reaches (.stmt t)) :
    ∃! place : NodeId × Nat, s.Reaches place.1 ∧ (s.stmtsIn place.1)[place.2]? = some t := by
  have hmem := mem_liveStmts.mpr ((ho.isLive_iff_reaches h (.stmt t)).mpr ht)
  have hnodup := nodup_liveStmts s
  rw [← ho.bind_stmtsIn] at hmem hnodup
  simpa only [ho.mem_liveNodes, ho.isLive_iff_reaches h] using existsUnique_position hnodup hmem

/-- An expression that is reached is named at one place. -/
theorem Owned.existsUnique_expr (h : s.Grounded) (ho : s.Owned) {e : ExprId}
    (he : s.Reaches (.expr e)) :
    ∃! place : NodeId × Nat, s.Reaches place.1 ∧ (s.exprsIn place.1)[place.2]? = some e := by
  have hmem := ho.mem_liveExprs_of_reaches h he
  have hnodup := nodup_liveExprs s
  rw [← ho.bind_exprsIn] at hmem hnodup
  simpa only [ho.mem_liveNodes, ho.isLive_iff_reaches h] using existsUnique_position hnodup hmem

/-! ## Counting -/

theorem Owned.liveCount_declNodes (ho : s.Owned) : s.declNodes.liveCount = s.decls.length := by
  have hperm : (s.declNodes.liveSlots.map DeclId.mk).Perm s.decls := by
    rw [List.perm_ext_iff_of_nodup]
    · intro d
      rw [← ho.decls.isLive_iff, ← Arena.mem_liveSlots, List.mem_map]
      exact ⟨fun ⟨i, hi, hd⟩ => hd ▸ hi, fun hd => ⟨d.index, hd, rfl⟩⟩
    · exact (Arena.nodup_liveSlots _).map fun i j h => congrArg DeclId.index h
    · exact ho.decls.nodup
  rw [← Arena.length_liveSlots, ← hperm.length_eq, List.length_map]

/-- The live slots are as many as the nodes of the syntax. -/
theorem Owned.liveCount_eq (h : s.Grounded) (ho : s.Owned) :
    s.liveCount = s.exprVisits.length + s.stmtVisits.length + s.decls.length := by
  have hexprs := congrArg Multiset.card (ho.coe_exprVisits h)
  have hstmts := congrArg Multiset.card (ho.coe_stmtVisits h)
  rw [Multiset.coe_card, List.length_map, card_liveExprs] at hexprs
  rw [Multiset.coe_card, List.length_map, card_liveStmts] at hstmts
  rw [liveCount, ho.liveCount_declNodes, hexprs, hstmts]

/-- Shaders with the same syntax have as many nodes. -/
theorem length_visits_congr {t : Shader} (heq : s.toProgram = t.toProgram) :
    s.exprVisits.length = t.exprVisits.length ∧ s.stmtVisits.length = t.stmtVisits.length ∧
      s.decls.length = t.decls.length := by
  have hof : ∀ u : Shader, u.exprVisits.length =
        (u.toProgram.decls.map fun d => d.exprVisits.length).sum ∧
      u.stmtVisits.length = (u.toProgram.decls.map fun d => d.stmtVisits.length).sum ∧
      u.decls.length = u.toProgram.decls.length := by
    intro u
    rw [exprVisits, stmtVisits, toProgram, List.length_flatMap, List.length_flatMap, List.map_map,
      List.map_map]
    refine ⟨congrArg List.sum (List.map_congr_left fun d _ => ?_),
      congrArg List.sum (List.map_congr_left fun d _ => ?_), by simp [declTrees]⟩
    · simpa using (DeclTree.map_snd_exprVisits_erase_perm d).length_eq.symm
    · simpa using (congrArg List.length (DeclTree.map_snd_stmtVisits_erase d)).symm
  obtain ⟨hexprs, hstmts, hdecls⟩ := hof s
  obtain ⟨hexprs', hstmts', hdecls'⟩ := hof t
  rw [hexprs, hexprs', hstmts, hstmts', hdecls, hdecls', heq]
  exact ⟨rfl, rfl, rfl⟩

/-- Laying a shader out anew loses no live slot if every live slot was reached. -/
theorem Owned.liveCount_compact (h : s.Grounded) (ho : s.Owned) :
    s.liveCount = s.compact.liveCount := by
  have hlaid := laidOut_compact s
  obtain ⟨hexprs, hstmts, hdecls⟩ := length_visits_congr (toProgram_compact s)
  rw [ho.liveCount_eq h, hlaid.owned.liveCount_eq hlaid.layered.grounded, hexprs, hstmts, hdecls]

end Shader

end ShaderReducer
