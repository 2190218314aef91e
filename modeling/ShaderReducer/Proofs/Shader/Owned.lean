import Mathlib.Algebra.Order.BigOperators.Group.Multiset
import Mathlib.Algebra.Order.Group.Nat
import Mathlib.Data.Multiset.Bind
import Mathlib.Tactic.Abel
import ShaderReducer.Proofs.Shader.Grounded

/-!
# Forests

Nodes whose parts are nodes again, given by a function `parts`. That a multiset of nodes is a forest
with some roots is one equation, `roots + nodes.bind parts = nodes`: every node is named once, as a
root or as a part of another node. The equation needs no paths, and it is kept by a change of the
nodes as soon as both sides change alike, so the changes of a shader are checked by counting.

Where the parts have a smaller rank than the whole, the equation also says that the nodes are those
that are reached from the roots: `Forest.nodes_eq_bind`.
-/

namespace ShaderReducer

/-- The nodes below some roots, the roots included: each is named once, by the roots or by a node. -/
def Forest {α : Type} (parts : α → Multiset α) (roots nodes : Multiset α) : Prop :=
  roots + nodes.bind parts = nodes

/-- Changing what a function gives for one element of a multiset without repetitions. -/
theorem bind_add_of_eq_off {α β : Type} {f g : α → Multiset β} {s : Multiset α} {a : α}
    (hs : s.Nodup) (ha : a ∈ s) (hoff : ∀ b ∈ s, b ≠ a → f b = g b) :
    s.bind f + g a = s.bind g + f a := by
  obtain ⟨t, rfl⟩ := Multiset.exists_cons_of_mem ha
  have hnot : a ∉ t := (Multiset.nodup_cons.mp hs).1
  have heq : t.bind f = t.bind g := by
    refine Multiset.bind_congr fun b hb => hoff b (Multiset.mem_cons_of_mem hb) ?_
    rintro rfl
    exact hnot hb
  rw [Multiset.cons_bind, Multiset.cons_bind, heq]
  abel

namespace Forest

variable {α : Type} {parts parts' : α → Multiset α} {roots nodes : Multiset α}

theorem mem_of_mem_roots (h : Forest parts roots nodes) {a : α} (ha : a ∈ roots) : a ∈ nodes := by
  rw [← h]
  exact Multiset.mem_add.mpr (Or.inl ha)

theorem roots_le (h : Forest parts roots nodes) : roots ≤ nodes := by
  rw [← h]
  exact Multiset.le_add_right _ _

/-- The parts of a node are nodes. -/
theorem mem_of_mem_parts (h : Forest parts roots nodes) {a b : α} (ha : a ∈ nodes)
    (hb : b ∈ parts a) : b ∈ nodes := by
  rw [← h]
  exact Multiset.mem_add.mpr (Or.inr (Multiset.mem_bind.mpr ⟨a, ha, hb⟩))

theorem add (h : Forest parts roots nodes) {roots' nodes' : Multiset α}
    (h' : Forest parts roots' nodes') : Forest parts (roots + roots') (nodes + nodes') := by
  have hsum : roots + nodes.bind parts + (roots' + nodes'.bind parts) = nodes + nodes' := by
    rw [h, h']
  rw [Forest, Multiset.add_bind, ← hsum]
  abel

/-- What remains of a forest when a part of it that is a forest too is taken away: the roots of the
part are the places that are still named. -/
theorem remainder {dropped gone rest : Multiset α} (h : Forest parts roots nodes)
    (hgone : Forest parts dropped gone) (hsum : gone + rest = nodes) :
    roots + rest.bind parts = dropped + rest := by
  rw [Forest, ← hsum, Multiset.add_bind] at h
  have hsplit : roots + rest.bind parts + gone.bind parts = dropped + rest + gone.bind parts := by
    calc roots + rest.bind parts + gone.bind parts
        = gone + rest := by rw [← h]; abel
      _ = dropped + gone.bind parts + rest := by rw [hgone]
      _ = dropped + rest + gone.bind parts := by abel
  exact add_right_cancel hsplit

/-- A change of a forest. A part of it goes, `gone`, which is a forest itself, and so do some nodes
whose parts stay, `inner`. What remains is a forest if all that is named after the change, together
with what the dropped nodes were named as, is what was named before. -/
theorem revise {roots' dropped gone inner rest : Multiset α} (h : Forest parts roots nodes)
    (hgone : Forest parts dropped gone) (hsum : rest + (gone + inner) = nodes)
    (hnamed : roots' + rest.bind parts' + (dropped + inner) =
      roots + rest.bind parts + inner.bind parts) : Forest parts' roots' rest := by
  have hsum' : gone + (rest + inner) = nodes := by
    rw [← hsum]
    abel
  have hrest := h.remainder hgone hsum'
  rw [Multiset.add_bind, ← add_assoc, ← hnamed] at hrest
  have hcancel : roots' + rest.bind parts' + (dropped + inner) = rest + (dropped + inner) := by
    rw [hrest]
    abel
  exact add_right_cancel hcancel

/-- A change of the parts of one node. -/
theorem revise_at {roots' dropped gone inner rest : Multiset α} {a : α}
    (h : Forest parts roots nodes) (hgone : Forest parts dropped gone)
    (hsum : rest + (gone + inner) = nodes) (hnodup : rest.Nodup) (ha : a ∈ rest)
    (hoff : ∀ b ∈ rest, b ≠ a → parts' b = parts b)
    (hnamed : roots' + parts' a + (dropped + inner) = roots + parts a + inner.bind parts) :
    Forest parts' roots' rest := by
  refine h.revise hgone hsum (add_right_cancel (b := parts a + parts' a) ?_)
  calc roots' + rest.bind parts' + (dropped + inner) + (parts a + parts' a)
      = (roots' + parts' a + (dropped + inner)) + (rest.bind parts' + parts a) := by abel
    _ = (roots + parts a + inner.bind parts) + (rest.bind parts + parts' a) := by
        rw [hnamed, bind_add_of_eq_off hnodup ha hoff]
    _ = roots + rest.bind parts + inner.bind parts + (parts a + parts' a) := by abel

end Forest

section Rank

variable {α : Type} {parts slots : α → Multiset α} {rank : α → Nat}

/-- All that is below a node is a forest, with the node as its root. -/
theorem forest_slots (hslots : ∀ a, slots a = a ::ₘ (parts a).bind slots)
    (hfalls : ∀ a, ∀ b ∈ parts a, rank b < rank a) (a : α) :
    Forest parts {a} (slots a) := by
  induction hn : rank a using Nat.strong_induction_on generalizing a with
  | _ n ih =>
      have hparts : (parts a).bind slots = parts a + ((parts a).bind slots).bind parts := by
        rw [Multiset.bind_assoc]
        calc (parts a).bind slots
            = (parts a).bind fun c => c ::ₘ (slots c).bind parts := by
              refine Multiset.bind_congr fun c hc => ?_
              have hc' := ih (rank c) (hn ▸ hfalls a c hc) c rfl
              rw [Forest, Multiset.singleton_add] at hc'
              exact hc'.symm
          _ = parts a + (parts a).bind fun c => (slots c).bind parts := by
              rw [Multiset.bind_cons, Multiset.map_id']
      rw [Forest, hslots a, Multiset.cons_bind, ← hparts, Multiset.singleton_add]

/-- All that is below some nodes is a forest, with these as its roots. -/
theorem forest_bind_slots (hslots : ∀ a, slots a = a ::ₘ (parts a).bind slots)
    (hfalls : ∀ a, ∀ b ∈ parts a, rank b < rank a) (roots : Multiset α) :
    Forest parts roots (roots.bind slots) := by
  induction roots using Multiset.induction with
  | empty => simp [Forest]
  | cons a roots ih =>
      rw [Multiset.cons_bind, ← Multiset.singleton_add]
      exact (forest_slots hslots hfalls a).add ih

/-- A forest is told by its roots. The ranks of its nodes are bounded, and the nodes of a rank are
named by nodes of larger rank only, so two forests agree rank by rank from the top. -/
theorem Forest.unique (hfalls : ∀ a, ∀ b ∈ parts a, rank b < rank a)
    {roots nodes nodes' : Multiset α} (h : Forest parts roots nodes)
    (h' : Forest parts roots nodes') : nodes = nodes' := by
  have hupper : ∀ k (s : Multiset α), (s.bind parts).filter (k ≤ rank ·) =
      ((s.filter (k + 1 ≤ rank ·)).bind parts).filter (k ≤ rank ·) := by
    intro k s
    have hlow : ((s.filter fun a => ¬ k + 1 ≤ rank a).bind parts).filter (k ≤ rank ·) = 0 := by
      rw [Multiset.filter_eq_nil]
      intro b hb
      obtain ⟨a, ha, hab⟩ := Multiset.mem_bind.mp hb
      have := (Multiset.mem_filter.mp ha).2
      have := hfalls a b hab
      omega
    conv_lhs => rw [← Multiset.filter_add_not (k + 1 ≤ rank ·) s]
    rw [Multiset.add_bind, Multiset.filter_add, hlow, add_zero]
  have hstep : ∀ k, nodes.filter (k + 1 ≤ rank ·) = nodes'.filter (k + 1 ≤ rank ·) →
      nodes.filter (k ≤ rank ·) = nodes'.filter (k ≤ rank ·) := by
    intro k hk
    rw [← h, ← h', Multiset.filter_add, Multiset.filter_add, hupper k nodes, hupper k nodes', hk]
  obtain ⟨top, htop⟩ : ∃ top, ∀ a ∈ nodes + nodes', rank a < top := by
    refine ⟨((nodes + nodes').map rank).sum + 1, fun a ha => Nat.lt_succ_of_le ?_⟩
    exact Multiset.single_le_sum (fun _ _ => Nat.zero_le _) _ (Multiset.mem_map_of_mem rank ha)
  have hdown : ∀ n k, top ≤ k + n →
      nodes.filter (k ≤ rank ·) = nodes'.filter (k ≤ rank ·) := by
    intro n
    induction n with
    | zero =>
        intro k hk
        have hnil : ∀ s ≤ nodes + nodes', s.filter (k ≤ rank ·) = 0 := by
          intro s hs
          rw [Multiset.filter_eq_nil]
          intro a ha
          have := htop a (Multiset.mem_of_le hs ha)
          omega
        rw [hnil nodes (Multiset.le_add_right _ _), hnil nodes' (Multiset.le_add_left _ _)]
    | succ n ih => exact fun k hk => hstep k (ih (k + 1) (by omega))
  simpa using hdown top 0 (by omega)

/-- The nodes of a forest are all that is below its roots. -/
theorem Forest.nodes_eq_bind (hslots : ∀ a, slots a = a ::ₘ (parts a).bind slots)
    (hfalls : ∀ a, ∀ b ∈ parts a, rank b < rank a) {roots nodes : Multiset α}
    (h : Forest parts roots nodes) : nodes = roots.bind slots :=
  h.unique hfalls (forest_bind_slots hslots hfalls roots)

/-- What is below a part is below the whole. -/
theorem slots_le_of_mem (hslots : ∀ a, slots a = a ::ₘ (parts a).bind slots)
    (hfalls : ∀ a, ∀ b ∈ parts a, rank b < rank a) {a b : α} (hb : b ∈ slots a) :
    slots b ≤ slots a := by
  induction hn : rank a using Nat.strong_induction_on generalizing a with
  | _ n ih =>
      rw [hslots a, Multiset.mem_cons] at hb
      rcases hb with rfl | hb
      · exact le_rfl
      · obtain ⟨c, hc, hbc⟩ := Multiset.mem_bind.mp hb
        have hle := ih (rank c) (hn ▸ hfalls a c hc) hbc rfl
        rw [hslots a]
        exact (hle.trans (Multiset.le_bind _ hc)).trans (Multiset.le_cons_self _ _)

/-- What is below a node of a forest belongs to the forest. -/
theorem Forest.slots_le (hslots : ∀ a, slots a = a ::ₘ (parts a).bind slots)
    (hfalls : ∀ a, ∀ b ∈ parts a, rank b < rank a) {roots nodes : Multiset α}
    (h : Forest parts roots nodes) {a : α} (ha : a ∈ nodes) : slots a ≤ nodes := by
  rw [h.nodes_eq_bind hslots hfalls] at ha ⊢
  obtain ⟨r, hr, har⟩ := Multiset.mem_bind.mp ha
  exact (slots_le_of_mem hslots hfalls har).trans (Multiset.le_bind _ hr)

end Rank

/-!
## Who owns a slot

The live slots of a shader are owned: each is named at one place, by a declaration at top level or
by a live slot. For statements that is a forest whose roots are the bodies of functions, and for
expressions one whose roots are initial values at top level and the expressions of live statements.

In the middle of a change some slots have no place. `OwnsStmts` and `OwnsExprs` are given these as
`pending`: a shader whose pending slots are live but named nowhere else.
-/

namespace Shader

/-- The parts of an expression, in no order. -/
def exprPartsOf (s : Shader) (id : ExprId) : Multiset ExprId := s.exprParts id

/-- The statements directly below a statement, in no order. -/
def stmtPartsOf (s : Shader) (id : StmtId) : Multiset StmtId := s.stmtParts id

/-- The expressions directly below a statement, in no order. -/
def stmtExprsOf (s : Shader) (id : StmtId) : Multiset ExprId := (s.stmt id).childExprs

/-- The bodies of the functions at top level. -/
def bodyRoots (s : Shader) : Multiset StmtId :=
  (s.decls : Multiset DeclId).bind fun d => ((s.decl d).bodies : Multiset StmtId)

/-- The initial values at top level. -/
def initRoots (s : Shader) : Multiset ExprId :=
  (s.decls : Multiset DeclId).bind fun d => ((s.decl d).inits : Multiset ExprId)

/-- Every live statement is named once, or is pending. -/
def OwnsStmts (s : Shader) (pending : Multiset StmtId) : Prop :=
  Forest s.stmtPartsOf (pending + s.bodyRoots) s.liveStmts

/-- Every live expression is named once, or is pending. -/
def OwnsExprs (s : Shader) (pending : Multiset ExprId) : Prop :=
  Forest s.exprPartsOf (pending + (s.initRoots + s.liveStmts.bind s.stmtExprsOf)) s.liveExprs

/-- The declarations at top level are the live ones, each once. -/
structure OwnsDecls (s : Shader) : Prop where
  nodup : s.decls.Nodup
  isLive_iff : ∀ d : DeclId, s.declNodes.isLive d.index = true ↔ d ∈ s.decls

/-- Every live slot is named once. -/
structure Owned (s : Shader) : Prop where
  decls : s.OwnsDecls
  stmts : s.OwnsStmts 0
  exprs : s.OwnsExprs 0

variable {s t : Shader}

/-! ## Subtrees -/

/-- The slots of an expression and of all expressions below it, in no order. -/
def exprSlotsOf (s : Shader) (id : ExprId) : Multiset ExprId := s.exprSlots id

/-- The slots of a statement and of all statements below it, in no order. -/
def stmtSlotsOf (s : Shader) (id : StmtId) : Multiset StmtId := s.stmtSlots id

theorem Grounded.exprSlotsOf_eq (h : s.Grounded) (id : ExprId) :
    s.exprSlotsOf id = id ::ₘ (s.exprPartsOf id).bind s.exprSlotsOf := by
  rw [exprSlotsOf, h.exprSlots_eq, ← Multiset.cons_coe, ← Multiset.coe_bind]
  rfl

theorem Grounded.stmtSlotsOf_eq (h : s.Grounded) (id : StmtId) :
    s.stmtSlotsOf id = id ::ₘ (s.stmtPartsOf id).bind s.stmtSlotsOf := by
  rw [stmtSlotsOf, h.stmtSlots_eq, ← Multiset.cons_coe, ← Multiset.coe_bind]
  rfl

/-- All that is below some expressions is a forest. -/
theorem Grounded.forest_exprSlots (h : s.Grounded) (ids : Multiset ExprId) :
    Forest s.exprPartsOf ids (ids.bind s.exprSlotsOf) := by
  obtain ⟨rank, hr⟩ := h.exprs
  exact forest_bind_slots h.exprSlotsOf_eq (fun a b hb => (hr.falls a b hb).2) ids

/-- All that is below a statement is a forest. -/
theorem Grounded.forest_stmtSlots (h : s.Grounded) (id : StmtId) :
    Forest s.stmtPartsOf {id} (s.stmtSlotsOf id) := by
  obtain ⟨rank, hr⟩ := h.stmts
  exact ShaderReducer.forest_slots h.stmtSlotsOf_eq (fun a b hb => (hr.falls a b hb).2) id

/-- The slots of the expressions of one statement in a tree. -/
theorem Grounded.map_tag_subexprs (h : s.Grounded) {id : StmtId} {t : Stmt ExprId StmtId}
    (ht : t ∈ (s.stmtTree id).substmts) :
    (t.form.childExprs.flatMap Expr.subexprs).map Expr.tag =
      (s.stmt t.tag).childExprs.flatMap s.exprSlots := by
  rw [h.eq_stmtTree_of_mem_substmts ht, tag_stmtTree, h.stmtTree_eq, Stmt.form,
    StmtNode.childExprs_map, List.flatMap_map, List.map_flatMap]
  rfl

/-- The slots of all expressions in a statement, those of each statement in it together. -/
theorem Grounded.coe_stmtExprSlots (h : s.Grounded) (id : StmtId) :
    (s.stmtExprSlots id : Multiset ExprId) =
      ((s.stmtSlotsOf id).bind s.stmtExprsOf).bind s.exprSlotsOf := by
  have hperm := (Stmt.map_snd_exprVisits_perm 0 (s.stmtTree id)).map Expr.tag
  rw [List.map_map, List.map_flatMap, List.flatMap_congr fun t ht => h.map_tag_subexprs ht] at hperm
  calc (s.stmtExprSlots id : Multiset ExprId)
      = ((s.stmtTree id).substmts.flatMap fun t =>
          (s.stmt t.tag).childExprs.flatMap s.exprSlots : List ExprId) :=
        Multiset.coe_eq_coe.mpr hperm
    _ = (((s.stmtSlots id).flatMap fun t => (s.stmt t).childExprs).flatMap s.exprSlots :
          List ExprId) := by
        rw [stmtSlots_eq_map, List.flatMap_map, List.flatMap_assoc]
    _ = ((s.stmtSlotsOf id).bind s.stmtExprsOf).bind s.exprSlotsOf := by
        rw [← Multiset.coe_bind, ← Multiset.coe_bind]
        rfl

theorem OwnsExprs.exprSlotsOf_le (h : s.Grounded) {pending : Multiset ExprId}
    (ho : s.OwnsExprs pending) {id : ExprId} (hid : id ∈ s.liveExprs) :
    s.exprSlotsOf id ≤ s.liveExprs := by
  obtain ⟨rank, hr⟩ := h.exprs
  exact Forest.slots_le h.exprSlotsOf_eq (fun a b hb => (hr.falls a b hb).2) ho hid

theorem OwnsStmts.stmtSlotsOf_le (h : s.Grounded) {pending : Multiset StmtId}
    (ho : s.OwnsStmts pending) {id : StmtId} (hid : id ∈ s.liveStmts) :
    s.stmtSlotsOf id ≤ s.liveStmts := by
  obtain ⟨rank, hr⟩ := h.stmts
  exact Forest.slots_le h.stmtSlotsOf_eq (fun a b hb => (hr.falls a b hb).2) ho hid

/-- The live expressions are those below the roots. -/
theorem OwnsExprs.liveExprs_eq (h : s.Grounded) {pending : Multiset ExprId}
    (ho : s.OwnsExprs pending) :
    s.liveExprs =
      (pending + (s.initRoots + s.liveStmts.bind s.stmtExprsOf)).bind s.exprSlotsOf := by
  obtain ⟨rank, hr⟩ := h.exprs
  exact Forest.nodes_eq_bind h.exprSlotsOf_eq (fun a b hb => (hr.falls a b hb).2) ho

/-- The live statements are those below the roots. -/
theorem OwnsStmts.liveStmts_eq (h : s.Grounded) {pending : Multiset StmtId}
    (ho : s.OwnsStmts pending) : s.liveStmts = (pending + s.bodyRoots).bind s.stmtSlotsOf := by
  obtain ⟨rank, hr⟩ := h.stmts
  exact Forest.nodes_eq_bind h.stmtSlotsOf_eq (fun a b hb => (hr.falls a b hb).2) ho

/-! ## Changes of one expression -/

/-- Puts another node into the slot of a live expression: some parts are dropped with all below
them, and some nodes whose parts get a place in the new node are left. -/
theorem OwnsExprs.revise (h : s.Grounded) {pending pending' : Multiset ExprId}
    (ho : s.OwnsExprs pending) {target : ExprId} {node : ExprNode ExprId}
    {dropped inner : List ExprId}
    (hle : target ::ₘ ((dropped.flatMap s.exprSlots ++ inner : List ExprId) : Multiset ExprId) ≤
      s.liveExprs)
    (hnamed : pending' + node.children + (dropped + inner) =
      pending + s.exprPartsOf target + (inner : Multiset ExprId).bind s.exprPartsOf) :
    ((s.forgetExprs (dropped.flatMap s.exprSlots ++ inner)).setExpr target node).OwnsExprs
      pending' := by
  set rest := (s.forgetExprs (dropped.flatMap s.exprSlots ++ inner)).liveExprs with hrest
  set t := (s.forgetExprs (dropped.flatMap s.exprSlots ++ inner)).setExpr target node with ht
  have htarget : target ∈ rest := by
    have hnodup := Multiset.nodup_of_le hle (nodup_liveExprs s)
    rw [hrest, liveExprs_forgetExprs, Multiset.mem_filter]
    exact ⟨Multiset.mem_of_le hle (Multiset.mem_cons_self _ _), (Multiset.nodup_cons.mp hnodup).1⟩
  have hexpr : ∀ id, t.expr id = if target = id ∧ id.index < s.exprs.size then node else
      s.expr id := by
    intro id
    rw [ht, expr_setExpr, expr_forgetExprs, size_exprs_forgetExprs]
  have hsame : t.exprPartsOf target = node.children := by
    have hsize := lt_size_of_mem_liveExprs htarget
    rw [size_exprs_forgetExprs] at hsize
    rw [exprPartsOf, exprParts, hexpr, if_pos ⟨rfl, hsize⟩]
  have hoff : ∀ id ∈ rest, id ≠ target → t.exprPartsOf id = s.exprPartsOf id := by
    intro id _ hid
    rw [exprPartsOf, exprParts, hexpr, if_neg fun hc => hid hc.1.symm]
    rfl
  have hsum : rest + ((dropped.flatMap s.exprSlots : List ExprId) + (inner : Multiset ExprId)) =
      s.liveExprs := by
    rw [Multiset.coe_add]
    exact liveExprs_forgetExprs_add ((Multiset.le_cons_self _ _).trans hle)
  have hgone : Forest s.exprPartsOf dropped (dropped.flatMap s.exprSlots : List ExprId) := by
    rw [← Multiset.coe_bind]
    exact h.forest_exprSlots dropped
  rw [OwnsExprs, ht, liveExprs_setExpr, ← ht, ← hrest]
  refine Forest.revise_at ho hgone hsum (nodup_liveExprs _) htarget hoff ?_
  change pending' + (s.initRoots + s.liveStmts.bind s.stmtExprsOf) + _ + _ = _
  rw [hsame]
  calc pending' + (s.initRoots + s.liveStmts.bind s.stmtExprsOf) + node.children + (dropped + inner)
      = pending' + node.children + (dropped + inner) +
          (s.initRoots + s.liveStmts.bind s.stmtExprsOf) := by abel
    _ = pending + (s.initRoots + s.liveStmts.bind s.stmtExprsOf) + s.exprPartsOf target +
          (inner : Multiset ExprId).bind s.exprPartsOf := by
        rw [hnamed]
        abel

/-- Leaves some nodes whose parts get a place in the new node of a live expression. -/
theorem OwnsExprs.contract (h : s.Grounded) (ho : s.OwnsExprs 0) {target : ExprId}
    {node : ExprNode ExprId} {inner : List ExprId}
    (hle : target ::ₘ (inner : Multiset ExprId) ≤ s.liveExprs)
    (hnamed : (node.children : Multiset ExprId) + inner =
      s.exprPartsOf target + (inner : Multiset ExprId).bind s.exprPartsOf) :
    ((s.forgetExprs inner).setExpr target node).OwnsExprs 0 := by
  have hnone : ([] : List ExprId).flatMap s.exprSlots ++ inner = inner := by simp
  rw [← hnone] at hle ⊢
  refine ho.revise h hle ?_
  rw [Multiset.coe_nil, zero_add, zero_add, zero_add, hnamed]

/-- What is below the parts of a live expression is live, and so is the expression. -/
theorem OwnsExprs.cons_bind_le (h : s.Grounded) {pending : Multiset ExprId}
    (ho : s.OwnsExprs pending) {id : ExprId} (hid : id ∈ s.liveExprs) :
    id ::ₘ (s.exprPartsOf id).bind s.exprSlotsOf ≤ s.liveExprs := by
  rw [← h.exprSlotsOf_eq]
  exact ho.exprSlotsOf_le h hid

theorem OwnsExprs.nodup_exprParts (h : s.Grounded) {pending : Multiset ExprId}
    (ho : s.OwnsExprs pending) {id : ExprId} (hid : id ∈ s.liveExprs) :
    (s.exprParts id).Nodup := by
  have hle := (h.forest_exprSlots (s.exprPartsOf id)).roots_le
  exact Multiset.nodup_of_le
    (hle.trans ((Multiset.le_cons_self _ _).trans (ho.cons_bind_le h hid))) (nodup_liveExprs s)

theorem cons_filter_ne {α : Type} [DecidableEq α] {l : List α} (hl : l.Nodup) {a : α}
    (ha : a ∈ l) : a ::ₘ (l.filter (· ≠ a) : Multiset α) = l := by
  have hfilter : l.filter (· ≠ a) = l.erase a := by
    rw [hl.erase_eq_filter]
    exact List.filter_congr fun b _ => by simp [bne, beq_eq_decide]
  rw [hfilter, Multiset.cons_coe, Multiset.coe_eq_coe]
  exact (List.perm_cons_erase ha).symm

theorem replaceWithChild_eq (s : Shader) (target child : ExprId) :
    s.replaceWithChild target child =
      (s.forgetExprs (((s.exprParts target).filter (· ≠ child)).flatMap s.exprSlots ++
        [child])).setExpr target (s.expr child) := by
  rw [replaceWithChild, killExprs_eq, forgetExpr, forgetExprs_forgetExprs, expr_forgetExprs]
  rfl

/-- An expression and what goes when a part takes its place are live, each once. -/
theorem OwnsExprs.cons_flatMap_le (h : s.Grounded) {pending : Multiset ExprId}
    (ho : s.OwnsExprs pending) {target child : ExprId} (ht : target ∈ s.liveExprs)
    (hc : child ∈ s.exprParts target) :
    target ::ₘ ((((s.exprParts target).filter (· ≠ child)).flatMap s.exprSlots ++ [child] :
      List ExprId) : Multiset ExprId) ≤ s.liveExprs := by
  have hsplit := cons_filter_ne (ho.nodup_exprParts h ht) hc
  refine le_trans ?_ (ho.cons_bind_le h ht)
  rw [exprPartsOf, ← hsplit, Multiset.cons_bind, ← Multiset.coe_add, ← Multiset.coe_bind]
  refine Multiset.cons_le_cons _ ?_
  rw [add_comm]
  refine add_le_add_left ?_ _
  rw [h.exprSlotsOf_eq]
  exact Multiset.cons_le_cons _ (Multiset.zero_le _)

theorem OwnsExprs.replaceWithChild (h : s.Grounded) {pending : Multiset ExprId}
    (ho : s.OwnsExprs pending) {target child : ExprId} (ht : target ∈ s.liveExprs)
    (hc : child ∈ s.exprParts target) : (s.replaceWithChild target child).OwnsExprs pending := by
  have hsplit := cons_filter_ne (ho.nodup_exprParts h ht) hc
  rw [replaceWithChild_eq]
  refine ho.revise h (ho.cons_flatMap_le h ht hc) ?_
  rw [exprPartsOf, ← hsplit, Multiset.coe_singleton, Multiset.singleton_bind,
    ← Multiset.singleton_add, exprPartsOf]
  change pending + (s.exprParts child : Multiset ExprId) + _ = _
  abel

theorem Grounded.replaceWithChild (h : s.Grounded) {target child : ExprId}
    (hc : child ∈ s.exprParts target) : (s.replaceWithChild target child).Grounded := by
  rw [replaceWithChild_eq]
  refine (h.forgetExprs _).setExpr fun c hcc => ?_
  have hbelow : s.ExprBelow target c := (exprBelow_of_mem hc).tail hcc
  rwa [ExprBelow, exprParts_forgetExprs]

theorem replaceWithLeaf_eq (s : Shader) (target : ExprId) (leaf : ExprNode ExprId) :
    s.replaceWithLeaf target leaf =
      (s.forgetExprs ((s.exprParts target).flatMap s.exprSlots ++ [])).setExpr target leaf := by
  rw [replaceWithLeaf, killExprs_eq, List.append_nil]
  rfl

/-- Puts another node into the slot of an expression whose parts are dropped. The parts of the new
node were pending. -/
theorem OwnsExprs.replaceWithLeaf (h : s.Grounded) {pending : Multiset ExprId} {target : ExprId}
    {leaf : ExprNode ExprId} (ho : s.OwnsExprs (pending + leaf.children))
    (ht : target ∈ s.liveExprs) : (s.replaceWithLeaf target leaf).OwnsExprs pending := by
  rw [replaceWithLeaf_eq]
  refine ho.revise h ?_ ?_
  · rw [List.append_nil, ← Multiset.coe_bind]
    exact ho.cons_bind_le h ht
  · rw [exprPartsOf]
    simp

/-- Puts an expression into a new slot. The slot is pending, and the parts of the expression no
longer are. -/
theorem OwnsExprs.addExpr {pending : Multiset ExprId} {node : ExprNode ExprId}
    (ho : s.OwnsExprs (node.children + pending)) :
    (s.addExpr node).2.OwnsExprs ((s.addExpr node).1 ::ₘ pending) := by
  have hnew : (s.addExpr node).2.exprPartsOf (s.addExpr node).1 = node.children := by
    rw [exprPartsOf, exprParts, expr_addExpr_self]
  have hold : s.liveExprs.bind (s.addExpr node).2.exprPartsOf = s.liveExprs.bind s.exprPartsOf := by
    refine Multiset.bind_congr fun id hid => ?_
    rw [exprPartsOf, exprParts, expr_addExpr_of_lt s node (lt_size_of_mem_liveExprs hid)]
    rfl
  rw [OwnsExprs, Forest, liveExprs_addExpr, Multiset.cons_bind, hnew, hold]
  change _ ::ₘ pending + (s.initRoots + s.liveStmts.bind s.stmtExprsOf) + _ = _
  rw [OwnsExprs, Forest] at ho
  rw [← Multiset.singleton_add, ← Multiset.singleton_add]
  conv_rhs => rw [← ho]
  abel

end Shader

end ShaderReducer
