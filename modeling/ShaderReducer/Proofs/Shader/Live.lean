import Mathlib.Data.Multiset.Filter
import Mathlib.Data.List.NodupEquivFin
import ShaderReducer.Shader.Edit

/-!
# Live slots

Which slots of an arena are live after each operation on it, and the live slots of a shader as
multisets. What a slot holds and whether it is live are apart: marking slots dead leaves all trees as
they are.
-/

namespace ShaderReducer

namespace Arena

variable {α : Type} {a : Arena α}

@[simp] theorem size_killAll (a : Arena α) (is : List Nat) : (a.killAll is).size = a.size := by
  induction is generalizing a with
  | nil => rfl
  | cons i is ih => rw [killAll, List.foldl_cons, ← killAll, ih, size_kill]

@[simp] theorem get?_killAll (a : Arena α) (is : List Nat) (j : Nat) :
    (a.killAll is).get? j = a.get? j := by
  induction is generalizing a with
  | nil => rfl
  | cons i is ih => rw [killAll, List.foldl_cons, ← killAll, ih, get?_kill]

@[simp] theorem isLive_set (a : Arena α) (i j : Nat) (node : α) :
    (a.set i node).isLive j = a.isLive j := by
  simp only [isLive, set, Array.getElem?_modify]
  split <;> cases a.slots[j]? <;> rfl

/-- What a slot holds and whether it is live are changed apart. -/
theorem kill_set (a : Arena α) (i j : Nat) (node : α) :
    (a.set i node).kill j = (a.kill j).set i node := by
  simp only [kill, set, mk.injEq]
  apply Array.ext_getElem?
  intro k
  simp only [Array.getElem?_modify]
  by_cases hi : i = k <;> by_cases hj : j = k <;> cases a.slots[k]? <;> simp [hi, hj]

theorem killAll_set (a : Arena α) (i : Nat) (is : List Nat) (node : α) :
    (a.set i node).killAll is = (a.killAll is).set i node := by
  induction is generalizing a with
  | nil => rfl
  | cons j is ih => rw [killAll, List.foldl_cons, kill_set, ← killAll, ih]; rfl

theorem isLive_kill (a : Arena α) (i j : Nat) :
    (a.kill i).isLive j = (a.isLive j && i != j) := by
  simp only [isLive, kill, Array.getElem?_modify]
  by_cases h : i = j
  · cases a.slots[j]? <;> simp [h]
  · simp [h]

theorem isLive_killAll (a : Arena α) (is : List Nat) (j : Nat) :
    (a.killAll is).isLive j = (a.isLive j && !is.contains j) := by
  induction is generalizing a with
  | nil => simp [killAll]
  | cons i is ih =>
      rw [killAll, List.foldl_cons, ← killAll, ih, isLive_kill, List.contains_cons, Bool.not_or,
        Bool.and_assoc, bne, show (i == j) = (j == i) from BEq.comm]

theorem isLive_push (a : Arena α) (node : α) (i : Nat) :
    (a.push node).isLive i = (a.isLive i || i == a.size) := by
  by_cases h : i = a.slots.size
  · simp [isLive, push, size, h]
  · simp [isLive, push, size, h, Array.getElem?_push]

theorem lt_size_of_isLive {i : Nat} (h : a.isLive i = true) : i < a.size := by
  by_contra hi
  rw [isLive, Array.getElem?_eq_none (by rw [size] at hi; omega)] at h
  exact Bool.false_ne_true h

/-- The numbers of the live slots, in order. -/
def liveSlots (a : Arena α) : List Nat :=
  (List.range a.size).filter a.isLive

@[simp] theorem liveSlots_set (a : Arena α) (i : Nat) (node : α) :
    (a.set i node).liveSlots = a.liveSlots := by
  rw [liveSlots, size_set, liveSlots]
  exact List.filter_congr fun j _ => isLive_set a i j node

theorem liveSlots_push (a : Arena α) (node : α) :
    (a.push node).liveSlots = a.liveSlots ++ [a.size] := by
  have hold : (List.range a.size).filter (a.push node).isLive = a.liveSlots := by
    refine List.filter_congr fun i hi => ?_
    have hne : i ≠ a.size := Nat.ne_of_lt (List.mem_range.mp hi)
    rw [isLive_push, beq_false_of_ne hne, Bool.or_false]
  rw [liveSlots, size_push, List.range_succ, List.filter_append, hold]
  simp [isLive_push]

theorem mem_liveSlots {i : Nat} : i ∈ a.liveSlots ↔ a.isLive i = true := by
  simp only [liveSlots, List.mem_filter, List.mem_range, and_iff_right_iff_imp]
  exact lt_size_of_isLive

theorem nodup_liveSlots (a : Arena α) : a.liveSlots.Nodup :=
  List.nodup_range.filter _

theorem length_liveSlots (a : Arena α) : a.liveSlots.length = a.liveCount := by
  have hmap : (List.range a.size).map (fun i => a.slots[i]?) = a.slots.toList.map some := by
    apply List.ext_getElem (by simp [size])
    intro i hi _
    have : i < a.slots.size := by simpa [size] using hi
    simp [this]
  calc a.liveSlots.length
      = (List.range a.size).countP a.isLive := by rw [liveSlots, List.countP_eq_length_filter]
    _ = ((List.range a.size).map fun i => a.slots[i]?).countP (Option.any Slot.live) := by
        rw [List.countP_map]
        rfl
    _ = a.slots.toList.countP Slot.live := by
        rw [hmap, List.countP_map]
        rfl
    _ = a.liveCount := by rw [liveCount, Array.countP_toList]

end Arena

namespace Shader

variable {s : Shader}

/-- The live slots of expressions. -/
def liveExprs (s : Shader) : Multiset ExprId :=
  s.exprs.liveSlots.map ExprId.mk

/-- The live slots of statements. -/
def liveStmts (s : Shader) : Multiset StmtId :=
  s.stmts.liveSlots.map StmtId.mk

theorem mem_liveExprs {id : ExprId} : id ∈ s.liveExprs ↔ s.isExprLive id = true := by
  rw [liveExprs, Multiset.mem_coe, List.mem_map]
  constructor
  · rintro ⟨i, hi, rfl⟩
    exact Arena.mem_liveSlots.mp hi
  · exact fun h => ⟨id.index, Arena.mem_liveSlots.mpr h, rfl⟩

theorem mem_liveStmts {id : StmtId} : id ∈ s.liveStmts ↔ s.isStmtLive id = true := by
  rw [liveStmts, Multiset.mem_coe, List.mem_map]
  constructor
  · rintro ⟨i, hi, rfl⟩
    exact Arena.mem_liveSlots.mp hi
  · exact fun h => ⟨id.index, Arena.mem_liveSlots.mpr h, rfl⟩

theorem nodup_liveExprs (s : Shader) : s.liveExprs.Nodup := by
  rw [liveExprs, Multiset.coe_nodup]
  exact (Arena.nodup_liveSlots _).map fun i j h => congrArg ExprId.index h

theorem nodup_liveStmts (s : Shader) : s.liveStmts.Nodup := by
  rw [liveStmts, Multiset.coe_nodup]
  exact (Arena.nodup_liveSlots _).map fun i j h => congrArg StmtId.index h

theorem card_liveExprs (s : Shader) : s.liveExprs.card = s.exprs.liveCount := by
  rw [liveExprs, Multiset.coe_card, List.length_map, Arena.length_liveSlots]

theorem card_liveStmts (s : Shader) : s.liveStmts.card = s.stmts.liveCount := by
  rw [liveStmts, Multiset.coe_card, List.length_map, Arena.length_liveSlots]

theorem lt_size_of_mem_liveExprs {id : ExprId} (h : id ∈ s.liveExprs) :
    id.index < s.exprs.size :=
  Arena.lt_size_of_isLive (mem_liveExprs.mp h)

theorem lt_size_of_mem_liveStmts {id : StmtId} (h : id ∈ s.liveStmts) :
    id.index < s.stmts.size :=
  Arena.lt_size_of_isLive (mem_liveStmts.mp h)

/-! ## What an operation leaves as it is -/

@[simp] theorem expr_forgetExprs (s : Shader) (ids : List ExprId) :
    (s.forgetExprs ids).expr = s.expr := by
  funext id
  simp [expr, forgetExprs]

@[simp] theorem stmt_forgetStmts (s : Shader) (ids : List StmtId) :
    (s.forgetStmts ids).stmt = s.stmt := by
  funext id
  simp [stmt, forgetStmts]

@[simp] theorem size_exprs_forgetExprs (s : Shader) (ids : List ExprId) :
    (s.forgetExprs ids).exprs.size = s.exprs.size := by
  simp [forgetExprs]

@[simp] theorem size_stmts_forgetStmts (s : Shader) (ids : List StmtId) :
    (s.forgetStmts ids).stmts.size = s.stmts.size := by
  simp [forgetStmts]

@[simp] theorem stmt_forgetExprs (s : Shader) (ids : List ExprId) :
    (s.forgetExprs ids).stmt = s.stmt := rfl

@[simp] theorem decl_forgetExprs (s : Shader) (ids : List ExprId) :
    (s.forgetExprs ids).decl = s.decl := rfl

@[simp] theorem expr_forgetStmts (s : Shader) (ids : List StmtId) :
    (s.forgetStmts ids).expr = s.expr := rfl

@[simp] theorem decl_forgetStmts (s : Shader) (ids : List StmtId) :
    (s.forgetStmts ids).decl = s.decl := rfl

@[simp] theorem liveStmts_forgetExprs (s : Shader) (ids : List ExprId) :
    (s.forgetExprs ids).liveStmts = s.liveStmts := rfl

@[simp] theorem liveExprs_forgetStmts (s : Shader) (ids : List StmtId) :
    (s.forgetStmts ids).liveExprs = s.liveExprs := rfl

@[simp] theorem decls_forgetExprs (s : Shader) (ids : List ExprId) :
    (s.forgetExprs ids).decls = s.decls := rfl

@[simp] theorem declNodes_forgetExprs (s : Shader) (ids : List ExprId) :
    (s.forgetExprs ids).declNodes = s.declNodes := rfl

@[simp] theorem stmts_forgetExprs (s : Shader) (ids : List ExprId) :
    (s.forgetExprs ids).stmts = s.stmts := rfl

@[simp] theorem decls_setExpr (s : Shader) (id : ExprId) (node : ExprNode ExprId) :
    (s.setExpr id node).decls = s.decls := rfl

@[simp] theorem declNodes_setExpr (s : Shader) (id : ExprId) (node : ExprNode ExprId) :
    (s.setExpr id node).declNodes = s.declNodes := rfl

@[simp] theorem stmts_setExpr (s : Shader) (id : ExprId) (node : ExprNode ExprId) :
    (s.setExpr id node).stmts = s.stmts := rfl

@[simp] theorem decls_addExpr (s : Shader) (node : ExprNode ExprId) :
    (s.addExpr node).2.decls = s.decls := rfl

@[simp] theorem declNodes_addExpr (s : Shader) (node : ExprNode ExprId) :
    (s.addExpr node).2.declNodes = s.declNodes := rfl

@[simp] theorem stmts_addExpr (s : Shader) (node : ExprNode ExprId) :
    (s.addExpr node).2.stmts = s.stmts := rfl

theorem expr_setExpr (s : Shader) (id id' : ExprId) (node : ExprNode ExprId) :
    (s.setExpr id node).expr id' =
      if id = id' ∧ id'.index < s.exprs.size then node else s.expr id' := by
  have hid : id.index = id'.index ↔ id = id' := by
    cases id
    cases id'
    simp
  simp only [expr, setExpr, Arena.get?_set, hid]
  split <;> rfl

theorem stmt_setStmt (s : Shader) (id id' : StmtId) (node : StmtNode ExprId StmtId) :
    (s.setStmt id node).stmt id' =
      if id = id' ∧ id'.index < s.stmts.size then node else s.stmt id' := by
  have hid : id.index = id'.index ↔ id = id' := by
    cases id
    cases id'
    simp
  simp only [stmt, setStmt, Arena.get?_set, hid]
  split <;> rfl

theorem decl_setDecl (s : Shader) (id id' : DeclId) (node : Decl ExprId StmtId) :
    (s.setDecl id node).decl id' =
      if id = id' ∧ id'.index < s.declNodes.size then node else s.decl id' := by
  have hid : id.index = id'.index ↔ id = id' := by
    cases id
    cases id'
    simp
  simp only [decl, setDecl, Arena.get?_set, hid]
  split <;> rfl

@[simp] theorem size_exprs_setExpr (s : Shader) (id : ExprId) (node : ExprNode ExprId) :
    (s.setExpr id node).exprs.size = s.exprs.size := by
  simp [setExpr]

@[simp] theorem size_stmts_setStmt (s : Shader) (id : StmtId) (node : StmtNode ExprId StmtId) :
    (s.setStmt id node).stmts.size = s.stmts.size := by
  simp [setStmt]

@[simp] theorem liveExprs_setExpr (s : Shader) (id : ExprId) (node : ExprNode ExprId) :
    (s.setExpr id node).liveExprs = s.liveExprs := by
  rw [liveExprs, setExpr, Arena.liveSlots_set, liveExprs]

@[simp] theorem liveStmts_setStmt (s : Shader) (id : StmtId) (node : StmtNode ExprId StmtId) :
    (s.setStmt id node).liveStmts = s.liveStmts := by
  rw [liveStmts, setStmt, Arena.liveSlots_set, liveStmts]

/-! ## New slots -/

theorem expr_addExpr (s : Shader) (node : ExprNode ExprId) (id : ExprId) :
    (s.addExpr node).2.expr id = if id.index = s.exprs.size then node else s.expr id := by
  simp only [expr, addExpr, Arena.get?_push]
  split <;> rfl

theorem stmt_addStmt (s : Shader) (node : StmtNode ExprId StmtId) (id : StmtId) :
    (s.addStmt node).2.stmt id = if id.index = s.stmts.size then node else s.stmt id := by
  simp only [stmt, addStmt, Arena.get?_push]
  split <;> rfl

theorem decl_addDecl (s : Shader) (node : Decl ExprId StmtId) (id : DeclId) :
    (s.addDecl node).2.decl id = if id.index = s.declNodes.size then node else s.decl id := by
  simp only [decl, addDecl, Arena.get?_push]
  split <;> rfl

@[simp] theorem expr_addExpr_self (s : Shader) (node : ExprNode ExprId) :
    (s.addExpr node).2.expr (s.addExpr node).1 = node := by
  rw [expr_addExpr]
  exact if_pos rfl

@[simp] theorem stmt_addStmt_self (s : Shader) (node : StmtNode ExprId StmtId) :
    (s.addStmt node).2.stmt (s.addStmt node).1 = node := by
  rw [stmt_addStmt]
  exact if_pos rfl

@[simp] theorem decl_addDecl_self (s : Shader) (node : Decl ExprId StmtId) :
    (s.addDecl node).2.decl (s.addDecl node).1 = node := by
  rw [decl_addDecl]
  exact if_pos rfl

theorem expr_addExpr_of_lt (s : Shader) (node : ExprNode ExprId) {id : ExprId}
    (h : id.index < s.exprs.size) : (s.addExpr node).2.expr id = s.expr id := by
  rw [expr_addExpr, if_neg (by omega)]

theorem stmt_addStmt_of_lt (s : Shader) (node : StmtNode ExprId StmtId) {id : StmtId}
    (h : id.index < s.stmts.size) : (s.addStmt node).2.stmt id = s.stmt id := by
  rw [stmt_addStmt, if_neg (by omega)]

@[simp] theorem size_addExpr (s : Shader) (node : ExprNode ExprId) :
    (s.addExpr node).2.exprs.size = s.exprs.size + 1 := by
  simp [addExpr]

@[simp] theorem size_addStmt (s : Shader) (node : StmtNode ExprId StmtId) :
    (s.addStmt node).2.stmts.size = s.stmts.size + 1 := by
  simp [addStmt]

theorem liveExprs_addExpr (s : Shader) (node : ExprNode ExprId) :
    (s.addExpr node).2.liveExprs = (s.addExpr node).1 ::ₘ s.liveExprs := by
  rw [liveExprs, addExpr, Arena.liveSlots_push, liveExprs, Multiset.cons_coe, List.map_append,
    List.map_singleton, Multiset.coe_eq_coe]
  exact List.perm_append_singleton _ _

theorem liveStmts_addStmt (s : Shader) (node : StmtNode ExprId StmtId) :
    (s.addStmt node).2.liveStmts = (s.addStmt node).1 ::ₘ s.liveStmts := by
  rw [liveStmts, addStmt, Arena.liveSlots_push, liveStmts, Multiset.cons_coe, List.map_append,
    List.map_singleton, Multiset.coe_eq_coe]
  exact List.perm_append_singleton _ _

/-! ## Marking slots dead -/

theorem filter_not_mem_add {α : Type} [DecidableEq α] {live : Multiset α} {ids : List α}
    (hlive : live.Nodup) (h : (ids : Multiset α) ≤ live) :
    live.filter (· ∉ ids) + ids = live := by
  have hids : live.filter (· ∈ ids) = ids := by
    refine (Multiset.Nodup.ext (hlive.filter _) (Multiset.nodup_of_le h hlive)).mpr fun a => ?_
    rw [Multiset.mem_filter, Multiset.mem_coe, and_iff_right_iff_imp]
    exact fun ha => Multiset.mem_of_le h ha
  calc live.filter (· ∉ ids) + ids
      = live.filter (· ∈ ids) + live.filter (· ∉ ids) := by rw [hids, Multiset.add_comm]
    _ = live := Multiset.filter_add_not _ _

theorem liveExprs_forgetExprs (s : Shader) (ids : List ExprId) :
    (s.forgetExprs ids).liveExprs = s.liveExprs.filter (· ∉ ids) := by
  refine (Multiset.Nodup.ext (nodup_liveExprs _) ((nodup_liveExprs s).filter _)).mpr fun id => ?_
  have hid : id.index ∈ ids.map ExprId.index ↔ id ∈ ids := by
    rw [List.mem_map]
    constructor
    · rintro ⟨id', hid', h⟩
      cases id
      cases id'
      cases h
      exact hid'
    · exact fun h => ⟨id, h, rfl⟩
  rw [mem_liveExprs, Multiset.mem_filter, mem_liveExprs, isExprLive, forgetExprs,
    Arena.isLive_killAll, isExprLive]
  simp [hid]

theorem liveStmts_forgetStmts (s : Shader) (ids : List StmtId) :
    (s.forgetStmts ids).liveStmts = s.liveStmts.filter (· ∉ ids) := by
  refine (Multiset.Nodup.ext (nodup_liveStmts _) ((nodup_liveStmts s).filter _)).mpr fun id => ?_
  have hid : id.index ∈ ids.map StmtId.index ↔ id ∈ ids := by
    rw [List.mem_map]
    constructor
    · rintro ⟨id', hid', h⟩
      cases id
      cases id'
      cases h
      exact hid'
    · exact fun h => ⟨id, h, rfl⟩
  rw [mem_liveStmts, Multiset.mem_filter, mem_liveStmts, isStmtLive, forgetStmts,
    Arena.isLive_killAll, isStmtLive]
  simp [hid]

/-- Live slots that are marked dead are gone from the live slots, each once. -/
theorem liveExprs_forgetExprs_add {ids : List ExprId} (h : (ids : Multiset ExprId) ≤ s.liveExprs) :
    (s.forgetExprs ids).liveExprs + ids = s.liveExprs := by
  rw [liveExprs_forgetExprs]
  exact filter_not_mem_add (nodup_liveExprs s) h

/-- Live slots that are marked dead are gone from the live slots, each once. -/
theorem liveStmts_forgetStmts_add {ids : List StmtId} (h : (ids : Multiset StmtId) ≤ s.liveStmts) :
    (s.forgetStmts ids).liveStmts + ids = s.liveStmts := by
  rw [liveStmts_forgetStmts]
  exact filter_not_mem_add (nodup_liveStmts s) h

theorem forgetExprs_setExpr (s : Shader) (ids : List ExprId) (id : ExprId)
    (node : ExprNode ExprId) :
    (s.setExpr id node).forgetExprs ids = (s.forgetExprs ids).setExpr id node := by
  simp [setExpr, forgetExprs, Arena.killAll_set]

theorem forgetExprs_forgetExprs (s : Shader) (ids ids' : List ExprId) :
    (s.forgetExprs ids).forgetExprs ids' = s.forgetExprs (ids ++ ids') := by
  simp [forgetExprs, Arena.killAll]

theorem forgetStmts_forgetStmts (s : Shader) (ids ids' : List StmtId) :
    (s.forgetStmts ids).forgetStmts ids' = s.forgetStmts (ids ++ ids') := by
  simp [forgetStmts, Arena.killAll]

/-! ## Trees and dead slots -/

theorem exprTree_congr {t : Shader} (hsize : s.exprs.size = t.exprs.size) (h : s.expr = t.expr) :
    s.exprTree = t.exprTree := by
  have hread : ∀ depth id, s.readExpr depth id = t.readExpr depth id := by
    intro depth
    induction depth with
    | zero => exact fun id => rfl
    | succ depth ih =>
        intro id
        rw [readExpr, readExpr, h, funext ih]
  funext id
  rw [exprTree, exprTree, hsize, hread]

theorem stmtTree_congr {t : Shader} (hsize : s.stmts.size = t.stmts.size) (h : s.stmt = t.stmt)
    (hexpr : s.exprTree = t.exprTree) : s.stmtTree = t.stmtTree := by
  have hread : ∀ depth id, s.readStmt depth id = t.readStmt depth id := by
    intro depth
    induction depth with
    | zero => exact fun id => rfl
    | succ depth ih =>
        intro id
        rw [readStmt, readStmt, h, hexpr, funext ih]
  funext id
  rw [stmtTree, stmtTree, hsize, hread]

@[simp] theorem exprTree_forgetExprs (s : Shader) (ids : List ExprId) :
    (s.forgetExprs ids).exprTree = s.exprTree :=
  exprTree_congr (size_exprs_forgetExprs s ids) (expr_forgetExprs s ids)

@[simp] theorem exprTree_forgetStmts (s : Shader) (ids : List StmtId) :
    (s.forgetStmts ids).exprTree = s.exprTree :=
  exprTree_congr rfl rfl

@[simp] theorem stmtTree_forgetExprs (s : Shader) (ids : List ExprId) :
    (s.forgetExprs ids).stmtTree = s.stmtTree :=
  stmtTree_congr rfl rfl (exprTree_forgetExprs s ids)

@[simp] theorem stmtTree_forgetStmts (s : Shader) (ids : List StmtId) :
    (s.forgetStmts ids).stmtTree = s.stmtTree :=
  stmtTree_congr (size_stmts_forgetStmts s ids) (stmt_forgetStmts s ids) (exprTree_forgetStmts s ids)

@[simp] theorem exprSlots_forgetExprs (s : Shader) (ids : List ExprId) :
    (s.forgetExprs ids).exprSlots = s.exprSlots := by
  funext id
  rw [exprSlots, exprTree_forgetExprs, exprSlots]

@[simp] theorem exprSlots_forgetStmts (s : Shader) (ids : List StmtId) :
    (s.forgetStmts ids).exprSlots = s.exprSlots := by
  funext id
  rw [exprSlots, exprTree_forgetStmts, exprSlots]

@[simp] theorem stmtSlots_forgetExprs (s : Shader) (ids : List ExprId) :
    (s.forgetExprs ids).stmtSlots = s.stmtSlots := by
  funext id
  rw [stmtSlots, stmtTree_forgetExprs, stmtSlots]

@[simp] theorem stmtExprSlots_forgetExprs (s : Shader) (ids : List ExprId) :
    (s.forgetExprs ids).stmtExprSlots = s.stmtExprSlots := by
  funext id
  rw [stmtExprSlots, stmtTree_forgetExprs, stmtExprSlots]

/-- Expressions that are dropped together are marked dead together. -/
theorem killExprs_eq (s : Shader) (ids : List ExprId) :
    s.killExprs ids = s.forgetExprs (ids.flatMap s.exprSlots) := by
  induction ids generalizing s with
  | nil => rfl
  | cons id ids ih =>
      rw [killExprs, List.foldl_cons, ← killExprs, ih, killExpr, exprSlots_forgetExprs,
        forgetExprs_forgetExprs, List.flatMap_cons]

end Shader

end ShaderReducer
