import Mathlib.Logic.Relation
import ShaderReducer.Proofs.Shader.Live
import ShaderReducer.Proofs.Syntax.Tree

/-!
# Shaders without cycles

The tree below a slot is read off a shader no deeper than its arenas are large. Where every node has
a rank that is less than the number of slots and falls from a node to its parts, that bound is never
felt, and a tree is its topmost node over the trees of its parts. `Grounded` says that there are such
ranks, and that every number in a slot is that of a slot.

Dead slots are not left out: a rank is needed for what a slot holds, whether or not it counts.
-/

namespace ShaderReducer

/-- A rank for each node that is below the number of slots and falls from a node to its parts. -/
structure IsRank {α : Type} (index : α → Nat) (size : Nat) (parts : α → List α) (rank : α → Nat) :
    Prop where
  lt_size : ∀ a, index a < size → rank a < size
  falls : ∀ a, ∀ b ∈ parts a, index b < size ∧ rank b < rank a

namespace Shader

variable {s : Shader}

/-- The slots that an expression names. -/
def exprParts (s : Shader) (id : ExprId) : List ExprId :=
  (s.expr id).children

/-- The slots of statements that a statement names. -/
def stmtParts (s : Shader) (id : StmtId) : List StmtId :=
  (s.stmt id).childStmts

/-- No node is below itself, and every number in a slot is that of a slot. -/
structure Grounded (s : Shader) : Prop where
  exprs : ∃ rank, IsRank ExprId.index s.exprs.size s.exprParts rank
  stmts : ∃ rank, IsRank StmtId.index s.stmts.size s.stmtParts rank
  stmtExprs : ∀ id, ∀ e ∈ (s.stmt id).childExprs, e.index < s.exprs.size
  inits : ∀ id, ∀ e ∈ (s.decl id).inits, e.index < s.exprs.size
  bodies : ∀ id, ∀ t ∈ (s.decl id).bodies, t.index < s.stmts.size

theorem readExpr_eq_of_rank {rank : ExprId → Nat}
    (h : IsRank ExprId.index s.exprs.size s.exprParts rank) {depth depth' : Nat} {id : ExprId}
    (hd : rank id < depth) (hd' : rank id < depth') :
    s.readExpr depth id = s.readExpr depth' id := by
  induction depth generalizing depth' id with
  | zero => omega
  | succ depth ih =>
      obtain ⟨depth', rfl⟩ := Nat.exists_eq_succ_of_ne_zero (by omega : depth' ≠ 0)
      have hparts : (s.expr id).map (s.readExpr depth) = (s.expr id).map (s.readExpr depth') := by
        refine ExprNode.map_congr fun c hc => ?_
        have := (h.falls id c hc).2
        exact ih (by omega) (by omega)
      rw [readExpr, readExpr, hparts]

theorem expr_of_size_le {id : ExprId} (h : s.exprs.size ≤ id.index) : s.expr id = .ident "" := by
  rw [Arena.size] at h
  simp [expr, Arena.get?, h]

theorem stmt_of_size_le {id : StmtId} (h : s.stmts.size ≤ id.index) : s.stmt id = .empty := by
  rw [Arena.size] at h
  simp [stmt, Arena.get?, h]

/-- The tree of an expression is its node over the trees of its parts. -/
theorem Grounded.exprTree_eq (h : s.Grounded) (id : ExprId) :
    s.exprTree id = .node id ((s.expr id).map s.exprTree) := by
  obtain ⟨rank, hr⟩ := h.exprs
  by_cases hid : id.index < s.exprs.size
  · have hsize : s.exprTree id = s.readExpr (s.exprs.size + 1) id :=
      readExpr_eq_of_rank hr (hr.lt_size id hid) (Nat.lt_succ_of_lt (hr.lt_size id hid))
    rw [hsize, readExpr]
    rfl
  · rw [expr_of_size_le (by omega), exprTree]
    cases hs : s.exprs.size with
    | zero => rfl
    | succ n => rw [readExpr, expr_of_size_le (by omega)]; rfl

theorem readStmt_eq_of_rank {rank : StmtId → Nat}
    (h : IsRank StmtId.index s.stmts.size s.stmtParts rank) {depth depth' : Nat} {id : StmtId}
    (hd : rank id < depth) (hd' : rank id < depth') :
    s.readStmt depth id = s.readStmt depth' id := by
  induction depth generalizing depth' id with
  | zero => omega
  | succ depth ih =>
      obtain ⟨depth', rfl⟩ := Nat.exists_eq_succ_of_ne_zero (by omega : depth' ≠ 0)
      have hparts : (s.stmt id).map s.exprTree (s.readStmt depth) =
          (s.stmt id).map s.exprTree (s.readStmt depth') := by
        refine StmtNode.map_congr (fun _ _ => rfl) fun t ht => ?_
        have := (h.falls id t ht).2
        exact ih (by omega) (by omega)
      rw [readStmt, readStmt, hparts]

/-- The tree of a statement is its node over the trees of its parts. -/
theorem Grounded.stmtTree_eq (h : s.Grounded) (id : StmtId) :
    s.stmtTree id = .node id ((s.stmt id).map s.exprTree s.stmtTree) := by
  obtain ⟨rank, hr⟩ := h.stmts
  by_cases hid : id.index < s.stmts.size
  · have hsize : s.stmtTree id = s.readStmt (s.stmts.size + 1) id :=
      readStmt_eq_of_rank hr (hr.lt_size id hid) (Nat.lt_succ_of_lt (hr.lt_size id hid))
    rw [hsize, readStmt]
    rfl
  · rw [stmt_of_size_le (by omega), stmtTree]
    cases hs : s.stmts.size with
    | zero => rfl
    | succ n => rw [readStmt, stmt_of_size_le (by omega)]; rfl

/-- Induction from the parts of an expression to the whole. -/
theorem Grounded.expr_induction (h : s.Grounded) {motive : ExprId → Prop}
    (step : ∀ id, (∀ c ∈ (s.expr id).children, motive c) → motive id) (id : ExprId) :
    motive id := by
  obtain ⟨rank, hr⟩ := h.exprs
  induction hn : rank id using Nat.strongRecOn generalizing id with
  | _ n ih =>
      refine step id fun c hc => ih (rank c) ?_ c rfl
      rw [← hn]
      exact (hr.falls id c hc).2

/-- Induction from the parts of a statement to the whole. -/
theorem Grounded.stmt_induction (h : s.Grounded) {motive : StmtId → Prop}
    (step : ∀ id, (∀ t ∈ (s.stmt id).childStmts, motive t) → motive id) (id : StmtId) :
    motive id := by
  obtain ⟨rank, hr⟩ := h.stmts
  induction hn : rank id using Nat.strongRecOn generalizing id with
  | _ n ih =>
      refine step id fun t ht => ih (rank t) ?_ t rfl
      rw [← hn]
      exact (hr.falls id t ht).2

@[simp] theorem tag_exprTree (s : Shader) (id : ExprId) : (s.exprTree id).tag = id := by
  rw [exprTree]
  cases s.exprs.size <;> rfl

@[simp] theorem tag_stmtTree (s : Shader) (id : StmtId) : (s.stmtTree id).tag = id := by
  rw [stmtTree]
  cases s.stmts.size <;> rfl

/-- The node in a slot is the topmost node of its tree. -/
theorem Grounded.expr_of_exprTree (h : s.Grounded) {id tag : ExprId}
    {form : ExprNode (Expr ExprId)} (he : s.exprTree id = .node tag form) :
    tag = id ∧ s.expr id = form.map Expr.tag := by
  rw [h.exprTree_eq] at he
  obtain ⟨rfl, rfl⟩ := (Expr.node.injEq ..).mp he
  refine ⟨rfl, ?_⟩
  rw [ExprNode.map_map]
  exact (ExprNode.map_id _).symm.trans (ExprNode.map_congr fun c _ => (tag_exprTree s c).symm)

/-- An expression below a slot is the tree of a slot. -/
theorem Grounded.eq_exprTree_of_mem_subexprs (h : s.Grounded) {id : ExprId} {e : Expr ExprId}
    (he : e ∈ (s.exprTree id).subexprs) : e = s.exprTree e.tag := by
  induction id using h.expr_induction with
  | step id ih =>
      rw [h.exprTree_eq, Expr.subexprs_node, List.mem_cons] at he
      rcases he with rfl | he
      · rw [Expr.tag, h.exprTree_eq]
      · obtain ⟨t, ht, het⟩ := List.mem_flatMap.mp he
        rw [ExprNode.children_map] at ht
        obtain ⟨c, hc, rfl⟩ := List.mem_map.mp ht
        exact ih c hc het

/-- A part of the tree of a slot is the tree of a slot. -/
theorem Grounded.eq_exprTree_of_mem_children (h : s.Grounded) {id tag : ExprId}
    {form : ExprNode (Expr ExprId)} (he : s.exprTree id = .node tag form) {c : Expr ExprId}
    (hc : c ∈ form.children) : c = s.exprTree c.tag := by
  have hsub : c ∈ (s.exprTree id).subexprs := by
    rw [he, Expr.subexprs_node]
    exact List.mem_cons_of_mem _ (List.mem_flatMap.mpr ⟨c, hc, Expr.mem_subexprs_self c⟩)
  exact h.eq_exprTree_of_mem_subexprs hsub

/-- A statement below a slot is the tree of a slot. -/
theorem Grounded.eq_stmtTree_of_mem_substmts (h : s.Grounded) {id : StmtId} {t : Stmt ExprId StmtId}
    (ht : t ∈ (s.stmtTree id).substmts) : t = s.stmtTree t.tag := by
  induction id using h.stmt_induction with
  | step id ih =>
      rw [h.stmtTree_eq, Stmt.substmts_node, List.mem_cons] at ht
      rcases ht with rfl | ht
      · rw [Stmt.tag, h.stmtTree_eq]
      · obtain ⟨u, hu, htu⟩ := List.mem_flatMap.mp ht
        rw [StmtNode.childStmts_map] at hu
        obtain ⟨c, hc, rfl⟩ := List.mem_map.mp hu
        exact ih c hc htu

/-- The node in the slot of a statement is the topmost node of its tree. -/
theorem Grounded.stmt_of_stmtTree (h : s.Grounded) {id tag : StmtId}
    {form : StmtNode (Expr ExprId) (Stmt ExprId StmtId)} (ht : s.stmtTree id = .node tag form) :
    tag = id ∧ s.stmt id = form.map Expr.tag Stmt.tag := by
  rw [h.stmtTree_eq] at ht
  obtain ⟨rfl, rfl⟩ := (Stmt.node.injEq ..).mp ht
  refine ⟨rfl, ?_⟩
  rw [StmtNode.map_map]
  exact (StmtNode.map_id _).symm.trans (StmtNode.map_congr
    (fun e _ => (tag_exprTree s e).symm) fun t _ => (tag_stmtTree s t).symm)

/-- A part of the tree of a slot is the tree of a slot. -/
theorem Grounded.eq_stmtTree_of_mem_childStmts (h : s.Grounded) {id tag : StmtId}
    {form : StmtNode (Expr ExprId) (Stmt ExprId StmtId)} (ht : s.stmtTree id = .node tag form)
    {t : Stmt ExprId StmtId} (hmem : t ∈ form.childStmts) : t = s.stmtTree t.tag := by
  have hsub : t ∈ (s.stmtTree id).substmts := by
    rw [ht, Stmt.substmts_node]
    refine List.mem_cons_of_mem _ (List.mem_flatMap.mpr ⟨t, hmem, ?_⟩)
    cases t with
    | node tag form => simp [Stmt.substmts_node]
  exact h.eq_stmtTree_of_mem_substmts hsub

/-- The slots below an expression are its own and those below its parts. -/
theorem Grounded.exprSlots_eq (h : s.Grounded) (id : ExprId) :
    s.exprSlots id = id :: (s.exprParts id).flatMap s.exprSlots := by
  rw [exprSlots, h.exprTree_eq, Expr.subexprs_node, List.map_cons, List.map_flatMap,
    ExprNode.children_map, List.flatMap_map]
  rfl

theorem stmtSlots_eq_map (s : Shader) (id : StmtId) :
    s.stmtSlots id = (s.stmtTree id).substmts.map Stmt.tag := by
  rw [stmtSlots, Stmt.substmts, List.map_map]
  rfl

theorem mem_stmtSlots_self (s : Shader) (id : StmtId) : id ∈ s.stmtSlots id := by
  rw [stmtSlots_eq_map]
  refine List.mem_map.mpr ⟨s.stmtTree id, ?_, tag_stmtTree s id⟩
  cases s.stmtTree id with
  | node tag form => simp [Stmt.substmts_node]

/-- The slots below a statement are its own and those below its parts. -/
theorem Grounded.stmtSlots_eq (h : s.Grounded) (id : StmtId) :
    s.stmtSlots id = id :: (s.stmtParts id).flatMap s.stmtSlots := by
  rw [stmtSlots_eq_map, h.stmtTree_eq, Stmt.substmts_node, List.map_cons, List.map_flatMap,
    StmtNode.childStmts_map, List.flatMap_map,
    List.flatMap_congr fun t _ => (stmtSlots_eq_map s t).symm]
  rfl

/-! ## Changes that keep ranks -/

/-- An expression is below another: a part of it, or of what is below it. -/
def ExprBelow (s : Shader) : ExprId → ExprId → Prop :=
  Relation.TransGen fun id part => part ∈ s.exprParts id

/-- A statement is below another: a part of it, or of what is below it. -/
def StmtBelow (s : Shader) : StmtId → StmtId → Prop :=
  Relation.TransGen fun id part => part ∈ s.stmtParts id

@[simp] theorem exprParts_forgetExprs (s : Shader) (ids : List ExprId) :
    (s.forgetExprs ids).exprParts = s.exprParts := by
  funext id
  rw [exprParts, expr_forgetExprs, exprParts]

@[simp] theorem stmtParts_forgetStmts (s : Shader) (ids : List StmtId) :
    (s.forgetStmts ids).stmtParts = s.stmtParts := by
  funext id
  rw [stmtParts, stmt_forgetStmts, stmtParts]

end Shader

theorem IsRank.lt_of_below {α : Type} {index : α → Nat} {size : Nat} {parts : α → List α}
    {rank : α → Nat} (h : IsRank index size parts rank) {a b : α}
    (hb : Relation.TransGen (fun a b => b ∈ parts a) a b) : index b < size ∧ rank b < rank a := by
  induction hb with
  | single hab => exact h.falls _ _ hab
  | tail _ hbc ih =>
      have hc := h.falls _ _ hbc
      exact ⟨hc.1, hc.2.trans ih.2⟩

/-- A rank is still one when the parts of a node are replaced by nodes below it. -/
theorem IsRank.of_below {α : Type} {index : α → Nat} {size : Nat} {parts parts' : α → List α}
    {rank : α → Nat} (h : IsRank index size parts rank)
    (hbelow : ∀ a, ∀ b ∈ parts' a, Relation.TransGen (fun a b => b ∈ parts a) a b) :
    IsRank index size parts' rank :=
  ⟨h.lt_size, fun a b hb => h.lt_of_below (hbelow a b hb)⟩

namespace Shader

variable {s : Shader}

/-- A shader is grounded if what its slots name was named or below what was named before. -/
theorem Grounded.of_below (h : s.Grounded) {t : Shader} (hexprs : t.exprs.size = s.exprs.size)
    (hstmts : t.stmts.size = s.stmts.size)
    (hexpr : ∀ id, ∀ c ∈ t.exprParts id, s.ExprBelow id c)
    (hstmt : ∀ id, ∀ c ∈ t.stmtParts id, s.StmtBelow id c)
    (hstmtExprs : ∀ id, ∀ e ∈ (t.stmt id).childExprs, e.index < s.exprs.size)
    (hinits : ∀ id, ∀ e ∈ (t.decl id).inits, e.index < s.exprs.size)
    (hbodies : ∀ id, ∀ b ∈ (t.decl id).bodies, b.index < s.stmts.size) : t.Grounded where
  exprs := by
    obtain ⟨rank, hr⟩ := h.exprs
    exact ⟨rank, hexprs ▸ hr.of_below hexpr⟩
  stmts := by
    obtain ⟨rank, hr⟩ := h.stmts
    exact ⟨rank, hstmts ▸ hr.of_below hstmt⟩
  stmtExprs := hexprs ▸ hstmtExprs
  inits := hexprs ▸ hinits
  bodies := hstmts ▸ hbodies

theorem exprBelow_of_mem {id c : ExprId} (h : c ∈ s.exprParts id) : s.ExprBelow id c :=
  Relation.TransGen.single h

theorem stmtBelow_of_mem {id c : StmtId} (h : c ∈ s.stmtParts id) : s.StmtBelow id c :=
  Relation.TransGen.single h

/-- A change of expressions only keeps a shader grounded if it keeps a rank. -/
theorem Grounded.of_isRank (h : s.Grounded) {t : Shader} {rank : ExprId → Nat}
    (hrank : IsRank ExprId.index s.exprs.size t.exprParts rank)
    (hexprs : t.exprs.size = s.exprs.size) (hstmts : t.stmts = s.stmts)
    (hnodes : t.declNodes = s.declNodes) : t.Grounded := by
  have hstmt : t.stmt = s.stmt := by
    funext id
    rw [stmt, hstmts, stmt]
  have hdecl : t.decl = s.decl := by
    funext d
    rw [decl, hnodes, decl]
  have hparts : t.stmtParts = s.stmtParts := by
    funext id
    rw [stmtParts, hstmt, stmtParts]
  refine ⟨⟨rank, hexprs ▸ hrank⟩, ?_, ?_, ?_, ?_⟩
  · rw [hparts, hstmts]
    exact h.stmts
  · rw [hstmt, hexprs]
    exact h.stmtExprs
  · rw [hdecl, hexprs]
    exact h.inits
  · rw [hdecl, hstmts]
    exact h.bodies

theorem Grounded.congr (h : s.Grounded) {t : Shader} (hexprs : t.exprs.size = s.exprs.size)
    (hstmts : t.stmts.size = s.stmts.size) (hexpr : t.expr = s.expr) (hstmt : t.stmt = s.stmt)
    (hdecl : t.decl = s.decl) : t.Grounded := by
  refine h.of_below hexprs hstmts (fun id c hc => exprBelow_of_mem ?_)
    (fun id c hc => stmtBelow_of_mem ?_) ?_ ?_ ?_
  · rwa [exprParts, hexpr] at hc
  · rwa [stmtParts, hstmt] at hc
  · rw [hstmt]
    exact h.stmtExprs
  · rw [hdecl]
    exact h.inits
  · rw [hdecl]
    exact h.bodies

theorem Grounded.forgetExprs (h : s.Grounded) (ids : List ExprId) : (s.forgetExprs ids).Grounded :=
  h.congr (size_exprs_forgetExprs s ids) rfl (expr_forgetExprs s ids) rfl rfl

theorem Grounded.forgetStmts (h : s.Grounded) (ids : List StmtId) : (s.forgetStmts ids).Grounded :=
  h.congr rfl (size_stmts_forgetStmts s ids) rfl (stmt_forgetStmts s ids) rfl

theorem Grounded.killExprs (h : s.Grounded) (ids : List ExprId) : (s.killExprs ids).Grounded := by
  rw [killExprs_eq]
  exact h.forgetExprs _

theorem Grounded.killStmt (h : s.Grounded) (id : StmtId) : (s.killStmt id).Grounded :=
  (h.forgetExprs _).forgetStmts _

/-- Another node may be put into a slot if its parts are below that slot. -/
theorem Grounded.setExpr (h : s.Grounded) {target : ExprId} {node : ExprNode ExprId}
    (hbelow : ∀ c ∈ node.children, s.ExprBelow target c) : (s.setExpr target node).Grounded := by
  refine h.of_below (size_exprs_setExpr s target node) rfl (fun id c hc => ?_)
    (fun id c hc => stmtBelow_of_mem hc) h.stmtExprs h.inits h.bodies
  rw [exprParts, expr_setExpr] at hc
  split at hc
  next hid => exact hid.1 ▸ hbelow c hc
  next => exact exprBelow_of_mem hc

/-- Another node may be put into a slot if its parts are below that slot. -/
theorem Grounded.setStmt (h : s.Grounded) {target : StmtId} {node : StmtNode ExprId StmtId}
    (hbelow : ∀ c ∈ node.childStmts, s.StmtBelow target c)
    (hexprs : ∀ e ∈ node.childExprs, e.index < s.exprs.size) : (s.setStmt target node).Grounded := by
  refine h.of_below rfl (size_stmts_setStmt s target node) (fun id c hc => exprBelow_of_mem hc)
    (fun id c hc => ?_) (fun id e he => ?_) h.inits h.bodies
  · rw [stmtParts, stmt_setStmt] at hc
    split at hc
    next hid => exact hid.1 ▸ hbelow c hc
    next => exact stmtBelow_of_mem hc
  · rw [stmt_setStmt] at he
    split at he
    next => exact hexprs e he
    next => exact h.stmtExprs id e he

theorem Grounded.addExpr (h : s.Grounded) {leaf : ExprNode ExprId} (hleaf : leaf.children = []) :
    (s.addExpr leaf).2.Grounded := by
  obtain ⟨rank, hr⟩ := h.exprs
  refine ⟨⟨fun id => if id.index = s.exprs.size then 0 else rank id, ?_, ?_⟩, h.stmts, ?_, ?_,
    h.bodies⟩
  · intro id hid
    rw [size_addExpr] at hid ⊢
    split
    next => omega
    next hne =>
      have := hr.lt_size id (by omega)
      omega
  · intro id c hc
    rw [exprParts, expr_addExpr] at hc
    split at hc
    next =>
      rw [hleaf] at hc
      cases hc
    next hid =>
      obtain ⟨hlt, hrank⟩ := hr.falls id c hc
      rw [size_addExpr, if_neg (by omega), if_neg hid]
      exact ⟨by omega, hrank⟩
  · intro id e he
    rw [size_addExpr]
    exact Nat.lt_succ_of_lt (h.stmtExprs id e he)
  · intro id e he
    rw [size_addExpr]
    exact Nat.lt_succ_of_lt (h.inits id e he)

/-- A node over a new slot may be put into an old one: the ranks of all old slots go up by one. -/
theorem Grounded.setExpr_addExpr (h : s.Grounded) {leaf node : ExprNode ExprId}
    (hleaf : leaf.children = []) {target : ExprId} (ht : target.index < s.exprs.size)
    (hnode : ∀ c ∈ node.children, c = (s.addExpr leaf).1) :
    ((s.addExpr leaf).2.setExpr target node).Grounded := by
  obtain ⟨rank, hr⟩ := h.exprs
  refine ⟨⟨fun id => if id.index = s.exprs.size then 0 else rank id + 1, ?_, ?_⟩, h.stmts, ?_, ?_,
    h.bodies⟩
  · intro id hid
    rw [size_exprs_setExpr, size_addExpr] at hid ⊢
    split
    next => omega
    next hne =>
      have := hr.lt_size id (by omega)
      omega
  · intro id c hc
    rw [exprParts, expr_setExpr, size_addExpr, expr_addExpr] at hc
    rw [size_exprs_setExpr, size_addExpr]
    split at hc
    next hid =>
      obtain rfl := hnode c hc
      have hnew : (s.addExpr leaf).1.index = s.exprs.size := rfl
      rw [← hid.1, hnew, if_pos rfl, if_neg (by omega)]
      exact ⟨Nat.lt_succ_self _, Nat.succ_pos _⟩
    next =>
      split at hc
      next =>
        rw [hleaf] at hc
        cases hc
      next hid =>
        obtain ⟨hlt, hrank⟩ := hr.falls id c hc
        rw [if_neg (by omega), if_neg hid]
        exact ⟨by omega, by omega⟩
  · intro id e he
    rw [size_exprs_setExpr, size_addExpr]
    exact Nat.lt_succ_of_lt (h.stmtExprs id e he)
  · intro id e he
    rw [size_exprs_setExpr, size_addExpr]
    exact Nat.lt_succ_of_lt (h.inits id e he)

end Shader

end ShaderReducer
