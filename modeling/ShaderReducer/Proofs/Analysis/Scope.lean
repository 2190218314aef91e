import Mathlib.Logic.Relation
import ShaderReducer.Analysis.Scope
import ShaderReducer.Proofs.Shader.Places

/-!
# What is in scope

The scope is that of some statements whose code cannot run, with all that is below them. So what is
below a slot in scope is in scope.

A name calls another if a body of a function of the one name holds a call of the other. The search
from `main` keeps two lists, the names that were seen and those that are ahead of it. All that a
seen name calls is in one of them, so the names that are found at the end are those that chains of
calls lead to.
-/

namespace ShaderReducer

namespace Shader

variable {s : Shader}

/-! ## Slots below slots -/

theorem Grounded.exprSlots_trans (h : s.Grounded) {root e c : ExprId} (he : e ∈ s.exprSlots root)
    (hc : c ∈ s.exprSlots e) : c ∈ s.exprSlots root := by
  obtain ⟨tree, htree, rfl⟩ := List.mem_map.mp he
  obtain ⟨inner, hinner, rfl⟩ := List.mem_map.mp hc
  rw [← h.eq_exprTree_of_mem_subexprs htree] at hinner
  exact List.mem_map_of_mem (Expr.mem_subexprs_trans htree hinner)

theorem Grounded.stmtSlots_trans (h : s.Grounded) {root t u : StmtId} (ht : t ∈ s.stmtSlots root)
    (hu : u ∈ s.stmtSlots t) : u ∈ s.stmtSlots root := by
  induction root using h.stmt_induction with
  | step root ih =>
      rw [h.stmtSlots_eq] at ht ⊢
      rcases List.mem_cons.mp ht with rfl | ht
      · rwa [h.stmtSlots_eq] at hu
      · obtain ⟨part, hpart, ht⟩ := List.mem_flatMap.mp ht
        exact List.mem_cons_of_mem _ (List.mem_flatMap.mpr ⟨part, hpart, ih part hpart ht⟩)

theorem Grounded.mem_stmtSlots_of_mem_parts (h : s.Grounded) {t part : StmtId}
    (hpart : part ∈ s.stmtParts t) : part ∈ s.stmtSlots t := by
  rw [h.stmtSlots_eq]
  exact List.mem_cons_of_mem _ (List.mem_flatMap.mpr ⟨part, hpart, mem_stmtSlots_self s part⟩)

/-- The expressions in a statement are below those that it or a statement in it holds. -/
theorem Grounded.mem_stmtExprSlots (h : s.Grounded) {root : StmtId} {e : ExprId} :
    e ∈ s.stmtExprSlots root ↔
      ∃ t ∈ s.stmtSlots root, ∃ c ∈ (s.stmt t).childExprs, e ∈ s.exprSlots c := by
  rw [← Multiset.mem_coe, h.coe_stmtExprSlots, Multiset.mem_bind]
  constructor
  · rintro ⟨c, hc, he⟩
    obtain ⟨t, ht, hc⟩ := Multiset.mem_bind.mp hc
    exact ⟨t, ht, c, hc, he⟩
  · rintro ⟨t, ht, c, hc, he⟩
    exact ⟨c, Multiset.mem_bind.mpr ⟨t, ht, hc⟩, he⟩

theorem Grounded.stmtExprSlots_trans (h : s.Grounded) {root t : StmtId} {e : ExprId}
    (ht : t ∈ s.stmtSlots root) (he : e ∈ s.stmtExprSlots t) : e ∈ s.stmtExprSlots root := by
  obtain ⟨u, hu, c, hc, he⟩ := h.mem_stmtExprSlots.mp he
  exact h.mem_stmtExprSlots.mpr ⟨u, h.stmtSlots_trans ht hu, c, hc, he⟩

/-- A body of a live shader is live. -/
theorem Owned.mem_liveStmts_of_body (ho : s.Owned) {d : DeclId} (hd : d ∈ s.decls) {t : StmtId}
    (ht : t ∈ (s.decl d).bodies) : t ∈ s.liveStmts :=
  ho.stmts.mem_of_mem_roots (Multiset.mem_add.mpr (Or.inr (Multiset.mem_bind.mpr ⟨d, hd, ht⟩)))

end Shader

namespace ReductionScope

variable {s : Shader}

/-! ## Roots -/

/-- An injected condition is live, and so is its branch. -/
theorem of_mem_deadBranches (h : s.Grounded) (ho : s.Owned) {id : StmtId}
    {branch : Stmt ExprId StmtId} (hmem : (id, branch) ∈ deadBranches s) :
    id ∈ s.liveStmts ∧ branch = s.stmtTree branch.tag ∧
      ∃ cond onFalse, s.stmt id = .ifElse cond branch.tag onFalse := by
  obtain ⟨⟨depth, t⟩, ht, hbranch⟩ := List.mem_filterMap.mp hmem
  obtain ⟨onTrue, htrue, heq⟩ := Option.map_eq_some_iff.mp hbranch
  obtain ⟨rfl, rfl⟩ := Prod.mk.inj heq
  have htree := h.eq_stmtTree_of_mem_stmtVisits (List.mem_map_of_mem (f := Prod.snd) ht)
  have hlive : t.tag ∈ s.liveStmts := by
    rw [← ho.coe_stmtVisits h]
    exact List.mem_map_of_mem (f := fun v : Nat × Stmt ExprId StmtId => v.2.tag) ht
  obtain ⟨tag, form⟩ := t
  cases form with
  | ifElse cond onTrue' onFalse =>
      simp only [Stmt.deadBranch?] at htrue
      split at htrue
      next =>
        cases htrue
        refine ⟨hlive, h.eq_stmtTree_of_mem_childStmts htree.symm (by simp [StmtNode.childStmts]), ?_⟩
        exact ⟨_, _, (h.stmt_of_stmtTree htree.symm).2⟩
      next => cases htrue
  | _ => cases htrue

/-- The statements whose code cannot run are live, and the trees of their slots. -/
theorem of_mem_roots (h : s.Grounded) (ho : s.Owned) {root : Stmt ExprId StmtId}
    (hroot : root ∈ roots s) : root.tag ∈ s.liveStmts ∧ root = s.stmtTree root.tag := by
  rcases List.mem_append.mp hroot with hroot | hroot
  · obtain ⟨d, hd, hbody⟩ := List.mem_filterMap.mp hroot
    obtain ⟨⟨d', f⟩, hf, rfl⟩ := List.mem_map.mp hd
    obtain ⟨_, hdecls, heq⟩ := List.mem_filterMap.mp (List.mem_filter.mp hf).1
    obtain ⟨_, -, heq⟩ := Option.map_eq_some_iff.mp heq
    cases heq
    dsimp only at hbody
    rw [Shader.declTree] at hbody
    split at hbody
    next decl hdecl =>
      have hmem : root ∈ ((s.decl d').map s.exprTree s.stmtTree).bodies := by
        rw [hdecl, Decl.bodies, hbody]
        exact List.mem_singleton_self root
      rw [Decl.bodies_map] at hmem
      obtain ⟨t, ht, rfl⟩ := List.mem_map.mp hmem
      rw [Shader.tag_stmtTree]
      exact ⟨ho.mem_liveStmts_of_body hdecls ht, rfl⟩
    next => cases hbody
  · obtain ⟨⟨id, branch⟩, hmem, rfl⟩ := List.mem_map.mp hroot
    obtain ⟨hlive, htree, cond, onFalse, hstmt⟩ := of_mem_deadBranches h ho hmem
    refine ⟨ho.stmts.mem_of_mem_parts hlive ?_, htree⟩
    rw [Shader.stmtPartsOf, Shader.stmtParts, hstmt]
    exact List.mem_cons_self

/-! ## Slots in scope -/

theorem containsStmt_iff (h : s.Grounded) (ho : s.Owned) {t : StmtId} :
    (ofShader s false).containsStmt t = true ↔ ∃ root ∈ roots s, t ∈ s.stmtSlots root.tag := by
  have hslots : ∀ root ∈ roots s, ((root.visits 0).map fun v => v.2.tag.index) =
      (s.stmtSlots root.tag).map StmtId.index := by
    intro root hroot
    rw [Shader.stmtSlots, ← (of_mem_roots h ho hroot).2, List.map_map]
    rfl
  rw [containsStmt, ofShader, Bool.false_or, Marks.contains_ofList, Bool.and_eq_true,
    List.contains_iff_mem, decide_eq_true_iff, List.mem_flatMap]
  constructor
  · rintro ⟨⟨root, hroot, ht⟩, -⟩
    rw [hslots root hroot] at ht
    obtain ⟨⟨i⟩, hmem, heq⟩ := List.mem_map.mp ht
    exact ⟨root, hroot, by cases heq; exact hmem⟩
  · rintro ⟨root, hroot, ht⟩
    refine ⟨⟨root, hroot, hslots root hroot ▸ List.mem_map_of_mem ht⟩, ?_⟩
    exact Shader.lt_size_of_mem_liveStmts
      (Multiset.mem_of_le (ho.stmts.stmtSlotsOf_le h (of_mem_roots h ho hroot).1) ht)

theorem containsExpr_iff (h : s.Grounded) (ho : s.Owned) {e : ExprId} :
    (ofShader s false).containsExpr e = true ↔ ∃ root ∈ roots s, e ∈ s.stmtExprSlots root.tag := by
  have hslots : ∀ root ∈ roots s, ((root.exprVisits 0).map fun v => v.2.tag.index) =
      (s.stmtExprSlots root.tag).map ExprId.index := by
    intro root hroot
    rw [Shader.stmtExprSlots, ← (of_mem_roots h ho hroot).2, List.map_map]
    rfl
  rw [containsExpr, ofShader, Bool.false_or, Marks.contains_ofList, Bool.and_eq_true,
    List.contains_iff_mem, decide_eq_true_iff, List.mem_flatMap]
  constructor
  · rintro ⟨⟨root, hroot, he⟩, -⟩
    rw [hslots root hroot] at he
    obtain ⟨⟨i⟩, hmem, heq⟩ := List.mem_map.mp he
    exact ⟨root, hroot, by cases heq; exact hmem⟩
  · rintro ⟨root, hroot, he⟩
    refine ⟨⟨root, hroot, hslots root hroot ▸ List.mem_map_of_mem he⟩, ?_⟩
    obtain ⟨t, ht, c, hc, he⟩ := h.mem_stmtExprSlots.mp he
    have hlive := Multiset.mem_of_le (ho.stmts.stmtSlotsOf_le h (of_mem_roots h ho hroot).1) ht
    have hheld : c ∈ s.liveExprs := ho.exprs.mem_of_mem_roots
      (Multiset.mem_add.mpr (Or.inr (Multiset.mem_add.mpr (Or.inr
        (Multiset.mem_bind.mpr ⟨t, hlive, hc⟩)))))
    exact Shader.lt_size_of_mem_liveExprs (Multiset.mem_of_le (ho.exprs.exprSlotsOf_le h hheld) he)

/-- All in a statement in scope is in scope. -/
theorem containsStmt_of_mem_stmtSlots (h : s.Grounded) (ho : s.Owned) {root t : StmtId}
    (hroot : (ofShader s false).containsStmt root = true) (ht : t ∈ s.stmtSlots root) :
    (ofShader s false).containsStmt t = true := by
  obtain ⟨top, htop, hroot⟩ := (containsStmt_iff h ho).mp hroot
  exact (containsStmt_iff h ho).mpr ⟨top, htop, h.stmtSlots_trans hroot ht⟩

theorem containsExpr_of_mem_stmtExprSlots (h : s.Grounded) (ho : s.Owned) {root : StmtId}
    {e : ExprId} (hroot : (ofShader s false).containsStmt root = true)
    (he : e ∈ s.stmtExprSlots root) : (ofShader s false).containsExpr e = true := by
  obtain ⟨top, htop, hroot⟩ := (containsStmt_iff h ho).mp hroot
  exact (containsExpr_iff h ho).mpr ⟨top, htop, h.stmtExprSlots_trans hroot he⟩

theorem containsExpr_of_mem_exprSlots (h : s.Grounded) (ho : s.Owned) {root e : ExprId}
    (hroot : (ofShader s false).containsExpr root = true) (he : e ∈ s.exprSlots root) :
    (ofShader s false).containsExpr e = true := by
  obtain ⟨top, htop, hroot⟩ := (containsExpr_iff h ho).mp hroot
  obtain ⟨t, ht, c, hc, hroot⟩ := h.mem_stmtExprSlots.mp hroot
  exact (containsExpr_iff h ho).mpr
    ⟨top, htop, h.mem_stmtExprSlots.mpr ⟨t, ht, c, hc, h.exprSlots_trans hroot he⟩⟩

/-- The branch of an injected condition is in scope. -/
theorem containsStmt_onTrue (h : s.Grounded) (ho : s.Owned) {id : StmtId}
    (hdead : (ofShader s false).isDeadIf id = true) :
    ∃ cond onTrue onFalse, s.stmt id = .ifElse cond onTrue onFalse ∧
      (ofShader s false).containsStmt onTrue = true := by
  rw [isDeadIf, ofShader, Marks.contains_ofList, Bool.and_eq_true, List.contains_iff_mem] at hdead
  obtain ⟨⟨⟨i⟩, branch⟩, hmem, heq⟩ := List.mem_map.mp hdead.1
  cases heq
  obtain ⟨-, htree, cond, onFalse, hstmt⟩ := of_mem_deadBranches h ho hmem
  refine ⟨cond, branch.tag, onFalse, hstmt, (containsStmt_iff h ho).mpr ⟨branch, ?_, ?_⟩⟩
  · exact List.mem_append_right _ (List.mem_map_of_mem (f := Prod.snd) hmem)
  · exact Shader.mem_stmtSlots_self s branch.tag

end ReductionScope

/-! ## The search -/

namespace CallGraph

variable {graph : CallGraph} {seen ahead : List String} {caller callee name : String}

/-- All that a seen name calls was seen or is ahead. -/
def Covers (graph : CallGraph) (seen ahead : List String) : Prop :=
  ∀ caller ∈ seen, ∀ callee ∈ graph.callees caller, callee ∈ seen ∨ callee ∈ ahead

theorem Covers.old {rest : List String} (h : graph.Covers seen (name :: rest))
    (hname : seen.contains name = true) : graph.Covers seen rest := by
  intro caller hcaller callee hcallee
  rcases h caller hcaller callee hcallee with hseen | hahead
  · exact Or.inl hseen
  · rcases List.mem_cons.mp hahead with rfl | hrest
    · exact Or.inl (List.contains_iff_mem.mp hname)
    · exact Or.inr hrest

theorem Covers.new {rest : List String} (h : graph.Covers seen (name :: rest)) :
    graph.Covers (name :: seen) (graph.callees name ++ rest) := by
  intro caller hcaller callee hcallee
  rcases List.mem_cons.mp hcaller with rfl | hcaller
  · exact Or.inr (List.mem_append_left _ hcallee)
  · rcases h caller hcaller callee hcallee with hseen | hahead
    · exact Or.inl (List.mem_cons_of_mem _ hseen)
    · rcases List.mem_cons.mp hahead with rfl | hrest
      · exact Or.inl List.mem_cons_self
      · exact Or.inr (List.mem_append_right _ hrest)

/-- What was seen or is ahead is found. -/
theorem mem_reach_of_mem (h : name ∈ seen ∨ name ∈ ahead) : name ∈ graph.reach seen ahead := by
  fun_induction reach graph seen ahead with
  | case1 seen => exact h.resolve_right List.not_mem_nil
  | case2 seen first rest hfirst ih =>
      refine ih (h.elim Or.inl fun hahead => ?_)
      rcases List.mem_cons.mp hahead with rfl | hrest
      · exact Or.inl (List.contains_iff_mem.mp hfirst)
      · exact Or.inr hrest
  | case3 seen first rest hfirst ih =>
      refine ih ?_
      rw [List.mem_cons, List.mem_append]
      rw [List.mem_cons] at h
      tauto

/-- What is found calls only what is found. -/
theorem mem_reach_of_mem_callees (h : graph.Covers seen ahead)
    (hcaller : caller ∈ graph.reach seen ahead) (hcallee : callee ∈ graph.callees caller) :
    callee ∈ graph.reach seen ahead := by
  fun_induction reach graph seen ahead with
  | case1 seen => exact (h caller hcaller callee hcallee).resolve_right List.not_mem_nil
  | case2 seen first rest hfirst ih => exact ih (h.old hfirst) hcaller
  | case3 seen first rest hfirst ih => exact ih h.new hcaller

/-- What is found was seen, or a chain of calls leads to it from a name that is ahead. -/
theorem exists_chain_of_mem_reach (h : name ∈ graph.reach seen ahead) : name ∈ seen ∨
    ∃ start ∈ ahead, Relation.ReflTransGen (fun g f => f ∈ graph.callees g) start name := by
  fun_induction reach graph seen ahead with
  | case1 seen => exact Or.inl h
  | case2 seen first rest hfirst ih =>
      refine (ih h).imp_right ?_
      rintro ⟨start, hstart, hchain⟩
      exact ⟨start, List.mem_cons_of_mem _ hstart, hchain⟩
  | case3 seen first rest hfirst ih =>
      rcases ih h with hseen | ⟨start, hstart, hchain⟩
      · rcases List.mem_cons.mp hseen with rfl | hseen
        · exact Or.inr ⟨name, List.mem_cons_self, .refl⟩
        · exact Or.inl hseen
      · rcases List.mem_append.mp hstart with hcalled | hrest
        · exact Or.inr ⟨first, List.mem_cons_self, .head hcalled hchain⟩
        · exact Or.inr ⟨start, List.mem_cons_of_mem _ hrest, hchain⟩

/-- The names that are found from `main` are those that chains of calls lead to. -/
theorem mem_reachedFromMain : name ∈ graph.reachedFromMain ↔
    Relation.ReflTransGen (fun g f => f ∈ graph.callees g) "main" name := by
  constructor
  · intro h
    rcases exists_chain_of_mem_reach h with hseen | ⟨start, hstart, hchain⟩
    · cases hseen
    · rwa [List.mem_singleton.mp hstart] at hchain
  · intro h
    induction h with
    | refl => exact mem_reach_of_mem (Or.inr List.mem_cons_self)
    | tail _ hcall ih => exact mem_reach_of_mem_callees (fun _ h => (List.not_mem_nil h).elim) ih hcall

end CallGraph

namespace Shader

variable {s : Shader} {root n m : NodeId}

/-! ## What lies in a node -/

/-- A node lies in another if it is that node, or a part of one that lies in it. -/
inductive LiesIn (s : Shader) (root : NodeId) : NodeId → Prop
  | self : LiesIn s root root
  | stmt {n : NodeId} {t : StmtId} (hn : LiesIn s root n) (h : t ∈ s.stmtsIn n) :
    LiesIn s root (.stmt t)
  | expr {n : NodeId} {e : ExprId} (hn : LiesIn s root n) (h : e ∈ s.exprsIn n) :
    LiesIn s root (.expr e)

theorem LiesIn.trans (h : s.LiesIn root n) (h' : s.LiesIn n m) : s.LiesIn root m := by
  induction h' with
  | self => exact h
  | stmt _ hpart ih => exact .stmt ih hpart
  | expr _ hpart ih => exact .expr ih hpart

theorem LiesIn.reaches (h : s.LiesIn root n) (hroot : s.Reaches root) : s.Reaches n := by
  induction h with
  | self => exact hroot
  | stmt _ hpart ih => exact .stmt ih hpart
  | expr _ hpart ih => exact .expr ih hpart

/-- In an expression lie the expressions in the slots below it. -/
theorem Grounded.liesIn_expr (h : s.Grounded) {id : ExprId} :
    s.LiesIn (.expr id) n ↔ ∃ e ∈ s.exprSlots id, n = .expr e := by
  constructor
  · intro hn
    induction hn with
    | self => exact ⟨id, h.exprSlots_eq id ▸ List.mem_cons_self, rfl⟩
    | stmt _ hpart ih =>
        obtain ⟨e, -, rfl⟩ := ih
        cases hpart
    | @expr _ part _ hpart ih =>
        obtain ⟨e, he, rfl⟩ := ih
        refine ⟨part, h.exprSlots_trans he ?_, rfl⟩
        rw [h.exprSlots_eq]
        exact List.mem_cons_of_mem _
          (List.mem_flatMap.mpr ⟨part, hpart, h.exprSlots_eq part ▸ List.mem_cons_self⟩)
  · rintro ⟨e, he, rfl⟩
    induction id using h.expr_induction with
    | step id ih =>
        rw [h.exprSlots_eq] at he
        rcases List.mem_cons.mp he with rfl | he
        · exact .self
        · obtain ⟨part, hpart, he⟩ := List.mem_flatMap.mp he
          exact (LiesIn.expr .self hpart).trans (ih part hpart he)

theorem Grounded.liesIn_of_mem_stmtSlots (h : s.Grounded) {id t : StmtId}
    (ht : t ∈ s.stmtSlots id) : s.LiesIn (.stmt id) (.stmt t) := by
  induction id using h.stmt_induction with
  | step id ih =>
      rw [h.stmtSlots_eq] at ht
      rcases List.mem_cons.mp ht with rfl | ht
      · exact .self
      · obtain ⟨part, hpart, ht⟩ := List.mem_flatMap.mp ht
        exact (LiesIn.stmt .self hpart).trans (ih part hpart ht)

/-- In a statement lie the statements in the slots below it, and what lies in their expressions. -/
theorem Grounded.liesIn_stmt (h : s.Grounded) {id : StmtId} : s.LiesIn (.stmt id) n ↔
    (∃ t ∈ s.stmtSlots id, n = .stmt t) ∨ ∃ e ∈ s.stmtExprSlots id, n = .expr e := by
  constructor
  · intro hn
    induction hn with
    | self => exact Or.inl ⟨id, mem_stmtSlots_self s id, rfl⟩
    | @stmt _ part _ hpart ih =>
        rcases ih with ⟨t, ht, rfl⟩ | ⟨e, -, rfl⟩
        · exact Or.inl ⟨part, h.stmtSlots_trans ht (h.mem_stmtSlots_of_mem_parts hpart), rfl⟩
        · cases hpart
    | @expr _ part _ hpart ih =>
        have hself : part ∈ s.exprSlots part := h.exprSlots_eq part ▸ List.mem_cons_self
        rcases ih with ⟨t, ht, rfl⟩ | ⟨e, he, rfl⟩
        · exact Or.inr ⟨part, h.mem_stmtExprSlots.mpr ⟨t, ht, part, hpart, hself⟩, rfl⟩
        · obtain ⟨t, ht, c, hc, he⟩ := h.mem_stmtExprSlots.mp he
          refine Or.inr ⟨part, h.mem_stmtExprSlots.mpr ⟨t, ht, c, hc, ?_⟩, rfl⟩
          refine h.exprSlots_trans he ?_
          rw [h.exprSlots_eq]
          exact List.mem_cons_of_mem _ (List.mem_flatMap.mpr ⟨part, hpart, hself⟩)
  · rintro (⟨t, ht, rfl⟩ | ⟨e, he, rfl⟩)
    · exact h.liesIn_of_mem_stmtSlots ht
    · obtain ⟨t, ht, c, hc, he⟩ := h.mem_stmtExprSlots.mp he
      exact ((h.liesIn_of_mem_stmtSlots ht).expr hc).trans (h.liesIn_expr.mpr ⟨e, he, rfl⟩)

/-! ## Calls -/

/-- In a body of a function named `caller` stands a call of `callee`. -/
def Calls (s : Shader) (caller callee : String) : Prop :=
  ∃ d ∈ s.decls, ∃ f, s.decl d = .function f ∧ f.name = caller ∧ ∃ body, f.body = some body ∧
    ∃ e args, s.LiesIn (.stmt body) (.expr e) ∧ s.expr e = .call callee args

/-- The expressions that are visited in a statement are the trees of those that lie in it. -/
theorem Grounded.mem_exprVisits_stmtTree (h : s.Grounded) {id : StmtId} {depth : Nat}
    {e : Expr ExprId} : e ∈ ((s.stmtTree id).exprVisits depth).map Prod.snd ↔
      s.LiesIn (.stmt id) (.expr e.tag) ∧ e = s.exprTree e.tag := by
  have hperm := fun depth => (s.stmtTree id).map_snd_exprVisits_perm depth
  have htree : ∀ e ∈ ((s.stmtTree id).exprVisits 0).map Prod.snd, e = s.exprTree e.tag := by
    intro e he
    obtain ⟨t, ht, he⟩ := List.mem_flatMap.mp ((hperm 0).mem_iff.mp he)
    rw [h.eq_stmtTree_of_mem_substmts ht, h.stmtTree_eq, Stmt.form, StmtNode.childExprs_map,
      List.flatMap_map] at he
    obtain ⟨c, -, he⟩ := List.mem_flatMap.mp he
    exact h.eq_exprTree_of_mem_subexprs he
  have hlies : s.LiesIn (.stmt id) (.expr e.tag) ↔ e.tag ∈ s.stmtExprSlots id := by
    rw [h.liesIn_stmt]
    simp
  rw [(hperm depth).mem_iff, ← (hperm 0).mem_iff, hlies, stmtExprSlots]
  constructor
  · intro he
    obtain ⟨v, hv, rfl⟩ := List.mem_map.mp he
    exact ⟨List.mem_map_of_mem (f := fun v => v.2.tag) hv, htree v.2 he⟩
  · rintro ⟨hslot, he⟩
    obtain ⟨v, hv, htag⟩ := List.mem_map.mp hslot
    rw [he, ← htag, ← htree v.2 (List.mem_map_of_mem hv)]
    exact List.mem_map_of_mem hv

theorem Grounded.mem_calledNames (h : s.Grounded) {id : StmtId} {depth : Nat} {name : String} :
    name ∈ ((s.stmtTree id).exprVisits depth).filterMap (fun v => NameUses.calledName? v.2) ↔
      ∃ e args, s.LiesIn (.stmt id) (.expr e) ∧ s.expr e = .call name args := by
  constructor
  · intro hname
    obtain ⟨⟨k, e⟩, hv, hcalled⟩ := List.mem_filterMap.mp hname
    obtain ⟨hlies, htree⟩ := h.mem_exprVisits_stmtTree.mp (List.mem_map_of_mem hv)
    obtain ⟨tag, form⟩ := e
    cases form with
    | call callee args =>
        cases hcalled
        exact ⟨tag, _, hlies, (h.expr_of_exprTree htree.symm).2⟩
    | _ => cases hcalled
  · rintro ⟨e, args, hlies, hcall⟩
    have hvisit : s.exprTree e ∈ ((s.stmtTree id).exprVisits depth).map Prod.snd :=
      h.mem_exprVisits_stmtTree.mpr (by rw [tag_exprTree]; exact ⟨hlies, rfl⟩)
    obtain ⟨v, hv, htree⟩ := List.mem_map.mp hvisit
    refine List.mem_filterMap.mpr ⟨v, hv, ?_⟩
    rw [htree, h.exprTree_eq, hcall]
    rfl

/-- The graph has an edge for each body of a function. -/
theorem mem_callGraph {edge : String × List String} : edge ∈ CallGraph.ofShader s ↔
    ∃ d ∈ s.decls, ∃ f body, s.decl d = .function f ∧ f.body = some body ∧ edge = (f.name,
      ((s.stmtTree body).exprVisits 1).filterMap fun v => NameUses.calledName? v.2) := by
  rw [CallGraph.ofShader, declTrees, List.mem_filterMap]
  constructor
  · rintro ⟨tree, htree, hedge⟩
    obtain ⟨d, hd, rfl⟩ := List.mem_map.mp htree
    rw [declTree] at hedge
    cases hdecl : s.decl d with
    | function f =>
        obtain ⟨returnType, name, params, body⟩ := f
        rw [hdecl] at hedge
        cases body with
        | some body =>
            cases hedge
            exact ⟨d, hd, _, body, hdecl, rfl, rfl⟩
        | none => cases hedge
    | _ =>
        rw [hdecl] at hedge
        cases hedge
  · rintro ⟨d, hd, ⟨returnType, name, params, _⟩, body, hdecl, rfl, rfl⟩
    refine ⟨s.declTree d, List.mem_map_of_mem hd, ?_⟩
    rw [declTree, hdecl]
    rfl

/-- The calls in the graph are those in the bodies of functions. -/
theorem Grounded.mem_callees (h : s.Grounded) {caller callee : String} :
    callee ∈ (CallGraph.ofShader s).callees caller ↔ s.Calls caller callee := by
  rw [CallGraph.callees, List.mem_flatMap]
  constructor
  · rintro ⟨edge, hedge, hcallee⟩
    obtain ⟨hedge, hcaller⟩ := List.mem_filter.mp hedge
    obtain ⟨d, hd, f, body, hdecl, hbody, rfl⟩ := mem_callGraph.mp hedge
    exact ⟨d, hd, f, hdecl, beq_iff_eq.mp hcaller, body, hbody, h.mem_calledNames.mp hcallee⟩
  · rintro ⟨d, hd, f, hdecl, rfl, body, hbody, hcall⟩
    exact ⟨_, List.mem_filter.mpr ⟨mem_callGraph.mpr ⟨d, hd, f, body, hdecl, hbody, rfl⟩, BEq.rfl⟩,
      h.mem_calledNames.mpr hcall⟩

/-- The names that are found from `main` are those that chains of calls lead to. -/
theorem Grounded.mem_reachedFromMain (h : s.Grounded) {name : String} :
    name ∈ (CallGraph.ofShader s).reachedFromMain ↔
      Relation.ReflTransGen s.Calls "main" name := by
  have hstep : (fun g f => f ∈ (CallGraph.ofShader s).callees g) = s.Calls :=
    funext₂ fun _ _ => propext h.mem_callees
  rw [CallGraph.mem_reachedFromMain, hstep]

end Shader

end ShaderReducer
