import ShaderReducer.Opportunity.Find
import ShaderReducer.Proofs.Analysis.Scope
import ShaderReducer.Proofs.Opportunity.Slots
import ShaderReducer.Proofs.Opportunity.Found
import ShaderReducer.Proofs.Opportunity.Reached

/-!
# What is outside the scope

Changes to expressions and statements leave what is outside the scope in its place. The one exception
is an injected condition that is taken out of live code. It goes as a whole, and if it has another
branch, which does run, then that branch goes with it.
-/

namespace ShaderReducer

/-- Whether a node is in scope. -/
def ReductionScope.contains (scope : ReductionScope) : NodeId → Bool
  | .decl id => scope.isUnreachableFunction id
  | .stmt id => scope.containsStmt id
  | .expr id => scope.containsExpr id

namespace Shader

variable {s t : Shader}

/-- What goes with an injected condition although it need not be in scope: the statement, its
condition, and its other branch. -/
inductive GoesWith (s : Shader) (stmt : StmtId) : NodeId → Prop
  | self : GoesWith s stmt (.stmt stmt)
  | cond {cond : ExprId} {onTrue : StmtId} {onFalse : Option StmtId}
      (h : s.stmt stmt = .ifElse cond onTrue onFalse) {e : ExprId} (he : e ∈ s.exprSlots cond) :
      GoesWith s stmt (.expr e)
  | otherStmt {cond : ExprId} {onTrue onFalse : StmtId}
      (h : s.stmt stmt = .ifElse cond onTrue (some onFalse)) {t : StmtId}
      (ht : t ∈ s.stmtSlots onFalse) : GoesWith s stmt (.stmt t)
  | otherExpr {cond : ExprId} {onTrue onFalse : StmtId}
      (h : s.stmt stmt = .ifElse cond onTrue (some onFalse)) {e : ExprId}
      (he : e ∈ s.stmtExprSlots onFalse) : GoesWith s stmt (.expr e)

/-! ## Slots that stay live -/

theorem isExprLive_forgetExprs {ids : List ExprId} {e : ExprId} (h : s.isExprLive e = true)
    (he : e ∉ ids) : (s.forgetExprs ids).isExprLive e = true := by
  rw [← mem_liveExprs, liveExprs_forgetExprs, Multiset.mem_filter]
  exact ⟨mem_liveExprs.mpr h, he⟩

theorem isStmtLive_forgetStmts {ids : List StmtId} {t : StmtId} (h : s.isStmtLive t = true)
    (ht : t ∉ ids) : (s.forgetStmts ids).isStmtLive t = true := by
  rw [← mem_liveStmts, liveStmts_forgetStmts, Multiset.mem_filter]
  exact ⟨mem_liveStmts.mpr h, ht⟩

theorem isExprLive_setExpr (s : Shader) (target : ExprId) (node : ExprNode ExprId) (e : ExprId) :
    (s.setExpr target node).isExprLive e = s.isExprLive e := by
  rw [Bool.eq_iff_iff, ← mem_liveExprs, ← mem_liveExprs, liveExprs_setExpr]

theorem isStmtLive_setStmt (s : Shader) (target : StmtId) (node : StmtNode ExprId StmtId)
    (t : StmtId) : (s.setStmt target node).isStmtLive t = s.isStmtLive t := by
  rw [Bool.eq_iff_iff, ← mem_liveStmts, ← mem_liveStmts, liveStmts_setStmt]

/-- A shader in which each expression has fewer parts has fewer slots below each expression. -/
theorem Grounded.exprSlots_subset (h : t.Grounded) (hs : s.Grounded)
    (hparts : ∀ id, t.exprParts id ⊆ s.exprParts id) (id : ExprId) :
    t.exprSlots id ⊆ s.exprSlots id := by
  induction id using h.expr_induction with
  | step id ih =>
      rw [h.exprSlots_eq, hs.exprSlots_eq]
      refine List.cons_subset_cons _ fun e he => ?_
      obtain ⟨part, hpart, he⟩ := List.mem_flatMap.mp he
      exact List.mem_flatMap.mpr ⟨part, hparts id hpart, ih part hpart he⟩

/-- A shader in which each statement has fewer parts has fewer slots below each statement. -/
theorem Grounded.stmtSlots_subset (h : t.Grounded) (hs : s.Grounded)
    (hparts : ∀ id, t.stmtParts id ⊆ s.stmtParts id) (id : StmtId) :
    t.stmtSlots id ⊆ s.stmtSlots id := by
  induction id using h.stmt_induction with
  | step id ih =>
      rw [h.stmtSlots_eq, hs.stmtSlots_eq]
      refine List.cons_subset_cons _ fun u hu => ?_
      obtain ⟨part, hpart, hu⟩ := List.mem_flatMap.mp hu
      exact List.mem_flatMap.mpr ⟨part, hparts id hpart, ih part hpart hu⟩

theorem Grounded.stmtExprSlots_subset (h : t.Grounded) (hs : s.Grounded)
    (hparts : ∀ id, t.stmtParts id ⊆ s.stmtParts id)
    (hexprs : ∀ id, (t.stmt id).childExprs ⊆ (s.stmt id).childExprs)
    (hslots : t.exprSlots = s.exprSlots) (id : StmtId) :
    t.stmtExprSlots id ⊆ s.stmtExprSlots id := by
  intro e he
  obtain ⟨u, hu, c, hc, he⟩ := h.mem_stmtExprSlots.mp he
  exact hs.mem_stmtExprSlots.mpr
    ⟨u, h.stmtSlots_subset hs hparts id hu, c, hexprs u hc, hslots ▸ he⟩

/-- A statement that is taken out of a block goes with what is below it, and nothing else does. -/
theorem Grounded.isLive_removeFromBlock (h : s.Grounded) {block stmt : StmtId}
    (hin : s.standsIn block stmt = true) {n : NodeId} (hlive : s.isLive n = true)
    (hstmt : ∀ t, n = .stmt t → t ∉ s.stmtSlots stmt)
    (hexpr : ∀ e, n = .expr e → e ∉ s.stmtExprSlots stmt) :
    (s.removeFromBlock block stmt).2.isLive n = true := by
  obtain ⟨-, -, body, hb, hmem⟩ := stmt_eq_block hin
  rw [removeFromBlock_eq hb hmem]
  set u := s.setStmt block (.block (body.erase stmt)) with hu
  have hnode : ∀ id, u.stmt id = if block = id ∧ id.index < s.stmts.size
      then .block (body.erase stmt) else s.stmt id := fun id => by rw [hu, stmt_setStmt]
  have hg : u.Grounded := by
    refine h.setStmt (fun c hc => stmtBelow_of_mem ?_) (by simp [StmtNode.childExprs])
    rw [stmtParts, hb]
    exact List.mem_of_mem_erase hc
  have hparts : ∀ id, u.stmtParts id ⊆ s.stmtParts id := by
    intro id
    rw [stmtParts, stmtParts, hnode]
    split
    next hid =>
      rw [← hid.1, hb]
      exact List.erase_subset
    next => exact List.Subset.refl _
  have hexprs : ∀ id, (u.stmt id).childExprs ⊆ (s.stmt id).childExprs := by
    intro id
    rw [hnode]
    split
    next hid => exact List.nil_subset _
    next => exact List.Subset.refl _
  have hslots : u.exprSlots = s.exprSlots := by
    funext e
    rw [exprSlots, exprTree_congr (s := u) (t := s) rfl rfl, exprSlots]
  cases n with
  | decl d => exact hlive
  | stmt t =>
      refine isStmtLive_forgetStmts ?_ fun ht => hstmt t rfl (hg.stmtSlots_subset h hparts stmt ht)
      exact (isStmtLive_setStmt s block _ t).trans hlive
  | expr e =>
      exact isExprLive_forgetExprs (s := u) hlive fun he =>
        hexpr e rfl (hg.stmtExprSlots_subset h hparts hexprs hslots stmt he)

end Shader

namespace Opportunity

variable {s : Shader}

/-- The kinds of changes to expressions and statements that do not touch what is declared. -/
def codeKinds : List OpportunityKind :=
  [.removeStmt, .unwrapStmt, .compoundExprToSubExpr, .exprToConstant]

/-- The slot that a change to an expression or a statement is about is in scope, or it is that of an
injected condition, which may be taken out. -/
def InScope (scope : ReductionScope) : Change → Prop
  | .toSubExpr target _ | .toConstant target _ => scope.containsExpr target = true
  | .removeStmt _ stmt => scope.containsStmt stmt = true ∨ scope.isDeadIf stmt = true
  | .unwrap _ target _ => scope.containsStmt target = true
  | .removeDecl _ | .inlineField _ _ | .removeVariable _ _ _ => False

theorem inScope_of_mem_find {everywhere : Bool} {o : Opportunity}
    (hfind : o ∈ find s everywhere codeKinds) :
    InScope (ReductionScope.ofShader s everywhere) o.change := by
  obtain ⟨kind, hkind, hmem⟩ := List.mem_flatMap.mp (List.mem_mergeSort.mp hfind)
  have hcode := List.contains_iff_mem.mp (List.mem_filter.mp hkind).2
  cases kind with
  | compoundExprToSubExpr =>
      obtain ⟨v, -, hmem⟩ := List.mem_flatMap.mp hmem
      obtain ⟨child, hchild, rfl⟩ := List.mem_map.mp hmem
      rw [SubExpr.operands] at hchild
      split at hchild
      next hcond =>
        simp only [Bool.and_eq_true] at hcond
        exact hcond.2
      next => cases hchild
  | exprToConstant =>
      obtain ⟨v, -, hmem⟩ := List.mem_filterMap.mp hmem
      obtain ⟨constant, hconstant, rfl⟩ := Option.map_eq_some_iff.mp hmem
      rw [Constant.replacement?] at hconstant
      split at hconstant
      next hcond =>
        simp only [Bool.and_eq_true] at hcond
        exact hcond.2
      next => cases hconstant
  | removeStmt =>
      obtain ⟨f, -, hmem⟩ := List.mem_flatMap.mp hmem
      obtain ⟨v, -, hmem⟩ := List.mem_flatMap.mp hmem
      obtain ⟨t, ht, rfl⟩ := List.mem_map.mp hmem
      have hcond := (List.mem_filter.mp ht).2
      simp only [RemovableStmt.isRemovable, Bool.and_eq_true, Bool.or_eq_true] at hcond
      exact hcond.2
  | unwrapStmt =>
      obtain ⟨f, -, hmem⟩ := List.mem_flatMap.mp hmem
      obtain ⟨v, -, hmem⟩ := List.mem_flatMap.mp hmem
      dsimp only at hmem
      split at hmem
      next =>
        obtain ⟨t, ht, hmem⟩ := List.mem_flatMap.mp hmem
        obtain ⟨way, -, rfl⟩ := List.mem_map.mp hmem
        have hcond := (List.mem_filter.mp ht).2
        simp only [Bool.and_eq_true] at hcond
        exact hcond.1
      next => cases hmem
  | _ => simp [codeKinds] at hcode

/-- An expression in scope that gets another node leaves what is outside the scope. -/
theorem isLive_setExpr (h : s.Grounded) (ho : s.Owned) {target : ExprId}
    (hscope : (ReductionScope.ofShader s false).containsExpr target = true) {dead : List ExprId}
    (hdead : ∀ e ∈ dead, e ∈ s.exprSlots target) (node : ExprNode ExprId) {t : Shader} {n : NodeId}
    (hlive : t.isLive n = true) (hout : (ReductionScope.ofShader s false).contains n = false) :
    ((t.forgetExprs dead).setExpr target node).isLive n = true := by
  cases n with
  | decl d => exact hlive
  | stmt t => exact hlive
  | expr e =>
      refine (Shader.isExprLive_setExpr _ target node e).trans
        (Shader.isExprLive_forgetExprs hlive fun he => ?_)
      have hin := ReductionScope.containsExpr_of_mem_exprSlots h ho hscope (hdead e he)
      exact Bool.false_ne_true (hout.symm.trans hin)

theorem isLive_toConstant (h : s.Grounded) (ho : s.Owned) {target : ExprId}
    (hscope : (ReductionScope.ofShader s false).containsExpr target = true) (constant : Constant)
    {n : NodeId} (hlive : s.isLive n = true)
    (hout : (ReductionScope.ofShader s false).contains n = false) :
    (Constant.apply s target constant).isLive n = true := by
  cases constant with
  | scalar value =>
      rw [Constant.apply, Shader.replaceWithLeaf_eq]
      refine isLive_setExpr h ho hscope (fun e he => ?_) _ hlive hout
      rw [List.append_nil] at he
      rw [h.exprSlots_eq]
      exact List.mem_cons_of_mem _ he
  | vector constructor element =>
      set t := (s.addExpr (.literal element)).2 with ht
      have hg : t.Grounded := h.addExpr rfl
      have hparts : ∀ id, t.exprParts id ⊆ s.exprParts id := by
        intro id
        rw [Shader.exprParts, ht, Shader.expr_addExpr]
        split
        next => exact List.nil_subset _
        next => exact List.Subset.refl _
      have hadded : t.isLive n = true := by
        cases n with
        | expr e =>
            refine Shader.mem_liveExprs.mp ?_
            rw [ht, Shader.liveExprs_addExpr]
            exact Multiset.mem_cons_of_mem (Shader.mem_liveExprs.mpr hlive)
        | _ => exact hlive
      rw [Constant.apply_vector, Shader.replaceWithLeaf_eq, ← ht]
      refine isLive_setExpr h ho hscope (fun e he => ?_) _ hadded hout
      rw [List.append_nil] at he
      refine hg.exprSlots_subset h hparts target ?_
      rw [hg.exprSlots_eq]
      exact List.mem_cons_of_mem _ he

/-- What is in an injected condition and not in scope goes with it. -/
theorem goesWith_of_isDeadIf (h : s.Grounded) (ho : s.Owned) {stmt : StmtId}
    (hdead : (ReductionScope.ofShader s false).isDeadIf stmt = true) {n : NodeId}
    (hout : (ReductionScope.ofShader s false).contains n = false)
    (hin : (∃ t, n = .stmt t ∧ t ∈ s.stmtSlots stmt) ∨ ∃ e, n = .expr e ∧ e ∈ s.stmtExprSlots stmt) :
    s.GoesWith stmt n := by
  obtain ⟨cond, onTrue, onFalse, hstmt, hscope⟩ := ReductionScope.containsStmt_onTrue h ho hdead
  have hparts : ∀ t ∈ s.stmtSlots stmt, t = stmt ∨ t ∈ s.stmtSlots onTrue ∨
      ∃ other, onFalse = some other ∧ t ∈ s.stmtSlots other := by
    intro t ht
    rw [h.stmtSlots_eq, Shader.stmtParts, hstmt] at ht
    rcases List.mem_cons.mp ht with ht | ht
    · exact Or.inl ht
    · obtain ⟨part, hpart, ht⟩ := List.mem_flatMap.mp ht
      rcases List.mem_cons.mp hpart with hpart | hpart
      · exact Or.inr (Or.inl (hpart ▸ ht))
      · exact Or.inr (Or.inr ⟨part, Option.mem_toList.mp hpart, ht⟩)
  rcases hin with ⟨t, rfl, ht⟩ | ⟨e, rfl, he⟩
  · rcases hparts t ht with rfl | ht | ⟨other, rfl, ht⟩
    · exact .self
    · have hin := ReductionScope.containsStmt_of_mem_stmtSlots h ho hscope ht
      exact absurd (hout.symm.trans hin) Bool.false_ne_true
    · exact .otherStmt hstmt ht
  · obtain ⟨t, ht, c, hc, hbelow⟩ := h.mem_stmtExprSlots.mp he
    rcases hparts t ht with rfl | ht | ⟨other, rfl, ht⟩
    · rw [hstmt] at hc
      exact .cond hstmt (List.mem_singleton.mp hc ▸ hbelow)
    · have hin := ReductionScope.containsExpr_of_mem_stmtExprSlots h ho hscope
        (h.mem_stmtExprSlots.mpr ⟨t, ht, c, hc, hbelow⟩)
      exact absurd (hout.symm.trans hin) Bool.false_ne_true
    · exact .otherExpr hstmt (h.mem_stmtExprSlots.mpr ⟨t, ht, c, hc, hbelow⟩)

theorem isLive_unwrap (h : s.Grounded) (ho : s.Owned) {block target : StmtId} {way : UnwrapWay}
    (hholds : Unwrap.holds s block target way = true)
    (hscope : (ReductionScope.ofShader s false).containsStmt target = true) {n : NodeId}
    (hlive : s.isLive n = true) (hout : (ReductionScope.ofShader s false).contains n = false) :
    (Unwrap.apply s block target way).isLive n = true := by
  obtain ⟨body, kept, dropped, i, -, -, hparts, heq⟩ := Unwrap.exists_eq_lifted hholds
  have hdropped : ∀ t ∈ dropped, t ∈ s.stmtSlots target := fun t ht =>
    h.mem_stmtSlots_of_mem_parts (hparts.mem_iff.mpr (List.mem_append_right _ ht))
  rw [heq, Unwrap.lifted]
  cases n with
  | decl d => exact hlive
  | stmt t =>
      refine (Shader.isStmtLive_setStmt _ block _ t).trans
        (Shader.isStmtLive_forgetStmts hlive fun ht => ?_)
      have hmem : t ∈ s.stmtSlots target := by
        rcases List.mem_append.mp ht with ht | ht
        · obtain ⟨part, hpart, ht⟩ := List.mem_flatMap.mp ht
          exact h.stmtSlots_trans (hdropped part hpart) ht
        · exact List.mem_singleton.mp ht ▸ Shader.mem_stmtSlots_self s target
      exact Bool.false_ne_true
        (hout.symm.trans (ReductionScope.containsStmt_of_mem_stmtSlots h ho hscope hmem))
  | expr e =>
      refine Shader.isExprLive_forgetExprs hlive fun he => ?_
      have hmem : e ∈ s.stmtExprSlots target := by
        rcases List.mem_append.mp he with he | he
        · obtain ⟨cond, hcond, he⟩ := List.mem_flatMap.mp he
          exact h.mem_stmtExprSlots.mpr
            ⟨target, Shader.mem_stmtSlots_self s target, cond, hcond, he⟩
        · obtain ⟨part, hpart, he⟩ := List.mem_flatMap.mp he
          exact h.stmtExprSlots_trans (hdropped part hpart) he
      exact Bool.false_ne_true
        (hout.symm.trans (ReductionScope.containsExpr_of_mem_stmtExprSlots h ho hscope hmem))

/-- A change to the code of a shader leaves live what is outside the scope, unless it takes out an
injected condition. -/
theorem isLive_of_outside (h : s.Grounded) (ho : s.Owned) {o : Opportunity}
    (hfind : o ∈ find s false codeKinds) (supply : NameSupply) {n : NodeId}
    (hlive : s.isLive n = true) (hout : (ReductionScope.ofShader s false).contains n = false) :
    (o.apply s supply).1.isLive n = true ∨ ∃ block stmt, o.change = .removeStmt block stmt ∧
      (ReductionScope.ofShader s false).isDeadIf stmt = true ∧ s.GoesWith stmt n := by
  have hscope := inScope_of_mem_find hfind
  have hholds := holds_of_mem_find h ho hfind
  obtain ⟨depth, change⟩ := o
  cases change with
  | toSubExpr target child =>
      simp only [holds, SubExpr.holds, Bool.and_eq_true] at hholds
      have hpart : child ∈ s.exprParts target := List.contains_iff_mem.mp hholds.2
      have hbelow : ∀ c ∈ s.exprParts target, ∀ e ∈ s.exprSlots c, e ∈ s.exprSlots target := by
        intro c hc e he
        rw [h.exprSlots_eq]
        exact List.mem_cons_of_mem _ (List.mem_flatMap.mpr ⟨c, hc, he⟩)
      refine Or.inl ?_
      simp only [apply]
      rw [Shader.replaceWithChild_eq]
      refine isLive_setExpr h ho hscope (fun e he => ?_) _ hlive hout
      rcases List.mem_append.mp he with he | he
      · obtain ⟨c, hc, he⟩ := List.mem_flatMap.mp he
        exact hbelow c (List.mem_filter.mp hc).1 e he
      · rw [List.mem_singleton.mp he]
        refine hbelow child hpart child ?_
        rw [h.exprSlots_eq]
        exact List.mem_cons_self
  | toConstant target constant =>
      exact Or.inl (isLive_toConstant h ho hscope constant hlive hout)
  | removeStmt block stmt =>
      by_cases hin : (∃ t, n = .stmt t ∧ t ∈ s.stmtSlots stmt) ∨
          ∃ e, n = .expr e ∧ e ∈ s.stmtExprSlots stmt
      · refine Or.inr ⟨block, stmt, rfl, ?_⟩
        rcases hscope with hscope | hdead
        · exfalso
          rcases hin with ⟨t, rfl, ht⟩ | ⟨e, rfl, he⟩
          · exact Bool.false_ne_true (hout.symm.trans
              (ReductionScope.containsStmt_of_mem_stmtSlots h ho hscope ht))
          · exact Bool.false_ne_true (hout.symm.trans
              (ReductionScope.containsExpr_of_mem_stmtExprSlots h ho hscope he))
        · exact ⟨hdead, goesWith_of_isDeadIf h ho hdead hout hin⟩
      · refine Or.inl (h.isLive_removeFromBlock hholds hlive ?_ ?_)
        · exact fun t hn ht => hin (Or.inl ⟨t, hn, ht⟩)
        · exact fun e hn he => hin (Or.inr ⟨e, hn, he⟩)
  | unwrap block target way => exact Or.inl (isLive_unwrap h ho hholds hscope hlive hout)
  | _ => exact hscope.elim

/-- All slots are owned after a change to the code of a shader, whatever its structures. -/
theorem owned_of_codeKinds (h : s.Grounded) (ho : s.Owned) {everywhere : Bool} {o : Opportunity}
    (hfind : o ∈ find s everywhere codeKinds) (supply : NameSupply) :
    (o.apply s supply).1.Owned := by
  have hscope := inScope_of_mem_find hfind
  have hholds := holds_of_mem_find h ho hfind
  obtain ⟨depth, change⟩ := o
  cases change with
  | toSubExpr target child =>
      simp only [holds, SubExpr.holds, Bool.and_eq_true] at hholds
      exact ho.replaceWithChild h (Shader.mem_liveExprs.mpr hholds.1.1)
        (List.contains_iff_mem.mp hholds.2)
  | toConstant target constant =>
      simp only [holds, Constant.holds, Bool.and_eq_true] at hholds
      exact Constant.owned_apply h ho (Shader.mem_liveExprs.mpr hholds.1) constant
  | removeStmt block stmt => exact ho.removeFromBlock h hholds
  | unwrap block target way => exact Unwrap.owned_apply h ho hholds
  | _ => exact hscope.elim

/-- Without the request to change all code, a change to the code of a program leaves every node
outside the scope live and in its place, except that an injected condition which is taken out goes
with its condition and with its other branch. -/
theorem reaches_of_outside {p : Program} {o : Opportunity}
    (hfind : o ∈ find (Shader.ofProgram p) false codeKinds) (supply : NameSupply) {n : NodeId}
    (hreach : (Shader.ofProgram p).Reaches n)
    (hout : (ReductionScope.ofShader (Shader.ofProgram p) false).contains n = false) :
    ((o.apply (Shader.ofProgram p) supply).1.isLive n = true ∧
      (o.apply (Shader.ofProgram p) supply).1.Reaches n) ∨
    ∃ block stmt, o.change = .removeStmt block stmt ∧
      (ReductionScope.ofShader (Shader.ofProgram p) false).isDeadIf stmt = true ∧
      (Shader.ofProgram p).GoesWith stmt n := by
  have hlaid := Shader.laidOut_ofProgram p
  have hg := hlaid.layered.grounded
  have hlive := (hlaid.owned.isLive_iff_reaches hg n).mpr hreach
  have hgrounded := grounded_apply hg (holds_of_mem_find hg hlaid.owned hfind) supply
  have howned := owned_of_codeKinds hg hlaid.owned hfind supply
  rcases isLive_of_outside hg hlaid.owned hfind supply hlive hout with hafter | hgone
  · exact Or.inl ⟨hafter, (howned.isLive_iff_reaches hgrounded n).mp hafter⟩
  · exact Or.inr hgone

/-- An injected condition with another branch. -/
def deadWithOther : Program :=
  let dead : Stmt Unit Unit := .node () (.ifElse (.node () (.call "_GLF_DEAD" []))
    (.node () (.block [])) (some (.node () (.expr (.node () (.ident "a"))))))
  ⟨none, [.function ⟨.ofName "void", "main", [], some (.node () (.block [dead]))⟩]⟩

/-- The other branch runs, is not in scope, and goes. -/
theorem reaches_deadWithOther : ∃ o ∈ find (Shader.ofProgram deadWithOther) false codeKinds,
    (ReductionScope.ofShader (Shader.ofProgram deadWithOther) false).contains (.stmt ⟨1⟩) = false ∧
      (o.apply (Shader.ofProgram deadWithOther) {}).1.isLive (.stmt ⟨1⟩) = false ∧
      ∃ block stmt, o.change = .removeStmt block stmt ∧
        (Shader.ofProgram deadWithOther).GoesWith stmt (.stmt ⟨1⟩) := by
  have hfind : ⟨2, .removeStmt ⟨3⟩ ⟨2⟩⟩ ∈ find (Shader.ofProgram deadWithOther) false codeKinds :=
    List.mem_mergeSort.mpr (List.mem_flatMap.mpr ⟨.removeStmt, by decide, by decide +kernel⟩)
  have hlaid := Shader.laidOut_ofProgram deadWithOther
  have hreach : (Shader.ofProgram deadWithOther).Reaches (.stmt ⟨1⟩) :=
    (hlaid.owned.isLive_iff_reaches hlaid.layered.grounded _).mp (by decide +kernel)
  have hout : (ReductionScope.ofShader (Shader.ofProgram deadWithOther) false).contains
      (.stmt ⟨1⟩) = false := by
    decide +kernel
  have hdead : ((⟨2, .removeStmt ⟨3⟩ ⟨2⟩⟩ : Opportunity).apply (Shader.ofProgram deadWithOther)
      {}).1.isLive (.stmt ⟨1⟩) = false := by
    decide +kernel
  refine ⟨_, hfind, hout, hdead, ?_⟩
  rcases reaches_of_outside hfind {} hreach hout with ⟨hlive, -⟩ | ⟨block, stmt, ho, -, hgoes⟩
  · exact absurd (hdead.symm.trans hlive) Bool.false_ne_true
  · exact ⟨block, stmt, ho, hgoes⟩

end Opportunity

end ShaderReducer
