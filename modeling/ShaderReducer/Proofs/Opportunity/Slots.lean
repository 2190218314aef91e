import ShaderReducer.Opportunity.Removal
import ShaderReducer.Opportunity.Replacement
import ShaderReducer.Proofs.Shader.OwnedStmt
import ShaderReducer.Proofs.Shader.Placed

/-!
# Slots when constants, variables and branches change

A change drops the slots of what it takes away and keeps all others grounded and owned.
-/

namespace ShaderReducer

/-!
## Constants and slots

A constant that takes the place of an expression drops what was below it. The argument of a vector
constructor gets a new slot, which no older slot names.
-/

namespace Constant

variable {s : Shader}

theorem apply_vector (s : Shader) (target : ExprId) (constructor : String) (element : Literal) :
    apply s target (.vector constructor element) =
      (s.addExpr (.literal element)).2.replaceWithLeaf target
        (.call constructor [(s.addExpr (.literal element)).1]) := rfl

theorem decls_apply (s : Shader) (target : ExprId) (constant : Constant) :
    (apply s target constant).decls = s.decls ∧
      (apply s target constant).declNodes = s.declNodes := by
  cases constant with
  | scalar value =>
      rw [apply, Shader.replaceWithLeaf_eq]
      exact ⟨by simp, by simp⟩
  | vector constructor element =>
      rw [apply_vector, Shader.replaceWithLeaf_eq]
      exact ⟨by simp, by simp⟩

theorem stmts_apply (s : Shader) (target : ExprId) (constant : Constant) :
    (apply s target constant).stmts = s.stmts := by
  cases constant with
  | scalar value => rw [apply, Shader.replaceWithLeaf_eq, Shader.stmts_setExpr,
      Shader.stmts_forgetExprs]
  | vector constructor element => rw [apply_vector, Shader.replaceWithLeaf_eq,
      Shader.stmts_setExpr, Shader.stmts_forgetExprs, Shader.stmts_addExpr]

theorem grounded_apply (h : s.Grounded) {target : ExprId} (ht : target ∈ s.liveExprs)
    (constant : Constant) : (apply s target constant).Grounded := by
  cases constant with
  | scalar value =>
      rw [apply, Shader.replaceWithLeaf_eq]
      exact (h.forgetExprs _).setExpr (by simp [ExprNode.children])
  | vector constructor element =>
      have hset : ((s.addExpr (.literal element)).2.setExpr target
          (.call constructor [(s.addExpr (.literal element)).1])).Grounded :=
        h.setExpr_addExpr rfl (Shader.lt_size_of_mem_liveExprs ht) fun c hc =>
          List.mem_singleton.mp hc
      rw [apply_vector, Shader.replaceWithLeaf_eq, ← Shader.forgetExprs_setExpr]
      exact hset.forgetExprs _

theorem owned_apply (h : s.Grounded) (ho : s.Owned) {target : ExprId} (ht : target ∈ s.liveExprs)
    (constant : Constant) : (apply s target constant).Owned := by
  cases constant with
  | scalar value =>
      have he : (s.replaceWithLeaf target (.literal value)).OwnsExprs 0 :=
        Shader.OwnsExprs.replaceWithLeaf h (by simpa [ExprNode.children] using ho.exprs) ht
      rw [Shader.replaceWithLeaf_eq] at he
      rw [apply, Shader.replaceWithLeaf_eq]
      exact ho.of_ownsExprs (by simp) (by simp) (by simp) he
  | vector constructor element =>
      have hadd : (s.addExpr (.literal element)).2.OwnsExprs
          ((s.addExpr (.literal element)).1 ::ₘ 0) :=
        Shader.OwnsExprs.addExpr (by simpa [ExprNode.children] using ho.exprs)
      have htarget : target ∈ (s.addExpr (.literal element)).2.liveExprs := by
        rw [Shader.liveExprs_addExpr]
        exact Multiset.mem_cons_of_mem ht
      have he : ((s.addExpr (.literal element)).2.replaceWithLeaf target
          (.call constructor [(s.addExpr (.literal element)).1])).OwnsExprs 0 :=
        Shader.OwnsExprs.replaceWithLeaf (h.addExpr rfl)
          (by simpa [ExprNode.children] using hadd) htarget
      rw [Shader.replaceWithLeaf_eq] at he
      rw [apply_vector, Shader.replaceWithLeaf_eq]
      exact ho.of_ownsExprs (by simp) (by simp) (by simp) he

/-! ## What is in the slots -/

/-- The node of a constant; the argument of a vector constructor is in a slot of its own. -/
def node (arg : ExprId) : Constant → ExprNode ExprId
  | scalar value => .literal value
  | vector constructor _ => .call constructor [arg]

theorem expr_apply {target id : ExprId} (hid : id.index < s.exprs.size) (constant : Constant) :
    (apply s target constant).expr id =
      if target = id then constant.node ⟨s.exprs.size⟩ else s.expr id := by
  cases constant with
  | scalar value =>
      rw [apply, Shader.replaceWithLeaf_eq, Shader.expr_setExpr, Shader.expr_forgetExprs,
        Shader.size_exprs_forgetExprs]
      by_cases h : target = id
      · rw [if_pos ⟨h, hid⟩, if_pos h]
        rfl
      · rw [if_neg fun hc => h hc.1, if_neg h]
  | vector constructor element =>
      rw [apply_vector, Shader.replaceWithLeaf_eq, Shader.expr_setExpr, Shader.expr_forgetExprs,
        Shader.size_exprs_forgetExprs, Shader.size_addExpr, Shader.expr_addExpr_of_lt _ _ hid]
      by_cases h : target = id
      · rw [if_pos ⟨h, by omega⟩, if_pos h]
        rfl
      · rw [if_neg fun hc => h hc.1, if_neg h]

theorem mem_liveExprs_of_apply {target id : ExprId} {constant : Constant}
    (hid : id ∈ (apply s target constant).liveExprs) (hlt : id.index < s.exprs.size) :
    id ∈ s.liveExprs := by
  cases constant with
  | scalar value =>
      rw [apply, Shader.replaceWithLeaf_eq, Shader.liveExprs_setExpr,
        Shader.liveExprs_forgetExprs] at hid
      exact (Multiset.mem_filter.mp hid).1
  | vector constructor element =>
      rw [apply_vector, Shader.replaceWithLeaf_eq, Shader.liveExprs_setExpr,
        Shader.liveExprs_forgetExprs] at hid
      have hadd := (Multiset.mem_filter.mp hid).1
      rw [Shader.liveExprs_addExpr] at hadd
      rcases Multiset.mem_cons.mp hadd with rfl | hadd
      · exact absurd hlt (Nat.lt_irrefl _)
      · exact hadd

theorem size_le_apply (s : Shader) (target : ExprId) (constant : Constant) :
    s.exprs.size ≤ (apply s target constant).exprs.size := by
  cases constant with
  | scalar value =>
      rw [apply, Shader.replaceWithLeaf_eq, Shader.size_exprs_setExpr, Shader.size_exprs_forgetExprs]
  | vector constructor element =>
      rw [apply_vector, Shader.replaceWithLeaf_eq, Shader.size_exprs_setExpr,
        Shader.size_exprs_forgetExprs, Shader.size_addExpr]
      exact Nat.le_succ _

end Constant

/-!
## Variables and slots

A variable that is taken out of its declaration drops its initial value; a declaration that is left
empty goes from its block, or leaves an empty statement.
-/

namespace UnusedVariable

variable {s : Shader}

/-- A declaration whose variable is taken out, before it is asked whether any is left. -/
def shrink (s : Shader) (stmt : StmtId) (decl : VarDecl ExprId) (removed : Declarator ExprId)
    (name : String) : Shader :=
  (s.setStmt stmt (.vars ⟨decl.type, decl.declarators.eraseP fun d => d.name == name⟩)).killExprs
    removed.init.toList

theorem apply_eq {stmt : StmtId} {decl : VarDecl ExprId} {removed : Declarator ExprId}
    {name : String} (hd : s.stmt stmt = .vars decl)
    (hr : decl.declarators.find? (fun d => d.name == name) = some removed)
    (block : Option StmtId) :
    apply s stmt block name =
      if (decl.declarators.eraseP fun d => d.name == name).isEmpty then
        match block with
        | some block => ((shrink s stmt decl removed name).removeFromBlock block stmt).2
        | none => (shrink s stmt decl removed name).setStmt stmt .empty
      else shrink s stmt decl removed name := by
  rw [apply, hd]
  dsimp only
  rw [hr]
  rfl

/-- A variable that can still be taken out is in its declaration. -/
theorem eq_vars_of_holds {stmt : StmtId} {block : Option StmtId} {name : String}
    (h : holds s stmt block name = true) :
    stmt ∈ s.liveStmts ∧ (∃ decl removed, s.stmt stmt = .vars decl ∧
      decl.declarators.find? (fun d => d.name == name) = some removed) ∧
      ∀ b, block = some b → s.standsIn b stmt = true := by
  simp only [holds, Bool.and_eq_true] at h
  obtain ⟨⟨hlive, hvars⟩, hblock⟩ := h
  refine ⟨Shader.mem_liveStmts.mpr hlive, ?_, ?_⟩
  · split at hvars
    next decl hd =>
      obtain ⟨removed, hr⟩ := Option.isSome_iff_exists.mp (List.find?_isSome.mpr
        (List.any_eq_true.mp hvars))
      exact ⟨decl, removed, hd, hr⟩
    next => exact absurd hvars Bool.false_ne_true
  · rintro b rfl
    exact hblock

theorem inits_eraseP {ρ : Type} {ds : List (Declarator ρ)} {p : Declarator ρ → Bool}
    {removed : Declarator ρ} (h : ds.find? p = some removed) :
    (ds.filterMap Declarator.init).Perm
      (removed.init.toList ++ (ds.eraseP p).filterMap Declarator.init) := by
  induction ds with
  | nil => simp at h
  | cons d ds ih =>
      rw [List.find?_cons] at h
      cases hp : p d with
      | true =>
          rw [hp] at h
          obtain rfl := Option.some.inj h
          rw [List.eraseP_cons_of_pos hp, Declarator.filterMap_init_cons]
      | false =>
          rw [hp] at h
          rw [List.eraseP_cons_of_neg (by simp [hp]), Declarator.filterMap_init_cons,
            Declarator.filterMap_init_cons]
          refine (List.Perm.append_left _ (ih h)).trans ?_
          rw [← List.append_assoc, ← List.append_assoc]
          exact List.Perm.append_right _ List.perm_append_comm

variable {stmt : StmtId} {decl : VarDecl ExprId} {removed : Declarator ExprId} {name : String}

theorem stmt_shrink (hlive : stmt ∈ s.liveStmts) (id : StmtId) :
    (shrink s stmt decl removed name).stmt id =
      if stmt = id then .vars ⟨decl.type, decl.declarators.eraseP fun d => d.name == name⟩
      else s.stmt id := by
  have hsize := Shader.lt_size_of_mem_liveStmts hlive
  rw [shrink, Shader.killExprs_eq, Shader.stmt_forgetExprs, Shader.stmt_setStmt]
  by_cases hid : stmt = id
  · rw [if_pos hid, if_pos ⟨hid, hid ▸ hsize⟩]
  · rw [if_neg hid, if_neg fun h => hid h.1]

theorem liveStmts_shrink : (shrink s stmt decl removed name).liveStmts = s.liveStmts := by
  rw [shrink, Shader.killExprs_eq, Shader.liveStmts_forgetExprs, Shader.liveStmts_setStmt]

theorem decls_shrink (s : Shader) (stmt : StmtId) (decl : VarDecl ExprId)
    (removed : Declarator ExprId) (name : String) :
    (shrink s stmt decl removed name).decls = s.decls ∧
    (shrink s stmt decl removed name).declNodes = s.declNodes := by
  rw [shrink, Shader.killExprs_eq]
  exact ⟨rfl, rfl⟩

theorem lt_size_of_mem_rest (h : s.Grounded) (hd : s.stmt stmt = .vars decl)
    (hr : decl.declarators.find? (fun d => d.name == name) = some removed) :
    ∀ e ∈ (StmtNode.vars ⟨decl.type, decl.declarators.eraseP fun d => d.name == name⟩ :
      StmtNode ExprId StmtId).childExprs, e.index < s.exprs.size := by
  intro e he
  refine h.stmtExprs stmt e ?_
  rw [hd]
  exact (inits_eraseP hr).mem_iff.mpr (List.mem_append.mpr (Or.inr he))

theorem grounded_shrink (h : s.Grounded) (hd : s.stmt stmt = .vars decl)
    (hr : decl.declarators.find? (fun d => d.name == name) = some removed) :
    (shrink s stmt decl removed name).Grounded :=
  (h.setStmt (by simp [StmtNode.childStmts]) (lt_size_of_mem_rest h hd hr)).killExprs _

theorem ownsStmts_shrink (ho : s.OwnsStmts 0) (hlive : stmt ∈ s.liveStmts)
    (hd : s.stmt stmt = .vars decl) : (shrink s stmt decl removed name).OwnsStmts 0 := by
  have hparts : (0 : Multiset StmtId) + ↑(StmtNode.vars
      ⟨decl.type, decl.declarators.eraseP fun d => d.name == name⟩ :
        StmtNode ExprId StmtId).childStmts = 0 + s.stmtPartsOf stmt := by
    rw [Shader.stmtPartsOf, Shader.stmtParts, hd]
    rfl
  have hs := ho.setStmt hlive hparts
  rw [shrink, Shader.killExprs_eq]
  exact hs

theorem owned_shrink (h : s.Grounded) (ho : s.Owned) (hlive : stmt ∈ s.liveStmts)
    (hd : s.stmt stmt = .vars decl)
    (hr : decl.declarators.find? (fun d => d.name == name) = some removed) :
    (shrink s stmt decl removed name).Owned := by
  have hnamed : (removed.init.toList : Multiset ExprId) + ↑(StmtNode.vars
      ⟨decl.type, decl.declarators.eraseP fun d => d.name == name⟩ :
        StmtNode ExprId StmtId).childExprs = 0 + s.stmtExprsOf stmt := by
    rw [Shader.stmtExprsOf, hd, zero_add, Multiset.coe_add, Multiset.coe_eq_coe]
    exact (inits_eraseP hr).symm
  obtain ⟨hdecls, hnodes⟩ := decls_shrink s stmt decl removed name
  refine ho.of_decls_eq hdecls hnodes (ownsStmts_shrink ho.stmts hlive hd) ?_
  have he := ho.exprs.setStmt hlive hnamed
  exact Shader.OwnsExprs.killExprs
    (h.setStmt (by simp [StmtNode.childStmts]) (lt_size_of_mem_rest h hd hr)) (by rwa [add_zero])

theorem standsIn_shrink (hlive : stmt ∈ s.liveStmts) (hd : s.stmt stmt = .vars decl)
    {block : StmtId} (hin : s.standsIn block stmt = true) :
    (shrink s stmt decl removed name).standsIn block stmt = true := by
  obtain ⟨hblock, -, body, hb, -⟩ := Shader.stmt_eq_block hin
  have hne : stmt ≠ block := by
    rintro rfl
    rw [hd] at hb
    cases hb
  have hlives : ∀ id, (shrink s stmt decl removed name).isStmtLive id = s.isStmtLive id := by
    intro id
    rw [Bool.eq_iff_iff, ← Shader.mem_liveStmts, ← Shader.mem_liveStmts, liveStmts_shrink]
  rw [Shader.standsIn, hlives, hlives, stmt_shrink hlive, if_neg hne]
  exact hin

theorem decls_apply (s : Shader) (stmt : StmtId) (block : Option StmtId) (name : String) :
    (apply s stmt block name).decls = s.decls ∧
      (apply s stmt block name).declNodes = s.declNodes := by
  cases hd : s.stmt stmt with
  | vars decl =>
      cases hr : decl.declarators.find? (fun d => d.name == name) with
      | none =>
          rw [apply, hd]
          dsimp only
          rw [hr]
          exact ⟨rfl, rfl⟩
      | some removed =>
          obtain ⟨hdecls, hnodes⟩ := decls_shrink s stmt decl removed name
          rw [apply_eq hd hr]
          split
          next =>
            cases block with
            | some block =>
                obtain ⟨hdecls', hnodes'⟩ := Shader.decls_removeFromBlock _ block stmt
                exact ⟨hdecls'.trans hdecls, hnodes'.trans hnodes⟩
            | none => exact ⟨hdecls, hnodes⟩
          next => exact ⟨hdecls, hnodes⟩
  | _ =>
      rw [apply, hd]
      exact ⟨rfl, rfl⟩

theorem grounded_apply (h : s.Grounded) {block : Option StmtId}
    (hh : holds s stmt block name = true) : (apply s stmt block name).Grounded := by
  obtain ⟨hlive, ⟨decl, removed, hd, hr⟩, hin⟩ := eq_vars_of_holds hh
  have hg := grounded_shrink h hd hr
  rw [apply_eq hd hr]
  split
  next =>
    cases block with
    | some block => exact hg.removeFromBlock block stmt
    | none => exact hg.setStmt (by simp [StmtNode.childStmts]) (by simp [StmtNode.childExprs])
  next => exact hg

theorem ownsStmts_apply (h : s.Grounded) (ho : s.OwnsStmts 0) {block : Option StmtId}
    (hh : holds s stmt block name = true) : (apply s stmt block name).OwnsStmts 0 := by
  obtain ⟨hlive, ⟨decl, removed, hd, hr⟩, hin⟩ := eq_vars_of_holds hh
  have hg := grounded_shrink h hd hr
  have hos : (shrink s stmt decl removed name).OwnsStmts 0 := ownsStmts_shrink ho hlive hd
  have hlive' : stmt ∈ (shrink s stmt decl removed name).liveStmts := by rwa [liveStmts_shrink]
  have hstmt : (shrink s stmt decl removed name).stmt stmt = _ := stmt_shrink hlive stmt
  rw [apply_eq hd hr]
  split
  next hempty =>
    cases block with
    | some block => exact hos.removeFromBlock hg (standsIn_shrink hlive hd (hin block rfl))
    | none =>
        rw [if_pos rfl] at hstmt
        refine hos.setStmt hlive' ?_
        rw [Shader.stmtPartsOf, Shader.stmtParts, hstmt]
        rfl
  next => exact hos

theorem owned_apply (h : s.Grounded) (ho : s.Owned) {block : Option StmtId}
    (hh : holds s stmt block name = true) : (apply s stmt block name).Owned := by
  have hstmts := ownsStmts_apply h ho.stmts hh
  obtain ⟨hdecls, hnodes⟩ := decls_apply s stmt block name
  obtain ⟨hlive, ⟨decl, removed, hd, hr⟩, hin⟩ := eq_vars_of_holds hh
  have hg := grounded_shrink h hd hr
  have hos := owned_shrink h ho hlive hd hr
  have hlive' : stmt ∈ (shrink s stmt decl removed name).liveStmts := by rwa [liveStmts_shrink]
  have hstmt : (shrink s stmt decl removed name).stmt stmt = _ := stmt_shrink hlive stmt
  refine ho.of_decls_eq hdecls hnodes hstmts ?_
  rw [apply_eq hd hr]
  split
  next hempty =>
    cases block with
    | some block =>
        exact hos.exprs.removeFromBlock hg hos.stmts (standsIn_shrink hlive hd (hin block rfl))
    | none =>
        have hnil := List.isEmpty_iff.mp hempty
        rw [if_pos rfl, hnil] at hstmt
        refine hos.exprs.setStmt hlive' ?_
        rw [Shader.stmtExprsOf, hstmt]
        rfl
  next => exact hos.exprs

end UnusedVariable

/-!
## Unwrapping and slots

Unwrapping a statement of a block puts some of the statements below it in its place. The other parts
are dropped, and its own slot is left.
-/

namespace Unwrap

variable {s : Shader}

/-- A shader in which a statement of a block has given its place to some of the statements below it:
`conds` and `dropped` are the parts that go. -/
def lifted (s : Shader) (block target : StmtId) (body kept dropped : List StmtId)
    (conds : List ExprId) (i : Nat) : Shader :=
  ((s.forgetExprs (conds.flatMap s.exprSlots ++ dropped.flatMap s.stmtExprSlots)).forgetStmts
    (dropped.flatMap s.stmtSlots ++ [target])).setStmt block
      (.block (body.take i ++ kept ++ body.drop (i + 1)))

theorem splice_eq {block target : StmtId} {body : List StmtId} {i : Nat}
    (hb : s.stmt block = .block body) (hi : body.idxOf? target = some i)
    (kept : List StmtId) :
    splice s block target kept =
      s.setStmt block (.block (body.take i ++ kept ++ body.drop (i + 1))) := by
  rw [splice, hb]
  dsimp only
  rw [hi]

/-- What unwrapping comes to: the parts of a statement are kept or dropped, and the kept ones go to
its place. -/
theorem exists_eq_lifted {block target : StmtId} {way : UnwrapWay}
    (h : holds s block target way = true) :
    ∃ body kept dropped i, s.stmt block = .block body ∧ body.idxOf? target = some i ∧
      (s.stmtParts target).Perm (kept ++ dropped) ∧
      apply s block target way =
        lifted s block target body kept dropped (s.stmt target).childExprs i := by
  rw [holds, Bool.and_eq_true] at h
  obtain ⟨-, -, body, hb, hmem⟩ := Shader.stmt_eq_block h.1
  obtain ⟨i, hi⟩ := Option.isSome_iff_exists.mp (List.isSome_idxOf?.mpr hmem)
  refine ⟨body, ?_⟩
  rw [Shader.stmtParts]
  cases ht : s.stmt target with
  | ifElse cond onTrue onFalse =>
      cases onFalse with
      | none =>
          refine ⟨[onTrue], [], i, hb, hi, by simp [StmtNode.childStmts], ?_⟩
          rw [apply, ht]
          cases way <;>
            simp [Shader.killExpr, Shader.forgetStmt, splice_eq, hb, hi, lifted,
              StmtNode.childExprs]
      | some onFalse =>
          cases way with
          | onFalse =>
              refine ⟨[onFalse], [onTrue], i, hb, hi, ?_, ?_⟩
              · exact List.Perm.swap _ _ _
              · rw [apply, ht]
                simp [Shader.killExpr, Shader.forgetStmt, Shader.killStmt, splice_eq, hb, hi, lifted,
                  StmtNode.childExprs, Shader.forgetExprs_forgetExprs,
                  Shader.forgetStmts_forgetStmts]
          | _ =>
              refine ⟨[onTrue], [onFalse], i, hb, hi, by simp [StmtNode.childStmts], ?_⟩
              rw [apply, ht]
              simp [Shader.killExpr, Shader.forgetStmt, Shader.killStmt, splice_eq, hb, hi, lifted,
                StmtNode.childExprs, Shader.forgetExprs_forgetExprs, Shader.forgetStmts_forgetStmts]
  | block inner =>
      refine ⟨inner, [], i, hb, hi, by simp [StmtNode.childStmts], ?_⟩
      rw [apply, ht]
      simp [Shader.forgetStmt, splice_eq, hb, hi, lifted, StmtNode.childExprs]
      rfl
  | _ => cases way <;> simp [fits, ht] at h

variable {block target : StmtId} {body kept dropped : List StmtId} {i : Nat}

theorem split_of_idxOf? (hi : body.idxOf? target = some i) :
    body = body.take i ++ target :: body.drop (i + 1) := by
  obtain ⟨hlt, hget, -⟩ := List.idxOf?_eq_some_iff.mp hi
  rw [← hget, List.getElem_cons_drop, List.take_append_drop]

theorem perm_of_idxOf? (hi : body.idxOf? target = some i) :
    body.Perm (target :: (body.take i ++ body.drop (i + 1))) := by
  conv_lhs => rw [split_of_idxOf? hi]
  exact List.perm_middle

theorem mem_of_mem_lifted {t : StmtId}
    (ht : t ∈ body.take i ++ kept ++ body.drop (i + 1)) : t ∈ kept ∨ t ∈ body := by
  simp only [List.mem_append] at ht
  rcases ht with (ht | ht) | ht
  · exact Or.inr (List.mem_of_mem_take ht)
  · exact Or.inl ht
  · exact Or.inr (List.mem_of_mem_drop ht)

/-- The statements of the block were below it. -/
theorem below_of_mem_lifted (hb : s.stmt block = .block body) (hi : body.idxOf? target = some i)
    (hparts : (s.stmtParts target).Perm (kept ++ dropped)) {t : StmtId}
    (ht : t ∈ body.take i ++ kept ++ body.drop (i + 1)) : s.StmtBelow block t := by
  have hbody : ∀ t ∈ body, t ∈ s.stmtParts block := by
    intro t ht
    rw [Shader.stmtParts, hb]
    exact ht
  have htarget : target ∈ body := (perm_of_idxOf? hi).mem_iff.mpr List.mem_cons_self
  rcases mem_of_mem_lifted ht with ht | ht
  · have hmem : t ∈ s.stmtParts target := hparts.mem_iff.mpr (List.mem_append.mpr (Or.inl ht))
    exact (Shader.stmtBelow_of_mem (hbody target htarget)).tail hmem
  · exact Shader.stmtBelow_of_mem (hbody t ht)

theorem grounded_lifted (h : s.Grounded) (hb : s.stmt block = .block body)
    (hi : body.idxOf? target = some i) (hparts : (s.stmtParts target).Perm (kept ++ dropped))
    (conds : List ExprId) : (lifted s block target body kept dropped conds i).Grounded := by
  refine ((h.forgetExprs _).forgetStmts _).setStmt (fun t ht => ?_) (by simp [StmtNode.childExprs])
  have hbelow := below_of_mem_lifted hb hi hparts ht
  rwa [Shader.StmtBelow, Shader.stmtParts_forgetStmts]

/-- The block and all that goes are live, each once. -/
theorem cons_le_liveStmts (h : s.Grounded) (ho : s.OwnsStmts 0) (hblock : block ∈ s.liveStmts)
    (hb : s.stmt block = .block body) (hi : body.idxOf? target = some i)
    (hparts : (s.stmtParts target).Perm (kept ++ dropped)) :
    block ::ₘ ((dropped.flatMap s.stmtSlots ++ [target] : List StmtId) : Multiset StmtId) ≤
      s.liveStmts := by
  refine le_trans ?_ (ho.stmtSlotsOf_le h hblock)
  have htarget : s.stmtSlotsOf target =
      target ::ₘ (kept + dropped : Multiset StmtId).bind s.stmtSlotsOf := by
    rw [h.stmtSlotsOf_eq, Shader.stmtPartsOf, Multiset.coe_eq_coe.mpr hparts, Multiset.coe_add]
  have hbody : (s.stmtPartsOf block) =
      target ::ₘ (body.take i ++ body.drop (i + 1) : List StmtId) := by
    rw [Shader.stmtPartsOf, Shader.stmtParts, hb, Multiset.cons_coe, Multiset.coe_eq_coe]
    exact perm_of_idxOf? hi
  rw [h.stmtSlotsOf_eq block, hbody, Multiset.cons_bind, htarget, Multiset.add_bind,
    ← Multiset.coe_add, ← Multiset.coe_bind, Multiset.coe_singleton,
    Multiset.add_comm _ ({target} : Multiset StmtId), Multiset.singleton_add]
  refine Multiset.cons_le_cons _ ((Multiset.cons_le_cons _ ?_).trans (Multiset.le_add_right _ _))
  exact Multiset.le_add_left _ _

theorem ownsStmts_lifted (h : s.Grounded) (ho : s.OwnsStmts 0) (hblock : block ∈ s.liveStmts)
    (hb : s.stmt block = .block body) (hi : body.idxOf? target = some i)
    (hparts : (s.stmtParts target).Perm (kept ++ dropped)) (conds : List ExprId) :
    (lifted s block target body kept dropped conds i).OwnsStmts 0 := by
  have hle := cons_le_liveStmts h ho hblock hb hi hparts
  set gone := dropped.flatMap s.stmtSlots with hgone
  set rest := (s.forgetStmts (gone ++ [target])).liveStmts with hrest
  set t := lifted s block target body kept dropped conds i with ht
  have hlive : block ∈ rest := by
    have hnodup := Multiset.nodup_of_le hle (Shader.nodup_liveStmts s)
    rw [hrest, Shader.liveStmts_forgetStmts, Multiset.mem_filter]
    exact ⟨hblock, (Multiset.nodup_cons.mp hnodup).1⟩
  have hsum : rest + ((gone : Multiset StmtId) + {target}) = s.liveStmts := by
    rw [← Multiset.coe_singleton, Multiset.coe_add]
    exact Shader.liveStmts_forgetStmts_add ((Multiset.le_cons_self _ _).trans hle)
  have hforest : Forest s.stmtPartsOf dropped gone := by
    rw [hgone, ← Multiset.coe_bind]
    obtain ⟨rank, hr⟩ := h.stmts
    exact forest_bind_slots h.stmtSlotsOf_eq (fun a b hb => (hr.falls a b hb).2) _
  have hstmt : ∀ id, t.stmt id = if block = id ∧ id.index < s.stmts.size then
      .block (body.take i ++ kept ++ body.drop (i + 1)) else s.stmt id := by
    intro id
    rw [ht, lifted, Shader.stmt_setStmt, Shader.stmt_forgetStmts, Shader.size_stmts_forgetStmts,
      Shader.stmt_forgetExprs]
    rfl
  have hsame : t.stmtPartsOf block = (body.take i ++ kept ++ body.drop (i + 1) : List StmtId) := by
    rw [Shader.stmtPartsOf, Shader.stmtParts, hstmt,
      if_pos ⟨rfl, Shader.lt_size_of_mem_liveStmts hblock⟩]
    rfl
  have hoff : ∀ id ∈ rest, id ≠ block → t.stmtPartsOf id = s.stmtPartsOf id := by
    intro id _ hid
    rw [Shader.stmtPartsOf, Shader.stmtParts, hstmt, if_neg fun hc => hid hc.1.symm]
    rfl
  have hblockParts : s.stmtPartsOf block =
      {target} + (body.take i ++ body.drop (i + 1) : List StmtId) := by
    rw [Shader.stmtPartsOf, Shader.stmtParts, hb, Multiset.singleton_add, Multiset.cons_coe,
      Multiset.coe_eq_coe]
    exact perm_of_idxOf? hi
  have hlive' : t.liveStmts = rest := by
    rw [ht, lifted, Shader.liveStmts_setStmt]
    rfl
  have htargetParts : s.stmtPartsOf target = (kept : Multiset StmtId) + dropped := by
    rw [Shader.stmtPartsOf, Multiset.coe_add, Multiset.coe_eq_coe]
    exact hparts
  rw [Shader.OwnsStmts, hlive']
  refine Forest.revise_at ho hforest hsum (Shader.nodup_liveStmts _) hlive hoff ?_
  change 0 + s.bodyRoots + _ + _ = _
  rw [hsame, hblockParts, Multiset.singleton_bind, htargetParts, ← Multiset.coe_add,
    ← Multiset.coe_add, ← Multiset.coe_add]
  abel

theorem ownsExprs_lifted (h : s.Grounded) (ho : s.Owned) (hblock : block ∈ s.liveStmts)
    (hb : s.stmt block = .block body) (hi : body.idxOf? target = some i)
    (hparts : (s.stmtParts target).Perm (kept ++ dropped)) :
    (lifted s block target body kept dropped (s.stmt target).childExprs i).OwnsExprs 0 := by
  have hle := cons_le_liveStmts h ho.stmts hblock hb hi hparts
  set gone := dropped.flatMap s.stmtSlots ++ [target] with hgone
  have hpending := ho.exprs.forgetStmts ((Multiset.le_cons_self _ _).trans hle)
  have hlive : block ∈ (s.forgetStmts gone).liveStmts := by
    have hnodup := Multiset.nodup_of_le hle (Shader.nodup_liveStmts s)
    rw [Shader.liveStmts_forgetStmts, Multiset.mem_filter]
    exact ⟨hblock, (Multiset.nodup_cons.mp hnodup).1⟩
  have hslots : (((s.stmt target).childExprs.flatMap s.exprSlots ++
      dropped.flatMap s.stmtExprSlots : List ExprId) : Multiset ExprId) =
      ((gone : Multiset StmtId).bind s.stmtExprsOf).bind s.exprSlotsOf := by
    have hdropped : (dropped : Multiset StmtId).bind (fun d => (s.stmtExprSlots d : Multiset _)) =
        (((dropped : Multiset StmtId).bind s.stmtSlotsOf).bind s.stmtExprsOf).bind
          s.exprSlotsOf := by
      rw [Multiset.bind_assoc, Multiset.bind_assoc]
      refine Multiset.bind_congr fun d _ => ?_
      rw [h.coe_stmtExprSlots, Multiset.bind_assoc]
    rw [hgone, ← Multiset.coe_add, ← Multiset.coe_add, ← Multiset.coe_bind, ← Multiset.coe_bind,
      hdropped, ← Multiset.coe_bind, Multiset.coe_singleton, Multiset.add_bind, Multiset.add_bind,
      Multiset.singleton_bind, Multiset.add_comm]
    rfl
  have hg := h.forgetStmts gone
  have hslots' : (((s.stmt target).childExprs.flatMap s.exprSlots ++
      dropped.flatMap s.stmtExprSlots : List ExprId) : Multiset ExprId) =
      ((gone : Multiset StmtId).bind s.stmtExprsOf).bind (s.forgetStmts gone).exprSlotsOf := by
    rw [hslots, Shader.exprSlotsOf_forgetStmts]
  have hforgotten := hpending.forgetExprs (hslots' ▸ hg.forest_exprSlots _)
    (hslots' ▸ hg.le_liveExprs hpending)
  refine Shader.OwnsExprs.setStmt hforgotten hlive ?_
  rw [Shader.stmtExprsOf, Shader.stmt_forgetExprs, Shader.stmt_forgetStmts, hb]
  rfl

theorem grounded_apply (h : s.Grounded) {way : UnwrapWay}
    (hh : holds s block target way = true) : (apply s block target way).Grounded := by
  obtain ⟨body, kept, dropped, i, hb, hi, hparts, heq⟩ := exists_eq_lifted hh
  rw [heq]
  exact grounded_lifted h hb hi hparts _

theorem decls_apply {way : UnwrapWay} (hh : holds s block target way = true) :
    (apply s block target way).decls = s.decls ∧
      (apply s block target way).declNodes = s.declNodes := by
  obtain ⟨body, kept, dropped, i, -, -, -, heq⟩ := exists_eq_lifted hh
  rw [heq]
  exact ⟨rfl, rfl⟩

theorem ownsStmts_apply (h : s.Grounded) (ho : s.OwnsStmts 0) {way : UnwrapWay}
    (hh : holds s block target way = true) : (apply s block target way).OwnsStmts 0 := by
  obtain ⟨body, kept, dropped, i, hb, hi, hparts, heq⟩ := exists_eq_lifted hh
  rw [holds, Bool.and_eq_true] at hh
  rw [heq]
  exact ownsStmts_lifted h ho (Shader.stmt_eq_block hh.1).1 hb hi hparts _

theorem owned_apply (h : s.Grounded) (ho : s.Owned) {way : UnwrapWay}
    (hh : holds s block target way = true) : (apply s block target way).Owned := by
  obtain ⟨body, kept, dropped, i, hb, hi, hparts, heq⟩ := exists_eq_lifted hh
  rw [holds, Bool.and_eq_true] at hh
  have hblock := (Shader.stmt_eq_block hh.1).1
  rw [heq]
  exact ho.of_decls_eq rfl rfl (ownsStmts_lifted h ho.stmts hblock hb hi hparts _)
    (ownsExprs_lifted h ho hblock hb hi hparts)

end Unwrap

end ShaderReducer
