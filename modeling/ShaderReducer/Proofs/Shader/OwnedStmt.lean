import ShaderReducer.Opportunity.Basic
import ShaderReducer.Proofs.Shader.Owned

/-!
# Changes of statements and declarations

Dropping and moving statements keeps all slots owned. A statement that is dropped takes the
expressions in it along; one that is taken out of its block first is pending in between.
-/

namespace ShaderReducer

namespace Shader

variable {s : Shader}

@[simp] theorem exprPartsOf_forgetExprs (s : Shader) (ids : List ExprId) :
    (s.forgetExprs ids).exprPartsOf = s.exprPartsOf := by
  funext id
  rw [exprPartsOf, exprParts_forgetExprs, exprPartsOf]

@[simp] theorem stmtPartsOf_forgetStmts (s : Shader) (ids : List StmtId) :
    (s.forgetStmts ids).stmtPartsOf = s.stmtPartsOf := by
  funext id
  rw [stmtPartsOf, stmtParts_forgetStmts, stmtPartsOf]

@[simp] theorem stmtExprsOf_forgetStmts (s : Shader) (ids : List StmtId) :
    (s.forgetStmts ids).stmtExprsOf = s.stmtExprsOf := by
  funext id
  rw [stmtExprsOf, stmt_forgetStmts, stmtExprsOf]

@[simp] theorem exprSlotsOf_forgetStmts (s : Shader) (ids : List StmtId) :
    (s.forgetStmts ids).exprSlotsOf = s.exprSlotsOf := by
  funext id
  rw [exprSlotsOf, exprSlots_forgetStmts, exprSlotsOf]

/-! ## Dropping -/

/-- Marks a forest of pending expressions dead. -/
theorem OwnsExprs.forgetExprs {ids : List ExprId} {dropped pending : Multiset ExprId}
    (hgone : Forest s.exprPartsOf dropped ids) (hle : (ids : Multiset ExprId) ≤ s.liveExprs)
    (ho : s.OwnsExprs (dropped + pending)) : (s.forgetExprs ids).OwnsExprs pending := by
  rw [OwnsExprs, exprPartsOf_forgetExprs]
  have hsum : (s.forgetExprs ids).liveExprs + (↑ids + 0) = s.liveExprs := by
    rw [add_zero, liveExprs_forgetExprs_add hle]
  refine Forest.revise ho hgone hsum ?_
  change pending + (s.initRoots + s.liveStmts.bind s.stmtExprsOf) + _ + _ = _
  rw [Multiset.zero_bind]
  abel

/-- Marks a forest of pending statements dead. -/
theorem OwnsStmts.forgetStmts {ids : List StmtId} {dropped pending : Multiset StmtId}
    (hgone : Forest s.stmtPartsOf dropped ids) (hle : (ids : Multiset StmtId) ≤ s.liveStmts)
    (ho : s.OwnsStmts (dropped + pending)) : (s.forgetStmts ids).OwnsStmts pending := by
  rw [OwnsStmts, stmtPartsOf_forgetStmts]
  have hsum : (s.forgetStmts ids).liveStmts + (↑ids + 0) = s.liveStmts := by
    rw [add_zero, liveStmts_forgetStmts_add hle]
  refine Forest.revise ho hgone hsum ?_
  change pending + s.bodyRoots + _ + _ = _
  rw [Multiset.zero_bind]
  abel

/-- The expressions of statements that are marked dead are pending. -/
theorem OwnsExprs.forgetStmts {ids : List StmtId} {pending : Multiset ExprId}
    (hle : (ids : Multiset StmtId) ≤ s.liveStmts) (ho : s.OwnsExprs pending) :
    (s.forgetStmts ids).OwnsExprs ((ids : Multiset StmtId).bind s.stmtExprsOf + pending) := by
  have hsum := liveStmts_forgetStmts_add hle
  rw [OwnsExprs, ← hsum, Multiset.add_bind] at ho
  rw [OwnsExprs, stmtExprsOf_forgetStmts]
  change Forest s.exprPartsOf (_ + (s.initRoots + _)) s.liveExprs
  convert ho using 1
  abel

theorem Grounded.le_liveExprs (h : s.Grounded) {dropped pending : Multiset ExprId}
    (ho : s.OwnsExprs (dropped + pending)) : dropped.bind s.exprSlotsOf ≤ s.liveExprs := by
  rw [ho.liveExprs_eq h, add_assoc, Multiset.add_bind]
  exact Multiset.le_add_right _ _

/-- Drops expressions that were pending. -/
theorem OwnsExprs.killExprs (h : s.Grounded) {ids : List ExprId} {pending : Multiset ExprId}
    (ho : s.OwnsExprs (ids + pending)) : (s.killExprs ids).OwnsExprs pending := by
  have hcoe : ((ids : Multiset ExprId).bind s.exprSlotsOf) = (ids.flatMap s.exprSlots : List _) :=
    Multiset.coe_bind _ _
  rw [killExprs_eq]
  exact ho.forgetExprs (hcoe ▸ h.forest_exprSlots ids) (hcoe ▸ h.le_liveExprs ho)

/-- Drops a statement that was pending. -/
theorem OwnsStmts.killStmt (h : s.Grounded) {id : StmtId} {pending : Multiset StmtId}
    (ho : s.OwnsStmts ({id} + pending)) : (s.killStmt id).OwnsStmts pending := by
  have hlive : id ∈ s.liveStmts := ho.mem_of_mem_roots (by simp)
  exact OwnsStmts.forgetStmts (s := s.forgetExprs _) (h.forest_stmtSlots id)
    (ho.stmtSlotsOf_le h hlive) ho

/-- A statement that is dropped takes its expressions along. -/
theorem OwnsExprs.killStmt (h : s.Grounded) {id : StmtId} {stmts : Multiset StmtId}
    (hs : s.OwnsStmts stmts) (hid : id ∈ s.liveStmts) {pending : Multiset ExprId}
    (ho : s.OwnsExprs pending) : (s.killStmt id).OwnsExprs pending := by
  have hforgotten := ho.forgetStmts (hs.stmtSlotsOf_le h hid)
  have hg := h.forgetStmts (s.stmtSlots id)
  have hslots : (s.stmtExprSlots id : Multiset ExprId) =
      ((s.stmtSlotsOf id).bind s.stmtExprsOf).bind (s.forgetStmts (s.stmtSlots id)).exprSlotsOf := by
    rw [h.coe_stmtExprSlots, exprSlotsOf_forgetStmts]
  have hcomm : s.killStmt id = (s.forgetStmts (s.stmtSlots id)).forgetExprs (s.stmtExprSlots id) :=
    rfl
  rw [hcomm]
  exact hforgotten.forgetExprs (hslots ▸ hg.forest_exprSlots _) (hslots ▸ hg.le_liveExprs hforgotten)

/-! ## Changing one statement -/

/-- Puts another node into the slot of a live statement. What it names and did not name before was
pending, and what it no longer names is pending. -/
theorem OwnsStmts.setStmt {pending pending' : Multiset StmtId} (ho : s.OwnsStmts pending)
    {id : StmtId} (hid : id ∈ s.liveStmts) {node : StmtNode ExprId StmtId}
    (hnamed : pending' + node.childStmts = pending + s.stmtPartsOf id) :
    (s.setStmt id node).OwnsStmts pending' := by
  have hsame : (s.setStmt id node).stmtPartsOf id = node.childStmts := by
    rw [stmtPartsOf, stmtParts, stmt_setStmt, if_pos ⟨rfl, lt_size_of_mem_liveStmts hid⟩]
  have hupdate : s.liveStmts.bind (s.setStmt id node).stmtPartsOf + s.stmtPartsOf id =
      s.liveStmts.bind s.stmtPartsOf + (s.setStmt id node).stmtPartsOf id := by
    refine bind_add_of_eq_off (nodup_liveStmts s) hid fun t _ ht => ?_
    rw [stmtPartsOf, stmtParts, stmt_setStmt, if_neg fun hc => ht hc.1.symm]
    rfl
  rw [hsame] at hupdate
  rw [OwnsStmts, Forest, liveStmts_setStmt]
  rw [OwnsStmts, Forest] at ho
  change pending' + s.bodyRoots + _ = _
  ext a
  have hcount := congrArg (Multiset.count a) hupdate
  have hcount' := congrArg (Multiset.count a) hnamed
  have hcount'' := congrArg (Multiset.count a) ho
  simp only [Multiset.count_add] at hcount hcount' hcount'' ⊢
  omega

/-- Puts another node into the slot of a live statement. What it names and did not name before was
pending, and what it no longer names is pending. -/
theorem OwnsExprs.setStmt {pending pending' : Multiset ExprId} (ho : s.OwnsExprs pending)
    {id : StmtId} (hid : id ∈ s.liveStmts) {node : StmtNode ExprId StmtId}
    (hnamed : pending' + node.childExprs = pending + s.stmtExprsOf id) :
    (s.setStmt id node).OwnsExprs pending' := by
  have hsame : (s.setStmt id node).stmtExprsOf id = node.childExprs := by
    rw [stmtExprsOf, stmt_setStmt, if_pos ⟨rfl, lt_size_of_mem_liveStmts hid⟩]
  have hupdate : s.liveStmts.bind (s.setStmt id node).stmtExprsOf + s.stmtExprsOf id =
      s.liveStmts.bind s.stmtExprsOf + (s.setStmt id node).stmtExprsOf id := by
    refine bind_add_of_eq_off (nodup_liveStmts s) hid fun t _ ht => ?_
    rw [stmtExprsOf, stmt_setStmt, if_neg fun hc => ht hc.1.symm]
    rfl
  rw [hsame] at hupdate
  rw [OwnsExprs, Forest, liveStmts_setStmt]
  rw [OwnsExprs, Forest] at ho
  change pending' + (s.initRoots + _) + s.liveExprs.bind s.exprPartsOf = s.liveExprs
  ext a
  have hcount := congrArg (Multiset.count a) hupdate
  have hcount' := congrArg (Multiset.count a) hnamed
  have hcount'' := congrArg (Multiset.count a) ho
  simp only [Multiset.count_add] at hcount hcount' hcount'' ⊢
  omega

/-! ## New statements -/

/-- Puts a statement into a new slot. The slot is pending, and the statements below it no longer
are. -/
theorem OwnsStmts.addStmt {pending : Multiset StmtId} {node : StmtNode ExprId StmtId}
    (ho : s.OwnsStmts (node.childStmts + pending)) :
    (s.addStmt node).2.OwnsStmts ((s.addStmt node).1 ::ₘ pending) := by
  have hnew : (s.addStmt node).2.stmtPartsOf (s.addStmt node).1 = node.childStmts := by
    rw [stmtPartsOf, stmtParts, stmt_addStmt_self]
  have hold : s.liveStmts.bind (s.addStmt node).2.stmtPartsOf = s.liveStmts.bind s.stmtPartsOf := by
    refine Multiset.bind_congr fun id hid => ?_
    rw [stmtPartsOf, stmtParts, stmt_addStmt_of_lt s node (lt_size_of_mem_liveStmts hid)]
    rfl
  rw [OwnsStmts, Forest, liveStmts_addStmt, Multiset.cons_bind, hnew, hold]
  change _ ::ₘ pending + s.bodyRoots + _ = _
  rw [OwnsStmts, Forest] at ho
  rw [← Multiset.singleton_add, ← Multiset.singleton_add]
  conv_rhs => rw [← ho]
  abel

/-- The expressions of a new statement are no longer pending. -/
theorem OwnsExprs.addStmt {pending : Multiset ExprId} {node : StmtNode ExprId StmtId}
    (ho : s.OwnsExprs (node.childExprs + pending)) : (s.addStmt node).2.OwnsExprs pending := by
  have hnew : (s.addStmt node).2.stmtExprsOf (s.addStmt node).1 = node.childExprs := by
    rw [stmtExprsOf, stmt_addStmt_self]
  have hold : s.liveStmts.bind (s.addStmt node).2.stmtExprsOf = s.liveStmts.bind s.stmtExprsOf := by
    refine Multiset.bind_congr fun id hid => ?_
    rw [stmtExprsOf, stmt_addStmt_of_lt s node (lt_size_of_mem_liveStmts hid)]
    rfl
  have hroots : pending + (s.initRoots + (node.childExprs + s.liveStmts.bind s.stmtExprsOf)) =
      node.childExprs + pending + (s.initRoots + s.liveStmts.bind s.stmtExprsOf) := by
    abel
  rw [OwnsExprs, liveStmts_addStmt, Multiset.cons_bind, hnew, hold]
  change Forest s.exprPartsOf (pending + (s.initRoots + _)) s.liveExprs
  rw [hroots]
  exact ho

/-! ## Taking a statement out of a block -/

theorem stmt_eq_block {block stmt : StmtId} (h : s.standsIn block stmt = true) :
    block ∈ s.liveStmts ∧ stmt ∈ s.liveStmts ∧
      ∃ body, s.stmt block = .block body ∧ stmt ∈ body := by
  simp only [standsIn, Bool.and_eq_true] at h
  obtain ⟨⟨hblock, hstmt⟩, hbody⟩ := h
  refine ⟨mem_liveStmts.mpr hblock, mem_liveStmts.mpr hstmt, ?_⟩
  split at hbody
  next body hb => exact ⟨body, hb, by simpa using hbody⟩
  next => exact absurd hbody Bool.false_ne_true

theorem removeFromBlock_eq {block stmt : StmtId} {body : List StmtId}
    (hb : s.stmt block = .block body) (hs : stmt ∈ body) :
    (s.removeFromBlock block stmt).2 =
      (s.setStmt block (.block (body.erase stmt))).killStmt stmt := by
  simp [removeFromBlock, hb, hs]

theorem Grounded.removeFromBlock (h : s.Grounded) (block stmt : StmtId) :
    (s.removeFromBlock block stmt).2.Grounded := by
  rw [Shader.removeFromBlock]
  split
  next body hb =>
    split
    next =>
      refine (h.setStmt (fun c hc => stmtBelow_of_mem ?_) (by simp [StmtNode.childExprs])).killStmt _
      rw [stmtParts, hb]
      exact List.mem_of_mem_erase hc
    next => exact h
  next => exact h

theorem OwnsStmts.removeFromBlock (h : s.Grounded) {pending : Multiset StmtId}
    (ho : s.OwnsStmts pending) {block stmt : StmtId} (hs : s.standsIn block stmt = true) :
    (s.removeFromBlock block stmt).2.OwnsStmts pending := by
  obtain ⟨hlive, -, body, hb, hmem⟩ := stmt_eq_block hs
  rw [removeFromBlock_eq hb hmem]
  refine OwnsStmts.killStmt (h.setStmt (fun c hc => stmtBelow_of_mem ?_) ?_) ?_
  · rw [stmtParts, hb]
    exact List.mem_of_mem_erase hc
  · simp [StmtNode.childExprs]
  · refine ho.setStmt hlive ?_
    have hperm : (body : Multiset StmtId) = {stmt} + ↑(body.erase stmt) := by
      rw [Multiset.singleton_add, Multiset.cons_coe, Multiset.coe_eq_coe]
      exact List.perm_cons_erase hmem
    rw [stmtPartsOf, stmtParts, hb, StmtNode.childStmts, StmtNode.childStmts, hperm]
    abel

theorem OwnsExprs.removeFromBlock (h : s.Grounded) {stmts : Multiset StmtId}
    (hs : s.OwnsStmts stmts) {pending : Multiset ExprId} (ho : s.OwnsExprs pending)
    {block stmt : StmtId} (hin : s.standsIn block stmt = true) :
    (s.removeFromBlock block stmt).2.OwnsExprs pending := by
  obtain ⟨hlive, hstmt, body, hb, hmem⟩ := stmt_eq_block hin
  have hperm : (body : Multiset StmtId) = {stmt} + ↑(body.erase stmt) := by
    rw [Multiset.singleton_add, Multiset.cons_coe, Multiset.coe_eq_coe]
    exact List.perm_cons_erase hmem
  have hs' : (s.setStmt block (.block (body.erase stmt))).OwnsStmts ({stmt} + stmts) := by
    refine hs.setStmt hlive ?_
    rw [stmtPartsOf, stmtParts, hb, StmtNode.childStmts, StmtNode.childStmts, hperm]
    abel
  rw [removeFromBlock_eq hb hmem]
  refine OwnsExprs.killStmt (h.setStmt (fun c hc => stmtBelow_of_mem ?_) ?_) hs' ?_
    (ho.setStmt hlive ?_)
  · rw [stmtParts, hb]
    exact List.mem_of_mem_erase hc
  · simp [StmtNode.childExprs]
  · rwa [liveStmts_setStmt]
  · rw [stmtExprsOf, hb]
    rfl

/-! ## Changing the declarations -/

theorem OwnsStmts.of_stmts_eq {t : Shader} {pending pending' : Multiset StmtId}
    (ho : s.OwnsStmts pending) (hstmts : t.stmts = s.stmts)
    (hroots : pending' + t.bodyRoots = pending + s.bodyRoots) : t.OwnsStmts pending' := by
  have hparts : t.stmtPartsOf = s.stmtPartsOf := by
    funext id
    rw [stmtPartsOf, stmtParts, stmt, hstmts]
    rfl
  rw [OwnsStmts, hparts, hroots, liveStmts, hstmts]
  exact ho

theorem OwnsExprs.of_exprs_eq {t : Shader} {pending pending' : Multiset ExprId}
    (ho : s.OwnsExprs pending) (hexprs : t.exprs = s.exprs) (hstmts : t.stmts = s.stmts)
    (hroots : pending' + t.initRoots = pending + s.initRoots) : t.OwnsExprs pending' := by
  have hparts : t.exprPartsOf = s.exprPartsOf := by
    funext id
    rw [exprPartsOf, exprParts, expr, hexprs]
    rfl
  have hown : t.stmtExprsOf = s.stmtExprsOf := by
    funext id
    rw [stmtExprsOf, stmt, hstmts]
    rfl
  rw [OwnsExprs, hparts, hown, ← add_assoc, hroots, liveStmts, hstmts, liveExprs, hexprs, add_assoc]
  exact ho

/-- Another declaration may be put into the place of one with the same body and initial values. -/
theorem roots_setDecl (s : Shader) {id : DeclId} {node : Decl ExprId StmtId}
    (hbodies : node.bodies = (s.decl id).bodies) (hinits : node.inits = (s.decl id).inits) :
    (s.setDecl id node).bodyRoots = s.bodyRoots ∧ (s.setDecl id node).initRoots = s.initRoots := by
  have hdecl : ∀ d, ((s.setDecl id node).decl d).bodies = (s.decl d).bodies ∧
      ((s.setDecl id node).decl d).inits = (s.decl d).inits := by
    intro d
    rw [decl_setDecl]
    split
    next hd => rw [← hd.1]; exact ⟨hbodies, hinits⟩
    next => exact ⟨rfl, rfl⟩
  exact ⟨Multiset.bind_congr fun d _ => by rw [(hdecl d).1],
    Multiset.bind_congr fun d _ => by rw [(hdecl d).2]⟩

/-- Takes a declaration off the list; what it names is pending. -/
def dropDecl (s : Shader) (id : DeclId) : Shader :=
  { s with decls := s.decls.erase id }

theorem OwnsStmts.dropDecl (ho : s.OwnsStmts 0) {id : DeclId} (hid : id ∈ s.decls) :
    (s.dropDecl id).OwnsStmts (s.decl id).bodies := by
  have hperm : (s.decls : Multiset DeclId) = id ::ₘ (s.decls.erase id : List DeclId) := by
    rw [Multiset.cons_coe, Multiset.coe_eq_coe]
    exact List.perm_cons_erase hid
  have hroots : s.bodyRoots = (s.decl id).bodies + (s.dropDecl id).bodyRoots := by
    rw [bodyRoots, hperm, Multiset.cons_bind]
    rfl
  exact ho.of_stmts_eq rfl (by rw [zero_add, hroots])

theorem OwnsExprs.dropDecl (ho : s.OwnsExprs 0) {id : DeclId} (hid : id ∈ s.decls) :
    (s.dropDecl id).OwnsExprs (s.decl id).inits := by
  have hperm : (s.decls : Multiset DeclId) = id ::ₘ (s.decls.erase id : List DeclId) := by
    rw [Multiset.cons_coe, Multiset.coe_eq_coe]
    exact List.perm_cons_erase hid
  have hroots : s.initRoots = (s.decl id).inits + (s.dropDecl id).initRoots := by
    rw [initRoots, hperm, Multiset.cons_bind]
    rfl
  exact ho.of_exprs_eq rfl rfl (by rw [zero_add, hroots])

theorem Grounded.killContents (h : s.Grounded) (d : Decl ExprId StmtId) :
    (s.killContents d).Grounded := by
  cases d with
  | function decl =>
      rw [Shader.killContents]
      cases decl.body with
      | none => exact h
      | some body => exact h.killStmt body
  | vars decl => exact h.killExprs _
  | _ => exact h

/-- Dropping what a declaration named leaves no statement pending. -/
theorem OwnsStmts.killContents (h : s.Grounded) {d : Decl ExprId StmtId}
    (hs : s.OwnsStmts d.bodies) : (s.killContents d).OwnsStmts 0 := by
  cases d with
  | function decl =>
      rw [Shader.killContents]
      rw [Decl.bodies] at hs
      cases hb : decl.body with
      | none =>
          rw [hb] at hs
          exact hs
      | some body =>
          rw [hb] at hs
          exact OwnsStmts.killStmt h hs
  | vars decl =>
      rw [Shader.killContents, killExprs_eq]
      exact hs
  | _ => exact hs

/-- Dropping what a declaration named leaves no expression pending. -/
theorem OwnsExprs.killContents (h : s.Grounded) {d : Decl ExprId StmtId}
    (hs : s.OwnsStmts d.bodies) (he : s.OwnsExprs d.inits) : (s.killContents d).OwnsExprs 0 := by
  cases d with
  | function decl =>
      rw [Shader.killContents]
      rw [Decl.bodies] at hs
      cases hb : decl.body with
      | none => exact he
      | some body =>
          rw [hb] at hs
          exact OwnsExprs.killStmt h hs (hs.mem_of_mem_roots (by simp)) he
  | vars decl => exact OwnsExprs.killExprs h (by rw [add_zero]; exact he)
  | _ => exact he

theorem killContents_decls (s : Shader) (d : Decl ExprId StmtId) :
    (s.killContents d).decls = s.decls ∧ (s.killContents d).declNodes = s.declNodes := by
  cases d with
  | function decl =>
      rw [Shader.killContents]
      cases decl.body <;> exact ⟨rfl, rfl⟩
  | vars decl =>
      rw [Shader.killContents, killExprs_eq]
      exact ⟨rfl, rfl⟩
  | _ => exact ⟨rfl, rfl⟩

theorem removeDecl_eq {id : DeclId} (hid : id ∈ s.decls) :
    (s.removeDecl id).2 =
      { (s.dropDecl id).killContents (s.decl id) with
        declNodes := s.declNodes.kill id.index } := by
  have hnodes : ((s.dropDecl id).killContents (s.decl id)).declNodes = s.declNodes :=
    (killContents_decls (s.dropDecl id) (s.decl id)).2
  have hremoved : (s.removeDecl id).2 =
      { (s.dropDecl id).killContents (s.decl id) with
        declNodes := ((s.dropDecl id).killContents (s.decl id)).declNodes.kill id.index } := by
    rw [removeDecl, if_pos (by simpa using hid)]
    rfl
  rw [hremoved, hnodes]

@[simp] theorem decl_removeDecl (s : Shader) (id : DeclId) : (s.removeDecl id).2.decl = s.decl := by
  by_cases hid : id ∈ s.decls
  · funext d
    rw [removeDecl_eq hid, decl, Arena.get?_kill, decl]
  · rw [removeDecl, if_neg (by simpa using hid)]

@[simp] theorem decls_removeDecl (s : Shader) (id : DeclId) :
    (s.removeDecl id).2.decls = s.decls.erase id := by
  by_cases hid : id ∈ s.decls
  · rw [removeDecl_eq hid]
    exact (killContents_decls (s.dropDecl id) (s.decl id)).1
  · rw [removeDecl, if_neg (by simpa using hid), List.erase_of_not_mem hid]

theorem Grounded.killDecl (h : s.Grounded) (i : Nat) :
    ({ s with declNodes := s.declNodes.kill i } : Shader).Grounded := by
  refine h.congr rfl rfl rfl rfl ?_
  funext d
  simp [decl]

theorem Grounded.dropDecl (h : s.Grounded) (id : DeclId) : (s.dropDecl id).Grounded :=
  h.congr rfl rfl rfl rfl rfl

theorem Grounded.removeDecl (h : s.Grounded) (id : DeclId) : (s.removeDecl id).2.Grounded := by
  by_cases hid : id ∈ s.decls
  · have hnodes : s.declNodes = ((s.dropDecl id).killContents (s.decl id)).declNodes :=
      (killContents_decls (s.dropDecl id) (s.decl id)).2.symm
    rw [removeDecl_eq hid, hnodes]
    exact ((h.dropDecl id).killContents _).killDecl _
  · rw [Shader.removeDecl, if_neg (by simpa using hid)]
    exact h

theorem decl_removeDecl_eq (id : DeclId) :
    (s.removeDecl id).2.decl = ((s.dropDecl id).killContents (s.decl id)).decl := by
  rw [decl_removeDecl]
  funext d
  rw [decl, decl, (killContents_decls _ _).2]
  rfl

/-- Taking a declaration away keeps all statements owned. -/
theorem OwnsStmts.removeDecl (h : s.Grounded) (ho : s.OwnsStmts 0) {id : DeclId}
    (hid : id ∈ s.decls) : (s.removeDecl id).2.OwnsStmts 0 := by
  have hdecl := s.decl_removeDecl_eq id
  rw [removeDecl_eq hid] at hdecl ⊢
  refine (OwnsStmts.killContents (h.dropDecl id) (ho.dropDecl hid)).of_stmts_eq rfl ?_
  rw [bodyRoots, bodyRoots, hdecl]

/-- Taking a declaration away keeps all slots owned. -/
theorem Owned.removeDecl (h : s.Grounded) (ho : s.Owned) {id : DeclId} (hid : id ∈ s.decls) :
    (s.removeDecl id).2.Owned := by
  have hexprs :=
    OwnsExprs.killContents (h.dropDecl id) (ho.stmts.dropDecl hid) (ho.exprs.dropDecl hid)
  have hdecls := (killContents_decls (s.dropDecl id) (s.decl id)).1
  have hdecl := s.decl_removeDecl_eq id
  refine ⟨?_, ho.stmts.removeDecl h hid, ?_⟩
  · rw [removeDecl_eq hid]
    refine ⟨?_, fun d => ?_⟩
    · change ((s.dropDecl id).killContents (s.decl id)).decls.Nodup
      rw [hdecls]
      exact ho.decls.nodup.erase id
    · change (s.declNodes.kill id.index).isLive d.index = true ↔
        d ∈ ((s.dropDecl id).killContents (s.decl id)).decls
      rw [hdecls, Arena.isLive_kill, Bool.and_eq_true, ho.decls.isLive_iff, bne_iff_ne]
      change _ ↔ d ∈ s.decls.erase id
      rw [ho.decls.nodup.mem_erase_iff, and_comm]
      refine and_congr_left fun _ => ?_
      cases d
      cases id
      simp [eq_comm]
  · rw [removeDecl_eq hid] at hdecl ⊢
    refine hexprs.of_exprs_eq rfl rfl ?_
    rw [initRoots, initRoots, hdecl]

/-! ## All slots together -/

theorem Owned.of_decls_eq {t : Shader} (ho : s.Owned) (hdecls : t.decls = s.decls)
    (hnodes : t.declNodes = s.declNodes) (hs : t.OwnsStmts 0) (he : t.OwnsExprs 0) : t.Owned := by
  refine ⟨⟨?_, ?_⟩, hs, he⟩
  · rw [hdecls]
    exact ho.decls.nodup
  · rw [hdecls, hnodes]
    exact ho.decls.isLive_iff

theorem bodyRoots_congr {t : Shader} (hdecls : t.decls = s.decls) (hnodes : t.declNodes = s.declNodes) :
    t.bodyRoots = s.bodyRoots := by
  have hdecl : t.decl = s.decl := by
    funext d
    rw [decl, hnodes, decl]
  rw [bodyRoots, hdecls, hdecl, bodyRoots]

/-- A change of expressions only keeps all statements owned. -/
theorem OwnsStmts.congr {t : Shader} (ho : s.OwnsStmts 0)
    (hdecls : t.decls = s.decls ∧ t.declNodes = s.declNodes) (hstmts : t.stmts = s.stmts) :
    t.OwnsStmts 0 :=
  ho.of_stmts_eq hstmts (by rw [bodyRoots_congr hdecls.1 hdecls.2])

/-- A change of expressions only keeps all slots owned if it keeps those of expressions so. -/
theorem Owned.of_ownsExprs {t : Shader} (ho : s.Owned) (hdecls : t.decls = s.decls)
    (hnodes : t.declNodes = s.declNodes) (hstmts : t.stmts = s.stmts) (he : t.OwnsExprs 0) :
    t.Owned :=
  ho.of_decls_eq hdecls hnodes (ho.stmts.congr ⟨hdecls, hnodes⟩ hstmts) he

theorem decls_replaceWithChild (s : Shader) (target child : ExprId) :
    (s.replaceWithChild target child).decls = s.decls ∧
      (s.replaceWithChild target child).declNodes = s.declNodes := by
  rw [replaceWithChild_eq]
  exact ⟨by simp, by simp⟩

theorem stmts_replaceWithChild (s : Shader) (target child : ExprId) :
    (s.replaceWithChild target child).stmts = s.stmts := by
  rw [replaceWithChild_eq, stmts_setExpr, stmts_forgetExprs]

theorem decls_removeFromBlock (s : Shader) (block stmt : StmtId) :
    (s.removeFromBlock block stmt).2.decls = s.decls ∧
      (s.removeFromBlock block stmt).2.declNodes = s.declNodes := by
  rw [removeFromBlock]
  split
  next => split <;> exact ⟨rfl, rfl⟩
  next => exact ⟨rfl, rfl⟩

theorem Owned.replaceWithChild (h : s.Grounded) (ho : s.Owned) {target child : ExprId}
    (ht : target ∈ s.liveExprs) (hc : child ∈ s.exprParts target) :
    (s.replaceWithChild target child).Owned := by
  have he := ho.exprs.replaceWithChild h ht hc
  rw [replaceWithChild_eq] at he ⊢
  exact ho.of_ownsExprs (by simp) (by simp) (by simp) he

theorem Owned.removeFromBlock (h : s.Grounded) (ho : s.Owned) {block stmt : StmtId}
    (hin : s.standsIn block stmt = true) : (s.removeFromBlock block stmt).2.Owned :=
  ho.of_decls_eq (decls_removeFromBlock s block stmt).1 (decls_removeFromBlock s block stmt).2
    (ho.stmts.removeFromBlock h hin) (ho.exprs.removeFromBlock h ho.stmts hin)

end Shader

end ShaderReducer
