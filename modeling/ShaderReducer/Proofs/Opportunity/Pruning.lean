import ShaderReducer.Proofs.Opportunity.Pruned

/-!
# How changes prune a shader

One change after the other is tried on a shader, all of them found in the shader that was there at
first. After each of them, every slot that is still live holds what the changes so far leave in it,
whether they were made or were stale. A statement that is live stands where it stood at first, for a
change that prunes moves nothing.
-/

namespace ShaderReducer

/-! ## What a change is about -/

namespace OpportunityKind

/-- The kinds of changes that prune. -/
def prunes : OpportunityKind → Bool
  | removeDeclaration | removeStmt | removeVariable | exprToConstant => true
  | compoundExprToSubExpr | inlineStructifiedField | unwrapStmt => false

end OpportunityKind

/-- A change that prunes, and the nodes that it is about: a statement stands in its block, a
declaration in its block or at the start of a loop, and an expression is no literal. -/
inductive Change.Prunes (s : Shader) : Change → Prop
  | removeDecl (d : DeclId) : Prunes s (.removeDecl d)
  | removeStmt {block stmt : StmtId} (hin : s.standsIn block stmt = true) :
    Prunes s (.removeStmt block stmt)
  | removeLocal {block stmt : StmtId} {decl : VarDecl ExprId} (hin : s.standsIn block stmt = true)
    (hvars : s.stmt stmt = .vars decl) (name : String) :
    Prunes s (.removeVariable stmt (some block) name)
  | removeCounter {loop stmt body : StmtId} {cond step : Option ExprId} {decl : VarDecl ExprId}
    (hlive : loop ∈ s.liveStmts) (hloop : s.stmt loop = .forLoop stmt cond step body)
    (hvars : s.stmt stmt = .vars decl) (name : String) : Prunes s (.removeVariable stmt none name)
  | toConstant {target : ExprId} (hlt : target.index < s.exprs.size)
    (hliteral : ∀ value, s.expr target ≠ .literal value) (constant : Constant) :
    Prunes s (.toConstant target constant)

namespace Constant

variable {s t : Shader} {constant : Constant} {target : ExprId}

theorem isAt_scalar_iff {value : Literal} :
    (scalar value).isAt s target = true ↔ s.expr target = .literal value := by
  cases hexpr : s.expr target with
  | literal value' =>
      simp only [isAt, hexpr, beq_iff_eq, ExprNode.literal.injEq]
      exact eq_comm
  | _ => simp [isAt, hexpr]

theorem isAt_vector_iff {constructor : String} {element : Literal} :
    (vector constructor element).isAt s target = true ↔
      ∃ arg, s.expr target = .call constructor [arg] ∧ s.expr arg = .literal element := by
  cases hexpr : s.expr target with
  | call callee args =>
      match args with
      | [] => simp [isAt, hexpr]
      | [arg] => cases harg : s.expr arg <;> simp [isAt, hexpr, harg]
      | _ :: _ :: _ => simp [isAt, hexpr]
  | _ => simp [isAt, hexpr]

theorem isAt_congr (h : t.expr = s.expr) (constant : Constant) (target : ExprId) :
    constant.isAt t target = constant.isAt s target := by
  unfold isAt
  rw [h]

/-- The constant is there after it was put there. -/
theorem isAt_apply (hlive : target ∈ s.liveExprs) :
    constant.isAt (apply s target constant) target = true := by
  have htarget : (apply s target constant).expr target = constant.node ⟨s.exprs.size⟩ := by
    rw [expr_apply (Shader.lt_size_of_mem_liveExprs hlive), if_pos rfl]
  cases constant with
  | scalar value => exact isAt_scalar_iff.mpr htarget
  | vector constructor element =>
      refine isAt_vector_iff.mpr ⟨_, htarget, ?_⟩
      have hne : target ≠ ⟨s.exprs.size⟩ := by
        rintro rfl
        exact Nat.lt_irrefl _ (Shader.lt_size_of_mem_liveExprs hlive)
      rw [apply_vector, Shader.replaceWithLeaf_eq, Shader.expr_setExpr, Shader.expr_forgetExprs,
        if_neg fun hc => hne hc.1]
      exact Shader.expr_addExpr_self s _

/-- The tree of a constant. -/
def tree : Constant → Expr Unit
  | scalar value => .node () (.literal value)
  | vector constructor element => .node () (.call constructor [.node () (.literal element)])

theorem erase_exprTree_of_isAt (h : s.Grounded) (hat : constant.isAt s target = true) :
    (s.exprTree target).erase = constant.tree := by
  cases constant with
  | scalar value =>
      rw [h.exprTree_eq, isAt_scalar_iff.mp hat]
      rfl
  | vector constructor element =>
      obtain ⟨arg, hcall, harg⟩ := isAt_vector_iff.mp hat
      rw [h.exprTree_eq, hcall, ExprNode.map, List.map_singleton, h.exprTree_eq arg, harg]
      rfl

end Constant

namespace Shader

variable {s t t' : Shader} {c : Change} {cs : List Change}

/-! ## The shader after some changes -/

/-- A shader that comes from another one by changes that prune it, tried in some order. -/
structure PrunedBy (s : Shader) (cs : List Change) (t : Shader) : Prop where
  grounded : t.Grounded
  owned : t.Owned
  version : t.version = s.version
  decl : t.decl = s.decl
  decls : t.decls = s.decls.filter fun d => !cs.contains (.removeDecl d)
  size_le : s.exprs.size ≤ t.exprs.size
  stmts : ∀ id ∈ t.liveStmts, id ∈ s.liveStmts ∧ t.stmt id = s.pruned cs id
  exprs : ∀ id ∈ t.liveExprs, id.index < s.exprs.size → (∀ constant, .toConstant id constant ∉ cs) →
    t.expr id = s.expr id
  constants : ∀ id ∈ t.liveExprs, ∀ constant, .toConstant id constant ∈ cs →
    constant.isAt t id = true

theorem prunedBy_nil (h : s.Grounded) (ho : s.Owned) : s.PrunedBy [] s where
  grounded := h
  owned := ho
  version := rfl
  decl := rfl
  decls := (List.filter_eq_self.mpr fun _ _ => rfl).symm
  size_le := Nat.le_refl _
  stmts _ hid := ⟨hid, by rw [pruned_nil]⟩
  exprs _ _ _ _ := rfl
  constants _ _ _ h := absurd h List.not_mem_nil

/-- A statement is named by one node only. -/
theorem Owned.parent_unique (h : s.Grounded) (ho : s.Owned) {n n' : NodeId} (hn : s.Reaches n)
    (hn' : s.Reaches n') {stmt : StmtId} (hstmt : stmt ∈ s.stmtsIn n) (hstmt' : stmt ∈ s.stmtsIn n') :
    n = n' := by
  obtain ⟨place, -, hunique⟩ := ho.existsUnique_stmt h (.stmt hn hstmt)
  obtain ⟨i, hi⟩ := List.mem_iff_getElem?.mp hstmt
  obtain ⟨i', hi'⟩ := List.mem_iff_getElem?.mp hstmt'
  exact congrArg Prod.fst ((hunique (n, i) ⟨hn, hi⟩).trans (hunique (n', i') ⟨hn', hi'⟩).symm)

theorem Owned.reaches_stmt (h : s.Grounded) (ho : s.Owned) {id : StmtId} (hid : id ∈ s.liveStmts) :
    s.Reaches (.stmt id) :=
  (ho.isLive_iff_reaches h (.stmt id)).mp (mem_liveStmts.mp hid)

/-- What a node names that is reached is live. -/
theorem Owned.mem_liveExprs_of_mem (h : s.Grounded) (ho : s.Owned) {n : NodeId} (hn : s.Reaches n)
    {e : ExprId} (he : e ∈ s.exprsIn n) : e ∈ s.liveExprs :=
  ho.mem_liveExprs_of_reaches h (.expr hn he)

theorem Owned.mem_liveStmts_of_mem (h : s.Grounded) (ho : s.Owned) {n : NodeId} (hn : s.Reaches n)
    {stmt : StmtId} (hstmt : stmt ∈ s.stmtsIn n) : stmt ∈ s.liveStmts :=
  mem_liveStmts.mpr ((ho.isLive_iff_reaches h (.stmt stmt)).mpr (.stmt hn hstmt))

theorem standsIn_iff {block stmt : StmtId} : s.standsIn block stmt = true ↔
    block ∈ s.liveStmts ∧ stmt ∈ s.liveStmts ∧ ∃ body, s.stmt block = .block body ∧ stmt ∈ body := by
  refine ⟨stmt_eq_block, ?_⟩
  rintro ⟨hblock, hstmt, body, hbody, hmem⟩
  rw [standsIn, hbody, mem_liveStmts.mp hblock, mem_liveStmts.mp hstmt]
  exact List.contains_iff_mem.mpr hmem

/-- A statement of a live block is live. -/
theorem Owned.standsIn_of_mem (ho : s.Owned) {block stmt : StmtId} {body : List StmtId}
    (hblock : block ∈ s.liveStmts) (hbody : s.stmt block = .block body) (hmem : stmt ∈ body) :
    s.standsIn block stmt = true := by
  refine standsIn_iff.mpr ⟨hblock, ho.stmts.mem_of_mem_parts hblock ?_, body, hbody, hmem⟩
  rw [stmtPartsOf, stmtParts, hbody]
  exact hmem

/-- The node that names a statement in a block is that block. -/
theorem Owned.eq_of_standsIn (h : s.Grounded) (ho : s.Owned) {block stmt id : StmtId}
    (hin : s.standsIn block stmt = true) (hid : id ∈ s.liveStmts) (hmem : stmt ∈ s.stmtParts id) :
    id = block := by
  obtain ⟨hblock, -, body, hbody, hstmt⟩ := standsIn_iff.mp hin
  refine NodeId.stmt.inj (ho.parent_unique h (ho.reaches_stmt h hid) (ho.reaches_stmt h hblock)
    hmem ?_)
  rw [stmtsIn, hbody]
  exact hstmt

namespace PrunedBy

/-- In a block that is live a statement stands as long as it was not taken out. -/
theorem standsIn_of_not_takesOut (h : s.PrunedBy cs t) {block stmt : StmtId}
    (hin : s.standsIn block stmt = true) (hblock : block ∈ t.liveStmts)
    (hstays : s.takesOut cs block stmt = false) : t.standsIn block stmt = true := by
  obtain ⟨-, -, body, hbody, hmem⟩ := standsIn_iff.mp hin
  have hpruned := (h.stmts block hblock).2
  rw [pruned_of_stmt_eq_block hbody] at hpruned
  refine h.owned.standsIn_of_mem hblock hpruned (List.mem_filter.mpr ⟨hmem, ?_⟩)
  rw [hstays]
  rfl

/-- A statement that is live stands where it stood. -/
theorem standsIn_of_live (h : s.PrunedBy cs t) (hs : s.Grounded) (hos : s.Owned)
    {block stmt : StmtId} (hin : s.standsIn block stmt = true) (hstmt : stmt ∈ t.liveStmts) :
    t.standsIn block stmt = true := by
  obtain ⟨hblock, -, body, hbody, hmem⟩ := standsIn_iff.mp hin
  have hparts : stmt ∈ s.stmtsIn (.stmt block) := by
    rw [stmtsIn, hbody]
    exact hmem
  have hreach := h.owned.reaches_stmt h.grounded hstmt
  cases hreach with
  | @stmt n _ hn hnamed =>
      have hlive := (h.owned.isLive_iff_reaches h.grounded n).mpr hn
      cases n with
      | expr id => cases hnamed
      | decl d =>
          -- a declaration that is left has the body that it had
          have hd : d ∈ s.decls := by
            have hmem := (h.owned.decls.isLive_iff d).mp hlive
            rw [h.decls] at hmem
            exact List.mem_of_mem_filter hmem
          have hsame : stmt ∈ s.stmtsIn (.decl d) := by
            rw [stmtsIn, ← h.decl]
            exact hnamed
          cases hos.parent_unique hs (.decl hd) (hos.reaches_stmt hs hblock) hsame hparts
      | stmt id =>
          have hid : id ∈ t.liveStmts := mem_liveStmts.mpr hlive
          obtain ⟨hids, hpruned⟩ := h.stmts id hid
          have hsame : stmt ∈ s.stmtParts id := by
            refine s.childStmts_pruned_subset cs id ?_
            rw [← hpruned]
            exact hnamed
          obtain rfl := hos.eq_of_standsIn hs hin hids hsame
          rw [pruned_of_stmt_eq_block hbody] at hpruned
          rw [stmtsIn, hpruned] at hnamed
          exact h.owned.standsIn_of_mem hid hpruned hnamed

/-! ## One more change -/

/-- What is needed of the expressions where a change leaves them alone. -/
theorem keepsExprs {u : Shader} (h : s.PrunedBy cs t) (hexpr : u.expr = t.expr)
    (hlive : u.liveExprs ≤ t.liveExprs) (hc : ∀ target constant, c ≠ .toConstant target constant) :
    (∀ id ∈ u.liveExprs, id.index < s.exprs.size →
      (∀ constant, .toConstant id constant ∉ c :: cs) → u.expr id = s.expr id) ∧
    ∀ id ∈ u.liveExprs, ∀ constant, .toConstant id constant ∈ c :: cs →
      constant.isAt u id = true := by
  refine ⟨fun id hid hlt hnone => ?_, fun id hid constant hmem => ?_⟩
  · rw [hexpr]
    exact h.exprs id (Multiset.mem_of_le hlive hid) hlt fun constant hmem =>
      hnone constant (List.mem_cons_of_mem c hmem)
  · rw [Constant.isAt_congr hexpr]
    refine h.constants id (Multiset.mem_of_le hlive hid) constant ?_
    exact (List.mem_cons.mp hmem).resolve_left fun heq => hc id constant heq.symm

theorem decls_cons_of_ne (h : s.PrunedBy cs t) (hc : ∀ d, c ≠ .removeDecl d) :
    t.decls = s.decls.filter fun d => !(c :: cs).contains (.removeDecl d) := by
  rw [h.decls]
  refine List.filter_congr fun d _ => ?_
  rw [List.contains_cons, beq_false_of_ne (hc d).symm, Bool.false_or]

/-- A change that is not made leaves what it would leave, if what it would take is gone. -/
theorem cons_of_same (h : s.PrunedBy cs t) (hc : ∀ target constant, c ≠ .toConstant target constant)
    (hdecls : t.decls = s.decls.filter fun d => !(c :: cs).contains (.removeDecl d))
    (hstmts : ∀ id ∈ t.liveStmts, s.pruned (c :: cs) id = s.pruned cs id) : s.PrunedBy (c :: cs) t := by
  obtain ⟨hexprs, hconstants⟩ := h.keepsExprs rfl le_rfl hc
  refine ⟨h.grounded, h.owned, h.version, h.decl, hdecls, h.size_le, fun id hid => ?_, hexprs,
    hconstants⟩
  obtain ⟨hids, hpruned⟩ := h.stmts id hid
  exact ⟨hids, hpruned.trans (hstmts id hid).symm⟩

end PrunedBy

/-! ### Declarations -/

theorem decl_congr (h : t.declNodes = s.declNodes) : t.decl = s.decl := by
  funext d
  rw [Shader.decl, h, Shader.decl]

theorem same_killContents (s : Shader) (d : Decl ExprId StmtId) :
    (s.killContents d).version = s.version ∧ (s.killContents d).liveStmts ≤ s.liveStmts := by
  cases d with
  | function decl =>
      rw [killContents]
      cases decl.body with
      | none => exact ⟨rfl, le_rfl⟩
      | some body =>
          rw [Option.elim_some, killStmt, liveStmts_forgetStmts, liveStmts_forgetExprs]
          exact ⟨rfl, Multiset.filter_le _ _⟩
  | vars decl =>
      rw [killContents, killExprs_eq, liveStmts_forgetExprs]
      exact ⟨rfl, le_rfl⟩
  | _ => exact ⟨rfl, le_rfl⟩

theorem same_removeDecl (s : Shader) (id : DeclId) :
    (s.removeDecl id).2.version = s.version ∧ (s.removeDecl id).2.liveStmts ≤ s.liveStmts := by
  by_cases hid : id ∈ s.decls
  · rw [removeDecl_eq hid]
    exact same_killContents (s.dropDecl id) (s.decl id)
  · rw [removeDecl, if_neg (by simpa using hid)]
    exact ⟨rfl, le_rfl⟩

theorem PrunedBy.removeDecl (h : s.PrunedBy cs t) (d : DeclId) :
    s.PrunedBy (.removeDecl d :: cs) (if t.isDeclLive d then (t.removeDecl d).2 else t) := by
  have hpruned : s.pruned (.removeDecl d :: cs) = s.pruned cs := pruned_cons_of_ne nofun nofun
  have hfilter : (t.decls.filter (· ≠ d)) =
      s.decls.filter fun d' => !(Change.removeDecl d :: cs).contains (.removeDecl d') := by
    rw [h.decls, List.filter_filter]
    refine List.filter_congr fun d' _ => ?_
    rw [List.contains_cons, Bool.not_or, Bool.eq_iff_iff]
    simp
  split
  next hlive =>
    have hd : d ∈ t.decls := List.contains_iff_mem.mp (Bool.and_eq_true_iff.mp hlive).2
    have hlightens := lightens_removeDecl t d
    obtain ⟨hversion, hstmts⟩ := t.same_removeDecl d
    obtain ⟨hexprs, hconstants⟩ := h.keepsExprs (u := (t.removeDecl d).2) (c := .removeDecl d)
      (expr_removeDecl t d) hlightens.live_le nofun
    refine ⟨h.grounded.removeDecl d, h.owned.removeDecl h.grounded hd, hversion.trans h.version,
      (decl_removeDecl t d).trans h.decl, ?_, hlightens.size_eq ▸ h.size_le, fun id hid => ?_, hexprs,
      hconstants⟩
    · rw [decls_removeDecl, h.owned.decls.nodup.erase_eq_filter, ← hfilter]
      exact List.filter_congr fun d' _ => by simp [bne, beq_eq_decide]
    · rw [stmt_removeDecl, hpruned]
      exact h.stmts id (Multiset.mem_of_le hstmts hid)
  next hstale =>
    refine h.cons_of_same nofun ?_ fun id _ => congrFun hpruned id
    have hd : d ∉ t.decls := fun hd => hstale (h.owned.decls.isDeclLive hd)
    rw [← hfilter]
    refine (List.filter_eq_self.mpr fun d' hd' => ?_).symm
    simpa using ne_of_mem_of_not_mem hd' hd

/-! ### Statements -/

theorem stmt_removeFromBlock_eq {block stmt : StmtId} {body : List StmtId}
    (hblock : block ∈ s.liveStmts) (hbody : s.stmt block = .block body) (hmem : stmt ∈ body)
    (id : StmtId) : (s.removeFromBlock block stmt).2.stmt id =
      if block = id then .block (body.erase stmt) else s.stmt id := by
  rw [removeFromBlock_eq hbody hmem, stmt_killStmt, stmt_setStmt]
  by_cases hid : block = id
  · rw [if_pos hid, if_pos ⟨hid, hid ▸ lt_size_of_mem_liveStmts hblock⟩]
  · rw [if_neg hid, if_neg fun hc => hid hc.1]

theorem mem_liveStmts_of_removeFromBlock {block stmt id : StmtId}
    (hin : s.standsIn block stmt = true) (hid : id ∈ (s.removeFromBlock block stmt).2.liveStmts) :
    id ∈ s.liveStmts ∧ id ≠ stmt := by
  obtain ⟨-, -, body, hbody, hmem⟩ := standsIn_iff.mp hin
  rw [removeFromBlock_eq hbody hmem, killStmt, liveStmts_forgetStmts, liveStmts_forgetExprs,
    liveStmts_setStmt, Multiset.mem_filter] at hid
  refine ⟨hid.1, ?_⟩
  rintro rfl
  exact hid.2 (mem_stmtSlots_self _ id)

theorem version_removeFromBlock (s : Shader) (block stmt : StmtId) :
    (s.removeFromBlock block stmt).2.version = s.version := by
  rw [Shader.removeFromBlock]
  split
  next =>
    split
    next => rfl
    next => rfl
  next => rfl

theorem Owned.nodup_body (ho : s.Owned) {block : StmtId} {body : List StmtId}
    (hblock : block ∈ s.liveStmts) (hbody : s.stmt block = .block body) : body.Nodup := by
  have hle : s.stmtPartsOf block ≤ s.liveStmts :=
    calc s.stmtPartsOf block ≤ s.liveStmts.bind s.stmtPartsOf := Multiset.le_bind _ hblock
      _ ≤ 0 + s.bodyRoots + s.liveStmts.bind s.stmtPartsOf := Multiset.le_add_left _ _
      _ = s.liveStmts := ho.stmts
  have hnodup := Multiset.nodup_of_le hle (nodup_liveStmts s)
  rw [stmtPartsOf, stmtParts, hbody] at hnodup
  exact Multiset.coe_nodup.mp hnodup

/-- One more statement that is taken out of a live block is the one that is erased there. -/
theorem PrunedBy.erase_body (h : s.PrunedBy cs t) {block stmt : StmtId} {body : List StmtId}
    (hblock : block ∈ t.liveStmts) (hbody : t.stmt block = .block body)
    (hstmt : s.takesOut (c :: cs) block stmt = true)
    (hothers : ∀ stmt' ≠ stmt, s.takesOut (c :: cs) block stmt' = s.takesOut cs block stmt')
    (hin : s.standsIn block stmt = true) :
    .block (body.erase stmt) = s.pruned (c :: cs) block := by
  obtain ⟨-, -, whole, hwhole, -⟩ := standsIn_iff.mp hin
  have hpruned := (h.stmts block hblock).2
  rw [pruned_of_stmt_eq_block hwhole] at hpruned ⊢
  obtain rfl : body = _ := StmtNode.block.inj (hbody.symm.trans hpruned)
  rw [(h.owned.nodup_body hblock hbody).erase_eq_filter, List.filter_filter]
  refine congrArg _ (List.filter_congr fun stmt' _ => ?_)
  by_cases heq : stmt' = stmt
  · subst heq
    rw [hstmt, bne_self_eq_false]
    rfl
  · rw [hothers stmt' heq, bne_iff_ne.mpr heq, Bool.true_and]

theorem PrunedBy.removeStmt (h : s.PrunedBy cs t) {block stmt : StmtId}
    (hin : s.standsIn block stmt = true) :
    s.PrunedBy (.removeStmt block stmt :: cs)
      (if t.standsIn block stmt then (t.removeFromBlock block stmt).2 else t) := by
  have hnames : ∀ id, Change.takenNames (.removeStmt block stmt :: cs) id = Change.takenNames cs id :=
    fun id => takenNames_cons_of_ne (by simp)
  have htakes : ∀ id stmt', (id ≠ block ∨ stmt' ≠ stmt) →
      s.takesOut (.removeStmt block stmt :: cs) id stmt' = s.takesOut cs id stmt' := by
    intro id stmt' hne
    refine takesOut_cons_of_ne (fun heq => ?_) (by simp)
    cases heq
    exact hne.elim (· rfl) (· rfl)
  have htaken : s.takesOut (.removeStmt block stmt :: cs) block stmt = true := by
    rw [takesOut, List.contains_cons, beq_self_eq_true, Bool.true_or, Bool.true_or]
  obtain ⟨-, -, body, hbody, hmem⟩ := standsIn_iff.mp hin
  have hdecls := h.decls_cons_of_ne (c := .removeStmt block stmt) (by simp)
  split
  next hholds =>
    have hlightens := lightens_removeFromBlock t block stmt
    obtain ⟨hdecls', hnodes⟩ := decls_removeFromBlock t block stmt
    obtain ⟨hexprs, hconstants⟩ := h.keepsExprs (u := (t.removeFromBlock block stmt).2)
      (c := .removeStmt block stmt) (expr_removeFromBlock t block stmt) hlightens.live_le (by simp)
    obtain ⟨hblock, hstmt, body', hbody', hmem'⟩ := standsIn_iff.mp hholds
    refine ⟨h.grounded.removeFromBlock block stmt, h.owned.removeFromBlock h.grounded hholds,
      (t.version_removeFromBlock block stmt).trans h.version, (decl_congr hnodes).trans h.decl,
      hdecls'.trans hdecls, hlightens.size_eq ▸ h.size_le, fun id hid => ?_, hexprs, hconstants⟩
    obtain ⟨hlive, -⟩ := mem_liveStmts_of_removeFromBlock hholds hid
    obtain ⟨hids, hpruned⟩ := h.stmts id hlive
    refine ⟨hids, ?_⟩
    rw [stmt_removeFromBlock_eq hblock hbody' hmem']
    split
    next heq =>
      subst heq
      exact h.erase_body hblock hbody' htaken (fun stmt' hne => htakes block stmt' (.inr hne)) hin
    next hne =>
      rw [hpruned]
      exact pruned_congr (.of_eq (hnames id).symm) fun _ _ stmt' _ =>
        (htakes id stmt' (.inl (Ne.symm hne))).symm
  next hstale =>
    refine h.cons_of_same (by simp) hdecls fun id hid =>
      pruned_congr (.of_eq (hnames id)) fun _ _ stmt' _ => ?_
    by_cases hsame : id = block ∧ stmt' = stmt
    · obtain ⟨rfl, rfl⟩ := hsame
      -- the statement does not stand in its block any more, so it was taken out before
      rw [htaken]
      by_contra hstays
      exact hstale (h.standsIn_of_not_takesOut hin hid (Bool.eq_false_of_not_eq_true (Ne.symm hstays)))
    · exact htakes id stmt' (not_and_or.mp hsame)

end Shader

/-! ### Variables -/

namespace UnusedVariable

variable {s : Shader} {stmt id : StmtId} {block : Option StmtId} {name : String}

theorem version_apply (s : Shader) (stmt : StmtId) (block : Option StmtId) (name : String) :
    (apply s stmt block name).version = s.version := by
  cases hd : s.stmt stmt with
  | vars decl =>
      cases hr : decl.declarators.find? (fun d => d.name == name) with
      | none =>
          rw [apply, hd]
          dsimp only
          rw [hr]
      | some removed =>
          have hshrink : (shrink s stmt decl removed name).version = s.version := by
            rw [shrink, Shader.killExprs_eq]
            rfl
          rw [apply_eq hd hr]
          split
          next =>
            cases block with
            | some block => exact (Shader.version_removeFromBlock _ block stmt).trans hshrink
            | none => exact hshrink
          next => exact hshrink
  | _ => rw [apply, hd]

/-- What a statement that is live after a variable was taken out holds, and what it is to the
declaration. -/
inductive Leaves (s : Shader) (stmt : StmtId) (block : Option StmtId)
    (rest : VarDecl ExprId) (id : StmtId) : StmtNode ExprId StmtId → Prop
  | shorter (hid : id = stmt) (hrest : rest.declarators.isEmpty = false) :
    Leaves s stmt block rest id (.vars rest)
  | empty (hid : id = stmt) (hrest : rest.declarators.isEmpty = true) : Leaves s stmt block rest id .empty
  | block {body : List StmtId} (hid : id ≠ stmt) (hrest : rest.declarators.isEmpty = true)
    (hblock : block = some id) (hbody : s.stmt id = .block body) :
    Leaves s stmt block rest id (.block (body.erase stmt))
  | same (hid : id ≠ stmt) (hrest : rest.declarators.isEmpty = true → block ≠ some id) :
    Leaves s stmt block rest id (s.stmt id)

theorem leaves_apply {decl : VarDecl ExprId} (hholds : holds s stmt block name = true)
    (hd : s.stmt stmt = .vars decl) (hid : id ∈ (apply s stmt block name).liveStmts) :
    id ∈ s.liveStmts ∧ Leaves s stmt block
      ⟨decl.type, decl.declarators.eraseP fun d => d.name == name⟩ id
      ((apply s stmt block name).stmt id) := by
  obtain ⟨hlive, ⟨decl', removed, hd', hr⟩, hstands⟩ := eq_vars_of_holds hholds
  obtain rfl : decl = decl' := StmtNode.vars.inj (hd.symm.trans hd')
  have hlives : (shrink s stmt decl removed name).liveStmts = s.liveStmts := liveStmts_shrink
  have hshrink : ∀ id, (shrink s stmt decl removed name).stmt id = _ := stmt_shrink hlive
  rw [apply_eq hd hr] at hid ⊢
  split at hid
  next hempty =>
    rw [if_pos hempty]
    cases block with
    | some block =>
        have hin : (shrink s stmt decl removed name).standsIn block stmt = true :=
          standsIn_shrink hlive hd (hstands block rfl)
        obtain ⟨hid, hne⟩ := Shader.mem_liveStmts_of_removeFromBlock hin hid
        obtain ⟨hblock, -, body, hbody, hmem⟩ := Shader.standsIn_iff.mp hin
        rw [hlives] at hid hblock
        refine ⟨hid, ?_⟩
        dsimp only
        rw [Shader.stmt_removeFromBlock_eq (hlives ▸ hblock) hbody hmem]
        rw [hshrink] at hbody ⊢
        split
        next heq =>
          subst heq
          rw [if_neg (Ne.symm hne)] at hbody
          exact .block hne hempty rfl hbody
        next hother =>
          rw [if_neg (Ne.symm hne)]
          exact .same hne fun _ heq => hother (Option.some.inj heq)
    | none =>
        have hid' : id ∈ s.liveStmts := by
          rwa [Shader.liveStmts_setStmt, hlives] at hid
        refine ⟨hid', ?_⟩
        dsimp only
        rw [Shader.stmt_setStmt, hshrink]
        have hsize : id.index < (shrink s stmt decl removed name).stmts.size :=
          Shader.lt_size_of_mem_liveStmts (hlives ▸ hid')
        by_cases heq : stmt = id
        · rw [if_pos ⟨heq, hsize⟩]
          exact .empty heq.symm hempty
        · rw [if_neg fun hc => heq hc.1, if_neg heq]
          exact .same (Ne.symm heq) nofun
  next hfull =>
    have hfull' := Bool.eq_false_of_not_eq_true hfull
    rw [if_neg hfull, hshrink]
    rw [hlives] at hid
    refine ⟨hid, ?_⟩
    split
    next heq => exact .shorter heq.symm hfull'
    next hne => exact .same (Ne.symm hne) fun hempty => absurd hempty hfull

end UnusedVariable

namespace Shader

variable {s t t' : Shader} {c : Change} {cs : List Change}

theorem without_cons {ρ : Type} (name : String) (names : List String) (ds : List (Declarator ρ)) :
    Declarator.without (name :: names) ds =
      (Declarator.without names ds).eraseP fun d => d.name == name := rfl

theorem pruned_of_stmt_eq_vars {id : StmtId} {decl : VarDecl ExprId} (h : s.stmt id = .vars decl)
    (cs : List Change) : s.pruned cs id =
      if s.empties cs id then .empty
      else .vars ⟨decl.type, Declarator.without (Change.takenNames cs id) decl.declarators⟩ := by
  rw [pruned, h]

theorem empties_of_stmt_eq_vars {id : StmtId} {decl : VarDecl ExprId} (h : s.stmt id = .vars decl)
    (cs : List Change) : s.empties cs id = (!decl.declarators.isEmpty &&
      (Declarator.without (Change.takenNames cs id) decl.declarators).isEmpty) := by
  rw [empties, h]

section Variable

variable {stmt : StmtId} {block : Option StmtId} {decl : VarDecl ExprId} {name : String}

/-- A variable that is not in its declaration any more was taken out before. -/
theorem without_cons_of_stale (hvars : s.stmt stmt = .vars decl) (hpruned : t.stmt stmt = s.pruned cs stmt)
    (hnone : ∀ left, t.stmt stmt = .vars left → left.declarators.any (fun d => d.name == name) = false) :
    Declarator.without (name :: Change.takenNames cs stmt) decl.declarators =
      Declarator.without (Change.takenNames cs stmt) decl.declarators := by
  rw [without_cons]
  refine List.eraseP_of_forall_not fun d hd => ?_
  rw [pruned_of_stmt_eq_vars hvars] at hpruned
  split at hpruned
  next hempty =>
    rw [empties_of_stmt_eq_vars hvars, Bool.and_eq_true] at hempty
    rw [List.isEmpty_iff.mp hempty.2] at hd
    cases hd
  next =>
    have hall := List.any_eq_false.mp (hnone _ hpruned) d hd
    simpa using hall

/-- What is left in each slot stays as it is if a change takes a variable out that was not left. -/
theorem pruned_cons_of_without_eq (hvars : s.stmt stmt = .vars decl)
    (heq : Declarator.without (name :: Change.takenNames cs stmt) decl.declarators =
      Declarator.without (Change.takenNames cs stmt) decl.declarators) :
    s.pruned (.removeVariable stmt block name :: cs) = s.pruned cs := by
  have hempties : ∀ id, s.empties (.removeVariable stmt block name :: cs) id = s.empties cs id := by
    intro id
    by_cases hid : id = stmt
    · subst hid
      rw [empties_of_stmt_eq_vars hvars, empties_of_stmt_eq_vars hvars, takenNames_cons, heq]
    · refine empties_congr (.of_eq (takenNames_cons_of_ne fun _ _ hc => ?_))
      cases hc
      exact hid rfl
  have htakes : s.takesOut (.removeVariable stmt block name :: cs) = s.takesOut cs := by
    funext id stmt'
    exact takesOut_cons_of_empties_eq nofun (hempties stmt')
  funext id
  by_cases hid : id = stmt
  · subst hid
    rw [pruned_of_stmt_eq_vars hvars, pruned_of_stmt_eq_vars hvars, hempties, takenNames_cons, heq]
  · refine pruned_congr (.of_eq (takenNames_cons_of_ne fun _ _ hc => ?_)) fun _ _ _ _ => by rw [htakes]
    cases hc
    exact hid rfl

/-- The other slots keep what is left in them if the declaration is not left empty, or none of them is
the block that it stands in. -/
theorem pruned_cons_of_ne_stmt {id : StmtId} (hid : id ≠ stmt)
    (hrest : (∀ body, s.stmt id = .block body → stmt ∉ body) ∨
      s.empties (.removeVariable stmt block name :: cs) stmt = s.empties cs stmt ∨
      s.takesOut cs id stmt = true) :
    s.pruned (.removeVariable stmt block name :: cs) id = s.pruned cs id := by
  refine pruned_congr (.of_eq (takenNames_cons_of_ne fun _ _ hc => ?_)) fun body hbody stmt' hmem => ?_
  · cases hc
    exact hid rfl
  · by_cases heq : stmt' = stmt
    · subst heq
      obtain hnot | hsame | htaken := hrest
      · exact absurd hmem (hnot body hbody)
      · exact takesOut_cons_of_empties_eq nofun hsame
      · rw [htaken, takesOut_cons htaken]
    · refine takesOut_cons_of_ne nofun fun _ _ hc => ?_
      cases hc
      exact heq rfl

/-- Where a declaration is found: in its block, or at the start of a loop. -/
def DeclaredIn (s : Shader) (stmt : StmtId) : Option StmtId → Prop
  | some block => s.standsIn block stmt = true
  | none => ∃ loop ∈ s.liveStmts, ∃ cond step body, s.stmt loop = .forLoop stmt cond step body

/-- A declaration is in no block but its own. -/
theorem DeclaredIn.eq_some (h : s.DeclaredIn stmt block) (hs : s.Grounded) (hos : s.Owned)
    {id : StmtId} (hid : id ∈ s.liveStmts) {body : List StmtId} (hbody : s.stmt id = .block body)
    (hmem : stmt ∈ body) : block = some id := by
  have hparts : stmt ∈ s.stmtsIn (.stmt id) := by
    rw [stmtsIn, hbody]
    exact hmem
  cases block with
  | some block => rw [hos.eq_of_standsIn hs h hid hparts]
  | none =>
      obtain ⟨loop, hlive, cond, step, body', hloop⟩ := h
      have hloopParts : stmt ∈ s.stmtsIn (.stmt loop) := by
        rw [stmtsIn, hloop]
        exact List.mem_cons_self
      cases hos.parent_unique hs (hos.reaches_stmt hs hid) (hos.reaches_stmt hs hlive) hparts hloopParts
      rw [hloop] at hbody
      cases hbody

/-- A declaration that is live has the variables that the changes have not named. -/
theorem PrunedBy.declarators_eq (h : s.PrunedBy cs t) (hlive : stmt ∈ t.liveStmts)
    (hvars : s.stmt stmt = .vars decl) {left : VarDecl ExprId} (hleft : t.stmt stmt = .vars left) :
    s.empties cs stmt = false ∧
      left = ⟨decl.type, Declarator.without (Change.takenNames cs stmt) decl.declarators⟩ := by
  have hpruned := (h.stmts stmt hlive).2
  rw [hleft, pruned_of_stmt_eq_vars hvars] at hpruned
  split at hpruned
  next => cases hpruned
  next hfull => exact ⟨Bool.eq_false_of_not_eq_true hfull, StmtNode.vars.inj hpruned⟩

/-- A variable that is not used is taken out. -/
theorem PrunedBy.removeVariable_of_holds (h : s.PrunedBy cs t) (hs : s.Grounded) (hos : s.Owned)
    (hin : s.DeclaredIn stmt block) (hvars : s.stmt stmt = .vars decl)
    (hholds : UnusedVariable.holds t stmt block name = true) :
    s.PrunedBy (.removeVariable stmt block name :: cs) (UnusedVariable.apply t stmt block name) := by
  obtain ⟨hlive, ⟨left, removed, hleft, hr⟩, hstands⟩ := UnusedVariable.eq_vars_of_holds hholds
  have hlightens := UnusedVariable.lightens_apply hholds
  obtain ⟨hdecls, hnodes⟩ := UnusedVariable.decls_apply t stmt block name
  obtain ⟨hexprs, hconstants⟩ := h.keepsExprs (u := UnusedVariable.apply t stmt block name)
    (c := .removeVariable stmt block name) (UnusedVariable.expr_apply hholds) hlightens.live_le (by simp)
  obtain ⟨hfull, hleft'⟩ := h.declarators_eq hlive hvars hleft
  have hrest : left.declarators.eraseP (fun d => d.name == name) =
      Declarator.without (Change.takenNames (.removeVariable stmt block name :: cs) stmt)
        decl.declarators := by
    rw [takenNames_cons, without_cons, hleft']
  -- the declaration has variables left, and the one that goes is among them
  have hsome : decl.declarators.isEmpty = false := by
    have hmem := List.mem_of_find?_eq_some hr
    rw [hleft'] at hmem
    cases hds : decl.declarators with
    | nil => exact absurd (hds ▸ (Declarator.without_sublist _ _).subset hmem) List.not_mem_nil
    | cons d ds => rfl
  have hempty : s.empties (.removeVariable stmt block name :: cs) stmt =
      (left.declarators.eraseP fun d => d.name == name).isEmpty := by
    rw [empties_of_stmt_eq_vars hvars, hsome, hrest]
    rfl
  refine ⟨UnusedVariable.grounded_apply h.grounded hholds,
    UnusedVariable.owned_apply h.grounded h.owned hholds,
    (UnusedVariable.version_apply t stmt block name).trans h.version, (decl_congr hnodes).trans h.decl,
    hdecls.trans (h.decls_cons_of_ne (by simp)), hlightens.size_eq ▸ h.size_le, fun id hid => ?_,
    hexprs, hconstants⟩
  obtain ⟨hlives, hleaves⟩ := UnusedVariable.leaves_apply hholds hleft hid
  obtain ⟨hids, hprunedId⟩ := h.stmts id hlives
  refine ⟨hids, ?_⟩
  generalize (UnusedVariable.apply t stmt block name).stmt id = node at hleaves
  cases hleaves with
  | shorter heq hfull' =>
      subst heq
      rw [pruned_of_stmt_eq_vars hvars, hempty, hfull', ← hrest, hleft']
      rfl
  | empty heq hnone =>
      subst heq
      rw [pruned_of_stmt_eq_vars hvars, hempty, hnone]
      rfl
  | @block body hne hnone hblock hbody =>
      subst hblock
      refine h.erase_body hlives hbody ?_ (fun stmt' hother => ?_) hin
      · rw [takesOut, hempty, hnone, Bool.or_true]
      · refine takesOut_cons_of_ne (by simp) fun _ _ hc => ?_
        cases hc
        exact hother rfl
  | same hne hother =>
      rw [hprunedId]
      refine (pruned_cons_of_ne_stmt hne ?_).symm
      cases hnone : (left.declarators.eraseP fun d => d.name == name).isEmpty with
      | true =>
          exact .inl fun body hbody hmem => hother hnone (hin.eq_some hs hos hids hbody hmem)
      | false =>
          rw [hnone] at hempty
          exact .inr (.inl (hempty.trans hfull.symm))

/-- A variable that cannot be taken out was taken out before, or has lost its declaration. -/
theorem PrunedBy.pruned_cons_of_stale (h : s.PrunedBy cs t) (hs : s.Grounded) (hos : s.Owned)
    (hin : s.DeclaredIn stmt block) (hvars : s.stmt stmt = .vars decl)
    (hstale : ¬ UnusedVariable.holds t stmt block name = true) {id : StmtId} (hid : id ∈ t.liveStmts) :
    s.pruned (.removeVariable stmt block name :: cs) id = s.pruned cs id := by
  by_cases hlive : stmt ∈ t.liveStmts
  · -- the declaration stands where it stood, so the variable was taken out of it before
    have hstands : ∀ b, block = some b → t.standsIn b stmt = true := by
      rintro b rfl
      exact h.standsIn_of_live hs hos hin hlive
    refine congrFun (pruned_cons_of_without_eq hvars
      (without_cons_of_stale hvars (h.stmts stmt hlive).2 fun left hleft => ?_)) id
    by_contra hany
    refine hstale ?_
    simp only [UnusedVariable.holds, hleft, mem_liveStmts.mp hlive,
      Bool.eq_true_of_not_eq_false hany, Bool.true_and]
    cases block with
    | none => rfl
    | some b => exact hstands b rfl
  · have hne : id ≠ stmt := fun heq => hlive (heq ▸ hid)
    refine pruned_cons_of_ne_stmt hne ?_
    by_cases hbody : ∃ body, s.stmt id = .block body ∧ stmt ∈ body
    · -- the block is live and the declaration is not, so it was taken out before
      obtain ⟨body, hbody, hmem⟩ := hbody
      obtain rfl := hin.eq_some hs hos (h.stmts id hid).1 hbody hmem
      refine .inr (.inr ?_)
      by_contra hstays
      have hstands := h.standsIn_of_not_takesOut hin hid (Bool.eq_false_of_not_eq_true hstays)
      exact hlive (standsIn_iff.mp hstands).2.1
    · exact .inl fun body hid hmem => hbody ⟨body, hid, hmem⟩

/-- A tried change that takes a variable out leaves what the changes and it leave. -/
theorem PrunedBy.removeVariable (h : s.PrunedBy cs t) (hs : s.Grounded) (hos : s.Owned)
    (hin : s.DeclaredIn stmt block) (hvars : s.stmt stmt = .vars decl) (name : String) :
    s.PrunedBy (.removeVariable stmt block name :: cs)
      (if UnusedVariable.holds t stmt block name then UnusedVariable.apply t stmt block name else t) := by
  split
  next hholds => exact h.removeVariable_of_holds hs hos hin hvars hholds
  next hstale =>
    exact h.cons_of_same (by simp) (h.decls_cons_of_ne (by simp)) fun id hid =>
      h.pruned_cons_of_stale hs hos hin hvars hstale hid

end Variable

/-! ### Constants -/

theorem version_constant (s : Shader) (target : ExprId) (constant : Constant) :
    (constant.apply s target).version = s.version := by
  cases constant with
  | scalar value =>
      rw [Constant.apply, replaceWithLeaf_eq]
      rfl
  | vector constructor element =>
      rw [Constant.apply_vector, replaceWithLeaf_eq]
      rfl

/-- A constant that was put somewhere stays there when another one is put elsewhere: what it is made
of is a literal, and that is not changed by an opportunity. -/
theorem PrunedBy.isAt_apply (h : s.PrunedBy cs t) {target id : ExprId} {constant constant' : Constant}
    (hliteral : ∀ value, s.expr target ≠ .literal value)
    (hone : ∀ constant', .toConstant target constant' ∈ cs → constant' = constant)
    (hsize : target.index < s.exprs.size)
    (htarget : target ∈ t.liveExprs) (hat : constant.isAt t target = false)
    (hid : id ∈ t.liveExprs) (hne : target ≠ id) (hat' : constant'.isAt t id = true) :
    constant'.isAt (Constant.apply t target constant) id = true := by
  have hsame : ∀ id ∈ t.liveExprs, target ≠ id →
      (Constant.apply t target constant).expr id = t.expr id := by
    intro id hid hne
    rw [Constant.expr_apply (lt_size_of_mem_liveExprs hid), if_neg hne]
  cases constant' with
  | scalar value =>
      rw [Constant.isAt_scalar_iff] at hat' ⊢
      rw [hsame id hid hne, hat']
  | vector constructor element =>
      rw [Constant.isAt_vector_iff] at hat' ⊢
      obtain ⟨arg, hcall, harg⟩ := hat'
      have hargLive : arg ∈ t.liveExprs := by
        refine h.owned.exprs.mem_of_mem_parts hid ?_
        rw [exprPartsOf, exprParts, hcall]
        exact List.mem_singleton_self arg
      have hother : target ≠ arg := by
        rintro rfl
        by_cases hput : ∃ constant', .toConstant target constant' ∈ cs
        · obtain ⟨constant', hmem⟩ := hput
          have hthere := h.constants target htarget constant' hmem
          rw [hone constant' hmem, hat] at hthere
          cases hthere
        · have hsame := h.exprs target htarget hsize fun constant' hmem => hput ⟨constant', hmem⟩
          exact hliteral element (hsame.symm.trans harg)
      exact ⟨arg, (hsame id hid hne).trans hcall, (hsame arg hargLive hother).trans harg⟩

theorem PrunedBy.toConstant (h : s.PrunedBy cs t) {target : ExprId} {constant : Constant}
    (hliteral : ∀ value, s.expr target ≠ .literal value) (hsize : target.index < s.exprs.size)
    (hone : ∀ constant', .toConstant target constant' ∈ cs → constant' = constant)
    (hin : ∀ id constant', .toConstant id constant' ∈ cs → id.index < s.exprs.size) :
    s.PrunedBy (.toConstant target constant :: cs)
      (if Constant.holds t target constant then Constant.apply t target constant else t) := by
  have hpruned : s.pruned (.toConstant target constant :: cs) = s.pruned cs :=
    pruned_cons_of_ne nofun nofun
  have hdecls := h.decls_cons_of_ne (c := .toConstant target constant) nofun
  have hmem : ∀ id constant', .toConstant id constant' ∈ Change.toConstant target constant :: cs →
      id = target ∧ constant' = constant ∨ .toConstant id constant' ∈ cs := by
    intro id constant' hmem
    refine (List.mem_cons.mp hmem).imp_left fun heq => ?_
    cases heq
    exact ⟨rfl, rfl⟩
  split
  next hholds =>
    rw [Constant.holds, Bool.and_eq_true] at hholds
    obtain ⟨hlive, hat⟩ := hholds
    have htarget := mem_liveExprs.mpr hlive
    have hat : constant.isAt t target = false := by simpa using hat
    obtain ⟨hdecls', hnodes⟩ := Constant.decls_apply t target constant
    have hstmts := Constant.stmts_apply t target constant
    refine ⟨Constant.grounded_apply h.grounded htarget constant,
      Constant.owned_apply h.grounded h.owned htarget constant,
      (version_constant t target constant).trans h.version, (decl_congr hnodes).trans h.decl,
      hdecls'.trans hdecls, h.size_le.trans (Constant.size_le_apply t target constant),
      fun id hid => ?_, fun id hid hlt hnone => ?_, fun id hid constant' hput => ?_⟩
    · rw [hpruned]
      rw [liveStmts, hstmts] at hid
      rw [stmt, hstmts]
      exact h.stmts id hid
    · have hlt' : id.index < t.exprs.size := hlt.trans_le h.size_le
      have hne : target ≠ id := by
        rintro rfl
        exact hnone constant List.mem_cons_self
      rw [Constant.expr_apply hlt', if_neg hne]
      exact h.exprs id (Constant.mem_liveExprs_of_apply hid hlt') hlt fun constant' hmem =>
        hnone constant' (List.mem_cons_of_mem _ hmem)
    · by_cases heq : target = id
      · subst heq
        obtain ⟨-, rfl⟩ | hput := hmem _ _ hput
        · exact Constant.isAt_apply htarget
        · rw [hone constant' hput]
          exact Constant.isAt_apply htarget
      · have hput := (hmem _ _ hput).resolve_left fun hsame => heq hsame.1.symm
        have hlt' : id.index < t.exprs.size := (hin id constant' hput).trans_le h.size_le
        have hidt := Constant.mem_liveExprs_of_apply hid hlt'
        exact h.isAt_apply hliteral hone hsize htarget hat hidt heq (h.constants id hidt constant' hput)
  next hstale =>
    refine ⟨h.grounded, h.owned, h.version, h.decl, hdecls, h.size_le, fun id hid => ?_,
      fun id hid hlt hnone => ?_, fun id hid constant' hput => ?_⟩
    · rw [hpruned]
      exact h.stmts id hid
    · exact h.exprs id hid hlt fun constant' hmem => hnone constant' (List.mem_cons_of_mem _ hmem)
    · obtain ⟨rfl, rfl⟩ | hput := hmem _ _ hput
      · by_contra hat
        refine hstale ?_
        rw [Constant.holds, mem_liveExprs.mp hid, Bool.eq_false_of_not_eq_true hat]
        rfl
      · exact h.constants id hid constant' hput

end Shader

end ShaderReducer
