import ShaderReducer.Proofs.Opportunity.Found
import ShaderReducer.Proofs.Opportunity.Pruning
import ShaderReducer.Proofs.Opportunity.Scopes
import ShaderReducer.Proofs.Opportunity.Slots
import ShaderReducer.Proofs.Shader.References

/-!
# Names when statements are unwrapped

A statement that is unwrapped gives its place to some of its parts. What these declare by
themselves is visible in the rest of the block then, where it was not before. So the identifiers of
the rest that have such a name, and do not refer to something in the rest, refer to something else;
all others refer to what they did.
-/

namespace ShaderReducer

namespace Shader

variable {s t : Shader} {own : Bool} {scope : NameScope}

theorem Grounded.not_stmtBelow_self (h : s.Grounded) (id : StmtId) : ¬ s.StmtBelow id id := by
  obtain ⟨rank, hr⟩ := h.stmts
  exact fun hbelow => absurd (hr.lt_of_below hbelow).2 (Nat.lt_irrefl _)

theorem Restated.declared_declTree (hr : s.Restated t) (d : DeclId) :
    (t.declTree d).declared d = (s.declTree d).declared d := by
  rw [declTree, declTree, hr.decl_eq, exprTree_congr hr.size_eq hr.expr_eq]
  exact DeclTree.declared_map d (s.decl d)

/-- Declarations refer to no more if the statements in them do not. -/
theorem Restated.referencesFrom_subset (hr : s.Restated t)
    (h : ∀ id scope, (t.stmtTree id).references own scope ⊆ (s.stmtTree id).references own scope)
    (scope : NameScope) (ds : List DeclId) :
    t.referencesFrom own scope ds ⊆ s.referencesFrom own scope ds := by
  induction ds generalizing scope with
  | nil => exact List.Subset.refl _
  | cons d ds ih =>
      rw [referencesFrom, referencesFrom, hr.declared_declTree]
      refine append_subset_append ?_ (ih _)
      rw [declTree, declTree, hr.decl_eq, exprTree_congr hr.size_eq hr.expr_eq]
      cases s.decl d with
      | function f =>
          obtain ⟨type, name, params, body⟩ := f
          cases body with
          | none =>
              rw [Decl.map, Decl.map, Option.map_none, Option.map_none]
              exact List.Subset.refl _
          | some body => simpa [Decl.map, DeclTree.references] using h body _
      | _ =>
          rw [Decl.map, Decl.map]
          exact List.Subset.refl _

/-- A scope in which all variables of functions are declared in rows of reached statements. -/
def InRows (s : Shader) (scope : NameScope) : Prop :=
  ∀ entry ∈ scope, ∀ u i, entry.2 = .inStmt u i →
    ∃ parent, s.Reaches (.stmt parent) ∧ u ∈ (s.stmt parent).rowStmts

theorem InRows.append {inner : NameScope} (h : s.InRows scope) {id : StmtId}
    (hid : s.Reaches (.stmt id))
    (hinner : ∀ entry ∈ inner, ∃ u ∈ (s.stmt id).rowStmts, entry ∈ (s.stmtTree u).declared) :
    s.InRows (inner ++ scope) := by
  intro entry hentry u i hu
  rcases List.mem_append.mp hentry with hentry | hentry
  · obtain ⟨c, hc, hentry⟩ := hinner entry hentry
    obtain ⟨j, hj⟩ := Stmt.exists_of_mem_declared hentry
    rw [tag_stmtTree] at hj
    cases hu.symm.trans hj
    exact ⟨id, hid, hc⟩
  · exact h entry hentry u i hu

/-- A declaration refers to what it refers to in a row, where it is given the names that are
declared before it. -/
theorem exists_references_subset_from (own : Bool) {d : DeclId} {ds : List DeclId} (hd : d ∈ ds)
    (hscope : s.InRows scope) : ∃ outer, s.InRows outer ∧ ∀ t, s.Restated t →
      (t.declTree d).references own d outer ⊆ t.referencesFrom own scope ds := by
  induction ds generalizing scope with
  | nil => cases hd
  | cons d' ds ih =>
      rcases List.mem_cons.mp hd with rfl | hd
      · exact ⟨scope, hscope, fun t _ => List.subset_append_left _ _⟩
      · have hafter : s.InRows ((s.declTree d').declared d' ++ scope) := by
          intro entry hentry u i hu
          rcases List.mem_append.mp hentry with hentry | hentry
          · rw [declTree] at hentry
            cases hform : s.decl d' with
            | vars decl =>
                rw [hform] at hentry
                obtain ⟨j, hj⟩ := NameScope.exists_of_mem_ofNames hentry
                cases hu.symm.trans hj
            | _ => rw [hform] at hentry; cases hentry
          · exact hscope entry hentry u i hu
        obtain ⟨outer, houter, hsubset⟩ := ih hd hafter
        refine ⟨outer, houter, fun t hr => ?_⟩
        rw [referencesFrom, hr.declared_declTree]
        exact List.subset_append_of_subset_right _ (hsubset t hr)

/-- The body of a function refers to what it refers to in the shader, where it is given the names
that are declared before it. -/
theorem exists_references_subset_body (own : Bool) {d : DeclId} (hd : d ∈ s.decls) {body : StmtId}
    (hbody : body ∈ (s.decl d).bodies) : ∃ scope, s.InRows scope ∧ ∀ t, s.Restated t →
      (t.stmtTree body).references own scope ⊆ t.references own := by
  have hnil : s.InRows [] := fun _ h => absurd h List.not_mem_nil
  obtain ⟨outer, houter, hsubset⟩ := exists_references_subset_from own hd hnil
  cases hform : s.decl d with
  | function f =>
      rw [hform, Decl.bodies, Option.mem_toList] at hbody
      refine ⟨.ofNames (.param d) (f.params.map Param.name) ++ outer, ?_, fun t hr => ?_⟩
      · intro entry hentry u i hu
        rcases List.mem_append.mp hentry with hentry | hentry
        · obtain ⟨j, hj⟩ := NameScope.exists_of_mem_ofNames hentry
          cases hu.symm.trans hj
        · exact houter entry hentry u i hu
      · refine List.Subset.trans ?_ (hr.decls_eq ▸ hsubset t hr)
        rw [declTree, hr.decl_eq, hform, Decl.map, hbody]
        simp [DeclTree.references]
  | _ => rw [hform] at hbody; cases hbody

end Shader

namespace Unwrap

variable {s : Shader} {block target : StmtId} {way : UnwrapWay}

/-- The parts of a statement that stay when it is unwrapped. -/
def kept (s : Shader) (target : StmtId) (way : UnwrapWay) : List StmtId :=
  match way, s.stmt target with
  | .onFalse, .ifElse _ _ (some onFalse) => [onFalse]
  | _, .ifElse _ onTrue _ => [onTrue]
  | _, .block body => body
  | _, _ => []

/-- The statements that come after a statement in its block. -/
def after (s : Shader) (block target : StmtId) : List StmtId :=
  let body := (s.stmt block).childStmts
  body.drop (body.idxOf target + 1)

/-- The names that the parts that stay make visible in the rest of the block. -/
def spilled (s : Shader) (target : StmtId) (way : UnwrapWay) : NameScope :=
  Stmt.declaredAll ((kept s target way).map s.stmtTree)

/-- The identifiers in the rest of the block that would refer to something else. -/
def captured (own : Bool) (s : Shader) (block target : StmtId) (way : UnwrapWay) : List Reference :=
  (Stmt.referencesAll own [] ((after s block target).map s.stmtTree)).filter fun r =>
    r.referent.isNone && ((spilled s target way).lookup r.name).isSome

/-- A shader in which a statement of a block has given its place to the parts that stay. -/
structure Lifts (s t : Shader) (block target : StmtId) (way : UnwrapWay) (before : List StmtId) :
    Prop where
  restated : s.Restated t
  grounded : t.Grounded
  fits : fits s target way = true
  block_eq : s.stmt block = .block (before ++ target :: after s block target)
  stmt_eq : ∀ id, t.stmt id = if block = id then
    .block (before ++ kept s target way ++ after s block target) else s.stmt id

/-- The block of a statement that is unwrapped is a block still. -/
theorem stmt_apply (hholds : holds s block target way = true) {body : List StmtId} {i : Nat}
    (hb : s.stmt block = .block body) (hi : body.idxOf? target = some i) (id : StmtId) :
    (apply s block target way).stmt id = if block = id ∧ id.index < s.stmts.size then
      .block (body.take i ++ kept s target way ++ body.drop (i + 1)) else s.stmt id := by
  rw [holds, Bool.and_eq_true] at hholds
  have hfits := hholds.2
  cases ht : s.stmt target with
  | ifElse cond onTrue onFalse =>
      cases onFalse <;> cases way <;>
        simp [apply, kept, ht, Shader.killExpr, Shader.forgetStmt, Shader.killStmt, splice_eq, hb,
          hi, Shader.stmt_setStmt]
  | block inner =>
      cases way <;>
        simp [apply, kept, ht, Shader.forgetStmt, splice_eq, hb, hi, Shader.stmt_setStmt]
  | _ => cases way <;> simp [fits, ht] at hfits

theorem exists_lifts (h : s.Grounded) (hholds : holds s block target way = true) :
    ∃ before, Lifts s (apply s block target way) block target way before := by
  obtain ⟨body, _, _, i, hb, hi, -, -⟩ := exists_eq_lifted hholds
  have hin := Bool.and_eq_true_iff.mp hholds
  have hafter : after s block target = body.drop (i + 1) := by
    rw [after, hb, StmtNode.childStmts, List.idxOf_eq_getD_idxOf?, hi]
    rfl
  refine ⟨body.take i, restated_apply hholds, grounded_apply h hholds, hin.2, ?_, fun id => ?_⟩
  · rw [hafter, hb, ← split_of_idxOf? hi]
  · rw [stmt_apply hholds hb hi, hafter]
    by_cases hid : block = id
    · have hlt : id.index < s.stmts.size :=
        hid ▸ Shader.lt_size_of_mem_liveStmts (Shader.standsIn_iff.mp hin.1).1
      rw [if_pos ⟨hid, hlt⟩, if_pos hid]
    · rw [if_neg fun hc => hid hc.1, if_neg hid]

/-! ## What is left open -/

variable {own : Bool} {scope : NameScope}

/-- The parts that stay refer to what they referred to in the statement. -/
theorem referencesAll_kept_subset (h : s.Grounded) (hfits : fits s target way = true) (own : Bool)
    (scope : NameScope) :
    Stmt.referencesAll own scope ((kept s target way).map s.stmtTree) ⊆
      (s.stmtTree target).references own scope := by
  rw [h.stmtTree_eq target]
  cases ht : s.stmt target with
  | ifElse cond onTrue onFalse =>
      cases onFalse <;> cases way <;>
        simp [kept, ht, StmtNode.map, Stmt.references, Stmt.referencesAll]
  | block inner => cases way <;> simp [kept, ht, StmtNode.map, Stmt.references]
  | _ => cases way <;> simp [fits, ht] at hfits

/-- A statement that is unwrapped declares nothing by itself. -/
theorem declared_target (h : s.Grounded) (hfits : fits s target way = true) :
    (s.stmtTree target).declared = [] := by
  rw [h.declared_stmtTree]
  cases ht : s.stmt target with
  | vars decl => cases way <;> simp [fits, ht] at hfits
  | _ => rfl

theorem kept_subset (s : Shader) (target : StmtId) (way : UnwrapWay) :
    kept s target way ⊆ (s.stmt target).childStmts := by
  cases ht : s.stmt target with
  | ifElse cond onTrue onFalse =>
      cases onFalse <;> cases way <;> simp [kept, ht, StmtNode.childStmts]
  | block inner => cases way <;> simp [kept, ht, StmtNode.childStmts]
  | _ => cases way <;> simp [kept, ht]

/-- A statement that is unwrapped has no declarations in a row. -/
theorem declared_of_mem_rowStmts (hfits : fits s target way = true) {c : StmtId}
    (hc : c ∈ (s.stmt target).rowStmts) : (s.stmt c).declared c = [] := by
  cases ht : s.stmt target with
  | ifElse cond onTrue onFalse => rw [ht] at hc; cases hc
  | block inner =>
      rw [ht] at hc
      cases way with
      | block =>
          simp only [fits, ht, List.all_eq_true] at hfits
          have hfree := hfits c hc
          cases hform : s.stmt c with
          | vars decl => simp [hform] at hfree
          | _ => rfl
      | _ => simp [fits, ht] at hfits
  | _ => cases way <;> simp [fits, ht] at hfits

/-- The rest of the block refers to what it did if nothing in it is captured. -/
theorem referencesAll_after (hnone : captured own s block target way = []) (scope : NameScope) :
    Stmt.referencesAll own (spilled s target way ++ scope) ((after s block target).map s.stmtTree) =
      Stmt.referencesAll own scope ((after s block target).map s.stmtTree) := by
  rw [Stmt.referencesAll_eq_map (spilled s target way ++ scope), Stmt.referencesAll_eq_map scope]
  refine List.map_congr_left fun r hr => ?_
  have hopen := List.filter_eq_nil_iff.mp hnone r hr
  rw [Reference.resolve, Reference.resolve, List.lookup_append]
  cases hreferent : r.referent with
  | some referent => rfl
  | none =>
      rw [hreferent, Option.isNone_none, Bool.true_and] at hopen
      rw [Option.not_isSome_iff_eq_none.mp hopen, Option.none_or]

namespace Lifts

variable {t : Shader} {before : List StmtId}

theorem declared_eq (hl : Lifts s t block target way before) (h : s.Grounded) (id : StmtId) :
    (t.stmtTree id).declared = (s.stmtTree id).declared := by
  rw [hl.grounded.declared_stmtTree, h.declared_stmtTree, hl.stmt_eq]
  split
  next hid => rw [← hid, hl.block_eq]; rfl
  next => rfl

theorem stmtTree_eq (hl : Lifts s t block target way before) {id : StmtId} (hid : block ≠ id) :
    t.stmtTree id = .node id ((s.stmt id).map s.exprTree t.stmtTree) := by
  rw [hl.grounded.stmtTree_eq, hl.stmt_eq, if_neg hid,
    Shader.exprTree_congr hl.restated.size_eq hl.restated.expr_eq]

theorem references_block (hl : Lifts s t block target way before) :
    (t.stmtTree block).references own scope = Stmt.referencesAll own scope
      ((before ++ kept s target way ++ after s block target).map t.stmtTree) := by
  rw [hl.grounded.stmtTree_eq, hl.stmt_eq, if_pos rfl]
  rfl

/-- The rest of the block stands in the scope that the statement stood in. -/
theorem references_block_eq (hl : Lifts s t block target way before) (h : s.Grounded) :
    (s.stmtTree block).references own scope =
      Stmt.referencesAll own scope (before.map s.stmtTree) ++
        ((s.stmtTree target).references own (Stmt.declaredAll (before.map s.stmtTree) ++ scope) ++
          Stmt.referencesAll own (Stmt.declaredAll (before.map s.stmtTree) ++ scope)
            ((after s block target).map s.stmtTree)) := by
  rw [h.stmtTree_eq block, hl.block_eq, StmtNode.map, Stmt.references, List.map_append,
    List.map_cons, Stmt.referencesAll_append_row, Stmt.referencesAll, declared_target h hl.fits,
    List.nil_append]

/-- The parts that stay and the rest of the block refer to what they did if nothing is captured. -/
theorem referencesAll_subset (hl : Lifts s t block target way before) (h : s.Grounded)
    (hnone : captured own s block target way = []) :
    Stmt.referencesAll own scope
        ((before ++ kept s target way ++ after s block target).map s.stmtTree) ⊆
      (s.stmtTree block).references own scope := by
  have hkept := referencesAll_kept_subset h hl.fits own
    (Stmt.declaredAll (before.map s.stmtTree) ++ scope)
  have hrest := referencesAll_after hnone (Stmt.declaredAll (before.map s.stmtTree) ++ scope)
  rw [spilled] at hrest
  rw [hl.references_block_eq h, List.append_assoc, List.map_append, List.map_append,
    Stmt.referencesAll_append_row, Stmt.referencesAll_append_row, hrest]
  exact append_subset_append (List.Subset.refl _) (append_subset_append hkept (List.Subset.refl _))

/-- A statement refers to nothing that it did not refer to before, if nothing is captured. -/
theorem references_subset (hl : Lifts s t block target way before) (h : s.Grounded)
    (hnone : captured own s block target way = []) (id : StmtId) (scope : NameScope) :
    (t.stmtTree id).references own scope ⊆ (s.stmtTree id).references own scope := by
  induction id using hl.grounded.stmt_induction generalizing scope with
  | step id ih =>
      rw [hl.stmt_eq] at ih
      by_cases hid : block = id
      · -- the block: its new row is compared with itself in the old shader, then with the old row
        subst hid
        rw [if_pos rfl] at ih
        rw [hl.references_block]
        exact List.Subset.trans (Stmt.referencesAll_map_subset (fun c _ => hl.declared_eq h c)
          fun c hc scope => ih c hc scope) (hl.referencesAll_subset h hnone)
      · rw [if_neg hid] at ih
        rw [hl.stmtTree_eq hid, h.stmtTree_eq]
        exact Stmt.references_map_subset (fun c _ => hl.declared_eq h c)
          fun c hc scope => ih c hc scope

/-! ## What is captured -/

/-- A statement that is not below the block stands in the same scope as before. -/
theorem exists_references_subset (hl : Lifts s t block target way before) (h : s.Grounded)
    (own : Bool) {n : NodeId} (hn : s.Reaches n) {id : StmtId} (hid : n = .stmt id)
    (hout : ¬ s.StmtBelow block id) :
    ∃ scope, s.InRows scope ∧ (s.stmtTree id).references own scope ⊆ s.references own ∧
      (t.stmtTree id).references own scope ⊆ t.references own := by
  induction hn generalizing id with
  | decl => cases hid
  | expr => cases hid
  | @stmt n c hn hc ih =>
      cases hid
      cases n with
      | decl d =>
          cases hn with
          | decl hd =>
              obtain ⟨scope, hscope, hsubset⟩ :=
                Shader.exists_references_subset_body own hd hc
              exact ⟨scope, hscope, hsubset s (.refl s), hsubset t hl.restated⟩
      | stmt parent =>
          have hne : block ≠ parent := fun heq => hout (heq ▸ Shader.stmtBelow_of_mem hc)
          obtain ⟨scope, hscope, hs, ht⟩ := ih rfl fun hbelow => hout (hbelow.tail hc)
          obtain ⟨inner, hinner, hsubset⟩ :=
            Stmt.exists_references_subset own scope hc parent s.exprTree s.stmtTree
          rw [h.stmtTree_eq] at hs
          rw [hl.stmtTree_eq hne] at ht
          exact ⟨inner ++ scope, hscope.append hn hinner,
            List.Subset.trans (hsubset s.stmtTree fun _ _ => rfl) hs,
            List.Subset.trans (hsubset t.stmtTree fun u _ => hl.declared_eq h u) ht⟩
      | expr e => cases hc

/-- A statement without the block is the same as before. -/
theorem stmtTree_eq_of_not_below (hl : Lifts s t block target way before) (h : s.Grounded)
    {id : StmtId} (hne : block ≠ id) (hout : ¬ s.StmtBelow id block) :
    t.stmtTree id = s.stmtTree id := by
  induction id using h.stmt_induction with
  | step id ih =>
      rw [hl.stmtTree_eq hne, h.stmtTree_eq]
      refine congrArg (Stmt.node id) (StmtNode.map_congr (fun _ _ => rfl) fun c hc => ?_)
      refine ih c hc (fun heq => hout ?_) fun hbelow => hout (.head hc hbelow)
      exact heq ▸ Shader.stmtBelow_of_mem hc

/-- The rest of the block stands in a scope with the names that the parts that stay declare. -/
theorem references_after_subset (hl : Lifts s t block target way before) (h : s.Grounded) :
    Stmt.referencesAll own
        (spilled s target way ++ (Stmt.declaredAll (before.map s.stmtTree) ++ scope))
        ((after s block target).map s.stmtTree) ⊆
      (t.stmtTree block).references own scope := by
  have hdeclared : Stmt.declaredAll ((before ++ kept s target way).map t.stmtTree) =
      spilled s target way ++ Stmt.declaredAll (before.map s.stmtTree) := by
    rw [Stmt.declaredAll_map_congr fun c _ => hl.declared_eq h c, List.map_append,
      Stmt.declaredAll_append, spilled]
  have hafter : (after s block target).map t.stmtTree = (after s block target).map s.stmtTree := by
    refine List.map_congr_left fun c hc => ?_
    have hbelow : s.StmtBelow block c := by
      refine Shader.stmtBelow_of_mem ?_
      rw [Shader.stmtParts, hl.block_eq]
      exact List.mem_append_right _ (List.mem_cons_of_mem _ hc)
    refine hl.stmtTree_eq_of_not_below h (fun heq => ?_) fun habove => ?_
    · exact h.not_stmtBelow_self block (heq ▸ hbelow)
    · exact h.not_stmtBelow_self block (hbelow.trans habove)
  rw [hl.references_block, List.map_append, Stmt.referencesAll_append_row, hdeclared, hafter,
    List.append_assoc]
  exact List.subset_append_right _ _

/-- What a part that stays declares was not visible where the statement stood. -/
theorem not_mem_spilled (hl : Lifts s t block target way before) (h : s.Grounded) (ho : s.Owned)
    (hin : s.standsIn block target = true) (hscope : s.InRows scope) {entry : String × Referent}
    (hentry : entry ∈ Stmt.declaredAll (before.map s.stmtTree) ++ scope) :
    entry ∉ spilled s target way := by
  obtain ⟨hblock, htarget, -⟩ := Shader.standsIn_iff.mp hin
  have hrows : s.InRows (Stmt.declaredAll (before.map s.stmtTree) ++ scope) := by
    refine hscope.append (ho.reaches_of_mem_liveStmts h hblock) fun entry hentry => ?_
    obtain ⟨tree, htree, hentry⟩ := Stmt.mem_declaredAll.mp hentry
    obtain ⟨u, hu, rfl⟩ := List.mem_map.mp htree
    rw [hl.block_eq]
    exact ⟨u, List.mem_append_left _ hu, hentry⟩
  intro hspilled
  obtain ⟨tree, htree, hdeclared⟩ := Stmt.mem_declaredAll.mp hspilled
  obtain ⟨c, hc, rfl⟩ := List.mem_map.mp htree
  obtain ⟨i, hi⟩ := Stmt.exists_of_mem_declared hdeclared
  rw [Shader.tag_stmtTree] at hi
  obtain ⟨parent, hparent, hrow⟩ := hrows entry hentry c i hi
  -- `c` is named once, so the row that it is in is one of the statement that is unwrapped
  have heq := ho.parent_unique h hparent (ho.reaches_of_mem_liveStmts h htarget)
    (StmtNode.rowStmts_subset _ hrow) (kept_subset s target way hc)
  cases heq
  rw [h.declared_stmtTree, declared_of_mem_rowStmts hl.fits hrow] at hdeclared
  cases hdeclared

/-- Nothing is captured if all identifiers refer to what they did. -/
theorem captured_eq_nil (hl : Lifts s t block target way before) (h : s.Grounded) (ho : s.Owned)
    (hin : s.standsIn block target = true)
    (hsame : ∀ r ∈ t.references own, s.referent? own r.id = some r.referent) :
    captured own s block target way = [] := by
  obtain ⟨scope, hscope, hs, ht⟩ := hl.exists_references_subset h own
    (ho.reaches_of_mem_liveStmts h (Shader.standsIn_iff.mp hin).1) rfl (h.not_stmtBelow_self block)
  refine List.filter_eq_nil_iff.mpr fun r hr hcaptured => ?_
  rw [Bool.and_eq_true, Option.isNone_iff_eq_none, Option.isSome_iff_exists] at hcaptured
  obtain ⟨hopen, referent, hreferent⟩ := hcaptured
  -- the same identifier is left open in the rest of the block, before and after
  have hmem : ∀ outer : NameScope, r.resolve outer ∈
      Stmt.referencesAll own outer ((after s block target).map s.stmtTree) := by
    intro outer
    rw [Stmt.referencesAll_eq_map]
    exact List.mem_map_of_mem hr
  rw [hl.references_block_eq h] at hs
  have hbefore := ho.referent?_of_mem h
    (hs (List.mem_append_right _ (List.mem_append_right _ (hmem _))))
  have hnow := hsame _ (ht (hl.references_after_subset h (hmem _)))
  have hlookup : (Stmt.declaredAll (before.map s.stmtTree) ++ scope).lookup r.name =
      some referent := by
    have hspilled : ∀ outer : NameScope,
        (spilled s target way ++ outer).lookup r.name = some referent := fun outer => by
      rw [List.lookup_append, hreferent, Option.some_or]
    have heq := Option.some.inj (hbefore.symm.trans hnow)
    rwa [Reference.referent_resolve_of_none hopen, Reference.referent_resolve_of_none hopen,
      hspilled] at heq
  exact hl.not_mem_spilled h ho hin hscope (NameScope.mem_of_lookup_eq_some hlookup)
    (NameScope.mem_of_lookup_eq_some hreferent)

end Lifts

end Unwrap

namespace Opportunity

/-- A statement that is found in the shader of a program and unwrapped leaves every identifier that
is still there with what it referred to if, and only if, no identifier in the rest of the block is
captured. -/
theorem referent?_tryApply_iff {p : Program} {everywhere : Bool} {kinds : List OpportunityKind}
    {o : Opportunity} (hfind : o ∈ find (Shader.ofProgram p) everywhere kinds)
    {block target : StmtId} {way : UnwrapWay} (hchange : o.change = .unwrap block target way)
    (supply : NameSupply) (own : Bool) :
    (∀ id name, (o.tryApply (Shader.ofProgram p) supply).2.1.Reaches (.expr id) →
      (o.tryApply (Shader.ofProgram p) supply).2.1.expr id = .ident name →
      ∃ referent, (o.tryApply (Shader.ofProgram p) supply).2.1.referent? own id = some referent ∧
        (Shader.ofProgram p).referent? own id = some referent) ↔
      Unwrap.captured own (Shader.ofProgram p) block target way = [] := by
  have hlaid := Shader.laidOut_ofProgram p
  have h := hlaid.layered.grounded
  have ho := hlaid.owned
  have hholds := holds_of_mem_find h ho hfind
  obtain ⟨depth, change⟩ := o
  cases hchange
  rw [tryApply, if_pos hholds]
  obtain ⟨before, hl⟩ := Unwrap.exists_lifts h hholds
  have ho' := Unwrap.owned_apply h ho hholds
  change (∀ id name, (Unwrap.apply (Shader.ofProgram p) block target way).Reaches (.expr id) →
    (Unwrap.apply (Shader.ofProgram p) block target way).expr id = .ident name →
    ∃ referent, (Unwrap.apply (Shader.ofProgram p) block target way).referent? own id =
      some referent ∧ _) ↔ _
  constructor
  · intro hsame
    refine hl.captured_eq_nil h ho (Bool.and_eq_true_iff.mp hholds).1 fun r hr => ?_
    obtain ⟨hreaches, name, hname⟩ := ho'.of_mem_references hl.grounded hr
    obtain ⟨referent, hnow, hbefore⟩ := hsame r.id name hreaches hname
    rw [hbefore, ← hnow, ho'.referent?_of_mem hl.grounded hr]
  · intro hnone id name hreaches hname
    obtain ⟨r, hr, rfl⟩ := ho'.exists_reference hl.grounded own hreaches hname
    refine ⟨r.referent, ho'.referent?_of_mem hl.grounded hr, ho.referent?_of_mem h ?_⟩
    have hsubset := hl.restated.referencesFrom_subset (hl.references_subset h hnone) []
      (Shader.ofProgram p).decls
    rw [Shader.references, hl.restated.decls_eq] at hr
    exact hsubset hr

/-- A variable that is written to after a branch that declares another one. -/
def bareBranch : Program :=
  let declare : String → Stmt Unit Unit := fun name =>
    .node () (.vars ⟨.ofName "int", [⟨name, none, none⟩]⟩)
  let branch : Stmt Unit Unit :=
    .node () (.ifElse (.node () (.literal (.bool true))) (declare "y") none)
  let write : Stmt Unit Unit := .node () (.expr (.node () (.binary .assign
    (.node () (.ident "x")) (.node () (.literal (.int "1"))))))
  ⟨none, [.function ⟨.ofName "void", "main", [],
    some (.node () (.block [declare "x", branch, write]))⟩]⟩

/-- What is written to is the same variable when the branch is unwrapped. -/
theorem referent?_bareBranch :
    ∃ o ∈ find (Shader.ofProgram bareBranch) true [.unwrapStmt],
      o.change = .unwrap ⟨4⟩ ⟨2⟩ .onTrue ∧
        (o.tryApply (Shader.ofProgram bareBranch) {}).2.1.referent? true ⟨1⟩ =
          some (some (.inStmt ⟨0⟩ 0)) ∧
        (Shader.ofProgram bareBranch).referent? true ⟨1⟩ = some (some (.inStmt ⟨0⟩ 0)) := by
  have hfind : ⟨2, .unwrap ⟨4⟩ ⟨2⟩ .onTrue⟩ ∈
      find (Shader.ofProgram bareBranch) true [.unwrapStmt] :=
    List.mem_mergeSort.mpr (List.mem_flatMap.mpr ⟨.unwrapStmt, by decide, by decide +kernel⟩)
  have hnone : Unwrap.captured true (Shader.ofProgram bareBranch) ⟨4⟩ ⟨2⟩ .onTrue = [] := by
    decide +kernel
  have hbefore : (Shader.ofProgram bareBranch).referent? true ⟨1⟩ =
      some (some (.inStmt ⟨0⟩ 0)) := by
    decide +kernel
  obtain ⟨referent, hnow, hsame⟩ := (referent?_tryApply_iff hfind rfl {} true).mpr hnone ⟨1⟩ "x"
    (.expr (e := ⟨1⟩) (.expr (e := ⟨3⟩) (.stmt (t := ⟨3⟩) (.stmt (t := ⟨4⟩) (.decl (d := ⟨0⟩)
      (by decide +kernel)) (by decide +kernel)) (by decide +kernel)) (by decide +kernel))
      (by decide +kernel)) (by decide +kernel)
  exact ⟨_, hfind, rfl, hnow.trans (hsame.symm.trans hbefore), hbefore⟩

end Opportunity

end ShaderReducer
