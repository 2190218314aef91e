import ShaderReducer.Proofs.Analysis.Renumbered
import ShaderReducer.Proofs.Opportunity.Retyped
import ShaderReducer.Proofs.Opportunity.RoundTrip
import ShaderReducer.Proofs.Parser.ExprText
import ShaderReducer.Proofs.Reduction.Resumable

/-!
# The candidates of a run

A run fails where it makes a candidate that is not read back from its text. If the initial shader is
read back, this is a candidate with a member of decimal digits, or with a directive about the version
in the place of a version. Neither comes up where no member is taken of a whole number and no
directive is about the version: a change keeps the types of what is left, so that a number is only put
where a number was.
-/

namespace ShaderReducer

namespace Shader

variable {s t : Shader}

/-! ## Renumbered shaders -/

theorem Owned.mem_exprIds_iff (h : s.Grounded) (ho : s.Owned) {id : ExprId} :
    id ∈ s.exprIds ↔ s.Reaches (.expr id) := by
  rw [mem_exprIds]
  constructor
  · rintro ⟨e, he, rfl⟩
    exact ho.reaches_of_mem_liveExprs h ((ho.mem_exprVisits h).mp he).1
  · intro hid
    exact ⟨_, ho.exprTree_mem_exprVisits h hid, tag_exprTree s id⟩

theorem Owned.mem_stmtIds_iff (h : s.Grounded) (ho : s.Owned) {id : StmtId} :
    id ∈ s.stmtIds ↔ s.Reaches (.stmt id) := by
  rw [stmtIds, ← Multiset.mem_coe, ho.coe_stmtVisits h, mem_liveStmts]
  exact ho.isLive_iff_reaches h (.stmt id)

namespace Renumbers

variable {ρ : Renumbering}

/-- An expression that is reached was one that was reached, with another number. -/
theorem exists_exprId (h : Renumbers ρ s t) {id : ExprId} (hid : id ∈ t.exprIds) :
    ∃ id' ∈ s.exprIds, ρ.expr id' = id := by
  obtain ⟨e, he, rfl⟩ := Shader.mem_exprIds.mp hid
  rw [h.exprVisits_eq, List.map_map] at he
  obtain ⟨v, hv, rfl⟩ := List.mem_map.mp he
  exact ⟨v.2.tag, Shader.mem_exprIds.mpr ⟨_, List.mem_map_of_mem hv, rfl⟩,
    (Expr.tag_retag ρ.expr v.2).symm⟩

/-- A statement that is reached was one that was reached, with another number. -/
theorem exists_stmtId (h : Renumbers ρ s t) {id : StmtId} (hid : id ∈ t.stmtIds) :
    ∃ id' ∈ s.stmtIds, ρ.stmt id' = id := by
  rw [stmtIds, h.stmtVisits_eq, List.map_map] at hid
  obtain ⟨v, hv, rfl⟩ := List.mem_map.mp hid
  exact ⟨v.2.tag, List.mem_map_of_mem hv, (Stmt.tag_retag ρ.expr ρ.stmt v.2).symm⟩

end Renumbers

/-! ## Members of whole numbers -/

/-- Whether a member is taken of a whole number, as far as types are noted. -/
def takesFromWhole (types : Types) : ExprNode ExprId → Bool
  | .member base _ => types.get? base == some (.scalar .int)
  | _ => false

/-- No member is taken of a whole number. -/
def SparesWhole (s : Shader) : Prop :=
  ∀ id, s.Reaches (.expr id) → takesFromWhole (Types.ofShader s) (s.expr id) = false

theorem sparesWhole_of_lt
    (h : ∀ i < s.exprs.size, takesFromWhole (Types.ofShader s) (s.expr ⟨i⟩) = false) :
    s.SparesWhole := by
  intro id _
  by_cases hlt : id.index < s.exprs.size
  · exact h id.index hlt
  · rw [expr_of_size_le (Nat.le_of_not_lt hlt)]
    rfl

theorem sparesWhole_iff : s.SparesWhole ↔ ∀ id base field, s.Reaches (.expr id) →
    s.expr id = .member base field → (Types.ofShader s).get? base ≠ some (.scalar .int) := by
  constructor
  · intro h id base field hid hform
    have hspares := h id hid
    rw [hform] at hspares
    exact beq_eq_false_iff_ne.mp hspares
  · intro h id hid
    cases hform : s.expr id with
    | member base field => exact beq_eq_false_iff_ne.mpr (h id base field hid hform)
    | _ => rfl

/-- The type of a literal is noted where the literal is reached. -/
theorem Regular.get?_literal (hs : s.Regular) {id : ExprId} (hid : s.Reaches (.expr id))
    {value : Literal} (hform : s.expr id = .literal value) :
    (Types.ofShader s).get? id = some (Signatures.literalType value) := by
  obtain ⟨d, scope, hscoped⟩ := hid.exists_scoped
  rw [hscoped.get?_eq hs.grounded hs.owned hs.placed, hs.grounded.typeAt_eq, hform]
  rfl

/-- Where no member is taken of a whole number, none is taken of decimal digits. -/
theorem SparesWhole.not_glues (h : s.SparesWhole) (hs : s.Regular) : ¬ s.toProgram.Glues := by
  rintro ⟨d, hd, e, he, hglued⟩
  obtain ⟨tree, htree, rfl⟩ := List.mem_map.mp hd
  rw [DeclTree.exprs_erase] at he
  obtain ⟨⟨tag, form⟩, hmem, rfl⟩ := List.mem_map.mp he
  rw [Expr.isGlued_erase] at hglued
  have hvisit : .node tag form ∈ s.exprVisits.map Prod.snd :=
    (exprVisits_perm s).mem_iff.mpr (List.mem_flatMap.mpr ⟨tree, htree, hmem⟩)
  have honce := hs.owned.reachesOnce hs.grounded
  have hreaches : ∀ {e : Expr ExprId}, e ∈ s.exprVisits.map Prod.snd → s.Reaches (.expr e.tag) :=
    fun he => hs.owned.reaches_of_mem_liveExprs hs.grounded
      ((hs.owned.mem_exprVisits hs.grounded).mp he).1
  cases form with
  | member base field =>
      have hbase := hs.owned.mem_exprVisits_of_mem_children hs.grounded hvisit
        (c := base) List.mem_cons_self
      obtain ⟨baseTag, baseForm⟩ := base
      obtain ⟨text, rfl⟩ : ∃ text, baseForm = .literal (.int text) := by
        cases baseForm with
        | literal value =>
            cases value with
            | int text => exact ⟨text, rfl⟩
            | _ => cases hglued
        | _ => cases hglued
      exact sparesWhole_iff.mp h tag baseTag field (hreaches hvisit) (honce.expr_eq hvisit)
        (hs.get?_literal (hreaches hbase) (honce.expr_eq hbase))
  | _ => cases hglued

/-! ## Layouts -/

theorem LocalsPlaced.compact (h : s.LocalsPlaced) (hs : s.Grounded) (ho : s.Owned) :
    s.compact.LocalsPlaced := by
  have hlaid := laidOut_compact s
  have hrenumbers := renumbers_compact (ho.reachesOnce hs)
  refine localsPlaced_of_lt fun i hi u hbare => ?_
  have hlive := s.filled_compact (.stmt ⟨i⟩) hi
  have hreaches := (hlaid.owned.isLive_iff_reaches hlaid.layered.grounded (.stmt ⟨i⟩)).mp hlive
  obtain ⟨id, hid, hnumber⟩ := hrenumbers.exists_stmtId
    ((hlaid.owned.mem_stmtIds_iff hlaid.layered.grounded).mpr hreaches)
  rw [← hnumber, hrenumbers.stmt_eq hid, StmtNode.bareStmts_map] at hbare
  obtain ⟨u, hu, rfl⟩ := List.mem_map.mp hbare
  have hpart : u ∈ s.stmtIds := (ho.mem_stmtIds_iff hs).mpr
    (.stmt ((ho.mem_stmtIds_iff hs).mp hid) (StmtNode.mem_childStmts_of_mem_bareStmts hu))
  rw [hrenumbers.stmt_eq hpart, StmtNode.isVars_map]
  exact h id u hu

/-- In another layout a member is taken of the same, with the same type. -/
theorem Owned.exists_member_of_compact (hs : s.Grounded) (ho : s.Owned) {id base : ExprId}
    {field : String} (hid : s.compact.Reaches (.expr id))
    (hform : s.compact.expr id = .member base field) :
    ∃ id' base', s.Reaches (.expr id') ∧ s.expr id' = .member base' field ∧
      (Types.ofShader s.compact).get? base = (Types.ofShader s).get? base' := by
  have hlaid := laidOut_compact s
  have hrenumbers := renumbers_compact (ho.reachesOnce hs)
  obtain ⟨id, hmem, rfl⟩ := hrenumbers.exists_exprId
    ((hlaid.owned.mem_exprIds_iff hlaid.layered.grounded).mpr hid)
  have hreaches := (ho.mem_exprIds_iff hs).mp hmem
  rw [hrenumbers.expr_eq hmem] at hform
  cases hold : s.expr id with
  | member base' field' =>
      rw [hold] at hform
      cases hform
      have hbase : s.Reaches (.expr base') :=
        .expr hreaches (by simp [exprsIn, hold, ExprNode.children])
      exact ⟨id, base', hreaches, hold, hrenumbers.get?_types ((ho.mem_exprIds_iff hs).mpr hbase)⟩
  | _ =>
      rw [hold] at hform
      cases hform

theorem NamesFields.compact (h : s.NamesFields) (hs : s.Grounded) (ho : s.Owned) :
    s.compact.NamesFields := by
  intro id hid
  cases hform : s.compact.expr id with
  | member base field =>
      obtain ⟨id', base', hid', hform', htype⟩ := ho.exists_member_of_compact hs hid hform
      rw [namesField_member, structDecls_compact, htype]
      exact namesField_member.mp (hform' ▸ h id' hid')
  | _ => rfl

/-- A shader that is laid out anew is as regular as it was. -/
theorem Regular.compact (h : s.Regular) : s.compact.Regular where
  grounded := (laidOut_compact s).layered.grounded
  owned := (laidOut_compact s).owned
  structs := (structDecls_compact s).symm ▸ h.structs
  placed := h.placed.compact h.grounded h.owned
  named := h.named.compact h.grounded h.owned

theorem SparesWhole.compact (h : s.SparesWhole) (hs : s.Grounded) (ho : s.Owned) :
    s.compact.SparesWhole := by
  rw [sparesWhole_iff] at h ⊢
  intro id base field hid hform
  obtain ⟨id', base', hid', hform', htype⟩ := ho.exists_member_of_compact hs hid hform
  rw [htype]
  exact h id' base' field hid' hform'

/-! ## Robust shaders -/

theorem directive_mem_toProgram {text : String} :
    .directive text ∈ s.toProgram.decls ↔ ∃ d ∈ s.decls, s.decl d = .directive text := by
  rw [toProgram, declTrees, List.map_map, List.mem_map]
  refine exists_congr fun d => and_congr_right fun _ => ?_
  rw [Function.comp_apply, DeclTree.erase, declTree, Decl.map_map]
  cases s.decl d <;> simp [Decl.map]

/-- A regular shader in which no member is taken of a whole number, and which has a version if one of
its directives is about the version. -/
structure Robust (s : Shader) : Prop where
  regular : s.Regular
  spares : s.SparesWhole
  version : s.toProgram.version = none → ∀ text, .directive text ∈ s.toProgram.decls →
    mentionsVersion text = false

namespace Robust

theorem compact (h : s.Robust) : s.compact.Robust where
  regular := h.regular.compact
  spares := h.spares.compact h.regular.grounded h.regular.owned
  version := (toProgram_compact s).symm ▸ h.version

theorem not_hidesVersion (h : s.Robust) : ¬ s.toProgram.HidesVersion := by
  rintro ⟨hnone, text, hhead, hmentions⟩
  have hfalse := h.version hnone text (List.mem_of_head? hhead)
  rw [hmentions] at hfalse
  cases hfalse

end Robust

end Shader

/-! ## Changes -/

/-- A declaration is kept when a field is inlined, unless it is a structure. -/
theorem InlineField.decl_apply (s : Shader) (supply : NameSupply) (outerId : DeclId) (field : String)
    (d : DeclId) : (apply s supply outerId field).1.decl d = s.decl d ∨
      ∃ decl, (apply s supply outerId field).1.decl d = .struct decl := by
  obtain heq | ⟨plan, outer, inner, wrapper, fields, -, -, heq⟩ :=
    apply_eq_or_inlined s supply outerId field
  · exact .inl (by rw [heq])
  · rw [heq, (decls_inlined s outerId outer plan fields).2.2.2, Shader.decl_setDecl]
    split
    next => exact .inr ⟨_, rfl⟩
    next => exact .inl rfl

namespace Opportunity

variable {s t : Shader}

/-- A change keeps the version and puts in no directive. -/
theorem directives_apply {o : Opportunity} (hholds : o.holds s = true) (supply : NameSupply) :
    (o.apply s supply).1.version = s.version ∧ ∀ d ∈ (o.apply s supply).1.decls, ∀ text,
      (o.apply s supply).1.decl d = .directive text → d ∈ s.decls ∧ s.decl d = .directive text := by
  have hsame : ∀ t : Shader, t.decls = s.decls ∧ t.declNodes = s.declNodes → ∀ d ∈ t.decls, ∀ text,
      t.decl d = .directive text → d ∈ s.decls ∧ s.decl d = .directive text := by
    rintro t ⟨hdecls, hnodes⟩ d hd text hdirective
    rw [Shader.decl_congr hnodes] at hdirective
    exact ⟨hdecls ▸ hd, hdirective⟩
  obtain ⟨depth, change⟩ := o
  cases change with
  | toSubExpr target child =>
      refine ⟨?_, hsame _ (Shader.decls_replaceWithChild s target child)⟩
      simp only [apply]
      rw [Shader.replaceWithChild_eq]
      rfl
  | toConstant target constant =>
      exact ⟨Shader.version_constant s target constant,
        hsame _ (Constant.decls_apply s target constant)⟩
  | removeDecl gone =>
      refine ⟨(Shader.same_removeDecl s gone).1, fun d hd text hdirective => ?_⟩
      simp only [apply] at hd hdirective
      rw [Shader.decls_removeDecl] at hd
      rw [Shader.decl_removeDecl] at hdirective
      exact ⟨List.mem_of_mem_erase hd, hdirective⟩
  | inlineField outer field =>
      refine ⟨InlineField.version_apply s supply outer field, fun d hd text hdirective => ?_⟩
      simp only [apply] at hd hdirective
      rw [(InlineField.same_apply s supply outer field).1] at hd
      obtain heq | ⟨decl, heq⟩ := InlineField.decl_apply s supply outer field d
      · exact ⟨hd, heq.symm.trans hdirective⟩
      · rw [heq] at hdirective
        cases hdirective
  | removeStmt block stmt =>
      exact ⟨Shader.version_removeFromBlock s block stmt,
        hsame _ (Shader.decls_removeFromBlock s block stmt)⟩
  | removeVariable stmt block name =>
      exact ⟨UnusedVariable.version_apply s stmt block name,
        hsame _ (UnusedVariable.decls_apply s stmt block name)⟩
  | unwrap block target way =>
      refine ⟨?_, hsame _ (Unwrap.decls_apply hholds)⟩
      obtain ⟨body, kept, dropped, i, -, -, -, heq⟩ := Unwrap.exists_eq_lifted hholds
      simp only [apply]
      rw [heq]
      rfl

/-- A change keeps a shader robust that gives no expression another type. -/
theorem robust_apply (hs : s.Robust) {o : Opportunity} (hholds : o.holds s = true)
    (hspares : o.change.SparesTypes s) (supply : NameSupply) : (o.apply s supply).1.Robust := by
  obtain ⟨hregular, hkeeps, -⟩ := regular_apply hs.regular hholds hspares supply
  obtain ⟨hversion, hdirectives⟩ := directives_apply hholds supply
  refine ⟨hregular, Shader.sparesWhole_iff.mpr fun id base field hid hform => ?_,
    fun hnone text htext => ?_⟩
  · obtain ⟨id', field', hid', hform', -⟩ :=
      exists_member_of_apply hs.regular.grounded hholds supply hkeeps hid hform
    have hold : s.Reaches (.expr base) :=
      .expr hid' (by simp [Shader.exprsIn, hform', ExprNode.children])
    have hbase : (o.apply s supply).1.Reaches (.expr base) :=
      .expr hid (by simp [Shader.exprsIn, hform, ExprNode.children])
    have hlt := Shader.lt_size_of_mem_liveExprs
      (hs.regular.owned.mem_liveExprs_of_reaches hs.regular.grounded hold)
    rw [(hkeeps.get?_eq base hbase hlt).2]
    exact Shader.sparesWhole_iff.mp hs.spares id' base field' hid' hform'
  · obtain ⟨d, hd, hdirective⟩ := Shader.directive_mem_toProgram.mp htext
    exact hs.version (hversion.symm.trans hnone) text
      (Shader.directive_mem_toProgram.mpr ⟨d, hdirectives d hd text hdirective⟩)

/-- All opportunities of a list, tried one after the other, keep a shader robust. -/
theorem robust_tryAll (hs : s.Robust) {everywhere : Bool} {kinds : List OpportunityKind}
    {os : List Opportunity} (hos : ∀ o ∈ os, o ∈ find s everywhere kinds) (supply : NameSupply) :
    (tryAll os s supply).2.1.Robust :=
  tryAll_invariant_of_find hs.regular hos hs
    (fun _ _ ht _ hholds hspares supply => robust_apply ht hholds hspares supply) supply

/-- All opportunities of a list, tried one after the other, keep what can be read. -/
theorem valid_tryAll (hs : s.Valid) {everywhere : Bool} {kinds : List OpportunityKind}
    {os : List Opportunity} (hos : ∀ o ∈ os, o ∈ find s everywhere kinds) (supply : NameSupply) :
    (tryAll os s supply).2.1.Valid :=
  tryAll_invariant (motive := Shader.Valid) (fun _ ht o ho hholds supply =>
    valid_apply ht (valid_of_mem_find (hos o ho)) hholds supply) hs supply

end Opportunity

/-! ## The text of a shader -/

namespace Shader

variable {s : Shader}

/-- A shader that is read back from its text holds what can be read. -/
theorem valid_compact_of_readable (h : s.candidateFault? = none) : s.compact.Valid := by
  obtain ⟨p, hp, hagrees⟩ := s.candidateFault?_eq_none_iff.mp h
  rw [agrees_iff, toProgram_ofProgram] at hagrees
  rw [compact_eq]
  exact valid_ofProgram ((Program.valid_of_parse hp).1.of_bare_eq hagrees)

/-- A shader of what can be read is read back, unless a member of decimal digits becomes a number in
its text, or its first directive is taken for its version. -/
theorem Valid.candidateFault?_eq_none_iff (h : s.Valid) :
    s.candidateFault? = none ↔ ¬ s.toProgram.Glues ∧ ¬ s.toProgram.HidesVersion := by
  rw [s.candidateFault?_eq_none_iff, ← Program.parse_print_iff h.toProgram]
  simp only [agrees_iff, toProgram_ofProgram]
  rfl

end Shader

/-! ## Searches -/

namespace Search

variable {σ : Type} {q : Search σ} {p : Position σ}

/-- A search makes a candidate: at a position that it comes to, it draws the chunk that gives it. -/
def Makes (q : Search σ) (p : Position σ) (candidate : Shader) : Prop :=
  ∃ p', q.Passes p p' ∧ p'.remaining ≠ [] ∧
    (Opportunity.tryAll (q.chunk p') q.accepted.shader p'.effort.names).1.any id = true ∧
    (Opportunity.tryAll (q.chunk p') q.accepted.shader p'.effort.names).2.1 = candidate

theorem failed_of_judged_iff {candidate : ReductionState} {w : World σ} {step : Nat}
    {fault : CandidateFault} :
    (q.judged candidate w).1 = .failed (.invalidCandidate step fault) ↔
      step = q.step ∧ candidate.shader.candidateFault? = some fault := by
  rw [judged]
  cases hfault : candidate.shader.candidateFault? with
  | some fault' => simp [eq_comm]
  | none =>
      constructor
      · intro h
        dsimp only at h
        split at h
        split at h
        next => cases h
        next => cases h
        next => split at h <;> cases h
      · rintro ⟨-, hfault'⟩
        cases hfault'

theorem failed_of_trial_iff {step : Nat} {fault : CandidateFault} :
    (q.trial p).1 = .failed (.invalidCandidate step fault) ↔
      (Opportunity.tryAll (q.chunk p) q.accepted.shader p.effort.names).1.any id = true ∧
      step = q.step ∧
      (Opportunity.tryAll (q.chunk p) q.accepted.shader p.effort.names).2.1.candidateFault? =
        some fault := by
  rw [trial, tryChunk]
  dsimp only
  split
  next hany => exact failed_of_judged_iff.trans (and_iff_right hany).symm
  next hany =>
    constructor
    · intro h
      cases h
    · rintro ⟨hany', -⟩
      exact absurd hany' hany

/-- A search fails with an unreadable candidate if it makes one. -/
theorem failed_of_runFrom_iff {step : Nat} {fault : CandidateFault} :
    (q.runFrom p).1 = .failed (.invalidCandidate step fault) ↔
      step = q.step ∧ ∃ candidate, q.Makes p candidate ∧ candidate.candidateFault? = some fault := by
  constructor
  · intro h
    obtain ⟨p', hpasses, hends⟩ := q.exists_ends p
    generalize q.runFrom p = result at h hends
    cases hends with
    | dry => cases h
    | accepted => cases h
    | failed hleft htrial =>
        cases h
        obtain ⟨hany, hstep, hfault⟩ := failed_of_trial_iff.mp htrial
        exact ⟨hstep, _, ⟨p', hpasses, hleft, hany, rfl⟩, hfault⟩
  · rintro ⟨hstep, _, ⟨p', hpasses, hleft, hany, rfl⟩, hfault⟩
    have htrial := failed_of_trial_iff.mpr ⟨hany, hstep, hfault⟩
    rw [runFrom_of_passes hpasses, (Ends.failed hleft htrial).runFrom_eq]

end Search

/-! ## Runs -/

namespace Reduction

open Ledger

variable {σ : Type} {r : Reduction σ} {start p p' : Progress} {w w' : World σ} {step : Nat}
  {fault : CandidateFault}

theorem inaccessible_of_finish {error : ReductionError}
    (h : (r.finish p).run w = (.error error, w')) : ∃ path, error = .inaccessible path := by
  rw [finish, run_bind_stateful] at h
  split at h
  next w₁ _ =>
    rw [run_bind_stateful] at h
    split at h
    next => cases h
    next hremove =>
      cases h
      have hresult : (r.ledger.removeMarker.run w₁.disk).1 = .error error := congrArg Prod.fst hremove
      rw [run_removeMarker] at hresult
      split at hresult
      next => cases hresult
      next => cases hresult
      next =>
        cases hresult
        exact ⟨_, rfl⟩
  next hwrite =>
    cases h
    exact (r.ledger.writes_writeState none p.accepted w.disk).inaccessible hwrite

theorem failed_of_advance_iff :
    (∃ w', (r.advance p).run w = (.error (.invalidCandidate step fault), w')) ↔
      ((r.search p).runFrom (r.firstPosition p w)).1 = .failed (.invalidCandidate step fault) := by
  constructor
  · rintro ⟨w', h⟩
    obtain ⟨hsearch, -⟩ | ⟨path, heq⟩ := failed_of_advance h
    · rw [hsearch]
    · cases heq
  · intro h
    refine ⟨((r.search p).runFrom (r.firstPosition p w)).2.world, ?_⟩
    rw [advance_eq, ← Prod.eta ((r.search p).runFrom (r.firstPosition p w)), h]

theorem taken_le_of_steps (h : r.Steps (p, w) (p', w')) : p.taken ≤ p'.taken := by
  generalize hend : (p', w') = last at h
  induction h generalizing p' w' with
  | refl =>
      cases hend
      exact Nat.le_refl _
  | @tail before last _ hstep ih =>
      obtain ⟨q, v⟩ := before
      subst hend
      obtain ⟨_, hnext⟩ := exists_stepsTo hstep
      exact (ih rfl).trans (hnext.taken ▸ Nat.le_succ _)

theorem goes_of_steps (h : r.Steps (p, w) (p', w')) (hgoes : r.budgetSpent p' = false) :
    r.budgetSpent p = false := by
  rw [budgetSpent, Option.any_eq_false] at hgoes ⊢
  intro most hmost
  have hnot := of_decide_eq_false (hgoes most hmost)
  exact decide_eq_false fun hle => hnot (hle.trans (taken_le_of_steps h))

/-- A run that takes some steps, which it may take, goes on from where they lead. -/
theorem reduce_of_steps (h : r.Steps (p, w) (p', w')) (hgoes : r.budgetSpent p' = false) {more : Nat}
    (hmore : p'.taken < p.taken + more) :
    (r.reduce more p).run w = (r.reduce (p.taken + more - p'.taken) p').run w' := by
  generalize hend : (p', w') = last at h
  generalize hfirst : (p, w) = first at h
  induction h using Relation.ReflTransGen.head_induction_on generalizing p w more with
  | refl =>
      cases hfirst
      cases hend
      rw [Nat.add_sub_cancel_left]
  | @head before after hstep hrest ih =>
      obtain ⟨q, v⟩ := after
      subst hfirst hend
      obtain ⟨_, hnext⟩ := exists_stepsTo hstep
      have hle := taken_le_of_steps hrest
      rw [hnext.taken] at hle
      dsimp only at hle hstep hnext
      have htaken := hnext.taken
      obtain ⟨more, rfl⟩ := Nat.exists_eq_add_one_of_ne_zero (n := more) (by omega)
      rw [reduce, run_bind_stateful, hstep]
      dsimp only
      rw [goes_of_steps hrest hgoes, if_neg Bool.false_ne_true, ih (by omega) rfl, htaken,
        Nat.add_assoc, Nat.add_comm 1]

/-- A run that fails with a candidate comes to a search that does. -/
theorem exists_of_reduce_failed {more : Nat} (hgoes : r.budgetSpent p = false)
    (h : (r.reduce more p).run w = (.error (.invalidCandidate step fault), w')) :
    ∃ p' w₁, r.Steps (p, w) (p', w₁) ∧ r.budgetSpent p' = false ∧ p'.taken < p.taken + more ∧
      ((r.search p').runFrom (r.firstPosition p' w₁)).1 = .failed (.invalidCandidate step fault) := by
  induction more generalizing p w with
  | zero => cases h
  | succ more ih =>
      rw [reduce, run_bind_stateful] at h
      cases hadvance : (r.advance p).run w with
      | mk result v =>
          rw [hadvance] at h
          obtain error | _ | q := result
          · cases h
            exact ⟨p, w, .refl, hgoes, by omega, failed_of_advance_iff.mp ⟨_, hadvance⟩⟩
          · obtain ⟨path, heq⟩ := inaccessible_of_finish h
            cases heq
          · dsimp only at h
            cases hspent : r.budgetSpent q with
            | true =>
                rw [hspent] at h
                cases h
            | false =>
                rw [hspent] at h
                obtain ⟨p', w₁, hsteps, hgoes', hlt, hfailed⟩ := ih hspent h
                obtain ⟨_, hnext⟩ := exists_stepsTo hadvance
                rw [hnext.taken] at hlt
                exact ⟨p', w₁, .head hadvance hsteps, hgoes', by omega, hfailed⟩

/-- A run makes a candidate for a step: it comes to a state from which it searches for this step, and
the search makes the candidate. -/
def Makes (r : Reduction σ) (start : Progress × World σ) (step : Nat) (candidate : Shader) : Prop :=
  ∃ p w, r.Steps start (p, w) ∧ r.budgetSpent p = false ∧ p.taken < stepNumbers ∧
    step = p.step + 1 ∧ (r.search p).Makes (r.firstPosition p w) candidate

/-- A run fails with a candidate if it makes one that is not read back. -/
theorem failed_of_go_iff (hstart : p.taken = 0) :
    (∃ w', (r.go p).run w = (.error (.invalidCandidate step fault), w')) ↔
      ∃ candidate, r.Makes (p, w) step candidate ∧ candidate.candidateFault? = some fault := by
  rw [go]
  constructor
  · rintro ⟨w', h⟩
    cases hspent : r.budgetSpent p with
    | true =>
        rw [hspent] at h
        cases h
    | false =>
        rw [hspent] at h
        obtain ⟨p', w₁, hsteps, hgoes, hlt, hfailed⟩ := exists_of_reduce_failed hspent h
        rw [hstart, Nat.zero_add] at hlt
        obtain ⟨hstep, candidate, hmakes, hfault⟩ := Search.failed_of_runFrom_iff.mp hfailed
        exact ⟨candidate, ⟨p', w₁, hsteps, hgoes, hlt, hstep, hmakes⟩, hfault⟩
  · rintro ⟨candidate, ⟨p', w₁, hsteps, hgoes, hlt, hstep, hmakes⟩, hfault⟩
    have hlt' : p'.taken < p.taken + stepNumbers := by rwa [hstart, Nat.zero_add]
    have hfailed := Search.failed_of_runFrom_iff.mpr ⟨hstep, candidate, hmakes, hfault⟩
    obtain ⟨w', hadvance⟩ := failed_of_advance_iff.mpr hfailed
    obtain ⟨more, hmore⟩ := Nat.exists_eq_add_one_of_ne_zero (Nat.sub_ne_zero_of_lt hlt')
    refine ⟨w', ?_⟩
    rw [goes_of_steps hsteps hgoes, if_neg Bool.false_ne_true, reduce_of_steps hsteps hgoes hlt', hmore,
      reduce, run_bind_stateful, hadvance]

/-! ### What all candidates have in common -/

section

variable {motive : Shader → Prop} (hcompact : ∀ s, motive s → motive s.compact)
  (htry : ∀ s os supply, motive s →
    (∀ o ∈ os, o ∈ Opportunity.find s r.config.everywhere r.config.kinds) →
    motive (Opportunity.tryAll os s supply).2.1)

include hcompact htry

/-- What a layout and opportunities that were found keep is kept by all steps. -/
theorem accepted_of_steps (hstart : motive start.accepted.shader) (h : r.Steps (start, w) (p, w')) :
    motive p.accepted.shader := by
  generalize hend : (p, w') = last at h
  induction h generalizing p w' with
  | refl =>
      cases hend
      exact hstart
  | @tail before last _ hstep ih =>
      obtain ⟨q, v⟩ := before
      subst hend
      obtain ⟨candidate, hfound, haccepted, -⟩ := exists_of_advance hstep
      obtain ⟨chunk, names, hchunk, -, hcandidate⟩ := Search.exists_chunk_of_accepted hfound
      rw [haccepted, hcandidate]
      exact hcompact _ (htry _ chunk names (ih rfl) hchunk)

/-- What a layout and opportunities that were found keep is true of all candidates. -/
theorem Makes.invariant (hstart : motive start.accepted.shader) {candidate : Shader}
    (h : r.Makes (start, w) step candidate) : motive candidate := by
  obtain ⟨p, w₁, hsteps, -, -, -, p', hpasses, -, -, rfl⟩ := h
  refine htry _ _ _ (accepted_of_steps hcompact htry hstart hsteps) fun o ho => ?_
  exact Search.remaining_subset_of_passes hpasses ((r.search p).chunk_subset p' ho)

end

/-! ### Runs that start a reduction -/

section

variable {config : Config} {l : Ledger} {judge : Judge σ} {initial : ReductionState}

/-- A run that starts a reduction writes its initial state and goes on. -/
theorem fresh_eq (hkinds : config.kinds.isEmpty = false) (w : World σ) :
    (fresh config l judge initial).run w = match ((opening config l initial).run w.disk).1 with
      | .ok () => (go ⟨config, l, judge, config.seed⟩ (freshStart config initial)).run
          (opened config l initial w)
      | .error error => (.error error, opened config l initial w) := by
  have hbind : fresh config l judge initial = World.onDisk (opening config l initial) >>= fun _ =>
      go ⟨config, l, judge, config.seed⟩ (freshStart config initial) := by
    rw [opening, World.onDisk_bind, bind_assoc]
    simp only [fresh, hkinds]
    rfl
  rw [hbind, run_bind_stateful, run_onDisk, opened]
  cases ((opening config l initial).run w.disk).1 <;> rfl

theorem inaccessible_of_opening {d : Disk} {error : ReductionError}
    (h : ((opening config l initial).run d).1 = .error error) : ∃ path, error = .inaccessible path :=
  (Ledger.writes_bind (l.writes_writeState (some 0) (freshStart config initial).accepted d)
    fun _ d' _ => l.writes_writeMarker ⟨0, config.seed⟩ d').run_error error _ (Prod.ext h rfl)

/-- A run that starts a reduction fails with a candidate if it has written its initial state and makes
a candidate that is not read back. -/
theorem failed_of_fresh_iff (w : World σ) :
    (∃ w', (fresh config l judge initial).run w = (.error (.invalidCandidate step fault), w')) ↔
      config.kinds.isEmpty = false ∧ ((opening config l initial).run w.disk).1 = .ok () ∧
      ∃ candidate, Makes ⟨config, l, judge, config.seed⟩
        (freshStart config initial, opened config l initial w) step candidate ∧
        candidate.candidateFault? = some fault := by
  cases hkinds : config.kinds.isEmpty with
  | true =>
      constructor
      · rintro ⟨w', h⟩
        simp only [fresh, hkinds] at h
        cases h
      · rintro ⟨hnone, -⟩
        cases hnone
  | false =>
      rw [fresh_eq hkinds, eq_self, true_and]
      cases hopening : ((opening config l initial).run w.disk).1 with
      | error error =>
          constructor
          · rintro ⟨w', h⟩
            obtain ⟨path, rfl⟩ := inaccessible_of_opening hopening
            cases h
          · rintro ⟨hok, -⟩
            cases hok
      | ok _ => exact (failed_of_go_iff rfl).trans (and_iff_right rfl).symm

/-- A reduction is started from a shader that is read back from its text. The run fails with a
candidate if it has written its initial state and makes a candidate, for this step, in which a member
is taken of decimal digits, or whose first directive is taken for its version. If the initial shader is
robust, that is no candidate of the run. -/
theorem invalidCandidate_of_fresh_iff (config : Config) (l : Ledger) (judge : Judge σ)
    (initial : ReductionState) (hreadable : initial.shader.candidateFault? = none) (w : World σ) :
    (∀ step, (∃ fault w', (fresh config l judge initial).run w =
        (.error (.invalidCandidate step fault), w')) ↔
      config.kinds.isEmpty = false ∧ ((opening config l initial).run w.disk).1 = .ok () ∧
      ∃ candidate, Makes ⟨config, l, judge, config.seed⟩
        (freshStart config initial, opened config l initial w) step candidate ∧
        (candidate.toProgram.Glues ∨ candidate.toProgram.HidesVersion)) ∧
    (initial.shader.compact.Robust → ∀ step fault w',
      (fresh config l judge initial).run w ≠ (.error (.invalidCandidate step fault), w')) := by
  have hstart : (freshStart config initial).accepted.shader.Valid :=
    Shader.valid_compact_of_readable hreadable
  have hvalid : ∀ {step candidate}, Makes ⟨config, l, judge, config.seed⟩
      (freshStart config initial, opened config l initial w) step candidate → candidate.Valid :=
    Makes.invariant (motive := Shader.Valid) (fun _ => Shader.Valid.compact)
      (fun _ _ supply hs hos => Opportunity.valid_tryAll hs hos supply) hstart
  have hiff : ∀ step, (∃ fault w', (fresh config l judge initial).run w =
        (.error (.invalidCandidate step fault), w')) ↔
      config.kinds.isEmpty = false ∧ ((opening config l initial).run w.disk).1 = .ok () ∧
      ∃ candidate, Makes ⟨config, l, judge, config.seed⟩
        (freshStart config initial, opened config l initial w) step candidate ∧
        (candidate.toProgram.Glues ∨ candidate.toProgram.HidesVersion) := by
    intro step
    simp only [failed_of_fresh_iff, exists_and_left]
    refine and_congr_right fun _ => and_congr_right fun _ => ?_
    rw [exists_comm]
    refine exists_congr fun candidate => ?_
    rw [exists_and_left]
    refine and_congr_right fun hmakes => ?_
    rw [← Option.isSome_iff_exists, ← Option.ne_none_iff_isSome, Ne,
      (hvalid hmakes).candidateFault?_eq_none_iff, ← not_or, not_not]
  refine ⟨hiff, fun hrobust step fault w' h => ?_⟩
  obtain ⟨-, -, candidate, hmakes, hbad⟩ := (hiff step).mp ⟨fault, w', h⟩
  have hstart' : (freshStart config initial).accepted.shader.Robust := hrobust
  have hcandidate : candidate.Robust :=
    Makes.invariant (motive := Shader.Robust) (fun _ => Shader.Robust.compact)
      (fun _ _ supply hs hos => Opportunity.robust_tryAll hs hos supply) hstart' hmakes
  exact hbad.elim (hcandidate.spares.not_glues hcandidate.regular) hcandidate.not_hidesVersion

end

/-- A component that is taken of a variable of some type, behind a version and a directive about it. -/
def componentOf (type : String) : Program :=
  ⟨some ⟨310, true⟩, [.directive "#define version",
    .function ⟨.ofName "void", "f", [], some (.node () (.block [
      .node () (.vars ⟨.ofName type, [⟨"a", none, none⟩]⟩),
      .node () (.expr (.node () (.member (.node () (.ident "a")) "x")))]))⟩]⟩

theorem robust_componentOf_vec2 : (Shader.ofProgram (componentOf "vec2")).compact.Robust := by
  have hlaid := Shader.laidOut_ofProgram (componentOf "vec2")
  have hstructs : StructsSound (componentOf "vec2").structDecls :=
    .of_rank (fun _ => 0) (by decide +kernel) (by decide +kernel)
  have hrobust : (Shader.ofProgram (componentOf "vec2")).Robust :=
    { regular :=
        { grounded := hlaid.layered.grounded
          owned := hlaid.owned
          structs := by rwa [Shader.structDecls_ofProgram]
          placed := Shader.localsPlaced_of_lt (by decide +kernel)
          named := Shader.namesFields_of_lt (by decide +kernel) }
      spares := Shader.sparesWhole_of_lt (by decide +kernel)
      version := fun hnone => by
        rw [Shader.toProgram_ofProgram] at hnone
        cases hnone }
  exact hrobust.compact

/-- Constants are put in the place of expressions, and nothing else is done. -/
def constantsOnly : Config :=
  { pairwise with kinds := [.exprToConstant] }

/-- A run that puts constants in the place of expressions, for a judge that accepts them. -/
def putsConstants (p : Program) : WorldM ReductionError Unit Outcome :=
  fresh constantsOnly outLedger Judge.always ⟨Shader.ofProgram p, {}⟩

/-- The run fails on a component of a whole number, where it makes a component of decimal digits. It
does not on a component of a vector. -/
theorem invalidCandidate_componentOf :
    (∀ type ∈ ["int", "vec2"], (Shader.ofProgram (componentOf type)).candidateFault? = none) ∧
    (∃ candidate, Makes ⟨constantsOnly, outLedger, Judge.always, constantsOnly.seed⟩
      (freshStart constantsOnly ⟨Shader.ofProgram (componentOf "int"), {}⟩,
        opened constantsOnly outLedger ⟨Shader.ofProgram (componentOf "int"), {}⟩ emptyDirectory)
      1 candidate ∧ candidate.toProgram.Glues) ∧
    (∃ fault w', (putsConstants (componentOf "int")).run emptyDirectory =
      (.error (.invalidCandidate 1 fault), w')) ∧
    (Shader.ofProgram (componentOf "vec2")).compact.Robust ∧
    ∀ step fault w', (putsConstants (componentOf "vec2")).run emptyDirectory ≠
      (.error (.invalidCandidate step fault), w') := by
  have hreadable : ∀ type ∈ ["int", "vec2"],
      (Shader.ofProgram (componentOf type)).candidateFault? = none := by
    decide +kernel
  have hmakes : ∃ candidate, Makes ⟨constantsOnly, outLedger, Judge.always, constantsOnly.seed⟩
      (freshStart constantsOnly ⟨Shader.ofProgram (componentOf "int"), {}⟩,
        opened constantsOnly outLedger ⟨Shader.ofProgram (componentOf "int"), {}⟩ emptyDirectory)
      1 candidate ∧ candidate.toProgram.Glues :=
    ⟨_, ⟨_, _, .refl, rfl, by decide, rfl, _, .refl, by decide +kernel, by decide +kernel, rfl⟩,
      by decide +kernel⟩
  have hopened : ((opening constantsOnly outLedger
      ⟨Shader.ofProgram (componentOf "int"), {}⟩).run emptyDirectory.disk).1 = .ok () := by
    rfl
  obtain ⟨hint, -⟩ := invalidCandidate_of_fresh_iff constantsOnly outLedger Judge.always
    ⟨Shader.ofProgram (componentOf "int"), {}⟩ (hreadable "int" (by simp)) emptyDirectory
  obtain ⟨-, hvec⟩ := invalidCandidate_of_fresh_iff constantsOnly outLedger Judge.always
    ⟨Shader.ofProgram (componentOf "vec2"), {}⟩ (hreadable "vec2" (by simp)) emptyDirectory
  obtain ⟨candidate, hmakes', hglues⟩ := hmakes
  exact ⟨hreadable, ⟨candidate, hmakes', hglues⟩,
    (hint 1).mpr ⟨rfl, hopened, candidate, hmakes', .inl hglues⟩, robust_componentOf_vec2,
    hvec robust_componentOf_vec2⟩

end Reduction

end ShaderReducer
