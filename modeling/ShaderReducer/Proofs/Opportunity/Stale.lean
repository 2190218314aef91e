import ShaderReducer.Proofs.Opportunity.InlineTypes
import ShaderReducer.Proofs.Opportunity.Pruning

/-!
# Changes that are made once

A change that was made does not hold in what it made. What it is about is gone then: the slots that
it names are dead, the constant is there already, or no variable or field has the name any more. The
last needs a name that is given once, for of several variables or fields of one name only the first
one goes.
-/

namespace ShaderReducer

namespace Shader

variable {s : Shader}

theorem standsIn_eq_false_of_not_mem {block stmt : StmtId} (h : stmt ∉ s.liveStmts) :
    s.standsIn block stmt = false :=
  Bool.eq_false_of_not_eq_true fun hin => h (standsIn_iff.mp hin).2.1

/-- An operand that takes the place of an operation leaves its own slot dead. -/
theorem not_mem_liveExprs_replaceWithChild (s : Shader) (target child : ExprId) :
    child ∉ (s.replaceWithChild target child).liveExprs := by
  rw [replaceWithChild_eq, liveExprs_setExpr, liveExprs_forgetExprs, Multiset.mem_filter]
  exact fun hlive => hlive.2 (List.mem_append_right _ List.mem_cons_self)

/-- The names that a declaration in a function gives, in order. -/
def localNames (s : Shader) (stmt : StmtId) : List String :=
  match s.stmt stmt with
  | .vars decl => decl.declarators.map Declarator.name
  | _ => []

/-- The names of the fields of a structure, in order. -/
def fieldNames (s : Shader) (decl : DeclId) : List String :=
  match s.decl decl with
  | .struct decl => decl.fields.map FieldDecl.name
  | _ => []

end Shader

/-- Whether the name that a change goes by is given once where the change looks for it. -/
def Change.namesOne (s : Shader) : Change → Bool
  | .removeVariable stmt _ name => (s.localNames stmt).count name == 1
  | .inlineField outer field => (s.fieldNames outer).count field == 1
  | .toSubExpr _ _ | .toConstant _ _ | .removeDecl _ | .removeStmt _ _ | .unwrap _ _ _ => true

namespace UnusedVariable

variable {s : Shader} {stmt : StmtId} {block : Option StmtId} {name : String}

theorem any_eraseP_iff {ρ : Type} {ds : List (Declarator ρ)} :
    (ds.eraseP fun d => d.name == name).any (fun d => d.name == name) = true ↔
      1 < (ds.map Declarator.name).count name := by
  induction ds with
  | nil => simp
  | cons d ds ih =>
      by_cases hd : d.name = name
      · have hmem : (ds.any fun d => d.name == name) = true ↔ name ∈ ds.map Declarator.name := by
          simp [List.any_eq_true]
        rw [List.eraseP_cons_of_pos (by simpa using hd), hmem, List.map_cons, hd,
          List.count_cons_self, ← List.count_pos_iff]
        omega
      · rw [List.eraseP_cons_of_neg (by simpa using hd), List.any_cons, beq_false_of_ne hd,
          Bool.false_or, ih, List.map_cons, List.count_cons_of_ne hd]

/-- A variable that was taken out can be taken out again exactly if another one has its name. -/
theorem holds_apply_iff (hholds : holds s stmt block name = true) :
    holds (apply s stmt block name) stmt block name = true ↔
      1 < (s.localNames stmt).count name := by
  obtain ⟨hlive, ⟨decl, removed, hd, hr⟩, hin⟩ := eq_vars_of_holds hholds
  rw [Shader.localNames, hd, ← any_eraseP_iff, apply_eq hd hr]
  have hlive' : stmt ∈ (shrink s stmt decl removed name).liveStmts := by rwa [liveStmts_shrink]
  have hstmt : (shrink s stmt decl removed name).stmt stmt =
      .vars ⟨decl.type, decl.declarators.eraseP fun d => d.name == name⟩ := by
    rw [stmt_shrink hlive, if_pos rfl]
  split
  next hempty =>
    rw [List.isEmpty_iff.mp hempty, List.any_nil]
    refine iff_of_false (fun hagain => ?_) Bool.false_ne_true
    obtain ⟨hleft, ⟨decl', -, hd', -⟩, -⟩ := eq_vars_of_holds hagain
    cases block with
    | some block =>
        have hshrunk : (shrink s stmt decl removed name).standsIn block stmt = true :=
          standsIn_shrink hlive hd (hin block rfl)
        exact (Shader.mem_liveStmts_of_removeFromBlock hshrunk hleft).2 rfl
    | none =>
        rw [Shader.stmt_setStmt, if_pos ⟨rfl, Shader.lt_size_of_mem_liveStmts hlive'⟩] at hd'
        cases hd'
  next =>
    cases block with
    | some block =>
        rw [holds, hstmt, Shader.mem_liveStmts.mp hlive', standsIn_shrink hlive hd (hin block rfl),
          Bool.true_and, Bool.and_true]
    | none => rw [holds, hstmt, Shader.mem_liveStmts.mp hlive', Bool.true_and, Bool.and_true]

end UnusedVariable

namespace InlineField

variable {s : Shader} {outerId : DeclId} {field : String} {plan : Plan} {outer inner : StructDecl}
  {wrapper : FieldDecl}

/-- A field that was replaced has left no field of its name, if there was no other one. -/
theorem Fits.ne_of_mem_widened (hfits : Fits s outerId field plan outer inner wrapper)
    (honce : (outer.fields.map FieldDecl.name).count field = 1) (taken : List String)
    (supply : NameSupply) {f : FieldDecl}
    (hf : f ∈ (widened outer plan.position (renamed field taken supply inner.fields).1).fields) :
    f.name ≠ field := by
  obtain ⟨hsplit, hwrapper⟩ := hfits.split_fields
  have hkept : field ∉ keptNames outer plan.position := by
    rw [hsplit, List.map_append, List.map_cons, hwrapper, List.count_append,
      List.count_cons_self] at honce
    rw [keptNames, List.map_append, ← List.count_eq_zero, List.count_append]
    omega
  rintro rfl
  simp only [widened, List.mem_append] at hf
  rcases hf with (hf | hf) | hf
  · exact hkept (List.mem_map_of_mem (List.mem_append_left _ hf))
  · exact name_renamed_ne hfits.field_start hf rfl
  · exact hkept (List.mem_map_of_mem (List.mem_append_right _ hf))

/-- A field that was replaced cannot be replaced again, if there was no other one of its name. -/
theorem holds_apply_eq_false (hholds : holds s outerId field = true)
    (honce : (s.fieldNames outerId).count field = 1) (supply : NameSupply) :
    holds (apply s supply outerId field).1 outerId field = false := by
  obtain ⟨plan, hplan⟩ := exists_plan_of_holds hholds
  obtain ⟨outer, inner, wrapper, hfits⟩ := exists_fits hplan
  have hlive := (Bool.and_eq_true_iff.mp (Bool.and_eq_true_iff.mp hholds).1).1
  refine Bool.eq_false_of_not_eq_true fun hagain => ?_
  obtain ⟨plan', hplan'⟩ := exists_plan_of_holds hagain
  obtain ⟨outer', inner', wrapper', hfits'⟩ := exists_fits hplan'
  have houter := hfits'.outer_eq
  rw [hfits.apply_eq hplan, (decls_inlined _ _ _ _ _).2.2.2, Shader.decl_setDecl,
    if_pos ⟨rfl, Arena.lt_size_of_isLive hlive⟩] at houter
  obtain rfl := Option.some.inj houter
  rw [Shader.fieldNames, Decl.struct?_eq_some.mp hfits.outer_eq] at honce
  exact hfits.ne_of_mem_widened honce _ supply (List.mem_of_getElem? hfits'.wrapper_eq)
    hfits'.split_fields.2

end InlineField

namespace Unwrap

variable {s : Shader} {block target : StmtId} {way : UnwrapWay}

/-- A statement that was unwrapped is dead. -/
theorem not_mem_liveStmts_apply (hholds : holds s block target way = true) :
    target ∉ (apply s block target way).liveStmts := by
  obtain ⟨body, kept, dropped, i, -, -, -, heq⟩ := exists_eq_lifted hholds
  rw [heq, lifted, Shader.liveStmts_setStmt, Shader.liveStmts_forgetStmts, Multiset.mem_filter]
  exact fun hlive => hlive.2 (List.mem_append_right _ List.mem_cons_self)

end Unwrap

namespace Opportunity

variable {s : Shader} {o : Opportunity}

/-- A change that was made does not hold any more, if the name that it goes by was given once. -/
theorem holds_apply_eq_false (ho : s.OwnsDecls) (hholds : o.holds s = true)
    (hone : o.change.namesOne s = true) (supply : NameSupply) :
    o.holds (o.apply s supply).1 = false := by
  obtain ⟨depth, change⟩ := o
  cases change with
  | toSubExpr target child =>
      refine Bool.eq_false_of_not_eq_true fun hagain => ?_
      simp only [holds, SubExpr.holds, Bool.and_eq_true] at hagain
      exact s.not_mem_liveExprs_replaceWithChild target child (Shader.mem_liveExprs.mpr hagain.1.2)
  | toConstant target constant =>
      simp only [holds, Constant.holds, Bool.and_eq_true] at hholds
      simp only [holds, apply, Constant.holds,
        Constant.isAt_apply (Shader.mem_liveExprs.mpr hholds.1), Bool.not_true, Bool.and_false]
  | removeDecl decl =>
      refine Bool.eq_false_of_not_eq_true fun hagain => ?_
      simp only [holds, apply, Shader.isDeclLive, Bool.and_eq_true] at hagain
      have hmem := List.contains_iff_mem.mp hagain.2
      rw [Shader.decls_removeDecl] at hmem
      exact ho.nodup.not_mem_erase hmem
  | inlineField outer field => exact InlineField.holds_apply_eq_false hholds (eq_of_beq hone) supply
  | removeStmt block stmt =>
      exact Shader.standsIn_eq_false_of_not_mem fun hlive =>
        (Shader.mem_liveStmts_of_removeFromBlock hholds hlive).2 rfl
  | removeVariable stmt block name =>
      have honce : (s.localNames stmt).count name = 1 := eq_of_beq hone
      refine Bool.eq_false_of_not_eq_true fun hagain => ?_
      have htwice := (UnusedVariable.holds_apply_iff hholds).mp hagain
      omega
  | unwrap block target way =>
      have hstands : (Unwrap.apply s block target way).standsIn block target = false :=
        Shader.standsIn_eq_false_of_not_mem (Unwrap.not_mem_liveStmts_apply hholds)
      simp only [holds, apply, Unwrap.holds, hstands, Bool.false_and]

/-- A change that is found in the shader of a program is made when it is tried, and does not hold in
what it makes, if the name that it goes by is given once. -/
theorem stale_of_tryApply {p : Program} {everywhere : Bool} {kinds : List OpportunityKind}
    (hfind : o ∈ find (Shader.ofProgram p) everywhere kinds)
    (hone : o.change.namesOne (Shader.ofProgram p) = true) (supply : NameSupply) :
    (o.tryApply (Shader.ofProgram p) supply).1 = true ∧
      o.holds (o.tryApply (Shader.ofProgram p) supply).2.1 = false := by
  have hlaid := Shader.laidOut_ofProgram p
  have hholds := holds_of_mem_find hlaid.layered.grounded hlaid.owned hfind
  rw [tryApply, if_pos hholds]
  exact ⟨rfl, holds_apply_eq_false hlaid.owned.decls hholds hone supply⟩

/-- Two variables in one declaration, neither of them used. -/
def twoUnused : Program :=
  let decl : VarDecl (Expr Unit) := ⟨.ofName "int", [⟨"a", none, none⟩, ⟨"b", none, none⟩]⟩
  ⟨none, [.function ⟨.ofName "void", "main", [],
    some (.node () (.block [.node () (.vars decl)]))⟩]⟩

/-- One of them is taken out, once, and the declaration stays. -/
theorem stale_twoUnused : ∃ o ∈ find (Shader.ofProgram twoUnused) false [.removeVariable],
    o.change = .removeVariable ⟨0⟩ (some ⟨1⟩) "a" ∧
      o.change.namesOne (Shader.ofProgram twoUnused) = true ∧
      (o.tryApply (Shader.ofProgram twoUnused) {}).2.1.isStmtLive ⟨0⟩ = true ∧
      o.holds (o.tryApply (Shader.ofProgram twoUnused) {}).2.1 = false := by
  have hfind : ⟨2, .removeVariable ⟨0⟩ (some ⟨1⟩) "a"⟩ ∈
      find (Shader.ofProgram twoUnused) false [.removeVariable] :=
    List.mem_mergeSort.mpr (List.mem_flatMap.mpr ⟨.removeVariable, by decide, by decide +kernel⟩)
  have hone : (Change.removeVariable ⟨0⟩ (some ⟨1⟩) "a").namesOne (Shader.ofProgram twoUnused) =
      true := by
    decide +kernel
  exact ⟨_, hfind, rfl, hone, by decide +kernel, (stale_of_tryApply hfind hone {}).2⟩

end Opportunity

end ShaderReducer
