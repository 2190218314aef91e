import ShaderReducer.Opportunity.Find
import ShaderReducer.Proofs.Opportunity.Slots
import ShaderReducer.Proofs.Opportunity.InlinePlan
import ShaderReducer.Proofs.Shader.Places

/-!
# Shaders that are reached

From one shader others are reached by looking for opportunities, trying those that were found, and
laying the shader out anew. An opportunity may be tried at any later time, so the slots it names may
be dead by then, or stand for something else. That it holds is all a change relies on.
-/

namespace ShaderReducer

namespace Opportunity

variable {s : Shader}

/-- No change makes a cycle. -/
theorem grounded_apply (h : s.Grounded) {o : Opportunity} (hholds : o.holds s = true)
    (supply : NameSupply) : (o.apply s supply).1.Grounded := by
  obtain ⟨depth, change⟩ := o
  cases change with
  | toSubExpr target child =>
      simp only [holds, SubExpr.holds, Bool.and_eq_true] at hholds
      exact h.replaceWithChild (List.contains_iff_mem.mp hholds.2)
  | toConstant target constant =>
      simp only [holds, Constant.holds, Bool.and_eq_true] at hholds
      exact Constant.grounded_apply h (Shader.mem_liveExprs.mpr hholds.1) constant
  | removeDecl decl => exact h.removeDecl decl
  | inlineField outer field => exact InlineField.grounded_apply h supply outer field
  | removeStmt block stmt => exact h.removeFromBlock block stmt
  | removeVariable stmt block name => exact UnusedVariable.grounded_apply h hholds
  | unwrap block target way => exact Unwrap.grounded_apply h hholds

/-- All statements stay owned by a change. -/
theorem ownsStmts_apply (h : s.Grounded) (ho : s.OwnsStmts 0) {o : Opportunity}
    (hholds : o.holds s = true) (supply : NameSupply) : (o.apply s supply).1.OwnsStmts 0 := by
  obtain ⟨depth, change⟩ := o
  cases change with
  | toSubExpr target child =>
      exact ho.congr (Shader.decls_replaceWithChild s target child)
        (Shader.stmts_replaceWithChild s target child)
  | toConstant target constant =>
      exact ho.congr (Constant.decls_apply s target constant) (Constant.stmts_apply s target constant)
  | removeDecl decl =>
      simp only [holds, Shader.isDeclLive, Bool.and_eq_true] at hholds
      exact ho.removeDecl h (by simpa using hholds.2)
  | inlineField outer field => exact InlineField.ownsStmts_apply ho supply outer field
  | removeStmt block stmt => exact ho.removeFromBlock h hholds
  | removeVariable stmt block name => exact UnusedVariable.ownsStmts_apply h ho hholds
  | unwrap block target way => exact Unwrap.ownsStmts_apply h ho hholds

/-- All slots stay owned by a change, which keeps the declarations, takes one away, or changes a
structure. -/
theorem owned_apply (h : s.Grounded) (ho : s.Owned) (hstructs : StructsSound s.structDecls)
    {o : Opportunity} (hholds : o.holds s = true) (supply : NameSupply) :
    (o.apply s supply).1.Owned ∧ StructsSound (o.apply s supply).1.structDecls := by
  have hsame : ∀ t : Shader, t.decls = s.decls ∧ t.declNodes = s.declNodes →
      StructsSound t.structDecls := by
    rintro t ⟨hdecls, hnodes⟩
    rwa [Shader.structDecls_congr hdecls hnodes]
  obtain ⟨depth, change⟩ := o
  cases change with
  | toSubExpr target child =>
      simp only [holds, SubExpr.holds, Bool.and_eq_true] at hholds
      obtain ⟨⟨htarget, -⟩, hchild⟩ := hholds
      exact ⟨ho.replaceWithChild h (Shader.mem_liveExprs.mpr htarget) (List.contains_iff_mem.mp hchild),
        hsame _ (Shader.decls_replaceWithChild s target child)⟩
  | toConstant target constant =>
      simp only [holds, Constant.holds, Bool.and_eq_true] at hholds
      exact ⟨Constant.owned_apply h ho (Shader.mem_liveExprs.mpr hholds.1) constant,
        hsame _ (Constant.decls_apply s target constant)⟩
  | removeDecl decl =>
      simp only [holds, Shader.isDeclLive, Bool.and_eq_true] at hholds
      exact ⟨ho.removeDecl h (by simpa using hholds.2),
        hstructs.sublist (Shader.structDecls_removeDecl s decl)⟩
  | inlineField outer field => exact InlineField.owned_apply h ho hstructs supply hholds
  | removeStmt block stmt =>
      exact ⟨ho.removeFromBlock h hholds, hsame _ (Shader.decls_removeFromBlock s block stmt)⟩
  | removeVariable stmt block name =>
      exact ⟨UnusedVariable.owned_apply h ho hholds,
        hsame _ (UnusedVariable.decls_apply s stmt block name)⟩
  | unwrap block target way =>
      exact ⟨Unwrap.owned_apply h ho hholds, hsame _ (Unwrap.decls_apply hholds)⟩

/-- A property that survives every change of a list that holds survives trying the list. -/
theorem tryAll_invariant {motive : Shader → Prop} {os : List Opportunity}
    (happly : ∀ s, motive s → ∀ o ∈ os, o.holds s = true → ∀ supply, motive (o.apply s supply).1)
    (hstart : motive s) (supply : NameSupply) : motive (tryAll os s supply).2.1 := by
  induction os generalizing s supply with
  | nil => exact hstart
  | cons o os ih =>
      have hrest : ∀ s, motive s → ∀ o ∈ os, o.holds s = true → ∀ supply,
          motive (o.apply s supply).1 := fun s hs o ho => happly s hs o (List.mem_cons_of_mem _ ho)
      by_cases hholds : o.holds s = true
      · rw [tryAll, tryApply, if_pos hholds]
        exact ih hrest (happly s hstart o List.mem_cons_self hholds supply) _
      · rw [tryAll, tryApply, if_neg hholds]
        exact ih hrest hstart _

end Opportunity

/-- The shaders that are reached from one, each with all opportunities that were found so far. -/
inductive Reached (origin : Shader) : Shader → List Opportunity → Prop
  | start : Reached origin origin []
  | find {s : Shader} {found : List Opportunity} (h : Reached origin s found) (everywhere : Bool)
      (kinds : List OpportunityKind) :
      Reached origin s (found ++ Opportunity.find s everywhere kinds)
  | tryApply {s : Shader} {found : List Opportunity} (h : Reached origin s found) {o : Opportunity}
      (ho : o ∈ found) (supply : NameSupply) : Reached origin (o.tryApply s supply).2.1 found
  | compact {s : Shader} {found : List Opportunity} (h : Reached origin s found) :
      Reached origin s.compact found

namespace Reached

variable {origin s : Shader} {found : List Opportunity}

/-- A property that holds at the start and survives every change that holds is one of all shaders
that are reached. -/
theorem invariant {motive : Shader → Prop} (hstart : motive origin)
    (happly : ∀ s, motive s → ∀ o : Opportunity, o.holds s = true → ∀ supply,
      motive (o.apply s supply).1)
    (hcompact : ∀ s, motive s → motive s.compact) (h : Reached origin s found) : motive s := by
  induction h with
  | start => exact hstart
  | find _ _ _ ih => exact ih
  | @tryApply s found _ o _ supply ih =>
      rw [Opportunity.tryApply]
      split
      next hholds => exact happly s ih o hholds supply
      next => exact ih
  | compact _ ih => exact hcompact _ ih

/-- All that is reached from the shader of a program is without cycles. -/
theorem grounded {p : Program} (h : Reached (Shader.ofProgram p) s found) : s.Grounded := by
  refine h.invariant (Shader.laidOut_ofProgram p).layered.grounded
    (fun s hs o hholds supply => Opportunity.grounded_apply hs hholds supply) fun s _ => ?_
  exact (Shader.laidOut_compact s).layered.grounded

/-- All slots of a shader that is reached from the shader of a program are owned. -/
theorem owned {p : Program} (hstructs : StructsSound p.structDecls)
    (h : Reached (Shader.ofProgram p) s found) : s.Owned := by
  have hall : s.Grounded ∧ s.Owned ∧ StructsSound s.structDecls := by
    refine h.invariant (motive := fun s => s.Grounded ∧ s.Owned ∧ StructsSound s.structDecls)
      ⟨(Shader.laidOut_ofProgram p).layered.grounded, (Shader.laidOut_ofProgram p).owned, ?_⟩ ?_ ?_
    · rwa [Shader.structDecls_ofProgram]
    · rintro s ⟨hg, ho, hs⟩ o hholds supply
      exact ⟨Opportunity.grounded_apply hg hholds supply,
        Opportunity.owned_apply hg ho hs hholds supply⟩
    · rintro s ⟨-, -, hs⟩
      have hlaid := Shader.laidOut_compact s
      refine ⟨hlaid.layered.grounded, hlaid.owned, ?_⟩
      rwa [Shader.structDecls_compact]
  exact hall.2.1

end Reached

/-- Every slot is accounted for: the live ones are reached, each from one place, and laying the
shader out anew loses none. -/
structure Shader.Accounted (s : Shader) : Prop where
  isLive_iff : ∀ n, s.isLive n = true ↔ s.Reaches n
  decls : ∀ d, s.Reaches (.decl d) → ∃! i : Nat, s.decls[i]? = some d
  stmts : ∀ t, s.Reaches (.stmt t) →
    ∃! place : NodeId × Nat, s.Reaches place.1 ∧ (s.stmtsIn place.1)[place.2]? = some t
  exprs : ∀ e, s.Reaches (.expr e) →
    ∃! place : NodeId × Nat, s.Reaches place.1 ∧ (s.exprsIn place.1)[place.2]? = some e
  liveCount_eq : s.liveCount = s.compact.liveCount

/-- Where the structures of a program are sound, no change ever loses track of a slot, however many
opportunities are tried and in which order. -/
theorem accounted_of_reached {p : Program} (hstructs : StructsSound p.structDecls) {s : Shader}
    {found : List Opportunity} (h : Reached (Shader.ofProgram p) s found) : s.Accounted := by
  have hg := h.grounded
  have ho := h.owned hstructs
  refine ⟨ho.isLive_iff_reaches hg, ?_, fun t => ho.existsUnique_stmt hg,
    fun e => ho.existsUnique_expr hg, ho.liveCount_compact hg⟩
  intro d hd
  cases hd with
  | decl hd =>
      obtain ⟨i, hi⟩ := List.mem_iff_getElem?.mp hd
      refine ⟨i, hi, fun (j : Nat) hj => ?_⟩
      obtain ⟨_, hi⟩ := List.getElem?_eq_some_iff.mp hi
      obtain ⟨_, hj⟩ := List.getElem?_eq_some_iff.mp hj
      exact (ho.decls.nodup.getElem_inj_iff).mp (hj.trans hi.symm)

/-- Two synthetic structures, one in a field of the other, and a value taken out of both. -/
def nestedStructs : Program :=
  let inner : Expr Unit := .node () (.call "_GLF_struct_1" [.node () (.literal (.int "1"))])
  let outer : Expr Unit := .node () (.call "_GLF_struct_2" [inner])
  let value : Expr Unit := .node () (.member (.node () (.member outer "_f1")) "_f0")
  ⟨none, [.struct ⟨"_GLF_struct_1", [⟨.ofName "int", "_f0", none⟩]⟩,
    .struct ⟨"_GLF_struct_2", [⟨.ofName "_GLF_struct_1", "_f1", none⟩]⟩,
    .function ⟨.ofName "void", "f", [], some (.node () (.block [.node () (.expr value)]))⟩]⟩

/-- The inner structure takes the place of the field, and no slot is lost. -/
theorem accounted_nestedStructs : StructsSound nestedStructs.structDecls ∧
    ∃ found, ⟨0, .inlineField ⟨1⟩ "_f1"⟩ ∈ found ∧
      let s := (Opportunity.tryApply ⟨0, .inlineField ⟨1⟩ "_f1"⟩ (Shader.ofProgram nestedStructs) {}).2.1
      Reached (Shader.ofProgram nestedStructs) s found ∧ s.liveCount = 8 ∧ s.Accounted := by
  have hstructs : StructsSound nestedStructs.structDecls :=
    .of_rank (fun name => if name = "_GLF_struct_2" then 2 else if name = "_GLF_struct_1" then 1 else 0)
      (by decide +kernel) (by decide +kernel)
  have hfound : ⟨0, .inlineField ⟨1⟩ "_f1"⟩ ∈ [] ++
      Opportunity.find (Shader.ofProgram nestedStructs) true [.inlineStructifiedField] := by
    refine List.mem_mergeSort.mpr (List.mem_flatMap.mpr ⟨.inlineStructifiedField, by decide, ?_⟩)
    decide +kernel
  have hreached := Reached.tryApply (.find .start true [.inlineStructifiedField]) hfound {}
  exact ⟨hstructs, _, hfound, hreached, by decide +kernel, accounted_of_reached hstructs hreached⟩

end ShaderReducer
