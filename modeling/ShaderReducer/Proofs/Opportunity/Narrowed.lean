import Mathlib.Data.List.Flatten
import ShaderReducer.Proofs.Opportunity.Found

/-!
# Narrower searches

A search for some kinds of opportunities, or in the code that cannot run only, finds a part of what
the search for all kinds everywhere finds, in the same order. For one kind this is a question of
what its search asks of the scope. The order of all kinds is that of a stable sort, which leaves out
what is left out before it.
-/

namespace ShaderReducer

/-! ## Stable sorting -/

section StableSort

variable {α : Type} {le : α → α → Bool}
  (trans : ∀ a b c, le a b = true → le b c = true → le a c = true)
  (total : ∀ a b, (le a b || le b a) = true)

include trans total

/-- The head of a list is sorted in before all that does not stand strictly below it. -/
theorem mergeSort_cons_eq (a : α) (l : List α) :
    (a :: l).mergeSort le =
      (l.mergeSort le).filter (fun b => !le a b) ++ a :: (l.mergeSort le).filter (le a) := by
  obtain ⟨before, after, hcons, htail, hbefore⟩ := List.mergeSort_cons trans total a l
  have hsorted := List.pairwise_mergeSort trans total (a :: l)
  rw [hcons, List.pairwise_append, List.pairwise_cons] at hsorted
  have hafter : ∀ b ∈ after, le a b = true := hsorted.2.1.1
  rw [hcons, htail, List.filter_append, List.filter_append, List.filter_eq_self.mpr hbefore,
    List.filter_eq_self.mpr hafter, List.filter_eq_nil_iff.mpr, List.append_nil,
    List.filter_eq_nil_iff.mpr, List.nil_append]
  · exact fun b hb => by simpa using hbefore b hb
  · exact fun b hb => by simpa using hafter b hb

/-- A stable sort keeps the order of what is left when something is left out. -/
theorem sublist_mergeSort_of_sublist {l l' : List α} (h : l.Sublist l') :
    (l.mergeSort le).Sublist (l'.mergeSort le) := by
  induction h with
  | slnil => exact List.Sublist.refl _
  | @cons l l' a h ih =>
      obtain ⟨before, after, hcons, htail, -⟩ := List.mergeSort_cons trans total a l'
      rw [htail] at ih
      rw [hcons]
      exact ih.middle a
  | @cons_cons l l' a h ih =>
      rw [mergeSort_cons_eq trans total a l, mergeSort_cons_eq trans total a l']
      exact (ih.filter _).append ((ih.filter _).cons_cons a)

/-- To sort and to leave out may change places. -/
theorem filter_mergeSort (p : α → Bool) (l : List α) :
    (l.mergeSort le).filter p = (l.filter p).mergeSort le := by
  have hsub : ((l.filter p).mergeSort le).Sublist (l.mergeSort le) :=
    sublist_mergeSort_of_sublist trans total List.filter_sublist
  have hall : ((l.filter p).mergeSort le).filter p = (l.filter p).mergeSort le :=
    List.filter_eq_self.mpr fun a ha => List.of_mem_filter (List.mem_mergeSort.mp ha)
  replace hsub := hsub.filter p
  rw [hall] at hsub
  refine (hsub.eq_of_length ?_).symm
  rw [List.length_mergeSort, ((List.mergeSort_perm l le).filter p).length_eq]

end StableSort

namespace Opportunity

/-! ## By depth -/

/-- Whether an opportunity may stand before another. -/
def precedes (o p : Opportunity) : Bool :=
  o.depth ≤ p.depth

theorem precedes_trans (o p q : Opportunity) (h : o.precedes p = true) (h' : p.precedes q = true) :
    o.precedes q = true :=
  decide_eq_true (Nat.le_trans (of_decide_eq_true h) (of_decide_eq_true h'))

theorem precedes_total (o p : Opportunity) : (o.precedes p || p.precedes o) = true := by
  rw [precedes, precedes, Bool.or_eq_true, decide_eq_true_eq, decide_eq_true_eq]
  exact Nat.le_total o.depth p.depth

/-! ## Some kinds -/

variable {s : Shader} {a : Analysis}

/-- The search for some kinds finds, before it sorts, what has one of them. -/
theorem flatMap_ofKind_filter (p : OpportunityKind → Bool) (kinds : List OpportunityKind) :
    (kinds.filter p).flatMap (ofKind s a) =
      (kinds.flatMap (ofKind s a)).filter fun o => p o.kind := by
  induction kinds with
  | nil => rfl
  | cons kind kinds ih =>
      rw [List.flatMap_cons, List.filter_append, ← ih, List.filter_cons]
      cases hkind : p kind with
      | true =>
          have hall : (ofKind s a kind).filter (fun o => p o.kind) = ofKind s a kind :=
            List.filter_eq_self.mpr fun o ho => by rwa [kind_of_mem_ofKind ho]
          rw [if_pos rfl, List.flatMap_cons, hall]
      | false =>
          have hnone : (ofKind s a kind).filter (fun o => p o.kind) = [] :=
            List.filter_eq_nil_iff.mpr fun o ho => by
              rw [kind_of_mem_ofKind ho, hkind]
              exact Bool.false_ne_true
          rw [if_neg Bool.false_ne_true, hnone, List.nil_append]

end Opportunity

/-! ## A wider scope -/

/-- The same facts where all code may be changed. -/
def Analysis.widened (a : Analysis) : Analysis :=
  { a with scope := { a.scope with everywhere := true } }

theorem Analysis.widened_ofShader (s : Shader) :
    (Analysis.ofShader s false).widened = Analysis.ofShader s true := rfl

variable (s : Shader) (a : Analysis)

theorem SubExpr.sublist_operands (e : Expr ExprId) :
    (operands a e).Sublist (operands a.widened e) := by
  unfold operands
  dsimp only
  split
  next h =>
    rw [Bool.and_eq_true] at h
    have hwidened : (isOperation (e.form.map Expr.tag) && !a.widened.callables.writesArguments e &&
        a.widened.scope.containsExpr e.tag) = true := Bool.and_eq_true_iff.mpr ⟨h.1, rfl⟩
    rw [if_pos hwidened]
    exact List.Sublist.refl _
  next => exact List.nil_sublist _

theorem SubExpr.sublist_find : (find s a).Sublist (find s a.widened) :=
  List.Sublist.flatMap_right _ fun v _ => (sublist_operands a v.2).map _

theorem Constant.replacement?_widened {e : Expr ExprId} {constant : Constant}
    (h : replacement? s a e = some constant) : replacement? s a.widened e = some constant := by
  unfold replacement? at h ⊢
  split at h
  next hfits =>
    rw [Bool.and_eq_true] at hfits
    have hwidened : (isReplaceable e.form && !a.widened.isWritten e.tag &&
        !a.widened.callables.writesArguments e && a.widened.scope.containsExpr e.tag) = true :=
      Bool.and_eq_true_iff.mpr ⟨hfits.1, rfl⟩
    rw [if_pos hwidened]
    exact h
  next => cases h

theorem Constant.sublist_find : (find s a).Sublist (find s a.widened) := by
  rw [find, find, List.filterMap_eq_flatMap_toList, List.filterMap_eq_flatMap_toList]
  refine List.Sublist.flatMap_right _ fun (depth, e) _ => ?_
  dsimp only
  cases h : replacement? s a e with
  | none => exact List.nil_sublist _
  | some constant => rw [replacement?_widened s a h]

theorem RemovableStmt.sublist_find : (find s a).Sublist (find s a.widened) := by
  refine List.Sublist.flatMap_right _ fun f _ => List.Sublist.flatMap_right _ fun v _ => ?_
  refine (List.monotone_filter_right _ fun stmt h => ?_).map _
  rw [isRemovable, Bool.and_eq_true] at h ⊢
  exact ⟨h.1, rfl⟩

theorem UnusedVariable.sublist_find : (find s a).Sublist (find s a.widened) := by
  refine List.Sublist.flatMap_right _ fun f _ => List.Sublist.flatMap_right _ fun v _ =>
    List.Sublist.flatMap_right _ fun decl _ => ?_
  dsimp only
  split
  next decl _ =>
    refine (List.monotone_filter_right _ fun d h => ?_).map _
    rw [isRemovable, Bool.and_eq_true] at h ⊢
    exact ⟨h.1, rfl⟩
  next => exact List.Sublist.refl _

theorem Unwrap.sublist_find : (find s a).Sublist (find s a.widened) := by
  refine List.Sublist.flatMap_right _ fun f _ => List.Sublist.flatMap_right _ fun v _ => ?_
  dsimp only
  split
  next body _ =>
    refine (List.monotone_filter_right _ fun stmt h => ?_).flatMap _
    rw [Bool.and_eq_true] at h ⊢
    exact ⟨rfl, h.2⟩
  next => exact List.Sublist.refl _

namespace Opportunity

/-- With a wider scope the search for a kind finds what it found, and maybe more between. -/
theorem sublist_ofKind (kind : OpportunityKind) :
    (ofKind s a kind).Sublist (ofKind s a.widened kind) := by
  cases kind with
  | compoundExprToSubExpr => exact SubExpr.sublist_find s a
  | exprToConstant => exact Constant.sublist_find s a
  | removeDeclaration => exact List.Sublist.refl _
  | inlineStructifiedField => exact List.Sublist.refl _
  | removeStmt => exact RemovableStmt.sublist_find s a
  | removeVariable => exact UnusedVariable.sublist_find s a
  | unwrapStmt => exact Unwrap.sublist_find s a

/-- The search for some kinds finds what the search for all kinds finds of these kinds, in the same
order; and the search in code that cannot run finds a part of what the search everywhere finds, in
the same order. -/
theorem find_narrowed (everywhere : Bool) (kinds : List OpportunityKind) :
    find s everywhere kinds =
        (find s everywhere OpportunityKind.all).filter (fun o => kinds.contains o.kind) ∧
      (find s false kinds).Sublist (find s true kinds) := by
  constructor
  · have hall : OpportunityKind.all.filter OpportunityKind.all.contains = OpportunityKind.all := by
      decide
    have hsort := filter_mergeSort precedes_trans precedes_total (fun o => kinds.contains o.kind)
      (OpportunityKind.all.flatMap (ofKind s (Analysis.ofShader s everywhere)))
    rw [← flatMap_ofKind_filter] at hsort
    rw [find, find, hall]
    exact hsort.symm
  · refine sublist_mergeSort_of_sublist precedes_trans precedes_total
      (List.Sublist.flatMap_right _ fun kind _ => ?_)
    rw [← Analysis.widened_ofShader]
    exact sublist_ofKind s _ kind

end Opportunity

end ShaderReducer
