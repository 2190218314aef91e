import ShaderReducer.Opportunity.InlineField
import ShaderReducer.Proofs.Shader.Places
import ShaderReducer.Proofs.Typing.Infer

/-!
# Inlined fields and slots

Inlining a field moves the arguments of inner constructors to the outer ones, and the values that
wrappers are members of to the members of the wrappers. What is in between is left: the inner
constructors with the parentheses around them, and the wrappers.

The constructors and accesses of a plan are changed one after the other. That a slot which is still
to be changed is not left before its turn is where the plan comes in: no inner constructor is an
outer one, and no wrapper is a member of a wrapper, because the two structures have different names.
-/

namespace ShaderReducer

namespace InlineField

variable {s t : Shader}

/-! ## Parentheses -/

/-- The slot of what is inside the parentheses of an expression. -/
def stripped (s : Shader) (id : ExprId) : ExprId :=
  (s.exprTree id).stripParens.tag

/-- The slots of the parentheses around an expression, and its own. -/
def chain (s : Shader) (id : ExprId) : List ExprId :=
  parenSlots (s.exprTree id)

theorem chain_paren (h : s.Grounded) {id inner : ExprId} (hid : s.expr id = .paren inner) :
    chain s id = id :: chain s inner ∧ stripped s id = stripped s inner := by
  rw [chain, stripped, h.exprTree_eq, hid]
  exact ⟨rfl, rfl⟩

theorem chain_of_ne (h : s.Grounded) {id : ExprId} (hid : ∀ inner, s.expr id ≠ .paren inner) :
    chain s id = [id] ∧ stripped s id = id := by
  rw [chain, stripped, h.exprTree_eq]
  cases he : s.expr id with
  | paren inner => exact absurd he (hid inner)
  | _ => exact ⟨rfl, rfl⟩

/-- What is inside the parentheses of a tree is the tree of its slot. -/
theorem stripParens_exprTree (h : s.Grounded) (id : ExprId) :
    (s.exprTree id).stripParens = s.exprTree (stripped s id) := by
  induction id using h.expr_induction with
  | step id ih =>
      by_cases hid : ∃ inner, s.expr id = .paren inner
      · obtain ⟨inner, hid⟩ := hid
        rw [(chain_paren h hid).2, h.exprTree_eq id, hid]
        exact ih inner (by simp [hid, ExprNode.children])
      · have hne : ∀ inner, s.expr id ≠ .paren inner := fun inner hc => hid ⟨inner, hc⟩
        rw [(chain_of_ne h hne).2, h.exprTree_eq id]
        cases he : s.expr id with
        | paren inner => exact absurd he (hne inner)
        | _ => rfl

/-- Each slot of a chain but the last names the next one. -/
theorem chain_add (h : s.Grounded) (id : ExprId) :
    (chain s id : Multiset ExprId) + s.exprPartsOf (stripped s id) =
      {id} + (chain s id : Multiset ExprId).bind s.exprPartsOf := by
  induction id using h.expr_induction with
  | step id ih =>
      by_cases hid : ∃ inner, s.expr id = .paren inner
      · obtain ⟨inner, hid⟩ := hid
        obtain ⟨hchain, hstripped⟩ := chain_paren h hid
        have hparts : s.exprPartsOf id = {inner} := by
          rw [Shader.exprPartsOf, Shader.exprParts, hid]
          rfl
        have hinner := ih inner (by simp [hid, ExprNode.children])
        rw [hchain, hstripped, ← Multiset.cons_coe, Multiset.cons_bind, hparts,
          ← Multiset.singleton_add, add_assoc, hinner]
      · obtain ⟨hchain, hstripped⟩ := chain_of_ne h fun inner hc => hid ⟨inner, hc⟩
        rw [hchain, hstripped, Multiset.coe_singleton, Multiset.singleton_bind]

theorem chain_le (h : s.Grounded) (id : ExprId) :
    (chain s id : Multiset ExprId) ≤ s.exprSlotsOf id := by
  induction id using h.expr_induction with
  | step id ih =>
      by_cases hid : ∃ inner, s.expr id = .paren inner
      · obtain ⟨inner, hid⟩ := hid
        have hparts : s.exprPartsOf id = {inner} := by
          rw [Shader.exprPartsOf, Shader.exprParts, hid]
          rfl
        rw [(chain_paren h hid).1, h.exprSlotsOf_eq, hparts, Multiset.singleton_bind,
          ← Multiset.cons_coe]
        exact Multiset.cons_le_cons _ (ih inner (by simp [hid, ExprNode.children]))
      · rw [(chain_of_ne h fun inner hc => hid ⟨inner, hc⟩).1, h.exprSlotsOf_eq]
        exact Multiset.cons_le_cons _ (Multiset.zero_le _)

theorem rank_stripped_le (h : s.Grounded) {rank : ExprId → Nat}
    (hr : IsRank ExprId.index s.exprs.size s.exprParts rank) (id : ExprId) :
    rank (stripped s id) ≤ rank id := by
  induction id using h.expr_induction with
  | step id ih =>
      by_cases hid : ∃ inner, s.expr id = .paren inner
      · obtain ⟨inner, hid⟩ := hid
        have hmem : inner ∈ s.exprParts id := by simp [Shader.exprParts, hid, ExprNode.children]
        rw [(chain_paren h hid).2]
        exact (ih inner hmem).trans (hr.falls id inner hmem).2.le
      · rw [(chain_of_ne h fun inner hc => hid ⟨inner, hc⟩).2]

/-- A chain is the same in two shaders that have the same parentheses. -/
theorem chain_congr (h : s.Grounded) (ht : t.Grounded)
    (hparen : ∀ id inner, s.expr id = .paren inner ↔ t.expr id = .paren inner) (id : ExprId) :
    chain t id = chain s id ∧ stripped t id = stripped s id := by
  induction id using h.expr_induction with
  | step id ih =>
      by_cases hid : ∃ inner, s.expr id = .paren inner
      · obtain ⟨inner, hid⟩ := hid
        obtain ⟨hchain, hstripped⟩ := chain_paren h hid
        obtain ⟨hchain', hstripped'⟩ := chain_paren ht ((hparen id inner).mp hid)
        obtain ⟨ihc, ihs⟩ := ih inner (by simp [hid, ExprNode.children])
        rw [hchain, hstripped, hchain', hstripped', ihc, ihs]
        exact ⟨rfl, rfl⟩
      · obtain ⟨hchain, hstripped⟩ := chain_of_ne h fun inner hc => hid ⟨inner, hc⟩
        obtain ⟨hchain', hstripped'⟩ := chain_of_ne ht fun inner hc =>
          hid ⟨inner, (hparen id inner).mpr hc⟩
        rw [hchain, hstripped, hchain', hstripped']
        exact ⟨rfl, rfl⟩

/-! ## One constructor -/

/-- A constructor is left alone, or its argument gives way to the arguments of a call inside it. -/
theorem spliceConstructor_cases (position : Nat) (s : Shader) (call : ExprId) :
    spliceConstructor position s call = s ∨
      ∃ callee args wrapped inner innerArgs, s.expr call = .call callee args ∧
        args[position]? = some wrapped ∧ s.expr (stripped s wrapped) = .call inner innerArgs ∧
        spliceConstructor position s call = (s.forgetExprs (chain s wrapped)).setExpr call
          (.call callee (args.take position ++ innerArgs ++ args.drop (position + 1))) := by
  rw [spliceConstructor]
  split
  next callee args hcall =>
    split
    next wrapped hw =>
      dsimp only
      split
      next inner innerArgs hinner =>
        exact Or.inr ⟨callee, args, wrapped, inner, innerArgs, hcall, hw, hinner, rfl⟩
      next => exact Or.inl rfl
    next => exact Or.inl rfl
  next => exact Or.inl rfl

theorem perm_of_getElem? {α : Type} {l : List α} {i : Nat} {a : α} (h : l[i]? = some a) :
    l.Perm (a :: (l.take i ++ l.drop (i + 1))) := by
  obtain ⟨hi, rfl⟩ := List.getElem?_eq_some_iff.mp h
  conv_lhs => rw [← List.take_append_drop i l, ← List.getElem_cons_drop hi]
  exact List.perm_middle

theorem ownsExprs_spliceConstructor (h : s.Grounded) (ho : s.OwnsExprs 0) {call : ExprId}
    (hlive : call ∈ s.liveExprs) (position : Nat) :
    (spliceConstructor position s call).OwnsExprs 0 := by
  obtain heq | ⟨callee, args, wrapped, inner, innerArgs, hcall, hw, hinner, heq⟩ :=
    spliceConstructor_cases position s call
  · rw [heq]
    exact ho
  have hargs : s.exprPartsOf call =
      {wrapped} + (args.take position ++ args.drop (position + 1) : List ExprId) := by
    rw [Shader.exprPartsOf, Shader.exprParts, hcall, Multiset.singleton_add, Multiset.cons_coe,
      Multiset.coe_eq_coe]
    exact perm_of_getElem? hw
  have hchain := chain_add h wrapped
  have hstripped : s.exprPartsOf (stripped s wrapped) = (innerArgs : Multiset ExprId) := by
    rw [Shader.exprPartsOf, Shader.exprParts, hinner]
    rfl
  rw [heq]
  refine ho.contract h ?_ ?_
  · refine le_trans ?_ (ho.cons_bind_le h hlive)
    rw [hargs, Multiset.add_bind, Multiset.singleton_bind]
    exact Multiset.cons_le_cons _ ((chain_le h wrapped).trans (Multiset.le_add_right _ _))
  · rw [hstripped] at hchain
    rw [hargs, ExprNode.children, ← Multiset.coe_add, ← Multiset.coe_add, ← Multiset.coe_add]
    calc (args.take position : Multiset ExprId) + innerArgs + args.drop (position + 1) +
          chain s wrapped
        = args.take position + args.drop (position + 1) + (chain s wrapped + innerArgs) := by abel
      _ = {wrapped} + (args.take position + args.drop (position + 1)) +
          (chain s wrapped : Multiset ExprId).bind s.exprPartsOf := by
          rw [hchain]
          abel

/-- The arguments that are moved were below the constructor. -/
theorem isRank_spliceConstructor (h : s.Grounded) {rank : ExprId → Nat}
    (hr : IsRank ExprId.index s.exprs.size s.exprParts rank) (position : Nat) (call : ExprId) :
    IsRank ExprId.index s.exprs.size (spliceConstructor position s call).exprParts rank := by
  obtain heq | ⟨callee, args, wrapped, inner, innerArgs, hcall, hw, hinner, heq⟩ :=
    spliceConstructor_cases position s call
  · rw [heq]
    exact hr
  have hargs : s.exprParts call = args := by rw [Shader.exprParts, hcall]; rfl
  have hwrapped := hr.falls call wrapped (hargs ▸ List.mem_of_getElem? hw)
  refine ⟨hr.lt_size, fun id c hc => ?_⟩
  rw [heq, Shader.exprParts, Shader.expr_setExpr, Shader.expr_forgetExprs] at hc
  split at hc
  next hid =>
    rw [← hid.1]
    simp only [ExprNode.children, List.mem_append] at hc
    rcases hc with (hc | hc) | hc
    · exact hr.falls call c (hargs ▸ List.mem_of_mem_take hc)
    · have hfalls := hr.falls (stripped s wrapped) c (by rw [Shader.exprParts, hinner]; exact hc)
      have hle := rank_stripped_le h hr wrapped
      exact ⟨hfalls.1, by omega⟩
    · exact hr.falls call c (hargs ▸ List.mem_of_mem_drop hc)
  next => exact hr.falls id c hc

theorem spliceConstructor_same (position : Nat) (s : Shader) (call : ExprId) :
    (spliceConstructor position s call).exprs.size = s.exprs.size ∧
      (spliceConstructor position s call).stmts = s.stmts ∧
      (spliceConstructor position s call).decls = s.decls ∧
      (spliceConstructor position s call).declNodes = s.declNodes := by
  obtain heq | ⟨callee, args, wrapped, inner, innerArgs, -, -, -, heq⟩ :=
    spliceConstructor_cases position s call <;> rw [heq]
  · exact ⟨rfl, rfl, rfl, rfl⟩
  · exact ⟨by simp, by simp, by simp, by simp⟩

theorem grounded_spliceConstructor (h : s.Grounded) (position : Nat) (call : ExprId) :
    (spliceConstructor position s call).Grounded := by
  obtain ⟨rank, hr⟩ := h.exprs
  obtain ⟨hsize, hstmts, -, hnodes⟩ := spliceConstructor_same position s call
  exact h.of_isRank (isRank_spliceConstructor h hr position call) hsize hstmts hnodes

theorem mem_chain (h : s.Grounded) {id c : ExprId} (hc : c ∈ chain s id) :
    c = stripped s id ∨ ∃ inner, s.expr c = .paren inner := by
  induction id using h.expr_induction with
  | step id ih =>
      by_cases hid : ∃ inner, s.expr id = .paren inner
      · obtain ⟨inner, hid⟩ := hid
        obtain ⟨hchain, hstripped⟩ := chain_paren h hid
        rw [hchain, List.mem_cons] at hc
        rw [hstripped]
        rcases hc with rfl | hc
        · exact Or.inr ⟨inner, hid⟩
        · exact ih inner (by simp [hid, ExprNode.children]) hc
      · obtain ⟨hchain, hstripped⟩ := chain_of_ne h fun inner hc => hid ⟨inner, hc⟩
        rw [hchain, List.mem_singleton] at hc
        rw [hstripped]
        exact Or.inl hc

/-! ## All constructors -/

/-- A call of the outer constructor with a call of the inner one at the position. -/
def Splices (s : Shader) (outer inner : String) (position : Nat) (call : ExprId) : Prop :=
  ∃ args wrapped innerArgs, s.expr call = .call outer args ∧ args[position]? = some wrapped ∧
    s.expr (stripped s wrapped) = .call inner innerArgs

variable {outer inner : String} {position : Nat}

theorem Splices.expr_eq {call : ExprId} (hs : Splices s outer inner position call) :
    ∃ args, s.expr call = .call outer args := by
  obtain ⟨args, -, -, hcall, -⟩ := hs
  exact ⟨args, hcall⟩

/-- What a constructor turns into. -/
theorem Splices.spliceConstructor_eq {call : ExprId} (hs : Splices s outer inner position call) :
    ∃ args wrapped innerArgs, s.expr call = .call outer args ∧ args[position]? = some wrapped ∧
      s.expr (stripped s wrapped) = .call inner innerArgs ∧
      spliceConstructor position s call = (s.forgetExprs (chain s wrapped)).setExpr call
        (.call outer (args.take position ++ innerArgs ++ args.drop (position + 1))) := by
  obtain ⟨args, wrapped, innerArgs, hcall, hw, hinner⟩ := hs
  refine ⟨args, wrapped, innerArgs, hcall, hw, hinner, ?_⟩
  rw [spliceConstructor, hcall]
  dsimp only
  rw [hw]
  dsimp only
  rw [stripped] at hinner
  rw [hinner]
  rfl

theorem expr_spliceConstructor_of_ne {call id : ExprId} (hne : id ≠ call) :
    (spliceConstructor position s call).expr id = s.expr id := by
  obtain heq | ⟨callee, args, wrapped, inner, innerArgs, -, -, -, heq⟩ :=
    spliceConstructor_cases position s call <;> rw [heq]
  rw [Shader.expr_setExpr, if_neg fun h => hne h.1.symm, Shader.expr_forgetExprs]

/-- A constructor that was spliced is still a call of the same constructor. -/
theorem Splices.expr_spliceConstructor {call : ExprId} (hs : Splices s outer inner position call) :
    ∃ args, (spliceConstructor position s call).expr call = .call outer args := by
  obtain ⟨args, wrapped, innerArgs, hcall, -, -, heq⟩ := hs.spliceConstructor_eq
  have hlt : call.index < s.exprs.size := by
    by_contra hle
    rw [Shader.expr_of_size_le (by omega)] at hcall
    cases hcall
  rw [heq, Shader.expr_setExpr, Shader.size_exprs_forgetExprs, if_pos ⟨rfl, hlt⟩]
  exact ⟨_, rfl⟩

theorem paren_spliceConstructor {call : ExprId} (hs : Splices s outer inner position call)
    (id inside : ExprId) : s.expr id = .paren inside ↔
      (spliceConstructor position s call).expr id = .paren inside := by
  by_cases hid : id = call
  · obtain ⟨args, hcall⟩ := hs.expr_eq
    obtain ⟨args', hcall'⟩ := hs.expr_spliceConstructor
    rw [hid, hcall, hcall']
    simp
  · rw [expr_spliceConstructor_of_ne hid]

/-- A slot is not left if it is neither a parenthesis nor a call of the inner constructor. -/
theorem Splices.mem_liveExprs (h : s.Grounded) {call : ExprId}
    (hs : Splices s outer inner position call) {id : ExprId} (hid : id ∈ s.liveExprs)
    (hparen : ∀ inside, s.expr id ≠ .paren inside) (hcall : ∀ args, s.expr id ≠ .call inner args) :
    id ∈ (spliceConstructor position s call).liveExprs := by
  obtain ⟨args, wrapped, innerArgs, -, -, hinner, heq⟩ := hs.spliceConstructor_eq
  rw [heq, Shader.liveExprs_setExpr, Shader.liveExprs_forgetExprs, Multiset.mem_filter]
  refine ⟨hid, fun hmem => ?_⟩
  rcases mem_chain h hmem with rfl | ⟨inside, hinside⟩
  · exact hcall _ hinner
  · exact hparen inside hinside

/-- Another constructor is still one. -/
theorem Splices.of_spliceConstructor (h : s.Grounded) (hne : inner ≠ outer) {call call' : ExprId}
    (hs : Splices s outer inner position call) (hs' : Splices s outer inner position call')
    (hcalls : call' ≠ call) :
    Splices (spliceConstructor position s call) outer inner position call' := by
  obtain ⟨args, wrapped, innerArgs, hcall, hw, hinner⟩ := hs'
  obtain ⟨args', hcall'⟩ := hs.expr_eq
  have hstripped := (chain_congr h (grounded_spliceConstructor h position call)
    (paren_spliceConstructor hs) wrapped).2
  refine ⟨args, wrapped, innerArgs, ?_, hw, ?_⟩
  · rw [expr_spliceConstructor_of_ne hcalls, hcall]
  · rw [hstripped, expr_spliceConstructor_of_ne, hinner]
    rintro rfl
    rw [hinner] at hcall'
    cases hcall'
    exact hne rfl

/-- Splicing constructors one after the other keeps all slots owned, and leaves members alone. -/
theorem owned_splices (hne : inner ≠ outer) {calls : List ExprId} (hnodup : calls.Nodup)
    (h : s.Grounded) (ho : s.OwnsExprs 0)
    (hcalls : ∀ c ∈ calls, c ∈ s.liveExprs ∧ Splices s outer inner position c) :
    (calls.foldl (spliceConstructor position) s).OwnsExprs 0 ∧
      ∀ id base name, id ∈ s.liveExprs → s.expr id = .member base name →
        id ∈ (calls.foldl (spliceConstructor position) s).liveExprs ∧
          (calls.foldl (spliceConstructor position) s).expr id = .member base name := by
  induction calls generalizing s with
  | nil => exact ⟨ho, fun id base name hid hexpr => ⟨hid, hexpr⟩⟩
  | cons call calls ih =>
      obtain ⟨hlive, hs⟩ := hcalls call List.mem_cons_self
      obtain ⟨hnot, hnodup⟩ := List.nodup_cons.mp hnodup
      have hrest : ∀ c ∈ calls, c ∈ (spliceConstructor position s call).liveExprs ∧
          Splices (spliceConstructor position s call) outer inner position c := by
        intro c hc
        obtain ⟨hclive, hcs⟩ := hcalls c (List.mem_cons_of_mem _ hc)
        refine ⟨?_, hs.of_spliceConstructor h hne hcs fun heq => hnot (heq ▸ hc)⟩
        obtain ⟨args, hcexpr⟩ := hcs.expr_eq
        refine hs.mem_liveExprs h hclive (fun inside hc => ?_) fun args' hc => ?_
        · rw [hcexpr] at hc
          cases hc
        · rw [hcexpr] at hc
          cases hc
          exact hne rfl
      obtain ⟨howns, hmembers⟩ := ih hnodup (grounded_spliceConstructor h position call)
        (ownsExprs_spliceConstructor h ho hlive position) hrest
      refine ⟨howns, fun id base name hid hexpr => ?_⟩
      obtain ⟨args, hcall⟩ := hs.expr_eq
      refine hmembers id base name (hs.mem_liveExprs h hid ?_ ?_) ?_
      · simp [hexpr]
      · simp [hexpr]
      · rw [expr_spliceConstructor_of_ne, hexpr]
        rintro rfl
        rw [hexpr] at hcall
        cases hcall

end InlineField

end ShaderReducer
