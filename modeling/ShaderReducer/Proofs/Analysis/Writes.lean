import ShaderReducer.Analysis.Writes
import ShaderReducer.Proofs.Shader.Placed
import ShaderReducer.Proofs.Shader.Places

/-!
# What is written to

An expression that is written to has to be a place: a name, or a part of another place. The slots of
such expressions and of what they are parts of hold places as well, and this can be said of each slot
by itself, without a look at the tree that it is in.
-/

namespace ShaderReducer

/-- The parts that a form of expression writes to. -/
def ExprNode.written {ρ : Type} (c : Callables) : ExprNode ρ → List ρ
  | .binary op lhs _ => if op.isAssignment then [lhs] else []
  | .unary op operand => if op.writesOperand then [operand] else []
  | .call callee args => (c.outPositions callee).filterMap fun i => args[i]?
  | _ => []

/-- The part that a form of expression takes a part of, or puts in parentheses. -/
def ExprNode.base? {ρ : Type} : ExprNode ρ → Option ρ
  | .paren inner => some inner
  | .member base _ | .index base _ => some base
  | _ => none

/-- A name, or a part of something. -/
def ExprNode.IsPlace {ρ : Type} : ExprNode ρ → Prop
  | .ident _ | .paren _ | .member _ _ | .index _ _ => True
  | .literal _ | .unary _ _ | .binary _ _ _ | .ternary _ _ _ | .call _ _ => False

/-- A name in any number of parentheses, member accesses and indexings. -/
def Expr.IsPlace {ε : Type} : Expr ε → Prop
  | node _ (.ident _) => True
  | node _ (.paren inner) => inner.IsPlace
  | node _ (.member base _) => base.IsPlace
  | node _ (.index base _) => base.IsPlace
  | node _ _ => False

instance Expr.decidableIsPlace {ε : Type} : (e : Expr ε) → Decidable e.IsPlace
  | node _ (.ident _) => .isTrue trivial
  | node _ (.paren inner) => inner.decidableIsPlace
  | node _ (.member base _) => base.decidableIsPlace
  | node _ (.index base _) => base.decidableIsPlace
  | node _ (.literal _) | node _ (.unary _ _) | node _ (.binary _ _ _) | node _ (.ternary _ _ _)
  | node _ (.call _ _) => .isFalse id

theorem ExprNode.mem_children_of_base? {ρ : Type} {e : ExprNode ρ} {base : ρ}
    (h : e.base? = some base) : base ∈ e.children := by
  cases e <;> simp_all [base?, children]

theorem ExprNode.mem_children_of_written {ρ : Type} {c : Callables} {e : ExprNode ρ} {part : ρ}
    (h : part ∈ e.written c) : part ∈ e.children := by
  cases e with
  | binary op lhs rhs =>
      simp only [written] at h
      split at h <;> simp_all [children]
  | unary op operand =>
      simp only [written] at h
      split at h <;> simp_all [children]
  | call callee args =>
      obtain ⟨i, -, hi⟩ := List.mem_filterMap.mp h
      exact List.mem_of_getElem? hi
  | _ => cases h

theorem Expr.written_node {ε : Type} (c : Callables) (tag : ε) (form : ExprNode (Expr ε)) :
    (node tag form).written c = form.written c := by
  cases form <;> rfl

theorem ExprNode.written_map {ρ τ : Type} (c : Callables) (f : ρ → τ) (e : ExprNode ρ) :
    (e.map f).written c = (e.written c).map f := by
  cases e with
  | binary op lhs rhs =>
      simp only [map, written]
      split <;> rfl
  | unary op operand =>
      simp only [map, written]
      split <;> rfl
  | call callee args =>
      simp only [map, written, List.map_filterMap]
      exact List.filterMap_congr fun i _ => List.getElem?_map
  | _ => rfl

namespace Shader

variable {s t : Shader}

/-- Whatever is written to is a place. -/
def WritesPlaces (s : Shader) : Prop :=
  ∀ v ∈ s.exprVisits, ∀ e ∈ v.2.written (Callables.ofShader s), e.IsPlace

instance (s : Shader) : Decidable s.WritesPlaces :=
  inferInstanceAs (Decidable (∀ v ∈ s.exprVisits, ∀ e ∈ v.2.written (Callables.ofShader s), e.IsPlace))

/-- All that is written to is in one of some slots. These hold places, and with a part of something
the slot of what it is a part of is one of them. -/
structure Stores (s : Shader) (c : Callables) (slots : List ExprId) : Prop where
  written : ∀ id, ∀ part ∈ (s.expr id).written c, part ∈ slots
  base : ∀ id ∈ slots, ∀ base, (s.expr id).base? = some base → base ∈ slots
  place : ∀ id ∈ slots, (s.expr id).IsPlace

theorem Grounded.mem_storageChain (h : s.Grounded) {id slot : ExprId} :
    slot ∈ (s.exprTree id).storageChain ↔ slot = id ∨
      ∃ base, (s.expr id).base? = some base ∧ slot ∈ (s.exprTree base).storageChain := by
  rw [h.exprTree_eq id]
  cases s.expr id <;> simp [ExprNode.map, Expr.storageChain, ExprNode.base?]

theorem Grounded.isPlace_iff (h : s.Grounded) {id : ExprId} : (s.exprTree id).IsPlace ↔
    (s.expr id).IsPlace ∧ ∀ base, (s.expr id).base? = some base → (s.exprTree base).IsPlace := by
  rw [h.exprTree_eq id]
  cases s.expr id <;> simp [ExprNode.map, Expr.IsPlace, ExprNode.IsPlace, ExprNode.base?]

/-- The slots that a place is made of hold places. -/
theorem Grounded.of_mem_storageChain (h : s.Grounded) {id slot : ExprId}
    (hplace : (s.exprTree id).IsPlace) (hslot : slot ∈ (s.exprTree id).storageChain) :
    (s.expr slot).IsPlace ∧
      ∀ base, (s.expr slot).base? = some base → base ∈ (s.exprTree id).storageChain := by
  induction id using h.expr_induction with
  | step id ih =>
      obtain ⟨hself, hbase⟩ := h.isPlace_iff.mp hplace
      rcases h.mem_storageChain.mp hslot with rfl | ⟨base, hb, hslot⟩
      · refine ⟨hself, fun base hb => h.mem_storageChain.mpr (Or.inr ⟨base, hb, ?_⟩)⟩
        exact h.mem_storageChain.mpr (Or.inl rfl)
      · obtain ⟨hplace', hbase'⟩ := ih base (ExprNode.mem_children_of_base? hb) (hbase base hb) hslot
        exact ⟨hplace', fun inner hinner =>
          h.mem_storageChain.mpr (Or.inr ⟨base, hb, hbase' inner hinner⟩)⟩

theorem Grounded.lt_size_of_mem_storageChain (h : s.Grounded) {id slot : ExprId}
    (hid : id.index < s.exprs.size) (hslot : slot ∈ (s.exprTree id).storageChain) :
    slot.index < s.exprs.size := by
  obtain ⟨rank, hr⟩ := h.exprs
  induction id using h.expr_induction with
  | step id ih =>
      rcases h.mem_storageChain.mp hslot with rfl | ⟨base, hb, hslot⟩
      · exact hid
      · have hmem := ExprNode.mem_children_of_base? hb
        exact ih base hmem (hr.falls id base hmem).1 hslot

/-- What an expression that is visited writes to, by its slot. -/
theorem Grounded.mem_written (h : s.Grounded) {c : Callables} {v : Nat × Expr ExprId}
    (hv : v ∈ s.exprVisits) {e : Expr ExprId} (he : e ∈ v.2.written c) :
    e.tag ∈ (s.expr v.2.tag).written c ∧ e = s.exprTree e.tag := by
  have htree := h.eq_exprTree_of_mem_exprVisits (List.mem_map_of_mem (f := Prod.snd) hv)
  rw [htree, h.exprTree_eq, Expr.written_node, ExprNode.written_map] at he
  obtain ⟨id, hid, rfl⟩ := List.mem_map.mp he
  rw [tag_exprTree]
  exact ⟨hid, rfl⟩

/-- In a shader that was laid out, the slots that are written to are those that the analysis
gathers. -/
theorem LaidOut.stores (hs : s.LaidOut) (hwrites : s.WritesPlaces) :
    s.Stores (Callables.ofShader s) s.writtenSlots := by
  have h := hs.layered.grounded
  have hslot : ∀ id ∈ s.writtenSlots, ∃ root, id ∈ (s.exprTree root).storageChain ∧
      (s.exprTree root).IsPlace ∧ ∀ slot ∈ (s.exprTree root).storageChain, slot ∈ s.writtenSlots := by
    intro id hid
    obtain ⟨v, hv, hid⟩ := List.mem_flatMap.mp hid
    obtain ⟨e, he, hid⟩ := List.mem_flatMap.mp hid
    have htree := (h.mem_written hv he).2
    refine ⟨e.tag, htree ▸ hid, htree ▸ hwrites v hv e he, fun slot hslot => ?_⟩
    rw [← htree] at hslot
    exact List.mem_flatMap.mpr ⟨v, hv, List.mem_flatMap.mpr ⟨e, he, hslot⟩⟩
  refine ⟨fun id part hpart => ?_, fun id hid base hbase => ?_, fun id hid => ?_⟩
  · by_cases hlt : id.index < s.exprs.size
    · have hvisit : s.exprTree id ∈ s.exprVisits.map Prod.snd :=
        (hs.owned.mem_exprVisits h).mpr (by simpa using hs.allLive id hlt)
      obtain ⟨v, hv, htree⟩ := List.mem_map.mp hvisit
      refine List.mem_flatMap.mpr ⟨v, hv, List.mem_flatMap.mpr ⟨s.exprTree part, ?_, ?_⟩⟩
      · rw [htree, h.exprTree_eq, Expr.written_node, ExprNode.written_map]
        exact List.mem_map_of_mem hpart
      · exact h.mem_storageChain.mpr (Or.inl rfl)
    · rw [expr_of_size_le (by omega)] at hpart
      cases hpart
  · obtain ⟨root, hmem, hplace, hall⟩ := hslot id hid
    exact hall base ((h.of_mem_storageChain hplace hmem).2 base hbase)
  · obtain ⟨root, hmem, hplace, -⟩ := hslot id hid
    exact (h.of_mem_storageChain hplace hmem).1

theorem Grounded.lt_size_of_mem_writtenSlots (h : s.Grounded) {id : ExprId}
    (hid : id ∈ s.writtenSlots) : id.index < s.exprs.size := by
  obtain ⟨rank, hr⟩ := h.exprs
  obtain ⟨v, hv, hid⟩ := List.mem_flatMap.mp hid
  obtain ⟨e, he, hid⟩ := List.mem_flatMap.mp hid
  obtain ⟨hpart, htree⟩ := h.mem_written hv he
  rw [htree] at hid
  exact h.lt_size_of_mem_storageChain (hr.falls _ _ (ExprNode.mem_children_of_written hpart)).1 hid

/-- What is in one of the slots is a place down to the name. -/
theorem Stores.isPlace {c : Callables} {slots : List ExprId} (hs : s.Stores c slots)
    (h : s.Grounded) {id : ExprId} (hid : id ∈ slots) : (s.exprTree id).IsPlace := by
  induction id using h.expr_induction with
  | step id ih =>
      refine h.isPlace_iff.mpr ⟨hs.place id hid, fun base hb => ?_⟩
      exact ih base (ExprNode.mem_children_of_base? hb) (hs.base id hid base hb)

end Shader

end ShaderReducer
