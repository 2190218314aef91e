import Mathlib.Dynamics.PeriodicPts.Defs
import ShaderReducer.Proofs.Random.Seed

/-!
# Numbers below a bound

A number below a bound is drawn by drawing words until one fits, which need not end. The model draws
at most as many words as a stream has. The blocks of a stream are numbered by words, so the stream
begins again after the last one, and a word that fits stands within one turn if there is one at all.
So whenever the drawing ends, its number is the one of the model.
-/

namespace ShaderReducer

namespace ChaCha

/-! ## A stream begins again -/

/-- The place in a stream behind the next word. -/
def behind (g : ChaCha) : ChaCha :=
  g.draw.2

theorem iterate_behind_pending (g : ChaCha) :
    behind^[g.pending.length] g = { g with pending := [] } := by
  obtain ⟨key, next, pending⟩ := g
  induction pending with
  | nil => rfl
  | cons word pending ih =>
    rw [List.length_cons, Function.iterate_succ_apply]
    exact ih

theorem length_pairs (words : List UInt32) : (pairs words).length = words.length / 2 := by
  fun_induction pairs words with
  | case1 low high rest ih =>
    rw [List.length_cons, ih, List.length_cons, List.length_cons]
    omega
  | case2 words hshort =>
    cases words with
    | nil => rfl
    | cons low words =>
      cases words with
      | nil => simp
      | cons high rest => exact absurd rfl (hshort low high rest)

theorem length_pairs_block (key : Key) (number : UInt64) :
    (pairs (block key number).toList).length = 8 := by
  rw [length_pairs, Vector.length_toList]

/-- A block is used up by eight words. -/
theorem iterate_behind_block (key : Key) (next : UInt64) :
    behind^[8] ⟨key, next, []⟩ = ⟨key, next + 1, []⟩ := by
  have hrest : (behind ⟨key, next, []⟩).pending.length = 7 := by
    simp [behind, draw, length_pairs_block]
  rw [Function.iterate_succ_apply, ← hrest, iterate_behind_pending]
  rfl

theorem iterate_behind_blocks (key : Key) (next : UInt64) (m : ℕ) :
    behind^[8 * m] ⟨key, next, []⟩ = ⟨key, next + UInt64.ofNat m, []⟩ := by
  induction m with
  | zero => simp
  | succ m ih =>
    rw [Nat.mul_succ, Nat.add_comm, Function.iterate_add_apply, ih, iterate_behind_block,
      UInt64.ofNat_add, UInt64.add_assoc]
    rfl

/-- The numbers of the blocks are words, so the stream begins again behind the last one. -/
theorem iterate_behind_all (key : Key) (next : UInt64) :
    behind^[8 * 2 ^ 64] ⟨key, next, []⟩ = ⟨key, next, []⟩ := by
  have hzero : UInt64.ofNat (2 ^ 64) = 0 := by decide
  rw [iterate_behind_blocks, hzero, UInt64.add_zero]

theorem length_pending_behind {g : ChaCha} (h : g.pending.length ≤ 8) :
    (behind g).pending.length ≤ 8 := by
  obtain ⟨key, next, pending⟩ := g
  cases pending with
  | nil => simp [behind, draw, length_pairs_block]
  | cons word pending => exact (Nat.le_succ _).trans h

/-- Each word of a stream stands among those of one turn. -/
theorem exists_iterate_behind {g : ChaCha} (h : g.pending.length ≤ 8) (k : ℕ) :
    ∃ k' < 8 * 2 ^ 64 + 8, behind^[k'] g = behind^[k] g := by
  by_cases hk : k < g.pending.length
  · exact ⟨k, by omega, rfl⟩
  · obtain ⟨i, rfl⟩ := Nat.exists_eq_add_of_le' (Nat.le_of_not_lt hk)
    refine ⟨i % (8 * 2 ^ 64) + g.pending.length, ?_, ?_⟩
    · have := Nat.mod_lt i (show 0 < 8 * 2 ^ 64 by decide)
      omega
    · rw [Function.iterate_add_apply, Function.iterate_add_apply, iterate_behind_pending]
      exact Function.IsPeriodicPt.iterate_mod_apply (iterate_behind_all _ _) i

end ChaCha

namespace RandomSource

/-- Whether a word gives a number below `n` when it is drawn. -/
def Fits (n : Nat) (word : UInt64) : Prop :=
  word.toNat * n % wordCount ≤ zone n

/-- Where a word fits that is among the words to be tried, it does not matter how many more there
are. -/
theorem belowWithin_congr {n k : ℕ} {r : RandomSource}
    (hfits : Fits n (ChaCha.behind^[k] r.stream).draw.1) {tries tries' : ℕ}
    (h : k < tries) (h' : k < tries') : belowWithin n r tries = belowWithin n r tries' := by
  induction k generalizing r tries tries' with
  | zero =>
    obtain ⟨tries, rfl⟩ := Nat.exists_eq_add_of_lt h
    obtain ⟨tries', rfl⟩ := Nat.exists_eq_add_of_lt h'
    have hword : r.draw.1.toNat * n % wordCount ≤ zone n := hfits
    simp only [belowWithin, if_pos hword]
  | succ k ih =>
    cases tries with
    | zero => cases h
    | succ tries =>
      cases tries' with
      | zero => cases h'
      | succ tries' =>
        simp only [belowWithin]
        split
        · rfl
        · exact ih (r := r.draw.2) hfits (Nat.lt_of_succ_lt_succ h) (Nat.lt_of_succ_lt_succ h')

/-- Where some word of the stream fits, the number of attempts is large enough. -/
theorem below_eq_belowWithin {n k : ℕ} {r : RandomSource} (h : r.stream.pending.length ≤ 8)
    (hfits : Fits n (ChaCha.behind^[k] r.stream).draw.1) {tries : ℕ} (htries : k < tries) :
    below n r = belowWithin n r tries := by
  obtain ⟨k', hk', heq⟩ := ChaCha.exists_iterate_behind h k
  have hfits' : Fits n (ChaCha.behind^[k'] r.stream).draw.1 := heq ▸ hfits
  calc below n r = belowWithin n r (max attempts tries) :=
        belowWithin_congr hfits' hk' (hk'.trans_le (Nat.le_max_left _ _))
    _ = belowWithin n r tries :=
        belowWithin_congr hfits (htries.trans_le (Nat.le_max_right _ _)) htries

theorem length_pending_belowWithin {n : ℕ} {r : RandomSource} (tries : ℕ)
    (h : r.stream.pending.length ≤ 8) :
    (belowWithin n r tries).2.stream.pending.length ≤ 8 := by
  induction tries generalizing r with
  | zero => exact h
  | succ tries ih =>
    simp only [belowWithin]
    split
    · exact ChaCha.length_pending_behind h
    · exact ih (ChaCha.length_pending_behind h)

theorem Spawns.length_pending {seed : UInt64} {made : List RandomSource} {r : RandomSource}
    (h : Spawns (ofSeed seed) made r) : r.stream.pending.length ≤ 8 := by
  induction h with
  | start => exact Nat.zero_le 8
  | number n _ ih => exact length_pending_belowWithin attempts ih
  | fraction _ ih => exact ChaCha.length_pending_behind ih
  | trial p _ ih =>
    unfold chance
    split
    · exact ih
    · exact ChaCha.length_pending_behind ih
  | child _ ih => exact ih

/-- However a stream has been used, the next number below `n` is the one from the first word that
fits, as soon as there is one. -/
theorem Spawns.below_eq {seed : UInt64} {made : List RandomSource} {r : RandomSource} {n k : ℕ}
    (h : Spawns (ofSeed seed) made r) (hfits : Fits n (ChaCha.behind^[k] r.stream).draw.1) :
    r.below n = r.belowWithin n (k + 1) :=
  below_eq_belowWithin h.length_pending hfits k.lt_succ_self

end RandomSource

end ShaderReducer
