import Mathlib.Data.List.Perm.Subperm
import ShaderReducer.Proofs.Reduction.Operations

/-!
# How long a search goes on

A round of a search draws one chunk. Unless the search is over then, either fewer opportunities are
left, or as many are left and the chunks become half as large. So the number of opportunities
together with the binary logarithm of the size of the chunks bounds the rounds, and with them the
candidates that are judged.
-/

namespace ShaderReducer

variable {σ : Type}

/-- What is used up, for a judge that is watched from now on. -/
def Effort.watched (effort : Effort σ) : Effort (σ × List Judge.Call) :=
  ⟨effort.source, effort.names, ⟨(effort.world.memory, []), effort.world.disk⟩⟩

namespace Search

variable {q : Search σ} {p p' : Position σ}

/-! ## One round -/

/-- The most rounds that a search may take from a position on. -/
def Position.rank (p : Position σ) : Nat :=
  p.remaining.length + Nat.log2 p.size

theorem rank_pos (hleft : p.remaining ≠ []) : 0 < p.rank :=
  Nat.lt_of_lt_of_le (List.length_pos_iff.mpr hleft) (Nat.le_add_right _ _)

theorem log2_half {n : Nat} (h : 1 < n) : Nat.log2 (n / 2) + 1 = Nat.log2 n := by
  rw [Nat.log2_def n, if_pos (by omega)]

/-- Each round takes something off the rank. -/
theorem rank_lt_of_next (h : q.Next p p') : p'.rank < p.rank := by
  have hrest : ∀ hleft : p.remaining ≠ [], (q.rest p).length < p.remaining.length := fun hleft =>
    q.config.strategy.draw_rest_lt (by omega) hleft p.effort.source
  cases h with
  | stale hleft _ => exact Nat.add_lt_add_right (hrest hleft) _
  | dropped hleft _ _ => exact Nat.add_lt_add_right (hrest hleft) _
  | halved hleft _ hsize =>
      have hlength := (q.chunk_append_rest p).length_eq
      have hlog := log2_half hsize
      change (q.chunk p ++ q.rest p).length + Nat.log2 (p.size / 2) < p.remaining.length + _
      omega

/-- A rejected chunk that may hold more than one opportunity is put back. -/
theorem perm_of_next (h : q.Next p p') (hsize : 1 < p.size)
    (hrejected : (q.trial p).1 = .rejected) : p'.remaining.Perm p.remaining := by
  cases h with
  | stale _ htrial => cases hrejected.symm.trans htrial
  | dropped _ _ hone => exact absurd hsize hone
  | halved _ _ _ => exact q.chunk_append_rest p

/-- No round brings an opportunity in. -/
theorem subperm_of_next (h : q.Next p p') : p'.remaining.Subperm p.remaining := by
  have hrest : (q.rest p).Subperm p.remaining :=
    (List.sublist_append_right _ _).subperm.trans (q.chunk_append_rest p).subperm
  cases h with
  | stale _ _ => exact hrest
  | dropped _ _ _ => exact hrest
  | halved _ _ _ => exact (q.chunk_append_rest p).subperm

/-! ## All rounds -/

/-- The positions at which a search draws a chunk, from one position up to its end, and what it
comes to. -/
inductive Rounds (q : Search σ) : Position σ → List (Position σ) → Finding × Effort σ → Prop
  | none {p : Position σ} (hleft : p.remaining = []) : Rounds q p [] (.dry, p.effort)
  | last {p : Position σ} {result : Finding × Effort σ} (hleft : p.remaining ≠ [])
    (hends : q.Ends p result) : Rounds q p [p] result
  | next {p p' : Position σ} {ps : List (Position σ)} {result : Finding × Effort σ}
    (hnext : q.Next p p') (hrest : Rounds q p' ps result) : Rounds q p (p :: ps) result

/-- Every search has such rounds. -/
theorem exists_rounds (q : Search σ) (p : Position σ) : ∃ ps, q.Rounds p ps (q.runFrom p) := by
  obtain ⟨p', hpasses, hends⟩ := q.exists_ends p
  induction hpasses using Relation.ReflTransGen.head_induction_on with
  | refl =>
      by_cases hleft : p'.remaining = []
      · rw [(Ends.dry hleft).runFrom_eq]
        exact ⟨[], .none hleft⟩
      · exact ⟨[p'], .last hleft hends⟩
  | head hnext _ ih =>
      rw [runFrom_of_next hnext] at hends ⊢
      obtain ⟨ps, hrounds⟩ := ih hends
      exact ⟨_, .next hnext hrounds⟩

namespace Rounds

variable {ps : List (Position σ)} {result : Finding × Effort σ}

theorem length_le (h : q.Rounds p ps result) : ps.length ≤ p.rank := by
  induction h with
  | none _ => exact Nat.zero_le _
  | last hleft _ => exact rank_pos hleft
  | next hnext _ ih => exact Nat.lt_of_le_of_lt ih (rank_lt_of_next hnext)

theorem subperm (h : q.Rounds p ps result) : ∀ p' ∈ ps, p'.remaining.Subperm p.remaining := by
  induction h with
  | none _ => exact fun p' hp' => nomatch hp'
  | last _ _ => exact List.forall_mem_singleton.mpr (List.Subperm.refl _)
  | next hnext _ ih =>
      exact List.forall_mem_cons.mpr ⟨List.Subperm.refl _,
        fun p' hp' => (ih p' hp').trans (subperm_of_next hnext)⟩

theorem head_eq (h : q.Rounds p ps result) : ∀ p' ∈ ps.head?, p' = p := by
  cases h with
  | none _ => exact fun p' hp' => nomatch hp'
  | last _ _ => exact fun p' hp' => (Option.some.inj hp').symm
  | next _ _ => exact fun p' hp' => (Option.some.inj hp').symm

/-- What holds of one round and the next holds all along. -/
theorem isChain (h : q.Rounds p ps result) : ps.IsChain q.Next := by
  induction h with
  | none _ => exact .nil
  | last _ _ => exact .singleton _
  | next hnext hrest ih =>
      exact List.isChain_cons.mpr ⟨fun p'' hp'' => hrest.head_eq p'' hp'' ▸ hnext, ih⟩

end Rounds

/-! ## Calls of the judge -/

/-- One candidate is judged in a round, or none. -/
theorem calls_trial_le (q : Search σ) (p : Position (σ × List Judge.Call)) :
    (q.watched.trial p).2.world.memory.2.length ≤ p.effort.world.memory.2.length + 1 := by
  have hjudged : ∀ candidate (w : World (σ × List Judge.Call)),
      (q.watched.judged candidate w).2.memory.2.length ≤ w.memory.2.length + 1 := by
    intro candidate w
    rw [judged]
    cases candidate.shader.candidateFault? with
    | some fault => exact Nat.le_succ _
    | none =>
        dsimp only [watched]
        rw [Judge.run_recorded]
        obtain ⟨verdict, w'⟩ := (q.judge candidate).run w.forget
        cases verdict with
        | ok verdict => cases verdict <;> exact Nat.le_refl _
        | error e => cases q.config.onJudgeError <;> exact Nat.le_refl _
  rw [trial, tryChunk]
  dsimp only
  split
  next => exact hjudged _ _
  next => exact Nat.le_succ _

theorem Rounds.calls_le {p : Position (σ × List Judge.Call)}
    {ps : List (Position (σ × List Judge.Call))} {result : Finding × Effort (σ × List Judge.Call)}
    (h : q.watched.Rounds p ps result) :
    result.2.world.memory.2.length ≤ p.effort.world.memory.2.length + ps.length := by
  induction h with
  | none _ => exact Nat.le_refl _
  | @last p result hleft hends =>
      have htrial := q.calls_trial_le p
      cases hends with
      | dry hnone => exact absurd hnone hleft
      | accepted _ _ => exact htrial
      | failed _ _ => exact htrial
  | @next p p' ps result hnext _ ih =>
      have htrial := q.calls_trial_le p
      have heffort : p'.effort = (q.watched.trial p).2 := by cases hnext <;> rfl
      rw [heffort] at ih
      rw [List.length_cons]
      omega

/-- A search ends after as many rounds at most as there are opportunities, and one more for each
time that the size of the chunks can be halved. It judges no more candidates than that. Every round
begins with opportunities of those at the start, each as often at most, and a chunk that is rejected
while the chunks may hold more than one leaves all of them. -/
theorem rounds_of_run (q : Search σ) (size : Nat) (remaining : List Opportunity)
    (effort : Effort σ) :
    (∃ rounds, q.Rounds ⟨size, remaining, effort⟩ rounds (q.run size remaining effort) ∧
      rounds.length ≤ remaining.length + Nat.log2 size ∧
      (∀ p ∈ rounds, p.remaining.Subperm remaining) ∧
      rounds.IsChain fun p p' =>
        1 < p.size → (q.trial p).1 = .rejected → p'.remaining.Perm p.remaining) ∧
    ∃ finding last, q.watched.run size remaining effort.watched = (finding, last) ∧
      q.run size remaining effort = (finding, last.forget) ∧
      last.world.memory.2.length ≤ remaining.length + Nat.log2 size := by
  constructor
  · obtain ⟨rounds, hrounds⟩ := q.exists_rounds ⟨size, remaining, effort⟩
    exact ⟨rounds, hrounds, hrounds.length_le, hrounds.subperm,
      hrounds.isChain.imp fun _ _ => perm_of_next⟩
  · obtain ⟨rounds, hrounds⟩ := q.watched.exists_rounds ⟨size, remaining, effort.watched⟩
    refine ⟨_, _, rfl, q.runFrom_forget ⟨size, remaining, effort.watched⟩, ?_⟩
    have hcalls : _ ≤ 0 + rounds.length := hrounds.calls_le
    rw [Nat.zero_add] at hcalls
    exact hcalls.trans hrounds.length_le

end Search

end ShaderReducer
