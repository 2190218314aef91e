import Mathlib.Logic.Relation
import ShaderReducer.Reduction.Search

/-!
# The course of a search

A search goes from one position to the next until a candidate is accepted, something fails, or
nothing is left to draw. A chunk that is rejected is put back or was a single opportunity, so where
every opportunity holds, nothing gets lost unless it was tried alone.
-/

namespace ShaderReducer

/-! ## Drawing -/

theorem perm_of_takeOut {α : Type} {index : Nat} {l rest : List α} {a : α}
    (h : takeOut index l = some (a, rest)) : (a :: rest).Perm l := by
  unfold takeOut at h
  split at h
  next a' last ha hlast =>
    obtain ⟨rfl, rfl⟩ := Prod.mk.inj (Option.some.inj h)
    obtain ⟨front, rfl⟩ := List.getLast?_eq_some_iff.mp hlast
    obtain ⟨hlt, hget⟩ := List.getElem?_eq_some_iff.mp ha
    by_cases hindex : index < front.length
    · rw [List.getElem_append_left hindex] at hget
      rw [List.set_append_left _ _ hindex, List.dropLast_concat, List.set_eq_take_append_cons_drop,
        if_pos hindex, ← hget]
      have hfront : (front[index] :: (front.take index ++ front.drop (index + 1))).Perm front := by
        refine List.perm_middle.symm.trans (List.Perm.of_eq ?_)
        rw [List.getElem_cons_drop, List.take_append_drop]
      open List in
      calc front[index] :: (front.take index ++ last :: front.drop (index + 1))
        _ ~ front[index] :: last :: (front.take index ++ front.drop (index + 1)) :=
            List.perm_middle.cons _
        _ ~ last :: front[index] :: (front.take index ++ front.drop (index + 1)) := .swap ..
        _ ~ last :: front := hfront.cons last
        _ ~ front ++ [last] := (List.perm_append_singleton last front).symm
    · have hlast : index = front.length := by
        rw [List.length_append, List.length_singleton] at hlt
        omega
      subst hlast
      rw [List.getElem_concat_length rfl] at hget
      rw [List.set_append_right _ _ (Nat.le_refl _), Nat.sub_self, List.set_cons_zero,
        List.dropLast_concat, ← hget]
      exact (List.perm_append_singleton last front).symm
  next => cases h

theorem drawRandom_perm (size : Nat) (remaining : List Opportunity) (source : RandomSource) :
    ((drawRandom size remaining source).1 ++ (drawRandom size remaining source).2.1).Perm
      remaining := by
  induction size generalizing remaining source with
  | zero => exact List.Perm.refl _
  | succ size ih =>
      rw [drawRandom]
      dsimp only
      split
      next => exact List.Perm.refl _
      next o rest hout =>
        exact ((ih rest _).cons o).trans (perm_of_takeOut hout)

/-- What is drawn and what is left are what there was. -/
theorem Strategy.draw_perm (s : Strategy) (size : Nat) (remaining : List Opportunity)
    (source : RandomSource) :
    ((s.draw size remaining source).1 ++ (s.draw size remaining source).2.1).Perm remaining := by
  cases s with
  | random => exact drawRandom_perm size remaining source
  | shallowest =>
      rw [draw, List.take_append_drop]

theorem drawRandom_length_le (size : Nat) (remaining : List Opportunity) (source : RandomSource) :
    (drawRandom size remaining source).1.length ≤ size := by
  induction size generalizing remaining source with
  | zero => exact Nat.le_refl _
  | succ size ih =>
      rw [drawRandom]
      dsimp only
      split
      next => exact Nat.zero_le _
      next o rest hout => exact Nat.succ_le_succ (ih rest _)

theorem Strategy.draw_length_le (s : Strategy) (size : Nat) (remaining : List Opportunity)
    (source : RandomSource) : (s.draw size remaining source).1.length ≤ size := by
  cases s with
  | random => exact drawRandom_length_le size remaining source
  | shallowest => exact List.length_take_le size remaining

/-! ## Positions -/

namespace Search

/-- Where a search stands: the size of its chunks, the opportunities that are left, and what it has
used up so far. -/
structure Position (σ : Type) where
  size : Nat
  remaining : List Opportunity
  effort : Effort σ

variable {σ : Type} {q : Search σ}

/-- The chunk that is drawn at a position. -/
def chunk (q : Search σ) (p : Position σ) : List Opportunity :=
  (q.config.strategy.draw (max p.size 1) p.remaining p.effort.source).1

/-- What a draw leaves. -/
def rest (q : Search σ) (p : Position σ) : List Opportunity :=
  (q.config.strategy.draw (max p.size 1) p.remaining p.effort.source).2.1

/-- What is used up after a draw. -/
def drawn (q : Search σ) (p : Position σ) : Effort σ :=
  { p.effort with source := (q.config.strategy.draw (max p.size 1) p.remaining p.effort.source).2.2 }

/-- What comes of the chunk that is drawn at a position. -/
def trial (q : Search σ) (p : Position σ) : Trial × Effort σ :=
  q.tryChunk (q.chunk p) (q.drawn p)

/-- The search from a position on. -/
def runFrom (q : Search σ) (p : Position σ) : Finding × Effort σ :=
  q.run p.size p.remaining p.effort

/-- A search goes on from one position at another. -/
inductive Next (q : Search σ) (p : Position σ) : Position σ → Prop
  | stale (hleft : p.remaining ≠ []) (htrial : (q.trial p).1 = .stale) :
      Next q p ⟨p.size, q.rest p, (q.trial p).2⟩
  | halved (hleft : p.remaining ≠ []) (htrial : (q.trial p).1 = .rejected) (hsize : 1 < p.size) :
      Next q p ⟨p.size / 2, q.chunk p ++ q.rest p, (q.trial p).2⟩
  | dropped (hleft : p.remaining ≠ []) (htrial : (q.trial p).1 = .rejected) (hsize : ¬ 1 < p.size) :
      Next q p ⟨p.size, q.rest p, (q.trial p).2⟩

/-- A search that stands at one position comes to another. -/
def Passes (q : Search σ) : Position σ → Position σ → Prop :=
  Relation.ReflTransGen q.Next

theorem runFrom_eq (q : Search σ) (p : Position σ) (hleft : p.remaining ≠ []) :
    q.runFrom p = match q.trial p with
      | (.accepted candidate, effort) => (.accepted candidate, effort)
      | (.failed error, effort) => (.failed error, effort)
      | (.stale, effort) => q.run p.size (q.rest p) effort
      | (.rejected, effort) =>
        if 1 < p.size then q.run (p.size / 2) (q.chunk p ++ q.rest p) effort
        else q.run p.size (q.rest p) effort := by
  rw [runFrom, run, dif_neg hleft]
  rfl

theorem runFrom_of_next {p p' : Position σ} (h : q.Next p p') : q.runFrom p = q.runFrom p' := by
  cases h with
  | stale hleft htrial =>
      rw [runFrom_eq q p hleft, ← Prod.eta (q.trial p), htrial]
      rfl
  | halved hleft htrial hsize =>
      rw [runFrom_eq q p hleft, ← Prod.eta (q.trial p), htrial]
      exact if_pos hsize
  | dropped hleft htrial hsize =>
      rw [runFrom_eq q p hleft, ← Prod.eta (q.trial p), htrial]
      exact if_neg hsize

/-- A search ends as it would have from any position it comes to. -/
theorem runFrom_of_passes {p p' : Position σ} (h : q.Passes p p') : q.runFrom p = q.runFrom p' := by
  induction h with
  | refl => rfl
  | tail _ hnext ih => exact ih.trans (runFrom_of_next hnext)

theorem size_add_lt_of_next {p p' : Position σ} (h : q.Next p p') :
    p'.size + p'.remaining.length < p.size + p.remaining.length := by
  have hlength := q.config.strategy.draw_length (max p.size 1) p.remaining p.effort.source
  have hrest : ∀ hleft : p.remaining ≠ [], (q.rest p).length < p.remaining.length := fun hleft =>
    q.config.strategy.draw_rest_lt (by omega) hleft p.effort.source
  cases h with
  | stale hleft _ => exact Nat.add_lt_add_left (hrest hleft) _
  | dropped hleft _ _ => exact Nat.add_lt_add_left (hrest hleft) _
  | halved hleft _ hsize =>
      change p.size / 2 + (q.chunk p ++ q.rest p).length < _
      rw [List.length_append, chunk, rest, hlength]
      omega

/-- A search ends at a position, with what it finds and what it has used up. -/
inductive Ends (q : Search σ) (p : Position σ) : Finding × Effort σ → Prop
  | dry (hleft : p.remaining = []) : Ends q p (.dry, p.effort)
  | accepted {candidate : ReductionState} (hleft : p.remaining ≠ [])
      (htrial : (q.trial p).1 = .accepted candidate) :
      Ends q p (.accepted candidate, (q.trial p).2)
  | failed {error : ReductionError} (hleft : p.remaining ≠ [])
      (htrial : (q.trial p).1 = .failed error) : Ends q p (.failed error, (q.trial p).2)

theorem Ends.runFrom_eq {p : Position σ} {result : Finding × Effort σ} (h : q.Ends p result) :
    q.runFrom p = result := by
  cases h with
  | dry hleft => rw [runFrom, run, dif_pos hleft]
  | accepted hleft htrial => rw [Search.runFrom_eq q p hleft, ← Prod.eta (q.trial p), htrial]
  | failed hleft htrial => rw [Search.runFrom_eq q p hleft, ← Prod.eta (q.trial p), htrial]

/-- Every search comes to a position at which it ends. -/
theorem exists_ends (q : Search σ) (p : Position σ) :
    ∃ p', q.Passes p p' ∧ q.Ends p' (q.runFrom p) := by
  induction hn : p.size + p.remaining.length using Nat.strongRecOn generalizing p with
  | _ n ih =>
      have hnext : ∀ p', q.Next p p' → ∃ p', q.Passes p p' ∧ q.Ends p' (q.runFrom p) := by
        intro p' hstep
        obtain ⟨p'', hpasses, hends⟩ := ih _ (hn ▸ size_add_lt_of_next hstep) p' rfl
        rw [← runFrom_of_next hstep] at hends
        exact ⟨p'', .head hstep hpasses, hends⟩
      have hhere : ∀ result, q.Ends p result → ∃ p', q.Passes p p' ∧ q.Ends p' (q.runFrom p) := by
        intro result hends
        rw [hends.runFrom_eq]
        exact ⟨p, .refl, hends⟩
      by_cases hleft : p.remaining = []
      · exact hhere _ (.dry hleft)
      cases htrial : (q.trial p).1 with
      | stale => exact hnext _ (.stale hleft htrial)
      | rejected =>
          by_cases hsize : 1 < p.size
          · exact hnext _ (.halved hleft htrial hsize)
          · exact hnext _ (.dropped hleft htrial hsize)
      | accepted candidate => exact hhere _ (.accepted hleft htrial)
      | failed error => exact hhere _ (.failed hleft htrial)

/-! ## Searches that find nothing -/

theorem chunk_append_rest (q : Search σ) (p : Position σ) :
    (q.chunk p ++ q.rest p).Perm p.remaining :=
  q.config.strategy.draw_perm _ _ _

/-- The candidate that one opportunity gives at a position. -/
def candidateAlone (q : Search σ) (o : Opportunity) (p : Position σ) : ReductionState :=
  ⟨(o.apply q.accepted.shader p.effort.names).1, q.accepted.bindings⟩

/-- A chunk of one opportunity is drawn, the change is made on the accepted shader, and the judge is
asked for the candidate and does not accept it. -/
structure RejectsAlone (q : Search σ) (o : Opportunity) (p : Position σ) : Prop where
  size_eq : max p.size 1 = 1
  chunk_eq : q.chunk p = [o]
  holds : o.holds q.accepted.shader = true
  readable : (q.candidateAlone o p).shader.candidateFault? = none
  verdict_ne : ((q.judge (q.candidateAlone o p)).run p.effort.world).1 ≠ .ok true
  world_eq : (q.trial p).2.world = ((q.judge (q.candidateAlone o p)).run p.effort.world).2
  rejected : (q.trial p).1 = .rejected

theorem tryAll_cons (o : Opportunity) (os : List Opportunity) (s : Shader) (supply : NameSupply)
    (hholds : o.holds s = true) : Opportunity.tryAll (o :: os) s supply =
      (true :: (Opportunity.tryAll os (o.apply s supply).1 (o.apply s supply).2).1,
        (Opportunity.tryAll os (o.apply s supply).1 (o.apply s supply).2).2) := by
  rw [Opportunity.tryAll, Opportunity.tryApply, if_pos hholds]

theorem judged_ne_stale (q : Search σ) (candidate : ReductionState) (world : World σ) :
    (q.judged candidate world).1 ≠ .stale := by
  rw [judged]
  split
  next => simp
  next =>
    split
    split
    next => simp
    next => simp
    next => split <;> simp

/-- A chunk is not stale if its first opportunity holds. -/
theorem trial_ne_stale {o : Opportunity} {os : List Opportunity} {effort : Effort σ}
    (hholds : o.holds q.accepted.shader = true) : (q.tryChunk (o :: os) effort).1 ≠ .stale := by
  rw [tryChunk, tryAll_cons o os _ _ hholds]
  exact judged_ne_stale q _ _

/-- A candidate is rejected by what the judge says of it. -/
theorem verdict_of_judged {candidate : ReductionState} {world : World σ}
    (h : (q.judged candidate world).1 = .rejected) :
    candidate.shader.candidateFault? = none ∧ ((q.judge candidate).run world).1 ≠ .ok true ∧
      (q.judged candidate world).2 = ((q.judge candidate).run world).2 := by
  rw [judged] at h ⊢
  cases hfault : candidate.shader.candidateFault? with
  | some fault =>
      rw [hfault] at h
      cases h
  | none =>
      rw [hfault] at h
      rw [← Prod.eta ((q.judge candidate).run world)] at h ⊢
      cases hverdict : ((q.judge candidate).run world).1 with
      | ok verdict =>
          rw [hverdict] at h
          cases verdict with
          | true => cases h
          | false => exact ⟨rfl, by simp, rfl⟩
      | error e =>
          rw [hverdict] at h
          cases hpolicy : q.config.onJudgeError with
          | reject => exact ⟨rfl, by simp, by simp⟩
          | fatal => simp [hpolicy] at h

theorem rejectsAlone_of_trial {p : Position σ} {o : Opportunity} (hsize : ¬ 1 < p.size)
    (hchunk : q.chunk p = [o]) (hholds : o.holds q.accepted.shader = true)
    (htrial : (q.trial p).1 = .rejected) : q.RejectsAlone o p := by
  have heq : q.trial p =
      ((q.judged (q.candidateAlone o p) p.effort.world).1, { q.drawn p with
        names := (o.apply q.accepted.shader p.effort.names).2
        world := (q.judged (q.candidateAlone o p) p.effort.world).2 }) := by
    rw [trial, hchunk, tryChunk, tryAll_cons o [] _ _ hholds]
    rfl
  have hjudged : (q.judged (q.candidateAlone o p) p.effort.world).1 = .rejected := by
    rw [← htrial, heq]
  obtain ⟨hreadable, hverdict, hworld⟩ := verdict_of_judged hjudged
  refine ⟨by omega, hchunk, hholds, hreadable, hverdict, ?_, htrial⟩
  rw [heq, hworld]

/-- In a search that finds nothing every opportunity that held was tried alone. -/
theorem exists_rejectsAlone {p : Position σ} (hdry : (q.runFrom p).1 = .dry)
    (hholds : ∀ o ∈ p.remaining, o.holds q.accepted.shader = true) {o : Opportunity}
    (ho : o ∈ p.remaining) : ∃ p', q.Passes p p' ∧ q.RejectsAlone o p' := by
  induction hn : p.size + p.remaining.length using Nat.strongRecOn generalizing p with
  | _ n ih =>
      have hleft : p.remaining ≠ [] := List.ne_nil_of_mem ho
      have hperm := q.chunk_append_rest p
      have hchunk : q.chunk p ≠ [] := q.config.strategy.draw_ne_nil (by omega) hleft _
      obtain ⟨first, others, hcons⟩ := List.exists_cons_of_ne_nil hchunk
      -- what comes next is found again from the next position
      have hnext : ∀ p', q.Next p p' → o ∈ p'.remaining →
          (∀ o' ∈ p'.remaining, o' ∈ p.remaining) →
          ∃ p', q.Passes p p' ∧ q.RejectsAlone o p' := by
        intro p' hstep hmem hsub
        rw [runFrom_of_next hstep] at hdry
        obtain ⟨p'', hpasses, halone⟩ := ih _ (hn ▸ size_add_lt_of_next hstep) hdry
          (fun o' ho' => hholds o' (hsub o' ho')) hmem rfl
        exact ⟨p'', .head hstep hpasses, halone⟩
      have hfirst : first.holds q.accepted.shader = true := by
        refine hholds first (hperm.subset ?_)
        rw [hcons]
        exact List.mem_cons_self
      cases htrial : (q.trial p).1 with
      | stale =>
          rw [trial, hcons] at htrial
          exact absurd htrial (trial_ne_stale hfirst)
      | accepted candidate =>
          rw [runFrom_eq q p hleft, ← Prod.eta (q.trial p), htrial] at hdry
          cases hdry
      | failed error =>
          rw [runFrom_eq q p hleft, ← Prod.eta (q.trial p), htrial] at hdry
          cases hdry
      | rejected =>
          by_cases hsize : 1 < p.size
          · exact hnext _ (.halved hleft htrial hsize) (hperm.symm.subset ho)
              fun o' ho' => hperm.subset ho'
          · have hone : others = [] := by
              have hle := q.config.strategy.draw_length_le (max p.size 1) p.remaining
                p.effort.source
              change (q.chunk p).length ≤ _ at hle
              rw [hcons, List.length_cons] at hle
              exact List.length_eq_zero_iff.mp (by omega)
            rw [hone] at hcons
            rcases List.mem_append.mp (hperm.symm.subset ho) with hmem | hmem
            · rw [hcons, List.mem_singleton] at hmem
              subst hmem
              exact ⟨p, .refl, rejectsAlone_of_trial hsize hcons hfirst htrial⟩
            · exact hnext _ (.dropped hleft htrial hsize) hmem
                fun o' ho' => hperm.subset (List.mem_append_right _ ho')

/-! ## Searches that find something -/

theorem exists_of_trial_accepted {p : Position σ} {candidate : ReductionState}
    (h : (q.trial p).1 = .accepted candidate) :
    (Opportunity.tryAll (q.chunk p) q.accepted.shader p.effort.names).1.any id = true ∧
      candidate = ⟨(Opportunity.tryAll (q.chunk p) q.accepted.shader p.effort.names).2.1,
        q.accepted.bindings⟩ := by
  rw [trial, tryChunk] at h
  dsimp only at h
  split at h
  next hany =>
    refine ⟨hany, ?_⟩
    dsimp only at h
    rw [judged] at h
    split at h
    next => cases h
    next =>
      split at h
      split at h
      next => cases h; rfl
      next => cases h
      next => split at h <;> cases h
  next => cases h

theorem chunk_subset (q : Search σ) (p : Position σ) : q.chunk p ⊆ p.remaining := fun _ ho =>
  (q.chunk_append_rest p).subset (List.mem_append_left _ ho)

/-- A search only draws what there was at its first position. -/
theorem remaining_subset_of_passes {p p' : Position σ} (h : q.Passes p p') :
    p'.remaining ⊆ p.remaining := by
  induction h with
  | refl => exact List.Subset.refl _
  | @tail before after _ hnext ih =>
      have hperm := q.chunk_append_rest before
      have hrest : q.rest before ⊆ before.remaining := fun o ho =>
        hperm.subset (List.mem_append_right _ ho)
      refine List.Subset.trans ?_ ih
      cases hnext with
      | stale => exact hrest
      | halved => exact hperm.subset
      | dropped => exact hrest

/-- What a search finds was made by a chunk of the opportunities that were left, and not all of these
were stale. The bindings are those of the accepted state. -/
theorem exists_chunk_of_accepted {p : Position σ} {candidate : ReductionState}
    (h : (q.runFrom p).1 = .accepted candidate) :
    ∃ chunk names, (∀ o ∈ chunk, o ∈ p.remaining) ∧
      (Opportunity.tryAll chunk q.accepted.shader names).1.any id = true ∧
      candidate = ⟨(Opportunity.tryAll chunk q.accepted.shader names).2.1,
        q.accepted.bindings⟩ := by
  obtain ⟨p', hpasses, hends⟩ := q.exists_ends p
  generalize q.runFrom p = result at h hends
  cases hends with
  | dry => cases h
  | accepted _ htrial =>
      cases h
      obtain ⟨hany, heq⟩ := exists_of_trial_accepted htrial
      exact ⟨q.chunk p', p'.effort.names,
        fun o ho => remaining_subset_of_passes hpasses (q.chunk_subset p' ho), hany, heq⟩
  | failed => cases h

end Search

end ShaderReducer
