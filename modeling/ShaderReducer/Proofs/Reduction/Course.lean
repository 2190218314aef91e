import ShaderReducer.Proofs.Reduction.Operations

/-!
# The course of a run

A run goes from one accepted state to the next. With a judge that is watched, its course is known
from the candidates that were accepted: their number is the number of steps, and each of them was
written to the ledger as the snapshot of its step.
-/

namespace ShaderReducer

variable {σ : Type}

/-! ## A step -/

namespace Search

variable {q : Search σ} {p p' : Position σ} (l : Ledger)

theorem performs_trial (q : Search σ) (p : Position σ) :
    Ledger.Performs l q.judge p.effort.world [] (q.trial p).2.world := by
  rw [trial, tryChunk]
  dsimp only
  split
  next =>
    obtain hworld | hworld := q.world_judged
      ⟨(Opportunity.tryAll (q.chunk p) q.accepted.shader (q.drawn p).names).2.1,
        q.accepted.bindings⟩ (q.drawn p).world
    · rw [hworld]
      exact .refl p.effort.world
    · rw [hworld]
      exact (Ledger.Performs.refl p.effort.world).call _
  next => exact .refl p.effort.world

theorem performs_passes (h : q.Passes p p') :
    Ledger.Performs l q.judge p.effort.world [] p'.effort.world := by
  induction h with
  | refl => exact .refl _
  | tail _ hnext ih =>
      have htrial := performs_trial l q
      cases hnext with
      | stale => exact ih.trans (htrial _)
      | halved => exact ih.trans (htrial _)
      | dropped => exact ih.trans (htrial _)

/-- A search calls the judge, and does nothing else to the disk. -/
theorem performs_runFrom (q : Search σ) (p : Position σ) :
    Ledger.Performs l q.judge p.effort.world [] (q.runFrom p).2.world := by
  obtain ⟨p', hpasses, hlast | hlast⟩ := q.exists_last p
  · rw [hlast]
    exact performs_passes l hpasses
  · rw [hlast]
    exact (performs_passes l hpasses).trans (performs_trial l q p')

end Search

namespace Shader

/-- A shader that is laid out anew has the same text. -/
theorem print_compact (s : Shader) : s.compact.print = s.print := by
  rw [print, print, toProgram_compact]

end Shader

namespace Reduction

variable {r : Reduction σ} {start p p' : Progress} {w w' : World σ}

/-- The progress after a step: the candidate that was found is laid out anew and accepted. -/
structure StepsTo (r : Reduction σ) (p : Progress) (w : World σ) (candidate : ReductionState)
    (p' : Progress) (w' : World σ) : Prop where
  found : ((r.search p).runFrom (r.firstPosition p w)).1 = .accepted candidate
  accepted : p'.accepted = ⟨candidate.shader.compact, candidate.bindings⟩
  step : p'.step = p.step + 1
  taken : p'.taken = p.taken + 1
  memory : w'.memory = ((r.search p).runFrom (r.firstPosition p w)).2.world.memory
  performs : r.ledger.Performs r.judge w (Ledger.Operation.ofStep r.seed (p.step + 1) candidate) w'

theorem ofStep_compact (seed : UInt64) (step : Nat) (candidate : ReductionState) :
    Ledger.Operation.ofStep seed step ⟨candidate.shader.compact, candidate.bindings⟩ =
      Ledger.Operation.ofStep seed step candidate := by
  have hsource : (⟨candidate.shader.compact, candidate.bindings⟩ : ReductionState).source =
      candidate.source := candidate.shader.print_compact
  rw [Ledger.Operation.ofStep, Ledger.Operation.ofState, hsource]
  rfl

/-- A step that is taken was found by a search and written to the ledger. -/
theorem exists_stepsTo (h : (r.advance p).run w = (.ok (some p'), w')) :
    ∃ candidate, r.StepsTo p w candidate p' w' := by
  have hsearch := Search.performs_runFrom r.ledger (r.search p) (r.firstPosition p w)
  rw [advance_eq] at h
  split at h
  next => cases h
  next => cases h
  next candidate effort hrun =>
    obtain ⟨_, w₁, hsnapshot, h⟩ := exists_of_bind_eq_ok h
    obtain ⟨_, w₂, hmarker, h⟩ := exists_of_bind_eq_ok h
    cases h
    have hfirst := (r.ledger.writes_writeState (some (p.step + 1))
      ⟨candidate.shader.compact, candidate.bindings⟩ effort.world.disk).performs
        r.judge hsnapshot
    have hsecond := (r.ledger.writes_writeMarker ⟨p.step + 1, r.seed⟩ w₁.disk).performs
      r.judge hmarker
    rw [hrun] at hsearch
    refine ⟨candidate, by rw [hrun], rfl, rfl, rfl, ?_, ?_⟩
    · rw [hrun]
      exact (memory_of_onDisk hmarker).trans (memory_of_onDisk hsnapshot)
    · rw [← ofStep_compact]
      exact (hsearch.trans hfirst).trans hsecond

/-- A step fails because of the search for it, or because a file is not accessible. -/
theorem failed_of_advance {error : ReductionError} (h : (r.advance p).run w = (.error error, w')) :
    (((r.search p).runFrom (r.firstPosition p w)) =
      (.failed error, ((r.search p).runFrom (r.firstPosition p w)).2) ∧
      w' = ((r.search p).runFrom (r.firstPosition p w)).2.world) ∨
    ∃ path, error = .inaccessible path := by
  rw [advance_eq] at h
  split at h
  next => cases h
  next error' effort hrun =>
    cases h
    rw [hrun]
    exact .inl ⟨rfl, rfl⟩
  next candidate effort hrun =>
    refine .inr ?_
    rw [run_bind_stateful] at h
    split at h
    next w₁ hsnapshot =>
      rw [run_bind_stateful] at h
      split at h
      next => cases h
      next hmarker =>
        cases h
        exact (r.ledger.writes_writeMarker ⟨p.step + 1, r.seed⟩ w₁.disk).inaccessible hmarker
    next hsnapshot =>
      cases h
      exact (r.ledger.writes_writeState (some (p.step + 1))
        ⟨candidate.shader.compact, candidate.bindings⟩ effort.world.disk).inaccessible hsnapshot

/-- A search that finds nothing leaves the world as it is after its calls. -/
theorem world_of_dry (h : (r.advance p).run w = (.ok none, w')) :
    (r.search p).runFrom (r.firstPosition p w) =
      (.dry, ((r.search p).runFrom (r.firstPosition p w)).2) ∧
      w' = ((r.search p).runFrom (r.firstPosition p w)).2.world := by
  rw [advance_eq] at h
  split at h
  next effort hrun =>
    cases h
    rw [hrun]
    exact ⟨rfl, rfl⟩
  next => cases h
  next =>
    obtain ⟨_, _, -, h⟩ := exists_of_bind_eq_ok h
    obtain ⟨_, _, -, h⟩ := exists_of_bind_eq_ok h
    cases h

/-- At the end of a run that is exhausted the final files are written and the marker, which is
there, is removed; or a file is not accessible. -/
theorem finish_cases (hjson : r.ledger.extension ≠ "json") (hslash : '/' ∉ r.ledger.extension.toList)
    (hhome : w.disk.Home) {bytes : List UInt8} (hmarker : r.ledger.sight w.disk .marker = some bytes)
    {result : Except ReductionError Outcome} (h : (r.finish p).run w = (result, w')) :
    (result = .ok ⟨.exhausted, p.step, p.accepted⟩ ∧ w'.memory = w.memory ∧
      r.ledger.Performs r.judge w (Ledger.Operation.ofEnd p.accepted) w') ∨
    ∃ path, result = .error (.inaccessible path) := by
  have hfinal := r.ledger.writes_writeState none p.accepted w.disk
  rw [finish, run_bind_stateful] at h
  split at h
  next w₁ hwrite =>
    have halike := ((Ledger.keeps_writeState hjson hslash hhome none p.accepted).post _ w₁.disk
      (run_of_onDisk hwrite)).1
    have hmarker' : r.ledger.sight w₁.disk .marker = some bytes := by
      rw [halike.others .marker (by simp), hmarker]
    have hremoval := Ledger.writes_removeMarker hmarker'
    rw [run_bind_stateful] at h
    split at h
    next w₂ hremove =>
      cases h
      exact .inl ⟨rfl, (memory_of_onDisk hremove).trans (memory_of_onDisk hwrite),
        (hfinal.performs r.judge hwrite).trans (hremoval.performs r.judge hremove)⟩
    next hremove =>
      cases h
      obtain ⟨path, rfl⟩ := hremoval.inaccessible hremove
      exact .inr ⟨path, rfl⟩
  next hwrite =>
    cases h
    obtain ⟨path, rfl⟩ := hfinal.inaccessible hwrite
    exact .inr ⟨path, rfl⟩

/-! ## Many steps -/

/-- How a run goes on from a state that it has accepted: it has spent its budget, or the next search
finds nothing, or something fails. -/
inductive Leaves (r : Reduction σ) (p : Progress) (w : World σ) :
    Except ReductionError Outcome → World σ → Prop
  | spent (hspent : r.budgetSpent p = true) : Leaves r p w (.ok ⟨.budgetSpent, p.step, p.accepted⟩) w
  | dry {w₁ w' : World σ} {result : Except ReductionError Outcome}
      (hgoes : r.budgetSpent p = false) (hdry : (r.advance p).run w = (.ok none, w₁))
      (hfinish : (r.finish p).run w₁ = (result, w')) : Leaves r p w result w'
  | failed {error : ReductionError} {w' : World σ} (hgoes : r.budgetSpent p = false)
      (hfailed : (r.advance p).run w = (.error error, w')) : Leaves r p w (.error error) w'
  | outOfNumbers (hnumbers : stepNumbers ≤ p.taken) :
      Leaves r p w (.ok ⟨.outOfNumbers, p.step, p.accepted⟩) w

theorem leaves_of_reduce {more : Nat} {result : Except ReductionError Outcome}
    (hgoes : r.budgetSpent p = false) (hmore : stepNumbers ≤ p.taken + more)
    (h : (r.reduce more p).run w = (result, w')) :
    ∃ p' w₁, r.Steps (p, w) (p', w₁) ∧
      (∀ most, r.config.maxSteps = some most → p'.taken ≤ most) ∧ r.Leaves p' w₁ result w' := by
  have hbudget : ∀ q : Progress, r.budgetSpent q = false →
      ∀ most, r.config.maxSteps = some most → q.taken < most := by
    intro q hq most hmost
    rw [budgetSpent, hmost, Option.any_some, decide_eq_false_iff_not] at hq
    exact Nat.lt_of_not_le hq
  induction more generalizing p w with
  | zero =>
      cases h
      exact ⟨p, _, .refl, fun most hmost => (hbudget p hgoes most hmost).le, .outOfNumbers hmore⟩
  | succ more ih =>
      rw [reduce, run_bind_stateful] at h
      cases hadvance : (r.advance p).run w with
      | mk result' w₁ =>
          rw [hadvance] at h
          obtain error | _ | p' := result'
          · cases h
            exact ⟨p, w, .refl, fun most hmost => (hbudget p hgoes most hmost).le,
              .failed hgoes hadvance⟩
          · exact ⟨p, w, .refl, fun most hmost => (hbudget p hgoes most hmost).le,
              .dry hgoes hadvance h⟩
          · obtain ⟨_, hsteps⟩ := exists_stepsTo hadvance
            dsimp only at h
            cases hspent : r.budgetSpent p' with
            | true =>
                rw [hspent] at h
                cases h
                refine ⟨p', _, .single hadvance, fun most hmost => ?_, .spent hspent⟩
                rw [hsteps.taken]
                exact hbudget p hgoes most hmost
            | false =>
                rw [hspent] at h
                obtain ⟨q, w₂, hmany, hbound, hleaves⟩ :=
                  ih hspent (by rw [hsteps.taken]; omega) h
                exact ⟨q, w₂, .head hadvance hmany, hbound, hleaves⟩

/-- A run takes some steps, no more than it may, and then ends. -/
theorem leaves_of_go {result : Except ReductionError Outcome} (hstart : p.taken = 0)
    (h : (r.go p).run w = (result, w')) :
    ∃ p' w₁, r.Steps (p, w) (p', w₁) ∧
      (∀ most, r.config.maxSteps = some most → p'.taken ≤ most) ∧ r.Leaves p' w₁ result w' := by
  rw [go] at h
  cases hspent : r.budgetSpent p with
  | true =>
      rw [hspent] at h
      cases h
      refine ⟨p, w, .refl, fun most _ => ?_, .spent hspent⟩
      rw [hstart]
      exact Nat.zero_le most
  | false =>
      rw [hspent] at h
      exact leaves_of_reduce hspent (by omega) h

/-- A step does not change the bindings. -/
theorem StepsTo.bindings_eq {r : Reduction σ} {w w' : World σ} {candidate : ReductionState}
    (h : r.StepsTo p w candidate p' w') : candidate.bindings = p.accepted.bindings := by
  obtain ⟨_, _, -, -, hcandidate⟩ := Search.exists_chunk_of_accepted h.found
  rw [hcandidate]
  rfl

/-! ## What the judge has seen -/

/-- A run with a watched judge has come from one state to another by the candidates that were
accepted since. -/
structure Course (r : Reduction σ) (start : Progress) (w₀ : World (σ × List Judge.Call))
    (found : List ReductionState) (p : Progress) (w : World (σ × List Judge.Call)) : Prop where
  accepted : Judge.accepted w.memory.2 = Judge.accepted w₀.memory.2 ++ found
  step : p.step = start.step + found.length
  taken : p.taken = start.taken + found.length
  bindings : p.accepted.bindings = start.accepted.bindings ∧
    ∀ state ∈ found, state.bindings = start.accepted.bindings
  source : p.accepted.source = (found.getLastD start.accepted).source
  performs : r.ledger.Performs r.judge.recorded w₀
    (Ledger.Operation.ofSteps r.seed (start.step + 1) found) w

theorem Course.next {r : Reduction σ} {w₀ w w' : World (σ × List Judge.Call)}
    {found : List ReductionState} {candidate : ReductionState}
    (h : r.Course start w₀ found p w) (hstep : r.watched.StepsTo p w candidate p' w') :
    r.Course start w₀ (found ++ [candidate]) p' w' := by
  have hbindings : candidate.bindings = p.accepted.bindings := hstep.bindings_eq
  have hlog := (r.search p).accepted_runFrom (r.watched.firstPosition p w)
  rw [show (r.search p).watched = r.watched.search p from rfl, hstep.found] at hlog
  refine ⟨?_, ?_, ?_, ⟨?_, fun state hstate => ?_⟩, ?_, ?_⟩
  · rw [hstep.memory, hlog, ← List.append_assoc, ← h.accepted]
    rfl
  · rw [hstep.step, h.step, List.length_append, List.length_singleton, Nat.add_assoc]
  · rw [hstep.taken, h.taken, List.length_append, List.length_singleton, Nat.add_assoc]
  · rw [hstep.accepted]
    exact hbindings.trans h.bindings.1
  · rcases List.mem_append.mp hstate with hstate | hstate
    · exact h.bindings.2 state hstate
    · rw [List.mem_singleton.mp hstate, hbindings, h.bindings.1]
  · rw [List.getLastD_concat, hstep.accepted]
    exact candidate.shader.print_compact
  · rw [Ledger.Operation.ofSteps_concat, Nat.add_right_comm, ← h.step]
    exact h.performs.trans hstep.performs

/-- Each run with a watched judge has its course. -/
theorem exists_course {r : Reduction σ} {w₀ w : World (σ × List Judge.Call)}
    (h : r.watched.Steps (start, w₀) (p, w)) : ∃ found, r.Course start w₀ found p w := by
  generalize hend : (p, w) = last at h
  induction h generalizing p w with
  | refl =>
      cases hend
      exact ⟨[], (List.append_nil _).symm, rfl, rfl, ⟨rfl, by simp⟩, rfl, .refl _⟩
  | @tail before last _ hstep ih =>
      obtain ⟨q, v⟩ := before
      obtain ⟨found, hcourse⟩ := ih rfl
      subst hend
      obtain ⟨candidate, hnext⟩ := exists_stepsTo hstep
      exact ⟨found ++ [candidate], hcourse.next hnext⟩

/-- How a run ends that has come to a state by some candidates, with the operations of its end. -/
inductive Closes (r : Reduction σ) (found : List ReductionState) (p : Progress) :
    Except ReductionError Outcome → List Ledger.Operation → Prop
  | failed (error : ReductionError) : Closes r found p (.error error) []
  | spent (hspent : r.config.maxSteps = some found.length) :
      Closes r found p (.ok ⟨.budgetSpent, p.step, p.accepted⟩) []
  | exhausted (hgoes : r.config.maxSteps ≠ some found.length) :
      Closes r found p (.ok ⟨.exhausted, p.step, p.accepted⟩) (Ledger.Operation.ofEnd p.accepted)
  | outOfNumbers (hnumbers : stepNumbers ≤ found.length) :
      Closes r found p (.ok ⟨.outOfNumbers, p.step, p.accepted⟩) []

open Ledger in
theorem effects_ofStep_marker (seed : UInt64) (step : Nat) (state : ReductionState)
    (held : File → Option (List UInt8)) :
    Operation.effects (Operation.ofStep seed step state) held .marker =
      some (Utf8.encode (Marker.text ⟨step, seed⟩)) := by
  simp [Operation.ofStep, Operation.effects, Operation.effect]

open Ledger in
/-- The marker names the last of the steps that were taken, if there are any. -/
theorem effects_ofSteps_marker (seed : UInt64) (step : Nat) (states : List ReductionState)
    (held : File → Option (List UInt8)) :
    Operation.effects (Operation.ofSteps seed (step + 1) states) held .marker =
      if states = [] then held .marker
      else some (Utf8.encode (Marker.text ⟨step + states.length, seed⟩)) := by
  induction states generalizing step held with
  | nil => rfl
  | cons state states ih =>
      rw [Operation.ofSteps, Operation.effects_append, ih, if_neg (List.cons_ne_nil _ _)]
      split
      next hnil => rw [hnil, effects_ofStep_marker, List.length_singleton]
      next => rw [List.length_cons, Nat.add_assoc, Nat.add_comm 1]

section

variable (r : Reduction σ) (w₀ : World (σ × List Judge.Call))
  (hjson : r.ledger.extension ≠ "json") (hslash : '/' ∉ r.ledger.extension.toList)
  (hjudge : r.judge.Spares r.ledger)

include hjson hslash hjudge

/-- A run with a watched judge, on a ledger with a marker, whose files are accessible. -/
theorem closes_of_go (hstart : start.taken = 0) (hhome : w₀.disk.Home) {bytes : List UInt8}
    (hmarker : r.ledger.sight w₀.disk .marker = some bytes)
    {result : Except ReductionError Outcome} {w' : World (σ × List Judge.Call)}
    (h : (r.watched.go start).run w₀ = (result, w'))
    (hfiles : ∀ path, result ≠ .error (.inaccessible path)) :
    ∃ found p w₁ ops, r.Course start w₀ found p w₁ ∧
      (∀ most, r.config.maxSteps = some most → found.length ≤ most) ∧
      r.Closes found p result ops ∧
      Judge.accepted w'.memory.2 = Judge.accepted w₁.memory.2 ∧
      r.ledger.Performs r.judge.recorded w₁ ops w' := by
  obtain ⟨p, w₁, hsteps, hbound, hleaves⟩ := leaves_of_go hstart h
  obtain ⟨found, hcourse⟩ := exists_course hsteps
  have htaken : p.taken = found.length := by rw [hcourse.taken, hstart, Nat.zero_add]
  rw [htaken] at hbound
  have hgoes : r.watched.budgetSpent p = false → r.config.maxSteps ≠ some found.length := by
    intro hspent hmost
    rw [budgetSpent, show r.watched.config.maxSteps = some found.length from hmost, htaken,
      Option.any_some, decide_eq_false_iff_not] at hspent
    exact hspent (Nat.le_refl _)
  -- the search for one more step, which finds nothing or fails
  have hsearch : (r.search p).watched.runFrom (r.watched.firstPosition p w₁) =
      ((r.watched.search p).runFrom (r.watched.firstPosition p w₁)) := rfl
  have hcalls := (r.search p).accepted_runFrom (r.watched.firstPosition p w₁)
  have hperforms : r.ledger.Performs r.judge.recorded w₁ []
      ((r.watched.search p).runFrom (r.watched.firstPosition p w₁)).2.world :=
    Search.performs_runFrom r.ledger (r.watched.search p) (r.watched.firstPosition p w₁)
  rw [hsearch] at hcalls
  cases hleaves with
  | spent hspent =>
      refine ⟨found, p, w', [], hcourse, hbound, .spent ?_, rfl, .refl w'⟩
      cases hmax : r.config.maxSteps with
      | none =>
          rw [budgetSpent, show r.watched.config.maxSteps = none from hmax] at hspent
          cases hspent
      | some most =>
          rw [budgetSpent, show r.watched.config.maxSteps = some most from hmax, Option.any_some,
            decide_eq_true_eq, htaken] at hspent
          rw [Nat.le_antisymm hspent (hbound most hmax)]
  | outOfNumbers hnumbers =>
      exact ⟨found, p, w', [], hcourse, hbound, .outOfNumbers (htaken ▸ hnumbers), rfl, .refl w'⟩
  | @failed error _ hspent hfailed =>
      obtain ⟨hresult, hworld⟩ | ⟨path, rfl⟩ := failed_of_advance hfailed
      · refine ⟨found, p, w₁, [], hcourse, hbound, .failed error, ?_, hworld ▸ hperforms⟩
        rw [hresult] at hcalls
        rw [hworld]
        exact hcalls.trans (List.append_nil _)
      · exact absurd rfl (hfiles path)
  | @dry w₂ _ _ hspent hdry hfinish =>
      obtain ⟨hresult, hworld⟩ := world_of_dry hdry
      rw [hresult] at hcalls
      rw [← hworld] at hperforms
      obtain ⟨hhome₁, hsight₁⟩ := hcourse.performs.sight_eq hjson hslash hjudge.recorded hhome
      obtain ⟨hhome₂, hsight₂⟩ := hperforms.sight_eq hjson hslash hjudge.recorded hhome₁
      obtain ⟨bytes', hmarker'⟩ : ∃ bytes', r.ledger.sight w₂.disk .marker = some bytes' := by
        rw [hsight₂, Ledger.Operation.effects, List.foldl_nil, hsight₁, effects_ofSteps_marker]
        split
        next => exact ⟨bytes, hmarker⟩
        next => exact ⟨_, rfl⟩
      obtain ⟨rfl, hmemory, hend⟩ | ⟨path, rfl⟩ :=
        finish_cases (r := r.watched) hjson hslash hhome₂ hmarker' hfinish
      · refine ⟨found, p, w₁, _, hcourse, hbound, .exhausted (hgoes hspent), ?_,
          hperforms.trans hend⟩
        rw [hmemory, hworld]
        exact hcalls.trans (List.append_nil _)
      · exact absurd rfl (hfiles path)

end

end Reduction

end ShaderReducer
