import ShaderReducer.Proofs.Reduction.Course
import ShaderReducer.Proofs.Reduction.Crash

/-!
# The snapshots of a run

The snapshots that a run leaves are those of the states that were accepted: the initial state has the
number zero, and the candidates that the judge accepts have the numbers after it, in order. A run that
goes on with a reduction adds snapshots and changes none that are there.
-/

namespace ShaderReducer

variable {σ : Type}

namespace Ledger

/-! ## What the files of a step hold -/

/-- The number of the snapshot that a file belongs to. -/
def File.step? : File → Option Nat
  | .shader step | .bindings step => step
  | .marker | .draft => none

/-- The text that a file of a snapshot holds. -/
def File.textOf (state : ReductionState) : File → String
  | .bindings _ => state.bindings.text
  | _ => state.source

namespace Operation

variable {f : File} {k : Nat} {held : File → Option (List UInt8)}

theorem effects_ofStep (seed : UInt64) (step : Nat) (state : ReductionState) (hf : f.step? = some k) :
    effects (ofStep seed step state) held f =
      if k = step then some (Utf8.encode (f.textOf state)) else held f := by
  cases f with
  | shader step' =>
      cases hf
      simp [ofStep, ofState, effects, effect, Function.update_apply, File.textOf]
  | bindings step' =>
      cases hf
      simp [ofStep, ofState, effects, effect, Function.update_apply, File.textOf]
  | marker => cases hf
  | draft => cases hf

/-- The files of the snapshots that were written hold the states, and those of all others what they
held. -/
theorem effects_ofSteps (seed : UInt64) (step : Nat) (states : List ReductionState)
    (hf : f.step? = some k) :
    effects (ofSteps seed step states) held f =
      if step ≤ k then
        ((states[k - step]?).map fun state => Utf8.encode (f.textOf state)).or (held f)
      else held f := by
  induction states generalizing step held with
  | nil => simp [ofSteps, effects]
  | cons state states ih =>
      rw [ofSteps, effects_append, ih, effects_ofStep seed step state hf]
      obtain hlt | rfl | hgt := Nat.lt_trichotomy k step
      · rw [if_neg (by omega), if_neg (by omega), if_neg (by omega)]
      · rw [if_neg (by omega), if_pos rfl, if_pos (Nat.le_refl _), Nat.sub_self]
        rfl
      · obtain ⟨i, rfl⟩ := Nat.exists_eq_add_of_lt hgt
        rw [if_pos (by omega), if_neg (by omega), if_pos (by omega),
          show step + i + 1 - step = i + 1 by omega, show step + i + 1 - (step + 1) = i by omega,
          List.getElem?_cons_succ]

theorem effects_ofEnd (state : ReductionState) (hf : f.step? = some k) :
    effects (ofEnd state) held f = held f := by
  cases f with
  | shader step =>
      cases hf
      simp [ofEnd, ofState, effects, effect]
  | bindings step =>
      cases hf
      simp [ofEnd, ofState, effects, effect]
  | marker => cases hf
  | draft => cases hf

theorem effects_ofEnd_marker (state : ReductionState) : effects (ofEnd state) held .marker = none := by
  simp [ofEnd, effects, effect]

end Operation

end Ledger

namespace Reduction

open Ledger

theorem Closes.effects_eq {r : Reduction σ} {found : List ReductionState} {p : Progress}
    {result : Except ReductionError Outcome} {ops : List Operation} (h : r.Closes found p result ops)
    {held : File → Option (List UInt8)} {f : File} {k : Nat} (hf : f.step? = some k) :
    Operation.effects ops held f = held f := by
  cases h with
  | exhausted => exact Operation.effects_ofEnd _ hf
  | failed => rfl
  | spent => rfl
  | outOfNumbers => rfl

/-- The world of a watched judge is that of the judge, with calls. -/
theorem exists_calls {ε α : Type} {watched : WorldM ε (σ × List Judge.Call) α} {work : WorldM ε σ α}
    (hmirrors : Mirrors watched work) {w w' : World σ} {result : Except ε α}
    (h : work.run w = (result, w')) :
    ∃ calls, watched.run ⟨(w.memory, []), w.disk⟩ = (result, ⟨(w'.memory, calls), w'.disk⟩) := by
  have hsame := (hmirrors ⟨(w.memory, []), w.disk⟩).symm.trans h
  refine ⟨(watched.run ⟨(w.memory, []), w.disk⟩).2.memory.2, ?_⟩
  obtain ⟨hresult, hworld⟩ := Prod.mk.inj hsame
  rw [← hresult, ← hworld]
  rfl

/-! ## Starting a reduction -/

/-- A run that starts a reduction and does not fail writes its initial state and goes on. -/
theorem exists_opened {config : Config} {l : Ledger} {judge : Judge σ} {initial : ReductionState}
    {w w' : World σ} {outcome : Outcome}
    (h : (fresh config l judge initial).run w = (.ok outcome, w')) :
    ∃ w₁, w₁.memory = w.memory ∧
      l.Performs judge w (Operation.ofStep config.seed 0 (freshStart config initial).accepted) w₁ ∧
      (go ⟨config, l, judge, config.seed⟩ (freshStart config initial)).run w₁ = (.ok outcome, w') := by
  cases hkinds : config.kinds.isEmpty with
  | true =>
      simp only [fresh, hkinds] at h
      cases h
  | false =>
      simp only [fresh, hkinds] at h
      obtain ⟨_, w₁, hsnapshot, h⟩ := exists_of_bind_eq_ok h
      obtain ⟨_, w₂, hmarker, h⟩ := exists_of_bind_eq_ok h
      have hfirst := (l.writes_writeState (some 0) (freshStart config initial).accepted
        w.disk).performs judge hsnapshot
      have hsecond := (l.writes_writeMarker ⟨0, config.seed⟩ w₁.disk).performs judge hmarker
      exact ⟨w₂, (memory_of_onDisk hmarker).trans (memory_of_onDisk hsnapshot),
        hfirst.trans hsecond, h⟩

theorem map_initial (config : Config) (initial : ReductionState) (found : List ReductionState) (k : Nat) :
    ((((freshStart config initial).accepted :: found)[k]?).map fun state =>
      Utf8.encode state.source) =
        ((initial :: found)[k]?).map fun state => Utf8.encode state.source := by
  cases k with
  | zero => exact congrArg (fun text => some (Utf8.encode text)) initial.shader.print_compact
  | succ k => rfl

/-- A reduction is started where there are no snapshots, and does not fail. Then there are snapshots
with the numbers from zero to that of the candidates that the judge accepted. The first one holds the
text of the initial shader, and the others hold the texts of these candidates, in order; all of them
hold the bindings that the initial state gets. The outcome has the last number and the last text. -/
theorem snapshots_of_fresh {config : Config} {l : Ledger} {judge : Judge σ} {w w' : World σ}
    {initial : ReductionState} {outcome : Outcome} (hjson : l.extension ≠ "json")
    (hslash : '/' ∉ l.extension.toList) (hjudge : judge.Spares l) (hhome : w.disk.Home)
    (hnew : ∀ k, w.disk.bytes? (l.shaderPath k) = none ∧ w.disk.bytes? (l.bindingsPath k) = none)
    (h : (fresh config l judge initial).run w = (.ok outcome, w')) :
    ∃ calls, (fresh config l judge.recorded initial).run ⟨(w.memory, []), w.disk⟩ =
        (.ok outcome, ⟨(w'.memory, calls), w'.disk⟩) ∧
      let found := Judge.accepted calls
      let bindings := (initial.bindings.withDefaults initial.shader
        (RandomSource.ofSeed config.seed).child.1).1
      (∀ k, w'.disk.bytes? (l.shaderPath k) =
        ((initial :: found)[k]?).map fun state => Utf8.encode state.source) ∧
      (∀ k, w'.disk.bytes? (l.bindingsPath k) =
        if k ≤ found.length then some (Utf8.encode bindings.text) else none) ∧
      outcome.step = found.length ∧ outcome.final.source = (found.getLastD initial).source ∧
      outcome.final.bindings = bindings := by
  obtain ⟨calls, hwatched⟩ := exists_calls (mirrors_fresh config l judge initial) h
  refine ⟨calls, hwatched, ?_⟩
  let r : Reduction σ := ⟨config, l, judge, config.seed⟩
  let start := freshStart config initial
  obtain ⟨w₁, hmemory, hopening, hgo⟩ := exists_opened hwatched
  obtain ⟨hhome₁, hsight₁⟩ := hopening.sight_eq hjson hslash hjudge.recorded hhome
  have hmarker : l.sight w₁.disk .marker = some (Utf8.encode (Marker.text ⟨0, config.seed⟩)) := by
    rw [hsight₁]
    exact effects_ofStep_marker _ _ _ _
  obtain ⟨found, p, w₂, ops, hcourse, -, hcloses, hcalls, hend⟩ :=
    closes_of_go r w₁ hjson hslash hjudge rfl hhome₁ hmarker hgo nofun
  have hfound : Judge.accepted calls = found := by
    have hlog := hcourse.accepted
    rw [hmemory] at hlog
    exact hcalls.trans hlog
  have hall : l.Performs judge.recorded ⟨(w.memory, []), w.disk⟩
      (Operation.ofSteps config.seed 0 (start.accepted :: found) ++ ops) _ :=
    (hopening.trans hcourse.performs).trans hend
  obtain ⟨-, hsight⟩ := hall.sight_eq hjson hslash hjudge.recorded hhome
  have hheld : ∀ (f : File) (k : Nat), f.step? = some k → l.sight w'.disk f =
      (((start.accepted :: found)[k]?).map fun state => Utf8.encode (f.textOf state)).or
        (l.sight w.disk f) := by
    intro f k hf
    rw [show l.sight w'.disk = _ from hsight, Operation.effects_append, hcloses.effects_eq hf,
      Operation.effects_ofSteps _ _ _ hf, if_pos (Nat.zero_le k), Nat.sub_zero]
  dsimp only
  rw [hfound]
  refine ⟨fun k => ?_, fun k => ?_, ?_⟩
  · rw [← map_initial config, ← Option.or_none (o := Option.map _ _), ← (hnew k).1]
    exact hheld (.shader (some k)) k rfl
  · have hbindings : ∀ state ∈ start.accepted :: found, state.bindings = start.accepted.bindings :=
      List.forall_mem_cons.mpr ⟨rfl, hcourse.bindings.2⟩
    rw [show w'.disk.bytes? (l.bindingsPath k) = _ from hheld (.bindings (some k)) k rfl,
      show l.sight w.disk (.bindings (some k)) = none from (hnew k).2, Option.or_none]
    split
    next hle =>
      obtain ⟨state, hstate⟩ : ∃ state, (start.accepted :: found)[k]? = some state :=
        ⟨_, List.getElem?_eq_getElem (Nat.lt_succ_of_le hle)⟩
      rw [hstate, Option.map_some, File.textOf, hbindings state (List.mem_of_getElem? hstate)]
      rfl
    next hlt =>
      rw [List.getElem?_eq_none (by rw [List.length_cons]; omega), Option.map_none]
  · have hstep : p.step = found.length := hcourse.step.trans (Nat.zero_add _)
    have hsource : p.accepted.source = (found.getLastD initial).source := by
      rw [hcourse.source]
      cases found with
      | nil => exact initial.shader.print_compact
      | cons state found => rfl
    cases hcloses with
    | spent => exact ⟨hstep, hsource, hcourse.bindings.1⟩
    | exhausted => exact ⟨hstep, hsource, hcourse.bindings.1⟩
    | outOfNumbers => exact ⟨hstep, hsource, hcourse.bindings.1⟩

/-- A run whose judge accepts what it sees takes one step, which removes the function. -/
theorem snapshots_withoutFunction :
    ∃ outcome calls disk, (fresh pairwise outLedger Judge.always.recorded
        ⟨Shader.ofProgram directiveAndFunction, {}⟩).run ⟨((), []), emptyDirectory.disk⟩ =
        (.ok outcome, ⟨((), calls), disk⟩) ∧
      outcome.step = 1 ∧ (Judge.accepted calls).length = 1 ∧
      ∀ k, Disk.bytes? disk (outLedger.shaderPath k) =
        ((⟨Shader.ofProgram directiveAndFunction, {}⟩ :: Judge.accepted calls)[k]?).map
          fun state => Utf8.encode state.source := by
  let run : WorldM ReductionError Unit Outcome :=
    fresh pairwise outLedger Judge.always ⟨Shader.ofProgram directiveAndFunction, {}⟩
  have hone : (run.run emptyDirectory).1.toOption.map (·.step) = some 1 := by
    decide +kernel
  have hhome : emptyDirectory.disk.Home := Disk.home_of_workingDirectory rfl
  have hnew : ∀ p, emptyDirectory.disk.bytes? p = none := by
    refine Disk.bytes?_eq_none fun e he => ?_
    rw [List.mem_singleton.mp he]
  generalize hresult : run.run emptyDirectory = result at hone
  obtain ⟨error | outcome, world⟩ := result
  · cases hone
  · have hspares : (Judge.always (σ := Unit)).Spares outLedger := Judge.spares_ofMemory _ _
    have hmain := @snapshots_of_fresh Unit pairwise outLedger Judge.always
      emptyDirectory world ⟨Shader.ofProgram directiveAndFunction, {}⟩ outcome (by decide)
      (by decide) hspares hhome (fun k => ⟨hnew _, hnew _⟩) hresult
    obtain ⟨calls, hwatched, hshaders, -, hstep, -⟩ := hmain
    have hlast : outcome.step = 1 := Option.some.inj hone
    exact ⟨outcome, calls, world.disk, hwatched, hlast, hstep.symm.trans hlast, hshaders⟩

/-! ## Going on with a reduction -/

/-- Where a run that goes on with a reduction begins. -/
def resumedStart (marker : Marker) (accepted : ReductionState) : Progress where
  accepted := accepted
  step := marker.step
  source := RandomSource.ofSeed (Seed.derive marker.seed marker.step.toUInt64)

/-- A run that goes on with a reduction reads the marker and the snapshot, and goes on from there. -/
theorem resume_eq {config : Config} {l : Ledger} {judge : Judge σ} {w : World σ} {marker : Marker}
    {accepted : ReductionState} (hmarker : (l.readMarker.run w.disk).1 = .ok marker)
    (hload : ((l.loadSnapshot marker.step).run w.disk).1 = .ok accepted) :
    (resume config l judge).run w =
      if config.kinds.isEmpty then (.error .noKinds, w)
      else (go ⟨config, l, judge, marker.seed⟩ (resumedStart marker accepted)).run w := by
  rw [resume]
  split
  next => rfl
  next =>
    change (World.onDisk l.readMarker >>= _ : WorldM ReductionError σ Outcome).run w = _
    rw [run_bind_stateful, run_onDisk_of_readsOnly l.readsOnly_readMarker, hmarker]
    dsimp only
    rw [run_bind_stateful, run_onDisk_of_readsOnly (l.readsOnly_loadSnapshot marker.step), hload]
    rfl

/-- A reduction is gone on with from the step that the marker names, and the files are accessible.
Each candidate that the judge accepts is written as the snapshot of the next step, with the marker
after it, and no more of them are accepted than the run may take. Where the run does not fail, it
has spent its budget and the marker is that of its last step, or it has written the final files and
removed the marker. Nothing else is written, and the snapshots that were there are not changed. -/
theorem extends_of_resume {config : Config} {l : Ledger} {judge : Judge σ} {w w' : World σ}
    {marker : Marker} {accepted : ReductionState} {result : Except ReductionError Outcome}
    (hjson : l.extension ≠ "json") (hslash : '/' ∉ l.extension.toList) (hjudge : judge.Spares l)
    (hhome : w.disk.Home) (hmarker : (l.readMarker.run w.disk).1 = .ok marker)
    (hload : ((l.loadSnapshot marker.step).run w.disk).1 = .ok accepted)
    (h : (resume config l judge).run w = (result, w'))
    (hfiles : ∀ path, result ≠ .error (.inaccessible path)) :
    ∃ calls ops, (resume config l judge.recorded).run ⟨(w.memory, []), w.disk⟩ =
        (result, ⟨(w'.memory, calls), w'.disk⟩) ∧
      let found := Judge.accepted calls
      (marker.step + found.length < 2 ^ 32 →
        (∀ most, config.maxSteps = some most → found.length ≤ most) ∧
        l.Performs judge w (Operation.ofSteps marker.seed (marker.step + 1) found ++ ops) w' ∧
        (∀ k ≤ marker.step, w'.disk.bytes? (l.shaderPath k) = w.disk.bytes? (l.shaderPath k) ∧
          w'.disk.bytes? (l.bindingsPath k) = w.disk.bytes? (l.bindingsPath k)) ∧
        (∀ error, result = .error error → ops = []) ∧
        ∀ outcome, result = .ok outcome → outcome.step = marker.step + found.length ∧
          (config.maxSteps = some found.length → outcome.ending = .budgetSpent ∧ ops = [] ∧
            (l.readMarker.run w'.disk).1 = .ok ⟨marker.step + found.length, marker.seed⟩) ∧
          (config.maxSteps ≠ some found.length → outcome.ending = .exhausted ∧
            ops = Operation.ofEnd outcome.final ∧ w'.disk.bytes? l.markerPath = none)) := by
  obtain ⟨calls, hwatched⟩ := exists_calls (mirrors_resume config l judge) h
  have hrun := hwatched
  rw [resume_eq (w := ⟨(w.memory, []), w.disk⟩) hmarker hload] at hrun
  split at hrun
  next =>
    obtain ⟨rfl, hworld⟩ := Prod.mk.inj hrun
    obtain rfl : w = w' := congrArg World.forget hworld
    obtain rfl : [] = calls := congrArg (fun world => world.memory.2) hworld
    refine ⟨[], [], hwatched, fun _ => ⟨fun _ _ => Nat.zero_le _, .refl w, fun k _ => ⟨rfl, rfl⟩,
      fun _ _ => rfl, nofun⟩⟩
  next =>
    let r : Reduction σ := ⟨config, l, judge, marker.seed⟩
    let start := resumedStart marker accepted
    have hread : l.readMarker.run w.disk = (.ok marker, w.disk) :=
      Prod.ext hmarker (l.readsOnly_readMarker w.disk)
    obtain ⟨bytes, -, hbytes, -⟩ := exists_of_readMarker hread
    obtain ⟨found, p, w₁, ops, hcourse, hbound, hcloses, hcalls, hend⟩ :=
      closes_of_go r ⟨(w.memory, []), w.disk⟩ hjson hslash hjudge rfl hhome hbytes hrun hfiles
    have hfound : Judge.accepted calls = found := hcalls.trans hcourse.accepted
    have hall : l.Performs judge w (Operation.ofSteps marker.seed (marker.step + 1) found ++ ops) w' :=
      (hcourse.performs.trans hend).forget
    refine ⟨calls, ops, hwatched, ?_⟩
    dsimp only
    rw [hfound]
    intro hnumbers
    obtain ⟨-, hsight⟩ := hall.sight_eq hjson hslash hjudge hhome
    have hheld : ∀ (f : File) (k : Nat), f.step? = some k → k ≤ marker.step →
        l.sight w'.disk f = l.sight w.disk f := by
      intro f k hf hk
      rw [hsight, Operation.effects_append, hcloses.effects_eq hf,
        Operation.effects_ofSteps _ _ _ hf, if_neg (by omega)]
    refine ⟨hbound, hall, fun k hk => ⟨hheld (.shader (some k)) k rfl hk,
      hheld (.bindings (some k)) k rfl hk⟩, ?_, ?_⟩
    · rintro error rfl
      cases hcloses
      rfl
    · rintro outcome rfl
      cases hcloses with
      | spent hspent =>
          refine ⟨hcourse.step, fun _ => ⟨rfl, rfl, ?_⟩, fun hne => absurd hspent hne⟩
          have hlast : l.sight w'.disk .marker = if found = [] then l.sight w.disk .marker
              else some (Utf8.encode (Marker.text ⟨marker.step + found.length, marker.seed⟩)) := by
            rw [hsight, List.append_nil]
            exact effects_ofSteps_marker _ _ _ _
          by_cases hnone : found = []
          · rw [if_pos hnone] at hlast
            rw [hnone, readMarker_congr hread hlast]
            rfl
          · rw [if_neg hnone] at hlast
            rw [HoldsMarker.readMarker_eq hlast hnumbers]
      | exhausted hgoes =>
          refine ⟨hcourse.step, fun heq => absurd heq hgoes, fun _ => ⟨rfl, rfl, ?_⟩⟩
          change l.sight w'.disk .marker = none
          rw [hsight, Operation.effects_append, Operation.effects_ofEnd_marker]
      | outOfNumbers hmany =>
          have hpower : stepNumbers = 2 ^ 32 := rfl
          omega

/-- A run that may take no step. -/
def withoutSteps : WorldM ReductionError Unit Outcome :=
  fresh { pairwise with maxSteps := some 0 } outLedger Judge.always
    ⟨Shader.ofProgram directiveAndFunction, {}⟩

/-- A run without steps leaves a marker and a snapshot. The run that goes on from there takes a step,
and no other. -/
theorem extends_withoutSteps :
    ∃ outcome world, (resume pairwise outLedger Judge.always).run
        (withoutSteps.run emptyDirectory).2 = (.ok outcome, world) ∧
      outcome.ending = .exhausted ∧ outcome.step = 1 ∧
      world.disk.bytes? outLedger.markerPath = none ∧
      world.disk.bytes? (outLedger.shaderPath 0) =
        (withoutSteps.run emptyDirectory).2.disk.bytes? (outLedger.shaderPath 0) := by
  generalize hleft : (withoutSteps.run emptyDirectory).2 = left
  have hread : (outLedger.readMarker.run left.disk).1.toOption = some ⟨0, pairwise.seed⟩ := by
    rw [← hleft]
    decide +kernel
  have hload : ((outLedger.loadSnapshot 0).run left.disk).1.toOption.isSome = true := by
    rw [← hleft]
    decide +kernel
  have hhome : left.disk.Home := by
    refine Disk.home_of_workingDirectory ?_
    rw [← hleft]
    decide +kernel
  have hone : (Judge.accepted ((resume pairwise outLedger Judge.always.recorded).run
      ⟨((), []), left.disk⟩).2.memory.2).length = 1 := by
    rw [← hleft]
    decide +kernel
  have hrun : ((resume pairwise outLedger Judge.always).run left).1.toOption.isSome = true := by
    rw [← hleft]
    decide +kernel
  generalize hresult : (resume pairwise outLedger Judge.always).run left = result at hrun
  generalize hloaded : ((outLedger.loadSnapshot 0).run left.disk).1 = loaded at hload
  generalize hmarker : (outLedger.readMarker.run left.disk).1 = marker at hread
  obtain ⟨error | outcome, world⟩ := result
  · cases hrun
  obtain error | accepted := loaded
  · cases hload
  obtain error | marker := marker
  · cases hread
  obtain rfl : marker = ⟨0, pairwise.seed⟩ := Option.some.inj hread
  have hspares : (Judge.always (σ := Unit)).Spares outLedger := Judge.spares_ofMemory _ _
  obtain ⟨calls, ops, hwatched, hmain⟩ := @extends_of_resume Unit pairwise outLedger Judge.always left
    world ⟨0, pairwise.seed⟩ accepted (.ok outcome) (by decide) (by decide) hspares hhome hmarker
    hloaded hresult nofun
  rw [hwatched] at hone
  obtain ⟨-, -, hkept, -, hok⟩ := hmain (by rw [hone]; decide)
  obtain ⟨hstep, -, hexhausted⟩ := hok outcome rfl
  obtain ⟨hending, -, hremoved⟩ := hexhausted nofun
  refine ⟨outcome, world, rfl, hending, ?_, hremoved, (hkept 0 (Nat.le_refl 0)).1⟩
  rw [hstep, hone]

end Reduction

end ShaderReducer
