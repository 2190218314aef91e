import ShaderReducer.Proofs.Binding.Text
import ShaderReducer.Proofs.Reduction.Snapshots
import ShaderReducer.Proofs.Shader.Compact

/-!
# Runs that can be gone on with

A run leaves the state that it accepted last where a later run looks for it. It is read back from
there if its shader and its bindings are read back from their texts. For the shader the search makes
sure of that with every candidate that it accepts, and nothing does for the initial state. The
bindings stay the same in a run, and are read back if those that were given are finite.
-/

namespace ShaderReducer

variable {σ : Type}

namespace Shader

/-- A shader is read back from its text if its text is parsed and gives the same syntax. -/
theorem candidateFault?_eq_none_iff (s : Shader) : s.candidateFault? = none ↔
    ∃ program, Program.parse s.print = .ok program ∧ (ofProgram program).agrees s = true := by
  rw [candidateFault?]
  cases Program.parse s.print with
  | error error => simp
  | ok program => simp

/-- A new layout does not change what is read back from the text. -/
theorem candidateFault?_compact (s : Shader) :
    s.compact.candidateFault? = s.candidateFault? := by
  have hagrees : ∀ t : Shader, t.agrees s.compact = t.agrees s := by
    intro t
    rw [Bool.eq_iff_iff, agrees_iff, agrees_iff, toProgram_compact]
  simp only [candidateFault?, print_compact, hagrees]

end Shader

namespace Search

variable {q : Search σ}

/-- The search lets the judge see only what is read back from its text, so nothing else is
accepted. -/
theorem readable_of_judged {candidate accepted : ReductionState} {w : World σ}
    (h : (q.judged candidate w).1 = .accepted accepted) :
    accepted.shader.candidateFault? = none := by
  rw [judged] at h
  split at h
  next => cases h
  next hreadable =>
    split at h
    split at h
    next =>
      cases h
      exact hreadable
    next => cases h
    next => split at h <;> cases h

theorem readable_of_trial {p : Position σ} {accepted : ReductionState}
    (h : (q.trial p).1 = .accepted accepted) : accepted.shader.candidateFault? = none := by
  rw [trial, tryChunk] at h
  dsimp only at h
  split at h
  next => exact readable_of_judged h
  next => cases h

/-- What a search finds is read back from its text. -/
theorem readable_of_accepted {p : Position σ} {accepted : ReductionState}
    (h : (q.runFrom p).1 = .accepted accepted) : accepted.shader.candidateFault? = none := by
  obtain ⟨p', -, hends⟩ := q.exists_ends p
  generalize q.runFrom p = result at h hends
  cases hends with
  | dry => cases h
  | accepted _ htrial =>
      cases h
      exact readable_of_trial htrial
  | failed => cases h

end Search

namespace Ledger

variable {l : Ledger} {d : Disk}

theorem HoldsState.run_loadBindings {step : Nat} {state : ReductionState}
    (h : l.HoldsState d (some step) state) :
    (ReductionState.loadBindings (l.bindingsPath step)).run d =
      (((Bindings.parse? state.bindings.text).elim
        (.error (.invalidBindings (l.bindingsPath step))) .ok), d) := by
  have htext : (ReductionState.readText (l.bindingsPath step)).run d =
      (.ok state.bindings.text, d) :=
    run_readText h.2 (Utf8.decode?_encode _)
  have hget : (get : DiskM ReductionError Disk).run d = (.ok d, d) := rfl
  have hread : d.read (l.bindingsPath step) = .ok (Utf8.encode state.bindings.text) :=
    Disk.read_eq_ok_iff.mpr h.2
  rw [ReductionState.loadBindings, run_bind_stateful, hget]
  dsimp only
  rw [hread]
  dsimp only
  rw [run_bind_stateful, htext]
  dsimp only
  cases Bindings.parse? state.bindings.text <;> rfl

/-- Where the files of a step hold a state, what is loaded is what is parsed from the text of its
shader, with what is read from the text of its bindings. -/
theorem HoldsState.exists_loaded_iff {step : Nat} {state loaded : ReductionState}
    (h : l.HoldsState d (some step) state) : ((l.loadSnapshot step).run d).1 = .ok loaded ↔
      Bindings.parse? state.bindings.text = some loaded.bindings ∧
        ∃ program, Program.parse state.source = .ok program ∧
          Shader.ofProgram program = loaded.shader := by
  have hsource : (ReductionState.readText (l.shaderPath step)).run d = (.ok state.source, d) :=
    run_readText h.1 (Utf8.decode?_encode _)
  obtain ⟨shader, bindings⟩ := loaded
  rw [loadSnapshot, ReductionState.load, run_bind_stateful, ReductionState.loadShader,
    run_bind_stateful, hsource]
  dsimp only
  cases Program.parse state.source with
  | error error =>
      refine iff_of_false (fun hok => by cases hok) ?_
      rintro ⟨-, program, hprogram, -⟩
      cases hprogram
  | ok program =>
      change ((ReductionState.loadBindings (l.bindingsPath step) >>= fun bindings =>
        pure ⟨Shader.ofProgram program, bindings⟩ : DiskM ReductionError ReductionState).run d).1 =
          _ ↔ _
      rw [run_bind_stateful, h.run_loadBindings]
      cases Bindings.parse? state.bindings.text with
      | none => exact iff_of_false (fun hok => by cases hok) (fun hnone => by cases hnone.1)
      | some read =>
          constructor
          · intro hok
            cases hok
            exact ⟨rfl, program, rfl, rfl⟩
          · rintro ⟨hread, _, hprogram, rfl⟩
            cases hread
            cases hprogram
            rfl

/-- Where the files of a step hold a state, the state is loaded if its shader is read back from its
text and its bindings are finite. -/
theorem HoldsState.loads_iff {step : Nat} {state : ReductionState}
    (h : l.HoldsState d (some step) state) :
    (∃ loaded, ((l.loadSnapshot step).run d).1 = .ok loaded ∧
      loaded.shader.agrees state.shader = true) ↔
        state.bindings.IsFinite ∧ state.shader.candidateFault? = none := by
  rw [Shader.candidateFault?_eq_none_iff, ← Bindings.isSome_parse?_text_iff,
    Option.isSome_iff_exists]
  constructor
  · rintro ⟨⟨_, bindings⟩, hloaded, hagrees⟩
    obtain ⟨hbindings, program, hprogram, rfl⟩ := h.exists_loaded_iff.mp hloaded
    exact ⟨⟨bindings, hbindings⟩, program, hprogram, hagrees⟩
  · rintro ⟨⟨bindings, hbindings⟩, program, hprogram, hagrees⟩
    exact ⟨⟨_, bindings⟩, h.exists_loaded_iff.mpr ⟨hbindings, program, hprogram, rfl⟩, hagrees⟩

end Ledger

namespace Reduction

open Ledger

variable {r : Reduction σ} {start p p' : Progress} {w w' : World σ}

/-- The state that a run accepted last and its number are on the disk. -/
structure Saved (r : Reduction σ) (p : Progress) (w : World σ) : Prop where
  home : w.disk.Home
  marker : r.ledger.HoldsMarker w.disk ⟨p.step, r.seed⟩
  state : r.ledger.HoldsState w.disk (some p.step) p.accepted

section

variable (hjson : r.ledger.extension ≠ "json") (hslash : '/' ∉ r.ledger.extension.toList)
  (hjudge : r.judge.Spares r.ledger)

include hjson hslash hjudge

theorem saved_of_performs (hhome : w.disk.Home)
    (h : r.ledger.Performs r.judge w (Operation.ofStep r.seed p.step p.accepted) w') :
    r.Saved p w' := by
  obtain ⟨hhome', hsight⟩ := h.sight_eq hjson hslash hjudge hhome
  refine ⟨hhome', ?_, ?_, ?_⟩
  · rw [HoldsMarker, hsight]
    exact effects_ofStep_marker _ _ _ _
  · rw [hsight, Operation.effects_ofStep (k := p.step) _ _ _ rfl, if_pos rfl]
    rfl
  · rw [hsight, Operation.effects_ofStep (k := p.step) _ _ _ rfl, if_pos rfl]
    rfl

/-- After any number of steps the state that was accepted last is on the disk, and its shader is
read back from its text unless it is the one that the run started from. -/
theorem saved_of_steps (hstart : r.Saved start w) (h : r.Steps (start, w) (p, w')) :
    r.Saved p w' ∧ (p = start ∨ start.step < p.step ∧ p.accepted.shader.candidateFault? = none) := by
  generalize hend : (p, w') = last at h
  induction h generalizing p w' with
  | refl =>
      cases hend
      exact ⟨hstart, .inl rfl⟩
  | @tail before last _ hstep ih =>
      obtain ⟨q, v⟩ := before
      obtain ⟨hsaved, hbefore⟩ := ih rfl
      subst hend
      obtain ⟨candidate, hnext⟩ := exists_stepsTo hstep
      have hperforms := hnext.performs
      rw [← ofStep_compact, ← hnext.accepted, ← hnext.step] at hperforms
      have hle : start.step ≤ q.step := by
        obtain rfl | ⟨hlt, -⟩ := hbefore
        · exact Nat.le_refl _
        · exact hlt.le
      refine ⟨saved_of_performs hjson hslash hjudge hsaved.home hperforms, .inr ⟨?_, ?_⟩⟩
      · rw [hnext.step]
        exact Nat.lt_succ_of_le hle
      · rw [hnext.accepted, Shader.candidateFault?_compact]
        exact Search.readable_of_accepted hnext.found

end

/-- A run counts its steps by their numbers. -/
theorem step_add_taken_of_steps (h : r.Steps (start, w) (p, w')) :
    p.step + start.taken = start.step + p.taken := by
  generalize hend : (p, w') = last at h
  induction h generalizing p w' with
  | refl =>
      cases hend
      rfl
  | @tail before last _ hstep ih =>
      obtain ⟨q, v⟩ := before
      have hbefore := ih rfl
      subst hend
      obtain ⟨_, hnext⟩ := exists_stepsTo hstep
      rw [hnext.step, hnext.taken]
      dsimp only at hbefore ⊢
      omega

/-- A run does not change the bindings. -/
theorem bindings_eq_of_steps (h : r.Steps (start, w) (p, w')) :
    p.accepted.bindings = start.accepted.bindings := by
  generalize hend : (p, w') = last at h
  induction h generalizing p w' with
  | refl =>
      cases hend
      rfl
  | @tail before last _ hstep ih =>
      obtain ⟨q, v⟩ := before
      have hbefore := ih rfl
      subst hend
      obtain ⟨_, hnext⟩ := exists_stepsTo hstep
      rw [hnext.accepted, ← hbefore]
      exact hnext.bindings_eq

/-- A run that starts a reduction and spends its budget leaves a marker with the number of its last
step, and a snapshot of that step. The state that the run ended in is read back from there, with two
exceptions: where a binding that was given is not finite, and for an initial shader that is not read
back from its own text, where the run takes no step. -/
theorem resumable_of_budgetSpent {config : Config} {l : Ledger} {judge : Judge σ}
    {initial : ReductionState} {outcome : Outcome} (hjson : l.extension ≠ "json")
    (hslash : '/' ∉ l.extension.toList) (hjudge : judge.Spares l) (hhome : w.disk.Home)
    (hmost : ∀ most, config.maxSteps = some most → most < 2 ^ 32)
    (h : (fresh config l judge initial).run w = (.ok outcome, w'))
    (hspent : outcome.ending = .budgetSpent) :
    (l.readMarker.run w'.disk).1 = .ok ⟨outcome.step, config.seed⟩ ∧
      ((∃ loaded, ((l.loadSnapshot outcome.step).run w'.disk).1 = .ok loaded ∧
          loaded.shader.agrees outcome.final.shader = true) ↔
        initial.bindings.IsFinite ∧
          (outcome.step = 0 → initial.shader.candidateFault? = none)) := by
  let r : Reduction σ := ⟨config, l, judge, config.seed⟩
  let start := freshStart config initial
  obtain ⟨w₁, -, hopening, hgo⟩ := exists_opened h
  have hstart : r.Saved start w₁ := saved_of_performs hjson hslash hjudge hhome hopening
  obtain ⟨p, w₂, hsteps, hbound, hleaves⟩ := leaves_of_go (r := r) (p := start) rfl hgo
  obtain ⟨hsaved, hlast⟩ := saved_of_steps hjson hslash hjudge hstart hsteps
  cases hleaves with
  | dry _ _ hfinish =>
      obtain ⟨_, _, -, hfinish⟩ := exists_of_bind_eq_ok hfinish
      obtain ⟨_, _, -, hfinish⟩ := exists_of_bind_eq_ok hfinish
      cases hfinish
      cases hspent
  | outOfNumbers => cases hspent
  | spent hbudget =>
      have hstep : p.step = p.taken := by
        have hcount := step_add_taken_of_steps hsteps
        rwa [show start.taken = 0 from rfl, show start.step = 0 from rfl, Nat.zero_add] at hcount
      have hfits : p.step < 2 ^ 32 := by
        cases hmax : config.maxSteps with
        | none =>
            rw [budgetSpent, show r.config.maxSteps = none from hmax] at hbudget
            cases hbudget
        | some most =>
            rw [hstep]
            exact (hbound most hmax).trans_lt (hmost most hmax)
      refine ⟨congrArg Prod.fst (hsaved.marker.readMarker_eq hfits), ?_⟩
      have hfinite : p.accepted.bindings.IsFinite ↔ initial.bindings.IsFinite := by
        rw [bindings_eq_of_steps hsteps]
        exact Bindings.isFinite_withDefaults_iff _ _ _
      rw [hsaved.state.loads_iff, hfinite]
      refine and_congr_right fun _ => ?_
      obtain rfl | ⟨hlt, hreadable⟩ := hlast
      · have hsame : start.accepted.shader.candidateFault? = initial.shader.candidateFault? :=
          initial.shader.candidateFault?_compact
        rw [hsame]
        exact ⟨fun hnone _ => hnone, fun hnone => hnone rfl⟩
      · exact ⟨fun _ hzero => absurd hzero (Nat.ne_of_gt (Nat.zero_lt_of_lt hlt)),
          fun _ => hreadable⟩

/-- A run that starts from a program with bindings and may take so many steps. -/
def budgetRun (most : Nat) (p : Program) (b : Bindings) : WorldM ReductionError Unit Outcome :=
  fresh { pairwise with maxSteps := some most } outLedger Judge.always ⟨Shader.ofProgram p, b⟩

/-- A uniform, whose value is drawn, and a function. -/
def uniformAndFunction : Program :=
  ⟨none, [.vars ⟨⟨[.uniform], "float"⟩, [⟨"u", none, none⟩]⟩,
    .function ⟨.ofName "void", "f", [], some (.node () (.block []))⟩]⟩

/-- A component of a whole number, whose text reads as a malformed number. -/
def memberOfNumber : Program :=
  ⟨none, [.function ⟨.ofName "void", "main", [], some (.node () (.block [.node () (.expr
    (.node () (.member (.node () (.literal (.int "1"))) "x")))]))⟩]⟩

/-- A uniform with an infinite argument. -/
def infiniteArgument : Bindings :=
  Bindings.insert {} "u" ⟨some "glUniform1f", some [1.0 / 0.0]⟩

/-- A run that takes its only step and whose bindings are drawn can be gone on with. A run without
steps cannot, where it starts from a component of a whole number, or from an infinite argument. -/
theorem resumable_withinBudget :
    (∃ outcome world, (budgetRun 1 uniformAndFunction {}).run emptyDirectory = (.ok outcome, world) ∧
      (outLedger.readMarker.run world.disk).1 = .ok ⟨1, 0⟩ ∧
      ∃ loaded, ((outLedger.loadSnapshot 1).run world.disk).1 = .ok loaded ∧
        loaded.shader.agrees outcome.final.shader = true) ∧
    ∀ start ∈ [(memberOfNumber, ({} : Bindings)), (uniformAndFunction, infiniteArgument)],
      ∃ outcome world,
        (budgetRun 0 start.1 start.2).run emptyDirectory = (.ok outcome, world) ∧
        (outLedger.readMarker.run world.disk).1 = .ok ⟨0, 0⟩ ∧
        ¬ ∃ loaded, ((outLedger.loadSnapshot 0).run world.disk).1 = .ok loaded ∧
          loaded.shader.agrees outcome.final.shader = true := by
  have hhome : emptyDirectory.disk.Home := Disk.home_of_workingDirectory rfl
  have hmain : ∀ most step p b, most < 2 ^ 32 →
      ((budgetRun most p b).run emptyDirectory).1.toOption.map (fun outcome =>
        (outcome.ending, outcome.step)) = some (.budgetSpent, step) →
      ∃ outcome world, (budgetRun most p b).run emptyDirectory = (.ok outcome, world) ∧
        (outLedger.readMarker.run world.disk).1 = .ok ⟨step, 0⟩ ∧
        ((∃ loaded, ((outLedger.loadSnapshot step).run world.disk).1 = .ok loaded ∧
          loaded.shader.agrees outcome.final.shader = true) ↔
            b.IsFinite ∧ (step = 0 → (Shader.ofProgram p).candidateFault? = none)) := by
    intro most step p b hmost hend
    generalize hresult : (budgetRun most p b).run emptyDirectory = result at hend
    obtain ⟨error | outcome, world⟩ := result
    · cases hend
    have hlast := Option.some.inj hend
    simp only [Prod.mk.injEq] at hlast
    obtain ⟨hending, rfl⟩ := hlast
    have hspares : (Judge.always (σ := Unit)).Spares outLedger := Judge.spares_ofMemory _ _
    obtain ⟨hmarker, hloads⟩ := @resumable_of_budgetSpent Unit emptyDirectory world
      { pairwise with maxSteps := some most } outLedger Judge.always ⟨Shader.ofProgram p, b⟩ outcome
      (by decide) (by decide) hspares hhome (by rintro _ ⟨⟩; exact hmost) hresult hending
    exact ⟨outcome, world, rfl, hmarker, hloads⟩
  have hempty : Bindings.IsFinite {} := nofun
  have hinfinite : ¬ infiniteArgument.IsFinite := by
    intro hfinite
    have hx := hfinite "u" _ (Bindings.get?_insert_self _ _ _) _ rfl _ List.mem_cons_self
    exact absurd hx (by decide +kernel)
  refine ⟨?_, List.forall_mem_cons.mpr ⟨?_, List.forall_mem_singleton.mpr ?_⟩⟩
  · obtain ⟨outcome, world, hrun, hmarker, hloads⟩ :=
      hmain 1 1 uniformAndFunction {} (by decide) (by decide +kernel)
    exact ⟨outcome, world, hrun, hmarker, hloads.mpr ⟨hempty, nofun⟩⟩
  · obtain ⟨outcome, world, hrun, hmarker, hloads⟩ :=
      hmain 0 0 memberOfNumber {} (by decide) (by decide +kernel)
    exact ⟨outcome, world, hrun, hmarker, fun hloaded =>
      absurd ((hloads.mp hloaded).2 rfl) (by decide +kernel)⟩
  · obtain ⟨outcome, world, hrun, hmarker, hloads⟩ :=
      hmain 0 0 uniformAndFunction infiniteArgument (by decide) (by decide +kernel)
    exact ⟨outcome, world, hrun, hmarker, fun hloaded => hinfinite (hloads.mp hloaded).1⟩

end Reduction

end ShaderReducer
