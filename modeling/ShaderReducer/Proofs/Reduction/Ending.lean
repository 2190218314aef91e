import ShaderReducer.Proofs.Opportunity.Found
import ShaderReducer.Proofs.Opportunity.Lighter
import ShaderReducer.Proofs.Reduction.Search
import ShaderReducer.Proofs.Shader.Placed
import ShaderReducer.Reduction.Run

/-!
# Runs that are exhausted

A run takes one step after the other and ends when the search for the next one finds nothing. What
it ends with is then minimal: every opportunity that is left was tried alone in that last search.
-/

namespace ShaderReducer

/-! ## Work that may fail -/

section

variable {ε τ α β : Type}

theorem run_bind_stateful (x : ExceptT ε (StateM τ) α) (f : α → ExceptT ε (StateM τ) β) (w : τ) :
    (x >>= f).run w = match x.run w with
      | (.ok a, w₁) => (f a).run w₁
      | (.error e, w₁) => (.error e, w₁) := by
  unfold ExceptT.run
  simp only [bind, ExceptT.bind, ExceptT.mk, StateT.bind, ExceptT.bindCont]
  cases x w with
  | mk result w₁ => cases result <;> rfl

/-- Work in two parts that succeeds does so part by part. -/
theorem exists_of_bind_eq_ok {x : ExceptT ε (StateM τ) α} {f : α → ExceptT ε (StateM τ) β} {w w' : τ}
    {b : β} (h : (x >>= f).run w = (.ok b, w')) :
    ∃ a w₁, x.run w = (.ok a, w₁) ∧ (f a).run w₁ = (.ok b, w') := by
  rw [run_bind_stateful] at h
  split at h
  next a w₁ hx => exact ⟨a, w₁, hx, h⟩
  next => cases h

end

/-! ## Steps -/

namespace Reduction

variable {σ : Type} {r : Reduction σ}

/-- A run takes a step: what is accepted before it and after it, each with the world. -/
def Steps (r : Reduction σ) : Progress × World σ → Progress × World σ → Prop :=
  Relation.ReflTransGen fun a b => (r.advance a.1).run a.2 = (.ok (some b.1), b.2)

/-- Where the search for the next step begins. -/
def firstPosition (r : Reduction σ) (p : Progress) (w : World σ) : Search.Position σ :=
  ⟨r.config.chunkSize, r.opportunities p, ⟨p.source, p.names, w⟩⟩

/-- What a search leads to. -/
theorem advance_eq (p : Progress) (w : World σ) :
    (r.advance p).run w =
      match (r.search p).runFrom (r.firstPosition p w) with
      | (.dry, effort) => (.ok none, effort.world)
      | (.failed error, effort) => (.error error, effort.world)
      | (.accepted candidate, effort) =>
        ((do
          World.onDisk (r.ledger.writeSnapshot (p.step + 1)
            ⟨candidate.shader.compact, candidate.bindings⟩)
          World.onDisk (r.writeMarker (p.step + 1))
          return some ⟨⟨candidate.shader.compact, candidate.bindings⟩, p.step + 1, p.taken + 1,
            effort.source, effort.names⟩ : WorldM ReductionError σ (Option Progress)).run
              effort.world) := by
  have hget : (get : WorldM ReductionError σ (World σ)).run w = (.ok w, w) := rfl
  rw [advance, run_bind_stateful, hget, Search.runFrom, firstPosition]
  dsimp only
  generalize (r.search p).run r.config.chunkSize (r.opportunities p) ⟨p.source, p.names, w⟩ = result
  obtain ⟨finding, effort⟩ := result
  have hset : (set effort.world : WorldM ReductionError σ PUnit).run w = (.ok ⟨⟩, effort.world) := rfl
  rw [run_bind_stateful, hset]
  cases finding <;> rfl

/-- A step that is not taken was looked for and not found. -/
theorem dry_of_advance {p : Progress} {w w' : World σ} (h : (r.advance p).run w = (.ok none, w')) :
    ((r.search p).runFrom (r.firstPosition p w)).1 = .dry := by
  rw [advance_eq] at h
  split at h
  next effort hrun => rw [hrun]
  next => cases h
  next =>
    obtain ⟨_, _, -, h⟩ := exists_of_bind_eq_ok h
    obtain ⟨_, _, -, h⟩ := exists_of_bind_eq_ok h
    cases h

/-- What is accepted has been laid out anew. -/
theorem laidOut_of_advance {p p' : Progress} {w w' : World σ}
    (h : (r.advance p).run w = (.ok (some p'), w')) : p'.accepted.shader.LaidOut := by
  rw [advance_eq] at h
  split at h
  next => cases h
  next => cases h
  next candidate effort hrun =>
    obtain ⟨_, _, -, h⟩ := exists_of_bind_eq_ok h
    obtain ⟨_, _, -, h⟩ := exists_of_bind_eq_ok h
    cases h
    exact Shader.laidOut_compact candidate.shader

theorem Steps.laidOut {p p' : Progress} {w w' : World σ} (h : r.Steps (p, w) (p', w'))
    (hp : p.accepted.shader.LaidOut) : p'.accepted.shader.LaidOut := by
  rcases Relation.ReflTransGen.cases_tail h with heq | ⟨⟨p'', w''⟩, -, hlast⟩
  · cases heq
    exact hp
  · exact laidOut_of_advance hlast

/-- A run that is exhausted took some steps and then searched in vain. -/
theorem exists_of_reduce {more : Nat} {p : Progress} {w w' : World σ} {outcome : Outcome}
    (h : (r.reduce more p).run w = (.ok outcome, w')) (hend : outcome.ending = .exhausted) :
    ∃ p' w₁ w₂, r.Steps (p, w) (p', w₁) ∧ (r.advance p').run w₁ = (.ok none, w₂) ∧
      outcome.final = p'.accepted := by
  induction more generalizing p w with
  | zero =>
      cases h
      cases hend
  | succ more ih =>
      rw [reduce] at h
      obtain ⟨result, w₁, hadvance, h⟩ := exists_of_bind_eq_ok h
      cases result with
      | none =>
          refine ⟨p, w, w₁, .refl, hadvance, ?_⟩
          obtain ⟨_, _, -, h⟩ := exists_of_bind_eq_ok h
          obtain ⟨_, _, -, h⟩ := exists_of_bind_eq_ok h
          cases h
          rfl
      | some p' =>
          dsimp only at h
          split at h
          next =>
            cases h
            cases hend
          next =>
            obtain ⟨p'', w₂, w₃, hsteps, hdry, hfinal⟩ := ih h
            exact ⟨p'', w₂, w₃, .head hadvance hsteps, hdry, hfinal⟩

theorem exists_of_go {p : Progress} {w w' : World σ} {outcome : Outcome}
    (h : (r.go p).run w = (.ok outcome, w')) (hend : outcome.ending = .exhausted) :
    ∃ p' w₁ w₂, r.Steps (p, w) (p', w₁) ∧ (r.advance p').run w₁ = (.ok none, w₂) ∧
      outcome.final = p'.accepted := by
  rw [go] at h
  split at h
  next =>
    cases h
    cases hend
  next => exact exists_of_reduce h hend

/-! ## Starting -/

/-- A run that starts a reduction, or one that goes on with a reduction. -/
inductive IsRun (config : Config) (ledger : Ledger) (judge : Judge σ) :
    WorldM ReductionError σ Outcome → Prop
  | fresh (initial : ReductionState) : IsRun config ledger judge (fresh config ledger judge initial)
  | resume : IsRun config ledger judge (resume config ledger judge)

theorem run_onDisk {ε α : Type} (work : DiskM ε α) (w : World σ) :
    (World.onDisk work).run w = ((work.run w.disk).1, { w with disk := (work.run w.disk).2 }) :=
  rfl

theorem memory_of_onDisk {ε α : Type} {work : DiskM ε α} {w w' : World σ} {result : Except ε α}
    (h : (World.onDisk work).run w = (result, w')) : w'.memory = w.memory := by
  rw [run_onDisk] at h
  obtain ⟨-, hworld⟩ := Prod.mk.inj h
  rw [← hworld]

/-- Work on the world that succeeds has succeeded on the disk. -/
theorem run_of_onDisk {ε α : Type} {work : DiskM ε α} {w w' : World σ} {a : α}
    (h : (World.onDisk work).run w = (.ok a, w')) : work.run w.disk = (.ok a, w'.disk) := by
  rw [run_onDisk] at h
  obtain ⟨hresult, hworld⟩ := Prod.mk.inj h
  subst hworld
  exact Prod.ext hresult rfl

theorem laidOut_of_loadShader {path : Path} {d d' : Disk} {s : Shader}
    (h : (ReductionState.loadShader path).run d = (.ok s, d')) : s.LaidOut := by
  obtain ⟨text, d₁, -, h⟩ := exists_of_bind_eq_ok h
  split at h
  next program hparse =>
    cases h
    exact Shader.laidOut_ofProgram program
  next => cases h

theorem laidOut_of_loadSnapshot {ledger : Ledger} {step : Nat} {d d' : Disk} {state : ReductionState}
    (h : (ledger.loadSnapshot step).run d = (.ok state, d')) : state.shader.LaidOut := by
  obtain ⟨s, d₁, hs, h⟩ := exists_of_bind_eq_ok h
  obtain ⟨bindings, d₂, -, h⟩ := exists_of_bind_eq_ok h
  cases h
  exact laidOut_of_loadShader hs

/-- A run that comes to an end begins with a shader that is laid out. -/
theorem IsRun.exists_start {config : Config} {ledger : Ledger} {judge : Judge σ}
    {run : WorldM ReductionError σ Outcome} (hrun : IsRun config ledger judge run) {w w' : World σ}
    {outcome : Outcome} (h : run.run w = (.ok outcome, w')) :
    ∃ (r : Reduction σ) (start : Progress) (w₀ : World σ), r.config = config ∧ r.ledger = ledger ∧
      r.judge = judge ∧ start.accepted.shader.LaidOut ∧ (r.go start).run w₀ = (.ok outcome, w') := by
  cases hkinds : config.kinds.isEmpty with
  | true =>
      cases hrun with
      | fresh initial =>
          simp only [Reduction.fresh, hkinds] at h
          cases h
      | resume =>
          simp only [Reduction.resume, hkinds] at h
          cases h
  | false =>
      cases hrun with
      | fresh initial =>
          simp only [Reduction.fresh, hkinds] at h
          obtain ⟨_, _, -, h⟩ := exists_of_bind_eq_ok h
          obtain ⟨_, w₀, -, h⟩ := exists_of_bind_eq_ok h
          exact ⟨_, _, w₀, rfl, rfl, rfl, Shader.laidOut_compact initial.shader, h⟩
      | resume =>
          simp only [Reduction.resume, hkinds] at h
          obtain ⟨marker, w₁, -, h⟩ := exists_of_bind_eq_ok h
          obtain ⟨accepted, w₀, hload, h⟩ := exists_of_bind_eq_ok h
          exact ⟨_, _, w₀, rfl, rfl, rfl, laidOut_of_loadSnapshot (run_of_onDisk hload), h⟩

/-! ## The end -/

/-- Where the search for a step finds nothing, each opportunity was tried alone and rejected. -/
theorem rejectsAlone_of_advance {p : Progress} {w w' : World σ} (hlaid : p.accepted.shader.LaidOut)
    (h : (r.advance p).run w = (.ok none, w')) {o : Opportunity} (ho : o ∈ r.opportunities p) :
    ∃ position, (r.search p).Passes (r.firstPosition p w) position ∧
      (r.search p).RejectsAlone o position := by
  have hholds : ∀ o' ∈ r.opportunities p, o'.holds p.accepted.shader = true := fun o' ho' =>
    Opportunity.holds_of_mem_find hlaid.layered.grounded hlaid.owned ho'
  exact Search.exists_rejectsAlone (dry_of_advance h) hholds ho

/-- A run that is exhausted has searched the shader it ends with once more, and in this search each
opportunity that the shader still has was drawn as a chunk of its own, made on the shader, and not
accepted by the judge. -/
theorem rejected_of_exhausted {config : Config} {ledger : Ledger} {judge : Judge σ}
    {run : WorldM ReductionError σ Outcome} (hrun : IsRun config ledger judge run) {w w' : World σ}
    {outcome : Outcome} (h : run.run w = (.ok outcome, w')) (hend : outcome.ending = .exhausted) :
    ∃ (r : Reduction σ) (start last : Progress) (w₀ w₁ w₂ : World σ),
      r.config = config ∧ r.ledger = ledger ∧ r.judge = judge ∧
      run.run w = (r.go start).run w₀ ∧ r.Steps (start, w₀) (last, w₁) ∧
      (r.advance last).run w₁ = (.ok none, w₂) ∧ last.accepted = outcome.final ∧
      ∀ o ∈ Opportunity.find outcome.final.shader config.everywhere config.kinds, ∃ position,
        (r.search last).Passes (r.firstPosition last w₁) position ∧
        (r.search last).RejectsAlone o position := by
  obtain ⟨r, start, w₀, hconfig, hledger, hjudge, hlaid, hgo⟩ := hrun.exists_start h
  obtain ⟨last, w₁, w₂, hsteps, hdry, hfinal⟩ := exists_of_go hgo hend
  refine ⟨r, start, last, w₀, w₁, w₂, hconfig, hledger, hjudge, h.trans hgo.symm, hsteps, hdry,
    hfinal.symm, fun o ho => ?_⟩
  rw [hfinal, ← hconfig] at ho
  exact rejectsAlone_of_advance (hsteps.laidOut hlaid) hdry ho

/-- Chunks that are larger than what there is to draw. -/
def pairwise : Config :=
  { everywhere := true, strategy := .shallowest, chunkSize := 2 }

/-- A run on a directive and a function, for a judge that needs the function. -/
def needsFunction : WorldM ReductionError Unit Outcome :=
  fresh pairwise ⟨⟨"out"⟩, "shader", "frag"⟩ (Judge.mentioning ["f()"])
    ⟨Shader.ofProgram ⟨none, [.directive "#pragma a",
      .function ⟨.ofName "void", "f", [], some (.node () (.block []))⟩]⟩, {}⟩

/-- An empty directory. -/
def emptyDirectory : World Unit :=
  ⟨(), { tree := ⟨[(["out"], .directory)]⟩ }⟩

/-- To remove the function is tried alone and rejected. -/
theorem rejected_needsFunction :
    ∃ outcome world, needsFunction.run emptyDirectory = (.ok outcome, world) ∧
      outcome.ending = .exhausted ∧
      ∃ o ∈ Opportunity.find outcome.final.shader pairwise.everywhere pairwise.kinds,
        ∃ (q : Search Unit) (position : Search.Position Unit), q.RejectsAlone o position := by
  have hrun : ((needsFunction.run emptyDirectory).1.toOption.any fun outcome =>
      outcome.ending == .exhausted && !(Opportunity.find outcome.final.shader pairwise.everywhere
        pairwise.kinds).isEmpty) = true := by
    decide +kernel
  generalize hresult : needsFunction.run emptyDirectory = result at hrun
  obtain ⟨error | outcome, world⟩ := result
  · cases hrun
  · simp only [Except.toOption, Option.any_some, Bool.and_eq_true, beq_iff_eq, Bool.not_eq_true',
      List.isEmpty_eq_false_iff] at hrun
    obtain ⟨hend, hfound⟩ := hrun
    obtain ⟨o, ho⟩ := List.exists_mem_of_ne_nil _ hfound
    have hfresh : IsRun pairwise ⟨⟨"out"⟩, "shader", "frag"⟩ (Judge.mentioning ["f()"])
        needsFunction := .fresh _
    obtain ⟨r, start, last, w₀, w₁, w₂, -, -, -, -, -, -, -, hrejected⟩ :=
      rejected_of_exhausted hfresh hresult hend
    obtain ⟨position, -, halone⟩ := hrejected o ho
    exact ⟨outcome, world, rfl, hend, o, ho, r.search last, position, halone⟩

end Reduction

/-!
## Runs come to an end

Every state that is accepted weighs less than the one before, so a run without a largest number of
steps takes no more of them than the initial shader weighs, whatever the judge says.
-/

namespace Reduction

variable {σ : Type} {r : Reduction σ} {p p' : Progress} {w w' : World σ}

/-- A step that is taken was found by a search, and what was found is laid out anew. -/
theorem exists_of_advance (h : (r.advance p).run w = (.ok (some p'), w')) :
    ∃ candidate, ((r.search p).runFrom (r.firstPosition p w)).1 = .accepted candidate ∧
      p'.accepted = ⟨candidate.shader.compact, candidate.bindings⟩ ∧ p'.step = p.step + 1 := by
  rw [advance_eq] at h
  split at h
  next => cases h
  next => cases h
  next candidate effort hrun =>
    obtain ⟨_, _, -, h⟩ := exists_of_bind_eq_ok h
    obtain ⟨_, _, -, h⟩ := exists_of_bind_eq_ok h
    cases h
    exact ⟨candidate, by rw [hrun], rfl, rfl⟩

/-- One step takes weight away. -/
theorem weight_lt_of_advance (hlaid : p.accepted.shader.LaidOut)
    (hstructs : StructsSound p.accepted.shader.structDecls)
    (h : (r.advance p).run w = (.ok (some p'), w')) :
    StructsSound p'.accepted.shader.structDecls ∧
      p'.accepted.shader.weight < p.accepted.shader.weight ∧ p'.step = p.step + 1 := by
  obtain ⟨candidate, hfound, haccepted, hstep⟩ := exists_of_advance h
  obtain ⟨chunk, names, hchunk, hany, hcandidate⟩ := Search.exists_chunk_of_accepted hfound
  obtain ⟨hsound, hlt⟩ := Opportunity.weight_tryAll_lt hlaid.layered.grounded hlaid.owned hstructs
    hchunk names hany
  rw [haccepted, hcandidate]
  refine ⟨?_, (Shader.weight_compact _).trans_lt hlt, hstep⟩
  rw [Shader.structDecls_compact]
  exact hsound

/-- Any number of steps take at least as much weight away. -/
theorem Steps.weight_le (h : r.Steps (p, w) (p', w')) (hlaid : p.accepted.shader.LaidOut)
    (hstructs : StructsSound p.accepted.shader.structDecls) :
    StructsSound p'.accepted.shader.structDecls ∧
      p'.step + p'.accepted.shader.weight ≤ p.step + p.accepted.shader.weight := by
  generalize hend : (p', w') = last at h
  induction h generalizing p' w' with
  | refl =>
      cases hend
      exact ⟨hstructs, Nat.le_refl _⟩
  | @tail before last hsteps hstep ih =>
      obtain ⟨q, v⟩ := before
      obtain ⟨hsound, hle⟩ := ih rfl
      subst hend
      obtain ⟨hsound', hlt, hnext⟩ :=
        weight_lt_of_advance (Steps.laidOut hsteps hlaid) hsound hstep
      dsimp only at hlt hnext
      exact ⟨hsound', by omega⟩

/-- Where there is no largest number of steps, those that may be taken do not run out if there are
more of them than the shader weighs. -/
theorem reduce_eq (hmax : r.config.maxSteps = none) (hlaid : p.accepted.shader.LaidOut)
    (hstructs : StructsSound p.accepted.shader.structDecls) {more more' : Nat}
    (hmore : p.accepted.shader.weight < more) (hmore' : p.accepted.shader.weight < more') :
    (r.reduce more p).run w = (r.reduce more' p).run w := by
  induction more generalizing p w more' with
  | zero => exact absurd hmore (Nat.not_lt_zero _)
  | succ more ih =>
      obtain ⟨more', rfl⟩ := Nat.exists_eq_add_one_of_ne_zero (Nat.ne_zero_of_lt hmore')
      rw [reduce, reduce, run_bind_stateful, run_bind_stateful]
      cases hadvance : (r.advance p).run w with
      | mk result w₁ =>
          obtain e | _ | p' := result
          · rfl
          · rfl
          · obtain ⟨hsound, hlt, -⟩ := weight_lt_of_advance hlaid hstructs hadvance
            have hgoes : r.budgetSpent p' = false := by rw [budgetSpent, hmax]; rfl
            dsimp only
            rw [hgoes]
            exact ih (laidOut_of_advance hadvance) hsound (by omega) (by omega)

/-- Such a run ends because nothing is left to reduce, unless it fails. -/
theorem exhausted_of_reduce (hmax : r.config.maxSteps = none) (hlaid : p.accepted.shader.LaidOut)
    (hstructs : StructsSound p.accepted.shader.structDecls) {more : Nat}
    (hmore : p.accepted.shader.weight < more) {outcome : Outcome}
    (h : (r.reduce more p).run w = (.ok outcome, w')) : outcome.ending = .exhausted := by
  induction more generalizing p w with
  | zero => exact absurd hmore (Nat.not_lt_zero _)
  | succ more ih =>
      rw [reduce] at h
      obtain ⟨result, w₁, hadvance, h⟩ := exists_of_bind_eq_ok h
      cases result with
      | none =>
          obtain ⟨_, _, -, h⟩ := exists_of_bind_eq_ok h
          obtain ⟨_, _, -, h⟩ := exists_of_bind_eq_ok h
          cases h
          rfl
      | some p' =>
          obtain ⟨hsound, hlt, -⟩ := weight_lt_of_advance hlaid hstructs hadvance
          have hgoes : r.budgetSpent p' = false := by rw [budgetSpent, hmax]; rfl
          dsimp only at h
          rw [hgoes] at h
          exact ih (laidOut_of_advance hadvance) hsound (by omega) h

/-! ## Runs from the start -/

/-- Where a run that starts a reduction begins. -/
def freshStart (config : Config) (initial : ReductionState) : Progress where
  accepted := (initialState config initial).1
  step := 0
  source := (initialState config initial).2

/-- A run that starts a reduction and does not fail has written its initial state and gone on. -/
theorem exists_of_fresh {config : Config} {ledger : Ledger} {judge : Judge σ}
    {initial : ReductionState} {outcome : Outcome}
    (h : (fresh config ledger judge initial).run w = (.ok outcome, w')) :
    ∃ w₀, (go ⟨config, ledger, judge, config.seed⟩ (freshStart config initial)).run w₀ =
      (.ok outcome, w') := by
  cases hkinds : config.kinds.isEmpty with
  | true =>
      simp only [fresh, hkinds] at h
      cases h
  | false =>
      simp only [fresh, hkinds] at h
      obtain ⟨_, _, -, h⟩ := exists_of_bind_eq_ok h
      obtain ⟨_, w₀, -, h⟩ := exists_of_bind_eq_ok h
      exact ⟨w₀, h⟩

/-- A reduction without a largest number of steps ends. Each state that is accepted weighs less than
the one before, so no more steps are accepted than the initial shader weighs; a loop that may go on
for longer than that does the same; and a run that does not fail is exhausted. -/
theorem ends_of_fresh (config : Config) (hmax : config.maxSteps = none) (initial : ReductionState)
    (hstructs : StructsSound initial.shader.structDecls) (ledger : Ledger) (judge : Judge σ) :
    let r : Reduction σ := ⟨config, ledger, judge, config.seed⟩
    let start := freshStart config initial
    (∀ w p w₁, r.Steps (start, w) (p, w₁) →
      p.step + p.accepted.shader.weight ≤ initial.shader.weight ∧
        ∀ p' w₂, (r.advance p).run w₁ = (.ok (some p'), w₂) →
          p'.accepted.shader.weight < p.accepted.shader.weight) ∧
    (∀ more, initial.shader.weight < more → ∀ w,
      (r.reduce more start).run w = (r.reduce (initial.shader.weight + 1) start).run w ∧
        ∀ outcome w', (r.reduce more start).run w = (.ok outcome, w') →
          outcome.ending = .exhausted) ∧
    (initial.shader.weight < stepNumbers → ∀ w outcome w',
      (fresh config ledger judge initial).run w = (.ok outcome, w') →
        outcome.ending = .exhausted) := by
  intro r start
  have hlaid : start.accepted.shader.LaidOut := Shader.laidOut_compact initial.shader
  have hsound : StructsSound start.accepted.shader.structDecls := by
    change StructsSound initial.shader.compact.structDecls
    rwa [Shader.structDecls_compact]
  have hweight : start.accepted.shader.weight = initial.shader.weight :=
    Shader.weight_compact initial.shader
  refine ⟨fun w p w₁ hsteps => ?_, fun more hmore w => ⟨?_, fun outcome w' h => ?_⟩,
    fun hnumbers w outcome w' h => ?_⟩
  · obtain ⟨hstructs', hle⟩ := hsteps.weight_le hlaid hsound
    refine ⟨by rwa [hweight, show start.step = 0 from rfl, Nat.zero_add] at hle, ?_⟩
    intro p' w₂ h
    exact (weight_lt_of_advance (hsteps.laidOut hlaid) hstructs' h).2.1
  · exact reduce_eq hmax hlaid hsound (hweight ▸ hmore) (hweight ▸ Nat.lt_succ_self _)
  · exact exhausted_of_reduce hmax hlaid hsound (hweight ▸ hmore) h
  · obtain ⟨w₀, h⟩ := exists_of_fresh h
    have hgoes : r.budgetSpent start = false := by
      rw [budgetSpent, show r.config.maxSteps = none from hmax]
      rfl
    rw [go, hgoes] at h
    exact exhausted_of_reduce hmax hlaid hsound (hweight ▸ hnumbers) h

/-- A directive and a function. -/
def directiveAndFunction : Program :=
  ⟨none, [.directive "#pragma a",
    .function ⟨.ofName "void", "f", [], some (.node () (.block []))⟩]⟩

/-- The run that needs the function takes three steps at most, and ends because nothing is left. -/
theorem exhausted_needsFunction :
    (∀ p w, Steps ⟨pairwise, ⟨⟨"out"⟩, "shader", "frag"⟩, Judge.mentioning ["f()"], pairwise.seed⟩
      (freshStart pairwise ⟨Shader.ofProgram directiveAndFunction, {}⟩, emptyDirectory) (p, w) →
        p.step ≤ 3) ∧
      ∃ outcome world, needsFunction.run emptyDirectory = (.ok outcome, world) ∧
        outcome.ending = .exhausted := by
  have hstructs : StructsSound (Shader.ofProgram directiveAndFunction).structDecls := by
    rw [Shader.structDecls_ofProgram]
    exact .of_rank (fun _ => 0) (by decide +kernel) (by decide +kernel)
  have hweight : (Shader.ofProgram directiveAndFunction).weight = 3 := by
    decide +kernel
  obtain ⟨hsteps, -, hexhausted⟩ := ends_of_fresh pairwise rfl
    ⟨Shader.ofProgram directiveAndFunction, {}⟩ hstructs ⟨⟨"out"⟩, "shader", "frag"⟩
    (Judge.mentioning ["f()"])
  refine ⟨fun p w h => ?_, ?_⟩
  · have hle := (hsteps _ p w h).1
    dsimp only at hle
    omega
  · have hrun : (needsFunction.run emptyDirectory).1.toOption.isSome = true := by
      decide +kernel
    generalize hresult : needsFunction.run emptyDirectory = result at hrun
    obtain ⟨error | outcome, world⟩ := result
    · cases hrun
    · refine ⟨outcome, world, rfl, hexhausted ?_ emptyDirectory outcome world hresult⟩
      rw [hweight]
      decide

end Reduction

end ShaderReducer
