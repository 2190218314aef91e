import ShaderReducer.Binding.Defaults
import ShaderReducer.Reduction.Ledger
import ShaderReducer.Reduction.Search

/-!
# Runs

A run searches for one step after the other. Each accepted state is made compact, written to the
ledger as the snapshot of its step, and then named by the marker. A run is over when a search finds
nothing, which leaves the final files and no marker, or when it has taken as many steps as it may,
which leaves the marker for a later run to go on from.
-/

namespace ShaderReducer

abbrev WorldM (ε σ α : Type) : Type := ExceptT ε (StateM (World σ)) α

def World.onDisk {ε σ α : Type} (work : DiskM ε α) : WorldM ε σ α := fun world =>
  let (result, disk) := work.run world.disk
  (result, { world with disk := disk })

/-- How a run ended. Steps are counted in 32 bits: after the step with the largest number there is no
number for another one, which is an ending of its own here. -/
inductive RunEnding where
  | exhausted
  | budgetSpent
  | outOfNumbers
  deriving Repr, DecidableEq

/-- What a run came to: the number of its last step, counted from the first run on the ledger, and
the state that was accepted last. -/
structure Outcome where
  ending : RunEnding
  step : Nat
  final : ReductionState

structure Reduction (σ : Type) where
  config : Config
  ledger : Ledger
  judge : Judge σ
  seed : UInt64

/-- How far a run is: the accepted state and its step, the number of steps that this run has taken,
and what it draws from. -/
structure Progress where
  accepted : ReductionState
  step : Nat
  taken : Nat := 0
  source : RandomSource
  names : NameSupply := {}

namespace Reduction

variable {σ : Type}

/-- Whether a run has taken as many steps as it may. -/
def budgetSpent (r : Reduction σ) (p : Progress) : Bool :=
  r.config.maxSteps.any fun most => most ≤ p.taken

def writeMarker (r : Reduction σ) (step : Nat) : DiskM ReductionError Unit :=
  r.ledger.writeMarker ⟨step, r.seed⟩

def search (r : Reduction σ) (p : Progress) : Search σ :=
  ⟨r.config, r.judge, p.accepted, p.step + 1⟩

def opportunities (r : Reduction σ) (p : Progress) : List Opportunity :=
  Opportunity.find p.accepted.shader r.config.everywhere r.config.kinds

def advance (r : Reduction σ) (p : Progress) : WorldM ReductionError σ (Option Progress) := do
  let (finding, effort) :=
    (r.search p).run r.config.chunkSize (r.opportunities p) ⟨p.source, p.names, ← get⟩
  set effort.world
  match finding with
  | .dry => return none
  | .failed error => throw error
  | .accepted candidate =>
    let accepted : ReductionState := ⟨candidate.shader.compact, candidate.bindings⟩
    let step := p.step + 1
    World.onDisk (r.ledger.writeSnapshot step accepted)
    World.onDisk (r.writeMarker step)
    return some ⟨accepted, step, p.taken + 1, effort.source, effort.names⟩

def finish (r : Reduction σ) (p : Progress) : WorldM ReductionError σ Outcome := do
  World.onDisk (r.ledger.writeFinal p.accepted)
  World.onDisk r.ledger.removeMarker
  return ⟨.exhausted, p.step, p.accepted⟩

/-- Takes steps until nothing is found or no step is left, and at most so many. -/
def reduce (r : Reduction σ) : Nat → Progress → WorldM ReductionError σ Outcome
  | 0, p => return ⟨.outOfNumbers, p.step, p.accepted⟩
  | more + 1, p => do
    match ← r.advance p with
    | none => r.finish p
    | some p =>
      if r.budgetSpent p then return ⟨.budgetSpent, p.step, p.accepted⟩
      else reduce r more p

def stepNumbers : Nat := Nat.pow 2 32

def go (r : Reduction σ) (p : Progress) : WorldM ReductionError σ Outcome :=
  if r.budgetSpent p then return ⟨.budgetSpent, p.step, p.accepted⟩
  else r.reduce stepNumbers p

/-- The state that a run starts from: uniforms without values get some, and the shader is made
compact. Gives what follows in the random stream too. -/
def initialState (config : Config) (initial : ReductionState) : ReductionState × RandomSource :=
  let (defaults, source) := (RandomSource.ofSeed config.seed).child
  (⟨initial.shader.compact, (initial.bindings.withDefaults initial.shader defaults).1⟩, source)

def fresh (config : Config) (ledger : Ledger) (judge : Judge σ) (initial : ReductionState) :
    WorldM ReductionError σ Outcome := do
  if config.kinds.isEmpty then throw .noKinds
  let r : Reduction σ := ⟨config, ledger, judge, config.seed⟩
  let (accepted, source) := initialState config initial
  World.onDisk (ledger.writeSnapshot 0 accepted)
  World.onDisk (r.writeMarker 0)
  r.go { accepted := accepted, step := 0, source := source }

/-- Goes on with the reduction that the marker of a ledger names. The random stream is one of its
own for each step that a run may go on from. -/
def resume (config : Config) (ledger : Ledger) (judge : Judge σ) :
    WorldM ReductionError σ Outcome := do
  if config.kinds.isEmpty then throw .noKinds
  let marker ← World.onDisk ledger.readMarker
  let accepted ← World.onDisk (ledger.loadSnapshot marker.step)
  let r : Reduction σ := ⟨config, ledger, judge, marker.seed⟩
  r.go {
    accepted := accepted
    step := marker.step
    source := RandomSource.ofSeed (Seed.derive marker.seed marker.step.toUInt64) }

end Reduction

end ShaderReducer
