import ShaderReducer.Judge.Basic
import ShaderReducer.Opportunity.Find
import ShaderReducer.Random.Source
import ShaderReducer.Reduction.Config

/-!
# The search for the next step

The opportunities of a shader are drawn in chunks. The changes of a chunk are made on the accepted
shader, and the candidate that they give is judged. A chunk of one that is not accepted is dropped;
one of several is put back in front, and the chunks become half as large. The search is over when a
candidate is accepted or nothing is left to draw.
-/

namespace ShaderReducer

/-- Takes an element out of a list; the last one goes to its place. -/
def takeOut {α : Type} (index : Nat) (l : List α) : Option (α × List α) :=
  match l[index]?, l.getLast? with
  | some a, some last => some (a, (l.set index last).dropLast)
  | _, _ => none

theorem takeOut_length {α : Type} {index : Nat} {l rest : List α} {a : α}
    (h : takeOut index l = some (a, rest)) : rest.length + 1 = l.length := by
  unfold takeOut at h
  split at h
  · rename_i hi hl
    obtain ⟨-, rfl⟩ := Prod.mk.injEq .. ▸ Option.some.inj h
    have : l ≠ [] := by
      rintro rfl
      simp at hi
    have := List.length_pos_iff.mpr this
    simp only [List.length_dropLast, List.length_set]
    omega
  · simp at h

theorem takeOut_isSome {α : Type} {index : Nat} {l : List α} (h : index < l.length) :
    (takeOut index l).isSome := by
  have hl : l ≠ [] := by
    rintro rfl
    simp at h
  simp [takeOut, List.getElem?_eq_getElem h, List.getLast?_eq_some_getLast hl]

def drawRandom : Nat → List Opportunity → RandomSource →
    List Opportunity × List Opportunity × RandomSource
  | 0, remaining, source => ([], remaining, source)
  | size + 1, remaining, source =>
    let (index, source') := source.below remaining.length
    match takeOut index remaining with
    | none => ([], remaining, source)
    | some (o, rest) =>
      let (drawn, rest, source) := drawRandom size rest source'
      (o :: drawn, rest, source)

/-- Draws opportunities: gives those that were drawn, those that are left, and what follows in the
random stream. -/
def Strategy.draw (s : Strategy) (size : Nat) (remaining : List Opportunity)
    (source : RandomSource) : List Opportunity × List Opportunity × RandomSource :=
  match s with
  | random => drawRandom size remaining source
  | shallowest => (remaining.take size, remaining.drop size, source)

theorem drawRandom_length (size : Nat) (remaining : List Opportunity) (source : RandomSource) :
    (drawRandom size remaining source).1.length + (drawRandom size remaining source).2.1.length =
      remaining.length := by
  induction size generalizing remaining source with
  | zero => simp [drawRandom]
  | succ size ih =>
    unfold drawRandom
    dsimp only
    split
    · simp
    · rename_i o rest h
      have hrest := ih rest (source.below remaining.length).2
      have hout := takeOut_length h
      change (drawRandom size rest (source.below remaining.length).2).1.length + 1 +
        (drawRandom size rest (source.below remaining.length).2).2.1.length = remaining.length
      omega

/-- What is drawn and what is left are as many as there were. -/
theorem Strategy.draw_length (s : Strategy) (size : Nat) (remaining : List Opportunity)
    (source : RandomSource) :
    (s.draw size remaining source).1.length + (s.draw size remaining source).2.1.length =
      remaining.length := by
  cases s with
  | random => exact drawRandom_length size remaining source
  | shallowest => simp [Strategy.draw]; omega

theorem Strategy.draw_ne_nil (s : Strategy) {size : Nat} (hs : 0 < size)
    {remaining : List Opportunity} (h : remaining ≠ []) (source : RandomSource) :
    (s.draw size remaining source).1 ≠ [] := by
  obtain ⟨size, rfl⟩ := Nat.exists_eq_succ_of_ne_zero (Nat.pos_iff_ne_zero.mp hs)
  cases s with
  | random =>
    have hl := List.length_pos_iff.mpr h
    have hi := RandomSource.below_lt hl source
    obtain ⟨⟨o, rest⟩, ho⟩ := Option.isSome_iff_exists.mp (takeOut_isSome hi)
    simp [Strategy.draw, drawRandom, ho]
  | shallowest =>
    cases remaining with
    | nil => exact absurd rfl h
    | cons o rest => simp [Strategy.draw]

theorem Strategy.draw_rest_lt (s : Strategy) {size : Nat} (hs : 0 < size)
    {remaining : List Opportunity} (h : remaining ≠ []) (source : RandomSource) :
    (s.draw size remaining source).2.1.length < remaining.length := by
  have := s.draw_length size remaining source
  have := List.length_pos_iff.mpr (s.draw_ne_nil hs h source)
  omega

/-- What a search uses up and changes: the random stream, the fresh names, and the world of the
judge. -/
structure Effort (σ : Type) where
  source : RandomSource
  names : NameSupply
  world : World σ

inductive Trial where
  | stale
  | rejected
  | accepted (candidate : ReductionState)
  | failed (error : ReductionError)

inductive Finding where
  | dry
  | accepted (candidate : ReductionState)
  | failed (error : ReductionError)

structure Search (σ : Type) where
  config : Config
  judge : Judge σ
  accepted : ReductionState
  step : Nat

namespace Search

variable {σ : Type}

/-- What the judge makes of a candidate, which must be one that is read back from its text. -/
def judged (q : Search σ) (candidate : ReductionState) (world : World σ) : Trial × World σ :=
  match candidate.shader.candidateFault? with
  | some fault => (.failed (.invalidCandidate q.step fault), world)
  | none =>
    let (verdict, world) := (q.judge candidate).run world
    match verdict with
    | .ok true => (.accepted candidate, world)
    | .ok false => (.rejected, world)
    | .error e =>
      match q.config.onJudgeError with
      | .reject => (.rejected, world)
      | .fatal => (.failed (.judge e), world)

/-- Tries the changes of a chunk together. A chunk without a change that still makes sense is
stale. -/
def tryChunk (q : Search σ) (chunk : List Opportunity) (effort : Effort σ) : Trial × Effort σ :=
  let (applied, shader, names) := Opportunity.tryAll chunk q.accepted.shader effort.names
  if applied.any id then
    let (trial, world) := q.judged ⟨shader, q.accepted.bindings⟩ effort.world
    (trial, { effort with names := names, world := world })
  else (.stale, { effort with names := names })

def run (q : Search σ) (size : Nat) (remaining : List Opportunity) (effort : Effort σ) :
    Finding × Effort σ :=
  if _h : remaining = [] then (.dry, effort)
  else
    match _hd : q.config.strategy.draw (max size 1) remaining effort.source with
    | (chunk, rest, source) =>
      match q.tryChunk chunk { effort with source := source } with
      | (.accepted candidate, effort') => (.accepted candidate, effort')
      | (.failed error, effort') => (.failed error, effort')
      | (.stale, effort') => run q size rest effort'
      | (.rejected, effort') =>
        if 1 < size then run q (size / 2) (chunk ++ rest) effort' else run q size rest effort'
termination_by size + remaining.length
decreasing_by
  all_goals
    have hl := q.config.strategy.draw_length (max size 1) remaining effort.source
    have hr := q.config.strategy.draw_rest_lt (by omega : 0 < max size 1) _h effort.source
    rw [_hd] at hl hr
    simp only at hl hr
    try simp only [List.length_append]
    omega

end Search

end ShaderReducer
