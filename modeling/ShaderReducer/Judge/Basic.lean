import ShaderReducer.Random.Source
import ShaderReducer.Reduction.State

/-!
# Judges

A judge says of a candidate whether it still shows what the reduction is about, or that it reaches
no verdict. It has a memory of its own, and it may use the disk.
-/

namespace ShaderReducer

structure World (σ : Type) where
  memory : σ
  disk : Disk

abbrev Judge (σ : Type) : Type := ReductionState → ExceptT JudgeError (StateM (World σ)) Bool

namespace Judge

variable {σ τ : Type}

/-- A verdict that changes nothing but the memory. -/
def ofMemory (decide : ReductionState → σ → Except JudgeError Bool × σ) : Judge σ :=
  fun candidate world =>
    let (verdict, memory) := decide candidate world.memory
    (verdict, { world with memory := memory })

/-- A verdict that needs no memory and changes nothing. -/
def ofPredicate (decide : ReductionState → Bool) : Judge σ :=
  ofMemory fun candidate memory => (.ok (decide candidate), memory)

def ofDisk (decide : ReductionState → DiskM JudgeError Bool) : Judge σ :=
  fun candidate world =>
    let (verdict, disk) := (decide candidate).run world.disk
    (verdict, { world with disk := disk })

def always : Judge σ := ofPredicate fun _ => true

/-- Both of two judges accept. The second one is not asked if the first does not accept. -/
def both (first : Judge σ) (second : Judge τ) : Judge (σ × τ) := fun candidate world =>
  let (verdict, w) := first candidate ⟨world.memory.1, world.disk⟩
  match verdict with
  | .ok true =>
    let (verdict, w') := second candidate ⟨world.memory.2, w.disk⟩
    (verdict, ⟨(w.memory, w'.memory), w'.disk⟩)
  | verdict => (verdict, ⟨(w.memory, world.memory.2), w.disk⟩)

structure Call where
  candidate : ReductionState
  verdict : Except JudgeError Bool

/-- A judge that remembers its calls, the last one first. -/
def recorded (judge : Judge σ) : Judge (σ × List Call) := fun candidate world =>
  let (verdict, w) := judge candidate ⟨world.memory.1, world.disk⟩
  (verdict, ⟨(w.memory, ⟨candidate, verdict⟩ :: world.memory.2), w.disk⟩)

/-- A judge that gives some verdicts in order, and starts over after the last. -/
def scripted (verdicts : List (Except JudgeError Bool)) : Judge Nat := ofMemory fun _ calls =>
  (verdicts.getD (calls % verdicts.length) (.ok false), calls + 1)

def mentioning (texts : List String) : Judge σ := ofPredicate fun candidate =>
  let source := candidate.source.toList
  texts.all fun text => Text.occursIn text.toList source

end Judge

end ShaderReducer

/-!
## Judging at random

A judge that tosses a coin, for trying out reductions. It can fail at random too, and it can insist
that a candidate is read back from its text.
-/

namespace ShaderReducer

namespace Judge

structure Coin where
  accept : Float := 0.5
  error : Float := 0.0
  roundTrip : Bool := false

/-- The words of a random judge for a candidate that is not read back. -/
def Coin.complaint : CandidateFault → String
  | .unreadable error => "candidate does not parse: " ++ error.message
  | .differs => "candidate changes when re-parsed"

def Coin.fault? (coin : Coin) (candidate : ReductionState) : Option CandidateFault :=
  if coin.roundTrip then candidate.shader.candidateFault? else none

def random (coin : Coin) : Judge RandomSource := ofMemory fun candidate source =>
  match coin.fault? candidate with
  | some fault => (.error (.other (Coin.complaint fault)), source)
  | none =>
    let (fails, source) := if coin.error > 0.0 then source.chance coin.error else (false, source)
    if fails then (.error (.other "simulated judge failure"), source)
    else
      let (accepts, source) := source.chance coin.accept
      (.ok accepts, source)

end Judge

end ShaderReducer
