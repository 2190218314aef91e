import ShaderReducer.Reduction.State

/-!
# The ledger

The files that a reduction leaves in a directory. Each accepted step has a snapshot, which is a file
for the shader and one for the bindings, and is never written again. While a run can be resumed, a
marker names its last step and its seed; the marker is replaced by renaming, so that it is never
half written. A run that found nothing more to reduce leaves the final files and no marker.
-/

namespace ShaderReducer

/-- Where an unfinished run stands: its last step, and the seed that it was started with. -/
structure Marker where
  step : Nat
  seed : UInt64
  deriving Repr, DecidableEq

namespace Marker

def text (m : Marker) : String :=
  "\x7b\"step\":" ++ toString m.step ++ ",\"seed\":" ++ toString m.seed.toNat ++ "\x7d"

/-- The natural number below a bound that a value is. -/
def readNat? (bound : Nat) : Json.Value → Option Nat
  | .number n => n.toNat? bound
  | _ => none

def ofValues? (step seed : Json.Value) : Option Marker := do
  return ⟨← readNat? (Nat.pow 2 32) step, (← readNat? (Nat.pow 2 64) seed).toUInt64⟩

/-- The marker that a text stands for: an object with a step and a seed, or a list of the two. Other
fields of an object do not count. -/
def parse? (text : String) : Option Marker := do
  match ← Json.parse? text with
  | .object fields =>
    if fields.any fun field => field.1.isNone then none
    ofValues? (← ← Binding.onlyField? "step" fields) (← ← Binding.onlyField? "seed" fields)
  | .array [step, seed] => ofValues? step seed
  | _ => none

end Marker

structure Ledger where
  dir : Path
  stem : String
  extension : String
  deriving Repr, DecidableEq

namespace Ledger

def markerName : String := "REDUCTION_INCOMPLETE"

def named (l : Ledger) (tag extension : String) : Path :=
  l.dir.join (l.stem ++ "_" ++ tag ++ "." ++ extension)

def shaderPath (l : Ledger) (step : Nat) : Path := l.named (toString step) l.extension

def bindingsPath (l : Ledger) (step : Nat) : Path := l.named (toString step) "json"

def finalShaderPath (l : Ledger) : Path := l.named "final" l.extension

def finalBindingsPath (l : Ledger) : Path := l.named "final" "json"

def markerPath (l : Ledger) : Path := l.dir.join markerName

/-- The path that a marker has until it is complete. -/
def draftMarkerPath (l : Ledger) : Path := l.dir.join ("." ++ markerName ++ ".tmp")

/-- Opens a ledger; makes its directory if it is not there. -/
def create (dir : Path) (stem extension : String) : DiskM ReductionError Ledger := do
  match (Disk.makeDirectories dir).run (← get) with
  | (.ok (), d) => set d
  | (.error _, d) => do
    set d
    throw (.inaccessible dir)
  return ⟨dir, stem, extension⟩

def writeText (p : Path) (text : String) : DiskM ReductionError Unit :=
  Disk.perform (·.write p (Utf8.encode text)) fun _ => .inaccessible p

def writeState (shader bindings : Path) (state : ReductionState) : DiskM ReductionError Unit := do
  writeText shader state.source
  writeText bindings state.bindings.text

def writeSnapshot (l : Ledger) (step : Nat) (state : ReductionState) : DiskM ReductionError Unit :=
  writeState (l.shaderPath step) (l.bindingsPath step) state

def writeFinal (l : Ledger) (state : ReductionState) : DiskM ReductionError Unit :=
  writeState l.finalShaderPath l.finalBindingsPath state

def loadSnapshot (l : Ledger) (step : Nat) : DiskM ReductionError ReductionState :=
  ReductionState.load (l.shaderPath step) (l.bindingsPath step)

def writeMarker (l : Ledger) (marker : Marker) : DiskM ReductionError Unit := do
  writeText l.draftMarkerPath marker.text
  Disk.perform (·.rename l.draftMarkerPath l.markerPath) fun _ => .inaccessible l.markerPath

def readMarker (l : Ledger) : DiskM ReductionError Marker := do
  match (← get).read l.markerPath with
  | .error .notFound => throw (.noMarker l.markerPath)
  | _ =>
    match Marker.parse? (← ReductionState.readText l.markerPath) with
    | some marker => return marker
    | none => throw (.corruptMarker l.markerPath)

def removeMarker (l : Ledger) : DiskM ReductionError Unit := do
  match (← get).remove l.markerPath with
  | .ok d => set d
  | .error .notFound => return
  | .error _ => throw (.inaccessible l.markerPath)

end Ledger

end ShaderReducer
