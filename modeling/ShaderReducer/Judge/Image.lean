import ShaderReducer.Judge.Command

/-!
# Judging by an image

A judge that has the candidate rendered by a command, and compares the picture with a reference. A
candidate that is not rendered is not accepted; a command that is killed, takes too long or leaves
no picture has no verdict.
-/

namespace ShaderReducer

namespace Judge

def imagePath (c : JudgeCommand) : Path := c.scratch.join "candidate.ppm"

/-- The placeholders of a command that renders a candidate, and the paths that they stand for. -/
def imagePaths (c : JudgeCommand) : List (String × Path) :=
  c.paths ++ [("\x7bimage\x7d", imagePath c)]

def removeImage (c : JudgeCommand) : DiskM JudgeError Unit := do
  match (← get).remove (imagePath c) with
  | .ok d => set d
  | .error .notFound => return
  | .error _ => throw (.inaccessible (imagePath c))

def loadImage (p : Path) : DiskM JudgeError Image := do
  let bytes ← Disk.query (·.read p) fun _ => .inaccessible p
  match Pixmap.parse bytes with
  | .ok image => return image
  | .error fault => throw (.invalidImage p fault)

def image {σ : Type} (c : JudgeCommand) (reference : Image) (tolerance : Tolerance) : Judge σ :=
  ofDisk fun candidate => do
    c.writeCandidate candidate
    removeImage c
    match ← c.run (JudgeCommand.expand c.template (imagePaths c)) with
    | .timedOut seconds => throw (.notRendered (.timedOut seconds))
    | .killed signal => throw (.notRendered (.killed signal))
    | .exited status =>
      if status ≠ 0 then return false
      return tolerance.accepts (← loadImage (imagePath c)) reference

end Judge

end ShaderReducer
