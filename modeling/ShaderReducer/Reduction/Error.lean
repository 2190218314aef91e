import ShaderReducer.Files.Path
import ShaderReducer.Image.Pixmap
import ShaderReducer.Decimal.Shortest
import ShaderReducer.Parser.Basic

/-!
# What can go wrong in a reduction

The reasons why a judge reaches no verdict, and those that end a run, each with its words.
-/

namespace ShaderReducer

inductive RenderFault where
  | timedOut (seconds : Float)
  | killed (signal : Nat)

def RenderFault.message : RenderFault → String
  | timedOut seconds => "timed out after " ++ Decimal.oneDecimal seconds ++ "s"
  | killed signal => "killed by signal " ++ toString signal

inductive JudgeError where
  | inaccessible (path : Path)
  | notSpawned (command : String)
  | notRendered (fault : RenderFault)
  | invalidImage (path : Path) (fault : Pixmap.Fault)
  | other (reason : String)

def JudgeError.message : JudgeError → String
  | inaccessible path => "failed to access '" ++ path.text ++ "'"
  | notSpawned command => "failed to spawn \x60" ++ command ++ "\x60"
  | notRendered fault => "render command failed: " ++ fault.message
  | invalidImage path fault => "invalid image '" ++ path.text ++ "': " ++ fault.message
  | other reason => reason

inductive CandidateFault where
  | unreadable (error : ParseError)
  | differs
  deriving Repr, DecidableEq

/-- The words for a candidate that is not read back. -/
def CandidateFault.message : CandidateFault → String
  | unreadable error => error.message
  | differs => "re-parsed program differs from the candidate"

inductive ReductionError where
  | inaccessible (path : Path)
  | unparsable (path : Path) (source : String) (error : ParseError)
  | invalidCandidate (step : Nat) (fault : CandidateFault)
  | noMarker (path : Path)
  | judge (error : JudgeError)
  | noKinds
  | invalidBindings (path : Path)
  | corruptMarker (path : Path)

namespace ReductionError

def code : ReductionError → String
  | inaccessible _ => "R0001"
  | unparsable _ _ _ => "R0002"
  | invalidCandidate _ _ => "R0003"
  | noMarker _ => "R0004"
  | judge _ => "R0005"
  | noKinds => "R0006"
  | invalidBindings _ => "R0007"
  | corruptMarker _ => "R0008"

def message : ReductionError → String
  | inaccessible path => "failed to access '" ++ path.text ++ "'"
  | unparsable path _ error =>
    "failed to parse '" ++ path.text ++ "': " ++ error.fault.describe.message
  | invalidCandidate step fault =>
    "candidate for step " ++ toString step ++ " does not survive printing and re-parsing: " ++
      fault.message
  | noMarker path => "no reduction in progress: '" ++ path.text ++ "' not found"
  | judge error => "judge failed: " ++ error.message
  | noKinds => "every opportunity kind is disabled"
  | invalidBindings path => "invalid JSON in '" ++ path.text ++ "'"
  | corruptMarker path => "corrupt reduction marker '" ++ path.text ++ "'"

def help : ReductionError → Option String
  | invalidCandidate _ _ =>
    some "an opportunity produced an ill-formed program; rerun with --disable to isolate it"
  | noMarker _ =>
    some "--continue-previous-reduction needs the marker left by a run that hit --max-steps"
  | corruptMarker _ => some "delete the marker and start a fresh reduction"
  | _ => none

end ReductionError

end ShaderReducer
