import ShaderReducer.Decimal.Reader
import ShaderReducer.Files.Path
import ShaderReducer.Image.Pixmap
import ShaderReducer.Opportunity.Basic
import ShaderReducer.Reduction.Config

/-!
# Options

What a reduction can be asked for on the command line, and what the text of each option stands for.
-/

namespace ShaderReducer

inductive JudgeKind where
  | command
  | render
  | features
  | random
  deriving Repr, DecidableEq

inductive ToleranceKind where
  | identical
  | fuzzy
  deriving Repr, DecidableEq

structure Options where
  input : Path := ⟨""⟩
  output : Path := ⟨""⟩
  everywhere : Bool := false
  seed : UInt64 := 0
  maxSteps : Option Int := none
  resume : Bool := false
  strategy : Strategy := .random
  chunkSize : Nat := 1
  disabled : List OpportunityKind := []
  judge : JudgeKind := .command
  command : Option String := none
  timeout : Option Float := none
  renderCommand : Option String := none
  referenceImage : Option Path := none
  tolerance : ToleranceKind := .identical
  fuzzyThreshold : Float := 0.01
  contains : List String := []
  anyFeature : Bool := false
  acceptProbability : Float := 0.5
  onJudgeError : JudgeErrorPolicy := .reject
  verbose : Bool := false

/-- Why arguments are not accepted, or what is asked for instead of a reduction. -/
inductive Rejection where
  | unknownArgument
  | missingArgument
  | invalidValue
  | unreadableValue
  | repeated
  | unexpectedValue
  | help
  | version
  deriving Repr, DecidableEq

inductive Argument where
  | input
  | output
  | everywhere
  | seed
  | maxSteps
  | resume
  | strategy
  | chunkSize
  | disable
  | judge
  | command
  | timeout
  | renderCommand
  | referenceImage
  | tolerance
  | fuzzyThreshold
  | contains
  | anyFeature
  | acceptProbability
  | onJudgeError
  | verbose
  | help
  | version
  deriving Repr, DecidableEq

namespace Argument

def names : List (String × Argument) :=
  [("reduce-everywhere", everywhere), ("seed", seed), ("max-steps", maxSteps),
   ("continue-previous-reduction", resume), ("strategy", strategy), ("chunk-size", chunkSize),
   ("disable", disable), ("judge", judge), ("command", command), ("timeout", timeout),
   ("render-command", renderCommand), ("reference-image", referenceImage),
   ("tolerance", tolerance), ("fuzzy-threshold", fuzzyThreshold), ("contains", contains),
   ("any", anyFeature), ("accept-probability", acceptProbability),
   ("on-judge-error", onJudgeError), ("verbose", verbose), ("help", help), ("version", version)]

def letters : List (Char × Argument) :=
  [('h', help), ('V', version)]

def takesValue : Argument → Bool
  | everywhere | resume | anyFeature | verbose | help | version => false
  | _ => true

def isRepeatable : Argument → Bool
  | disable | contains => true
  | _ => false

end Argument

namespace Options

def named {α : Type} (values : List (String × α)) (text : String) : Except Rejection α :=
  match values.lookup text with
  | some value => .ok value
  | none => .error .invalidValue

def integer (least most : Int) (text : String) : Except Rejection Int :=
  let (negative, digits) := match text.toList with
    | '-' :: rest => (true, rest)
    | '+' :: rest => (false, rest)
    | cs => (false, cs)
  match Text.digits? 10 digits with
  | some n =>
    let value : Int := if negative then -(n : Int) else n
    if least ≤ value ∧ value ≤ most then .ok value else .error .unreadableValue
  | none => .error .unreadableValue

/-- The natural number of at most 64 bits that a text stands for. -/
def natural (text : String) : Except Rejection Nat :=
  match Text.natural? 10 64 text.toList with
  | some n => .ok n
  | none => .error .unreadableValue

def float (text : String) : Except Rejection Float :=
  match Decimal.ofText? text.toList with
  | some x => .ok x
  | none => .error .unreadableValue

/-- The path that a text stands for. It must not be empty. -/
def path (text : String) : Except Rejection Path :=
  if text.isEmpty then .error .invalidValue else .ok ⟨text⟩

def raise (o : Options) : Argument → Except Rejection Options
  | .everywhere => .ok { o with everywhere := true }
  | .resume => .ok { o with resume := true }
  | .anyFeature => .ok { o with anyFeature := true }
  | .verbose => .ok { o with verbose := true }
  | .help => .error .help
  | .version => .error .version
  | _ => .error .invalidValue

def leastSteps : Int := -9223372036854775808

def mostSteps : Int := 9223372036854775807

def put (o : Options) (text : String) : Argument → Except Rejection Options
  | .input => return { o with input := ← path text }
  | .output => return { o with output := ← path text }
  | .seed => return { o with seed := (← natural text).toUInt64 }
  | .maxSteps => return { o with maxSteps := ← integer leastSteps mostSteps text }
  | .strategy => return { o with
      strategy := ← named [("random", .random), ("shallowest", .shallowest)] text }
  | .chunkSize => return { o with chunkSize := ← natural text }
  | .disable =>
    match OpportunityKind.ofName? text with
    | some kind => .ok { o with disabled := o.disabled ++ [kind] }
    | none => .error .invalidValue
  | .judge => return { o with
      judge := ← named [("command", .command), ("render", .render), ("features", .features),
        ("random", .random)] text }
  | .command => .ok { o with command := text }
  | .timeout => return { o with timeout := ← float text }
  | .renderCommand => .ok { o with renderCommand := text }
  | .referenceImage => return { o with referenceImage := ← path text }
  | .tolerance => return { o with
      tolerance := ← named [("identical", .identical), ("fuzzy", .fuzzy)] text }
  | .fuzzyThreshold => return { o with fuzzyThreshold := ← float text }
  | .contains => .ok { o with contains := o.contains ++ [text] }
  | .acceptProbability => return { o with acceptProbability := ← float text }
  | .onJudgeError => return { o with
      onJudgeError := ← named [("reject", .reject), ("fatal", .fatal)] text }
  | _ => .error .unexpectedValue

def stepBudget (o : Options) : Option Nat :=
  match o.maxSteps with
  | some n => if 0 ≤ n then some (min n.toNat (Nat.pow 2 32 - 1)) else none
  | none => none

/-- How the names of a run's files begin and end. They come from the name of the input. -/
def outputNames (o : Options) : String × String :=
  (o.input.stem?.getD "shader" ++ "_reduced", o.input.extension?.getD "frag")

def config (o : Options) : Config :=
  Config.without
    { everywhere := o.everywhere
      seed := o.seed
      maxSteps := o.stepBudget
      strategy := o.strategy
      chunkSize := max o.chunkSize 1
      onJudgeError := o.onJudgeError }
    o.disabled

end Options

end ShaderReducer
