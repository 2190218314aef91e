import ShaderReducer.CommandLine.Check
import ShaderReducer.CommandLine.Reader
import ShaderReducer.Judge.Feature
import ShaderReducer.Judge.Image
import ShaderReducer.Judge.Basic
import ShaderReducer.Reduction.Run

/-!
# One call of the program

What the program prints and does on a disk for some arguments, and how it ends.
-/

namespace ShaderReducer

namespace CommandLine

def programName : String := "shade-reduce"

def versionText : String := programName ++ " 0.1.0"

def usageText : String := "Usage: " ++ programName ++ " [OPTIONS] <INPUT> <OUTPUT_DIR>"

inductive Failure where
  | rejected (reason : Rejection)
  | invalid (fault : OptionFault)
  | failed (error : ReductionError)

structure Report where
  output : String
  failure : Option Failure

/-- The status that a call ends with: zero for a result or a text that was asked for, two for
arguments that are not accepted. -/
def Report.status (r : Report) : Nat :=
  match r.failure with
  | none => 0
  | some (.rejected .help) | some (.rejected .version) => 0
  | some (.rejected _) => 2
  | some _ => 1

def rejectionText : Rejection → String
  | .unknownArgument => "unexpected argument found"
  | .missingArgument => "the arguments <INPUT> and <OUTPUT_DIR> are required"
  | .invalidValue => "an argument has no value or one that is not allowed"
  | .unreadableValue => "an argument has a value that is no number in its range"
  | .repeated => "an argument cannot be used multiple times"
  | .unexpectedValue => "a flag was given a value"
  | .help | .version => ""

def errorText (e : ReductionError) : String :=
  e.code ++ ": " ++ e.message ++ (e.help.elim "" fun help => "\nhelp: " ++ help) ++
  match e with
  | .unparsable _ _ error => "\nat " ++ error.message
  | _ => ""

def Report.errors (r : Report) : String :=
  match r.failure with
  | some (.invalid fault) => "error: " ++ fault.message ++ "\n"
  | some (.rejected reason) => if r.status = 0 then "" else rejectionText reason ++ "\n"
  | some (.failed e) => errorText e ++ "\n"
  | none => ""

/-- The stream of the random judge, which is not one that the search draws from. -/
def judgeStream : UInt64 := 0x4A55444745

def scratchName : String := ".judge"

/-- The error for an option that a judge cannot do without. -/
def missing (option : String) : ReductionError := .judge (.other (option ++ " is required"))

def judgeCommand (o : Options) (template : String) : JudgeCommand :=
  ⟨template, o.output.join scratchName, o.outputNames.2, o.timeout⟩

def tolerance (o : Options) : Tolerance :=
  match o.tolerance with
  | .identical => .identical
  | .fuzzy => .fuzzy o.fuzzyThreshold

def imageJudge (o : Options) : DiskM ReductionError (Judge RandomSource) := do
  match o.renderCommand, o.referenceImage with
  | some template, some path =>
    match (Judge.loadImage path).run (← get) with
    | (.ok reference, d) => do
      set d
      return Judge.image (judgeCommand o template) reference (tolerance o)
    | (.error e, d) => do
      set d
      throw (.judge e)
  | none, _ => throw (missing "--render-command")
  | _, none => throw (missing "--reference-image")

def featureJudge (o : Options) : DiskM ReductionError (Judge RandomSource) := do
  let features ← o.contains.mapM fun text =>
    match Pattern.parse? text with
    | some pattern => pure (Feature.contains pattern)
    | none => throw (.judge (.other ("invalid regex '" ++ text ++ "'")))
  return Judge.features features o.anyFeature

def judge (o : Options) : DiskM ReductionError (Judge RandomSource) := do
  match o.judge with
  | .command =>
    match o.command with
    | some template => return Judge.command (judgeCommand o template)
    | none => throw (missing "--command")
  | .render => imageJudge o
  | .features => featureJudge o
  | .random => return Judge.random { accept := o.acceptProbability }

def strategyName : Strategy → String
  | .random => "Random"
  | .shallowest => "Shallowest"

def judgeName : JudgeKind → String
  | .command => "Command"
  | .render => "Render"
  | .features => "Features"
  | .random => "Random"

def lines (ls : List String) : String :=
  String.join (ls.map (· ++ "\n"))

def summary (o : Options) (ledger : Ledger) (config : Config) : String :=
  lines <|
    [programName ++ ": Randomized shader reducer",
     "",
     "  input:       " ++ o.input.text,
     "  output:      " ++ ledger.dir.text,
     "  seed:        " ++ toString config.seed.toNat,
     "  max steps:   " ++ config.maxSteps.elim "unbounded" toString,
     "  strategy:    " ++ strategyName config.strategy,
     "  chunk size:  " ++ toString config.chunkSize,
     "  judge:       " ++ judgeName o.judge] ++
    (o.command.toList.map ("  command:     " ++ ·)) ++
    (o.renderCommand.toList.map ("  render:      " ++ ·)) ++
    (if o.resume then ["  resuming from " ++ ledger.markerPath.text] else []) ++
    [""]

def conclusion (outcome : Outcome) (ledger : Ledger) : String :=
  lines <| match outcome.ending with
    | .exhausted =>
      ["Reduction finished after step " ++ toString outcome.step ++ ".",
       "  result:      " ++ ledger.finalShaderPath.text,
       "  bindings:    " ++ ledger.finalBindingsPath.text]
    | .budgetSpent =>
      ["Step budget spent at step " ++ toString outcome.step ++ ".",
       "  latest:      " ++ (ledger.shaderPath outcome.step).text,
       "  resume with --continue-previous-reduction"]
    | .outOfNumbers => ["No step is left after step " ++ toString outcome.step ++ "."]

def prepare (o : Options) : DiskM ReductionError (Ledger × Judge RandomSource) := do
  let (stem, extension) := o.outputNames
  let ledger ← Ledger.create o.output stem extension
  return (ledger, ← judge o)

def reduction (o : Options) (ledger : Ledger) (judge : Judge RandomSource) :
    WorldM ReductionError RandomSource Outcome := do
  if o.resume then Reduction.resume o.config ledger judge
  else
    let initial ← World.onDisk (ReductionState.load o.input (o.input.withExtension "json"))
    Reduction.fresh o.config ledger judge initial

def perform (o : Options) (disk : Disk) : Report × Disk :=
  match (prepare o).run disk with
  | (.error e, disk) => (⟨"", some (.failed e)⟩, disk)
  | (.ok (ledger, judge), disk) =>
    let before := summary o ledger o.config
    let source := RandomSource.ofSeed (Seed.derive o.seed judgeStream)
    match (reduction o ledger judge).run ⟨source, disk⟩ with
    | (.error e, world) => (⟨before, some (.failed e)⟩, world.disk)
    | (.ok outcome, world) => (⟨before ++ conclusion outcome ledger, none⟩, world.disk)

def call (arguments : List String) (disk : Disk) : Report × Disk :=
  match Options.ofArguments arguments with
  | .error .version => (⟨versionText ++ "\n", some (.rejected .version)⟩, disk)
  | .error .help => (⟨usageText ++ "\n", some (.rejected .help)⟩, disk)
  | .error reason => (⟨"", some (.rejected reason)⟩, disk)
  | .ok o =>
    match o.fault? disk with
    | some fault => (⟨"", some (.invalid fault)⟩, disk)
    | none => perform o disk

end CommandLine

end ShaderReducer
