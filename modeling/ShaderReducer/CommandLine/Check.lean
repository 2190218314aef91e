import ShaderReducer.CommandLine.Options
import ShaderReducer.Files.Disk
import ShaderReducer.Pattern.Reader
import ShaderReducer.Decimal.Shortest

/-!
# Checking options

What must hold of options beyond the form of each of them. The first thing that does not hold is
reported.
-/

namespace ShaderReducer

inductive OptionFault where
  | allKindsDisabled
  | noCommand
  | noRendering
  | noPattern
  | invalidPattern (text : String)
  | timeoutNotPositive (seconds : Float)
  | thresholdOutOfRange (value : Float)
  | probabilityOutOfRange (value : Float)
  | noInput (path : Path)

def OptionFault.message : OptionFault → String
  | allKindsDisabled => "every opportunity kind is disabled"
  | noCommand => "--judge command requires --command <CMD>"
  | noRendering =>
    "--judge render requires --render-command <CMD> and --reference-image <PATH>"
  | noPattern => "--judge features requires at least one --contains <REGEX>"
  | invalidPattern text => "invalid --contains regex '" ++ text ++ "'"
  | timeoutNotPositive seconds => "--timeout must be positive, got " ++ Decimal.plainText seconds
  | thresholdOutOfRange value =>
    "--fuzzy-threshold must be between 0 and 1, got " ++ Decimal.plainText value
  | probabilityOutOfRange value =>
    "--accept-probability must be between 0 and 1, got " ++ Decimal.plainText value
  | noInput path => "input file does not exist: " ++ path.text

namespace Options

def isFraction (x : Float) : Bool := 0.0 ≤ x && x ≤ 1.0

def judgeFault? (o : Options) : Option OptionFault :=
  match o.judge with
  | .command => if o.command.isNone then some .noCommand else none
  | .render =>
    if o.renderCommand.isNone || o.referenceImage.isNone then some .noRendering else none
  | .features => if o.contains.isEmpty then some .noPattern else none
  | .random => none

def patternFault? (o : Options) : Option OptionFault :=
  (o.contains.find? fun text => (Pattern.parse? text).isNone).map .invalidPattern

def timeoutFault? (o : Options) : Option OptionFault :=
  match o.timeout with
  | some seconds => if seconds ≤ 0.0 then some (.timeoutNotPositive seconds) else none
  | none => none

def fractionFault? (o : Options) : Option OptionFault :=
  if !isFraction o.fuzzyThreshold then some (.thresholdOutOfRange o.fuzzyThreshold)
  else if !isFraction o.acceptProbability then some (.probabilityOutOfRange o.acceptProbability)
  else none

/-- The first thing that is wrong with options on a disk. -/
def fault? (o : Options) (disk : Disk) : Option OptionFault :=
  if OpportunityKind.all.all o.disabled.contains then some .allKindsDisabled
  else o.judgeFault? <|> o.patternFault? <|> o.timeoutFault? <|> o.fractionFault? <|>
    if !o.resume && !disk.isFile o.input then some (.noInput o.input) else none

end Options

end ShaderReducer
