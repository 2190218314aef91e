import ShaderReducer.Shell.Process

/-!
# Arguments of utilities

Options may stand between the operands of a utility. An option is a letter or a word, which may be
shortened as long as it is not ambiguous; some take a value, which may be joined to them.
-/

namespace ShaderReducer

namespace Utility

open Shell

inductive Taking where
  | nothing
  | value
  /-- A value only where it is joined to the option. -/
  | joined
  deriving Repr, DecidableEq

structure Options where
  letters : List (Char × Taking)
  words : List (String × Char × Taking) := []
  /-- Whether options may follow operands. -/
  mixed : Bool := true

/-- The letters in a text, where a colon follows those that take a value, and two those that take one
only if it is joined. -/
def lettersOf : List Char → List (Char × Taking)
  | [] => []
  | c :: ':' :: ':' :: rest => (c, .joined) :: lettersOf rest
  | c :: ':' :: rest => (c, .value) :: lettersOf rest
  | c :: rest => (c, .nothing) :: lettersOf rest

def Options.ofLetters (letters : String) (words : List (String × Char × Taking)) : Options :=
  { letters := lettersOf letters.toList, words := words }

structure Given where
  options : List (Char × String) := []
  operands : List String := []
  deriving Repr, DecidableEq

namespace Given

def has (g : Given) (letter : Char) : Bool := g.options.any fun o => o.1 == letter

/-- The value of an option, where it was given last. -/
def value? (g : Given) (letter : Char) : Option String :=
  (g.options.reverse.find? fun o => o.1 == letter).map Prod.snd

def values (g : Given) (letter : Char) : List String :=
  g.options.filterMap fun o => if o.1 == letter then some o.2 else none

def last? (g : Given) (letters : List Char) : Option Char :=
  (g.options.reverse.find? fun o => letters.contains o.1).map Prod.fst

end Given

/-- Reads a group of letters, and the value of the last one from the arguments that follow. -/
def readLetters (o : Options) : List Char → List String →
    Except String (List (Char × String) × List String)
  | [], rest => .ok ([], rest)
  | c :: more, rest =>
    match o.letters.lookup c with
    | none => .error ("invalid option -- '" ++ String.singleton c ++ "'")
    | some .nothing =>
      (readLetters o more rest).map fun (options, rest) => ((c, "") :: options, rest)
    | some .joined => .ok ([(c, String.ofList more)], rest)
    | some .value =>
      if !more.isEmpty then .ok ([(c, String.ofList more)], rest)
      else match rest with
        | value :: rest => .ok ([(c, value)], rest)
        | [] => .error ("option requires an argument -- '" ++ String.singleton c ++ "'")

def readWord (o : Options) (text : List Char) (rest : List String) :
    Except String (List (Char × String) × List String) :=
  let name := text.takeWhile (· != '=')
  let value := if name.length < text.length then some (String.ofList (text.drop (name.length + 1)))
    else none
  let exact := o.words.filter fun w => w.1.toList == name
  let found := if exact.isEmpty then o.words.filter fun w => name.isPrefixOf w.1.toList else exact
  let shown := "'--" ++ String.ofList name ++ "'"
  let same := match found with
    | w :: more => more.all fun v => v.2 == w.2
    | [] => false
  match found with
  | (_, c, taking) :: _ =>
    if !same then .error ("option " ++ shown ++ " is ambiguous")
    else match taking, value, rest with
      | .nothing, some _, _ => .error ("option " ++ shown ++ " doesn't allow an argument")
      | .nothing, none, _ => .ok ([(c, "")], rest)
      | .joined, v, _ => .ok ([(c, v.getD "")], rest)
      | .value, some v, _ => .ok ([(c, v)], rest)
      | .value, none, v :: rest => .ok ([(c, v)], rest)
      | .value, none, [] => .error ("option " ++ shown ++ " requires an argument")
  | [] => .error ("unrecognized option " ++ shown)

/-- Reads arguments. There are no more options than arguments. -/
def readFrom (o : Options) : Nat → List String → Except String Given
  | 0, args => .ok ⟨[], args⟩
  | _, [] => .ok ⟨[], []⟩
  | fuel + 1, a :: rest => do
    match a.toList with
    | ['-', '-'] => return ⟨[], rest⟩
    | '-' :: '-' :: word => do
      let (options, rest) ← readWord o word rest
      let g ← readFrom o fuel rest
      return { g with options := options ++ g.options }
    | '-' :: c :: letters => do
      let (options, rest) ← readLetters o (c :: letters) rest
      let g ← readFrom o fuel rest
      return { g with options := options ++ g.options }
    | _ =>
      if o.mixed then
        let g ← readFrom o fuel rest
        return { g with operands := a :: g.operands }
      else return ⟨[], a :: rest⟩

def withArguments (name : String) (o : Options) (failure : Nat) (args : List String)
    (body : Given → ShellM Nat) : ShellM Nat := do
  match readFrom o (args.length + 1) args with
  | .ok g => body g
  | .error reason =>
    complain (name ++ ": " ++ reason)
    return failure

/-! ## Input -/

def complainAbout (utility file : String) (fault : FileFault) : ShellM Unit :=
  complain (utility ++ ": " ++ file ++ ": " ++ faultText fault)

/-- The octets of an operand, where a hyphen is the input; none if they cannot be read, which is
said. -/
def readOperand (utility file : String) : ShellM (Option (List Char)) := do
  if file == "-" then
    match ← readRest 0 with
    | some text => return some text
    | none =>
      complain (utility ++ ": -: " ++ faultText .isDirectory)
      return none
  match ← readFile file with
  | .ok text => return some text
  | .error fault =>
    complainAbout utility file fault
    return none

/-- Does something with each of some operands, or with the input if there are none; the status is
`failure` if something fails. -/
def forOperands (failure : Nat) (operands : List String) (one : String → ShellM Bool) :
    ShellM Nat := do
  let mut status := 0
  for file in if operands.isEmpty then ["-"] else operands do
    if !(← one file) then status := failure
  return status

def readAll (utility : String) (operands : List String) : ShellM (List Char × Bool) := do
  let mut text : List Char := []
  let mut complete := true
  for file in if operands.isEmpty then ["-"] else operands do
    match ← readOperand utility file with
    | some more => text := text ++ more
    | none => complete := false
  return (text, complete)

/-- The lines of a text, without the newlines that end them; what follows the last one is a line
too if there is something. -/
def linesOf (sep : Char) (text : List Char) : List (List Char) :=
  let pieces := Text.splitOn sep text
  if pieces.getLast? == some [] then pieces.dropLast else pieces

def joinLines (sep : Char) (lines : List (List Char)) : List Char :=
  lines.flatMap fun l => l ++ [sep]

def wholeLines (sep : Char) (text : List Char) : List (List Char) :=
  let pieces := Text.splitOn sep text
  let ended := pieces.dropLast.map (· ++ [sep])
  match pieces.getLast? with
  | some [] | none => ended
  | some last => ended ++ [last]

def padLeft (width : Nat) (cs : List Char) : List Char :=
  List.replicate (width - cs.length) ' ' ++ cs

end Utility

end ShaderReducer
