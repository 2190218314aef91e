import ShaderReducer.CommandLine.Options

/-!
# Reading the command line

The arguments are read one after the other. An argument that was begun is open until the next one
begins or the arguments end: only then is it known how many values it has, and are they read. What
cannot be the beginning of an argument is rejected before what is open is read.
-/

namespace ShaderReducer

namespace CommandLine

/-- How far the arguments are read: what they ask for so far, which of them were given, the one that
is open with its values, whether an open option waits for a value, and whether all that follows is
given by its place. -/
structure Reading where
  options : Options := {}
  given : List Argument := []
  opened : Option (Argument × List String) := none
  waiting : Option Argument := none
  places : List Argument := [.input, .output]
  onlyPlaces : Bool := false

/-- Notes that an argument was given. Most arguments may be given only once. -/
def note (r : Reading) (a : Argument) : Except Rejection Reading :=
  if r.given.contains a && !a.isRepeatable then .error .repeated
  else .ok { r with given := a :: r.given }

/-- Reads the value of an argument, of which there must be one. -/
def settle (r : Reading) (a : Argument) (values : List String) : Except Rejection Reading :=
  match values with
  | [text] => do
    let r ← note r a
    return { r with options := ← r.options.put text a }
  | _ => .error .invalidValue

def close (r : Reading) : Except Rejection Reading :=
  match r.opened with
  | some (a, values) => settle { r with opened := none, waiting := none } a values
  | none => .ok { r with waiting := none }

def flag (r : Reading) (a : Argument) : Except Rejection Reading := do
  let r ← close r
  match a with
  | .help => .error .help
  | .version => .error .version
  | a => do
    let r ← note r a
    return { r with options := ← r.options.raise a }

def long (r : Reading) (name : String) (value : Option String) : Except Rejection Reading :=
  match Argument.names.lookup name with
  | none => .error .unknownArgument
  | some a =>
    if a.takesValue then do
      let r ← close r
      match value with
      | some text => settle r a [text]
      | none => return { r with opened := some (a, []), waiting := some a }
    else if value.isSome then .error .unexpectedValue
    else flag r a

def short (r : Reading) : List Char → Except Rejection Reading
  | [] => .ok r
  | c :: rest =>
    match Argument.letters.lookup c with
    | some a => do short (← flag r a) rest
    | none => .error .unknownArgument

def placed (r : Reading) (text : String) : Except Rejection Reading :=
  match r.places with
  | a :: rest => do
    let r ← close r
    return { r with opened := some (a, [text]), places := rest }
  | [] => .error .unknownArgument

/-- Reads a value of the option that waits for one, or else an argument that is given by its
place. -/
def value (r : Reading) (text : String) : Except Rejection Reading :=
  match r.waiting with
  | some a => .ok { r with opened := some (a, [text]), waiting := none }
  | none => placed r text

def marksExponent (c : Char) : Bool := c == 'e' || c == 'E'

/-- Whether a text goes on as a number does: with digits, with a point if there was neither a point
nor an exponent, and with the mark of an exponent if there was none and something follows. -/
def continuesNumber (point exponent : Bool) : List Char → Bool
  | [] => true
  | c :: rest =>
    if c.isDigit then continuesNumber point exponent rest
    else if c == '.' then !point && !exponent && continuesNumber true exponent rest
    else marksExponent c && !exponent && !rest.isEmpty && continuesNumber point true rest

def isNumber : List Char → Bool
  | [] => false
  | c :: rest => c.isDigit && continuesNumber false false rest

def splitValue (cs : List Char) : String × Option String :=
  let name := cs.takeWhile (· != '=')
  (String.ofList name,
    if name.length < cs.length then some (String.ofList (cs.drop (name.length + 1))) else none)

/-- Reads one argument. Only the largest number of steps may be negative. -/
def next (r : Reading) (text : String) : Except Rejection Reading :=
  if r.onlyPlaces then placed r text
  else
    match text.toList with
    | ['-', '-'] => .ok { r with onlyPlaces := true }
    | '-' :: '-' :: cs =>
      let (name, joined) := splitValue cs
      long r name joined
    | '-' :: c :: cs =>
      if r.waiting = some .maxSteps && isNumber (c :: cs) then value r text
      else short r (c :: cs)
    | _ => value r text

end CommandLine

namespace Options

def ofArguments (arguments : List String) : Except Rejection Options := do
  let r ← CommandLine.close (← arguments.foldlM CommandLine.next {})
  if r.given.contains .input && r.given.contains .output then return r.options
  else .error .missingArgument

end Options

end ShaderReducer
