import ShaderReducer.Shell.Condition
import ShaderReducer.Shell.Expand
import ShaderReducer.Shell.Reader

/-!
# Commands of the shell

The commands that a shell carries out by itself, because they change the shell. Some of them are
special: a script ends where one of them fails, and variables that are set for it stay set.
-/

namespace ShaderReducer

namespace Shell

/-! ## Arguments -/

/-- Reads options of one letter in front of operands. A letter with a colon takes a value. -/
def readOptions (name : String) (letters : List Char) :
    Nat → List String → ShellM (List (Char × String) × List String)
  | 0, args => return ([], args)
  | _, [] => return ([], [])
  | fuel + 1, a :: rest => do
    match a.toList with
    | ['-', '-'] => return ([], rest)
    | '-' :: c :: more =>
      let place := letters.dropWhile (· != c)
      if place.isEmpty || c == ':' then
        fail (name ++ ": Illegal option -" ++ String.singleton c)
      else if (place.drop 1).head? == some ':' then
        match more, rest with
        | [], value :: rest =>
          let (options, operands) ← readOptions name letters fuel rest
          return ((c, value) :: options, operands)
        | [], [] => fail (name ++ ": No arg for -" ++ String.singleton c ++ " option")
        | more, rest =>
          let (options, operands) ← readOptions name letters fuel rest
          return ((c, String.ofList more) :: options, operands)
      else if more.isEmpty then
        let (options, operands) ← readOptions name letters fuel rest
        return ((c, "") :: options, operands)
      else
        let again := String.ofList ('-' :: more)
        let (options, operands) ← readOptions name letters fuel (again :: rest)
        return ((c, "") :: options, operands)
    | _ => return ([], a :: rest)

def withOptions (name letters : String) (args : List String)
    (body : List (Char × String) → List String → ShellM Nat) : ShellM Nat := do
  let size := args.length + (args.map String.length).foldl (· + ·) 0 + 1
  let (options, operands) ← readOptions name letters.toList size args
  body options operands

/-- The number that an operand is, which has only digits. -/
def numberOf (name text : String) : ShellM Nat := do
  match Text.digits? 10 text.toList with
  | some n => return n
  | none => fail (name ++ ": Illegal number: " ++ text)

/-- A text in quotes. Single quotes in it stand between double ones. -/
def quoteText (text : String) : String :=
  let rec go : Nat → List Char → List Char
    | 0, _ => []
    | _, [] => []
    | fuel + 1, cs =>
      let plain := cs.takeWhile (· != '\'')
      let rest := cs.drop plain.length
      let signs := rest.takeWhile (· == '\'')
      let after := rest.drop signs.length
      '\'' :: plain ++ ['\''] ++ (if signs.isEmpty then [] else '"' :: signs ++ ['"']) ++
        go fuel after
  if text.isEmpty then "''" else String.ofList (go (text.length + 1) text.toList)

def sortTexts (texts : List String) : List String := texts.mergeSort fun a b => a ≤ b

/-! ## Directories -/

def workingPath (s : Session) : String :=
  "/" ++ "/".intercalate (s.disk.workingDirectory.map Octets.encode)

def changeDirectory (args : List String) : ShellM Nat :=
  withOptions "cd" "LP" args fun _ operands => do
    let s ← get
    let p := s.process
    let (target, shown) := match operands.head? with
      | none => ((p.value? "HOME").getD "", false)
      | some "-" => ((p.value? "OLDPWD").getD "", true)
      | some path => (path, false)
    let path := if target.isEmpty then "." else target
    match s.disk.locate (pathOf path) with
    | .ok location =>
      if s.disk.tree.get? location = some .directory then
        let old := workingPath s
        set { s with disk := { s.disk with workingDirectory := location } }
        assign "OLDPWD" old
        assign "PWD" (workingPath (← get))
        if shown then emit (workingPath (← get) ++ "\n")
        return 0
      else fail ("cd: can't cd to " ++ target)
    | .error _ => fail ("cd: can't cd to " ++ target)

def printDirectory (args : List String) : ShellM Nat :=
  withOptions "pwd" "LP" args fun _ _ => do
    emit (workingPath (← get) ++ "\n")
    return 0

/-! ## Variables -/

def checkName (command name : String) : ShellM Unit := do
  if !isName name.toList then fail (command ++ ": " ++ name ++ ": bad variable name")

def assignFor (command name value : String) : ShellM Unit := do
  checkName command name
  match (← getProcess).variableNamed? name with
  | some ⟨_, _, true⟩ => fail (command ++ ": " ++ name ++ ": is read only")
  | _ => assign name value

def splitOperand (text : String) : String × Option String :=
  let name := text.toList.takeWhile (· != '=')
  (String.ofList name, if name.length < text.length then
    some (String.ofList (text.toList.drop (name.length + 1))) else none)

/-- Changes what is known of a variable, which need not have a value. -/
def modifyVariable (name : String) (f : Variable → Variable) : ShellM Unit :=
  modifyProcess fun p => p.withVariable name (f ((p.variableNamed? name).getD ⟨none, false, false⟩))

def showVariables (start : String) (wanted : Variable → Bool) : ShellM Unit := do
  let p ← getProcess
  let lines := (p.vars.filter fun v => wanted v.2).map fun (name, v) =>
    start ++ name ++ match v.value with
      | some value => "=" ++ quoteText value ++ "\n"
      | none => "\n"
  emit (String.join (sortTexts lines))

def mark (command : String) (isMarked : Variable → Bool) (f : Variable → Variable)
    (args : List String) : ShellM Nat :=
  withOptions command "p" args fun _ operands => do
    if operands.isEmpty then showVariables (command ++ " ") isMarked
    for operand in operands do
      let (name, value) := splitOperand operand
      checkName command name
      match value with
      | some value => assignFor command name value
      | none => pure ()
      modifyVariable name f
    return 0

def unset (args : List String) : ShellM Nat :=
  withOptions "unset" "fv" args fun options operands => do
    let isFunction := options.any fun o => o.1 == 'f'
    for name in operands do
      if isFunction then
        modifyProcess fun p => { p with functions := p.functions.filter fun f => f.1 != name }
      else
        checkName "unset" name
        match (← getProcess).variableNamed? name with
        | some ⟨_, _, true⟩ => fail ("unset: " ++ name ++ ": is read only")
        | _ => modifyProcess fun p => p.withoutVariable name
    return 0

/-- Makes variables the function's own. They keep their values until they get new ones. -/
def makeLocal (args : List String) : ShellM Nat := do
  if (← getProcess).functionDepth = 0 then fail "local: not in a function"
  for operand in args do
    if operand != "-" then
      let (name, value) := splitOperand operand
      checkName "local" name
      modifyProcess fun p => { p with saved := match p.saved with
        | own :: outer => ((name, p.variableNamed? name) :: own) :: outer
        | [] => [] }
      match value with
      | some value => assignFor "local" name value
      | none => pure ()
  return 0

/-! ## Options and parameters -/

def shellOptions : List (String × Option Char) :=
  [("errexit", some 'e'), ("noglob", some 'f'), ("ignoreeof", some 'I'), ("interactive", some 'i'),
   ("monitor", some 'm'), ("noexec", some 'n'), ("stdin", some 's'), ("xtrace", some 'x'),
   ("verbose", some 'v'), ("vi", some 'V'), ("emacs", some 'E'), ("noclobber", some 'C'),
   ("allexport", some 'a'), ("notify", some 'b'), ("nounset", some 'u'), ("privileged", some 'p'),
   ("nolog", none), ("debug", none)]

/-- The options that only a shell with further forms has. -/
def extendedOptions : List (String × Option Char) :=
  [("pipefail", some 'o'), ("posix", some 'P'), ("errtrace", none), ("functrace", none),
   ("braceexpand", none), ("hashall", some 'h'), ("histexpand", some 'H'), ("physical", none)]

def Process.knownOptions (p : Process) : List (String × Option Char) :=
  if p.dialect == .extended then shellOptions ++ extendedOptions else shellOptions

/-- Turns an option on or off. The letters of those that are on stay in the reverse of the order
in which options are shown. -/
def Process.withOption (p : Process) (isOn : Bool) (c : Char) : Process :=
  let letters := ((shellOptions ++ extendedOptions).filterMap Prod.snd).reverse
  { p with options := letters.filter fun d => if d == c then isOn else p.options.contains d }

/-- Turns options on or off as an argument says, with the name of one from the arguments that
follow. -/
def setOptions (command : String) (isOn : Bool) : List Char → List String → ShellM (List String)
  | [], rest => return rest
  | 'o' :: more, rest => do
    let known := (← getProcess).knownOptions
    match rest with
    | [] => do
      if isOn then
        emit "Current option settings\n"
        for (name, letter) in known do
          let state := letter.any (← getProcess).has
          let gap := String.ofList (List.replicate (16 - name.length) ' ')
          emit (name ++ gap ++ (if state then "on" else "off") ++ "\n")
      else
        for (name, letter) in known do
          let state := letter.any (← getProcess).has
          emit ("set " ++ (if state then "-o " else "+o ") ++ name ++ "\n")
      setOptions command isOn more rest
    | name :: rest =>
      match known.lookup name with
      | some letter => do
        match letter with
        | some c => modifyProcess fun p => p.withOption isOn c
        | none => pure ()
        setOptions command isOn more rest
      | none => fail (command ++ "Illegal option -o " ++ name)
  | c :: more, rest => do
    let known := (← getProcess).knownOptions
    if known.any fun o => o.2 == some c then
      modifyProcess fun p => p.withOption isOn c
      setOptions command isOn more rest
    else fail (command ++ "Illegal option -" ++ String.singleton c)

/-- Sets options and positional parameters. Without arguments, it writes all variables. -/
def setParameters : Nat → Bool → List String → ShellM Nat
  | 0, _, _ => return 0
  | _, changed, [] => do
    if !changed then showVariables "" fun v => v.value.isSome
    return 0
  | fuel + 1, _, a :: rest => do
    match a.toList with
    | ['-', '-'] =>
      modifyProcess fun p => { p with parameters := rest, optionOffset := none }
      return 0
    | ['-'] =>
      modifyProcess fun p => (p.withOption false 'x').withOption false 'v'
      if !rest.isEmpty then modifyProcess fun p => { p with parameters := rest }
      return 0
    | '-' :: letters => setParameters fuel true (← setOptions "set: " true letters rest)
    | '+' :: letters => setParameters fuel true (← setOptions "set: " false letters rest)
    | _ =>
      modifyProcess fun p => { p with parameters := a :: rest, optionOffset := none }
      return 0

def shift (args : List String) : ShellM Nat := do
  let n ← match args with
    | [] => pure 1
    | a :: _ => numberOf "shift" a
  let p ← getProcess
  if p.parameters.length < n then fail "shift: can't shift that many"
  modifyProcess fun p => { p with parameters := p.parameters.drop n, optionOffset := none }
  return 0

def getOption (args : List String) : ShellM Nat := do
  match args with
  | letters :: name :: more => do
    let p ← getProcess
    let words := if more.isEmpty then p.parameters else more
    let index := (((p.value? "OPTIND").bind String.toNat?).getD 1) - 1
    let letters := letters.toList
    let isQuiet := letters.head? == some ':'
    let word? := if 0 < index then words[index - 1]? else none
    let inside : List Char := match word?, p.optionOffset with
      | some w, some offset => w.toList.drop offset
      | _, _ => []
    -- The rest of the word that the next option is in, and the number of words up to it.
    let next : Option (List Char × Nat) :=
      if !inside.isEmpty then some (inside, index)
      else match (words[index]?).map String.toList with
        | some ('-' :: c :: cs) => some (c :: cs, index + 1)
        | _ => none
    let finish (status count : Nat) (offset : Option Nat) (value : Char) : ShellM Nat := do
      assign "OPTIND" (toString (count + 1))
      modifyProcess fun p => { p with optionOffset := offset }
      assignFor "getopts" name (String.singleton value)
      return status
    let isNew := inside.isEmpty
    match next with
    | none => finish 1 index none '?'
    | some (['-'], count) => if isNew then finish 1 count none '?' else finish 0 count none '?'
    | some ([], count) => finish 1 count none '?'
    | some (c :: cs, count) =>
      let length := ((words[count - 1]?).getD "").length
      let offset := if cs.isEmpty then none else some (length - cs.length)
      let place := letters.dropWhile (· != c)
      if place.isEmpty || c == ':' then
        if isQuiet then assign "OPTARG" (String.singleton c)
        else
          let _ ← writeTo 2 ("Illegal option -" ++ String.singleton c ++ "\n").toList
          modifyProcess fun p => p.withoutVariable "OPTARG"
        finish 0 count offset '?'
      else if (place.drop 1).head? == some ':' then
        if !cs.isEmpty then
          assign "OPTARG" (String.ofList cs)
          finish 0 count none c
        else match words[count]? with
          | some value =>
            assign "OPTARG" value
            finish 0 (count + 1) none c
          | none =>
            if isQuiet then
              assign "OPTARG" (String.singleton c)
              finish 0 count none ':'
            else
              let _ ← writeTo 2 ("No arg for -" ++ String.singleton c ++ " option\n").toList
              modifyProcess fun p => p.withoutVariable "OPTARG"
              finish 0 count none '?'
      else
        assign "OPTARG" ""
        finish 0 count offset c
  | _ => fail "getopts: Usage: getopts optstring var [arg...]"

/-! ## Reading -/

/-- The characters of a line with whether they may separate fields, the number of characters that
were read for it, and whether a newline ended it. A backslash takes the meaning of what follows
away, and hides a newline. -/
def lineAhead (raw : Bool) : List Char → List (Char × Bool) × Nat × Bool
  | [] => ([], 0, false)
  | '\n' :: _ => ([], 1, true)
  | '\\' :: c :: rest =>
    if raw then
      let (line, count, ended) := lineAhead raw (c :: rest)
      (('\\', true) :: line, count + 1, ended)
    else
      let (line, count, ended) := lineAhead raw rest
      (if c == '\n' then line else (c, false) :: line, count + 2, ended)
  | ['\\'] => (if raw then [('\\', true)] else [], 1, false)
  | c :: rest =>
    let (line, count, ended) := lineAhead raw rest
    (if c == '\x00' then line else (c, true) :: line, count + 1, ended)

/-- How far a line is split: the fields that are complete, the last one first, the characters of the
one that is begun, the number of fields that may still be made, whether white space was just seen
after a field, and how many characters of the last field count, if not all. -/
structure Portions where
  fields : List (List Char) := []
  current : List Char := []
  left : Nat
  afterSpace : Bool := false
  kept : Option Nat := none

/-- The portions after one more character. The last field takes all that is left, without a single
separator at its end. -/
def Portions.step (separators : List Char) (s : Portions) (c : Char) (splits : Bool) : Portions :=
  let separates := splits && separators.contains c
  let isBlank := separates && (c == ' ' || c == '\t' || c == '\n')
  let longer := { s with current := c :: s.current }
  if !splits then { longer with afterSpace := false }
  else if s.left = 0 then
    if isBlank then { longer with kept := some (s.kept.getD s.current.length) }
    else if separates && s.afterSpace then { longer with afterSpace := false }
    else { longer with afterSpace := false, kept := none }
  else if s.afterSpace && isBlank then s
  else if s.afterSpace && separates then { s with afterSpace := false }
  else if !separates then { longer with afterSpace := false }
  else if s.current.isEmpty && isBlank then { s with afterSpace := false }
  else if s.left = 1 then
    { longer with left := 0, afterSpace := isBlank, kept := some s.current.length }
  else
    { s with
      fields := s.current.reverse :: s.fields
      current := []
      left := s.left - 1
      afterSpace := isBlank }

def portions (separators : List Char) (count : Nat) (line : List (Char × Bool)) :
    List (List Char) :=
  let start : Portions := { left := count }
  let s := line.foldl (fun s (c, splits) => s.step separators c splits) start
  let last := match s.kept with
    | some n => s.current.reverse.take n
    | none => s.current.reverse
  (if last.isEmpty then s.fields else last :: s.fields).reverse

def readVariables (args : List String) : ShellM Nat := do
  let isExtended := (← getProcess).dialect == .extended
  withOptions "read" (if isExtended then "p:rst:n:d:a:u:e" else "p:r") args fun options names => do
    if names.isEmpty && !isExtended then fail "read: arg count"
    let isReply := names.isEmpty
    let names := if isReply then ["REPLY"] else names
    let p ← getProcess
    match (← get).ahead? 0 with
    | none => return 1
    | some text => do
      let (line, count, ended) := lineAhead (options.any fun o => o.1 == 'r') text
      consume 0 count
      let fields := if isReply then [line.map Prod.fst]
        else portions p.separators names.length line
      for (name, n) in names.zipIdx do
        assignFor "read" name (String.ofList ((fields[n]?).getD []))
      return if ended then 0 else 1

/-! ## Signals and jobs -/

def setTraps (args : List String) : ShellM Nat :=
  withOptions "trap" "" args fun _ operands => do
    let dialect := (← getProcess).dialect
    if operands.isEmpty then
      let traps := (← getProcess).traps
      for (name, _) in signals do
        match traps.lookup name with
        | some action => emit ("trap -- " ++ quoteText action ++ " " ++ name ++ "\n")
        | none => pure ()
      return 0
    let isNumber (a : String) : Bool := (Text.digits? 10 a.toList).any (· ≤ 64)
    let (action, names) := match operands with
      | [_] => (none, operands)
      | a :: rest => if isNumber a then (none, operands) else (some a, rest)
      | [] => (none, [])
    let action := if action == some "-" then none else action
    for name in names do
      match signal? dialect name with
      | none =>
        complain ("trap: " ++ name ++ ": bad trap")
        return 1
      | some n =>
        modifyProcess fun p =>
          let others := p.traps.filter fun t => t.1 != signalName n
          { p with traps := match action with
            | some text => (signalName n, text) :: others
            | none => others }
    return 0

def firstNumber : Nat := 4242

def Session.jobNamed? (s : Session) (name : List Char) : Option Nat :=
  if name.isEmpty || name = ['%'] || name = ['+'] then s.process.background
  else do
    let n ← Text.digits? 10 name
    let numbers := (s.jobs.map Prod.fst ++ s.finished.map Prod.fst).mergeSort fun a b => a ≤ b
    if n = 0 then none else numbers[n - 1]?

/-- Sends a signal to a process; says whether there is one. The first process of all takes no
notice. -/
def sendSignal (number signal : Nat) : ShellM Bool := do
  let s ← get
  if number == 1 then return true
  if number == s.process.number || number == s.process.parent || number == firstNumber then
    if signal != 0 then set { s with signals := s.signals ++ [(number, signal)] }
    return true
  else signalJob number signal

def sendToAll (signal : Nat) : ShellM Unit := do
  for (number, _) in (← get).jobs do
    let _ ← signalJob number signal
  let s ← get
  let numbers := if s.process.number == firstNumber then [firstNumber]
    else [s.process.number, firstNumber]
  if signal != 0 then set { s with signals := s.signals ++ numbers.map (·, signal) }

def kill (args : List String) : ShellM Nat := do
  let dialect := (← getProcess).dialect
  let usage := "kill: Usage: kill [-s sigspec | -signum | -sigspec] [pid | job]... or\n" ++
    "kill -l [exitstatus]"
  let direct := (args.head?.bind fun a => match a.toList with
    | '-' :: name => signal? dialect (String.ofList name)
    | _ => none)
  let (signal, isList, operands) ← match direct with
    | some n => pure (some n, false, args.drop 1)
    | none =>
      let (options, operands) ← readOptions "kill" "ls:".toList (args.length + 100) args
      match options.reverse.find? fun o => o.1 == 's' with
      | some (_, name) =>
        match signal? dialect name with
        | some n => pure (some n, options.any fun o => o.1 == 'l', operands)
        | none => fail ("kill: invalid signal number or name: " ++ name)
      | none =>
        let isList := options.any fun o => o.1 == 'l'
        pure (if isList then none else some 15, isList, operands)
  if isList then
    match operands with
    | [] =>
      for (name, n) in signals do
        if n != 0 then emit (name ++ "\n")
      return 0
    | a :: _ =>
      let n ← numberOf "kill" a
      let n := if 128 < n then n - 128 else n
      if 0 < n && n ≤ 64 then
        emit (signalName n ++ "\n")
        return 0
      else fail ("kill: invalid signal number or exit status: " ++ a)
  if operands.isEmpty then fail usage
  let mut status := 0
  for a in operands do
    let done ← match a.toList with
      | '%' :: name =>
        match (← get).jobNamed? name with
        | some n => sendSignal n (signal.getD 15)
        | none => fail ("kill: No such job: " ++ a)
      | '-' :: digits =>
        let n ← numberOf "kill" (String.ofList digits)
        if n == firstNumber || n == (← getProcess).number then
          sendToAll (signal.getD 15)
          pure true
        else pure false
      | _ =>
        let n ← numberOf "kill" a
        if n == 0 then
          sendToAll (signal.getD 15)
          pure true
        else sendSignal n (signal.getD 15)
    if !done then
      complainOf "kill: No such process\n"
      status := 1
  return status

def waitForJobs (run : Runner) (args : List String) : ShellM Nat := do
  if args.isEmpty then
    finishJobs run fun _ => true
    modify fun s => { s with finished := [] }
    return 0
  let mut status := 0
  for a in args do
    let number ← match a.toList with
      | '%' :: name =>
        match (← get).jobNamed? name with
        | some n => pure n
        | none => fail ("wait: No such job: " ++ a)
      | _ => numberOf "wait" a
    finishJob run number
    match (← get).finished? number with
    | some (result, _) =>
      modify fun s => { s with finished := s.finished.filter fun j => j.1 != number }
      status := result
    | none => status := 127
  return status

/-! ## The kinds of commands -/

def specialNames : List String :=
  [".", ":", "break", "continue", "eval", "exec", "exit", "export", "local", "readonly", "return",
   "set", "shift", "times", "trap", "unset"]

def builtinNames : List String :=
  ["[", "alias", "bg", "cd", "chdir", "command", "echo", "false", "fg", "getopts", "hash", "jobs",
   "kill", "printf", "pwd", "read", "test", "true", "type", "ulimit", "umask", "unalias", "wait"]

/-- The names of commands that only shells with further forms carry out. -/
def extendedNames : List String :=
  ["builtin", "declare", "let", "shopt", "source", "typeset", "disown", "enable"]

def isSpecialName (name : String) : Bool := specialNames.contains name

def Process.hasBuiltin (p : Process) (name : String) : Bool :=
  isSpecialName name || builtinNames.contains name ||
    (p.dialect == .extended && extendedNames.contains name)

def describe (run : Runner) (isShort : Bool) (name : String) : ShellM Nat := do
  let s ← get
  let p := s.process
  let say (short long : String) : ShellM Nat := do
    emit ((if isShort then short else name ++ " " ++ long) ++ "\n")
    return 0
  if reserved.contains name then return ← say name "is a shell keyword"
  match p.aliases.lookup name with
  | some text =>
    return ← say ("alias " ++ name ++ "=" ++ quoteText text) ("is an alias for " ++ text)
  | none => pure ()
  if isSpecialName name then return ← say name "is a special shell builtin"
  if (p.functions.lookup name).isSome then return ← say name "is a shell function"
  if p.hasBuiltin name then return ← say name "is a shell builtin"
  let path := if name.toList.contains '/' then
      match programAt run.programs s name with
      | .utility _ | .script _ => some name
      | _ => none
    else searchPath? run.programs s name
  match path with
  | some path => say path ("is " ++ path)
  | none =>
    if !isShort then emit (name ++ ": not found\n")
    return 127

def describeAll (run : Runner) (isShort : Bool) (names : List String) : ShellM Nat := do
  let mut status := 0
  for name in names do
    let result ← describe run isShort name
    if result != 0 then status := result
  return status

def setAliases (args : List String) : ShellM Nat := do
  let show' (name text : String) : ShellM Unit := emit (name ++ "=" ++ quoteText text ++ "\n")
  let mut status := 0
  if args.isEmpty then
    for (name, text) in (← getProcess).aliases do show' name text
  for a in args do
    match splitOperand a with
    | (name, some text) =>
      modifyProcess fun p => { p with
        aliases := (name, text) :: p.aliases.filter fun x => x.1 != name }
    | (name, none) =>
      match (← getProcess).aliases.lookup name with
      | some text => show' name text
      | none =>
        complain ("alias: " ++ name ++ " not found")
        status := 1
  return status

def unsetAliases (args : List String) : ShellM Nat :=
  withOptions "unalias" "a" args fun options names => do
    if options.any fun o => o.1 == 'a' then modifyProcess fun p => { p with aliases := [] }
    let mut status := 0
    for name in names do
      if ((← getProcess).aliases.lookup name).isNone then
        complain ("unalias: " ++ name ++ " not found")
        status := 1
      modifyProcess fun p => { p with aliases := p.aliases.filter fun x => x.1 != name }
    return status

/-! ## Permissions -/

def maskLetters (mask shift : Nat) : String :=
  let bits := 7 - (mask >>> shift) % 8
  let has (n : Nat) (c : String) : String := if (bits / n) % 2 = 1 then c else ""
  has 4 "r" ++ has 2 "w" ++ has 1 "x"

def changedMask? (mask : Nat) (text : List Char) : Option Nat :=
  let who := text.takeWhile fun c => "ugoa".toList.contains c
  match text.drop who.length with
  | sign :: letters =>
    if !("+-=".toList.contains sign) || !(letters.all fun c => "rwx".toList.contains c) then none
    else
      let bits := (if letters.contains 'r' then 4 else 0) + (if letters.contains 'w' then 2 else 0) +
        if letters.contains 'x' then 1 else 0
      let all := who.isEmpty || who.contains 'a'
      let part (shift : Nat) (c : Char) : Nat :=
        let old := 7 - (mask >>> shift) % 8
        let new := if !(all || who.contains c) then old
          else if sign == '+' then old ||| bits
          else if sign == '-' then old - (old &&& bits)
          else bits
        (7 - new) <<< shift
      some (part 6 'u' + part 3 'g' + part 0 'o')
  | [] => none

/-- Sets or shows the permissions that new files do not get. -/
def setMask (args : List String) : ShellM Nat :=
  withOptions "umask" "S" args fun options operands => do
    let mask := (← getProcess).mask
    match operands with
    | [] =>
      if options.isEmpty then
        let octal := Nat.toDigits 8 mask
        emit (String.ofList (List.replicate (4 - octal.length) '0' ++ octal) ++ "\n")
      else
        emit ("u=" ++ maskLetters mask 6 ++ ",g=" ++ maskLetters mask 3 ++ ",o=" ++
          maskLetters mask 0 ++ "\n")
      return 0
    | a :: _ =>
      if a.toList.head?.any Char.isDigit then
        match Text.digits? 8 a.toList with
        | some n => modifyProcess fun p => { p with mask := n % 512 }
        | none => fail ("umask: Illegal number: " ++ a)
      else
        let parts := Text.splitOn ',' a.toList
        match parts.foldlM changedMask? mask with
        | some n => modifyProcess fun p => { p with mask := n }
        | none => fail ("umask: Illegal mode: " ++ a)
      return 0

def showLimits (args : List String) : ShellM Nat :=
  withOptions "ulimit" "HSatfdsmcnpvwlr" args fun options operands => do
    if operands.isEmpty then
      emit (if options.any fun o => o.1 == 'c' then "0\n" else "unlimited\n")
    return 0

end Shell

end ShaderReducer
