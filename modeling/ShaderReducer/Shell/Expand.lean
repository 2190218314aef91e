import ShaderReducer.Shell.Arithmetic
import ShaderReducer.Shell.Glob
import ShaderReducer.Shell.Process

/-!
# Expanding words

Before a command is run, the parts of its words are replaced by what they stand for. The result is a
row of atoms: characters, of which some may separate fields, and gaps between fields. It is split
into fields, and a field that is a pattern of names stands for the files that have such names.
-/

namespace ShaderReducer

namespace Shell

/-- What a word is expanded to. An empty text that is quoted is something too. -/
inductive Atom where
  | char (c : Char) (quoted splits : Bool)
  | gap
  | nothing
  deriving Repr, DecidableEq

inductive Manner where
  | fields
  | whole
  deriving Repr, DecidableEq

/-! ## Fields -/

def Process.separators (p : Process) : List Char :=
  ((p.value? "IFS").getD " \t\n").toList

/-- How far atoms are split: the fields that are complete, the last one first, the field that is
begun, and whether a gap was seen since the last field that a sign may belong to. -/
structure Splitting where
  fields : List Marked := []
  current : Option Marked := none
  gapSeen : Bool := false

def Splitting.finish (s : Splitting) : Splitting :=
  match s.current with
  | some field => ⟨field.reverse :: s.fields, none, true⟩
  | none => s

/-- The splitting after one more atom. White space only ends fields; another separator is the end
of a field, which may be empty. -/
def Splitting.step (separators : List Char) (s : Splitting) : Atom → Splitting
  | .nothing => { s with current := some (s.current.getD []), gapSeen := false }
  | .gap => { s.finish with gapSeen := false }
  | .char c quoted splits =>
    if splits && separators.contains c then
      if c == ' ' || c == '\t' || c == '\n' then s.finish
      else
        match s.current with
        | some field => ⟨field.reverse :: s.fields, none, false⟩
        | none => if s.gapSeen then { s with gapSeen := false } else { s with fields := [] :: s.fields }
    else ⟨s.fields, some ((c, quoted) :: s.current.getD []), false⟩

def fieldsOf (separators : List Char) (atoms : List Atom) : List Marked :=
  ((atoms.foldl (Splitting.step separators) {}).finish.fields).reverse

def wholeOf (atoms : List Atom) : Marked :=
  atoms.filterMap fun
    | .char c quoted _ => some (c, quoted)
    | .gap => some (' ', true)
    | .nothing => none

/-! ## Parameters -/

def Process.parameter? (p : Process) (name : String) : Option String :=
  match name with
  | "?" => some (toString p.status)
  | "$" => some (toString p.number)
  | "#" => some (toString p.parameters.length)
  | "!" => p.background.map toString
  | "-" => some (String.ofList p.options)
  | "0" => some p.name
  | "LINENO" => some (toString p.line)
  | _ =>
    match name.toNat? with
    | some 0 => some p.name
    | some (n + 1) => p.parameters[n]?
    | none => p.value? name

def atomsOf (quoted : Bool) (text : List Char) : List Atom :=
  if quoted && text.isEmpty then [.nothing] else text.map fun c => .char c quoted (!quoted)

def atomsOfRow (quoted : Bool) (texts : List String) : List Atom :=
  (texts.map fun t => atomsOf quoted t.toList).intersperse [.gap] |>.flatten

/-- The text without the shortest or longest beginning that matches a pattern. -/
def withoutStart (pattern : Marked) (longest : Bool) (text : List Char) : List Char :=
  let items := Glob.items pattern
  let lengths := List.range (text.length + 1)
  let fits := (if longest then lengths.reverse else lengths).find? fun n =>
    Glob.matchesAll items (text.take n)
  text.drop (fits.getD 0)

/-- The text without the shortest or longest end that matches a pattern. -/
def withoutEnd (pattern : Marked) (longest : Bool) (text : List Char) : List Char :=
  let items := Glob.items pattern
  let lengths := List.range (text.length + 1)
  let fits := (if longest then lengths.reverse else lengths).find? fun n =>
    Glob.matchesAll items (text.drop (text.length - n))
  text.take (text.length - fits.getD 0)

def longestStart? (pattern : Marked) (text : List Char) : Option Nat :=
  let items := Glob.items pattern
  (List.range (text.length + 1)).reverse.find? fun n => Glob.matchesAll items (text.take n)

def replaced (pattern : Marked) (value : List Char) (all : Bool) : Nat → List Char → List Char
  | 0, text => text
  | fuel + 1, text =>
    match longestStart? pattern text, text with
    | some (n + 1), _ =>
      let rest := text.drop (n + 1)
      value ++ if all then replaced pattern value all fuel rest else rest
    | _, c :: rest => c :: replaced pattern value all fuel rest
    | _, [] => []

/-! ## Parts -/

/-- The output of a nested script without the newlines at its end. -/
def captured (run : Runner) (script : Script) : ShellM (List Char) := do
  let text ← outputOf run (run.script script)
  let status := (← getProcess).status
  modifyProcess fun p => { p with nestedStatus := some status }
  return (text.filter (· != '\x00')).reverse.dropWhile (· == '\n') |>.reverse

def Process.bindings (p : Process) : Expression.Bindings :=
  p.vars.filterMap fun (name, v) => v.value.map (name, ·)

def calculate (text : List Char) : ShellM Int := do
  let p ← getProcess
  let before := p.bindings
  match Expression.valueOfText (p.dialect == .extended) before text with
  | .ok (n, after) => do
    for (name, value) in (after.take (after.length - before.length)).reverse do
      assign name value
    return n
  | .error .divisionByZero => fail "arithmetic expression: division by zero"
  | .error (.illegalNumber text) => fail ("Illegal number: " ++ text)
  | .error (.malformed text) => fail ("arithmetic expression: expecting primary: \"" ++ text ++ "\"")

def Process.home? (p : Process) (user : List Char) : Option String :=
  if user.isEmpty then p.value? "HOME" else if user = "root".toList then some "/root" else none

def withoutTilde (p : Process) (ends : List Char) (cs : List Char) : Option (String × List Char) :=
  match cs with
  | '~' :: rest =>
    let user := rest.takeWhile fun c => !ends.contains c
    if user.all isNameChar then (p.home? user).map fun home => (home, rest.drop user.length)
    else none
  | _ => none

/-- The first part of a word with a home directory in the place of a tilde. -/
def expandTilde (p : Process) (w : Word) : Word :=
  match w with
  | .text cs false :: rest =>
    match withoutTilde p ['/'] cs with
    | some (home, after) =>
      if after.isEmpty && !rest.isEmpty then w
      else .text home.toList true :: (if after.isEmpty then rest else .text after false :: rest)
    | none => w
  | _ => w

def plainValue (p : Process) (manner : Manner) (name : String) (quoted : Bool) :
    ShellM (List Atom) := do
  let joint := (p.separators.head?).toList
  let joined : List Char := ((p.parameters.map String.toList).intersperse joint).flatten
  let isRow := name == "@" || name == "*"
  if isRow then
    if manner == .whole then return atomsOf true joined
    else if quoted && name == "*" then return atomsOf true joined
    else return atomsOfRow quoted p.parameters
  match p.parameter? name with
  | some value => return atomsOf quoted value.toList
  | none =>
    if p.has 'u' then fail (name ++ ": parameter not set")
    return atomsOf quoted []

def textOf? (p : Process) (name : String) : Option String :=
  if name == "@" || name == "*" then
    if p.parameters.isEmpty then none else some (" ".intercalate p.parameters)
  else p.parameter? name

/-- The first character of a text, or all, in upper or lower case where a pattern matches. -/
def recase (upper all : Bool) (pattern : Marked) (text : List Char) : List Char :=
  let turn (c : Char) : Char :=
    if pattern.isEmpty || Glob.covers pattern [c] then if upper then c.toUpper else c.toLower
    else c
  if all then text.map turn
  else match text with
    | c :: rest => turn c :: rest
    | [] => []

def isVariableName (name : String) : Bool := isName name.toList

mutual

def expandParameter (run : Runner) : Nat → Manner → String → Usage → List Word → Bool →
    ShellM (List Atom)
  | 0, _, _, _, _, _ => throw .outOfTime
  | depth + 1, manner, name, usage, arguments, quoted => do
    let p ← getProcess
    let word := arguments.headD []
    let second := (arguments.drop 1).headD []
    let isSet (orEmpty : Bool) : Bool :=
      (textOf? p name).any fun t => !(orEmpty && t.isEmpty)
    let useWord : ShellM (List Atom) := do
      let atoms ← expandParts run depth manner (!quoted) (expandTilde p word)
      return if quoted && atoms.isEmpty then [.nothing] else atoms
    let marked (w : Word) : ShellM Marked := do
      return wholeOf (← expandParts run depth .whole false w)
    let across (f : List Char → List Char) : ShellM (List Atom) := do
      if (name == "@" || name == "*") && manner == .fields then
        return atomsOfRow quoted (p.parameters.map fun t => String.ofList (f t.toList))
      match textOf? p name with
      | some t => return atomsOf quoted (f t.toList)
      | none =>
        if p.has 'u' then fail (name ++ ": parameter not set")
        return atomsOf quoted []
    match usage with
    | .value => plainValue p manner name quoted
    | .length =>
      if p.has 'u' && (textOf? p name).isNone && name != "@" && name != "*" then
        fail (name ++ ": parameter not set")
      let n := if p.dialect == .extended && (name == "@" || name == "*") then p.parameters.length
        else ((textOf? p name).getD "").length
      return atomsOf quoted (toString n).toList
    | .otherwise orEmpty =>
      if isSet orEmpty then plainValue p manner name quoted else useWord
    | .instead orEmpty =>
      if isSet orEmpty then useWord else return atomsOf quoted []
    | .assigning orEmpty =>
      if isSet orEmpty then plainValue p manner name quoted
      else if !isVariableName name then fail (name ++ ": bad variable name")
      else
        let text := String.ofList ((← marked (expandTilde p word)).map Prod.fst)
        assign name text
        return atomsOf quoted text.toList
    | .demanding orEmpty =>
      if isSet orEmpty then plainValue p manner name quoted
      else
        let text := String.ofList ((← marked word).map Prod.fst)
        fail (name ++ ": " ++ if !text.isEmpty then text
          else if orEmpty then "parameter not set or null" else "parameter not set")
    | .withoutEnd longest => do
      let pattern ← marked word
      across (withoutEnd pattern longest)
    | .withoutStart longest => do
      let pattern ← marked word
      across (withoutStart pattern longest)
    | .replacing all anchor => do
      let pattern ← marked word
      let value := (← marked second).map Prod.fst
      match anchor with
      | none => across fun t => replaced pattern value all (t.length + 1) t
      | some true => across fun t =>
        match longestStart? pattern t with
        | some n => value ++ t.drop n
        | none => t
      | some false => across fun t =>
        let rest := withoutEnd pattern true t
        if rest.length < t.length then rest ++ value else t
    | .recased upper all => do
      let pattern ← marked word
      across (recase upper all pattern)
    | .slice => do
      let number (w : Word) : ShellM Int := do calculate ((← marked w).map Prod.fst)
      let start ← number word
      let count ← if arguments.length < 2 then pure none else some <$> number second
      let cut {α : Type} (xs : List α) (start : Int) : List α :=
        let from₀ := if start < 0 then xs.length - start.natAbs else start.toNat
        let rest := xs.drop from₀
        match count with
        | none => rest
        | some n => if n < 0 then rest.take (rest.length - n.natAbs) else rest.take n.toNat
      if name == "@" || name == "*" then
        return atomsOfRow quoted (cut (p.name :: p.parameters) start)
      else across fun t => cut t start
    | .malformed => fail "Bad substitution"

/-- Expands the parts of a word. Where it is said so, texts that are not quoted are split as
well. -/
def expandParts (run : Runner) : Nat → Manner → Bool → Word → ShellM (List Atom)
  | 0, _, _, _ => throw .outOfTime
  | _, _, _, [] => return []
  | depth + 1, manner, splitsText, part :: rest => do
    let atoms ← match part with
      | .text cs quoted =>
        if quoted && cs.isEmpty then pure [Atom.nothing]
        else pure (cs.map fun c => Atom.char c quoted (splitsText && !quoted))
      | .parameter name usage arguments quoted =>
        expandParameter run depth manner name usage arguments quoted
      | .output script quoted => atomsOf quoted <$> captured run script
      | .arithmetic e quoted => do
        let text := (wholeOf (← expandParts run depth .whole false e)).map Prod.fst
        pure (atomsOf quoted (toString (← calculate text)).toList)
    return atoms ++ (← expandParts run depth manner splitsText rest)

end

def mostParts : Nat := 10000

/-! ## Words -/

/-- The text that a word stands for where it is not split, with its quotes. -/
def expandMarked (run : Runner) (w : Word) : ShellM Marked := do
  return wholeOf (← expandParts run mostParts .whole false (expandTilde (← getProcess) w))

/-- The text that a word stands for where it is not split. -/
def expandWhole (run : Runner) (w : Word) : ShellM String := do
  return String.ofList ((← expandMarked run w).map Prod.fst)

def expandTildes (p : Process) (cs : List Char) : List Part :=
  let pieces := Text.splitOn ':' cs
  let parts := pieces.map fun piece =>
    match withoutTilde p ['/'] piece with
    | some (home, after) => [Part.text home.toList true, .text after false]
    | none => [Part.text piece false]
  (parts.intersperse [.text [':'] false]).flatten

def expandValue (run : Runner) (w : Word) : ShellM String := do
  let p ← getProcess
  let w := w.flatMap fun
    | .text cs false => if cs.contains '~' then expandTildes p cs else [.text cs false]
    | part => [part]
  let atoms ← expandParts run mostParts .whole false w
  return String.ofList ((wholeOf atoms).map Prod.fst)

/-! ## Braces -/

def braceItems : Nat → List Char → List Char → List (List Char)
  | _, item, [] => [item.reverse]
  | 0, item, ',' :: rest => item.reverse :: braceItems 0 [] rest
  | depth, item, '\x7b' :: rest => braceItems (depth + 1) ('\x7b' :: item) rest
  | depth, item, '\x7d' :: rest => braceItems (depth - 1) ('\x7d' :: item) rest
  | depth, item, c :: rest => braceItems depth (c :: item) rest

def braceEnd? : Nat → List Char → List Char → Option (List Char × List Char)
  | _, _, [] => none
  | 0, read, '\x7d' :: rest => some (read.reverse, rest)
  | depth + 1, read, '\x7d' :: rest => braceEnd? depth ('\x7d' :: read) rest
  | depth, read, '\x7b' :: rest => braceEnd? (depth + 1) ('\x7b' :: read) rest
  | depth, read, c :: rest => braceEnd? depth (c :: read) rest

def braceRange? (cs : List Char) : Option (List (List Char)) := do
  let low := cs.takeWhile (· != '.')
  match cs.drop low.length with
  | '.' :: '.' :: high =>
    match (String.ofList low).toInt?, (String.ofList high).toInt? with
    | some a, some b =>
      let count := (b - a).natAbs + 1
      return (List.range count).map fun n =>
        (toString (if a ≤ b then a + Int.ofNat n else a - Int.ofNat n)).toList
    | _, _ =>
      match low, high with
      | [a], [b] =>
        if a.isAlpha && b.isAlpha then
          let (m, n) := (a.toNat, b.toNat)
          return (List.range ((max m n) - (min m n) + 1)).map fun i =>
            [Char.ofNat (if m ≤ n then m + i else m - i)]
        else none
      | _, _ => none
  | _ => none

def braceTexts : Nat → List Char → List (List Char)
  | 0, cs => [cs]
  | fuel + 1, cs =>
    let start := cs.takeWhile (· != '\x7b')
    match cs.drop start.length with
    | [] => [cs]
    | _ :: rest =>
      match braceEnd? 0 [] rest with
      | none => [cs]
      | some (inside, after) =>
        let items := match braceRange? inside with
          | some items => items
          | none =>
            let items := braceItems 0 [] inside
            if items.length < 2 then items.map fun i => '\x7b' :: i ++ ['\x7d']
            else items.flatMap (braceTexts fuel)
        items.flatMap fun item => (braceTexts fuel after).map fun more => start ++ item ++ more

def braceWords (w : Word) : List Word :=
  match w with
  | [.text cs false] => (braceTexts cs.length cs).map fun cs => [.text cs false]
  | .text cs false :: rest => (braceTexts cs.length cs).map fun cs => .text cs false :: rest
  | w => [w]

def expand (run : Runner) : List Word → ShellM (List String)
  | [] => return []
  | w :: rest => do
    let p ← getProcess
    let words := if p.dialect == .extended then braceWords w else [w]
    let mut found : List String := []
    for w in words do
      let atoms ← expandParts run mostParts .fields false (expandTilde p w)
      let s ← get
      for field in fieldsOf s.process.separators atoms do
        let plain := String.ofList (field.map Prod.fst)
        let paths := if s.process.has 'f' then [] else Glob.paths s.disk field
        found := found ++ if paths.isEmpty then [plain] else paths
    return found ++ (← expand run rest)

end Shell

end ShaderReducer
