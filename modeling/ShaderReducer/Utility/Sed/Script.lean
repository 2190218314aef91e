import ShaderReducer.Utility.Regular

/-!
# Scripts of `sed`

A script is a row of commands. Each has the addresses of the lines that it is carried out for. A block
is a command that goes on behind its end for other lines.
-/

namespace ShaderReducer

namespace Utility

namespace Sed

/-- An expression with its flags. The empty one stands for the one that was used last. -/
structure Expression where
  regular : Option Regular
  folds : Bool := false
  lines : Bool := false
  deriving Repr, DecidableEq

inductive Address where
  | line (number : Nat)
  | every (first step : Nat)
  | last
  | holding (e : Expression)
  deriving Repr, DecidableEq

inductive RangeEnd where
  | at (address : Address)
  | after (count : Nat)
  | multiple (n : Nat)
  deriving Repr, DecidableEq

inductive Casing where
  | upper
  | lower
  | asIs
  | upperNext
  | lowerNext
  deriving Repr, DecidableEq

inductive Piece where
  | text (cs : List Char)
  | group (number : Nat)
  | casing (c : Casing)
  deriving Repr, DecidableEq

/-- A substitution: what is replaced by what, from which match on, whether all further matches are
replaced too, and what is done with the line afterwards. -/
structure Substitution where
  expression : Expression
  pieces : List Piece
  first : Nat := 1
  all : Bool := false
  prints : Bool := false
  runs : Bool := false
  file : Option String := none
  deriving Repr, DecidableEq

inductive Action where
  | block (behind : Nat)
  | nothing
  | delete
  | deleteFirst
  | write
  | writeFirst
  | next
  | appendNext
  | hold
  | holdMore
  | fetch
  | fetchMore
  | exchange
  | quit (status : Nat)
  | quitSilently (status : Nat)
  | number
  | list (width : Option Nat)
  | append (text : List Char)
  | insert (text : List Char)
  | change (text : List Char)
  | read (file : String)
  | readLine (file : String)
  | save (file : String)
  | saveFirst (file : String)
  | substitute (s : Substitution)
  | exchangeChars (pairs : List (Char × Char))
  | jump (target : Nat)
  | jumpIf (target : Nat)
  | jumpUnless (target : Nat)
  | clear
  | name
  | run (command : List Char)
  deriving Repr, DecidableEq

structure Command where
  start : Option Address := none
  stop : Option RangeEnd := none
  /-- Whether a range includes the lines before the first one. -/
  fromStart : Bool := false
  negated : Bool := false
  action : Action
  deriving Repr, DecidableEq

/-! ## Reading -/

inductive Draft where
  | action (a : Action)
  | blockStart
  | blockEnd
  | label (name : String)
  | jump (kind : Nat → Action) (name : String)

structure Unread where
  rest : List Char
  length : Nat
  extended : Bool

abbrev ReadM (α : Type) : Type := StateT Unread (Except String) α

def ahead : ReadM (List Char) := return (← get).rest

def goTo (rest : List Char) : ReadM Unit := modify fun u => { u with rest := rest }

def failAt {α : Type} (reason : String) : ReadM α := do
  let u ← get
  throw ("-e expression #1, char " ++ toString (u.length - u.rest.length) ++ ": " ++ reason)

def skipWhile (p : Char → Bool) : ReadM Unit := modify fun u => { u with rest := u.rest.dropWhile p }

def isBlank (c : Char) : Bool := c == ' ' || c == '\t'

def number? : ReadM (Option Nat) := do
  let cs ← ahead
  let digits := cs.takeWhile Char.isDigit
  goTo (cs.drop digits.length)
  return Text.digits? 10 digits

def numbered? (base most : Nat) (cs : List Char) : Option (Char × List Char) :=
  let isDigit (c : Char) : Bool := (Text.digits? base [c]).isSome
  let digits := (cs.take most).takeWhile isDigit
  (Text.digits? base digits).map fun n => (Char.ofNat (n % 256), cs.drop digits.length)

def escape? : List Char → Option (Char × List Char)
  | 'a' :: rest => some ('\x07', rest)
  | 'f' :: rest => some ('\x0c', rest)
  | 'r' :: rest => some ('\r', rest)
  | 't' :: rest => some ('\t', rest)
  | 'v' :: rest => some ('\x0b', rest)
  | 'c' :: c :: rest => some (Char.ofNat (c.toUpper.toNat ^^^ 64), rest)
  | 'd' :: rest => numbered? 10 3 rest
  | 'o' :: rest => numbered? 8 3 rest
  | 'x' :: rest => numbered? 16 2 rest
  | _ => none

def withEscapes : Nat → List Char → List Char
  | 0, cs => cs
  | fuel + 1, '\\' :: c :: rest =>
    if c == 'n' then '\n' :: withEscapes fuel rest
    else match escape? (c :: rest) with
      | some (d, rest) => d :: withEscapes fuel rest
      | none => '\\' :: c :: withEscapes fuel rest
  | fuel + 1, c :: rest => c :: withEscapes fuel rest
  | _, [] => []

def bracketLength (cs : List Char) : Nat :=
  let rec inside : Nat → Nat → List Char → Nat
    | 0, _, _ => 0
    | _, _, [] => 0
    | fuel + 1, n, '[' :: c :: rest =>
      if c == ':' || c == '.' || c == '=' then
        match Regular.upTo? c ']' rest with
        | some (text, rest) => inside fuel (n + text.length + 4) rest
        | none => inside fuel (n + 1) (c :: rest)
      else inside fuel (n + 1) (c :: rest)
    | fuel + 1, n, c :: rest => if c == ']' then n + 1 else inside fuel (n + 1) rest
  let head := match cs with
    | '[' :: '^' :: ']' :: _ => 3
    | '[' :: '^' :: _ => 2
    | '[' :: ']' :: _ => 2
    | _ => 1
  inside cs.length head (cs.drop head)

/-- The text up to a separator, and what follows it. In an expression, sets may hold the separator,
and `\n` is a newline; otherwise a backslash is only taken away in front of the separator. -/
def upToSlash? (slash : Char) (isExpression : Bool) :
    Nat → List Char → Option (List Char × List Char)
  | 0, _ => none
  | _, [] => none
  | fuel + 1, '\\' :: c :: rest => do
    let (text, after) ← upToSlash? slash isExpression fuel rest
    if c == slash && !(!isExpression && c == '&') then return (c :: text, after)
    else if c == '\n' then return (if isExpression then c :: text else '\\' :: c :: text, after)
    else return ('\\' :: c :: text, after)
  | fuel + 1, c :: rest => do
    if c == slash then return ([], rest)
    else if c == '\n' && isExpression then none
    else if c == '\n' then none
    else if c == '[' && isExpression then
      let n := bracketLength (c :: rest)
      if n = 0 then none
      else
        let (text, after) ← upToSlash? slash isExpression fuel (rest.drop (n - 1))
        return (c :: rest.take (n - 1) ++ text, after)
    else
      let (text, after) ← upToSlash? slash isExpression fuel rest
      return (c :: text, after)

def toSlash (slash : Char) (isExpression : Bool) (failure : String) : ReadM (List Char) := do
  let cs ← ahead
  match upToSlash? slash isExpression cs.length cs with
  | some (text, rest) =>
    goTo rest
    return text
  | none =>
    goTo []
    failAt failure

def expressionOf (text : List Char) (folds lines : Bool) : ReadM (Expression × Nat) := do
  if text.isEmpty then return (⟨none, folds, lines⟩, 9)
  match Regular.ofText ⟨(← get).extended, false⟩ (withEscapes text.length text) with
  | .ok (r, groups) => return (⟨some r, folds, lines⟩, groups)
  | .error reason => failAt reason

def addressExpression (slash : Char) : ReadM Address := do
  let text ← toSlash slash true "unterminated address regex"
  let cs ← ahead
  let flags := cs.takeWhile fun c => c == 'I' || c == 'M'
  goTo (cs.drop flags.length)
  return .holding (← expressionOf text (flags.contains 'I') (flags.contains 'M')).1

def address? : ReadM (Option Address) := do
  match ← ahead with
  | '$' :: rest =>
    goTo rest
    return some .last
  | '/' :: rest =>
    goTo rest
    return some (← addressExpression '/')
  | '\\' :: c :: rest =>
    goTo rest
    return some (← addressExpression c)
  | ['\\'] => failAt "unterminated address regex"
  | _ =>
    match ← number? with
    | none => return none
    | some n =>
      match ← ahead with
      | '~' :: rest =>
        goTo rest
        return some (.every n ((← number?).getD 0))
      | _ => return some (.line n)

def rangeEnd : ReadM RangeEnd := do
  match ← ahead with
  | '+' :: rest =>
    goTo rest
    match ← number? with
    | some n => return .after n
    | none => failAt "expected number"
  | '~' :: rest =>
    goTo rest
    match ← number? with
    | some n => return .multiple n
    | none => failAt "expected number"
  | _ =>
    match ← address? with
    | some a => return .at a
    | none => failAt "unexpected \x60,'"

def endOfCommand : ReadM Unit := do
  skipWhile isBlank
  match ← ahead with
  | [] => return
  | c :: rest =>
    if c == ';' || c == '\n' then goTo rest
    else if c != '\x7d' && c != '#' then
      goTo rest
      failAt "extra characters after command"

/-- The text of an insertion, up to a newline without a backslash, and what follows. -/
def insertion : Nat → List Char → List Char × List Char
  | 0, cs => ([], cs)
  | _, [] => ([], [])
  | _, '\n' :: rest => ([], rest)
  | fuel + 1, '\\' :: c :: rest =>
    let (d, rest) := if c == 'n' then ('\n', rest)
      else match escape? (c :: rest) with
        | some (d, rest) => (d, rest)
        | none => (c, rest)
    let (text, after) := insertion fuel rest
    (d :: text, after)
  | _, ['\\'] => ([], [])
  | fuel + 1, c :: rest =>
    let (text, after) := insertion fuel rest
    (c :: text, after)

/-- Reads the text of an insertion. After a backslash, blanks in front of it count. -/
def insertedText : ReadM (List Char) := do
  skipWhile isBlank
  match ← ahead with
  | [] => failAt "expected \\ after \x60a', \x60c' or \x60i'"
  | '\\' :: rest =>
    let isEnd := rest.isEmpty
    let rest := match rest.dropWhile isBlank with
      | '\n' :: rest => rest
      | _ => rest
    match rest with
    | [] =>
      goTo []
      return if isEnd then [] else ['\n']
    | c :: more =>
      -- The first character after the backslash stands for itself.
      let isEscape := c == '\\' || c == '\n'
      let (text, after) := insertion rest.length (if isEscape then rest else more)
      goTo after
      return (if isEscape then text else c :: text) ++ ['\n']
  | cs =>
    let (text, after) := insertion cs.length cs
    goTo after
    return text ++ ['\n']

def fileName : ReadM String := do
  skipWhile isBlank
  let cs ← ahead
  let name := cs.takeWhile (· != '\n')
  if name.isEmpty then failAt "missing filename in r/R/w/W commands"
  goTo (cs.drop (name.length + 1))
  return String.ofList name

def labelName : ReadM String := do
  skipWhile isBlank
  let cs ← ahead
  let name := cs.takeWhile fun c => !isBlank c && c != '\n' && c != ';' && c != '\x7d'
  goTo (cs.drop name.length)
  return String.ofList name

def piecesOf : Nat → List Char → List Piece
  | 0, _ => []
  | _, [] => []
  | fuel + 1, '\\' :: c :: rest =>
    match c with
    | 'n' => .text ['\n'] :: piecesOf fuel rest
    | 'U' => .casing .upper :: piecesOf fuel rest
    | 'L' => .casing .lower :: piecesOf fuel rest
    | 'E' => .casing .asIs :: piecesOf fuel rest
    | 'u' => .casing .upperNext :: piecesOf fuel rest
    | 'l' => .casing .lowerNext :: piecesOf fuel rest
    | c =>
      if c.isDigit then .group (c.toNat - '0'.toNat) :: piecesOf fuel rest
      else match escape? (c :: rest) with
        | some (d, rest) => .text [d] :: piecesOf fuel rest
        | none => .text [c] :: piecesOf fuel rest
  | fuel + 1, '&' :: rest => .group 0 :: piecesOf fuel rest
  | fuel + 1, c :: rest => .text [c] :: piecesOf fuel rest

structure Flags where
  folds : Bool := false
  lines : Bool := false
  first : Option Nat := none
  all : Bool := false
  prints : Bool := false
  runs : Bool := false
  file : Option String := none

def flags : Nat → Flags → ReadM Flags
  | 0, f => return f
  | fuel + 1, f => do
    match ← ahead with
    | 'i' :: rest | 'I' :: rest =>
      goTo rest
      flags fuel { f with folds := true }
    | 'm' :: rest | 'M' :: rest =>
      goTo rest
      flags fuel { f with lines := true }
    | 'e' :: rest =>
      goTo rest
      flags fuel { f with runs := true }
    | 'g' :: rest =>
      goTo rest
      if f.all then failAt "multiple \x60g' options to \x60s' command"
      flags fuel { f with all := true }
    | 'p' :: rest =>
      goTo rest
      if f.prints then failAt "multiple \x60p' options to \x60s' command"
      flags fuel { f with prints := true }
    | 'w' :: rest =>
      goTo rest
      return { f with file := some (← fileName) }
    | cs =>
      if cs.head?.any Char.isDigit then
        match ← number? with
        | some 0 => failAt "number option to \x60s' command may not be zero"
        | n =>
          if f.first.isSome then failAt "multiple number options to \x60s' command"
          flags fuel { f with first := n }
      else
        match cs with
        | [] => return f
        | c :: rest =>
          if c == '\x7d' || c == '#' then return f
          else if c == ';' || c == '\n' then
            goTo rest
            return f
          else if isBlank c || c == '\r' then
            goTo rest
            flags fuel f
          else
            goTo rest
            failAt "unknown option to \x60s'"

def substitution : ReadM Action := do
  match ← ahead with
  | [] => failAt "unterminated \x60s' command"
  | slash :: rest =>
    goTo rest
    if slash == '\n' || slash == '\\' then failAt "unterminated \x60s' command"
    let text ← toSlash slash true "unterminated \x60s' command"
    let replacement ← toSlash slash false "unterminated \x60s' command"
    let f ← flags ((← ahead).length + 1) {}
    let (expression, groups) ← expressionOf text f.folds f.lines
    let pieces := piecesOf replacement.length replacement
    for p in pieces do
      match p with
      | .group n =>
        if groups < n then
          failAt ("invalid reference \\" ++ toString n ++ " on \x60s' command's RHS")
      | _ => pure ()
    return .substitute
      { expression
        pieces
        first := f.first.getD 1
        all := f.all
        prints := f.prints
        runs := f.runs
        file := f.file }

def plainChars : Nat → List Char → List Char
  | 0, cs => cs
  | fuel + 1, '\\' :: c :: rest =>
    if c == '\\' then '\\' :: plainChars fuel rest
    else if c == 'n' then '\n' :: plainChars fuel rest
    else match escape? (c :: rest) with
      | some (d, rest) => d :: plainChars fuel rest
      | none => '\\' :: c :: plainChars fuel rest
  | fuel + 1, c :: rest => c :: plainChars fuel rest
  | _, [] => []

def exchange : ReadM Action := do
  match ← ahead with
  | [] => failAt "unterminated \x60y' command"
  | slash :: rest =>
    goTo rest
    let source ← toSlash slash false "unterminated \x60y' command"
    let target ← toSlash slash false "unterminated \x60y' command"
    let source := plainChars source.length source
    let target := plainChars target.length target
    if source.length ≠ target.length then
      failAt "strings for \x60y' command are different lengths"
    endOfCommand
    return .exchangeChars (source.zip target)

def draft (letter : Char) : ReadM Draft := do
  let plain (a : Action) : ReadM Draft := do
    endOfCommand
    return .action a
  let status (f : Nat → Action) : ReadM Draft := do
    skipWhile isBlank
    plain (f ((← number?).getD 0))
  match letter with
  | '\x7b' => return .blockStart
  | '\x7d' => do
    endOfCommand
    return .blockEnd
  | '=' => plain .number
  | 'd' => plain .delete
  | 'D' => plain .deleteFirst
  | 'g' => plain .fetch
  | 'G' => plain .fetchMore
  | 'h' => plain .hold
  | 'H' => plain .holdMore
  | 'n' => plain .next
  | 'N' => plain .appendNext
  | 'p' => plain .write
  | 'P' => plain .writeFirst
  | 'x' => plain .exchange
  | 'z' => plain .clear
  | 'F' => plain .name
  | 'q' => status .quit
  | 'Q' => status .quitSilently
  | 'l' => do
    skipWhile isBlank
    let width ← number?
    plain (.list width)
  | 'a' => return .action (.append (← insertedText))
  | 'i' => return .action (.insert (← insertedText))
  | 'c' => return .action (.change (← insertedText))
  | 'r' => return .action (.read (← fileName))
  | 'R' => return .action (.readLine (← fileName))
  | 'w' => return .action (.save (← fileName))
  | 'W' => return .action (.saveFirst (← fileName))
  | 's' => return .action (← substitution)
  | 'y' => return .action (← exchange)
  | ':' => do
    let name ← labelName
    if name.isEmpty then failAt "\":\" lacks a label"
    return .label name
  | 'b' => do
    let name ← labelName
    endOfCommand
    return .jump .jump name
  | 't' => do
    let name ← labelName
    endOfCommand
    return .jump .jumpIf name
  | 'T' => do
    let name ← labelName
    endOfCommand
    return .jump .jumpUnless name
  | 'e' => do
    skipWhile isBlank
    let cs ← ahead
    let text := cs.takeWhile (· != '\n')
    goTo (cs.drop (text.length + 1))
    return .action (.run text)
  | 'v' => do
    let _ ← labelName
    plain .nothing
  | c => failAt ("unknown command: \x60" ++ String.singleton c ++ "'")

def command? : ReadM (Option (Command × Draft)) := do
  skipWhile fun c => isBlank c || c == '\n' || c == ';' || c == '\r'
  match ← ahead with
  | [] => return none
  | '#' :: rest =>
    goTo (rest.dropWhile (· != '\n'))
    return some ({ action := .nothing }, .action .nothing)
  | _ =>
    let start ← address?
    skipWhile isBlank
    let stop ← match start, ← ahead with
      | some _, ',' :: rest => do
        goTo rest
        skipWhile isBlank
        pure (some (← rangeEnd))
      | _, _ => pure none
    let isExpression := match stop with
      | some (.at (.holding _)) => true
      | _ => false
    if start == some (.line 0) && !isExpression then failAt "invalid usage of line address 0"
    skipWhile isBlank
    let negated := (← ahead).head? == some '!'
    if negated then
      goTo ((← ahead).drop 1)
      skipWhile isBlank
      if (← ahead).head? == some '!' then
        goTo ((← ahead).drop 1)
        failAt "multiple \x60!'s"
    match ← ahead with
    | [] => failAt "missing command"
    | letter :: rest =>
      goTo rest
      if (letter == '\x7d' || letter == ':') && start.isSome then
        failAt (String.singleton letter ++ " doesn't want any addresses")
      if (letter == 'q' || letter == 'Q') && stop.isSome then
        failAt "command only uses one address"
      let d ← draft letter
      return some
        ({ start
           stop
           fromStart := start == some (.line 0)
           negated
           action := .nothing }, d)

def commands : Nat → ReadM (List (Command × Draft))
  | 0 => return []
  | fuel + 1 => do
    match ← command? with
    | none => return []
    | some c => return c :: (← commands fuel)

def behindBlock? : Nat → Nat → List (Command × Draft) → Option Nat
  | _, _, [] => none
  | 0, n, (_, .blockEnd) :: _ => some (n + 1)
  | depth + 1, n, (_, .blockEnd) :: rest => behindBlock? depth (n + 1) rest
  | depth, n, (_, .blockStart) :: rest => behindBlock? (depth + 1) (n + 1) rest
  | depth, n, _ :: rest => behindBlock? depth (n + 1) rest

def labelled? (name : String) : Nat → List (Command × Draft) → Option Nat
  | _, [] => none
  | n, (_, .label name') :: rest =>
    if name' == name then some n else labelled? name (n + 1) rest
  | n, _ :: rest => labelled? name (n + 1) rest

def resolve (all : List (Command × Draft)) :
    Nat → Nat → List (Command × Draft) → Except String (List Command)
  | _, 0, [] => .ok []
  | _, _, [] => .error "-e expression #1, char 0: unmatched \x60\x7b'"
  | n, depth, (c, d) :: rest => do
    match d with
    | .action a => return { c with action := a } :: (← resolve all (n + 1) depth rest)
    | .label _ => return c :: (← resolve all (n + 1) depth rest)
    | .blockEnd =>
      if depth = 0 then throw "-e expression #1, char 2: unexpected \x60\x7d'"
      return c :: (← resolve all (n + 1) (depth - 1) rest)
    | .blockStart =>
      let behind := (behindBlock? 0 (n + 1) rest).getD 0
      return { c with action := .block behind } :: (← resolve all (n + 1) (depth + 1) rest)
    | .jump kind name =>
      let target ← if name.isEmpty then pure all.length
        else match labelled? name 0 all with
          | some m => pure m
          | none => throw ("can't find label for jump to \x60" ++ name ++ "'")
      return { c with action := kind target } :: (← resolve all (n + 1) depth rest)

def script (extended : Bool) (text : List Char) : Except String (List Command) := do
  let (drafts, _) ← (commands (text.length + 1)).run ⟨text, text.length, extended⟩
  resolve drafts 0 0 drafts

end Sed

end Utility

end ShaderReducer
