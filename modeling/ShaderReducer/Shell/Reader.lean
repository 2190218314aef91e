import ShaderReducer.Shell.Word

/-!
# Reading scripts

The text of a script is read line by line, and what a line begins is read to its end: a line that is
no script does not keep those before it from being run. Reserved words count only where a command
may begin.
-/

namespace ShaderReducer

namespace Shell

/-- What is read: one command, or a list of commands, which may be empty or not. -/
inductive Goal where
  | command
  | commands (mayBeEmpty : Bool)
  deriving Repr, DecidableEq

abbrev Inner := Goal → ReaderM Script

def Inner.nested (inner : Inner) : Nested := ⟨inner (.commands true)⟩

def wholeWord (inner : Inner) : ReaderM Word := do
  skip
  match ← ahead with
  | [] => failure
  | c :: _ => if endsWord c then failure else word inner.nested

/-! ## Documents -/

def documentLines (a : Announced) : Nat → List Char → List Char × List Char
  | 0, cs => ([], cs)
  | _, [] => ([], [])
  | fuel + 1, cs =>
    let cs := if a.dropsTabs then cs.dropWhile (· == '\t') else cs
    let line := cs.takeWhile (· != '\n')
    let rest := cs.drop (line.length + 1)
    if line = a.delimiter then ([], rest)
    else
      let (lines, after) := documentLines a fuel rest
      (line ++ (if line.length < cs.length then '\n' :: lines else lines), after)

def readDocuments (inner : Inner) : ReaderM Unit := do
  let announced := (← get).announced
  modify fun s => { s with announced := [] }
  for a in announced do
    let cs ← ahead
    let (text, rest) := documentLines a (cs.length + 1) cs
    goTo rest
    let w ←
      if a.expands then within text (partsIn inner.nested deepestPlace .document)
      else pure [.text text true]
    modify fun s => { s with documents := (a.number, w) :: s.documents }

def skipLines (inner : Inner) : ReaderM Unit := do
  let _ ← many do
    skip
    if ← accept "\n" then
      readDocuments inner
      return some ()
    else return none

/-! ## Redirections -/

def channelings : List (String × Nat × Channeling) :=
  [("<&", 0, .copyOf), ("<>", 0, .withFile), ("<", 0, .fromFile), (">>", 1, .appendToFile),
   (">&", 1, .copyOf), (">|", 1, .overFile), (">", 1, .toFile)]

def extendedChannelings : List (String × Nat × Channeling) :=
  [("<<<", 0, .fromText), ("&>>", 1, .appendWithErrors), ("&>", 1, .toFileWithErrors)]

def announce (inner : Inner) (descriptor : Nat) : ReaderM Redirection := do
  let dropsTabs ← accept "-"
  skip
  let before ← ahead
  let w ← wholeWord inner
  let raw := before.take (before.length - (← ahead).length)
  let (bare, quoted) := w.bare
  let number := (← get).nextDocument
  let a : Announced := ⟨number, if quoted then bare else raw, dropsTabs, !quoted⟩
  modify fun s => { s with announced := s.announced ++ [a], nextDocument := number + 1 }
  return .mk descriptor (.fromDocument number) []

/-- Reads a redirection, if there is one. One digit in front of it is the descriptor. -/
def redirection (inner : Inner) : ReaderM (Option Redirection) := do
  let cs ← ahead
  let (digit, body) := match cs with
    | d :: s :: rest =>
      if d.isDigit && (s == '<' || s == '>') then (some (d.toNat - '0'.toNat), s :: rest)
      else (none, cs)
    | _ => (none, cs)
  let extended ← isExtended
  let table := if extended then extendedChannelings ++ channelings else channelings
  let isDocument := "<<".toList.isPrefixOf body && !(extended && "<<<".toList.isPrefixOf body)
  if isDocument then
    goTo (body.drop 2)
    return some (← announce inner (digit.getD 0))
  match table.find? fun (sign, _) => sign.toList.isPrefixOf body with
  | none => return none
  | some (sign, descriptor, kind) => do
    goTo (body.drop sign.length)
    return some (.mk (digit.getD descriptor) kind (← wholeWord inner))

def redirections (inner : Inner) : ReaderM (List Redirection) :=
  many do
    skip
    redirection inner

/-! ## Reserved words -/

def reserved : List String :=
  ["!", "case", "do", "done", "elif", "else", "esac", "fi", "for", "if", "in", "then", "until",
   "while", "\x7b", "\x7d"]

def closers : List String := ["then", "elif", "else", "fi", "do", "done", "esac", "\x7d"]

def reserved? : ReaderM (Option String) := do
  let cs ← ahead
  let text := cs.takeWhile fun c => !(endsWord c || isSpecial c)
  if (cs.drop text.length).head?.any isSpecial then return none
  let w := String.ofList text
  let extra := if ← isExtended then ["[[", "function"] else []
  return if (reserved ++ extra).contains w then some w else none

def acceptReserved (w : String) : ReaderM Bool := do
  skip
  if (← reserved?) == some w then accept w else return false

def demandReserved (w : String) : ReaderM Unit := do
  if !(← acceptReserved w) then failure

def atClose : ReaderM Bool := do
  match ← ahead with
  | [] => return true
  | ')' :: _ => return true
  | ';' :: ';' :: _ => return true
  | _ => return (← reserved?).any closers.contains

/-! ## Commands -/

def assignment? (extended : Bool) (w : Word) : Option Assignment :=
  match w with
  | .text cs false :: rest =>
    let name := cs.takeWhile isNameChar
    let value (adding : Bool) (cs : List Char) : Option Assignment :=
      if isName name then
        some (.mk (String.ofList name) adding (if cs.isEmpty then rest else .text cs false :: rest))
      else none
    match cs.drop name.length with
    | '=' :: cs => value false cs
    | '+' :: '=' :: cs => if extended then value true cs else none
    | _ => none
  | _ => none

def leadingAssignments (extended : Bool) : List Word → List Assignment × List Word
  | [] => ([], [])
  | w :: rest =>
    match assignment? extended w with
    | some a =>
      let (more, words) := leadingAssignments extended rest
      (a :: more, words)
    | none => ([], w :: rest)

/-- Reads a command without a reserved word, or the definition of a function. -/
def simple (inner : Inner) : ReaderM Script := do
  let line := (← get).line
  let items ← many (α := Redirection ⊕ Word) do
    skip
    match ← redirection inner with
    | some r => return some (.inl r)
    | none =>
      match ← ahead with
      | [] => return none
      | c :: _ => if endsWord c then return none else return some (.inr (← word inner.nested))
  let words := items.filterMap fun | .inr w => some w | .inl _ => none
  let rs := items.filterMap fun | .inl r => some r | .inr _ => none
  let extended ← isExtended
  match words, rs, ← ahead with
  | [], [], _ => failure
  | [w], [], '(' :: rest =>
    goTo rest
    skip
    demand ")"
    match w.plain? with
    | some name => do
      if !isName name then failure
      skipLines inner
      return .define (String.ofList name) (← inner .command)
    | none => failure
  | _, _, _ =>
    let (assignments, words) := leadingAssignments extended words
    return .simple line assignments words rs

def branch (inner : Inner) : ReaderM Script := do
  let clause : ReaderM (Script × Script) := do
    let condition ← inner (.commands false)
    demandReserved "then"
    return (condition, ← inner (.commands false))
  let first ← clause
  let more ← many do
    if ← acceptReserved "elif" then return some (← clause) else return none
  let last ← if ← acceptReserved "else" then inner (.commands false) else pure .nothing
  demandReserved "fi"
  return (first :: more).foldr (fun (condition, body) otherwise =>
    .branch condition body otherwise) last

def loop (inner : Inner) (wanted : Bool) : ReaderM Script := do
  let condition ← inner (.commands false)
  demandReserved "do"
  let body ← inner (.commands false)
  demandReserved "done"
  return .loop condition body wanted

def eachBody (inner : Inner) : ReaderM Script := do
  skipLines inner
  demandReserved "do"
  let body ← inner (.commands false)
  demandReserved "done"
  return body

/-- The texts before each of two semicolons and the brackets that end a loop that counts. -/
def countParts? (cs : List Char) : Option ((List Char × List Char × List Char) × List Char) := do
  let start := cs.takeWhile (· != ';')
  let cs := cs.drop (start.length + 1)
  let condition := cs.takeWhile (· != ';')
  let cs := cs.drop (condition.length + 1)
  let step := cs.takeWhile fun c => c != '\n' && c != ';'
  let reversed := (step.reverse.dropWhile (· != ')')).drop 2
  let taken := reversed.reverse
  let rest := cs.drop taken.length
  if "))".toList.isPrefixOf rest then some ((start, condition, taken), rest.drop 2) else none

/-- Reads a loop that counts, after its brackets were opened. -/
def countLoop (inner : Inner) : ReaderM Script := do
  match countParts? (← ahead) with
  | none => failure
  | some ((start, condition, step), rest) => do
    goTo rest
    let parts (text : List Char) : ReaderM Word :=
      within text (partsIn inner.nested deepestPlace .document)
    let start ← parts start
    let condition ← parts condition
    let step ← parts step
    skip
    let _ ← accept ";"
    return .count start condition step (← eachBody inner)

def each (inner : Inner) : ReaderM Script := do
  skip
  if (← isExtended) && (← accept "((") then return ← countLoop inner
  match (← wholeWord inner).plain? with
  | none => failure
  | some name =>
    if !isName name then failure
    skipLines inner
    if ← acceptReserved "in" then
      let words ← many do
        skip
        match ← ahead with
        | [] => return none
        | c :: _ => if endsWord c then return none else return some (← word inner.nested)
      match ← ahead with
      | ';' :: rest => goTo rest
      | '\n' :: _ => pure ()
      | _ => failure
      return .each (String.ofList name) (some words) (← eachBody inner)
    else
      let _ ← accept ";"
      return .each (String.ofList name) none (← eachBody inner)

def choose (inner : Inner) : ReaderM Script := do
  let w ← wholeWord inner
  skipLines inner
  demandReserved "in"
  let branches ← many do
    skipLines inner
    if (← reserved?) == some "esac" then return none
    let _ ← accept "("
    let first ← wholeWord inner
    let more ← many do
      skip
      if ← accept "|" then return some (← wholeWord inner) else return none
    demand ")"
    let body ← inner (.commands true)
    if !(← accept ";;") && (← reserved?) != some "esac" then failure
    return some (first :: more, body)
  demandReserved "esac"
  return .choose w branches

/-! ## Conditions between brackets -/

def conditionOperators : List String :=
  ["=", "==", "!=", "=~", "-eq", "-ne", "-lt", "-le", "-gt", "-ge", "-nt", "-ot", "-ef", "<", ">"]

def comparison (inner : Inner) : ReaderM Condition := do
  let left ← wholeWord inner
  skip
  let cs ← ahead
  let ends (cs : List Char) : Bool :=
    ["]]", "&&", "||", ")", "\n"].any fun t => t.toList.isPrefixOf cs
  if ends cs then return .unary "-n" left
  match cs with
  | '<' :: rest =>
    goTo rest
    return .binary left "<" (← wholeWord inner)
  | '>' :: rest =>
    goTo rest
    return .binary left ">" (← wholeWord inner)
  | _ =>
    match left.plain? with
    | some ['-', c] =>
      if c.isAlpha then return .unary (String.ofList ['-', c]) (← wholeWord inner)
    | _ => pure ()
    let operator := String.ofList (cs.takeWhile fun c => !endsWord c)
    if !conditionOperators.contains operator then failure
    goTo (cs.drop operator.length)
    skip
    let right ←
      if operator == "=~" then partsIn inner.nested deepestPlace .expressionText
      else wholeWord inner
    return .binary left operator right

def alternatives (inner : Inner) : Nat → ReaderM Condition
  | 0 => failure
  | fuel + 1 => do
    let one : ReaderM Condition := do
      skipLines inner
      let negations ← many do
        skip
        match ← ahead with
        | '!' :: c :: rest =>
          if isGap c then
            goTo rest
            return some ()
          else return none
        | _ => return none
      skip
      let c ←
        if ← accept "(" then
          let c ← alternatives inner fuel
          demand ")"
          pure c
        else comparison inner
      skipLines inner
      return negations.foldl (fun c _ => .negation c) c
    let row : ReaderM Condition := do
      let first ← one
      let more ← many do
        if ← accept "&&" then return some (← one) else return none
      return more.foldl .both first
    let first ← row
    let more ← many do
      if ← accept "||" then return some (← row) else return none
    return more.foldl .either first

/-! ## Compound commands -/

def compound (inner : Inner) (w : String) : ReaderM Script := do
  let _ ← accept w
  match w with
  | "if" => branch inner
  | "while" => loop inner true
  | "until" => loop inner false
  | "for" => each inner
  | "case" => choose inner
  | "\x7b" => do
    let body ← inner (.commands false)
    demandReserved "\x7d"
    return body
  | "[[" => do
    let c ← alternatives inner ((← ahead).length + 1)
    demand "]]"
    return .condition c
  | "function" => do
    match (← wholeWord inner).plain? with
    | none => failure
    | some name => do
      skip
      if ← accept "(" then
        skip
        demand ")"
      skipLines inner
      return .define (String.ofList name) (← inner .command)
  | _ => failure

def withRedirections (body : Script) (rs : List Redirection) : Script :=
  if rs.isEmpty then body else .redirected body rs

def command (inner : Inner) : ReaderM Script := do
  skip
  match ← reserved? with
  | some w => do
    let body ← compound inner w
    match body with
    | .define .. => return body
    | _ => return withRedirections body (← redirections inner)
  | none =>
    if (← isExtended) && (← accept "((") then
      let e ← partsIn inner.nested deepestPlace (.expression false)
      demand "))"
      return withRedirections (.calculate e) (← redirections inner)
    else if ← accept "(" then
      let body ← inner (.commands false)
      skip
      demand ")"
      return withRedirections (.subshell body) (← redirections inner)
    else simple inner

def pipeline (inner : Inner) : ReaderM Script := do
  let negated ← acceptReserved "!"
  let first ← inner .command
  let more ← many do
    skip
    match ← ahead with
    | '|' :: '|' :: _ => return none
    | '|' :: '&' :: rest =>
      if ← isExtended then
        goTo rest
        skipLines inner
        return some (true, ← inner .command)
      else failure
    | '|' :: rest => do
      goTo rest
      skipLines inner
      return some (false, ← inner .command)
    | _ => return none
  let joining : Redirection := .mk 2 .copyOf [.text ['1'] false]
  let stages := (first :: more.map Prod.snd).zip (more.map Prod.fst ++ [false])
  let stages := stages.map fun (s, errorsToo) => if errorsToo then .redirected s [joining] else s
  let body := match stages with
    | [s] => s
    | stages => .pipeline stages
  return if negated then .negated body else body

def andOr (inner : Inner) : ReaderM Script := do
  let first ← pipeline inner
  let more ← many do
    skip
    if ← accept "&&" then
      skipLines inner
      return some (true, ← pipeline inner)
    else if ← accept "||" then
      skipLines inner
      return some (false, ← pipeline inner)
    else return none
  return more.foldl (fun s (ifSo, t) => if ifSo then .both s t else .either s t) first

/-- Takes away what separates a script from the next one on a line; says whether there was
something. -/
def separated (script : Script) : ReaderM (Script × Bool) := do
  skip
  match ← ahead with
  | ';' :: ';' :: _ => return (script, false)
  | ';' :: rest =>
    goTo rest
    return (script, true)
  | '&' :: rest =>
    goTo rest
    return (.background script, true)
  | _ => return (script, false)

def inSequence : List Script → Script
  | [] => .nothing
  | [s] => s
  | s :: rest => .sequence s (inSequence rest)

def listTail (inner : Inner) : Nat → ReaderM (List Script)
  | 0 => failure
  | fuel + 1 => do
    let (script, more) ← separated (← andOr inner)
    let newline := (← ahead).head? == some '\n'
    if more || newline then
      skipLines inner
      if ← atClose then return [script]
      return script :: (← listTail inner fuel)
    else return [script]

def commands (inner : Inner) (mayBeEmpty : Bool) : ReaderM Script := do
  skipLines inner
  if mayBeEmpty && (← atClose) then return .nothing
  return inSequence (← listTail inner ((← ahead).length + 1))

def reader : Nat → Inner
  | 0, _ => failure
  | depth + 1, goal =>
    match goal with
    | .command => command (reader depth)
    | .commands mayBeEmpty => commands (reader depth) mayBeEmpty

def deepestCommand : Nat := 1000

def lineTail (inner : Inner) : Nat → ReaderM (List Script)
  | 0 => failure
  | fuel + 1 => do
    let (script, more) ← separated (← andOr inner)
    skip
    match ← ahead with
    | [] =>
      readDocuments inner
      return [script]
    | '\n' :: rest =>
      goTo rest
      readDocuments inner
      return [script]
    | _ => if more then return script :: (← lineTail inner fuel) else failure

def nextCommands : ReaderM (Option Script) := do
  let inner := reader deepestCommand
  skip
  match ← ahead with
  | [] => return none
  | '\n' :: rest =>
    goTo rest
    return some .nothing
  | cs => return some (inSequence (← lineTail inner (cs.length + 1)))

end Shell

end ShaderReducer
