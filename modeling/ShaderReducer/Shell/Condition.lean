import ShaderReducer.Shell.Process
import ShaderReducer.Text.Number

/-!
# Conditions and programs

The conditions that commands ask, and the programs that their names stand for. Conditions are
of files, texts and numbers. Whether a word is an operator depends on the words around it, and a
condition of three words with an operator in the middle is a comparison whatever its words are.
-/

namespace ShaderReducer

namespace Shell

def systemDirectories : List String :=
  ["/bin", "/sbin", "/usr", "/usr/bin", "/usr/sbin", "/usr/lib", "/usr/local", "/usr/local/bin",
   "/usr/share", "/etc", "/dev", "/dev/fd", "/var", "/var/tmp", "/home", "/root", "/opt", "/lib",
   "/proc", "/sys", "/run", "/mnt"]

def systemFiles : List String := ["/etc/passwd", "/etc/group", "/etc/hosts", "/etc/hostname"]

def systemDevices : List String :=
  ["/dev/null", "/dev/zero", "/dev/full", "/dev/random", "/dev/urandom", "/dev/tty"]

inductive Kind where
  | nothing
  | file (size : Nat) (runs : Bool)
  | directory
  | device
  | stream
  deriving Repr, DecidableEq

def kindAt (programs : List String) (s : Session) (name : String) : Kind :=
  let isProgram := ["/bin/", "/usr/bin/"].any fun d =>
    d.toList.isPrefixOf name.toList &&
      programs.contains (String.ofList (name.toList.drop d.length))
  match s.disk.entry (pathOf name) with
  | .ok .directory => .directory
  | .ok (.file bytes runs) => .file bytes.length runs
  | .error _ =>
    if systemDevices.contains name then .device
    else if (systemDescriptor? name).isSome then .stream
    else if systemDirectories.contains name then .directory
    else if systemFiles.contains name then .file 1 false
    else if isProgram then .file 1 true
    else .nothing

def wholeNumber? (text : String) : Option Int :=
  let cs := text.toList.dropWhile Octets.isSpace
  let cs := (cs.reverse.dropWhile Octets.isSpace).reverse
  let (sign, digits) := match cs with
    | '-' :: rest => ((-1 : Int), rest)
    | '+' :: rest => (1, rest)
    | _ => (1, cs)
  (Text.digits? 10 digits).map fun n => sign * Int.ofNat n

namespace Condition

def unaryOperators : List String :=
  ["-r", "-w", "-x", "-e", "-f", "-d", "-c", "-b", "-p", "-u", "-g", "-k", "-s", "-t", "-z", "-n",
   "-h", "-O", "-G", "-L", "-S"]

def binaryOperators : List String :=
  ["=", "!=", "<", ">", "-eq", "-ne", "-gt", "-ge", "-lt", "-le", "-nt", "-ot", "-ef"]

inductive Token where
  | ended
  | operand
  | negation
  | both
  | either
  | opening
  | closing
  | unary (operator : String)
  | binary (operator : String)
  deriving Repr, DecidableEq

abbrev Check (α : Type) : Type := Except String α

def binaryOperatorsOf (extended : Bool) : List String :=
  if extended then "==" :: binaryOperators else binaryOperators

/-- Whether an operator before a word is rather a word itself: it is the last one, or it stands
before an operator between words. -/
def isOperand (extended : Bool) : List String → Bool
  | [] => true
  | [_] => false
  | next :: _ => (binaryOperatorsOf extended).contains next

def token (extended : Bool) : List String → Token
  | [] => .ended
  | w :: rest =>
    match w with
    | "!" => .negation
    | "-a" => .both
    | "-o" => .either
    | "(" => if rest.isEmpty then .operand else .opening
    | ")" => .closing
    | _ =>
      if unaryOperators.contains w then
        if isOperand extended rest then .operand else .unary w
      else if (binaryOperatorsOf extended).contains w then .binary w
      else .operand

structure Facts where
  extended : Bool
  unary : String → String → Bool
  changedAfter : String → String → Bool
  isSame : String → String → Bool

def number (text : String) : Check Int :=
  match wholeNumber? text with
  | some n => .ok n
  | none => .error ("Illegal number: " ++ text)

def compare (facts : Facts) (a operator b : String) : Check Bool := do
  let numbers (f : Int → Int → Bool) : Check Bool := do return f (← number a) (← number b)
  match operator with
  | "=" | "==" => return a == b
  | "!=" => return a != b
  | "<" => return a < b
  | ">" => return b < a
  | "-eq" => numbers (· == ·)
  | "-ne" => numbers (· != ·)
  | "-gt" => numbers (· > ·)
  | "-ge" => numbers (· ≥ ·)
  | "-lt" => numbers (· < ·)
  | "-le" => numbers (· ≤ ·)
  | "-nt" => return facts.changedAfter a b
  | "-ot" => return facts.changedAfter b a
  | "-ef" => return facts.isSame a b
  | _ => .error "unexpected operator"

/-- What is read of a condition: its value, and the words from the last one that was read on. -/
abbrev Reading := Check (Bool × List String)

/-- Reads a condition without connectives, given what its first word is. -/
def primary (facts : Facts) (alternatives : Token → List String → Reading) (t : Token)
    (ws : List String) : Reading :=
  match t with
  | .ended => .ok (false, ws)
  | .opening => do
    let inside := ws.drop 1
    if token facts.extended inside == .closing then return (false, inside)
    let (value, rest) ← alternatives (token facts.extended inside) inside
    let after := rest.drop 1
    if token facts.extended after == .closing then return (value, after)
    else throw "closing paren expected"
  | .unary operator =>
    match ws.drop 1 with
    | [] => .error (operator ++ ": argument expected")
    | w :: rest => .ok (facts.unary operator w, w :: rest)
  | _ =>
    match ws with
    | [] => .ok (false, [])
    | a :: rest =>
      match token facts.extended rest with
      | .binary operator =>
        match rest.drop 1 with
        | [] => .error (operator ++ ": argument expected")
        | b :: after => do return (← compare facts a operator b, b :: after)
      | _ => .ok (!a.isEmpty, ws)

def negated (facts : Facts) (alternatives : Token → List String → Reading) :
    Nat → Token → List String → Reading
  | 0, _, ws => .ok (false, ws)
  | fuel + 1, t, ws =>
    if t == .negation then
      let next := token facts.extended (ws.drop 1)
      let ws := if next == .ended then ws else ws.drop 1
      (negated facts alternatives fuel next ws).map fun (value, rest) => (!value, rest)
    else primary facts alternatives t ws

def connected (extended : Bool) (sign : Token) (join : Bool → Bool → Bool)
    (one : Token → List String → Reading) : Nat → Bool → Token → List String → Reading
  | 0, value, _, ws => .ok (value, ws)
  | fuel + 1, value, t, ws => do
    let (v, rest) ← one t ws
    let value := join value v
    if token extended (rest.drop 1) == sign then
      let next := rest.drop 2
      connected extended sign join one fuel value (token extended next) next
    else return (value, rest)

/-- Reads conditions of which one has to hold, with at most so many inside each other. -/
def alternatives (facts : Facts) : Nat → Token → List String → Reading
  | 0, _, ws => .ok (false, ws)
  | fuel + 1, t, ws =>
    let one := negated facts (alternatives facts fuel) (ws.length + 2)
    let row := connected facts.extended .both (· && ·) one (ws.length + 1) true
    connected facts.extended .either (· || ·) row (ws.length + 1) false t ws

/-- The value of a condition that is read from a first word on. -/
def complete (facts : Facts) (t : Token) (ws : List String) : Check Bool := do
  let (value, rest) ← alternatives facts (ws.length + 2) t ws
  match rest with
  | last :: _ :: _ => throw (last ++ ": unexpected operator")
  | _ => return value

def evaluateIn (facts : Facts) : Nat → List String → Check Bool
  | 0, _ => .ok false
  | _, [] => .ok false
  | fuel + 1, ws =>
    let isComparison := match ws with
      | [_, operator, _] => (binaryOperatorsOf facts.extended).contains operator
      | _ => false
    if isComparison then complete facts .operand ws
    else if ws.length = 3 || ws.length = 4 then
      if ws.head? == some "(" && ws.getLast? == some ")" then
        let inside := (ws.drop 1).dropLast
        complete facts (token facts.extended inside) inside
      else if ws.head? == some "!" then
        match ws.drop 1 with
        | [] => .ok true
        | rest => (evaluateIn facts fuel rest).map (!·)
      else complete facts (token facts.extended ws) ws
    else complete facts (token facts.extended ws) ws

/-- The number of the last change to what is at a path, of those that are remembered. -/
def lastChange (s : Session) (name : String) : Option Nat :=
  match s.disk.locate (pathOf name) with
  | .error _ => none
  | .ok location =>
    if (s.disk.tree.get? location).isNone then none
    else
      let after := s.disk.changes.takeWhile fun
        | .write l _ | .makeDirectory l | .rename _ l => l ≠ location
        | _ => true
      some (s.disk.changes.length - after.length)

def Facts.of (programs : List String) (s : Session) : Facts where
  extended := s.process.dialect == .extended
  unary operator w :=
    let kind := kindAt programs s w
    match operator with
    | "-z" => w.isEmpty
    | "-n" => !w.isEmpty
    | "-e" | "-r" | "-w" | "-O" | "-G" => kind != .nothing
    | "-f" => match kind with
      | .file .. => true
      | _ => false
    | "-d" => kind == .directory
    | "-c" => kind == .device
    | "-p" => kind == .stream
    | "-x" => match kind with
      | .file _ runs => runs
      | .directory => true
      | _ => false
    | "-s" => match kind with
      | .file size _ => size != 0
      | .directory => true
      | _ => false
    | _ => false
  changedAfter a b :=
    match lastChange s a, lastChange s b with
    | some m, some n => n < m
    | some _, none => false
    | none, _ => false
  isSame a b :=
    match s.disk.locate (pathOf a), s.disk.locate (pathOf b) with
    | .ok l, .ok l' => l = l' && (s.disk.tree.get? l).isSome
    | _, _ => false

def evaluate (programs : List String) (s : Session) (ws : List String) : Check Bool :=
  evaluateIn (Facts.of programs s) (ws.length + 1) ws

end Condition

end Shell

/-! ## Looking up programs

The program that a name stands for: one that the system has, or a file that can be run. A name
without a slash is looked up in the directories of the search path, and one with slashes is a path. -/

namespace Shell

inductive Program where
  | utility (name : String)
  | script (path : String)
  | missing
  | denied
  deriving Repr, DecidableEq

def programDirectories : List String := ["/usr/bin", "/bin"]

def inSearched (directory name : String) : String :=
  if directory.isEmpty then name else directory ++ "/" ++ name

def programAt (programs : List String) (s : Session) (path : String) : Program :=
  let isSystem := programDirectories.find? fun d =>
    (d ++ "/").toList.isPrefixOf path.toList &&
      programs.contains (String.ofList (path.toList.drop (d.length + 1)))
  match isSystem with
  | some d => .utility (String.ofList (path.toList.drop (d.length + 1)))
  | none =>
    match kindAt programs s path with
    | .file _ true => .script path
    | .nothing => .missing
    | _ => .denied

def searchPath? (programs : List String) (s : Session) (name : String) : Option String :=
  if name.isEmpty then none
  else
    let directories := Text.splitOn ':' ((s.process.value? "PATH").getD "").toList
    let paths := directories.map fun d => inSearched (String.ofList d) name
    paths.find? fun path =>
      match programAt programs s path with
      | .utility _ | .script _ => true
      | _ => false

/-- What a name stands for. Files that cannot be run are passed over, but remembered. -/
def lookUp (programs : List String) (s : Session) (name : String) : Program :=
  if name.toList.contains '/' then programAt programs s name
  else match searchPath? programs s name with
    | some path => programAt programs s path
    | none =>
      let directories := Text.splitOn ':' ((s.process.value? "PATH").getD "").toList
      let there := directories.any fun d =>
        match kindAt programs s (inSearched (String.ofList d) name) with
        | .file .. => !name.isEmpty
        | _ => false
      if there then .denied else .missing

/-- The words of the first line of a script that say what runs it: a program, and an argument. -/
def interpreter? (text : List Char) : Option (List String) :=
  match text with
  | '#' :: '!' :: rest =>
    let trim (cs : List Char) : List Char :=
      ((cs.dropWhile isGap).reverse.dropWhile isGap).reverse
    let line := trim (rest.takeWhile (· != '\n'))
    let name := line.takeWhile fun c => !isGap c
    let argument := trim (line.drop name.length)
    if name.isEmpty then none
    else some (String.ofList name :: if argument.isEmpty then [] else [String.ofList argument])
  | _ => none

end Shell

end ShaderReducer
