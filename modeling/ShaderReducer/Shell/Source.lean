/-!
# Scripts

What the text of a shell command stands for. A word is a row of parts, which are expanded when the
command that it belongs to is run; a quoted part is not split. All texts are texts of octets.
-/

namespace ShaderReducer

namespace Shell

inductive Dialect where
  | plain
  | extended
  deriving Repr, DecidableEq

/-- How the value of a parameter is used. Some uses ask whether it is set, and some of these whether
it is empty too. -/
inductive Usage where
  | value
  | length
  | otherwise (orEmpty : Bool)
  | assigning (orEmpty : Bool)
  | demanding (orEmpty : Bool)
  | instead (orEmpty : Bool)
  | withoutEnd (longest : Bool)
  | withoutStart (longest : Bool)
  | slice
  | replacing (all : Bool) (anchor : Option Bool)
  | recased (upper all : Bool)
  | malformed
  deriving Repr, DecidableEq

inductive Channeling where
  | fromFile
  | toFile
  | overFile
  | appendToFile
  | withFile
  | copyOf
  | toFileWithErrors
  | appendWithErrors
  | fromText
  /-- The text is one that was read with a number after the line of the redirection. -/
  | fromDocument (number : Nat)
  deriving Repr, DecidableEq

mutual

inductive Part where
  | text (chars : List Char) (quoted : Bool)
  | parameter (name : String) (usage : Usage) (arguments : List (List Part)) (quoted : Bool)
  | output (script : Script) (quoted : Bool)
  | arithmetic (expression : List Part) (quoted : Bool)

inductive Redirection where
  | mk (descriptor : Nat) (kind : Channeling) (target : List Part)

inductive Assignment where
  | mk (name : String) (adding : Bool) (value : List Part)

inductive Condition where
  | unary (operator : String) (operand : List Part)
  | binary (left : List Part) (operator : String) (right : List Part)
  | negation (c : Condition)
  | both (c d : Condition)
  | either (c d : Condition)

inductive Script where
  | nothing
  | simple (line : Nat) (assignments : List Assignment) (words : List (List Part))
      (redirections : List Redirection)
  | pipeline (stages : List Script)
  | negated (body : Script)
  | both (first second : Script)
  | either (first second : Script)
  | sequence (first second : Script)
  | background (body : Script)
  | redirected (body : Script) (redirections : List Redirection)
  | subshell (body : Script)
  | branch (condition body otherwise : Script)
  | loop (condition body : Script) (wanted : Bool)
  | each (name : String) (words : Option (List (List Part))) (body : Script)
  | count (start condition step : List Part) (body : Script)
  | choose (word : List Part) (branches : List (List (List Part) × Script))
  | define (name : String) (body : Script)
  | calculate (expression : List Part)
  | condition (c : Condition)

end

abbrev Word := List Part

/-- The text of a word in which nothing is quoted or expanded. -/
def Word.plain? : Word → Option (List Char)
  | [] => some []
  | [.text chars false] => some chars
  | _ => none

def Word.bare : Word → List Char × Bool
  | [] => ([], false)
  | .text chars quoted :: rest =>
    let (more, quoted') := Word.bare rest
    (chars ++ more, quoted || quoted')
  | _ :: rest => Word.bare rest

end Shell

end ShaderReducer

/-!
## The text of scripts

A script is read from a text that gets shorter with each step. A document that a redirection
announces begins after the line of the redirection, so that it is noted until that line ends.
-/

namespace ShaderReducer

namespace Shell

/-- A document that is announced: its number, the line that ends it, whether tabs in front of its
lines are dropped, and whether something in it is expanded. -/
structure Announced where
  number : Nat
  delimiter : List Char
  dropsTabs : Bool
  expands : Bool
  deriving Repr, DecidableEq

/-- The text that is left to read, the number of the line where all of it ends, the documents that
are announced and those that were read. -/
structure Source where
  rest : List Char
  lastLine : Nat
  dialect : Dialect
  announced : List Announced := []
  documents : List (Nat × Word) := []
  nextDocument : Nat := 0

def newlines (cs : List Char) : Nat := cs.count '\n'

/-- A text with the number of its first document. -/
def Source.ofText (dialect : Dialect) (nextDocument : Nat) (cs : List Char) : Source :=
  { rest := cs, lastLine := newlines cs + 1, dialect, nextDocument }

def Source.line (s : Source) : Nat := s.lastLine - newlines s.rest

abbrev ReaderM (α : Type) : Type := StateT Source Option α

def ahead : ReaderM (List Char) := return (← get).rest

def goTo (rest : List Char) : ReaderM Unit := modify fun s => { s with rest := rest }

def isExtended : ReaderM Bool := return (← get).dialect == .extended

def accept (text : String) : ReaderM Bool := do
  let cs ← ahead
  if text.toList.isPrefixOf cs then
    goTo (cs.drop text.length)
    return true
  else return false

def demand (text : String) : ReaderM Unit := do
  if !(← accept text) then failure

def manyUpTo {α : Type} (step : ReaderM (Option α)) : Nat → ReaderM (List α)
  | 0 => failure
  | n + 1 => do
    match ← step with
    | none => return []
    | some a => return a :: (← manyUpTo step n)

/-- What a step reads as often as it reads something. It uses up a character each time. -/
def many {α : Type} (step : ReaderM (Option α)) : ReaderM (List α) := do
  manyUpTo step ((← ahead).length + 1)

/-! ## Characters -/

def isNameStart (c : Char) : Bool := c.isAlpha || c == '_'

def isNameChar (c : Char) : Bool := c.isAlphanum || c == '_'

def isName (cs : List Char) : Bool := cs.head?.any isNameStart && cs.all isNameChar

def isGap (c : Char) : Bool := c == ' ' || c == '\t'

/-- Whether a character ends a word that is not quoted. -/
def endsWord (c : Char) : Bool := isGap c || "\n;&|()<>".toList.contains c

def isSpecial (c : Char) : Bool := "\\'\"$\x60".toList.contains c

def isParameterSign (c : Char) : Bool := c.isDigit || "@*#?-$!".toList.contains c

def skipGaps : List Char → List Char
  | '\\' :: '\n' :: rest => skipGaps rest
  | '#' :: rest => rest.dropWhile (· != '\n')
  | c :: rest => if isGap c then skipGaps rest else c :: rest
  | [] => []

def skip : ReaderM Unit := modify fun s => { s with rest := skipGaps s.rest }

end Shell

end ShaderReducer
