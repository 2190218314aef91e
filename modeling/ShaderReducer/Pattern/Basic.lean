import ShaderReducer.Text.Blank
import ShaderReducer.Text.Word

/-!
# Patterns

Patterns for texts, and whether a text contains a part that matches one. A match is a way from a
position in the text to another one; a pattern answers with all positions that it leads to, so that
only finitely many have to be kept however often a part is repeated.
-/

namespace ShaderReducer

inductive CharSet where
  | none
  | range (first last : Char)
  | digit
  | blank
  | word
  | union (a b : CharSet)
  | inter (a b : CharSet)
  | complement (a : CharSet)
  deriving Repr, DecidableEq

namespace CharSet

def single (c : Char) : CharSet := range c c

def anyInLine : CharSet := complement (single '\n')

def contains : CharSet → Char → Bool
  | none, _ => false
  | range first last, c => first ≤ c && c ≤ last
  | digit, c => Text.isDecimalDigit c
  | blank, c => Text.isBlank c
  | word, c => Text.isWordChar c
  | union a b, c => a.contains c || b.contains c
  | inter a b, c => a.contains c && b.contains c
  | complement a, c => !a.contains c

end CharSet

inductive WordEdge where
  | edge
  | noEdge
  | start
  | finish
  | noWordBefore
  | noWordAfter
  deriving Repr, DecidableEq

/-- Whether words meet what is between them in some way, given whether there is a word before and
whether there is one after. -/
def WordEdge.holds : WordEdge → Bool → Bool → Bool
  | edge, before, after => before != after
  | noEdge, before, after => before == after
  | start, before, after => !before && after
  | finish, before, after => before && !after
  | noWordBefore, before, _ => !before
  | noWordAfter, _, after => !after

inductive Pattern where
  | empty
  | char (set : CharSet)
  | textStart
  | textEnd
  | wordEdge (kind : WordEdge)
  | seq (first second : Pattern)
  | either (first second : Pattern)
  | group (body : Pattern)
  /-- A pattern at least and at most so many times, if there is a bound. -/
  | repeated (body : Pattern) (least : Nat) (most : Option Nat)
  deriving Repr, DecidableEq

namespace Pattern

def sequence : List Pattern → Pattern
  | [] => empty
  | [p] => p
  | p :: q :: rest => seq p (sequence (q :: rest))

def choice : List Pattern → Pattern
  | [] => empty
  | [p] => p
  | p :: q :: rest => either p (choice (q :: rest))

structure Position where
  before : Option Char
  ahead : List Char
  left : Nat
  deriving Repr, DecidableEq

namespace Position

def ofText (text : List Char) : Position := ⟨none, text, text.length⟩

def isAt (p : Position) (kind : WordEdge) : Bool :=
  kind.holds (p.before.any Text.isWordChar) (p.ahead.head?.any Text.isWordChar)

def advance? (p : Position) (set : CharSet) : Option Position :=
  match p.ahead with
  | c :: rest => if set.contains c then some ⟨some c, rest, p.left - 1⟩ else none
  | [] => none

/-- The positions of two lists, each of which goes forward in the text; so does the result. -/
def merge (ps qs : List Position) : List Position :=
  match ps, qs with
  | [], qs => qs
  | ps, [] => ps
  | p :: ps, q :: qs =>
    if q.left < p.left then p :: merge ps (q :: qs)
    else if p.left < q.left then q :: merge (p :: ps) qs
    else p :: merge ps qs
termination_by ps.length + qs.length

end Position

/-- The positions that repeated steps lead to from some positions, which go forward in the text. A
step that does not go forward adds nothing, so that each position is left behind once. -/
def closure (step : Position → List Position) : Nat → List Position → List Position
  | 0, _ => []
  | _, [] => []
  | rounds + 1, p :: rest =>
    p :: closure step rounds (Position.merge rest ((step p).filter fun q => q.left < p.left))

def advance (step : Position → List Position) (positions : List Position) : List Position :=
  positions.foldl (fun found q => Position.merge found (step q)) []

/-- The positions that exactly so many steps lead to. Where a step changes nothing, no further one
does. -/
def exactly (step : Position → List Position) : Nat → List Position → List Position
  | 0, positions => positions
  | n + 1, positions =>
    let next := advance step positions
    if next = positions then positions else exactly step n next

/-- The positions that at most so many steps lead to. -/
def atMost (step : Position → List Position) : Nat → List Position → List Position
  | 0, positions => positions
  | n + 1, positions =>
    let next := Position.merge positions (advance step positions)
    if next = positions then positions else atMost step n next

/-- The positions that a pattern leads to from a position, each later in the text than the one
before. -/
def reach : Pattern → Position → List Position
  | empty, p => [p]
  | char set, p => (p.advance? set).toList
  | textStart, p => if p.before.isNone then [p] else []
  | textEnd, p => if p.ahead.isEmpty then [p] else []
  | wordEdge kind, p => if p.isAt kind then [p] else []
  | seq first second, p => advance second.reach (first.reach p)
  | either first second, p => Position.merge (first.reach p) (second.reach p)
  | group body, p => body.reach p
  | repeated body least most, p =>
    let start := exactly body.reach least [p]
    match most with
    | none => closure body.reach (p.left + 1) start
    | some n => atMost body.reach (n - least) start

def matchesFrom (pattern : Pattern) (before : Option Char) (left : Nat) : List Char → Bool
  | [] => !(pattern.reach ⟨before, [], left⟩).isEmpty
  | c :: rest =>
    !(pattern.reach ⟨before, c :: rest, left⟩).isEmpty ||
      matchesFrom pattern (some c) (left - 1) rest

def occursIn (pattern : Pattern) (text : List Char) : Bool :=
  matchesFrom pattern none text.length text

end Pattern

end ShaderReducer
