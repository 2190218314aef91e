import ShaderReducer.Pattern.Basic

/-!
# The room that patterns take

A pattern that would make a large automaton is refused. The size of the automaton is known without
making it: a set of characters is a tree of bytes that is followed backwards, and what is repeated
is there as often as it may be repeated.
-/

namespace ShaderReducer

namespace CharSet

def lastNumber : Nat := 0x10FFFF

def gaps (least : Nat) : List (Nat × Nat) → List (Nat × Nat)
  | [] => if least ≤ lastNumber then [(least, lastNumber)] else []
  | (first, last) :: rest =>
    if least < first then (least, first - 1) :: gaps (last + 1) rest else gaps (last + 1) rest

/-- Ranges in order, where ranges without a gap between them are one. -/
def joinRanges : List (Nat × Nat) → List (Nat × Nat)
  | [] => []
  | [r] => [r]
  | (first, last) :: (first', last') :: rest =>
    if first' ≤ last + 1 then joinRanges ((first, max last last') :: rest)
    else (first, last) :: joinRanges ((first', last') :: rest)
termination_by ranges => ranges.length

def unionRanges (a b : List (Nat × Nat)) : List (Nat × Nat) :=
  joinRanges (List.merge a b fun r s => r.1 ≤ s.1)

/-- The ranges of the numbers of the characters in a set, in order and with gaps between them. -/
def ranges : CharSet → List (Nat × Nat)
  | none => []
  | range first last => if first ≤ last then [(first.toNat, last.toNat)] else []
  | digit => Text.digitRanges
  | blank => Text.blankRanges
  | word => Text.wordRanges
  | union a b => unionRanges a.ranges b.ranges
  | inter a b => gaps 0 (unionRanges (gaps 0 a.ranges) (gaps 0 b.ranges))
  | complement a => gaps 0 a.ranges

def rows : Nat → Nat → Nat → List (List (Nat × Nat))
  | 0, first, last => [[(first, last)]]
  | n + 1, first, last =>
    let unit := Nat.pow 64 (n + 1)
    let low := first / unit
    let high := last / unit
    if low = high then
      (rows n (first % unit) (last % unit)).map fun row => (low, low) :: row
    else
      let lowCut := first % unit ≠ 0
      let highCut := last % unit ≠ unit - 1
      let low' := if lowCut then low + 1 else low
      let high' := if highCut then high - 1 else high
      (if lowCut then (rows n (first % unit) (unit - 1)).map fun row => (low, low) :: row
        else []) ++
      (if low' ≤ high' then [(low', high') :: List.replicate (n + 1) (0, 63)] else []) ++
      (if highCut then (rows n 0 (last % unit)).map fun row => (high, high) :: row else [])

def lengthClasses : List (Nat × Nat × Nat) :=
  [(0, 0, 0x7F), (1, 0x80, 0x7FF), (2, 0x800, 0xD7FF), (2, 0xE000, 0xFFFF),
   (3, 0x10000, lastNumber)]

def shared : List (Nat × Nat) → List (Nat × Nat) → Nat
  | r :: rest, s :: rest' => if r = s then shared rest rest' + 1 else 0
  | _, _ => 0

def nodes (before : List (Nat × Nat)) : List (List (Nat × Nat)) → Nat
  | [] => 0
  | row :: rest => row.length - shared before row + nodes row rest

def stateRoom : Nat := 32

def room (s : CharSet) : Nat :=
  let rs := s.ranges
  if rs.isEmpty then stateRoom
  else if rs.all fun r => r.2 < 0x80 then
    if rs.map (fun r => r.2 - r.1) = [0] then stateRoom else 2 * stateRoom + 8 * rs.length
  else
    let classes := lengthClasses.map fun (n, low, high) => rs.flatMap fun (first, last) =>
      if max first low ≤ min last high then rows n (max first low) (min last high) else []
    let nodes := (classes.map (nodes [])).foldl (· + ·) 0
    let ends := (classes.map List.length).foldl (· + ·) 0
    if ends = 1 && rs.map (fun r => r.2 - r.1) = [0] then nodes * stateRoom
    else (2 + nodes) * stateRoom + 4 * ends

end CharSet

namespace Pattern

/-- Whether a pattern matches nothing but the empty text. -/
def onlyEmpty : Pattern → Bool
  | empty | textStart | textEnd | wordEdge _ => true
  | char _ => false
  | seq p q | either p q => p.onlyEmpty && q.onlyEmpty
  | group p => p.onlyEmpty
  | repeated p _ most => p.onlyEmpty || most == some 0

/-- The bytes that a pattern takes. What matches only the empty text is repeated once at most. -/
def room : Pattern → Nat
  | empty | textStart | textEnd | wordEdge _ => CharSet.stateRoom
  | char s => s.room
  | seq p q => p.room + q.room
  | either p q => p.room + q.room + 2 * CharSet.stateRoom + 8
  | group p => p.room + 2 * CharSet.stateRoom
  | repeated p least most =>
    let least := if p.onlyEmpty then min least 1 else least
    let most := if p.onlyEmpty then some (min (most.getD 1) 1) else most
    let branch := CharSet.stateRoom + 8
    match most with
    | none => max least 1 * p.room + branch
    | some most =>
      least * p.room + (most - least) * (p.room + branch) +
        if least = most && least ≠ 0 then 0 else CharSet.stateRoom

def mostRoom : Nat := 10 * 1024 * 1024

def ownRoom : Nat := 208

/-- Whether a pattern takes no more bytes than it may. -/
def fits (p : Pattern) : Bool := p.room + ownRoom ≤ mostRoom

end Pattern

end ShaderReducer
