import ShaderReducer.Shell.Source
import ShaderReducer.Text.Number
import ShaderReducer.Text.Utf8

/-!
# Regular expressions of utilities

An expression that texts are searched for. Of the ends that a match may have from some place the last
one counts. Among the ways to get there the first one counts, where an alternative comes before those
after it and a repetition goes on before it stops; this says what the groups of the match are.
-/

namespace ShaderReducer

namespace Utility

inductive Edge where
  | lineStart
  | lineEnd
  | textStart
  | textEnd
  | wordStart
  | wordEnd
  | word
  | noWord
  deriving Repr, DecidableEq

inductive Regular where
  | empty
  | any
  | set (negated : Bool) (ranges : List (Char × Char))
  | edge (kind : Edge)
  | group (number : Nat) (body : Regular)
  | sequence (first second : Regular)
  | choice (first second : Regular)
  | repeated (least : Nat) (most : Option Nat) (body : Regular)
  | copy (number : Nat)
  deriving Repr, DecidableEq

namespace Regular

def one (c : Char) : Regular := .set false [(c, c)]

def copies : Regular → Bool
  | .group _ r | .repeated _ _ r => r.copies
  | .sequence r s | .choice r s => r.copies || s.copies
  | .copy _ => true
  | _ => false

/-! ## Matching -/

/-- A text that is searched: its characters, whether upper and lower case are the same, whether lines
begin and end inside it, and whether copies of groups matter. -/
structure Subject where
  text : Array Char
  folds : Bool := false
  lines : Bool := false
  exact : Bool := false

structure Place where
  position : Nat
  groups : List (Nat × Nat × Nat) := []
  deriving Repr, DecidableEq

def Subject.agree (s : Subject) (p q : Place) : Bool :=
  p.position == q.position && (!s.exact || p.groups == q.groups)

/-- Places of which no two are the same; the first one of those that are counts. -/
def Subject.distinct (s : Subject) (places : List Place) : List Place :=
  (places.foldl (fun seen p => if seen.any (s.agree p) then seen else p :: seen) []).reverse

def inSet (ranges : List (Char × Char)) (c : Char) : Bool :=
  ranges.any fun r => r.1 ≤ c && c ≤ r.2

def Subject.holds (s : Subject) (negated : Bool) (ranges : List (Char × Char)) (c : Char) : Bool :=
  let found := inSet ranges c || (s.folds && (inSet ranges c.toLower || inSet ranges c.toUpper))
  found != negated

def Subject.wordAt (s : Subject) (position : Nat) : Bool :=
  (s.text[position]?).any Shell.isNameChar

def Subject.wordBefore (s : Subject) (position : Nat) : Bool :=
  match position with
  | 0 => false
  | n + 1 => s.wordAt n

def Subject.isAt (s : Subject) (position : Nat) : Edge → Bool
  | .textStart => position == 0
  | .textEnd => position == s.text.size
  | .lineStart =>
    position == 0 || (s.lines && s.text[position - 1]? == some '\n')
  | .lineEnd => position == s.text.size || (s.lines && s.text[position]? == some '\n')
  | .wordStart => s.wordAt position && !s.wordBefore position
  | .wordEnd => s.wordBefore position && !s.wordAt position
  | .word => s.wordAt position != s.wordBefore position
  | .noWord => s.wordAt position == s.wordBefore position

def Subject.hasAt (s : Subject) (position : Nat) : List Char → Bool
  | [] => true
  | c :: rest =>
    match s.text[position]? with
    | some d =>
      (c == d || (s.folds && c.toLower == d.toLower)) && s.hasAt (position + 1) rest
    | none => false

/-- The places that a repetition visits, and the ends among them, the last one first: from a place,
all places after one more turn are visited before it is an end itself. A turn that stands still only
counts as long as more turns are asked for. -/
def visit (s : Subject) (step : Place → List Place) (least : Nat) (most : Option Nat) :
    Nat → List (Nat × Place) → List Place → Nat → Place → List (Nat × Place) × List Place
  | 0, seen, ends, _, _ => (seen, ends)
  | fuel + 1, seen, ends, turns, p =>
    let count := if most.isSome then turns else min turns least
    if seen.any fun v => v.1 == count && s.agree v.2 p then (seen, ends)
    else
      let seen := (count, p) :: seen
      let mayGoOn := most.all fun n => turns < n
      let next := if mayGoOn then
          (step p).filter fun q => p.position < q.position || turns < least
        else []
      let (seen, ends) := next.foldl (fun (seen, ends) q =>
        visit s step least most fuel seen ends (turns + 1) q) (seen, ends)
      (seen, if least ≤ turns then p :: ends else ends)

/-- The places after characters of one kind, the farthest first. -/
def runOf (s : Subject) (isOne : Char → Bool) (least : Nat) (most : Option Nat) (p : Place) :
    List Place :=
  let rec count : Nat → Nat → Nat
    | 0, _ => 0
    | fuel + 1, position =>
      match s.text[position]? with
      | some c => if isOne c then count fuel (position + 1) + 1 else 0
      | none => 0
  let room := s.text.size - p.position
  let n := count (match most with
    | some m => min m room
    | none => room) p.position
  if n < least then []
  else (List.range (n - least + 1)).map fun i => { p with position := p.position + n - i }

/-- The places after a match that begins at a place, in the order in which they are preferred. -/
def ways (s : Subject) : Regular → Place → List Place
  | .empty, p => [p]
  | .any, p => if p.position < s.text.size then [{ p with position := p.position + 1 }] else []
  | .set negated ranges, p =>
    match s.text[p.position]? with
    | some c => if s.holds negated ranges c then [{ p with position := p.position + 1 }] else []
    | none => []
  | .edge kind, p => if s.isAt p.position kind then [p] else []
  | .group n r, p =>
    (ways s r p).map fun q => { q with
      groups := (n, p.position, q.position) :: q.groups.filter fun g => g.1 != n }
  | .sequence r r', p => s.distinct ((ways s r p).flatMap (ways s r'))
  | .choice r r', p => s.distinct (ways s r p ++ ways s r' p)
  | .copy n, p =>
    match p.groups.lookup n with
    | some (start, stop) =>
      let text := (s.text.extract start stop).toList
      if s.hasAt p.position text then [{ p with position := p.position + text.length }] else []
    | none => []
  | .repeated least most r, p =>
    match r with
    | .any => runOf s (fun _ => true) least most p
    | .set negated ranges => runOf s (s.holds negated ranges) least most p
    | r =>
      let fuel := s.text.size - p.position + least + 2
      (visit s (ways s r) least most fuel [] [] 0 p).2.reverse

/-- The last one of some places, and the first of those that are last. -/
def farthest? : List Place → Option Place
  | [] => none
  | p :: rest => some (rest.foldl (fun best q => if best.position < q.position then q else best) p)

structure Match where
  start : Nat
  stop : Nat
  groups : List (Nat × Nat × Nat)
  deriving Repr, DecidableEq

def matchAt? (s : Subject) (r : Regular) (position : Nat) : Option Match :=
  (farthest? (ways s r ⟨position, []⟩)).map fun p => ⟨position, p.position, p.groups⟩

def firstAt? (s : Subject) (r : Regular) : Nat → Nat → Option Match
  | 0, _ => none
  | fuel + 1, position =>
    match matchAt? s r position with
    | some m => some m
    | none => firstAt? s r fuel (position + 1)

def find? (s : Subject) (r : Regular) (start : Nat) : Option Match :=
  firstAt? s r (s.text.size + 1 - start) start

/-! ## Reading -/

/-- How expressions are written: in the long or the short form, and whether signs that make no sense
are taken as they are. -/
structure Style where
  extended : Bool
  lenient : Bool := false
  deriving Repr, DecidableEq

/-- What is left of the text of an expression, the number of groups that were begun, those that are
complete, and how many are open. -/
structure Unread where
  rest : List Char
  groups : Nat := 0
  closed : List Nat := []
  depth : Nat := 0

abbrev ReadM (α : Type) : Type := StateT Unread (Except String) α

def goTo (rest : List Char) : ReadM Unit := modify fun u => { u with rest := rest }

def classRanges? (name : String) : Option (List (Char × Char)) :=
  let upper := ('A', 'Z')
  let lower := ('a', 'z')
  let digit := ('0', '9')
  match name with
  | "alpha" => some [upper, lower]
  | "digit" => some [digit]
  | "alnum" => some [upper, lower, digit]
  | "upper" => some [upper]
  | "lower" => some [lower]
  | "space" => some [('\t', '\r'), (' ', ' ')]
  | "blank" => some [('\t', '\t'), (' ', ' ')]
  | "punct" => some [('!', '/'), (':', '@'), ('[', '\x60'), ('\x7b', '~')]
  | "print" => some [(' ', '~')]
  | "graph" => some [('!', '~')]
  | "cntrl" => some [('\x00', '\x1f'), ('\x7f', '\x7f')]
  | "xdigit" => some [digit, ('A', 'F'), ('a', 'f')]
  | _ => none

def wordRanges : List (Char × Char) := [('A', 'Z'), ('a', 'z'), ('0', '9'), ('_', '_')]

def unmatchedBracket : String := "Unmatched [, [^, [:, [., or [="

inductive Member where
  | class (ranges : List (Char × Char))
  | char (c : Char)

def upTo? (a b : Char) : List Char → Option (List Char × List Char)
  | [] => none
  | [_] => none
  | c :: d :: rest =>
    if c == a && d == b then some ([], rest)
    else (upTo? a b (d :: rest)).map fun (text, after) => (c :: text, after)

def member (cs : List Char) : Except String (Member × List Char) :=
  match cs with
  | '[' :: ':' :: rest =>
    match upTo? ':' ']' rest with
    | none => .error unmatchedBracket
    | some (name, rest) =>
      match classRanges? (String.ofList name) with
      | some ranges => .ok (.class ranges, rest)
      | none => .error "Invalid character class name"
  | '[' :: '.' :: rest =>
    match upTo? '.' ']' rest with
    | none => .error unmatchedBracket
    | some ([c], rest) => .ok (.char c, rest)
    | some _ => .error "Invalid collation character"
  | '[' :: '=' :: rest =>
    match upTo? '=' ']' rest with
    | none => .error unmatchedBracket
    | some ([c], rest) => .ok (.class [(c, c)], rest)
    | some _ => .error "Invalid collation character"
  | c :: rest => .ok (.char c, rest)
  | [] => .error unmatchedBracket

def members : Nat → Bool → List Char → Except String (List (Char × Char) × List Char)
  | 0, _, _ => .error unmatchedBracket
  | _, _, [] => .error unmatchedBracket
  | _, false, ']' :: rest => .ok ([], rest)
  | fuel + 1, isFirst, cs => do
    let isStray := !isFirst && cs.head? == some '-' && (cs.drop 1).head? != some ']'
    if isStray && (cs.drop 1).head? != some '-' then throw "Invalid range end"
    let (m, rest) ← member cs
    match rest with
    | '-' :: ']' :: _ | '-' :: [] =>
      let (more, rest) ← members fuel false rest
      return (rangesOf m ++ more, rest)
    | '-' :: rest => do
      let (n, rest) ← member rest
      match m, n with
      | .char a, .char b =>
        if b < a then throw "Invalid range end"
        let (more, rest) ← members fuel false rest
        return ((a, b) :: more, rest)
      | _, _ => throw "Invalid range end"
    | rest =>
      let (more, rest) ← members fuel false rest
      return (rangesOf m ++ more, rest)
where
  /-- The ranges of a member by itself. -/
  rangesOf : Member → List (Char × Char)
    | .class ranges => ranges
    | .char c => [(c, c)]

def bracket (cs : List Char) : Except String (Regular × List Char) := do
  let (negated, cs) := match cs with
    | '^' :: rest => (true, rest)
    | cs => (false, cs)
  let (ranges, rest) ← members (cs.length + 1) true cs
  return (.set negated ranges, rest)

def mostRepeated : Nat := 32767

inductive Interval where
  | count (least : Nat) (most : Option Nat) (rest : List Char)
  | text
  | error (reason : String)

def interval (style : Style) (cs : List Char) : Interval :=
  let invalid := "Invalid content of \\\x7b\\\x7d"
  let close? (cs : List Char) : Option (List Char) := match style.extended, cs with
    | true, '\x7d' :: rest => some rest
    | false, '\\' :: '\x7d' :: rest => some rest
    | _, _ => none
  let isEnd (cs : List Char) : Bool := cs.isEmpty || (close? cs).isSome || cs.head? == some ','
  -- A number up to its end, or nothing if there is something else.
  let number (cs : List Char) : Option (Option Nat) × List Char :=
    let digits := cs.takeWhile Char.isDigit
    let rest := cs.drop digits.length
    if isEnd rest then (some (Text.digits? 10 digits), rest) else (none, rest)
  let strict (rest : List Char) : Interval :=
    if style.extended && style.lenient then .text
    else if style.extended || !rest.any (· == '\\') then
      .error (if rest.contains '\x7d' then invalid else "Unmatched \\\x7b")
    else .error invalid
  match number cs with
  | (none, rest) => strict rest
  | (some low, rest) =>
    match rest with
    | ',' :: rest =>
      match number rest with
      | (none, rest) => strict rest
      | (some high, rest) =>
        match close? rest with
        | none => if rest.isEmpty then strict rest else .error invalid
        | some after =>
          let least := low.getD 0
          if high.any (· < least) then .error invalid
          else if mostRepeated < max least (high.getD 0) then .error "Regular expression too big"
          else .count least high after
    | rest =>
      match close? rest, low with
      | none, _ => strict rest
      | some _, none => .error invalid
      | some after, some n =>
        if mostRepeated < n then .error "Regular expression too big"
        else .count n (some n) after

def repetitions (style : Style) : Nat → Regular → ReadM Regular
  | 0, r => return r
  | fuel + 1, r => do
    let again (least : Nat) (most : Option Nat) (rest : List Char) : ReadM Regular := do
      goTo rest
      repetitions style fuel (.repeated least most r)
    let count (rest : List Char) : ReadM Regular := do
      match interval style rest with
      | .count least most rest => again least most rest
      | .text => return r
      | .error reason => throw reason
    match style.extended, (← get).rest with
    | _, '*' :: rest => again 0 none rest
    | true, '+' :: rest => again 1 none rest
    | true, '?' :: rest => again 0 (some 1) rest
    | true, '\x7b' :: rest => count rest
    | false, '\\' :: '+' :: rest => again 1 none rest
    | false, '\\' :: '?' :: rest => again 0 (some 1) rest
    | false, '\\' :: '\x7b' :: rest => count rest
    | _, _ => return r

/-- Reads what a backslash and a character stand for, where it is not a sign of the form. -/
def escaped (c : Char) : ReadM Regular := do
  match c with
  | 'w' => return .set false wordRanges
  | 'W' => return .set true wordRanges
  | 's' => return .set false [('\t', '\r'), (' ', ' ')]
  | 'S' => return .set true [('\t', '\r'), (' ', ' ')]
  | '<' => return .edge .wordStart
  | '>' => return .edge .wordEnd
  | 'b' => return .edge .word
  | 'B' => return .edge .noWord
  | '\x60' => return .edge .textStart
  | '\'' => return .edge .textEnd
  | c =>
    if '1' ≤ c && c ≤ '9' then
      let n := c.toNat - '0'.toNat
      if (← get).closed.contains n then return .copy n else throw "Invalid back reference"
    else return one c

def endsPart (style : Style) (depth : Nat) (cs : List Char) : Bool :=
  match style.extended, cs with
  | _, [] => true
  | true, '|' :: _ => true
  | true, ')' :: _ => depth != 0 || !style.lenient
  | false, '\\' :: '|' :: _ => true
  | false, '\\' :: ')' :: _ => true
  | _, _ => false

def groupAfter (style : Style) (inner : ReadM Regular) : ReadM Regular := do
  let u ← get
  let n := u.groups + 1
  modify fun u => { u with groups := n, depth := u.depth + 1 }
  let body ← inner
  let rest ← match style.extended, (← get).rest with
    | true, ')' :: rest => pure rest
    | false, '\\' :: ')' :: rest => pure rest
    | _, _ => throw "Unmatched ( or \\("
  modify fun v => { v with rest := rest, depth := u.depth, closed := n :: v.closed }
  return .group n body

/-- What is read first in a part of an expression; nothing if a sign of repetition stands there. -/
def atom (style : Style) (inner : ReadM Regular) (isFirst : Bool) : ReadM (Option Regular) := do
  let u ← get
  let take (r : Regular) (rest : List Char) : ReadM (Option Regular) := do
    goTo rest
    return some r
  match u.rest with
  | [] => return some .empty
  | '.' :: rest => take .any rest
  | '[' :: rest =>
    let (r, rest) ← bracket rest
    take r rest
  | '^' :: rest =>
    take (if style.extended || isFirst then .edge .lineStart else one '^') rest
  | '$' :: rest =>
    if style.extended || endsPart style u.depth rest then take (.edge .lineEnd) rest
    else take (one '$') rest
  | ['\\'] => throw "Trailing backslash"
  | '\\' :: c :: rest =>
    if !style.extended && c == '(' then
      goTo rest
      return some (← groupAfter style inner)
    else if !style.extended && c == '\x7b' && isFirst then
      if style.lenient then take (one c) rest else throw "Invalid preceding regular expression"
    else
      goTo rest
      return some (← escaped c)
  | '(' :: rest =>
    if style.extended then
      goTo rest
      return some (← groupAfter style inner)
    else take (one '(') rest
  | '*' :: rest => if style.extended then return none else take (one '*') rest
  | c :: rest =>
    let isSign := style.extended && (c == '+' || c == '?' || c == '\x7b')
    let isText := match c, interval style rest with
      | '\x7b', .text => true
      | _, _ => false
    if isSign && !isText then return none else take (one c) rest

/-- Reads a part of an expression without alternatives. -/
def part (style : Style) (inner : ReadM Regular) : Nat → Bool → ReadM Regular
  | 0, _ => return .empty
  | fuel + 1, isFirst => do
    let u ← get
    if endsPart style u.depth u.rest then return .empty
    let isEdge := isFirst && u.rest.head? == some '^'
    match ← atom style inner isFirst with
    | some r =>
      let r ← if isEdge && (style.extended || (← get).rest.head? == some '*') then pure r
        else repetitions style (u.rest.length + 1) r
      let rest ← part style inner fuel false
      return match rest with
        | .empty => r
        | rest => .sequence r rest
    | none =>
      if !style.lenient then throw "Invalid preceding regular expression"
      let r ← repetitions style (u.rest.length + 1) .empty
      let rest ← part style inner fuel false
      return .sequence r rest

def alternatives (style : Style) : Nat → Nat → ReadM Regular
  | 0, _ => throw "Regular expression too big"
  | _, 0 => throw "Regular expression too big"
  | depth + 1, fuel + 1 => do
    let first ← part style (alternatives style depth ((← get).rest.length + 1))
      ((← get).rest.length + 1) true
    match style.extended, (← get).rest with
    | true, '|' :: rest =>
      goTo rest
      return .choice first (← alternatives style (depth + 1) fuel)
    | false, '\\' :: '|' :: rest =>
      goTo rest
      return .choice first (← alternatives style (depth + 1) fuel)
    | _, _ => return first

def deepestGroup : Nat := 500

def ofText (style : Style) (cs : List Char) : Except String (Regular × Nat) := do
  let (r, u) ← (alternatives style deepestGroup (cs.length + 1)).run { rest := cs }
  match u.rest with
  | [] => return (r, u.groups)
  | _ => throw "Unmatched ) or \\)"

def Subject.ofText (r : Regular) (folds lines : Bool) (cs : List Char) : Subject :=
  { text := cs.toArray, folds, lines, exact := r.copies }

end Regular

end Utility

end ShaderReducer
