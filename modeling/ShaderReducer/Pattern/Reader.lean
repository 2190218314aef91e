import ShaderReducer.Pattern.Room
import ShaderReducer.Text.Number

/-!
# Reading patterns

The text of a pattern is read in two steps: into signs, each of which is a set of characters, an
edge, a bracket, a bar or a repetition, and from the signs into a pattern. A text that is no pattern
has none, and so has one that goes too deep or takes too much room.
-/

namespace ShaderReducer

namespace Pattern

inductive Sign where
  | item (p : Pattern) (depth : Nat)
  | openGroup (captures : Bool) (name : Option (List Char))
  | closeGroup
  | bar
  | repetition (least : Nat) (most : Option Nat)
  deriving Repr, DecidableEq

/-! ## Escapes and classes -/

inductive Escape where
  | set (s : CharSet)
  | edge (p : Pattern)
  deriving Repr, DecidableEq

def isEscapable (c : Char) : Bool :=
  c.toNat < 0x80 && !c.isAlphanum && c != '<' && c != '>'

def codePoint? (digits : Nat) (cs : List Char) : Option (Char × List Char) := do
  let (text, rest) ← match cs with
    | '\x7b' :: rest => do
      match rest.dropWhile (· != '\x7d') with
      | _ :: after => some (rest.takeWhile (· != '\x7d'), after)
      | [] => none
    | _ => if digits ≤ cs.length then some (cs.take digits, cs.drop digits) else none
  let n ← Text.digits? 16 text
  if h : n.isValidChar then some (Char.ofNatAux n h, rest) else none

def isEdgeChar (c : Char) : Bool := c.isAlpha || c == '-'

/-- The edge that `b` stands for after a backslash, which a name in braces may restrict. Braces that
do not begin like a name belong to a repetition. -/
def edge? (cs : List Char) : Option (WordEdge × List Char) :=
  match cs with
  | '\x7b' :: rest =>
    let name := rest.takeWhile isEdgeChar
    match rest.drop name.length with
    | [] => none
    | c :: after =>
      if name.isEmpty then some (.edge, cs)
      else if c ≠ '\x7d' then none
      else match String.ofList name with
        | "start" => some (.start, after)
        | "end" => some (.finish, after)
        | "start-half" => some (.noWordBefore, after)
        | "end-half" => some (.noWordAfter, after)
        | _ => none
  | _ => some (.edge, cs)

def escape? : List Char → Option (Escape × List Char)
  | [] => none
  | c :: rest =>
    let set (s : CharSet) : Option (Escape × List Char) := some (.set s, rest)
    let edge (p : Pattern) : Option (Escape × List Char) := some (.edge p, rest)
    let code (digits : Nat) : Option (Escape × List Char) :=
      (codePoint? digits rest).map fun (c, rest) => (.set (.single c), rest)
    match c with
    | 'd' => set .digit
    | 'D' => set (.complement .digit)
    | 's' => set .blank
    | 'S' => set (.complement .blank)
    | 'w' => set .word
    | 'W' => set (.complement .word)
    | 'n' => set (.single '\n')
    | 't' => set (.single '\t')
    | 'r' => set (.single '\r')
    | 'a' => set (.single '\x07')
    | 'f' => set (.single '\x0c')
    | 'v' => set (.single '\x0b')
    | 'x' => code 2
    | 'u' => code 4
    | 'U' => code 8
    | 'b' => (edge? rest).map fun (kind, rest) => (.edge (.wordEdge kind), rest)
    | 'B' => edge (.wordEdge .noEdge)
    | '<' => edge (.wordEdge .start)
    | '>' => edge (.wordEdge .finish)
    | 'A' => edge .textStart
    | 'z' => edge .textEnd
    | c => if isEscapable c then set (.single c) else none

def onlyChar? : CharSet → Option Char
  | .range first last => if first = last then some first else none
  | _ => none

def classItem? : List Char → Option (CharSet × List Char)
  | '\\' :: rest => do
    match ← escape? rest with
    | (.set s, rest) => some (s, rest)
    | (.edge _, _) => none
  | c :: rest => some (.single c, rest)
  | [] => none

/-- How the sets on both sides of a sign in a class are joined. -/
inductive Joint where
  | union
  | inter
  | minus
  | apart
  deriving Repr, DecidableEq

def Joint.apply : Joint → CharSet → CharSet → CharSet
  | union, a, b => .union a b
  | inter, a, b => .inter a b
  | minus, a, b => .inter a (.complement b)
  | apart, a, b => .union (.inter a (.complement b)) (.inter b (.complement a))

def namedSet? (name : String) : Option CharSet :=
  let numeral : CharSet := .range '0' '9'
  let lower : CharSet := .range 'a' 'z'
  let upper : CharSet := .range 'A' 'Z'
  let alpha : CharSet := .union lower upper
  let alnum : CharSet := .union alpha numeral
  match name with
  | "alnum" => some alnum
  | "alpha" => some alpha
  | "ascii" => some (.range '\x00' '\x7f')
  | "blank" => some (.union (.single ' ') (.single '\t'))
  | "cntrl" => some (.union (.range '\x00' '\x1f') (.single '\x7f'))
  | "digit" => some numeral
  | "graph" => some (.range '!' '~')
  | "lower" => some lower
  | "print" => some (.range ' ' '~')
  | "punct" => some (.inter (.range '!' '~') (.complement alnum))
  | "space" => some (.union (.single ' ') (.range '\t' '\r'))
  | "upper" => some upper
  | "word" => some (.union alnum (.single '_'))
  | "xdigit" => some (.union numeral (.union (.range 'a' 'f') (.range 'A' 'F')))
  | _ => none

def named? (cs : List Char) : Option (CharSet × List Char) := do
  match cs with
  | ':' :: rest =>
    let negated := rest.head? == some '^'
    let rest := if negated then rest.drop 1 else rest
    let name := rest.takeWhile Char.isAlpha
    match rest.drop name.length with
    | ':' :: ']' :: rest =>
      let s ← namedSet? (String.ofList name)
      some (if negated then .complement s else s, rest)
    | _ => none
  | _ => none

/-- A class that is being read: what stands before the last sign that joins sets, and the union of
what stands after it. A depth counts the classes, unions and joints that are inside each other. -/
structure ClassDraft where
  joined : Option (CharSet × Nat × Joint) := none
  set : CharSet := .none
  items : Nat := 0
  depth : Nat := 0

def ClassDraft.add (d : ClassDraft) (s : CharSet) (depth : Nat) : ClassDraft :=
  { d with set := .union d.set s, items := d.items + 1, depth := max d.depth depth }

def ClassDraft.close (d : ClassDraft) : CharSet × Nat :=
  let depth := if d.items < 2 then d.depth else d.depth + 1
  match d.joined with
  | none => (d.set, depth)
  | some (left, leftDepth, joint) => (joint.apply left d.set, max leftDepth depth + 1)

def ClassDraft.join (d : ClassDraft) (joint : Joint) : ClassDraft :=
  let (set, depth) := d.close
  { joined := some (set, depth, joint) }

mutual

def classRest? (draft : ClassDraft) : Nat → List Char → Option ((CharSet × Nat) × List Char)
  | 0, _ => none
  | _, [] => none
  | _, ']' :: rest => some (draft.close, rest)
  | fuel + 1, '&' :: '&' :: rest => classRest? (draft.join .inter) fuel rest
  | fuel + 1, '-' :: '-' :: rest => classRest? (draft.join .minus) fuel rest
  | fuel + 1, '~' :: '~' :: rest => classRest? (draft.join .apart) fuel rest
  | fuel + 1, '[' :: rest =>
    match named? rest with
    | some (s, rest) => classRest? (draft.add s 0) fuel rest
    | none => do
      let ((s, depth), rest) ← class? fuel rest
      classRest? (draft.add s depth) fuel rest
  | fuel + 1, cs => do
    let (s, rest) ← classItem? cs
    match rest with
    | '-' :: next :: _ =>
      if next == ']' || next == '-' then classRest? (draft.add s 0) fuel rest
      else
        let (t, rest) ← classItem? (rest.drop 1)
        let first ← onlyChar? s
        let last ← onlyChar? t
        if first ≤ last then classRest? (draft.add (.range first last) 0) fuel rest else none
    | _ => classRest? (draft.add s 0) fuel rest

/-- A class after its opening bracket, with its depth. Hyphens at its beginning and a closing
bracket before all else stand for themselves. -/
def class? : Nat → List Char → Option ((CharSet × Nat) × List Char)
  | 0, _ => none
  | fuel + 1, cs => do
    let negated := cs.head? == some '^'
    let cs := if negated then cs.drop 1 else cs
    let rest := cs.dropWhile (· == '-')
    let hyphens := cs.length - rest.length
    let draft : ClassDraft :=
      if hyphens = 0 then {} else { set := .single '-', items := hyphens }
    let ((s, depth), rest) ← match rest with
      | ']' :: after =>
        if hyphens = 0 then classRest? (draft.add (.single ']') 0) fuel after
        else classRest? draft fuel rest
      | _ => classRest? draft fuel rest
    some ((if negated then .complement s else s, depth + 1), rest)

end

/-! ## Signs -/

def bound? (cs : List Char) : Option (Nat × List Char) := do
  let cs := cs.dropWhile Text.isBlank
  let digits := cs.takeWhile Char.isDigit
  let n ← Text.natural? 10 32 digits
  some (n, (cs.drop digits.length).dropWhile Text.isBlank)

def counted? (cs : List Char) : Option (Sign × List Char) := do
  let (least, rest) ← bound? cs
  match rest with
  | '\x7d' :: rest => some (.repetition least (some least), rest)
  | ',' :: rest =>
    match rest.dropWhile Text.isBlank with
    | '\x7d' :: rest => some (.repetition least none, rest)
    | rest => do
      let (most, rest) ← bound? rest
      match rest with
      | '\x7d' :: rest => if least ≤ most then some (.repetition least (some most), rest) else none
      | _ => none
  | _ => none

/-- The text after a sign for a repetition, which may prefer few repetitions: that does not change
what is matched. -/
def skipPreference (cs : List Char) : List Char :=
  match cs with
  | '?' :: rest => rest
  | _ => cs

def isGroupName (name : List Char) : Bool :=
  match name with
  | [] => false
  | c :: rest =>
    Text.isWordChar c && !Text.isDecimalDigit c && rest.all fun c =>
      Text.isWordChar c || c == '.' || c == '[' || c == ']'

def groupStart? (cs : List Char) : Option (Sign × List Char) :=
  let named (rest : List Char) : Option (Sign × List Char) :=
    let name := rest.takeWhile (· != '>')
    if isGroupName name && name.length < rest.length then
      some (.openGroup true (some name), rest.drop (name.length + 1))
    else none
  match cs with
  | '?' :: ':' :: rest => some (.openGroup false none, rest)
  | '?' :: 'P' :: '<' :: rest => named rest
  | '?' :: '<' :: rest => named rest
  | '?' :: _ => none
  | _ => some (.openGroup true none, cs)

/-- The first sign of a text, and the text after it. -/
def sign? : List Char → Option (Sign × List Char)
  | [] => none
  | c :: rest =>
    match c with
    | '(' => groupStart? rest
    | ')' => some (.closeGroup, rest)
    | '|' => some (.bar, rest)
    | '*' => some (.repetition 0 none, skipPreference rest)
    | '+' => some (.repetition 1 none, skipPreference rest)
    | '?' => some (.repetition 0 (some 1), skipPreference rest)
    | '\x7b' => (counted? rest).map fun (s, rest) => (s, skipPreference rest)
    | '^' => some (.item .textStart 0, rest)
    | '$' => some (.item .textEnd 0, rest)
    | '.' => some (.item (.char .anyInLine) 0, rest)
    | '[' => (class? (rest.length + 1) rest).map fun ((s, depth), rest) =>
      (.item (.char s) depth, rest)
    | '\\' => (escape? rest).map fun
      | (.set s, rest) => (.item (.char s) 0, rest)
      | (.edge p, rest) => (.item p 0, rest)
    | c => some (.item (.char (.single c)) 0, rest)

/-- The signs of a text. There are no more of them than characters. -/
def signs? : Nat → List Char → Option (List Sign)
  | _, [] => some []
  | 0, _ => none
  | fuel + 1, cs => do
    let (s, rest) ← sign? cs
    return s :: (← signs? fuel rest)

/-! ## Patterns -/

/-- A pattern with the number of groups, repetitions, alternatives and rows that are inside each
other in it. -/
structure Nested where
  pattern : Pattern
  depth : Nat
  deriving Repr, DecidableEq

def deepest : Nat := 250

def Nested.row (parts : List Nested) : Nested :=
  match parts with
  | [p] => p
  | _ =>
    ⟨sequence (parts.reverse.map Nested.pattern),
      if parts.isEmpty then 0 else (parts.map Nested.depth).foldl max 0 + 1⟩

def Nested.alternatives (parts : List Nested) : Nested :=
  match parts with
  | [p] => p
  | _ => ⟨choice (parts.reverse.map Nested.pattern), (parts.map Nested.depth).foldl max 0 + 1⟩

/-- A group that is being read: whether it is kept what it matches, the alternatives before the last
bar, and the patterns after it, each with the last one first. -/
structure Frame where
  captures : Bool := false
  alternatives : List Nested := []
  current : List Nested := []
  deriving Repr, DecidableEq

def Frame.close (f : Frame) : Nested :=
  Nested.alternatives (Nested.row f.current :: f.alternatives)

def Frame.asPart (f : Frame) : Nested :=
  let body := f.close
  ⟨if f.captures then .group body.pattern else body.pattern, body.depth + 1⟩

def Frame.add (f : Frame) (p : Nested) : Frame := { f with current := p :: f.current }

/-- The pattern that signs stand for, given the group that is being read and those around it. -/
def ofSigns? (frame : Frame) (around : List Frame) : List Sign → Option Nested
  | [] => if around.isEmpty then some frame.close else none
  | .item p depth :: rest => ofSigns? (frame.add ⟨p, depth⟩) around rest
  | .openGroup captures _ :: rest => ofSigns? { captures := captures } (frame :: around) rest
  | .closeGroup :: rest =>
    match around with
    | [] => none
    | outer :: around => ofSigns? (outer.add frame.asPart) around rest
  | .bar :: rest =>
    ofSigns? { frame with
      alternatives := Nested.row frame.current :: frame.alternatives
      current := [] } around rest
  | .repetition least most :: rest =>
    match frame.current with
    | [] => none
    | p :: before =>
      let part : Nested := ⟨.repeated p.pattern least most, p.depth + 1⟩
      ofSigns? { frame with current := part :: before } around rest

def Sign.groupName? : Sign → Option (List Char)
  | .openGroup _ name => name
  | _ => none

/-- The pattern that a text stands for. No two of its groups have one name. -/
def parse? (text : String) : Option Pattern := do
  let signs ← signs? text.length text.toList
  let nested ← ofSigns? {} [] signs
  if (signs.filterMap Sign.groupName?).Nodup ∧ nested.depth ≤ deepest ∧ nested.pattern.fits then
    some nested.pattern
  else none

end Pattern

end ShaderReducer
