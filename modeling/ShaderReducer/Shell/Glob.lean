import ShaderReducer.Shell.Session
import ShaderReducer.Text.Number

/-!
# Patterns of names

Patterns with wildcards, which match a text as a whole. They choose branches, cut values, and stand
for the names of files. A sign that is quoted stands for itself.
-/

namespace ShaderReducer

namespace Shell

abbrev Marked := List (Char × Bool)

namespace Glob

inductive Member where
  | range (first last : Char)
  | named (name : String)
  deriving Repr, DecidableEq

inductive Item where
  | any
  | one
  | char (c : Char)
  | set (negated : Bool) (members : List Member)
  deriving Repr, DecidableEq

def inClass? (name : String) (c : Char) : Option Bool :=
  match name with
  | "alnum" => some c.isAlphanum
  | "alpha" => some c.isAlpha
  | "blank" => some (c == ' ' || c == '\t')
  | "cntrl" => some (c.toNat < 0x20 || c.toNat == 0x7F)
  | "digit" => some c.isDigit
  | "graph" => some (Octets.isGraph c)
  | "lower" => some c.isLower
  | "print" => some (c == ' ' || Octets.isGraph c)
  | "punct" => some (Octets.isGraph c && !c.isAlphanum)
  | "space" => some (Octets.isSpace c)
  | "upper" => some c.isUpper
  | "xdigit" => some (Text.digitValue? c).isSome
  | _ => none

def Member.holds (c : Char) : Member → Bool
  | range first last => first ≤ c && c ≤ last
  | named name => (inClass? name c).getD false

/-- The members of a set up to its closing bracket, which is not the first member, and what
follows. -/
def members? : Nat → Bool → Marked → Option (List Member × Marked)
  | 0, _, _ => none
  | _, _, [] => none
  | fuel + 1, atStart, (c, quoted) :: rest =>
    if c == ']' && !quoted && !atStart then some ([], rest)
    else
      let withMember (m : Member) (rest : Marked) : Option (List Member × Marked) :=
        (members? fuel false rest).map fun (ms, after) => (m :: ms, after)
      let plain : Option (List Member × Marked) :=
        let (c, rest) := match c, quoted, rest with
          | '\\', false, (d, _) :: rest => (d, rest)
          | _, _, _ => (c, rest)
        match rest with
        | ('-', false) :: (d, quoted') :: after =>
          if d == ']' && !quoted' then withMember (.range c c) rest
          else match d, quoted', after with
            | '\\', false, (d, _) :: after => withMember (.range c d) after
            | _, _, _ => withMember (.range c d) after
        | _ => withMember (.range c c) rest
      match c, quoted, rest with
      | '[', false, (':', _) :: after =>
        let name := (after.map Prod.fst).takeWhile Char.isAlpha
        match (after.drop name.length).map Prod.fst with
        | ':' :: ']' :: _ =>
          let name := String.ofList name
          if (inClass? name 'a').isSome then withMember (.named name) (after.drop (name.length + 2))
          else plain
        | _ => plain
      | _, _, _ => plain

def itemsIn : Nat → Marked → List Item
  | 0, _ => []
  | _, [] => []
  | fuel + 1, (c, quoted) :: rest =>
    if quoted then .char c :: itemsIn fuel rest
    else match c with
      | '*' => .any :: itemsIn fuel rest
      | '?' => .one :: itemsIn fuel rest
      | '[' =>
        let (negated, body) := match rest with
          | ('!', false) :: rest => (true, rest)
          | _ => (false, rest)
        match members? (body.length + 1) true body with
        | some (ms, after) => .set negated ms :: itemsIn fuel after
        | none => .char '[' :: itemsIn fuel rest
      | '\\' =>
        match rest with
        | (d, _) :: rest => .char d :: itemsIn fuel rest
        | [] => [.char '\\']
      | c => .char c :: itemsIn fuel rest

def items (pattern : Marked) : List Item := itemsIn pattern.length pattern

def Item.holds (c : Char) : Item → Bool
  | any | one => true
  | char d => c == d
  | set negated ms => ms.any (·.holds c) != negated

def matchesAll : List Item → List Char → Bool
  | [], cs => cs.isEmpty
  | .any :: rest, [] => matchesAll rest []
  | .any :: rest, c :: cs => matchesAll rest (c :: cs) || matchesAll (.any :: rest) cs
  | _ :: _, [] => false
  | i :: rest, c :: cs => i.holds c && matchesAll rest cs
termination_by is cs => is.length + cs.length

def covers (pattern : Marked) (text : List Char) : Bool :=
  matchesAll (items pattern) text

def isActive (pattern : Marked) : Bool :=
  (items pattern).any fun
    | .char _ => false
    | _ => true

/-! ## Names of files -/

def segments : Marked → List Marked
  | [] => [[]]
  | (c, quoted) :: rest =>
    match segments rest with
    | [] => [[(c, quoted)]]
    | s :: more => if c == '/' then [] :: s :: more else ((c, quoted) :: s) :: more

def namesIn (disk : Disk) (directory : String) : List String :=
  match disk.locate (pathOf directory) with
  | .error _ => []
  | .ok location =>
    let names := (disk.below location).filterMap fun (l, _) =>
      if l.length = location.length + 1 then l.getLast? else none
    (names.map Octets.encode).mergeSort (· ≤ ·)

def isThere (disk : Disk) (name : String) : Bool :=
  match disk.entry (pathOf name) with
  | .ok _ => true
  | .error _ => false

def pathsFrom (disk : Disk) (start : String) : List Marked → List String
  | [] => [start]
  | part :: rest =>
    let plain := String.ofList (part.map Prod.fst)
    let found :=
      if isActive part then
        let hidden := plain.toList.head? == some '.'
        let names := (if hidden then [".", ".."] else []) ++
          namesIn disk (if start.isEmpty then "." else start)
        (names.filter fun n =>
          (hidden || n.toList.head? != some '.') && covers part n.toList).map (start ++ ·)
      else [start ++ plain]
    if rest.isEmpty then found.filter (isThere disk)
    else
      let directories := if isActive part then found.filter fun p => disk.isDirectory (pathOf p)
        else found
      directories.flatMap fun p => pathsFrom disk (p ++ "/") rest

def paths (disk : Disk) (pattern : Marked) : List String :=
  if isActive pattern then (pathsFrom disk "" (segments pattern)).mergeSort (· ≤ ·) else []

end Glob

end Shell

end ShaderReducer
