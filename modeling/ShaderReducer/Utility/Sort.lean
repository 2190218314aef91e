import ShaderReducer.Utility.Arguments

/-!
# Order of lines

Sorting lines by keys, taking repeated lines away, and comparing sorted files. Lines are in the order
of their octets where nothing else is asked for.
-/

namespace ShaderReducer

namespace Utility

open Shell

/-! ## Numbers in lines -/

/-- A decimal number: its sign, the digits before the point without zeros in front, and those after it
without zeros at the end. -/
structure DecimalText where
  negative : Bool
  whole : List Char
  part : List Char

/-- The number that a text begins with, after blanks. Without digits it is zero. -/
def DecimalText.ofText (cs : List Char) : DecimalText :=
  let cs := cs.dropWhile isGap
  let (negative, cs) := match cs with
    | '-' :: rest => (true, rest)
    | cs => (false, cs)
  let whole := cs.takeWhile Char.isDigit
  let part := match cs.drop whole.length with
    | '.' :: rest => rest.takeWhile Char.isDigit
    | _ => []
  let whole := whole.dropWhile (· == '0')
  let part := (part.reverse.dropWhile (· == '0')).reverse
  ⟨negative && !(whole.isEmpty && part.isEmpty), whole, part⟩

def compareTexts : List Char → List Char → Ordering
  | [], [] => .eq
  | [], _ => .lt
  | _, [] => .gt
  | a :: as, b :: bs =>
    if a < b then .lt else if b < a then .gt else compareTexts as bs

def DecimalText.compareSize (a b : DecimalText) : Ordering :=
  (compare a.whole.length b.whole.length).then
    ((compareTexts a.whole b.whole).then (compareTexts a.part b.part))

def DecimalText.compare (a b : DecimalText) : Ordering :=
  match a.negative, b.negative with
  | false, false => a.compareSize b
  | true, true => b.compareSize a
  | true, false => .lt
  | false, true => .gt

def isHexDigit (c : Char) : Bool := (Text.digitValue? c).any (· < 16)

/-- The number in exponent form that a text begins with: digits, and the power of ten that they are
multiplied by. -/
def scientific? (cs : List Char) : Option (Int × Int) :=
  let cs := cs.dropWhile Octets.isSpace
  let (sign, cs) := match cs with
    | '-' :: rest => ((-1 : Int), rest)
    | '+' :: rest => (1, rest)
    | cs => (1, cs)
  let whole := cs.takeWhile Char.isDigit
  let rest := cs.drop whole.length
  let (part, rest) := match rest with
    | '.' :: more =>
      let digits := more.takeWhile Char.isDigit
      (digits, more.drop digits.length)
    | rest => ([], rest)
  let hexDigits := match whole, rest with
    | ['0'], c :: more => if c == 'x' || c == 'X' then more.takeWhile isHexDigit else []
    | _, _ => []
  match Text.digits? 16 hexDigits, Text.digits? 10 (whole ++ part) with
  | some n, _ => some (sign * Int.ofNat n, 0)
  | none, none => none
  | none, some n =>
    let exponent : Int := match rest with
      | c :: more =>
        if c != 'e' && c != 'E' then 0
        else
          let (s, more) := match more with
            | '-' :: digits => ((-1 : Int), digits)
            | '+' :: digits => (1, digits)
            | digits => (1, digits)
          s * Int.ofNat ((Text.digits? 10 (more.takeWhile Char.isDigit)).getD 0)
      | [] => 0
    some (sign * Int.ofNat n, exponent - Int.ofNat part.length)

/-- How two numbers in exponent form compare. Texts that are no numbers come first. -/
def compareScientific (a b : List Char) : Ordering :=
  match scientific? a, scientific? b with
  | none, none => .eq
  | none, some _ => .lt
  | some _, none => .gt
  | some (m, e), some (n, f) =>
    let least := min e f
    let scale (x : Int) (d : Int) : Int := x * Int.ofNat (Nat.pow 10 (min d.toNat 1000))
    compare (scale m (e - least)) (scale n (f - least))

def unitOf (cs : List Char) : Nat :=
  let rest := (cs.dropWhile isGap).dropWhile fun c => c.isDigit || c == '.' || c == '-'
  match rest.head? with
  | some 'k' | some 'K' => 1
  | some 'M' => 2
  | some 'G' => 3
  | some 'T' => 4
  | some 'P' => 5
  | some 'E' => 6
  | some 'Z' => 7
  | some 'Y' => 8
  | _ => 0

def compareUnits (a b : List Char) : Ordering :=
  let m := DecimalText.ofText a
  let n := DecimalText.ofText b
  let isZero (d : DecimalText) : Bool := d.whole.isEmpty && d.part.isEmpty
  let size (d : DecimalText) (cs : List Char) : Int :=
    let n := Int.ofNat (unitOf cs + 1)
    if isZero d then 0 else if d.negative then -n else n
  (compare (size m a) (size n b)).then (m.compare n)

def monthOf (cs : List Char) : Nat :=
  let name := ((cs.dropWhile isGap).take 3).map Char.toUpper
  let names := ["JAN", "FEB", "MAR", "APR", "MAY", "JUN", "JUL", "AUG", "SEP", "OCT", "NOV", "DEC"]
  ((names.zipIdx.find? fun n => n.1.toList == name).map fun n => n.2 + 1).getD 0

/-- The rank of a character in a version: the end and tildes come before letters, and these before
other signs. -/
def versionRank : Option Char → Nat
  | none => 1
  | some c => if c == '~' then 0 else if c.isAlpha then c.toNat + 2 else c.toNat + 1000

def compareVersions : Nat → List Char → List Char → Ordering
  | 0, _, _ => .eq
  | fuel + 1, as, bs =>
    match as, bs with
    | [], [] => .eq
    | _, _ =>
      let isDigit (cs : List Char) : Bool := cs.head?.any Char.isDigit
      let rank (cs : List Char) : Nat :=
        if isDigit cs then versionRank none else versionRank cs.head?
      if (!as.isEmpty && !isDigit as) || (!bs.isEmpty && !isDigit bs) then
        if rank as != rank bs then compare (rank as) (rank bs)
        else compareVersions fuel (as.drop 1) (bs.drop 1)
      else
        let m := as.takeWhile Char.isDigit
        let n := bs.takeWhile Char.isDigit
        let strip (cs : List Char) : List Char := cs.dropWhile (· == '0')
        let order := (compare (strip m).length (strip n).length).then
          (compareTexts (strip m) (strip n))
        order.then (compareVersions fuel (as.drop m.length) (bs.drop n.length))

/-! ## Keys -/

structure Key where
  startField : Nat
  startChar : Nat
  endField : Option Nat := none
  endChar : Nat := 0
  startBlanks : Bool := false
  endBlanks : Bool := false
  letters : List Char := []
  deriving Repr, DecidableEq

def afterFields (sep : Option Char) : Nat → List Char → List Char
  | 0, cs => cs
  | n + 1, cs =>
    match sep with
    | some c => afterFields sep n ((cs.dropWhile (· != c)).drop 1)
    | none => afterFields sep n ((cs.dropWhile isGap).dropWhile fun c => !isGap c)

def Key.begin (k : Key) (sep : Option Char) (line : List Char) : List Char :=
  let rest := afterFields sep k.startField line
  (if k.startBlanks then rest.dropWhile isGap else rest).drop k.startChar

def Key.rest (k : Key) (sep : Option Char) (line : List Char) : List Char :=
  match k.endField with
  | none => []
  | some field =>
    if k.endChar = 0 then
      match sep with
      | some c => (afterFields sep field line).dropWhile (· != c)
      | none => afterFields sep (field + 1) line
    else
      let rest := afterFields sep field line
      (if k.endBlanks then rest.dropWhile isGap else rest).drop k.endChar

def Key.of (k : Key) (sep : Option Char) (line : List Char) : List Char :=
  let start := k.begin sep line
  start.take (start.length - (k.rest sep line).length)

def Key.compareTexts (k : Key) (a b : List Char) : Ordering :=
  let has (c : Char) : Bool := k.letters.contains c
  let order :=
    if has 'n' then (DecimalText.ofText a).compare (DecimalText.ofText b)
    else if has 'g' then compareScientific a b
    else if has 'h' then compareUnits a b
    else if has 'M' then compare (monthOf a) (monthOf b)
    else if has 'V' then compareVersions (a.length + b.length + 2) a b
    else
      let keeps (c : Char) : Bool :=
        (!has 'd' || c.isAlphanum || isGap c) && (!has 'i' || Octets.isGraph c || c == ' ')
      let fold (c : Char) : Char := if has 'f' then c.toUpper else c
      Utility.compareTexts ((a.filter keeps).map fold) ((b.filter keeps).map fold)
  if has 'r' then order.swap else order

def keyNumber (cs : List Char) : Option (Nat × List Char) :=
  let digits := cs.takeWhile Char.isDigit
  (Text.digits? 10 digits).map fun n => (n, cs.drop digits.length)

def keyPlace (cs : List Char) : Option (Nat × Option Nat × List Char × List Char) := do
  let (field, rest) ← keyNumber cs
  let (char, rest) ← match rest with
    | '.' :: more => (keyNumber more).map fun (n, rest) => (some n, rest)
    | rest => some (none, rest)
  let letters := rest.takeWhile fun c => "bdfghiMnRrV".toList.contains c
  if field = 0 then none else some (field, char, letters, rest.drop letters.length)

def Key.ofText? (text : String) : Option Key := do
  let (field, char, letters, rest) ← keyPlace text.toList
  if char == some 0 then none
  let start : Key :=
    { startField := field - 1
      startChar := (char.getD 1) - 1
      startBlanks := letters.contains 'b'
      letters := letters }
  match rest with
  | [] => some start
  | ',' :: more =>
    let (field, char, letters', rest) ← keyPlace more
    if !rest.isEmpty then none
    some { start with
      endField := some (field - 1)
      endChar := char.getD 0
      endBlanks := letters'.contains 'b'
      letters := letters ++ letters' }
  | _ => none

/-! ## Sorting -/

structure SortOrder where
  keys : List Key
  sep : Option Char
  reversed : Bool
  /-- Whether lines with the same keys stay in the order in which they were. -/
  stable : Bool
  unique : Bool

def SortOrder.compareKeys (o : SortOrder) (a b : List Char) : Ordering :=
  o.keys.foldl (fun order k => order.then (k.compareTexts (k.of o.sep a) (k.of o.sep b))) .eq

def SortOrder.compareLines (o : SortOrder) (a b : List Char) : Ordering :=
  (o.compareKeys a b).then <|
    if !o.keys.isEmpty && (o.stable || o.unique) then .eq
    else
      let order := compareTexts a b
      if o.reversed then order.swap else order

/-- Lines without those that are the same as the one before. -/
def withoutRepeated (same : List Char → List Char → Bool) : List (List Char) → List (List Char)
  | a :: b :: rest =>
    if same a b then withoutRepeated same (a :: rest) else a :: withoutRepeated same (b :: rest)
  | lines => lines
termination_by lines => lines.length

def SortOrder.sort (o : SortOrder) (lines : List (List Char)) : List (List Char) :=
  let sorted := lines.mergeSort fun a b => o.compareLines a b != .gt
  if o.unique then withoutRepeated (fun a b => o.compareLines a b == .eq) sorted else sorted

/-- The lines of two texts, taken from the one whose next line comes first. -/
def SortOrder.mergeTwo (o : SortOrder) : List (List Char) → List (List Char) → List (List Char)
  | [], bs => bs
  | as, [] => as
  | a :: as, b :: bs =>
    if o.compareLines a b == .gt then b :: mergeTwo o (a :: as) bs else a :: mergeTwo o as (b :: bs)
termination_by as bs => as.length + bs.length

def SortOrder.merge (o : SortOrder) (texts : List (List (List Char))) : List (List Char) :=
  let merged := texts.foldr o.mergeTwo []
  if o.unique then withoutRepeated (fun a b => o.compareLines a b == .eq) merged else merged

/-- The first line that is not in order, with its number. -/
def SortOrder.disorder? (o : SortOrder) : Nat → List (List Char) → Option (Nat × List Char)
  | n, a :: b :: rest =>
    let order := o.compareLines a b
    if order == .gt || (o.unique && order == .eq) then some (n + 1, b)
    else disorder? o (n + 1) (b :: rest)
  | _, _ => none

def sortOrder (g : Given) : Except String SortOrder := do
  let letters := (g.options.map Prod.fst).filter fun c => "bdfghiMnRrV".toList.contains c
  let keys ← (g.values 'k').mapM fun text =>
    match Key.ofText? text with
    | some k => .ok k
    | none => .error ("invalid field specification '" ++ text ++ "'")
  let inherit' (k : Key) : Key :=
    if k.letters.isEmpty then
      { k with
        letters := letters
        startBlanks := letters.contains 'b'
        endBlanks := letters.contains 'b' }
    else k
  let sep ← match g.value? 't' with
    | none => pure none
    | some "\\0" => pure (some '\x00')
    | some text =>
      match text.toList with
      | [c] => pure (some c)
      | [] => throw "empty tab"
      | _ => throw ("multi-character tab '" ++ text ++ "'")
  let conflicts (letters : List Char) : Bool :=
    let kinds := ['n', 'g', 'h', 'M'].filter letters.contains
    let others := if letters.contains 'V' || letters.contains 'R' || letters.contains 'd' ||
      letters.contains 'i' then 1 else 0
    1 < kinds.length + others
  if conflicts letters || keys.any (fun k => conflicts k.letters) then
    throw "options are incompatible"
  let whole : Key := { startField := 0, startChar := 0, startBlanks := letters.contains 'b', letters }
  let needsKey := letters.any (· != 'r')
  return {
    keys := if keys.isEmpty then (if needsKey then [whole] else []) else keys.map inherit'
    sep
    reversed := letters.contains 'r'
    stable := g.has 's'
    unique := g.has 'u' }

def sortOptions : Options :=
  Options.ofLetters "bdfghiMnRrVcCk:mo:sS:t:T:uz"
    [("ignore-leading-blanks", 'b', .nothing), ("dictionary-order", 'd', .nothing),
     ("ignore-case", 'f', .nothing), ("general-numeric-sort", 'g', .nothing),
     ("human-numeric-sort", 'h', .nothing), ("ignore-nonprinting", 'i', .nothing),
     ("month-sort", 'M', .nothing), ("numeric-sort", 'n', .nothing), ("reverse", 'r', .nothing),
     ("version-sort", 'V', .nothing), ("check", 'c', .joined), ("key", 'k', .value),
     ("merge", 'm', .nothing), ("output", 'o', .value), ("stable", 's', .nothing),
     ("field-separator", 't', .value), ("unique", 'u', .nothing),
     ("zero-terminated", 'z', .nothing), ("parallel", '\x01', .value),
     ("buffer-size", 'S', .value), ("batch-size", '\x01', .value),
     ("temporary-directory", 'T', .value), ("random-sort", 'R', .nothing),
     ("compress-program", '\x01', .value), ("debug", '\x02', .nothing)]

def withoutOldKeys : List String → List String
  | [] => []
  | "--" :: rest => "--" :: rest
  | [a] => [(oldKey? a none).getD a]
  | a :: b :: rest =>
    match oldKey? a (some b), oldKey? a none with
    | some key, _ => key :: withoutOldKeys rest
    | none, some key => key :: withoutOldKeys (b :: rest)
    | none, none => a :: withoutOldKeys (b :: rest)
where
  /-- A place that is counted from zero as one that is counted from one. -/
  place? (isEnd : Bool) (cs : List Char) : Option String := do
    let (field, rest) ← keyNumber cs
    let (char, rest) ← match rest with
      | '.' :: more => keyNumber more
      | rest => some (0, rest)
    let letters := String.ofList rest
    if isEnd && char = 0 then toString field ++ letters
    else toString (field + 1) ++ "." ++ toString (if isEnd then char else char + 1) ++ letters
  /-- The key that one argument, or two, stand for. -/
  oldKey? (a : String) (b : Option String) : Option String :=
    match a.toList, b.map String.toList with
    | '+' :: start, none => (place? false start).map ("-k" ++ ·)
    | '+' :: start, some ('-' :: stop) => do
      return "-k" ++ (← place? false start) ++ "," ++ (← place? true stop)
    | _, _ => none

def sort (args : List String) : ShellM Nat :=
  withArguments "sort" sortOptions 2 (withoutOldKeys args) fun g => do
    match sortOrder g with
    | .error reason =>
      complain ("sort: " ++ reason)
      return 2
    | .ok order => do
      let sep := if g.has 'z' then '\x00' else '\n'
      let mut texts : List (List (List Char)) := []
      for file in if g.operands.isEmpty then ["-"] else g.operands do
        let text ← if file == "-" then (do return (← readRest 0).elim (.error .isDirectory) .ok)
          else readFile file
        match text with
        | .ok text => texts := texts ++ [linesOf sep text]
        | .error fault =>
          complain ("sort: " ++ (if fault == .isDirectory then "read failed: " else
            "cannot read: ") ++ file ++ ": " ++ faultText fault)
          return 2
      if g.has 'c' || g.has 'C' then
        match order.disorder? 1 texts.flatten with
        | none => return 0
        | some (n, line) =>
          let isQuiet := g.has 'C' || g.value? 'c' == some "quiet" || g.value? 'c' == some "silent"
          if !isQuiet then
            complain ("sort: " ++ g.operands.headD "-" ++ ":" ++ toString n ++ ": disorder: " ++
              String.ofList line)
          return 1
      let sorted := if g.has 'm' then order.merge texts else order.sort texts.flatten
      let text := joinLines sep sorted
      match g.value? 'o' with
      | none =>
        emitList text
        return 0
      | some file =>
        match ← writeFile file text with
        | none => return 0
        | some fault =>
          complain ("sort: open failed: " ++ file ++ ": " ++ faultText fault)
          return 2

/-! ## Repeated lines -/

def comparedPart (fields chars : Nat) (width : Option Nat) (line : List Char) : List Char :=
  let rest := (afterFields none fields line).drop chars
  match width with
  | some n => rest.take n
  | none => rest

def groupLines (same : List Char → List Char → Bool) :
    List (List Char) → List (List (List Char))
  | [] => []
  | l :: rest =>
    match groupLines same rest with
    | (m :: group) :: groups =>
      if same l m then (l :: m :: group) :: groups else [l] :: (m :: group) :: groups
    | groups => [l] :: groups

def uniq (args : List String) : ShellM Nat :=
  let o := Options.ofLetters "cdDf:is:uw:z0123456789"
    [("group", '\x01', .joined), ("count", 'c', .nothing), ("repeated", 'd', .nothing), ("all-repeated", 'D', .joined),
     ("skip-fields", 'f', .value), ("ignore-case", 'i', .nothing), ("skip-chars", 's', .value),
     ("unique", 'u', .nothing), ("check-chars", 'w', .value), ("zero-terminated", 'z', .nothing)]
  withArguments "uniq" o 1 args fun g => do
    let sep := if g.has 'z' then '\x00' else '\n'
    let digits := (g.options.map Prod.fst).filter Char.isDigit
    let number (c : Char) : Option Nat :=
      if c == 'f' && !g.has 'f' then Text.digits? 10 digits else (g.value? c).bind String.toNat?
    for c in ['f', 's', 'w'] do
      if g.has c && (number c).isNone then
        complain ("uniq: " ++ (g.value? c).getD "" ++ ": invalid number")
        return 1
    match g.operands with
    | _ :: _ :: extra :: _ =>
      complain ("uniq: extra operand '" ++ extra ++ "'")
      return 1
    | _ => pure ()
    match ← readOperand "uniq" (g.operands.headD "-") with
    | none => return 1
    | some text =>
      let part (l : List Char) : List Char :=
        let p := comparedPart ((number 'f').getD 0) ((number 's').getD 0) (number 'w') l
        if g.has 'i' then p.map Char.toLower else p
      let groups := groupLines (fun a b => part a == part b) (linesOf sep text)
      let repeated := groups.filter fun group => 1 < group.length
      let method := (g.value? (if g.has '\x01' then '\x01' else 'D')).getD ""
      let grouped := if g.has '\x01' then some groups
        else if g.has 'D' then some repeated
        else none
      let out := match grouped with
      | some groups =>
        let isIn (names : List String) : Bool := names.any fun n => method.toList.isPrefixOf n.toList
        if method.isEmpty then
          if g.has '\x01' then (groups.intersperse [[]]).flatten else groups.flatten
        else if isIn ["separate"] then (groups.intersperse [[]]).flatten
        else if isIn ["prepend"] then groups.flatMap fun group => [] :: group
        else if isIn ["append"] then groups.flatMap fun group => group ++ [[]]
        else if isIn ["both"] then
          if groups.isEmpty then [] else [[]] ++ groups.flatMap fun group => group ++ [[]]
        else groups.flatten
      | none => groups.flatMap fun group =>
        let isRepeated := 1 < group.length
        if (g.has 'd' && !isRepeated) || (g.has 'u' && isRepeated) then []
        else
          let first := group.headD []
          [if g.has 'c' then padLeft 7 (toString group.length).toList ++ ' ' :: first else first]
      let out := joinLines sep out
      match g.operands with
      | [_, file] =>
        match ← writeFile file out with
        | none => return 0
        | some fault =>
          complainAbout "uniq" file fault
          return 1
      | _ =>
        emitList out
        return 0

/-! ## Common lines -/

def columnsOf : List (List Char) → List (List Char) → List (Nat × List Char)
  | [], bs => bs.map (1, ·)
  | as, [] => as.map (0, ·)
  | a :: as, b :: bs =>
    match compareTexts a b with
    | .lt => (0, a) :: columnsOf as (b :: bs)
    | .gt => (1, b) :: columnsOf (a :: as) bs
    | .eq => (2, a) :: columnsOf as bs
termination_by as bs => as.length + bs.length

def comm (args : List String) : ShellM Nat :=
  let o := Options.ofLetters "123z"
    [("check-order", '\x01', .nothing), ("nocheck-order", '\x02', .nothing),
     ("output-delimiter", '\x03', .value), ("total", '\x04', .nothing),
     ("zero-terminated", 'z', .nothing)]
  withArguments "comm" o 1 args fun g => do
    match g.operands with
    | [a, b] =>
      let sep := if g.has 'z' then '\x00' else '\n'
      match ← readOperand "comm" a, ← readOperand "comm" b with
      | some x, some y =>
        let xs := linesOf sep x
        let ys := linesOf sep y
        let hidden (n : Nat) : Bool := g.has (Char.ofNat ('1'.toNat + n))
        let tab := ((g.value? '\x03').getD "\t").toList
        let shown := (columnsOf xs ys).filter fun c => !hidden c.1
        emitList (shown.flatMap fun (n, l) =>
          let before := ((List.range n).filter fun i => !hidden i).flatMap fun _ => tab
          before ++ l ++ [sep])
        let order : SortOrder := ⟨[], none, false, false, false⟩
        let mut status := 0
        if !g.has '\x02' && xs != ys then
          for (n, lines) in [(1, xs), (2, ys)] do
            if (order.disorder? 1 lines).isSome then
              complain ("comm: file " ++ toString n ++ " is not in sorted order")
              status := 1
        return status
      | _, _ => return 1
    | [] =>
      complain "comm: missing operand"
      return 1
    | [a] =>
      complain ("comm: missing operand after '" ++ a ++ "'")
      return 1
    | _ :: _ :: extra :: _ =>
      complain ("comm: extra operand '" ++ extra ++ "'")
      return 1

end Utility

end ShaderReducer
