import ShaderReducer.Shell.Word
import ShaderReducer.Text.Utf8

/-!
# Arithmetic

Expressions over whole numbers of 64 bits, with variables that an expression may also set. A
variable that is not set or blank counts as zero.
-/

namespace ShaderReducer

namespace Shell

inductive BinaryOperator where
  | mul | div | rem | add | sub | shiftLeft | shiftRight | less | lessEq | greater | greaterEq
  | equal | notEqual | bitAnd | bitXor | bitOr | power
  deriving Repr, DecidableEq

inductive Expression where
  | number (n : Int)
  | variable (name : String)
  | negate (e : Expression)
  | complement (e : Expression)
  | isZero (e : Expression)
  | binary (operator : BinaryOperator) (a b : Expression)
  | both (a b : Expression)
  | either (a b : Expression)
  | choice (condition a b : Expression)
  | assign (name : String) (operator : Option BinaryOperator) (value : Expression)
  /-- A variable that is changed by a number, with its value before that or after. -/
  | step (name : String) (change : Int) (before : Bool)
  | sequence (a b : Expression)
  deriving Repr

inductive ArithmeticFault where
  | malformed (text : String)
  | divisionByZero
  | illegalNumber (text : String)
  deriving Repr, DecidableEq

namespace Expression

/-! ## Reading -/

inductive Token where
  | number (n : Int)
  | name (name : String)
  | sign (text : String)
  deriving Repr, DecidableEq

def signs : List String :=
  ["<<=", ">>=", "&&", "||", "==", "!=", "<=", ">=", "<<", ">>", "*=", "/=", "%=", "+=", "-=",
   "&=", "^=", "|=", "+", "-", "*", "/", "%", "<", ">", "=", "&", "^", "|", "!", "~", "(", ")",
   "?", ":"]

/-- The signs that only the extended dialect has. -/
def extendedSigns : List String := ["++", "--", "**", ","]

def largest : Int := 9223372036854775807

def wrapped (n : Int) : Int := n.bmod 18446744073709551616

/-- The number at the beginning of a text, in base eight after a zero and in base sixteen after a
zero and an `x`, and what follows it. Where it is too large it is the largest one. -/
def leadingNumber (cs : List Char) : Int × List Char :=
  let take (base : Nat) (cs : List Char) : Int × List Char :=
    let (n, rest) := leadingDigits base cs.length 0 cs
    (min (Int.ofNat n) largest, rest)
  match cs with
  | '0' :: x :: d :: rest =>
    if (x == 'x' || x == 'X') && ((Text.digitValue? d).isSome) then take 16 (d :: rest)
    else take 8 cs
  | '0' :: _ => take 8 cs
  | _ => take 10 cs

def tokens? (extended : Bool) : Nat → List Char → Option (List Token)
  | _, [] => some []
  | 0, _ => none
  | fuel + 1, c :: rest =>
    if Octets.isSpace c then tokens? extended fuel rest
    else if c.isDigit then
      let (n, after) := leadingNumber (c :: rest)
      match extended, after with
      | true, '#' :: digits => do
        let (m, after) := leadingDigits n.toNat digits.length 0 digits
        return .number m :: (← tokens? extended fuel after)
      | _, _ => do return .number n :: (← tokens? extended fuel after)
    else if isNameStart c then
      let name := (c :: rest).takeWhile isNameChar
      do return .name (String.ofList name) ::
        (← tokens? extended fuel ((c :: rest).drop name.length))
    else
      let all := if extended then extendedSigns ++ signs else signs
      match all.find? fun s => s.toList.isPrefixOf (c :: rest) with
      | some s => do return .sign s :: (← tokens? extended fuel ((c :: rest).drop s.length))
      | none => none

def operator? (sign : String) : Option BinaryOperator :=
  [("*", BinaryOperator.mul), ("/", .div), ("%", .rem), ("+", .add), ("-", .sub),
   ("<<", .shiftLeft), (">>", .shiftRight), ("<", .less), ("<=", .lessEq), (">", .greater),
   (">=", .greaterEq), ("==", .equal), ("!=", .notEqual), ("&", .bitAnd), ("^", .bitXor),
   ("|", .bitOr), ("**", .power)].lookup sign

/-- The signs between two numbers, those that bind least first. -/
def levels : List (List String) :=
  [["|"], ["^"], ["&"], ["==", "!="], ["<", "<=", ">", ">="], ["<<", ">>"], ["+", "-"],
   ["*", "/", "%"], ["**"]]

abbrev Reader := List Token → Option (Expression × List Token)

/-- Reads further operands with signs of one level between them, which go from left to right. -/
def rowAfter (operand : Reader) (signs : List String) : Nat → Expression → Reader
  | 0, a, ts => some (a, ts)
  | fuel + 1, a, ts =>
    match ts with
    | .sign s :: rest =>
      if signs.contains s then
        match operator? s with
        | none => none
        | some o => do
          let (b, rest) ← operand rest
          rowAfter operand signs fuel (.binary o a b) rest
      else some (a, ts)
    | _ => some (a, ts)

def row (operand : Reader) : List (List String) → Reader
  | [], ts => operand ts
  | signs :: more, ts => do
    let (a, rest) ← row operand more ts
    rowAfter (row operand more) signs rest.length a rest

def connected (operand : Reader) (sign : String)
    (join : Expression → Expression → Expression) : Nat → Reader
  | 0, ts => operand ts
  | fuel + 1, ts => do
    let (a, rest) ← operand ts
    match rest with
    | .sign s :: rest' =>
      if s == sign then
        let (b, rest) ← connected operand sign join fuel rest'
        some (join a b, rest)
      else some (a, rest)
    | _ => some (a, rest)

def operand (whole self : Reader) : Reader
  | .number n :: rest => some (.number n, rest)
  | .name x :: .sign "++" :: rest => some (.step x 1 true, rest)
  | .name x :: .sign "--" :: rest => some (.step x (-1) true, rest)
  | .name x :: rest => some (.variable x, rest)
  | .sign "(" :: rest => do
    match ← whole rest with
    | (e, .sign ")" :: rest) => some (e, rest)
    | _ => none
  | .sign "++" :: .name x :: rest => some (.step x 1 false, rest)
  | .sign "--" :: .name x :: rest => some (.step x (-1) false, rest)
  | .sign s :: rest => do
    let (e, rest') ← self rest
    match s with
    | "+" => some (e, rest')
    | "-" => some (.negate e, rest')
    | "~" => some (.complement e, rest')
    | "!" => some (.isZero e, rest')
    | _ => none
  | [] => none

def choiceOf (whole self disjunction : Reader) : Reader := fun ts => do
  let (c, rest) ← disjunction ts
  match rest with
  | .sign "?" :: rest =>
    match ← whole rest with
    | (a, .sign ":" :: rest) => do
      let (b, rest) ← self rest
      some (.choice c a b, rest)
    | _ => none
  | _ => some (c, rest)

/-- Reads an expression with at most so many expressions inside each other. -/
def readIn : Nat → Reader
  | 0, _ => none
  | fuel + 1, ts =>
    let whole := readIn fuel
    let rec unary : Nat → Reader
      | 0, _ => none
      | n + 1, ts => operand whole (unary n) ts
    let base := unary (ts.length + 1)
    let conjunction := connected (row base levels) "&&" .both ts.length
    let disjunction := connected conjunction "||" .either ts.length
    let rec assignment : Nat → Reader
      | 0, _ => none
      | n + 1, ts =>
        match ts with
        | .name x :: .sign "=" :: rest => do
          let (e, rest) ← assignment n rest
          some (.assign x none e, rest)
        | .name x :: .sign s :: rest =>
          let bare := String.ofList s.toList.dropLast
          if s.toList.getLast? == some '=' && !(["==", "!=", "<=", ">="].contains s) then
            match operator? bare with
            | some o => do
              let (e, rest) ← assignment n rest
              some (.assign x (some o) e, rest)
            | none => none
          else choiceOf whole (assignment n) disjunction ts
        | _ => choiceOf whole (assignment n) disjunction ts
    let one := assignment (ts.length + 1)
    let rec sequenceFrom : Nat → Expression → Reader
      | 0, a, ts => some (a, ts)
      | n + 1, a, ts =>
        match ts with
        | .sign "," :: rest => do
          let (b, rest) ← one rest
          sequenceFrom n (.sequence a b) rest
        | _ => some (a, ts)
    do
      let (a, rest) ← one ts
      sequenceFrom rest.length a rest

/-- The expression that a text stands for. A blank text is zero. -/
def parse? (extended : Bool) (text : List Char) : Option Expression := do
  let ts ← tokens? extended (text.length + 1) text
  if ts.isEmpty then return .number 0
  match ← readIn (ts.length + 1) ts with
  | (e, []) => some e
  | _ => none

/-! ## Values -/

def ofTruth (b : Bool) : Int := if b then 1 else 0

def combine? (o : BinaryOperator) (a b : Int) : Option Int :=
  let bits (f : UInt64 → UInt64 → UInt64) : Int :=
    wrapped (Int.ofNat (f (UInt64.ofInt a) (UInt64.ofInt b)).toNat)
  match o with
  | .mul => some (wrapped (a * b))
  | .div => if b = 0 then none else some (wrapped (a.tdiv b))
  | .rem => if b = 0 then none else some (wrapped (a.tmod b))
  | .add => some (wrapped (a + b))
  | .sub => some (wrapped (a - b))
  | .shiftLeft => some (bits (· <<< ·))
  | .shiftRight => some (a.fdiv (Int.ofNat (Nat.pow 2 (b.emod 64).toNat)))
  | .less => some (ofTruth (a < b))
  | .lessEq => some (ofTruth (a ≤ b))
  | .greater => some (ofTruth (a > b))
  | .greaterEq => some (ofTruth (a ≥ b))
  | .equal => some (ofTruth (a == b))
  | .notEqual => some (ofTruth (a != b))
  | .bitAnd => some (bits (· &&& ·))
  | .bitXor => some (bits (· ^^^ ·))
  | .bitOr => some (bits (· ||| ·))
  | .power =>
    some ((List.range (min b.toNat 64)).foldl (fun n _ => wrapped (n * a)) 1)

/-- The variables that an expression may use, the last ones first. -/
abbrev Bindings := List (String × String)

def ofText (text : String) : Except ArithmeticFault Int :=
  let cs := text.toList.dropWhile Octets.isSpace
  let (sign, digits) := match cs with
    | '-' :: rest => ((-1 : Int), rest)
    | '+' :: rest => (1, rest)
    | _ => (1, cs)
  if cs.isEmpty then .ok 0
  else
    let (n, rest) := leadingNumber digits
    if rest.length < digits.length && rest.all Octets.isSpace then .ok (sign * n)
    else .error (.illegalNumber text)

abbrev EvalM (α : Type) : Type := StateT Bindings (Except ArithmeticFault) α

/-- The value of a variable. In the extended dialect its text is an expression. -/
def valueOf (whole : Expression → EvalM Int) (extended : Bool) (name : String) : EvalM Int := do
  let text := ((← get).lookup name).getD ""
  match ofText text with
  | .ok n => return n
  | .error fault =>
    if extended then
      match parse? true text.toList with
      | some e => whole e
      | none => throw (.malformed text)
    else throw fault

def setTo (name : String) (n : Int) : EvalM Unit :=
  modify fun bindings => (name, toString n) :: bindings

/-- The value of an expression, where the texts of variables are looked up in at most so many
steps. -/
def evaluate (extended : Bool) : Nat → Expression → EvalM Int
  | 0, _ => throw (.malformed "")
  | depth + 1, e =>
    let variableValue := valueOf (evaluate extended depth) extended
    let rec go : Expression → EvalM Int
      | .number n => return n
      | .variable x => variableValue x
      | .negate e => return wrapped (-(← go e))
      | .complement e => return -(← go e) - 1
      | .isZero e => return ofTruth ((← go e) == 0)
      | .binary o a b => do
        let m ← go a
        let n ← go b
        match combine? o m n with
        | some r => return r
        | none => throw .divisionByZero
      | .both a b => do
        if (← go a) == 0 then return 0
        return ofTruth ((← go b) != 0)
      | .either a b => do
        if (← go a) != 0 then return 1
        return ofTruth ((← go b) != 0)
      | .choice c a b => do
        if (← go c) != 0 then go a else go b
      | .assign x o e => do
        let n ← go e
        let n ← match o with
          | none => pure n
          | some o => do
            match combine? o (← variableValue x) n with
            | some r => pure r
            | none => throw .divisionByZero
        setTo x n
        return n
      | .step x change before => do
        let n ← variableValue x
        setTo x (wrapped (n + change))
        return if before then n else wrapped (n + change)
      | .sequence a b => do
        let _ ← go a
        go b
    go e

def valueOfText (extended : Bool) (bindings : Bindings) (text : List Char) :
    Except ArithmeticFault (Int × Bindings) :=
  match parse? extended text with
  | none => .error (.malformed (String.ofList text))
  | some e => (evaluate extended 100 e).run bindings

end Expression

end Shell

end ShaderReducer
