import ShaderReducer.Text.Blank
import ShaderReducer.Token.Basic

/-!
# Reading tokens

`TokenStream.ofText` cuts a text into tokens. Blanks and comments stand between tokens; what is
neither is covered by a token, if need be by a malformed one, so that no character is lost.

A recogniser is given the first character of a token and the text after it. It answers with the
kind of the token and the number of further characters that belong to it. The lexeme and the rest of
the text are cut from that number, so a token is never empty and the text gets shorter with each.
-/

namespace ShaderReducer

namespace Lexer

def isWordChar (c : Char) : Bool :=
  c == '_' || c.isAlphanum

def isWordStart (c : Char) : Bool :=
  c == '_' || c.isAlpha

def isSpace (c : Char) : Bool :=
  c == ' ' || c == '\t' || c == '\r' || c == '\n'

def isHexDigit (c : Char) : Bool :=
  c.isDigit || ('a' ≤ c && c ≤ 'f') || ('A' ≤ c && c ≤ 'F')

def countWhile (p : Char → Bool) (cs : List Char) : Nat :=
  (cs.takeWhile p).length

/-- Splits the text after the opening of a block comment behind the first closing mark. -/
def splitComment? : List Char → Option (List Char × List Char)
  | [] => none
  | '*' :: '/' :: rest => some (['*', '/'], rest)
  | c :: rest => (splitComment? rest).map fun (inner, after) => (c :: inner, after)

theorem append_of_splitComment? {cs inner after : List Char}
    (h : splitComment? cs = some (inner, after)) : cs = inner ++ after := by
  fun_induction splitComment? cs generalizing inner after with
  | case1 => simp at h
  | case2 rest =>
    obtain ⟨rfl, rfl⟩ : ['*', '/'] = inner ∧ rest = after := by simpa using h
    rfl
  | case3 c rest _ ih =>
    obtain ⟨⟨inner', after'⟩, h', heq⟩ := Option.map_eq_some_iff.1 h
    obtain ⟨rfl, rfl⟩ : c :: inner' = inner ∧ after' = after := by simpa using heq
    rw [ih h', List.cons_append]

/-- What follows the blanks and comments at some place of a text: a place at which a token starts or
the text ends, or a block comment without an end. -/
inductive Gap where
  | upTo (place : Place) (rest : List Char)
  | unterminatedComment (start : Place) (comment : List Char)
  deriving Repr, DecidableEq

def skipBlanks (place : Place) (cs : List Char) : Gap :=
  match cs with
  | [] => .upTo place []
  | '/' :: '/' :: rest =>
    let comment := '/' :: '/' :: rest.takeWhile (· != '\n')
    skipBlanks (place.advance comment) (rest.dropWhile (· != '\n'))
  | '/' :: '*' :: rest =>
    match _split : splitComment? rest with
    | some (inner, after) => skipBlanks (place.advance ('/' :: '*' :: inner)) after
    | none => .unterminatedComment place cs
  | c :: rest => if isSpace c then skipBlanks (place.next c) rest else .upTo place cs
termination_by cs.length
decreasing_by
  · have := (List.dropWhile_sublist (l := rest) (· != '\n')).length_le
    simp only [List.length_cons]
    omega
  · have := congrArg List.length (append_of_splitComment? _split)
    simp only [List.length_append, List.length_cons] at this ⊢
    omega
  · simp

theorem length_le_of_skipBlanks {place place' : Place} {cs rest : List Char}
    (h : skipBlanks place cs = .upTo place' rest) : rest.length ≤ cs.length := by
  fun_induction skipBlanks place cs with
  | case1 => simp_all
  | case2 place tail comment ih =>
    have := (List.dropWhile_sublist (l := tail) (· != '\n')).length_le
    have := ih h
    simp only [List.length_cons]
    omega
  | case3 place tail inner after hsplit ih =>
    have := congrArg List.length (append_of_splitComment? hsplit)
    have := ih h
    simp only [List.length_append, List.length_cons] at *
    omega
  | case4 => simp at h
  | case5 place c tail _ _ hspace ih =>
    have := ih h
    simp only [List.length_cons]
    omega
  | case6 => simp_all

theorem pos_of_skipBlanks {place start : Place} {cs comment : List Char}
    (h : skipBlanks place cs = .unterminatedComment start comment) : 0 < cs.length := by
  cases cs with
  | nil =>
    rw [skipBlanks] at h
    cases h
  | cons c rest => exact Nat.succ_pos _

def symbol? (c : Char) (rest : List Char) : Option (Symbol × Nat) :=
  match c with
  | '(' => some (.lParen, 0)
  | ')' => some (.rParen, 0)
  | '\x7b' => some (.lBrace, 0)
  | '\x7d' => some (.rBrace, 0)
  | '[' => some (.lBracket, 0)
  | ']' => some (.rBracket, 0)
  | ',' => some (.comma, 0)
  | ';' => some (.semicolon, 0)
  | ':' => some (.colon, 0)
  | '?' => some (.question, 0)
  | '~' => some (.tilde, 0)
  | '.' => some (.dot, 0)
  | '+' => match rest with
    | '+' :: _ => some (.plusPlus, 1)
    | '=' :: _ => some (.plusEq, 1)
    | _ => some (.plus, 0)
  | '-' => match rest with
    | '-' :: _ => some (.minusMinus, 1)
    | '=' :: _ => some (.minusEq, 1)
    | _ => some (.minus, 0)
  | '*' => match rest with
    | '=' :: _ => some (.starEq, 1)
    | _ => some (.star, 0)
  | '/' => match rest with
    | '=' :: _ => some (.slashEq, 1)
    | _ => some (.slash, 0)
  | '%' => match rest with
    | '=' :: _ => some (.percentEq, 1)
    | _ => some (.percent, 0)
  | '=' => match rest with
    | '=' :: _ => some (.eqEq, 1)
    | _ => some (.eq, 0)
  | '!' => match rest with
    | '=' :: _ => some (.bangEq, 1)
    | _ => some (.bang, 0)
  | '&' => match rest with
    | '&' :: _ => some (.ampAmp, 1)
    | '=' :: _ => some (.ampEq, 1)
    | _ => some (.ampersand, 0)
  | '|' => match rest with
    | '|' :: _ => some (.pipePipe, 1)
    | '=' :: _ => some (.pipeEq, 1)
    | _ => some (.pipe, 0)
  | '^' => match rest with
    | '^' :: _ => some (.caretCaret, 1)
    | '=' :: _ => some (.caretEq, 1)
    | _ => some (.caret, 0)
  | '<' => match rest with
    | '<' :: '=' :: _ => some (.lessLessEq, 2)
    | '<' :: _ => some (.lessLess, 1)
    | '=' :: _ => some (.ltEq, 1)
    | _ => some (.lt, 0)
  | '>' => match rest with
    | '>' :: '=' :: _ => some (.greaterGreaterEq, 2)
    | '>' :: _ => some (.greaterGreater, 1)
    | '=' :: _ => some (.gtEq, 1)
    | _ => some (.gt, 0)
  | _ => none

/-- A malformed number of at least `n` characters: it takes all word characters after them. -/
def invalidNumber (n : Nat) (rest : List Char) : TokenKind × Nat :=
  (.malformed .invalidNumber, n + countWhile isWordChar rest)

/-- A number of `n` characters so far, with one of two letters as a suffix; a further word character
makes it malformed. -/
def suffixed (plain marked : TokenKind) (lower upper : Char) (n : Nat) (rest : List Char) :
    TokenKind × Nat :=
  let finish (kind : TokenKind) (n : Nat) (rest : List Char) : TokenKind × Nat :=
    match rest with
    | c :: _ => if isWordChar c then invalidNumber n rest else (kind, n)
    | [] => (kind, n)
  match rest with
  | c :: after => if c == lower || c == upper then finish marked (n + 1) after
    else finish plain n rest
  | [] => finish plain n rest

def integerSuffix (n : Nat) (rest : List Char) : TokenKind × Nat :=
  suffixed .intLiteral .uintLiteral 'u' 'U' n rest

def floatSuffix (n : Nat) (rest : List Char) : TokenKind × Nat :=
  suffixed .floatLiteral .floatLiteral 'f' 'F' n rest

/-- The end of a number after its digits and point: an exponent, then a suffix. `isFloat` says
whether there was a point. -/
def exponentAndSuffix (isFloat : Bool) (n : Nat) (rest : List Char) : TokenKind × Nat :=
  match rest with
  | [] => if isFloat then floatSuffix n rest else integerSuffix n rest
  | c :: after =>
    if c == 'e' || c == 'E' then
      let sign := match after with
        | s :: _ => if s == '+' || s == '-' then 1 else 0
        | [] => 0
      let digits := countWhile Char.isDigit (after.drop sign)
      if digits = 0 then invalidNumber (n + 1 + sign) (after.drop sign)
      else floatSuffix (n + 1 + sign + digits) (after.drop (sign + digits))
    else if isFloat || c == 'f' || c == 'F' then floatSuffix n rest
    else integerSuffix n rest

def number (first : Char) (rest : List Char) : TokenKind × Nat :=
  match first, rest with
  | '0', x :: after =>
    if x == 'x' || x == 'X' then
      let digits := countWhile isHexDigit after
      if digits = 0 then invalidNumber 1 after else integerSuffix (1 + digits) (after.drop digits)
    else decimal rest
  | _, _ => decimal rest
where
  /-- The further digits, the point and its digits, and the end of the number. -/
  decimal (rest : List Char) : TokenKind × Nat :=
    let whole := countWhile Char.isDigit rest
    match rest.drop whole with
    | '.' :: after =>
      let digits := countWhile Char.isDigit after
      exponentAndSuffix true (whole + 1 + digits) (after.drop digits)
    | after => exponentAndSuffix false whole after

/-- The token that starts with the character `c`: its kind and the number of its further
characters. -/
def recognise (c : Char) (rest : List Char) : TokenKind × Nat :=
  if c == '#' then (.directive, countWhile (· != '\n') rest)
  else if c.isDigit then number c rest
  else if isWordStart c then
    let n := countWhile isWordChar rest
    match Keyword.ofSpelling? (String.ofList (c :: rest.take n)) with
    | some word => (.keyword word, n)
    | none => (.identifier, n)
  else if c == '.' && (rest.head?.any Char.isDigit) then
    let digits := countWhile Char.isDigit rest
    exponentAndSuffix true digits (rest.drop digits)
  else match symbol? c rest with
    | some (sign, n) => (.symbol sign, n)
    | none => (.malformed (.unexpectedCharacter c), 0)

/-- The place after a token. A character that starts no token counts as one column, whatever its
size. -/
def placeAfter (kind : TokenKind) (place : Place) (text : List Char) : Place :=
  match kind with
  | .malformed (.unexpectedCharacter c) => ⟨place.offset + c.utf8Size, place.line, place.column + 1⟩
  | _ => place.advance text

/-- The text of a token: the characters it covers, for a directive without the white space at their
end. -/
def lexeme (kind : TokenKind) (text : List Char) : String :=
  match kind with
  | .directive => String.ofList (Text.trimEndList text)
  | _ => String.ofList text

/-- What the lexer knows between two tokens: the place it has come to, the text ahead, and the errors
met so far. -/
structure State where
  place : Place
  ahead : List Char
  errors : List LexicalError
  deriving Repr, DecidableEq

namespace State

def ofText (source : String) : State :=
  ⟨{}, source.toList, []⟩

/-- The errors met so far, and the lexer without them. -/
def takeErrors (s : State) : List LexicalError × State :=
  (s.errors, { s with errors := [] })

def note (errors : List LexicalError) (kind : TokenKind) (span : Span) : List LexicalError :=
  match kind with
  | .malformed defect => errors ++ [⟨defect, span⟩]
  | _ => errors

def emit (s : State) (kind : TokenKind) (start last : Place) (text rest : List Char) :
    Token × State :=
  let span := .between start last
  (⟨kind, lexeme kind text, span⟩, ⟨last, rest, note s.errors kind span⟩)

/-- The next token. At the end of the text it is the token that stands for the end, however often it
is asked for. -/
def next (s : State) : Token × State :=
  match skipBlanks s.place s.ahead with
  | .unterminatedComment start comment =>
    s.emit (.malformed .unterminatedComment) start (start.advance comment) comment []
  | .upTo last [] => s.emit .endOfFile last last [] []
  | .upTo start (c :: rest) =>
    let (kind, n) := recognise c rest
    let text := c :: rest.take n
    s.emit kind start (placeAfter kind start text) text (rest.drop n)

theorem length_ahead_next {s : State} (h : s.next.1.kind ≠ .endOfFile) :
    s.next.2.ahead.length < s.ahead.length := by
  unfold next at h ⊢
  split
  next start comment hskip =>
    have := pos_of_skipBlanks hskip
    simpa [emit] using this
  next hskip =>
    rw [hskip] at h
    exact absurd rfl h
  next start c rest hskip =>
    have := length_le_of_skipBlanks hskip
    simp only [emit, List.length_drop, List.length_cons] at this ⊢
    omega

def run (s : State) : TokenStream :=
  if _end : s.next.1.kind = .endOfFile then ⟨[], s.next.1, s.next.2.errors⟩
  else
    let stream := s.next.2.run
    ⟨s.next.1 :: stream.tokens, stream.eof, stream.errors⟩
termination_by s.ahead.length
decreasing_by exact length_ahead_next _end

theorem run_of_end {s s' : State} {t : Token} (h : s.next = (t, s')) (ht : t.kind = .endOfFile) :
    s.run = ⟨[], t, s'.errors⟩ := by
  rw [run, dif_pos (by rw [h]; exact ht), h]

theorem run_of_token {s s' : State} {t : Token} (h : s.next = (t, s'))
    (ht : t.kind ≠ .endOfFile) :
    s.run = ⟨t :: s'.run.tokens, s'.run.eof, s'.run.errors⟩ := by
  rw [run, dif_neg (by rw [h]; exact ht), h]

end State

def tokensFrom (place : Place) (cs : List Char) : TokenStream :=
  State.run ⟨place, cs, []⟩

end Lexer

def TokenStream.ofText (source : String) : TokenStream :=
  Lexer.tokensFrom {} source.toList

end ShaderReducer
