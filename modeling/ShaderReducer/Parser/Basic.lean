import ShaderReducer.Token.Basic

/-!
# Reading syntax from tokens

The grammar is read from the list of the tokens ahead. A rule answers with what it read and with the
tokens after it, and with the proof that there are fewer of them, which is why the rules may call
each other: `Parsed α n` is an answer that leaves fewer than `n` tokens.

A rule that fails says what it looked for and which tokens were still ahead. The error that is
reported is about the first of these, or about the end of the text; if that token is malformed, then
the error is the first one that the lexer met.
-/

namespace ShaderReducer

inductive Expectation where
  | expression
  | token (kind : TokenKind)
  | anotherToken
  | typeName
  | identifier
  | arraySize
  | versionDirective
  | declaration
  deriving Repr, DecidableEq

inductive SyntaxFault where
  | lexical (defect : LexicalDefect)
  | missing (expected : Expectation) (found : String)
  deriving Repr, DecidableEq

structure ParseError where
  fault : SyntaxFault
  span : Span
  deriving Repr, DecidableEq

namespace Parser

structure Failure where
  expected : Expectation
  ahead : List Token
  deriving Repr, DecidableEq

/-- What a rule read, and the tokens after it, which are fewer than `bound`. -/
structure Parsed (α : Type) (bound : Nat) where
  value : α
  rest : List Token
  fewer : rest.length < bound

abbrev Outcome (α : Type) (bound : Nat) : Type := Except Failure (Parsed α bound)

/-! ## Counting tokens -/

theorem length_lt_succ (ts : List Token) : ts.length < ts.length + 1 := Nat.lt_succ_self _

theorem tail_lt (t : Token) (after : List Token) : after.length < (t :: after).length :=
  Nat.lt_succ_self _

theorem tail_tail_lt (t t' : Token) (after : List Token) :
    after.length < (t :: t' :: after).length :=
  Nat.lt_trans (tail_lt t' after) (tail_lt t (t' :: after))

theorem lt_of_since {n : Nat} {rest ahead : List Token} (hAhead : ahead.length < rest.length)
    (h : rest.length < n) : ahead.length < n :=
  Nat.lt_trans hAhead h

theorem lt_of_sinceMaybe {n : Nat} {rest ahead : List Token}
    (hAhead : ahead.length < rest.length + 1) (h : rest.length < n) : ahead.length < n :=
  Nat.lt_of_le_of_lt (Nat.le_of_lt_succ hAhead) h

theorem lt_of_after {n : Nat} {rest ahead : List Token} (hAhead : ahead.length < rest.length)
    (h : rest.length < n + 1) : ahead.length < n :=
  Nat.lt_of_lt_of_le hAhead (Nat.le_of_lt_succ h)

namespace Parsed

def nothing {α : Type} (value : α) (ts : List Token) : Parsed α (ts.length + 1) :=
  ⟨value, ts, length_lt_succ ts⟩

def one {α : Type} (value : α) (t : Token) (after : List Token) : Parsed α (t :: after).length :=
  ⟨value, after, tail_lt t after⟩

end Parsed

namespace Outcome

/-- The answer of a rule that reads something, where nothing would do too. -/
def loosen {α : Type} {n : Nat} (answer : Outcome α n) : Outcome α (n + 1) :=
  match answer with
  | .ok ⟨value, ahead, hAhead⟩ => .ok ⟨value, ahead, Nat.lt_succ_of_lt hAhead⟩
  | .error failure => .error failure

def since {α : Type} {n : Nat} {rest : List Token} (answer : Outcome α rest.length)
    (h : rest.length < n) : Outcome α n :=
  match answer with
  | .ok ⟨value, ahead, hAhead⟩ => .ok ⟨value, ahead, lt_of_since hAhead h⟩
  | .error failure => .error failure

/-- The answer of a rule that may read nothing, counted from an earlier place. -/
def sinceMaybe {α : Type} {n : Nat} {rest : List Token} (answer : Outcome α (rest.length + 1))
    (h : rest.length < n) : Outcome α n :=
  match answer with
  | .ok ⟨value, ahead, hAhead⟩ => .ok ⟨value, ahead, lt_of_sinceMaybe hAhead h⟩
  | .error failure => .error failure

/-- The answer of a rule, counted from a place after which maybe nothing was read. -/
def after {α : Type} {n : Nat} {rest : List Token} (answer : Outcome α rest.length)
    (h : rest.length < n + 1) : Outcome α n :=
  match answer with
  | .ok ⟨value, ahead, hAhead⟩ => .ok ⟨value, ahead, lt_of_after hAhead h⟩
  | .error failure => .error failure

end Outcome

/-! ## Single tokens -/

def headKind (ts : List Token) : TokenKind :=
  match ts with
  | t :: _ => t.kind
  | [] => .endOfFile

def expect (kind : TokenKind) (ts : List Token) : Outcome Unit ts.length :=
  match ts with
  | t :: rest => if t.kind = kind then .ok (.one () t rest) else .error ⟨.token kind, t :: rest⟩
  | [] => .error ⟨.token kind, []⟩

def expectSymbol (sign : Symbol) (ts : List Token) : Outcome Unit ts.length :=
  expect (.symbol sign) ts

def expectKeyword (word : Keyword) (ts : List Token) : Outcome Unit ts.length :=
  expect (.keyword word) ts

def name (expected : Expectation) (ts : List Token) : Outcome String ts.length :=
  match ts with
  | t :: rest =>
    if t.kind = .identifier then .ok (.one t.lexeme t rest) else .error ⟨expected, t :: rest⟩
  | [] => .error ⟨expected, []⟩

def identifier (ts : List Token) : Outcome String ts.length :=
  name .identifier ts

/-- The error that a failure stands for among the tokens of a text. The first error of the lexer is
kept aside, and takes the place of what a rule has to say about a malformed token. -/
def Failure.toError (stream : TokenStream) (failure : Failure) : ParseError :=
  let current := failure.ahead.headD stream.eof
  match current.kind, stream.errors.head? with
  | .malformed _, some first => ⟨.lexical first.defect, current.span⟩
  | _, _ => ⟨.missing failure.expected current.lexeme, current.span⟩

end Parser

/-- What a message says about a fault: a code, the message itself, a hint, and a label for the place
in the text. -/
structure Description where
  code : String
  message : String
  help : Option String
  label : String
  deriving Repr, DecidableEq

namespace LexicalDefect

def describe : LexicalDefect → Description
  | unexpectedCharacter c =>
    ⟨"E0001", "unexpected character '" ++ String.singleton c ++ "'", none, "unexpected character"⟩
  | unterminatedComment =>
    ⟨"E0003", "unterminated block comment", some "add a closing '*/' to terminate the comment",
      "comment starts here"⟩
  | invalidNumber => ⟨"E0005", "invalid number literal", none, "invalid number"⟩

end LexicalDefect

namespace SyntaxFault

def describe : SyntaxFault → Description
  | lexical defect => defect.describe
  | missing .expression found =>
    ⟨"E1001", "expected expression, found '" ++ found ++ "'", none, "expected expression"⟩
  | missing (.token kind) found =>
    ⟨"E1002", "expected '" ++ kind.description ++ "', found '" ++ found ++ "'", none,
      "unexpected token"⟩
  | missing .anotherToken found =>
    ⟨"E1003", "unexpected token '" ++ found ++ "'", none, "unexpected"⟩
  | missing .typeName _ => ⟨"E1004", "expected type name", none, "expected type"⟩
  | missing .identifier _ => ⟨"E1006", "expected identifier", none, "expected identifier"⟩
  | missing .arraySize found =>
    ⟨"E1012", "invalid array size '" ++ found ++ "'", some "array sizes must be integer literals",
      "invalid array size"⟩
  | missing .versionDirective _ =>
    ⟨"E1013", "malformed #version directive",
      some "expected '#version <number>' optionally followed by 'es'", "here"⟩
  | missing .declaration _ =>
    ⟨"E1014", "statement is not allowed at top level",
      some "only declarations, precision statements and directives may appear at top level",
      "statement at top level"⟩

end SyntaxFault

namespace ParseError

def message (e : ParseError) : String :=
  toString e.span.line ++ ":" ++ toString e.span.column ++ ": " ++ e.fault.describe.message

end ParseError

end ShaderReducer
