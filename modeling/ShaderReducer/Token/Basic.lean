import ShaderReducer.Token.Kind

/-!
# Tokens and their places

A place in a text is counted in bytes of its UTF-8 form; lines and columns start at one. They are
numbers without a bound here. In a text of fewer than `2 ^ 32 - 1` bytes they fit 32 bits.
-/

namespace ShaderReducer

structure Place where
  offset : Nat := 0
  line : Nat := 1
  column : Nat := 1
  deriving Repr, DecidableEq

namespace Place

/-- The place after a character. A newline starts a line; any other character moves the column on
by its bytes. -/
def next (p : Place) (c : Char) : Place :=
  if c = '\n' then ⟨p.offset + 1, p.line + 1, 1⟩
  else ⟨p.offset + c.utf8Size, p.line, p.column + c.utf8Size⟩

def advance (p : Place) (cs : List Char) : Place :=
  cs.foldl next p

@[simp] theorem advance_nil (p : Place) : p.advance [] = p := rfl

@[simp] theorem advance_cons (p : Place) (c : Char) (cs : List Char) :
    p.advance (c :: cs) = (p.next c).advance cs := rfl

theorem advance_append (p : Place) (cs ds : List Char) :
    p.advance (cs ++ ds) = (p.advance cs).advance ds := by
  simp [advance]

end Place

/-- The bytes of a token, from its first to just after its last, and the line and column of the
first one. -/
structure Span where
  start : Nat
  stop : Nat
  line : Nat
  column : Nat
  deriving Repr, DecidableEq

namespace Span

def between (first last : Place) : Span :=
  ⟨first.offset, last.offset, first.line, first.column⟩

def length (s : Span) : Nat :=
  s.stop - s.start

end Span

structure Token where
  kind : TokenKind
  lexeme : String
  span : Span
  deriving Repr, DecidableEq

structure LexicalError where
  defect : LexicalDefect
  span : Span
  deriving Repr, DecidableEq

/-- The tokens of a text, the token that stands for its end, and the errors that were met on the
way. -/
structure TokenStream where
  tokens : List Token
  eof : Token
  errors : List LexicalError
  deriving Repr, DecidableEq

namespace TokenStream

/-- All tokens with the end of the text as the last one. -/
def all (s : TokenStream) : List Token :=
  s.tokens ++ [s.eof]

end TokenStream

end ShaderReducer
