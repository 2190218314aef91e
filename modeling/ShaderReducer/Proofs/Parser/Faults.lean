import ShaderReducer.Proofs.Parser.FollowingProgram
import ShaderReducer.Proofs.Parser.Simulation

/-!
# What an error is about

Tokens that are read are not malformed. So a text that is read has no malformed token, and an error
is about a token in front of which there is none: if that token is malformed itself, then it is the
first such, and what is wrong with it is the first error of the lexer.
-/

namespace ShaderReducer

theorem TokenKind.exists_of_isMalformed {kind : TokenKind} (h : kind.isMalformed = true) :
    ∃ defect, kind = .malformed defect := by
  cases kind <;> first | exact ⟨_, rfl⟩ | cases h

namespace Parser

/-- Both rows are what is left of a row behind tokens none of which is malformed. -/
def LeftOf (whole ts ts' : List Token) : Prop :=
  ts = ts' ∧ ∃ read, whole = read ++ ts ∧ ∀ t ∈ read, t.kind.isMalformed = false

instance (whole : List Token) : Simulation (LeftOf whole) where
  isEmpty_eq h := congrArg List.isEmpty h.1
  kind_eq h := congrArg Token.kind (List.cons.inj h.1).1
  lexeme_eq h := congrArg Token.lexeme (List.cons.inj h.1).1
  tail {t t' _ _} h kind hkind hread := by
    obtain ⟨heq, read, rfl, hall⟩ := h
    obtain ⟨rfl, rfl⟩ := List.cons.inj heq
    refine ⟨rfl, read ++ [t], List.append_cons _ _ _, fun u hu => ?_⟩
    obtain hu | hu := List.mem_append.mp hu
    · exact hall u hu
    · rw [List.mem_singleton.mp hu, hkind, hread]

variable {ts : List Token}

theorem sameResult_leftOf (ts : List Token) : SameResult (LeftOf ts) (program ts) (program ts) :=
  same_program ⟨rfl, [], rfl, fun _ hu => nomatch hu⟩

/-- A program is read from tokens that are not malformed. -/
theorem isMalformed_of_program {p : Program} (h : program ts = .ok p) :
    ∀ t ∈ ts, t.kind.isMalformed = false := by
  have hsame := sameResult_leftOf ts
  rw [h] at hsame
  cases hsame with
  | ok _ hend =>
    obtain ⟨-, read, rfl, hall⟩ := hend
    rwa [List.append_nil]

/-- What is wrong is found behind tokens that are not malformed. -/
theorem ahead_of_program {failure : Failure} (h : program ts = .error failure) :
    ∃ read, ts = read ++ failure.ahead ∧ ∀ t ∈ read, t.kind.isMalformed = false := by
  have hsame := sameResult_leftOf ts
  rw [h] at hsame
  cases hsame with
  | error _ hahead => exact hahead.2

end Parser

namespace TokenStream

open Lexer (error?)

/-- A span belongs to one token only. -/
theorem eq_of_span_eq {source : String} {t u : Token} (ht : t ∈ (ofText source).all)
    (hu : u ∈ (ofText source).all) (h : t.span = u.span) : t = u := by
  obtain ⟨last, hread, -⟩ := Lexer.reading_ofText source
  have hpairwise := hread.pairwise_start (Lexer.behind_ofText source)
  have : Std.Symm fun t u : Token => t.span ≠ u.span := ⟨fun _ _ => Ne.symm⟩
  have hne : (ofText source).all.Pairwise fun t u => t.span ≠ u.span :=
    hpairwise.imp fun hlt heq => Nat.ne_of_lt hlt (congrArg Span.start heq)
  by_contra hdiff
  exact hne.forall ht hu hdiff h

/-- The first malformed token is what the first error of the lexer is about. -/
theorem head?_errors_ofText {source : String} {read after : List Token} {t : Token}
    {defect : LexicalDefect} (htokens : (ofText source).tokens = read ++ t :: after)
    (hread : ∀ u ∈ read, u.kind.isMalformed = false) (ht : t.kind = .malformed defect) :
    (ofText source).errors.head? = some ⟨defect, t.span⟩ := by
  have hnone : read.filterMap error? = [] := by
    refine List.filterMap_eq_nil_iff.mpr fun u hu => Option.isNone_iff_eq_none.mp ?_
    rw [← Option.not_isSome, Lexer.isSome_error?, hread u hu]
    rfl
  have hsome : error? t = some ⟨defect, t.span⟩ := by rw [error?, ht]
  rw [errors_ofText, htokens, List.filterMap_append, hnone, List.filterMap_cons_some hsome]
  rfl

end TokenStream

/-- An error is about a token of a text: it has the span of that one alone, nothing malformed stands
in front of the token, and it is the first error of the lexer if the token is malformed, or else
says what was looked for instead of the token. -/
structure ParseError.IsAbout (e : ParseError) (stream : TokenStream) (t : Token) : Prop where
  span_eq_iff : ∀ u ∈ stream.all, u.span = e.span ↔ u = t
  front : ∃ read after, stream.all = read ++ t :: after ∧ ∀ u ∈ read, u.kind.isMalformed = false
  lexical : t.kind.isMalformed = true → ∃ first, stream.errors.head? = some first ∧
    first.span = e.span ∧ e.fault = .lexical first.defect
  missing : t.kind.isMalformed = false → ∃ expected, e.fault = .missing expected t.lexeme

namespace Parser

open TokenStream (ofText)

namespace Failure

variable {stream : TokenStream} {failure : Failure} {t : Token}

theorem toError_of_malformed {defect : LexicalDefect} {first : LexicalError}
    (hhead : failure.ahead.headD stream.eof = t) (ht : t.kind = .malformed defect)
    (hfirst : stream.errors.head? = some first) :
    failure.toError stream = ⟨.lexical first.defect, t.span⟩ := by
  simp only [toError, hhead, ht, hfirst]

theorem toError_of_genuine (hhead : failure.ahead.headD stream.eof = t)
    (ht : t.kind.isMalformed = false) :
    failure.toError stream = ⟨.missing failure.expected t.lexeme, t.span⟩ := by
  simp only [toError, hhead]
  split
  next hkind _ => rw [hkind] at ht; cases ht
  next => rfl

/-- The error for a failure is about the first token ahead. -/
theorem isAbout_toError {source : String} {read : List Token}
    (htokens : (ofText source).tokens = read ++ failure.ahead)
    (hread : ∀ u ∈ read, u.kind.isMalformed = false) :
    (failure.toError (ofText source)).IsAbout (ofText source)
      (failure.ahead.headD (ofText source).eof) := by
  obtain ⟨t, hhead⟩ : ∃ t, failure.ahead.headD (ofText source).eof = t := ⟨_, rfl⟩
  obtain ⟨after, hall⟩ : ∃ after, (ofText source).all = read ++ t :: after := by
    rw [TokenStream.all, htokens, List.append_assoc, ← hhead]
    cases failure.ahead <;> exact ⟨_, rfl⟩
  have ht : t ∈ (ofText source).all := by simp [hall]
  have hspan : ∀ u ∈ (ofText source).all, u.span = t.span ↔ u = t :=
    fun u hu => ⟨TokenStream.eq_of_span_eq hu ht, congrArg Token.span⟩
  rw [hhead]
  cases hkind : t.kind.isMalformed with
  | false =>
    rw [toError_of_genuine hhead hkind]
    exact ⟨hspan, ⟨read, after, hall, hread⟩,
      fun h => absurd (hkind.symm.trans h) Bool.false_ne_true, fun _ => ⟨_, rfl⟩⟩
  | true =>
    obtain ⟨defect, hdefect⟩ := TokenKind.exists_of_isMalformed hkind
    -- the end of the text is not malformed, so the token is one of those ahead
    obtain ⟨rest, hahead⟩ : ∃ rest, failure.ahead = t :: rest := by
      cases hahead : failure.ahead with
      | nil =>
        rw [hahead] at hhead
        rw [← hhead, List.headD_nil, TokenStream.kind_eof_ofText] at hdefect
        cases hdefect
      | cons u rest =>
        rw [hahead] at hhead
        exact ⟨rest, congrArg (· :: rest) hhead⟩
    have hfirst := TokenStream.head?_errors_ofText (hahead ▸ htokens) hread hdefect
    rw [toError_of_malformed hhead hdefect hfirst]
    exact ⟨hspan, ⟨read, after, hall, hread⟩, fun _ => ⟨_, hfirst, rfl, rfl⟩,
      fun h => absurd (h.symm.trans hkind) Bool.false_ne_true⟩

end Failure

end Parser

namespace Program

open TokenStream (ofText)

/-- A text that is read has no malformed token, and an error is about a token of the text. -/
theorem isAbout_of_parse (source : String) :
    match parse source with
    | .ok _ => ∀ t ∈ (ofText source).all, t.kind.isMalformed = false
    | .error e => ∃ t, e.IsAbout (ofText source) t := by
  rw [parse]
  cases hprogram : Parser.program (ofText source).tokens with
  | ok p =>
    refine List.forall_mem_append.mpr ⟨Parser.isMalformed_of_program hprogram, ?_⟩
    rw [List.forall_mem_singleton, TokenStream.kind_eof_ofText]
    rfl
  | error failure =>
    obtain ⟨read, htokens, hread⟩ := Parser.ahead_of_program hprogram
    exact ⟨_, Parser.Failure.isAbout_toError htokens hread⟩

end Program

namespace Shader

open TokenStream (ofText)

/-- The reader always has an answer. A text that it reads has no malformed token, and the error that
it reports is about a token of the text. -/
theorem isAbout_of_read (source : String) :
    match read source with
    | some (.ok _) => ∀ t ∈ (ofText source).all, t.kind.isMalformed = false
    | some (.error e) => ∃ t, e.IsAbout (ofText source) t
    | none => False := by
  have habout := Program.isAbout_of_parse source
  rw [read_eq]
  cases hparse : Program.parse source with
  | ok p => rwa [hparse] at habout
  | error e => rwa [hparse] at habout

/-- The error is about the sign that is none, and not about the number after it. -/
theorem isAbout_straySign : ∃ e t, read "void main() \x7b a = 1 @ 2 3.x; \x7d" = some (.error e) ∧
    e.IsAbout (ofText "void main() \x7b a = 1 @ 2 3.x; \x7d") t ∧
    e = ⟨.lexical (.unexpectedCharacter '@'), ⟨20, 21, 1, 21⟩⟩ := by
  have habout := isAbout_of_read "void main() \x7b a = 1 @ 2 3.x; \x7d"
  have hfault : (match Program.parse "void main() \x7b a = 1 @ 2 3.x; \x7d" with
      | .ok _ => none
      | .error e => some e) = some ⟨.lexical (.unexpectedCharacter '@'), ⟨20, 21, 1, 21⟩⟩ := by
    decide +kernel
  rw [read_eq] at habout ⊢
  split at hfault
  next => cases hfault
  next e hparse =>
    rw [hparse] at habout ⊢
    obtain ⟨t, ht⟩ := habout
    exact ⟨e, t, rfl, ht, Option.some.inj hfault⟩

end Shader

end ShaderReducer
