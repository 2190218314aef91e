import ShaderReducer.Proofs.Token.Genuine

/-!
# Texts and their tokens

What a text says is the row of its tokens without their places. A text that is put together from
tokens and white space says just these tokens, unless a character goes on the token before it.
-/

namespace ShaderReducer

open Text (isBlank trimEndList)

/-- A token without its place. -/
structure Piece where
  kind : TokenKind
  text : String
  deriving Repr, DecidableEq

/-- What a token says, wherever it stands. -/
def Token.piece (t : Token) : Piece :=
  ⟨t.kind, t.lexeme⟩

namespace Lexer

/-! ## Steps of the lexer -/

theorem isSpace_ne_slash {c : Char} (hc : isSpace c = true) : c ≠ '/' := by
  rintro rfl
  cases hc

theorem skipBlanks_space {c : Char} (hc : isSpace c = true) (place : Place) (rest : List Char) :
    skipBlanks place (c :: rest) = skipBlanks (place.next c) rest := by
  rw [skipBlanks, if_pos hc]
  · exact fun _ h => absurd h (isSpace_ne_slash hc)
  · exact fun _ h => absurd h (isSpace_ne_slash hc)

theorem skipBlanks_token {c : Char} {rest : List Char} (hc : isSpace c = false)
    (hcomment : c = '/' → ∀ d ∈ rest.head?, d ≠ '/' ∧ d ≠ '*') (place : Place) :
    skipBlanks place (c :: rest) = .upTo place (c :: rest) := by
  rw [skipBlanks, hc, if_neg Bool.false_ne_true]
  · rintro tail rfl rfl
    exact (hcomment rfl '/' rfl).1 rfl
  · rintro tail rfl rfl
    exact (hcomment rfl '*' rfl).2 rfl

namespace State

theorem note_eq_append (errors : List LexicalError) (kind : TokenKind) (span : Span) :
    note errors kind span = errors ++ note [] kind span := by
  cases kind <;> first | rfl | exact (List.append_nil errors).symm

/-- A call adds to the errors and does not look at them. -/
theorem next_eq_append (place : Place) (cs : List Char) (errors : List LexicalError) :
    next ⟨place, cs, errors⟩ = ((next ⟨place, cs, []⟩).1, { (next ⟨place, cs, []⟩).2 with
      errors := errors ++ (next ⟨place, cs, []⟩).2.errors }) := by
  simp only [next]
  split
  all_goals
    simp only [emit]
    rw [note_eq_append]

/-- Errors met before are kept and make no other difference. -/
theorem run_eq_append (place : Place) (cs : List Char) (errors : List LexicalError) :
    run ⟨place, cs, errors⟩ = { run ⟨place, cs, []⟩ with
      errors := errors ++ (run ⟨place, cs, []⟩).errors } := by
  induction hn : cs.length using Nat.strongRecOn generalizing place cs errors with
  | _ n ih =>
      have hnext' := next_eq_append place cs errors
      cases hnext : next ⟨place, cs, []⟩ with
      | mk t s =>
          obtain ⟨place', ahead, more⟩ := s
          rw [hnext] at hnext'
          by_cases hend : t.kind = .endOfFile
          · rw [run_of_end hnext hend, run_of_end hnext' hend]
          · have hlt := length_ahead_next (s := ⟨place, cs, []⟩) (by rw [hnext]; exact hend)
            rw [hnext, hn] at hlt
            rw [run_of_token hnext hend, run_of_token hnext' hend]
            dsimp only at hlt ⊢
            rw [ih _ hlt place' ahead (errors ++ more) rfl, ih _ hlt place' ahead more rfl,
              List.append_assoc]

end State

/-- The tokens after white space and comments. -/
def afterGap (gap : Gap) : TokenStream :=
  match gap with
  | .unterminatedComment start comment =>
    let last := start.advance comment
    let span := .between start last
    ⟨[⟨.malformed .unterminatedComment, String.ofList comment, span⟩],
      ⟨.endOfFile, "", .between last last⟩, [⟨.unterminatedComment, span⟩]⟩
  | .upTo last [] => ⟨[], ⟨.endOfFile, "", .between last last⟩, []⟩
  | .upTo start (c :: rest) =>
    let (kind, n) := recognise c rest
    let text := c :: rest.take n
    let after := placeAfter kind start text
    let span := .between start after
    let stream := tokensFrom after (rest.drop n)
    ⟨⟨kind, lexeme kind text, span⟩ :: stream.tokens, stream.eof,
      State.note [] kind span ++ stream.errors⟩

theorem tokensFrom_eq (place : Place) (cs : List Char) :
    tokensFrom place cs = afterGap (skipBlanks place cs) := by
  rw [tokensFrom]
  cases hskip : skipBlanks place cs with
  | unterminatedComment start comment =>
      have hnext : State.next ⟨place, cs, []⟩ = State.emit ⟨place, cs, []⟩
          (.malformed .unterminatedComment) start (start.advance comment) comment [] := by
        rw [State.next, hskip]
      -- behind the comment nothing is left but the end
      have hlast : State.next ⟨start.advance comment, [], State.note [] (.malformed
          .unterminatedComment) (.between start (start.advance comment))⟩ = State.emit
            ⟨start.advance comment, [], State.note [] (.malformed .unterminatedComment)
              (.between start (start.advance comment))⟩
            .endOfFile (start.advance comment) (start.advance comment) [] [] := by
        rw [State.next, skipBlanks]
      rw [State.run_of_token hnext TokenKind.noConfusion, State.run_of_end hlast rfl]
      rfl
  | upTo start rest =>
      cases rest with
      | nil =>
          have hnext : State.next ⟨place, cs, []⟩ =
              State.emit ⟨place, cs, []⟩ .endOfFile start start [] [] := by
            rw [State.next, hskip]
          rw [State.run_of_end hnext rfl]
          rfl
      | cons c rest =>
          have hkind := recognise_ne_endOfFile c rest
          rw [afterGap]
          cases hrecognise : recognise c rest with
          | mk kind n =>
              rw [hrecognise] at hkind
              have hnext : State.next ⟨place, cs, []⟩ = State.emit ⟨place, cs, []⟩ kind start
                  (placeAfter kind start (c :: rest.take n)) (c :: rest.take n) (rest.drop n) := by
                rw [State.next, hskip]
                dsimp only
                rw [hrecognise]
              rw [State.run_of_token hnext hkind, State.run_eq_append]
              rfl

theorem tokensFrom_nil (place : Place) : (tokensFrom place []).tokens = [] := by
  rw [tokensFrom_eq, skipBlanks]
  rfl

theorem tokensFrom_space {c : Char} (hc : isSpace c = true) (place : Place) (rest : List Char) :
    tokensFrom place (c :: rest) = tokensFrom (place.next c) rest := by
  rw [tokensFrom_eq, tokensFrom_eq, skipBlanks_space hc]

/-- The first token of a text and those that follow. -/
theorem tokensFrom_token {place : Place} {c : Char} {rest : List Char} {kind : TokenKind} {n : Nat}
    (hskip : skipBlanks place (c :: rest) = .upTo place (c :: rest))
    (h : recognise c rest = (kind, n)) : ∃ span place',
      (tokensFrom place (c :: rest)).tokens =
        ⟨kind, lexeme kind (c :: rest.take n), span⟩ :: (tokensFrom place' (rest.drop n)).tokens := by
  rw [tokensFrom_eq, hskip, afterGap, h]
  exact ⟨_, _, rfl⟩

/-- Every token of a source is genuine or malformed. -/
theorem isToken_of_mem (place : Place) (cs : List Char) :
    ∀ t ∈ (tokensFrom place cs).tokens, t.kind.isMalformed = false →
      IsToken t.kind t.lexeme.toList := by
  induction hn : cs.length using Nat.strongRecOn generalizing place cs with
  | _ n ih =>
      rw [tokensFrom_eq]
      match hskip : skipBlanks place cs with
      | .unterminatedComment start comment =>
          intro t ht hkind
          rw [afterGap, List.mem_singleton] at ht
          subst ht
          cases hkind
      | .upTo last [] => exact fun t ht => nomatch ht
      | .upTo start (c :: rest) =>
          have hlength := length_le_of_skipBlanks hskip
          rw [List.length_cons] at hlength
          rintro t (_ | ⟨_, ht⟩) hkind
          · exact isToken_lexeme rfl hkind
          · refine ih _ ?_ _ _ rfl t ht hkind
            rw [List.length_drop]
            omega

end Lexer

namespace IsToken

variable {kind : TokenKind} {text rest : List Char}

theorem ne_nil (h : IsToken kind text) : text ≠ [] := by
  obtain ⟨c, tail, rfl, -⟩ := h.recognised
  exact List.cons_ne_nil c tail

theorem isGraphic_head {c : Char} {tail : List Char} (h : IsToken kind (c :: tail)) :
    isGraphic c = true := by
  obtain ⟨c, tail, heq, hrecognise⟩ := h.recognised
  cases heq
  by_cases hdirective : kind = .directive
  · subst hdirective
    rw [(Lexer.directive_of_recognise hrecognise).1]
    rfl
  · exact Lexer.isGraphic_of_recognise hrecognise h.wellFormed hdirective c List.mem_cons_self

/-- A token is found in front of a text that does not go on it. -/
theorem recognise_append {c : Char} {tail : List Char} (h : IsToken kind (c :: tail))
    (hrest : ∀ d ∈ rest.head?, kind.goesOn (c :: tail) d = false) :
    Lexer.recognise c (tail ++ rest) = (kind, tail.length) := by
  obtain ⟨c, tail, heq, hrecognise⟩ := h.recognised
  cases heq
  have hagain := (Lexer.stops_recognise hrecognise h.wellFormed).2 rest
  rw [List.take_length] at hagain
  exact hagain hrest

/-- No token starts a comment. -/
theorem skipBlanks_append {c : Char} {tail : List Char} (h : IsToken kind (c :: tail))
    (hrest : ∀ d ∈ rest.head?, kind.goesOn (c :: tail) d = false) (place : Place) :
    Lexer.skipBlanks place (c :: (tail ++ rest)) = .upTo place (c :: (tail ++ rest)) := by
  have hspace : Lexer.isSpace c = false := by
    refine eq_false_of_ne_true fun hspace => ?_
    simp only [Lexer.isSpace, Bool.or_eq_true, beq_iff_eq] at hspace
    have hgraphic := h.isGraphic_head
    obtain ((rfl | rfl) | rfl) | rfl := hspace <;> cases hgraphic
  refine Lexer.skipBlanks_token hspace ?_ place
  rintro rfl d hd
  have hrecognise := h.recognise_append hrest
  cases tail with
  | nil =>
      have hslash : kind = .symbol .slash := by
        have halone : Lexer.recognise '/' ([] ++ []) = (kind, 0) :=
          h.recognise_append fun d hd => nomatch hd
        exact (congrArg Prod.fst halone).symm
      subst hslash
      have hgoes := hrest d hd
      simp only [TokenKind.goesOn, Symbol.goesOn, Bool.or_eq_false_iff, beq_eq_false_iff_ne] at hgoes
      exact ⟨hgoes.1.2, hgoes.2⟩
  | cons e tail =>
      cases hd
      constructor
      · rintro rfl
        cases hrecognise
      · rintro rfl
        cases hrecognise

/-- The text of a token is its lexeme. -/
theorem lexeme_eq (h : IsToken kind text) : Lexer.lexeme kind text = String.ofList text := by
  cases kind
  case directive => rw [Lexer.lexeme, h.trimmed]
  all_goals rfl

end IsToken

namespace Lexer

/-- What a text is recognised as by itself. -/
def kindOf (text : List Char) : TokenKind :=
  match text with
  | c :: tail => (recognise c tail).1
  | [] => .endOfFile

end Lexer

theorem IsToken.kindOf_eq {kind : TokenKind} {text : List Char} (h : IsToken kind text) :
    Lexer.kindOf text = kind := by
  obtain ⟨c, tail, rfl, hrecognise⟩ := h.recognised
  exact congrArg Prod.fst hrecognise

/-- A text that is no token, whatever stands after it that goes on no number. -/
structure IsBroken (text : List Char) : Prop where
  recognised : ∃ c tail, text = c :: tail ∧ c.isDigit = true ∧ ∀ rest, Lexer.EndsNumber rest →
    (Lexer.recognise c (tail ++ rest)).1.isMalformed = true
  graphic : ∀ c ∈ text, isGraphic c = true

theorem IsBroken.isMalformed_kindOf {text : List Char} (h : IsBroken text) :
    (Lexer.kindOf text).isMalformed = true := by
  obtain ⟨c, tail, rfl, -, hmalformed⟩ := h.recognised
  have := hmalformed [] Lexer.endsNumber_nil
  rwa [List.append_nil] at this

/-- A text is written with some pieces, white space between them, and no character that goes on the
piece before it. A piece may be broken. -/
inductive Written : List Char → List Piece → Prop
  | nil : Written [] []
  | blank {c : Char} {rest : List Char} {pieces : List Piece}
    (hc : Lexer.isSpace c = true) (hrest : Written rest pieces) : Written (c :: rest) pieces
  | token {kind : TokenKind} {text rest : List Char} {pieces : List Piece}
    (htext : IsToken kind text) (hends : ∀ d ∈ rest.head?, kind.goesOn text d = false)
    (hrest : Written rest pieces) :
    Written (text ++ rest) (⟨kind, String.ofList text⟩ :: pieces)
  | broken {text rest : List Char} {pieces : List Piece} (htext : IsBroken text)
    (hends : Lexer.EndsNumber rest) (hrest : Written rest pieces) :
    Written (text ++ rest) (⟨Lexer.kindOf text, String.ofList text⟩ :: pieces)

/-- The lexer finds some pieces, if none is broken; else it finds a malformed token among others. -/
def Lists (ts : List Token) (pieces : List Piece) : Prop :=
  (ts.map Token.piece = pieces ∧ ∀ p ∈ pieces, p.kind.isMalformed = false) ∨
    ((∃ t ∈ ts, t.kind.isMalformed = true) ∧ ∃ p ∈ pieces, p.kind.isMalformed = true)

/-- The lexer finds what a text is written with. -/
theorem Written.lists {cs : List Char} {pieces : List Piece} (h : Written cs pieces)
    (place : Place) : Lists (Lexer.tokensFrom place cs).tokens pieces := by
  induction h generalizing place with
  | nil =>
      rw [Lexer.tokensFrom_nil]
      exact .inl ⟨rfl, fun p hp => nomatch hp⟩
  | blank hc _ ih =>
      rw [Lexer.tokensFrom_space hc]
      exact ih _
  | @token kind text rest pieces htext hends _ ih =>
      obtain ⟨c, tail, rfl, -⟩ := htext.recognised
      obtain ⟨span, place', hstep⟩ := Lexer.tokensFrom_token (htext.skipBlanks_append hends place)
        (htext.recognise_append hends)
      rw [List.take_left, List.drop_left, htext.lexeme_eq] at hstep
      rw [List.cons_append, hstep]
      obtain ⟨hpieces, hformed⟩ | ⟨⟨t, ht, hmalformed⟩, p, hp, hbroken⟩ := ih place'
      · refine .inl ⟨congrArg (List.cons _) hpieces, ?_⟩
        rintro p (_ | ⟨_, hp⟩)
        · exact htext.wellFormed
        · exact hformed p hp
      · exact .inr ⟨⟨t, List.mem_cons_of_mem _ ht, hmalformed⟩, p, List.mem_cons_of_mem _ hp, hbroken⟩
  | @broken text rest pieces htext hends _ _ =>
      have hkind := htext.isMalformed_kindOf
      obtain ⟨c, tail, rfl, hdigit, hmalformed⟩ := htext.recognised
      have hspace : Lexer.isSpace c = false := by
        refine eq_false_of_ne_true fun hspace => ?_
        simp only [Lexer.isSpace, Bool.or_eq_true, beq_iff_eq] at hspace
        obtain ((rfl | rfl) | rfl) | rfl := hspace <;> cases hdigit
      have hskip : Lexer.skipBlanks place (c :: (tail ++ rest)) = .upTo place (c :: (tail ++ rest)) :=
        Lexer.skipBlanks_token hspace (by rintro rfl; cases hdigit) place
      obtain ⟨span, place', hstep⟩ := Lexer.tokensFrom_token hskip rfl
      rw [List.cons_append, hstep]
      exact .inr ⟨⟨_, List.mem_cons_self, hmalformed rest hends⟩, _, List.mem_cons_self, hkind⟩

end ShaderReducer
