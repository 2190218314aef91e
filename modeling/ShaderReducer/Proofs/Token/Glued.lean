import ShaderReducer.Proofs.Token.Written

/-!
# A number and a field

Digits, a point and a name without white space between are no member of a number: the lexer reads
them as one number, or as a malformed one. Which of them it is does not depend on the text behind,
as long as that goes on no number.
-/

namespace ShaderReducer

namespace Lexer

/-- A scan that has passed `n` characters reads a word to its end as the rest of a number, or finds
that it makes no number, whatever comes behind. -/
def Decides (scan : List Char → TokenKind × Nat) (n : Nat) (word : List Char) : Prop :=
  (∀ more, EndsNumber more → scan (word ++ more) = (.floatLiteral, n + word.length)) ∨
    ∀ more, EndsNumber more → (scan (word ++ more)).1.isMalformed = true

variable {word : List Char}

theorem decides_floatSuffix (hword : ∀ c ∈ word, isWordChar c = true) (n : Nat) :
    Decides (floatSuffix n) n word := by
  cases word with
  | nil =>
      refine .inl fun more hmore => ?_
      cases more with
      | nil => rfl
      | cons c more =>
          have hc := hmore.word c rfl
          have hsuffix := hmore.word.or (d := 'f') (e := 'F') (by decide) (by decide) c rfl
          simp only [List.nil_append, floatSuffix, suffixed, hsuffix, hc, Bool.false_eq_true, if_false]
          rfl
  | cons c word =>
      by_cases hc : (c == 'f' || c == 'F') = true
      · cases word with
        | nil =>
            refine .inl fun more hmore => ?_
            cases more with
            | nil => simp [floatSuffix, suffixed, hc]
            | cons d more =>
                have hd := hmore.word d rfl
                simp [floatSuffix, suffixed, hc, hd]
        | cons d word =>
            have hd := hword d (List.mem_cons_of_mem _ List.mem_cons_self)
            refine .inr fun more _ => ?_
            simp [floatSuffix, suffixed, hc, hd, invalidNumber, TokenKind.isMalformed]
      · have hc' := hword c List.mem_cons_self
        refine .inr fun more _ => ?_
        simp [floatSuffix, suffixed, hc, hc', invalidNumber, TokenKind.isMalformed]

theorem countWhile_append_of_ends {p : Char → Bool} {cs more : List Char}
    (hmore : ∀ c ∈ more.head?, p c = false) : countWhile p (cs ++ more) = countWhile p cs := by
  have h := countWhile_take_append (n := cs.length) (countWhile_le p cs) hmore
  rwa [List.take_length] at h

/-- There are no digits of an exponent in what goes on no number. -/
theorem EndsNumber.noDigits {more : List Char} (h : EndsNumber more) :
    countWhile Char.isDigit (more.drop (signLength more)) = 0 := by
  cases more with
  | nil => rfl
  | cons s more =>
      rw [signLength]
      split
      next hs =>
        rw [Bool.or_eq_true, beq_iff_eq, beq_iff_eq] at hs
        cases more with
        | nil => rfl
        | cons d more =>
            refine countWhile_eq_zero fun c hc => ?_
            cases hc
            exact h.sign s d more rfl hs
      next => exact countWhile_eq_zero h.word.isDigit

theorem decides_exponentAndSuffix (hword : ∀ c ∈ word, isWordChar c = true) (n : Nat) :
    Decides (exponentAndSuffix true n) n word := by
  by_cases he : ∃ c w, word = c :: w ∧ (c == 'e' || c == 'E') = true
  · obtain ⟨c, w, rfl, hc⟩ := he
    cases w with
    | nil =>
        refine .inr fun more hmore => ?_
        rw [List.cons_append, List.nil_append, exponentAndSuffix_cons hc, hmore.noDigits, if_pos rfl]
        rfl
    | cons d w =>
        have hd : isWordChar d = true := hword d (List.mem_cons_of_mem _ List.mem_cons_self)
        have hsign : ∀ more, signLength (d :: w ++ more) = 0 := by
          intro more
          rw [List.cons_append, signLength, if_neg]
          rw [Bool.or_eq_true, beq_iff_eq, beq_iff_eq]
          rintro (rfl | rfl) <;> cases hd
        have hcount : ∀ more, EndsNumber more →
            countWhile Char.isDigit (d :: w ++ more) = countWhile Char.isDigit (d :: w) :=
          fun more hmore => countWhile_append_of_ends hmore.word.isDigit
        have hle := countWhile_le Char.isDigit (d :: w)
        have heq : ∀ more, EndsNumber more →
            exponentAndSuffix true n (c :: (d :: w ++ more)) =
              if countWhile Char.isDigit (d :: w) = 0 then invalidNumber (n + 1) (d :: w ++ more)
              else floatSuffix (n + 1 + countWhile Char.isDigit (d :: w))
                ((d :: w).drop (countWhile Char.isDigit (d :: w)) ++ more) := by
          intro more hmore
          rw [exponentAndSuffix_cons hc, hsign, List.drop_zero, hcount more hmore, Nat.add_zero,
            Nat.zero_add, List.drop_append_of_le_length hle]
        by_cases hdigits : countWhile Char.isDigit (d :: w) = 0
        · refine .inr fun more hmore => ?_
          rw [List.cons_append, heq more hmore, if_pos hdigits]
          rfl
        · have hdrop : ∀ c' ∈ (d :: w).drop (countWhile Char.isDigit (d :: w)), isWordChar c' = true :=
            fun c' hc' => hword c' (List.mem_cons_of_mem _ (List.mem_of_mem_drop hc'))
          refine (decides_floatSuffix hdrop (n + 1 + countWhile Char.isDigit (d :: w))).imp
            (fun h more hmore => ?_) fun h more hmore => ?_
          · rw [List.cons_append, heq more hmore, if_neg hdigits, h more hmore]
            simp only [List.length_drop, List.length_cons] at hle ⊢
            congr 1
            omega
          · rw [List.cons_append, heq more hmore, if_neg hdigits]
            exact h more hmore
  · have hne : ∀ more, EndsNumber more →
        ∀ c ∈ (word ++ more).head?, (c == 'e' || c == 'E') = false := by
      intro more hmore c hc
      cases word with
      | nil => exact hmore.word.or (by decide) (by decide) c hc
      | cons d w =>
          cases hc
          exact eq_false_of_ne_true fun h => he ⟨c, w, rfl, h⟩
    have heq : ∀ more, EndsNumber more →
        exponentAndSuffix true n (word ++ more) = floatSuffix n (word ++ more) :=
      fun more hmore => exponentAndSuffix_of_ne (hne more hmore)
    refine (decides_floatSuffix hword n).imp (fun h more hmore => ?_) fun h more hmore => ?_
    · rw [heq more hmore, h more hmore]
    · rw [heq more hmore, h more hmore]

/-- Digits and a point are followed by what is left of a number. -/
theorem recognise_digits_point {c : Char} {digits after : List Char}
    (hdigits : ∀ d ∈ c :: digits, d.isDigit = true) (hafter : ∀ d ∈ after.head?, d.isDigit = false) :
    recognise c (digits ++ '.' :: after) = exponentAndSuffix true (digits.length + 1) after := by
  have hcount : countWhile Char.isDigit (digits ++ '.' :: after) = digits.length := by
    rw [countWhile_append fun d hd => hdigits d (List.mem_cons_of_mem c hd),
      countWhile_eq_zero fun d hd => by cases hd; rfl, Nat.add_zero]
  have hdrop : (digits ++ '.' :: after).drop (countWhile Char.isDigit (digits ++ '.' :: after)) =
      '.' :: after := by
    rw [hcount, List.drop_left]
  rw [recognise_digit (hdigits c List.mem_cons_self), number_decimal, decimal_point hdrop, hcount,
    countWhile_eq_zero hafter, List.drop_zero, Nat.add_zero]
  rintro ⟨-, x, hx, hmark⟩
  have hplain : x.isDigit = true ∨ x = '.' := by
    cases digits with
    | nil =>
        cases hx
        exact .inr rfl
    | cons d digits =>
        cases hx
        exact .inl (hdigits x (List.mem_cons_of_mem c List.mem_cons_self))
  rw [Bool.or_eq_true, beq_iff_eq, beq_iff_eq] at hmark
  obtain rfl | rfl := hmark <;> obtain h | h := hplain <;> cases h

end Lexer

/-! ## Names -/

/-- A name is made of characters of words, and does not start with a digit. -/
theorem isWord_of_isToken {text : List Char} (h : IsToken .identifier text) :
    (∀ c ∈ text, Lexer.isWordChar c = true) ∧ ∀ c ∈ text.head?, Lexer.isWordStart c = true := by
  obtain ⟨c, tail, rfl, hrecognise⟩ := h.recognised
  have hrecognised := Lexer.recognised_of_recognise hrecognise rfl
  generalize hkind : TokenKind.identifier = kind at hrecognised
  generalize hlength : tail.length = n at hrecognised
  cases hrecognised with
  | directive => cases hkind
  | number hc hnumber =>
      subst hkind
      obtain hnum | hbad := Lexer.isNumber_of_number c tail
      · rw [hnumber] at hnum
        cases hnum
      · rw [hnumber] at hbad
        cases hbad
  | word hc =>
      have htail : ∀ d ∈ tail, Lexer.isWordChar d = true := fun d hd =>
        Lexer.of_mem_take_countWhile (by rwa [← hlength, List.take_length])
      exact ⟨List.forall_mem_cons.mpr ⟨Lexer.isWordChar_of_isWordStart hc, htail⟩,
        fun d hd => by cases hd; exact hc⟩
  | point _ _ hpoint =>
      subst hkind
      obtain hfloat | hbad := Lexer.kind_of_point (Lexer.countWhile Char.isDigit tail)
        (tail.drop (Lexer.countWhile Char.isDigit tail))
      · rw [hpoint] at hfloat
        cases hfloat
      · rw [hpoint] at hbad
        cases hbad
  | symbol => cases hkind

/-- A word that is not reserved is a name. -/
theorem isToken_name {c : Char} {tail : List Char} (hc : Lexer.isWordStart c = true)
    (htail : ∀ d ∈ tail, Lexer.isWordChar d = true)
    (hword : Keyword.ofSpelling? (String.ofList (c :: tail)) = none) :
    IsToken .identifier (c :: tail) := by
  have hcount : Lexer.countWhile Lexer.isWordChar tail = tail.length := by
    have h : Lexer.countWhile Lexer.isWordChar (tail ++ []) = tail.length + 0 :=
      Lexer.countWhile_append htail
    rwa [List.append_nil] at h
  refine isToken_of_recognise ?_ rfl (by simp)
  rw [Lexer.recognise_word hc, hcount, List.take_length, Lexer.wordKind, hword]

/-! ## Glueing -/

theorem isGraphic_of_isDigit {c : Char} (h : c.isDigit = true) : isGraphic c = true :=
  isGraphic_of_isNumberChar (Lexer.isNumberChar_of_isWordChar (Lexer.isWordChar_of_isDigit h))

/-- The text of digits, a point and a name. -/
def gluedText (digits field : List Char) : List Char :=
  digits ++ '.' :: field

/-- Digits, a point and a name are one number, or a broken one. -/
theorem isToken_or_isBroken {digits field : List Char} (hne : digits ≠ [])
    (hdigits : ∀ d ∈ digits, d.isDigit = true) (hfield : IsToken .identifier field) :
    IsToken .floatLiteral (gluedText digits field) ∨ IsBroken (gluedText digits field) := by
  obtain ⟨hchars, hstart⟩ := isWord_of_isToken hfield
  obtain ⟨c, digits, rfl⟩ := List.exists_cons_of_ne_nil hne
  have hfirst : ∀ more, ∀ d ∈ (field ++ more).head?, d.isDigit = false := by
    intro more d hd
    obtain ⟨e, field, rfl⟩ := List.exists_cons_of_ne_nil hfield.ne_nil
    exact Lexer.isDigit_of_isWordStart (hstart d hd)
  have hrecognise : ∀ more, Lexer.recognise c (digits ++ '.' :: field ++ more) =
      Lexer.exponentAndSuffix true (digits.length + 1) (field ++ more) := by
    intro more
    rw [List.append_assoc, List.cons_append]
    exact Lexer.recognise_digits_point hdigits (hfirst more)
  refine (Lexer.decides_exponentAndSuffix hchars (digits.length + 1)).imp (fun h => ?_) fun h => ?_
  · refine isToken_of_recognise ?_ rfl (by simp)
    have hwhole := (hrecognise []).trans (h [] Lexer.endsNumber_nil)
    rw [List.append_nil] at hwhole
    change Lexer.recognise c (digits ++ '.' :: field) = (_, (digits ++ '.' :: field).length)
    rw [hwhole, List.length_append, List.length_cons, Nat.add_assoc, Nat.add_comm 1]
  · refine ⟨⟨c, digits ++ '.' :: field, rfl, hdigits c List.mem_cons_self, fun more hmore => ?_⟩, ?_⟩
    · rw [hrecognise]
      exact h more hmore
    · intro d hd
      simp only [gluedText, List.cons_append, List.mem_cons, List.mem_append] at hd
      obtain rfl | hd | rfl | hd := hd
      · exact isGraphic_of_isDigit (hdigits d List.mem_cons_self)
      · exact isGraphic_of_isDigit (hdigits d (List.mem_cons_of_mem c hd))
      · rfl
      · exact isGraphic_of_isNumberChar (Lexer.isNumberChar_of_isWordChar (hchars d hd))

end ShaderReducer
