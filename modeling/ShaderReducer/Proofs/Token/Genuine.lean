import Mathlib.Data.List.TakeWhile
import ShaderReducer.Proofs.Token.Scan

/-!
# Texts that are tokens

A text that the lexer reads as one token, whatever stands around it. The tokens of any source are of
this kind unless they are malformed, and so are the spellings of reserved words and symbols.
-/

namespace ShaderReducer

open Text (isBlank trimEndList)

/-- A text that is one token: it is recognised to its end, is all on one line and does not end with
white space. -/
structure IsToken (kind : TokenKind) (text : List Char) : Prop where
  recognised : ∃ c tail, text = c :: tail ∧ Lexer.recognise c tail = (kind, tail.length)
  wellFormed : kind.isMalformed = false
  oneLine : '\n' ∉ text
  trimmed : trimEndList text = text

/-! ## White space -/

/-- A visible character of the ASCII ones. -/
def isGraphic (c : Char) : Bool :=
  0x21 ≤ c.toNat && c.toNat ≤ 0x7E

theorem isBlank_of_isGraphic {c : Char} (h : isGraphic c = true) : isBlank c = false := by
  rw [isGraphic, Bool.and_eq_true, decide_eq_true_eq, decide_eq_true_eq] at h
  refine eq_false_of_ne_true fun hblank => ?_
  rw [isBlank, Text.inRanges_iff _ 0 _ (by decide)] at hblank
  obtain ⟨r, hr, hle⟩ := hblank
  simp only [Text.blankRanges, List.mem_cons, List.not_mem_nil, or_false] at hr
  obtain rfl | rfl | rfl | rfl | rfl | rfl | rfl | rfl | rfl | rfl := hr
  all_goals
    dsimp only at hle
    omega

theorem isGraphic_of_isNumberChar {c : Char} (h : Lexer.isNumberChar c = true) :
    isGraphic c = true := by
  have hc : c.toNat = c.val.toNat := rfl
  simp only [Lexer.isNumberChar, Lexer.isWordChar, Char.isAlphanum, Lexer.isAlpha_iff,
    Char.isDigit, Bool.or_eq_true, Bool.and_eq_true, decide_eq_true_eq, beq_iff_eq, ge_iff_le,
    UInt32.le_iff_toNat_le] at h
  rw [isGraphic, Bool.and_eq_true, decide_eq_true_eq, decide_eq_true_eq, hc]
  have h0 : ('0' : Char).val.toNat = 48 := rfl
  have h9 : ('9' : Char).val.toNat = 57 := rfl
  have hA : ('A' : Char).val.toNat = 65 := rfl
  have hZ : ('Z' : Char).val.toNat = 90 := rfl
  have ha : ('a' : Char).val.toNat = 97 := rfl
  have hz : ('z' : Char).val.toNat = 122 := rfl
  obtain (((rfl | ((h | h) | h)) | rfl) | rfl) | rfl := h
  · decide
  · omega
  · omega
  · omega
  all_goals decide

/-- The spelling of a symbol is what stands in the text. -/
theorem Lexer.spelling_of_symbol? {c : Char} {rest : List Char} {sign : Symbol} {n : Nat}
    (h : symbol? c rest = some (sign, n)) : c :: rest.take n = sign.spelling.toList := by
  unfold symbol? at h
  split at h
  all_goals try split at h
  all_goals cases h
  all_goals rfl

theorem Symbol.isGraphic_spelling (sign : Symbol) :
    ∀ c ∈ sign.spelling.toList, isGraphic c = true :=
  List.all_eq_true.mp (by cases sign <;> rfl)

/-- A token that is no directive holds no white space. -/
theorem Lexer.isGraphic_of_recognise {c : Char} {rest : List Char} {kind : TokenKind} {n : Nat}
    (h : recognise c rest = (kind, n)) (hkind : kind.isMalformed = false)
    (hdirective : kind ≠ .directive) : ∀ d ∈ c :: rest.take n, isGraphic d = true := by
  have hchars : ∀ d, isWordChar d = true → isGraphic d = true := fun d hd =>
    isGraphic_of_isNumberChar (isNumberChar_of_isWordChar hd)
  cases recognised_of_recognise h hkind with
  | directive hc => exact absurd rfl hdirective
  | number hc hnumber =>
      rintro d (_ | ⟨_, hd⟩)
      · exact hchars c (isWordChar_of_isDigit hc)
      · exact isGraphic_of_isNumberChar ((stops_digit hc hnumber hkind).2.1 d hd)
  | word hc =>
      rintro d (_ | ⟨_, hd⟩)
      · exact hchars c (isWordChar_of_isWordStart hc)
      · exact hchars d (of_mem_take_countWhile hd)
  | point hc hhead hpoint =>
      subst hc
      rintro d (_ | ⟨_, hd⟩)
      · rfl
      · exact isGraphic_of_isNumberChar ((stops_point hhead hpoint hkind).2.1 d hd)
  | symbol hc hhash hpoint hsymbol =>
      rw [spelling_of_symbol? hsymbol]
      exact Symbol.isGraphic_spelling _

/-! ## Trimming -/

theorem trimEndList_append_singleton {cs : List Char} {c : Char} (hc : isBlank c = false) :
    trimEndList (cs ++ [c]) = cs ++ [c] := by
  rw [trimEndList, List.reverse_append, List.reverse_singleton, List.singleton_append,
    List.dropWhile_cons_of_neg (by rw [hc]; exact Bool.false_ne_true), ← List.singleton_append,
    List.reverse_append, List.reverse_reverse, List.reverse_singleton]

theorem trimEndList_of_forall {cs : List Char} (h : ∀ c ∈ cs, isBlank c = false) :
    trimEndList cs = cs := by
  obtain rfl | ⟨init, c, rfl⟩ := List.eq_nil_or_concat cs
  · rfl
  · rw [List.concat_eq_append] at h ⊢
    exact trimEndList_append_singleton (h c (List.mem_append_right init List.mem_cons_self))

/-- The end of a trimmed text is no white space. -/
theorem getLast_trimEndList {cs : List Char} {c : Char} (h : (trimEndList cs).getLast? = some c) :
    isBlank c = false := by
  rw [trimEndList, List.getLast?_reverse] at h
  have hhead := List.head?_dropWhile_not isBlank cs.reverse
  rwa [h] at hhead

theorem trimEndList_trimEndList (cs : List Char) : trimEndList (trimEndList cs) = trimEndList cs := by
  cases h : (trimEndList cs).getLast? with
  | none =>
      rw [List.getLast?_eq_none_iff.mp h]
      rfl
  | some c =>
      obtain ⟨init, hinit⟩ := List.getLast?_eq_some_iff.mp h
      rw [hinit]
      exact trimEndList_append_singleton (getLast_trimEndList h)

theorem isPrefix_trimEndList (cs : List Char) : trimEndList cs <+: cs := by
  rw [trimEndList, ← List.reverse_suffix, List.reverse_reverse]
  exact List.dropWhile_suffix isBlank

theorem trimEndList_cons {c : Char} (hc : isBlank c = false) (cs : List Char) :
    ∃ tail, tail <+: cs ∧ trimEndList (c :: cs) = c :: tail := by
  have hne : trimEndList (c :: cs) ≠ [] := by
    intro h
    rw [trimEndList, List.reverse_eq_nil_iff, List.dropWhile_eq_nil_iff] at h
    exact Bool.false_ne_true
      (hc.symm.trans (h c (List.mem_reverse.mpr List.mem_cons_self)))
  obtain ⟨d, tail, htail⟩ := List.exists_cons_of_ne_nil hne
  have hstarts := isPrefix_trimEndList (c :: cs)
  rw [htail, List.cons_prefix_cons] at hstarts
  obtain ⟨rfl, hstarts⟩ := hstarts
  exact ⟨tail, hstarts, htail⟩

/-! ## Genuine tokens -/

theorem newline_notMem_of_isGraphic {cs : List Char} (h : ∀ c ∈ cs, isGraphic c = true) :
    '\n' ∉ cs := fun hmem => Bool.false_ne_true (h '\n' hmem)

/-- A text that is recognised to its end and is no directive is a token. -/
theorem isToken_of_recognise {c : Char} {tail : List Char} {kind : TokenKind}
    (h : Lexer.recognise c tail = (kind, tail.length)) (hkind : kind.isMalformed = false)
    (hdirective : kind ≠ .directive) : IsToken kind (c :: tail) := by
  have hgraphic := Lexer.isGraphic_of_recognise h hkind hdirective
  rw [List.take_length] at hgraphic
  exact ⟨⟨c, tail, rfl, h⟩, hkind, newline_notMem_of_isGraphic hgraphic,
    trimEndList_of_forall fun d hd => isBlank_of_isGraphic (hgraphic d hd)⟩

theorem isToken_keyword (word : Keyword) : IsToken (.keyword word) word.spelling.toList := by
  have h : ∃ c tail, word.spelling.toList = c :: tail ∧
      Lexer.recognise c tail = (.keyword word, tail.length) := by
    cases word <;> exact ⟨_, _, rfl, by decide +kernel⟩
  obtain ⟨c, tail, htext, hrecognise⟩ := h
  rw [htext]
  exact isToken_of_recognise hrecognise rfl (by simp)

theorem isToken_symbol (sign : Symbol) : IsToken (.symbol sign) sign.spelling.toList := by
  have h : ∃ c tail, sign.spelling.toList = c :: tail ∧
      Lexer.recognise c tail = (.symbol sign, tail.length) := by
    cases sign <;> exact ⟨_, _, rfl, rfl⟩
  obtain ⟨c, tail, htext, hrecognise⟩ := h
  rw [htext]
  exact isToken_of_recognise hrecognise rfl (by simp)

/-- A line that starts with `#` and does not end with white space is a directive. -/
theorem isToken_directive {tail : List Char} (hline : '\n' ∉ tail)
    (htrimmed : trimEndList ('#' :: tail) = '#' :: tail) : IsToken .directive ('#' :: tail) := by
  refine ⟨⟨'#', tail, rfl, ?_⟩, rfl, ?_, htrimmed⟩
  · have hcount : Lexer.countWhile (· != '\n') (tail ++ []) = tail.length + 0 :=
      Lexer.countWhile_append fun c hc => bne_iff_ne.mpr fun h => hline (h ▸ hc)
    rw [List.append_nil] at hcount
    rw [Lexer.recognise_directive, hcount]
    rfl
  · rintro (_ | ⟨_, h⟩)
    exact hline h

/-- A row of digits is an integer. -/
theorem isToken_digits {c : Char} {tail : List Char} (h : ∀ d ∈ c :: tail, d.isDigit = true) :
    IsToken .intLiteral (c :: tail) := by
  have hc : c.isDigit = true := h c List.mem_cons_self
  have htail : ∀ d ∈ tail, d.isDigit = true := fun d hd => h d (List.mem_cons_of_mem c hd)
  refine isToken_of_recognise ?_ rfl (by simp)
  have hcount : Lexer.countWhile Char.isDigit (tail ++ []) = tail.length + 0 :=
    Lexer.countWhile_append htail
  rw [List.append_nil] at hcount
  have hdrop : tail.drop (Lexer.countWhile Char.isDigit tail) = [] := by
    rw [hcount]
    exact List.drop_eq_nil_of_le (Nat.le_add_right _ _)
  rw [Lexer.recognise_digit hc, Lexer.number_decimal, Lexer.decimal_whole, hdrop, hcount]
  · rfl
  · rw [hdrop]
    exact fun d hd => nomatch hd
  · rintro ⟨-, x, hx, hmark⟩
    have hdigit := htail x (List.mem_of_mem_head? hx)
    rw [Bool.or_eq_true, beq_iff_eq, beq_iff_eq] at hmark
    obtain rfl | rfl := hmark <;> cases hdigit

/-- Natural numbers are written with digits. -/
theorem isToken_natural (n : Nat) : IsToken .intLiteral (toString n).toList := by
  change IsToken _ n.repr.toList
  rw [Nat.toList_repr]
  have hdigits : ∀ d ∈ Nat.toDigits 10 n, d.isDigit = true := fun d hd =>
    Nat.isDigit_of_mem_toDigits (by decide) (by decide) hd
  obtain ⟨c, tail, h⟩ := List.exists_cons_of_ne_nil (Nat.toDigits_ne_nil (n := n) (b := 10))
  rw [h] at hdigits ⊢
  exact isToken_digits hdigits

namespace Lexer

/-- What does not start with `#` is a number, a word or a symbol. -/
theorem Recognised.kind_of_ne {c : Char} {rest : List Char} {kind : TokenKind} {n : Nat}
    (h : Recognised c rest kind n) (hkind : kind.isMalformed = false) (hc : c ≠ '#') :
    kind.isNumber = true ∨ kind = .identifier ∨ (∃ word, kind = .keyword word) ∨
      ∃ sign, kind = .symbol sign := by
  cases h with
  | directive hc' => exact absurd hc' hc
  | number _ hnumber =>
      obtain hnum | hbad := isNumber_of_number c rest
      · rw [hnumber] at hnum
        exact .inl hnum
      · rw [hnumber] at hbad
        subst hbad
        cases hkind
  | word _ =>
      unfold wordKind
      split
      · exact .inr (.inr (.inl ⟨_, rfl⟩))
      · exact .inr (.inl rfl)
  | point _ _ hpoint =>
      obtain hfloat | hbad := kind_of_point (countWhile Char.isDigit rest)
        (rest.drop (countWhile Char.isDigit rest))
      · rw [hpoint] at hfloat
        exact .inl (congrArg TokenKind.isNumber hfloat)
      · rw [hpoint] at hbad
        subst hbad
        cases hkind
  | symbol _ _ _ _ => exact .inr (.inr (.inr ⟨_, rfl⟩))

/-- Only what starts with `#` is a directive. -/
theorem directive_of_recognise {c : Char} {rest : List Char} {n : Nat}
    (h : recognise c rest = (.directive, n)) : c = '#' ∧ n = countWhile (· != '\n') rest := by
  by_cases hc : c = '#'
  · subst hc
    exact ⟨rfl, (congrArg Prod.snd h).symm⟩
  · obtain hnum | hword | ⟨_, hword⟩ | ⟨_, hsign⟩ :=
      (recognised_of_recognise h rfl).kind_of_ne rfl hc
    · cases hnum
    · cases hword
    · cases hword
    · cases hsign

/-- No text stands for the end of a text. -/
theorem recognise_ne_endOfFile (c : Char) (rest : List Char) :
    (recognise c rest).1 ≠ .endOfFile := by
  cases hrecognise : recognise c rest with
  | mk kind n =>
    rintro rfl
    by_cases hc : c = '#'
    · subst hc
      cases hrecognise
    · obtain hnum | hword | ⟨_, hword⟩ | ⟨_, hsign⟩ :=
        (recognised_of_recognise hrecognise rfl).kind_of_ne rfl hc
      · cases hnum
      · cases hword
      · cases hword
      · cases hsign

/-- What the lexer takes out of a text is a token if it is not malformed. -/
theorem isToken_lexeme {c : Char} {rest : List Char} {kind : TokenKind} {n : Nat}
    (h : recognise c rest = (kind, n)) (hkind : kind.isMalformed = false) :
    IsToken kind (lexeme kind (c :: rest.take n)).toList := by
  obtain ⟨hlength, hagain⟩ := stops_recognise h hkind
  have hcut := hagain [] fun d hd => nomatch hd
  rw [List.append_nil] at hcut
  by_cases hdirective : kind = .directive
  · subst hdirective
    obtain ⟨rfl, rfl⟩ := directive_of_recognise h
    obtain ⟨tail, hstarts, htail⟩ := trimEndList_cons (c := '#') (by decide)
      (rest.take (countWhile (· != '\n') rest))
    rw [lexeme, String.toList_ofList, htail]
    refine isToken_directive (fun hline => ?_) ?_
    · have hne := of_mem_take_countWhile (p := (· != '\n')) (hstarts.subset hline)
      exact bne_iff_ne.mp hne rfl
    · rw [← htail, trimEndList_trimEndList]
  · have htext : lexeme kind (c :: rest.take n) = String.ofList (c :: rest.take n) := by
      cases kind <;> first | rfl | exact absurd rfl hdirective
    rw [htext, String.toList_ofList]
    refine isToken_of_recognise ?_ hkind hdirective
    rw [hcut, List.length_take, Nat.min_eq_left hlength]

end Lexer

end ShaderReducer
