import Mathlib.Algebra.Order.Group.Nat
import Mathlib.Data.List.TakeWhile
import ShaderReducer.Parser.Program
import ShaderReducer.Proofs.Token.Genuine

/-!
# Numbers that are written and read

A number below the bound of its bits is read back from its decimal digits, and so is a version from
its directive.
-/

namespace ShaderReducer

namespace Text

theorem digitValue?_of_isDigit {c : Char} (h : c.isDigit = true) :
    digitValue? c = some (c.toNat - '0'.toNat) ∧ c.toNat - '0'.toNat < 10 := by
  have hrange : 48 ≤ c.toNat ∧ c.toNat ≤ 57 := by
    simpa [Char.isDigit, UInt32.le_iff_toNat_le] using h
  have hle : '0' ≤ c ∧ c ≤ '9' := by
    constructor
    · exact UInt32.le_iff_toNat_le.mpr hrange.1
    · exact UInt32.le_iff_toNat_le.mpr hrange.2
  have hzero : '0'.toNat = 48 := rfl
  refine ⟨?_, by omega⟩
  rw [digitValue?, if_pos hle]

theorem digitsFrom?_of_isDigit {cs : List Char} (h : ∀ c ∈ cs, c.isDigit = true) (acc : Nat) :
    digitsFrom? 10 acc cs = some (Nat.ofDigitChars 10 cs acc) := by
  induction cs generalizing acc with
  | nil => rw [digitsFrom?, Nat.ofDigitChars_nil]
  | cons c cs ih =>
      obtain ⟨hvalue, hlt⟩ := digitValue?_of_isDigit (h c List.mem_cons_self)
      rw [digitsFrom?, hvalue, Nat.ofDigitChars_cons]
      dsimp only
      rw [if_pos hlt, ih (fun d hd => h d (List.mem_cons_of_mem c hd)), Nat.mul_comm]

theorem isDigit_toString {n : Nat} {c : Char} (h : c ∈ (toString n).toList) : c.isDigit = true := by
  change c ∈ n.repr.toList at h
  rw [Nat.toList_repr] at h
  exact Nat.isDigit_of_mem_toDigits (by decide) (by decide) h

theorem toString_injective : Function.Injective (toString : Nat → String) := by
  intro m n h
  have hdigits : Nat.toDigits 10 m = Nat.toDigits 10 n := by
    rw [← Nat.toList_repr, ← Nat.toList_repr]
    exact congrArg String.toList h
  rw [← Nat.ofDigitChars_ten_toDigits (n := m), hdigits, Nat.ofDigitChars_ten_toDigits]

theorem toString_ne_nil (n : Nat) : (toString n).toList ≠ [] := by
  change n.repr.toList ≠ []
  rw [Nat.toList_repr]
  exact Nat.toDigits_ne_nil

/-- No number but zero is written with a zero in front. -/
theorem head?_toDigits {n : ℕ} (h : n ≠ 0) : (Nat.toDigits 10 n).head? ≠ some '0' := by
  have hone : ∀ n < 10, n ≠ 0 → [n.digitChar].head? ≠ some '0' := by decide
  induction n using Nat.strong_induction_on with
  | h n ih =>
    rw [Nat.toDigits_eq_if (by decide)]
    split
    next hlt => exact hone n hlt h
    next hle =>
      have hfewer : n / 10 < n := Nat.div_lt_self (Nat.pos_of_ne_zero h) (by decide)
      have hhead := ih _ hfewer (by omega)
      obtain ⟨c, cs, hdigits⟩ := List.exists_cons_of_ne_nil (Nat.toDigits_ne_nil (n := n / 10) (b := 10))
      rw [hdigits] at hhead ⊢
      exact hhead

/-- A number with few enough bits is read back. -/
theorem natural?_toString {n bits : Nat} (h : n < 2 ^ bits) :
    natural? 10 bits (toString n).toList = some n := by
  have hvalue : digits? 10 (toString n).toList = some n := by
    have hnonempty : (toString n).toList.isEmpty = false :=
      List.isEmpty_eq_false_iff.mpr (toString_ne_nil n)
    rw [digits?, hnonempty, if_neg Bool.false_ne_true,
      digitsFrom?_of_isDigit fun c hc => isDigit_toString hc]
    change some (Nat.ofDigitChars 10 n.repr.toList 0) = _
    rw [Nat.toList_repr, Nat.ofDigitChars_toDigits (by decide) (by decide)]
  rw [natural?, hvalue]
  · exact if_pos h
  · intro rest hplus
    have hdigit : '+'.isDigit = true := isDigit_toString (hplus ▸ List.mem_cons_self)
    cases hdigit

/-! ## Words -/

theorem wordsAux_append {cs : List Char} (h : ∀ c ∈ cs, isBlank c = false) (word rest : List Char) :
    wordsAux word (cs ++ rest) = wordsAux (cs.reverse ++ word) rest := by
  induction cs generalizing word with
  | nil => rfl
  | cons c cs ih =>
      rw [List.cons_append, wordsAux_cons, h c List.mem_cons_self, if_neg Bool.false_ne_true,
        ih fun d hd => h d (List.mem_cons_of_mem c hd), List.reverse_cons, List.append_assoc,
        List.singleton_append]

theorem wordsAux_nil {word : List Char} (h : word ≠ []) :
    wordsAux word [] = [String.ofList word.reverse] := by
  rw [wordsAux, List.isEmpty_eq_false_iff.mpr h, if_neg Bool.false_ne_true]

theorem wordsAux_space {word : List Char} (h : word ≠ []) (rest : List Char) :
    wordsAux word (' ' :: rest) = String.ofList word.reverse :: wordsAux [] rest := by
  have hblank : isBlank ' ' = true := by decide
  rw [wordsAux_cons, if_pos hblank, List.isEmpty_eq_false_iff.mpr h, if_neg Bool.false_ne_true]

theorem words_space (rest : List Char) : words (' ' :: rest) = words rest := by
  have hblank : isBlank ' ' = true := by decide
  rw [words, wordsAux_cons, if_pos hblank]
  rfl

/-- The words of two words. -/
theorem words_two {cs ds : List Char} (hcs : ∀ c ∈ cs, isBlank c = false) (hne : cs ≠ [])
    (hds : ∀ d ∈ ds, isBlank d = false) (hne' : ds ≠ []) :
    words (cs ++ ' ' :: ds) = [String.ofList cs, String.ofList ds] := by
  have hlast := wordsAux_append hds [] []
  rw [List.append_nil, List.append_nil, wordsAux_nil (by simpa using hne')] at hlast
  rw [words, wordsAux_append hcs, List.append_nil, wordsAux_space (by simpa using hne), hlast,
    List.reverse_reverse, List.reverse_reverse]

/-- The words of one word. -/
theorem words_one {cs : List Char} (hcs : ∀ c ∈ cs, isBlank c = false) (hne : cs ≠ []) :
    words cs = [String.ofList cs] := by
  have hlast := wordsAux_append hcs [] []
  rw [List.append_nil, List.append_nil, wordsAux_nil (by simpa using hne)] at hlast
  rw [words, hlast, List.reverse_reverse]

end Text

/-- The size of an array is read back from its digits. -/
theorem Parser.integerValue?_toString {n : Nat} (h : n < 2 ^ 32) :
    integerValue? (toString n) = some n := by
  have hdigits : ∀ c ∈ (toString n).toList, c.isDigit = true := fun c hc => Text.isDigit_toString hc
  have hsuffix : ((toString n).toList.reverse.dropWhile fun c => c == 'u' || c == 'U').reverse =
      (toString n).toList := by
    rw [List.reverse_eq_iff, List.dropWhile_eq_self_iff]
    intro hlt hu
    have := hdigits _ (List.mem_reverse.mp (List.getElem_mem hlt))
    rw [Bool.or_eq_true, beq_iff_eq, beq_iff_eq] at hu
    obtain hu | hu := hu
    all_goals
      rw [hu] at this
      cases this
  rw [integerValue?, hsuffix]
  split
  next hhex =>
    have hdigit := hdigits 'x' (hhex ▸ List.mem_cons_of_mem _ List.mem_cons_self)
    cases hdigit
  next hhex =>
    have hdigit := hdigits 'X' (hhex ▸ List.mem_cons_of_mem _ List.mem_cons_self)
    cases hdigit
  next => exact Text.natural?_toString h

namespace Version

theorem isBlank_of_isDigit {c : Char} (h : c.isDigit = true) : Text.isBlank c = false :=
  isBlank_of_isGraphic (isGraphic_of_isNumberChar
    (Lexer.isNumberChar_of_isWordChar (Lexer.isWordChar_of_isDigit h)))

theorem toList_directive (v : Version) : v.directive.toList =
    '#' :: 'v' :: 'e' :: 'r' :: 's' :: 'i' :: 'o' :: 'n' :: ' ' ::
      ((toString v.number).toList ++ if v.es then [' ', 'e', 's'] else []) := by
  rw [directive]
  split <;> simp [*]

/-- A version is read back from its directive. -/
theorem ofDirective?_directive {v : Version} (h : v.number < 2 ^ 32) :
    ofDirective? v.directive = some v := by
  have hblank : ∀ c ∈ (toString v.number).toList, Text.isBlank c = false := fun c hc =>
    isBlank_of_isDigit (Text.isDigit_toString hc)
  have hne := Text.toString_ne_nil v.number
  have hnumber : ofDirective?.natural (toString v.number) = some v.number :=
    Text.natural?_toString h
  have htrim : ∀ cs, Text.trimStartList ('v' :: cs) = 'v' :: cs := fun cs =>
    List.dropWhile_cons_of_neg (by decide)
  rw [ofDirective?, toList_directive]
  obtain ⟨number, es⟩ := v
  dsimp only at hblank hne hnumber ⊢
  -- only what is known of the digits counts from here on
  generalize toString number = word at hblank hne hnumber ⊢
  cases es with
  | true =>
      have hwords : Text.words (' ' :: (word.toList ++ [' ', 'e', 's'])) =
          [word, "es"] := by
        have hes : ∀ d ∈ ['e', 's'], Text.isBlank d = false :=
          List.forall_mem_cons.mpr ⟨by decide, List.forall_mem_singleton.mpr (by decide)⟩
        rw [Text.words_space, Text.words_two hblank hne hes (List.cons_ne_nil _ _),
          String.ofList_toList]
      simp [htrim, hwords, hnumber]
  | false =>
      have hwords : Text.words (' ' :: word.toList) = [word] := by
        rw [Text.words_space, Text.words_one hblank hne, String.ofList_toList]
      simp [htrim, hwords, hnumber]

end Version

end ShaderReducer
