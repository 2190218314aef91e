import Mathlib.Tactic.Common
import ShaderReducer.Token.Lexer

/-!
# Where tokens end

The lexer looks no further than one character behind a token. So a token is recognised again in front
of any other text, unless that starts with a character that goes on the token.
-/

namespace ShaderReducer

namespace Lexer

/-! ## Counting -/

theorem countWhile_cons (p : Char → Bool) (c : Char) (cs : List Char) :
    countWhile p (c :: cs) = if p c then countWhile p cs + 1 else 0 := by
  rw [countWhile, List.takeWhile_cons]
  cases p c <;> rfl

theorem countWhile_le (p : Char → Bool) (cs : List Char) : countWhile p cs ≤ cs.length :=
  (List.takeWhile_sublist p).length_le

theorem countWhile_eq_zero {p : Char → Bool} {cs : List Char} (h : ∀ c ∈ cs.head?, p c = false) :
    countWhile p cs = 0 := by
  cases cs with
  | nil => rfl
  | cons c cs => rw [countWhile_cons, h c rfl, if_neg Bool.false_ne_true]

/-- What is counted at the head of a text is counted in any part that holds it. -/
theorem countWhile_take_append {p : Char → Bool} {cs more : List Char} {n : Nat}
    (hn : countWhile p cs ≤ n) (hmore : ∀ c ∈ more.head?, p c = false) :
    countWhile p (cs.take n ++ more) = countWhile p cs := by
  induction cs generalizing n with
  | nil => rw [List.take_nil, List.nil_append, countWhile_eq_zero hmore, countWhile_eq_zero (by simp)]
  | cons c cs ih =>
      rw [countWhile_cons] at hn ⊢
      by_cases hc : p c = true
      · rw [if_pos hc] at hn ⊢
        obtain ⟨n, rfl⟩ : ∃ k, n = k + 1 := ⟨n - 1, by omega⟩
        rw [List.take_succ_cons, List.cons_append, countWhile_cons, if_pos hc, ih (by omega)]
      · rw [if_neg hc]
        refine countWhile_eq_zero ?_
        cases n with
        | zero => exact hmore
        | succ n =>
            rintro d hd
            cases hd
            exact eq_false_of_ne_true hc

/-- A text of characters that all count is counted to its end. -/
theorem countWhile_append {p : Char → Bool} {cs more : List Char} (hcs : ∀ c ∈ cs, p c = true) :
    countWhile p (cs ++ more) = cs.length + countWhile p more := by
  induction cs with
  | nil => rw [List.nil_append, List.length_nil, Nat.zero_add]
  | cons c cs ih =>
      rw [List.cons_append, countWhile_cons, if_pos (hcs c List.mem_cons_self),
        ih fun d hd => hcs d (List.mem_cons_of_mem c hd), List.length_cons]
      omega

theorem of_mem_take_countWhile {p : Char → Bool} {cs : List Char} {c : Char}
    (hc : c ∈ cs.take (countWhile p cs)) : p c = true := by
  rw [countWhile, ← List.prefix_iff_eq_take.mp (List.takeWhile_prefix _)] at hc
  exact List.all_eq_true.mp List.all_takeWhile c hc

/-- A part of a text holds what is in its head and in what follows that. -/
theorem mem_take_of_le {cs : List Char} {k n : Nat} (hk : k ≤ n) {c : Char} (hc : c ∈ cs.take n) :
    c ∈ cs.take k ∨ c ∈ (cs.drop k).take (n - k) := by
  obtain ⟨j, rfl⟩ := Nat.exists_eq_add_of_le hk
  rw [List.take_add, List.mem_append] at hc
  rwa [Nat.add_sub_cancel_left]

theorem drop_take_append {cs more : List Char} {k n : Nat} (hk : k ≤ n) (hcs : k ≤ cs.length) :
    (cs.take n ++ more).drop k = (cs.drop k).take (n - k) ++ more := by
  rw [List.drop_append_of_le_length (by rw [List.length_take]; omega), List.drop_take]

/-! ## Numbers -/

theorem isAlpha_iff {c : Char} : c.isAlpha = true ↔
    ('A'.val ≤ c.val ∧ c.val ≤ 'Z'.val) ∨ ('a'.val ≤ c.val ∧ c.val ≤ 'z'.val) := by
  change (decide _ || (decide _ && decide _)) = true ↔ _
  rw [Bool.or_eq_true, Bool.and_eq_true, decide_eq_true_iff, decide_eq_true_iff, decide_eq_true_iff]

theorem isWordChar_of_isDigit {c : Char} (h : c.isDigit = true) : isWordChar c = true := by
  rw [isWordChar, Char.isAlphanum, h, Bool.or_true, Bool.or_true]

/-- A text does not start with a character of a word. -/
def EndsWord (more : List Char) : Prop :=
  ∀ c ∈ more.head?, isWordChar c = false

theorem EndsWord.ne {more : List Char} (h : EndsWord more) {d : Char}
    (hd : isWordChar d = true) : ∀ c ∈ more.head?, (c == d) = false := by
  intro c hc
  rw [beq_eq_false_iff_ne]
  rintro rfl
  rw [h c hc] at hd
  exact Bool.false_ne_true hd

theorem EndsWord.isDigit {more : List Char} (h : EndsWord more) :
    ∀ c ∈ more.head?, c.isDigit = false := by
  intro c hc
  by_contra hdigit
  rw [Bool.not_eq_false] at hdigit
  exact Bool.false_ne_true ((h c hc).symm.trans (isWordChar_of_isDigit hdigit))

/-- A text goes on no number: it starts neither with a character of a word, nor with a sign and a
digit, which might belong to an exponent. -/
structure EndsNumber (more : List Char) : Prop where
  word : EndsWord more
  sign : ∀ s d tail, more = s :: d :: tail → s = '+' ∨ s = '-' → d.isDigit = false

theorem endsNumber_nil : EndsNumber [] :=
  ⟨fun _ h => (nomatch h), fun _ _ _ h => (nomatch h)⟩

/-- A character of a number: of a word, the point, or a sign. -/
def isNumberChar (c : Char) : Bool :=
  isWordChar c || c == '.' || c == '+' || c == '-'

theorem isNumberChar_of_isWordChar {c : Char} (h : isWordChar c = true) : isNumberChar c = true := by
  rw [isNumberChar, h]
  rfl

/-- A scan that has passed `n` characters passes only characters of numbers, and finds again what it
has found if the text is cut off behind that and goes on with no character of a word. -/
def Stops (scan : List Char → TokenKind × Nat) (n : Nat) : Prop :=
  ∀ rest kind m, scan rest = (kind, m) → kind.isMalformed = false →
    n ≤ m ∧ m - n ≤ rest.length ∧ (∀ c ∈ rest.take (m - n), isNumberChar c = true) ∧
      ∀ more, EndsWord more → scan (rest.take (m - n) ++ more) = (kind, m)

theorem stops_suffixed (plain marked : TokenKind) {lower upper : Char}
    (hlower : isWordChar lower = true) (hupper : isWordChar upper = true) (n : Nat) :
    Stops (suffixed plain marked lower upper n) n := by
  -- behind the suffix nothing is read, so what follows may be anything that ends a word
  have hplain : ∀ more, EndsWord more → suffixed plain marked lower upper n more = (plain, n) := by
    intro more hmore
    cases more with
    | nil => rfl
    | cons c more =>
        have hc := hmore c rfl
        simp [suffixed, hmore.ne hlower c rfl, hmore.ne hupper c rfl, hc]
  intro rest kind m h hkind
  cases rest with
  | nil =>
      cases h
      exact ⟨Nat.le_refl n, by simp, by simp, fun more hmore => by simpa using hplain more hmore⟩
  | cons c after =>
      simp only [suffixed] at h
      by_cases hc : (c == lower || c == upper) = true
      · rw [if_pos hc] at h
        have hm : kind = marked ∧ m = n + 1 := by
          cases after with
          | nil => exact ⟨(congrArg Prod.fst h).symm, (congrArg Prod.snd h).symm⟩
          | cons d after =>
              dsimp only at h
              split at h
              · cases h
                cases hkind
              · exact ⟨(congrArg Prod.fst h).symm, (congrArg Prod.snd h).symm⟩
        obtain ⟨rfl, rfl⟩ := hm
        rw [Nat.add_sub_cancel_left]
        refine ⟨by omega, by simp, ?_, fun more hmore => ?_⟩
        · intro d hd
          rw [List.take_succ_cons, List.take_zero, List.mem_singleton] at hd
          subst hd
          rw [Bool.or_eq_true, beq_iff_eq, beq_iff_eq] at hc
          obtain rfl | rfl := hc
          · exact isNumberChar_of_isWordChar hlower
          · exact isNumberChar_of_isWordChar hupper
        change suffixed plain kind lower upper n (c :: more) = _
        simp only [suffixed]
        rw [if_pos hc]
        cases more with
        | nil => rfl
        | cons d more => simp [hmore d rfl]
      · rw [if_neg hc] at h
        split at h
        · cases h
          cases hkind
        · cases h
          exact ⟨Nat.le_refl n, by simp, by simp, fun more hmore => by simpa using hplain more hmore⟩

theorem stops_integerSuffix (n : Nat) : Stops (integerSuffix n) n :=
  stops_suffixed _ _ (by decide) (by decide) n

theorem stops_floatSuffix (n : Nat) : Stops (floatSuffix n) n :=
  stops_suffixed _ _ (by decide) (by decide) n

/-- Without an exponent the suffix decides. -/
theorem exponentAndSuffix_of_ne {isFloat : Bool} {n : Nat} {rest : List Char}
    (he : ∀ c ∈ rest.head?, (c == 'e' || c == 'E') = false) :
    exponentAndSuffix isFloat n rest =
      if (isFloat || rest.head?.any fun c => c == 'f' || c == 'F') = true then floatSuffix n rest
      else integerSuffix n rest := by
  cases rest with
  | nil => cases isFloat <;> rfl
  | cons c rest =>
      unfold exponentAndSuffix
      dsimp only
      rw [if_neg (by rw [he c rfl]; exact Bool.false_ne_true)]
      simp [Bool.or_assoc]

/-- The sign of an exponent counts as one character. -/
def signLength (rest : List Char) : Nat :=
  match rest with
  | s :: _ => if s == '+' || s == '-' then 1 else 0
  | [] => 0

/-- With an exponent there have to be digits. -/
theorem exponentAndSuffix_cons {isFloat : Bool} {n : Nat} {c : Char} {after : List Char}
    (hc : (c == 'e' || c == 'E') = true) :
    exponentAndSuffix isFloat n (c :: after) =
      if countWhile Char.isDigit (after.drop (signLength after)) = 0 then
        invalidNumber (n + 1 + signLength after) (after.drop (signLength after))
      else floatSuffix
        (n + 1 + signLength after + countWhile Char.isDigit (after.drop (signLength after)))
        (after.drop (signLength after + countWhile Char.isDigit (after.drop (signLength after)))) := by
  conv =>
    lhs
    unfold exponentAndSuffix
  dsimp only
  rw [if_pos hc]
  rfl

theorem isNumberChar_of_mem_sign {rest : List Char} {c : Char}
    (hc : c ∈ rest.take (signLength rest)) : isNumberChar c = true := by
  cases rest with
  | nil => cases hc
  | cons s rest =>
      rw [signLength] at hc
      split at hc
      next hs =>
        rw [List.take_succ_cons, List.take_zero, List.mem_singleton] at hc
        subst hc
        rw [Bool.or_eq_true, beq_iff_eq, beq_iff_eq] at hs
        obtain rfl | rfl := hs <;> rfl
      next => cases hc

theorem signLength_append {rest more : List Char} {n : Nat} (hn : signLength rest < n)
    (hrest : signLength rest < rest.length) : signLength (rest.take n ++ more) = signLength rest := by
  cases rest with
  | nil => exact absurd hrest (Nat.not_lt_zero _)
  | cons c rest =>
      obtain ⟨n, rfl⟩ : ∃ k, n = k + 1 := ⟨n - 1, by omega⟩
      rfl

theorem lt_of_suffixed {plain marked : TokenKind} {lower upper : Char} {n : Nat} {c : Char}
    {after : List Char} {kind : TokenKind} {m : Nat} (hc : (c == lower || c == upper) = true)
    (h : suffixed plain marked lower upper n (c :: after) = (kind, m))
    (hkind : kind.isMalformed = false) : n < m := by
  simp only [suffixed] at h
  rw [if_pos hc] at h
  cases after with
  | nil =>
      cases h
      omega
  | cons d after =>
      dsimp only at h
      split at h
      · cases h
        cases hkind
      · cases h
        omega

/-- What a cut text starts with is no other character than before, if that is one of a word. -/
theorem head?_take_append {p : Char → Bool} {rest more : List Char} {k : Nat}
    (hrest : ∀ c ∈ rest.head?, p c = false) (hmore : ∀ c ∈ more.head?, p c = false) :
    ∀ c ∈ (rest.take k ++ more).head?, p c = false := by
  cases k with
  | zero => exact hmore
  | succ k =>
      cases rest with
      | nil => exact hmore
      | cons d rest => exact hrest

theorem EndsWord.or {more : List Char} (h : EndsWord more) {d e : Char}
    (hd : isWordChar d = true) (he : isWordChar e = true) :
    ∀ c ∈ more.head?, (c == d || c == e) = false := fun c hc =>
  Bool.or_eq_false_iff.mpr ⟨h.ne hd c hc, h.ne he c hc⟩

theorem stops_withoutExponent {isFloat : Bool} {n : Nat} {rest : List Char} {kind : TokenKind}
    {m : Nat} (he : ∀ c ∈ rest.head?, (c == 'e' || c == 'E') = false)
    (h : exponentAndSuffix isFloat n rest = (kind, m)) (hkind : kind.isMalformed = false) :
    n ≤ m ∧ m - n ≤ rest.length ∧ (∀ c ∈ rest.take (m - n), isNumberChar c = true) ∧
      ∀ more, EndsWord more → exponentAndSuffix isFloat n (rest.take (m - n) ++ more) = (kind, m) := by
  rw [exponentAndSuffix_of_ne he] at h
  split at h
  next hfloat =>
    obtain ⟨hle, hlength, hchars, hagain⟩ := stops_floatSuffix n rest kind m h hkind
    refine ⟨hle, hlength, hchars, fun more hmore => ?_⟩
    rw [exponentAndSuffix_of_ne (head?_take_append he (hmore.or rfl rfl)), if_pos, hagain more hmore]
    cases isFloat with
    | true => rfl
    | false =>
        cases rest with
        | nil => cases hfloat
        | cons c after =>
            -- the suffix is the next character, so it is not cut off
            have hlt : n < m := lt_of_suffixed hfloat h hkind
            obtain ⟨k, hk⟩ : ∃ k, m - n = k + 1 := ⟨m - n - 1, by omega⟩
            rw [hk]
            exact hfloat
  next hinteger =>
    obtain ⟨hle, hlength, hchars, hagain⟩ := stops_integerSuffix n rest kind m h hkind
    refine ⟨hle, hlength, hchars, fun more hmore => ?_⟩
    rw [exponentAndSuffix_of_ne (head?_take_append he (hmore.or rfl rfl)), if_neg, hagain more hmore]
    rw [Bool.or_eq_true, not_or, Bool.not_eq_true, Bool.not_eq_true, Option.any_eq_false] at hinteger ⊢
    exact ⟨hinteger.1, fun c hc =>
      head?_take_append (fun c hc => by simpa using hinteger.2 c hc) (hmore.or rfl rfl) c hc⟩

theorem stops_exponentAndSuffix (isFloat : Bool) (n : Nat) :
    Stops (exponentAndSuffix isFloat n) n := by
  intro rest kind m h hkind
  by_cases he : ∀ c ∈ rest.head?, (c == 'e' || c == 'E') = false
  · exact stops_withoutExponent he h hkind
  · cases rest with
    | nil => simp at he
    | cons c after =>
        have hc : (c == 'e' || c == 'E') = true := by
          by_contra hc
          exact he fun d hd => by cases hd; exact eq_false_of_ne_true hc
        rw [exponentAndSuffix_cons hc] at h
        split at h
        next =>
          cases h
          cases hkind
        next hdigits =>
          obtain ⟨hle, hlength, hchars, hagain⟩ := stops_floatSuffix _ _ kind m h hkind
          have hcount := countWhile_le Char.isDigit (after.drop (signLength after))
          rw [List.length_drop] at hcount hlength
          obtain ⟨k, hk⟩ : ∃ k, m - n = k + 1 := ⟨m - n - 1, by omega⟩
          refine ⟨by omega, by rw [List.length_cons]; omega, ?_, fun more hmore => ?_⟩
          · intro d hd
            rw [hk, List.take_succ_cons, List.mem_cons] at hd
            obtain rfl | hd := hd
            · rw [Bool.or_eq_true, beq_iff_eq, beq_iff_eq] at hc
              obtain rfl | rfl := hc <;> rfl
            obtain hd | hd := mem_take_of_le (k := signLength after) (by omega) hd
            · exact isNumberChar_of_mem_sign hd
            obtain hd | hd := mem_take_of_le
              (k := countWhile Char.isDigit (after.drop (signLength after))) (by omega) hd
            · exact isNumberChar_of_isWordChar (isWordChar_of_isDigit (of_mem_take_countWhile hd))
            · refine hchars d ?_
              rw [List.drop_drop] at hd
              convert hd using 2
              omega
          have hsign : signLength (after.take k ++ more) = signLength after :=
            signLength_append (by omega) (by omega)
          have hdrop : (after.take k ++ more).drop (signLength after) =
              (after.drop (signLength after)).take (k - signLength after) ++ more :=
            drop_take_append (by omega) (by omega)
          have hagainCount : countWhile Char.isDigit
              ((after.drop (signLength after)).take (k - signLength after) ++ more) =
                countWhile Char.isDigit (after.drop (signLength after)) :=
            countWhile_take_append (by omega) hmore.isDigit
          rw [hk, List.take_succ_cons, List.cons_append, exponentAndSuffix_cons hc, hsign, hdrop,
            hagainCount, if_neg hdigits, drop_take_append (by omega) (by omega)]
          rw [← hagain more hmore]
          congr 3
          omega

/-- The further digits of a number that starts with `0x`. -/
theorem number_hex {x : Char} {after : List Char} (hx : (x == 'x' || x == 'X') = true) :
    number '0' (x :: after) =
      if countWhile isHexDigit after = 0 then invalidNumber 1 after
      else integerSuffix (1 + countWhile isHexDigit after)
        (after.drop (countWhile isHexDigit after)) := by
  simp only [number]
  rw [if_pos hx]

theorem number_decimal {first : Char} {rest : List Char}
    (h : ¬ (first = '0' ∧ ∃ x ∈ rest.head?, (x == 'x' || x == 'X') = true)) :
    number first rest = number.decimal rest := by
  unfold number
  split
  next x after =>
    rw [if_neg]
    intro hx
    exact h ⟨rfl, x, rfl, hx⟩
  next => rfl

theorem decimal_point {rest after : List Char}
    (h : rest.drop (countWhile Char.isDigit rest) = '.' :: after) :
    number.decimal rest = exponentAndSuffix true
      (countWhile Char.isDigit rest + 1 + countWhile Char.isDigit after)
      (after.drop (countWhile Char.isDigit after)) := by
  simp only [number.decimal, h]

theorem decimal_whole {rest : List Char}
    (h : ∀ c ∈ (rest.drop (countWhile Char.isDigit rest)).head?, c ≠ '.') :
    number.decimal rest = exponentAndSuffix false (countWhile Char.isDigit rest)
      (rest.drop (countWhile Char.isDigit rest)) := by
  unfold number.decimal
  dsimp only
  split
  next after heq =>
    rw [heq] at h
    exact absurd rfl (h '.' rfl)
  next => rfl

theorem isWordChar_of_isHexDigit {c : Char} (h : isHexDigit c = true) : isWordChar c = true := by
  rw [isHexDigit, Bool.or_eq_true, Bool.or_eq_true] at h
  simp only [isWordChar, Char.isAlphanum, isAlpha_iff, Bool.or_eq_true]
  obtain (hdigit | hlower) | hupper := h
  · exact .inr (.inr hdigit)
  · rw [Bool.and_eq_true, decide_eq_true_eq, decide_eq_true_eq] at hlower
    exact .inr (.inl (.inr ⟨hlower.1, UInt32.le_trans hlower.2 (by decide)⟩))
  · rw [Bool.and_eq_true, decide_eq_true_eq, decide_eq_true_eq] at hupper
    exact .inr (.inl (.inl ⟨hupper.1, UInt32.le_trans hupper.2 (by decide)⟩))

theorem EndsWord.isHexDigit {more : List Char} (h : EndsWord more) :
    ∀ c ∈ more.head?, Lexer.isHexDigit c = false := fun c hc =>
  eq_false_of_ne_true fun hdigit =>
    Bool.false_ne_true ((h c hc).symm.trans (isWordChar_of_isHexDigit hdigit))

theorem stops_hex {x : Char} {after : List Char} {kind : TokenKind} {m : Nat}
    (hx : (x == 'x' || x == 'X') = true) (h : number '0' (x :: after) = (kind, m))
    (hkind : kind.isMalformed = false) : m ≤ after.length + 1 ∧
      (∀ c ∈ (x :: after).take m, isNumberChar c = true) ∧
      ∀ more, EndsWord more → number '0' ((x :: after).take m ++ more) = (kind, m) := by
  rw [number_hex hx] at h
  split at h
  next =>
    cases h
    cases hkind
  next hdigits =>
    obtain ⟨hle, hlength, hchars, hagain⟩ := stops_integerSuffix _ _ kind m h hkind
    have hcount := countWhile_le Lexer.isHexDigit after
    rw [List.length_drop] at hlength
    obtain ⟨k, rfl⟩ : ∃ k, m = k + 1 := ⟨m - 1, by omega⟩
    refine ⟨by omega, ?_, fun more hmore => ?_⟩
    · intro d hd
      rw [List.take_succ_cons, List.mem_cons] at hd
      obtain rfl | hd := hd
      · rw [Bool.or_eq_true, beq_iff_eq, beq_iff_eq] at hx
        obtain rfl | rfl := hx <;> rfl
      obtain hd | hd := mem_take_of_le (k := countWhile Lexer.isHexDigit after) (by omega) hd
      · exact isNumberChar_of_isWordChar (isWordChar_of_isHexDigit (of_mem_take_countWhile hd))
      · refine hchars d ?_
        convert hd using 2
        omega
    rw [List.take_succ_cons, List.cons_append, number_hex hx,
      countWhile_take_append (by omega) hmore.isHexDigit, if_neg hdigits,
      drop_take_append (by omega) (by omega), ← hagain more hmore]
    congr 3
    omega

/-- A number without a point, an exponent and a suffix is an integer. -/
theorem kind_of_exponentAndSuffix {n : Nat} {rest : List Char} {kind : TokenKind}
    (h : exponentAndSuffix false n rest = (kind, n)) (hkind : kind.isMalformed = false) :
    kind = .intLiteral := by
  obtain ⟨-, -, -, hagain⟩ := stops_exponentAndSuffix false n rest kind n h hkind
  have hnil := hagain [] (fun c hc => nomatch hc)
  rw [Nat.sub_self] at hnil
  exact (congrArg Prod.fst hnil).symm

theorem stops_decimal {rest : List Char} {kind : TokenKind} {m : Nat}
    (h : number.decimal rest = (kind, m)) (hkind : kind.isMalformed = false) : m ≤ rest.length ∧
      (∀ c ∈ rest.take m, isNumberChar c = true) ∧
      ∀ more, EndsWord more → (kind = .intLiteral → (rest.take m).all Char.isDigit = true →
        ∀ c ∈ more.head?, c ≠ '.') → number.decimal (rest.take m ++ more) = (kind, m) := by
  have hwhole := countWhile_le Char.isDigit rest
  by_cases hpoint : ∀ c ∈ (rest.drop (countWhile Char.isDigit rest)).head?, c ≠ '.'
  · rw [decimal_whole hpoint] at h
    obtain ⟨hle, hlength, hchars, hagain⟩ := stops_exponentAndSuffix _ _ _ kind m h hkind
    rw [List.length_drop] at hlength
    refine ⟨by omega, fun c hc => ?_, fun more hmore hglue => ?_⟩
    · obtain hc | hc := mem_take_of_le hle hc
      · exact isNumberChar_of_isWordChar (isWordChar_of_isDigit (of_mem_take_countWhile hc))
      · exact hchars c hc
    have hcount := countWhile_take_append hle hmore.isDigit
    have hdrop : (rest.take m ++ more).drop (countWhile Char.isDigit rest) =
        (rest.drop (countWhile Char.isDigit rest)).take (m - countWhile Char.isDigit rest) ++ more :=
      drop_take_append hle hwhole
    rw [decimal_whole, hcount, hdrop, hagain more hmore]
    rw [hcount, hdrop]
    intro c hc
    by_cases hlt : countWhile Char.isDigit rest < m
    · obtain ⟨k, hk⟩ : ∃ k, m - countWhile Char.isDigit rest = k + 1 :=
        ⟨m - countWhile Char.isDigit rest - 1, by omega⟩
      cases htail : rest.drop (countWhile Char.isDigit rest) with
      | nil =>
          have := congrArg List.length htail
          rw [List.length_drop, List.length_nil] at this
          omega
      | cons d tail =>
          rw [htail] at hc hpoint
          rw [hk] at hc
          exact hpoint c hc
    · obtain rfl : m = countWhile Char.isDigit rest := by omega
      rw [Nat.sub_self, List.take_zero, List.nil_append] at hc
      refine hglue (kind_of_exponentAndSuffix h hkind) ?_ c hc
      rw [countWhile, ← List.prefix_iff_eq_take.mp (List.takeWhile_prefix _)]
      exact List.all_takeWhile
  · cases htail : rest.drop (countWhile Char.isDigit rest) with
    | nil => simp [htail] at hpoint
    | cons c after =>
        have hc : c = '.' := by simpa [htail] using hpoint
        subst hc
        rw [decimal_point htail] at h
        obtain ⟨hle, hlength, hchars, hagain⟩ := stops_exponentAndSuffix _ _ _ kind m h hkind
        have hafter := countWhile_le Char.isDigit after
        have htotal := congrArg List.length htail
        rw [List.length_drop, List.length_cons] at htotal
        rw [List.length_drop] at hlength
        obtain ⟨k, hk⟩ : ∃ k, m - countWhile Char.isDigit rest = k + 1 :=
          ⟨m - countWhile Char.isDigit rest - 1, by omega⟩
        refine ⟨by omega, fun d hd => ?_, fun more hmore _ => ?_⟩
        · obtain hd | hd := mem_take_of_le (k := countWhile Char.isDigit rest) (by omega) hd
          · exact isNumberChar_of_isWordChar (isWordChar_of_isDigit (of_mem_take_countWhile hd))
          rw [htail, hk, List.take_succ_cons, List.mem_cons] at hd
          obtain rfl | hd := hd
          · rfl
          obtain hd | hd := mem_take_of_le (k := countWhile Char.isDigit after) (by omega) hd
          · exact isNumberChar_of_isWordChar (isWordChar_of_isDigit (of_mem_take_countWhile hd))
          · refine hchars d ?_
            convert hd using 2
            omega
        have hcount : countWhile Char.isDigit (rest.take m ++ more) = countWhile Char.isDigit rest :=
          countWhile_take_append (by omega) hmore.isDigit
        have hdrop : (rest.take m ++ more).drop (countWhile Char.isDigit (rest.take m ++ more)) =
            '.' :: (after.take k ++ more) := by
          rw [hcount, drop_take_append (by omega) hwhole, htail, hk]
          rfl
        have hcountAfter : countWhile Char.isDigit (after.take k ++ more) =
            countWhile Char.isDigit after := countWhile_take_append (by omega) hmore.isDigit
        rw [decimal_point hdrop, hcount, hcountAfter, drop_take_append (by omega) hafter,
          ← hagain more hmore]
        congr 3
        omega

theorem stops_number {first : Char} {rest : List Char} {kind : TokenKind} {m : Nat}
    (h : number first rest = (kind, m)) (hkind : kind.isMalformed = false) : m ≤ rest.length ∧
      (∀ c ∈ rest.take m, isNumberChar c = true) ∧
      ∀ more, EndsWord more → (kind = .intLiteral → (rest.take m).all Char.isDigit = true →
        ∀ c ∈ more.head?, c ≠ '.') → number first (rest.take m ++ more) = (kind, m) := by
  by_cases hhex : first = '0' ∧ ∃ x ∈ rest.head?, (x == 'x' || x == 'X') = true
  · obtain ⟨rfl, x, hx, hmark⟩ := hhex
    cases rest with
    | nil => cases hx
    | cons c after =>
        cases hx
        obtain ⟨hlength, hchars, hagain⟩ := stops_hex hmark h hkind
        exact ⟨hlength, hchars, fun more hmore _ => hagain more hmore⟩
  · rw [number_decimal hhex] at h
    obtain ⟨hlength, hchars, hagain⟩ := stops_decimal h hkind
    refine ⟨hlength, hchars, fun more hmore hglue => ?_⟩
    rw [number_decimal, hagain more hmore hglue]
    rintro ⟨rfl, x, hx, hmark⟩
    have hrest : ∀ c ∈ rest.head?, (c == 'x' || c == 'X') = false := fun c hc =>
      eq_false_of_ne_true fun hc' => hhex ⟨rfl, c, hc, hc'⟩
    exact Bool.false_ne_true ((head?_take_append hrest (hmore.or rfl rfl) x hx).symm.trans hmark)

end Lexer

/-! ## Kinds -/

/-- Whether a token is a literal with digits. -/
def TokenKind.isNumber : TokenKind → Bool
  | intLiteral | uintLiteral | floatLiteral => true
  | _ => false

namespace Lexer

/-- A number with its suffix is of one of two kinds, or malformed. -/
theorem kind_of_suffixed (plain marked : TokenKind) (lower upper : Char) (n : Nat)
    (rest : List Char) : (suffixed plain marked lower upper n rest).1 = plain ∨
      (suffixed plain marked lower upper n rest).1 = marked ∨
      (suffixed plain marked lower upper n rest).1 = .malformed .invalidNumber := by
  unfold suffixed
  dsimp only
  repeat' split
  all_goals first | exact .inl rfl | exact .inr (.inl rfl) | exact .inr (.inr rfl)

theorem kind_of_integerSuffix (n : Nat) (rest : List Char) : (integerSuffix n rest).1 = .intLiteral ∨
    (integerSuffix n rest).1 = .uintLiteral ∨
    (integerSuffix n rest).1 = .malformed .invalidNumber :=
  kind_of_suffixed _ _ _ _ n rest

theorem kind_of_floatSuffix (n : Nat) (rest : List Char) : (floatSuffix n rest).1 = .floatLiteral ∨
    (floatSuffix n rest).1 = .malformed .invalidNumber := by
  obtain h | h | h := kind_of_suffixed .floatLiteral .floatLiteral 'f' 'F' n rest
  · exact .inl h
  · exact .inl h
  · exact .inr h

/-- A number with a point is a float, or malformed. -/
theorem kind_of_point (n : Nat) (rest : List Char) :
    (exponentAndSuffix true n rest).1 = .floatLiteral ∨
      (exponentAndSuffix true n rest).1 = .malformed .invalidNumber := by
  unfold exponentAndSuffix
  dsimp only
  repeat' split
  all_goals first | exact kind_of_floatSuffix _ _ | exact .inr rfl | contradiction

theorem isNumber_of_integerSuffix (n : Nat) (rest : List Char) :
    (integerSuffix n rest).1.isNumber = true ∨
      (integerSuffix n rest).1 = .malformed .invalidNumber := by
  obtain h | h | h := kind_of_integerSuffix n rest
  · exact .inl (by rw [h]; rfl)
  · exact .inl (by rw [h]; rfl)
  · exact .inr h

theorem isNumber_of_exponentAndSuffix (isFloat : Bool) (n : Nat) (rest : List Char) :
    (exponentAndSuffix isFloat n rest).1.isNumber = true ∨
      (exponentAndSuffix isFloat n rest).1 = .malformed .invalidNumber := by
  have hfloat : ∀ n rest, (floatSuffix n rest).1.isNumber = true ∨
      (floatSuffix n rest).1 = .malformed .invalidNumber := fun n rest =>
    (kind_of_floatSuffix n rest).imp_left fun h => by rw [h]; rfl
  unfold exponentAndSuffix
  dsimp only
  repeat' split
  all_goals first | exact hfloat _ _ | exact isNumber_of_integerSuffix _ _ | exact .inr rfl

/-- What starts with a digit is a number, or malformed. -/
theorem isNumber_of_number (first : Char) (rest : List Char) :
    (number first rest).1.isNumber = true ∨
      (number first rest).1 = .malformed .invalidNumber := by
  unfold number number.decimal
  dsimp only
  repeat' split
  all_goals first | exact isNumber_of_exponentAndSuffix _ _ _ | exact isNumber_of_integerSuffix _ _ | exact .inr rfl

end Lexer

/-! ## Symbols -/

/-- Whether a character right after a symbol makes it another token, or the start of a comment. -/
def Symbol.goesOn (sign : Symbol) (c : Char) : Bool :=
  match sign with
  | plus => c == '+' || c == '='
  | minus => c == '-' || c == '='
  | slash => c == '=' || c == '/' || c == '*'
  | star | percent | eq | bang | lessLess | greaterGreater => c == '='
  | ampersand => c == '&' || c == '='
  | pipe => c == '|' || c == '='
  | caret => c == '^' || c == '='
  | lt => c == '<' || c == '='
  | gt => c == '>' || c == '='
  | dot => c.isDigit
  | _ => false

namespace Lexer

theorem stops_symbol? {c : Char} {rest : List Char} {sign : Symbol} {n : Nat}
    (h : symbol? c rest = some (sign, n)) : n ≤ rest.length ∧
      ∀ more, (∀ d ∈ more.head?, sign.goesOn d = false) →
        symbol? c (rest.take n ++ more) = some (sign, n) := by
  unfold symbol? at h
  split at h
  all_goals try split at h
  all_goals cases h
  all_goals
    refine ⟨by simp, fun more hmore => ?_⟩
    cases more with
    | nil => rfl
    | cons d more =>
        have hd := hmore d rfl
        simp only [Symbol.goesOn, Bool.or_eq_false_iff, beq_eq_false_iff_ne] at hd
        simp [symbol?, hd]

end Lexer

/-! ## Tokens -/

/-- Whether a character right after a token with a kind and a text makes it another token. The point
goes on a number that has nothing but digits so far. -/
def TokenKind.goesOn (kind : TokenKind) (text : List Char) (c : Char) : Bool :=
  match kind with
  | directive => c != '\n'
  | intLiteral => Lexer.isWordChar c || (c == '.' && text.all Char.isDigit)
  | uintLiteral | floatLiteral | identifier | keyword _ => Lexer.isWordChar c
  | symbol sign => sign.goesOn c
  | endOfFile | malformed _ => true

namespace Lexer

theorem endsWord_of_goesOn {kind : TokenKind} {text more : List Char}
    (hkind : kind.isNumber = true) (h : ∀ d ∈ more.head?, kind.goesOn text d = false) :
    EndsWord more := by
  intro d hd
  have := h d hd
  cases kind
  case intLiteral => exact (Bool.or_eq_false_iff.mp this).1
  case uintLiteral | floatLiteral => exact this
  all_goals cases hkind

theorem recognise_directive (rest : List Char) :
    recognise '#' rest = (.directive, countWhile (· != '\n') rest) := rfl

theorem recognise_digit {c : Char} (hc : c.isDigit = true) (rest : List Char) :
    recognise c rest = number c rest := by
  have hne : (c == '#') = false := beq_eq_false_iff_ne.mpr fun h => by subst h; cases hc
  rw [recognise, hne, if_neg Bool.false_ne_true, if_pos hc]

/-- The kind of a word. -/
def wordKind (text : List Char) : TokenKind :=
  match Keyword.ofSpelling? (String.ofList text) with
  | some word => .keyword word
  | none => .identifier

theorem isWordStart_ne {c d : Char} (hc : isWordStart c = true) (hd : isWordStart d = false) :
    c ≠ d := by
  rintro rfl
  exact Bool.false_ne_true (hd.symm.trans hc)

theorem isWordChar_of_isWordStart {c : Char} (hc : isWordStart c = true) : isWordChar c = true := by
  rw [isWordStart] at hc
  rw [isWordChar, Char.isAlphanum, ← Bool.or_assoc, hc]
  rfl

theorem isDigit_of_isWordStart {c : Char} (hc : isWordStart c = true) : c.isDigit = false := by
  refine eq_false_of_ne_true fun hdigit => ?_
  simp only [isWordStart, isAlpha_iff, Char.isDigit, Bool.or_eq_true, Bool.and_eq_true,
    decide_eq_true_eq, beq_iff_eq, ge_iff_le, UInt32.le_iff_toNat_le] at hc hdigit
  obtain rfl | hc | hc := hc
  · revert hdigit
    decide
  · have h9 : ('9' : Char).val.toNat = 57 := rfl
    have hA : ('A' : Char).val.toNat = 65 := rfl
    omega
  · have h9 : ('9' : Char).val.toNat = 57 := rfl
    have ha : ('a' : Char).val.toNat = 97 := rfl
    omega

theorem recognise_word {c : Char} (hc : isWordStart c = true) (rest : List Char) :
    recognise c rest =
      (wordKind (c :: rest.take (countWhile isWordChar rest)), countWhile isWordChar rest) := by
  have hne : (c == '#') = false := beq_eq_false_iff_ne.mpr (isWordStart_ne hc (by decide))
  rw [recognise, hne, if_neg Bool.false_ne_true, isDigit_of_isWordStart hc,
    if_neg Bool.false_ne_true, if_pos hc, wordKind]
  dsimp only
  cases Keyword.ofSpelling? (String.ofList (c :: rest.take (countWhile isWordChar rest))) with
  | none => rfl
  | some word => rfl

theorem recognise_point {rest : List Char} (hrest : rest.head?.any Char.isDigit = true) :
    recognise '.' rest = exponentAndSuffix true (countWhile Char.isDigit rest)
      (rest.drop (countWhile Char.isDigit rest)) := by
  simp [recognise, hrest, isWordStart]

theorem recognise_symbol {c : Char} {rest : List Char} (hword : isWordChar c = false)
    (hhash : c ≠ '#') (hpoint : c = '.' → rest.head?.any Char.isDigit = false) {sign : Symbol}
    {n : Nat} (h : symbol? c rest = some (sign, n)) : recognise c rest = (.symbol sign, n) := by
  have hdigit : c.isDigit = false := eq_false_of_ne_true fun hc =>
    Bool.false_ne_true (hword.symm.trans (isWordChar_of_isDigit hc))
  have hstart : isWordStart c = false := by
    rw [isWordChar, Char.isAlphanum, Bool.or_eq_false_iff, Bool.or_eq_false_iff] at hword
    rw [isWordStart, hword.1, hword.2.1, Bool.or_self]
  have hboth : (c == '.' && rest.head?.any Char.isDigit) = false := by
    by_cases hc : c = '.'
    · rw [hpoint hc, Bool.and_false]
    · rw [beq_eq_false_iff_ne.mpr hc, Bool.false_and]
  simp only [recognise, beq_eq_false_iff_ne.mpr hhash, hdigit, hstart, hboth, h,
    Bool.false_eq_true, if_false]

/-- How a token that is not malformed is recognised. -/
inductive Recognised (c : Char) (rest : List Char) : TokenKind → Nat → Prop
  | directive (hc : c = '#') : Recognised c rest .directive (countWhile (· != '\n') rest)
  | number {kind : TokenKind} {n : Nat} (hc : c.isDigit = true) (h : number c rest = (kind, n)) :
    Recognised c rest kind n
  | word (hc : isWordStart c = true) :
    Recognised c rest (wordKind (c :: rest.take (countWhile isWordChar rest)))
      (countWhile isWordChar rest)
  | point {kind : TokenKind} {n : Nat} (hc : c = '.') (hrest : rest.head?.any Char.isDigit = true)
    (h : exponentAndSuffix true (countWhile Char.isDigit rest)
      (rest.drop (countWhile Char.isDigit rest)) = (kind, n)) : Recognised c rest kind n
  | symbol {sign : Symbol} {n : Nat} (hc : isWordChar c = false) (hhash : c ≠ '#')
    (hpoint : c = '.' → rest.head?.any Char.isDigit = false)
    (h : symbol? c rest = some (sign, n)) : Recognised c rest (.symbol sign) n

theorem recognised_of_recognise {c : Char} {rest : List Char} {kind : TokenKind} {n : Nat}
    (h : recognise c rest = (kind, n)) (hkind : kind.isMalformed = false) :
    Recognised c rest kind n := by
  by_cases hhash : c = '#'
  · subst hhash
    cases h
    exact .directive rfl
  by_cases hdigit : c.isDigit = true
  · rw [recognise_digit hdigit] at h
    exact .number hdigit h
  by_cases hword : isWordStart c = true
  · rw [recognise_word hword] at h
    cases h
    exact .word hword
  by_cases hpoint : c = '.' ∧ rest.head?.any Char.isDigit = true
  · obtain ⟨rfl, hhead⟩ := hpoint
    rw [recognise_point hhead] at h
    exact .point rfl hhead h
  have hchar : isWordChar c = false := by
    rw [isWordStart, Bool.or_eq_true, not_or, Bool.not_eq_true, Bool.not_eq_true] at hword
    rw [isWordChar, Char.isAlphanum, hword.1, hword.2, eq_false_of_ne_true hdigit]
    rfl
  have hhead : c = '.' → rest.head?.any Char.isDigit = false := fun hc =>
    eq_false_of_ne_true fun hrest => hpoint ⟨hc, hrest⟩
  cases hsymbol : symbol? c rest with
  | none =>
      have hboth : ¬ (c == '.' && rest.head?.any Char.isDigit) = true := by
        rwa [Bool.and_eq_true, beq_iff_eq]
      rw [recognise, if_neg (by rwa [beq_iff_eq]), if_neg hdigit, if_neg hword, if_neg hboth,
        hsymbol] at h
      cases h
      cases hkind
  | some found =>
      obtain ⟨sign, k⟩ := found
      rw [recognise_symbol hchar hhash hhead hsymbol] at h
      cases h
      exact .symbol hchar hhash hhead hsymbol

/-- What starts with a digit is a number. -/
theorem stops_digit {c : Char} {rest : List Char} {kind : TokenKind} {n : Nat}
    (hc : c.isDigit = true) (h : number c rest = (kind, n)) (hkind : kind.isMalformed = false) :
    n ≤ rest.length ∧ (∀ d ∈ rest.take n, isNumberChar d = true) ∧
      ∀ more, (∀ d ∈ more.head?, kind.goesOn (c :: rest.take n) d = false) →
        recognise c (rest.take n ++ more) = (kind, n) := by
  obtain ⟨hlength, hchars, hagain⟩ := stops_number h hkind
  have hnumber : kind.isNumber = true := by
    obtain hnum | hbad := isNumber_of_number c rest
    · rwa [h] at hnum
    · rw [h] at hbad
      subst hbad
      cases hkind
  refine ⟨hlength, hchars, fun more hmore => ?_⟩
  rw [recognise_digit hc]
  refine hagain more (endsWord_of_goesOn hnumber hmore) ?_
  rintro rfl hall d hd rfl
  have := hmore '.' hd
  simp [TokenKind.goesOn, hc, hall] at this

/-- What starts with a point and a digit is a number. -/
theorem stops_point {rest : List Char} {kind : TokenKind} {n : Nat}
    (hhead : rest.head?.any Char.isDigit = true)
    (h : exponentAndSuffix true (countWhile Char.isDigit rest)
      (rest.drop (countWhile Char.isDigit rest)) = (kind, n))
    (hkind : kind.isMalformed = false) :
    n ≤ rest.length ∧ (∀ d ∈ rest.take n, isNumberChar d = true) ∧
      ∀ more, (∀ d ∈ more.head?, kind.goesOn ('.' :: rest.take n) d = false) →
        recognise '.' (rest.take n ++ more) = (kind, n) := by
  obtain ⟨hle, hlength, hchars, hagain⟩ := stops_exponentAndSuffix _ _ _ kind n h hkind
  have hcount := countWhile_le Char.isDigit rest
  have hpos : 0 < countWhile Char.isDigit rest := by
    cases rest with
    | nil => cases hhead
    | cons d rest =>
        rw [countWhile_cons, if_pos (by simpa using hhead)]
        exact Nat.succ_pos _
  have hnumber : kind.isNumber = true := by
    obtain hnum | hbad := isNumber_of_exponentAndSuffix true (countWhile Char.isDigit rest)
      (rest.drop (countWhile Char.isDigit rest))
    · rwa [h] at hnum
    · rw [h] at hbad
      subst hbad
      cases hkind
  rw [List.length_drop] at hlength
  refine ⟨by omega, fun d hd => ?_, fun more hmore => ?_⟩
  · obtain hd | hd := mem_take_of_le hle hd
    · exact isNumberChar_of_isWordChar (isWordChar_of_isDigit (of_mem_take_countWhile hd))
    · exact hchars d hd
  have hends := endsWord_of_goesOn hnumber hmore
  have hcut : countWhile Char.isDigit (rest.take n ++ more) = countWhile Char.isDigit rest :=
    countWhile_take_append hle hends.isDigit
  rw [recognise_point, hcut, drop_take_append hle hcount, hagain more hends]
  cases rest with
  | nil => cases hhead
  | cons d rest =>
      obtain ⟨n, rfl⟩ : ∃ k, n = k + 1 := ⟨n - 1, by omega⟩
      exact hhead

/-- A token is found again in front of any text that does not go on it. -/
theorem stops_recognise {c : Char} {rest : List Char} {kind : TokenKind} {n : Nat}
    (h : recognise c rest = (kind, n)) (hkind : kind.isMalformed = false) : n ≤ rest.length ∧
      ∀ more, (∀ d ∈ more.head?, kind.goesOn (c :: rest.take n) d = false) →
        recognise c (rest.take n ++ more) = (kind, n) := by
  cases recognised_of_recognise h hkind with
  | directive hc =>
      subst hc
      refine ⟨countWhile_le _ _, fun more hmore => ?_⟩
      rw [recognise_directive,
        countWhile_take_append (p := (· != '\n')) (Nat.le_refl _) fun d hd => hmore d hd]
  | number hc hnumber =>
      obtain ⟨hlength, -, hagain⟩ := stops_digit hc hnumber hkind
      exact ⟨hlength, hagain⟩
  | word hc =>
      have hcount := countWhile_le isWordChar rest
      refine ⟨hcount, fun more hmore => ?_⟩
      have hends : EndsWord more := by
        intro d hd
        have := hmore d hd
        unfold wordKind at this
        split at this <;> exact this
      rw [recognise_word hc, countWhile_take_append (Nat.le_refl _) hends,
        List.take_append_of_le_length (Nat.le_of_eq (by rw [List.length_take, Nat.min_eq_left hcount])),
        List.take_take, Nat.min_self]
  | point hc hhead hpoint =>
      subst hc
      obtain ⟨hlength, -, hagain⟩ := stops_point hhead hpoint hkind
      exact ⟨hlength, hagain⟩
  | symbol hc hhash hpoint hsymbol =>
      obtain ⟨hlength, hagain⟩ := stops_symbol? hsymbol
      refine ⟨hlength, fun more hmore => ?_⟩
      refine recognise_symbol hc hhash ?_ (hagain more hmore)
      rintro rfl
      cases hsymbol
      cases more with
      | nil => rfl
      | cons d more => exact hmore d rfl

end Lexer

end ShaderReducer
