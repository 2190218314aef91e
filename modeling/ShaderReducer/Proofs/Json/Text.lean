import Mathlib.Data.List.DropRight
import Mathlib.Data.List.Forall2
import ShaderReducer.Json.Reader
import ShaderReducer.Json.Writer
import ShaderReducer.Proofs.Text.Number

/-!
# Documents that are read back

The text of a document is read as the value that its parts stand for. A string is read back from its
quotes, and a number from its digits as long as they fit 64 bits.
-/

namespace ShaderReducer

namespace Json

/-! ## Strings -/

theorem digits?_hexChar : ∀ n < 0x20,
    Text.digits? 16 ['0', '0', hexChar (n / 16), hexChar n] = some n := by
  decide

/-- An escaped character is read as the character. -/
theorem stringRest?_escapeChar (fuel : Nat) (c : Char) (cs : List Char) :
    stringRest? (fuel + 1) (escapeChar c ++ cs) =
      (stringRest? fuel cs).map (Prod.map (Option.map (c :: ·)) id) := by
  have hescape : ∀ e, escape? (e ++ cs) = some (some c, cs) →
      stringRest? (fuel + 1) ('\\' :: (e ++ cs)) =
        (stringRest? fuel cs).map (Prod.map (Option.map (c :: ·)) id) := by
    intro e he
    rw [stringRest?, he]
    dsimp only
    cases stringRest? fuel cs with
    | none => rfl
    | some p =>
      obtain ⟨text, after⟩ := p
      cases text <;> rfl
  rw [escapeChar]
  split
  next h => exact hescape ['"'] (by rw [h]; rfl)
  split
  next h => exact hescape ['\\'] (by rw [h]; rfl)
  split
  next h => exact hescape ['b'] (by rw [h]; rfl)
  split
  next h => exact hescape ['f'] (by rw [h]; rfl)
  split
  next h => exact hescape ['n'] (by rw [h]; rfl)
  split
  next h => exact hescape ['r'] (by rw [h]; rfl)
  split
  next h => exact hescape ['t'] (by rw [h]; rfl)
  split
  next h =>
    refine hescape ['u', '0', '0', hexChar (c.toNat / 16), hexChar c.toNat] ?_
    change ((Text.digits? 16 ['0', '0', hexChar (c.toNat / 16), hexChar c.toNat]).map
      (·, cs)).map _ = _
    rw [digits?_hexChar _ h, Option.map_some, Option.map_some]
    dsimp only
    rw [if_neg (by omega), if_neg (by omega), Char.ofNat_toNat]
  next hquote hslash _ _ _ _ _ h =>
    rw [List.singleton_append, stringRest?, if_neg h]
    · rfl
    · exact hquote
    · exact hslash

theorem stringRest?_flatMap {fuel : Nat} {cs : List Char} (h : cs.length < fuel) (rest : List Char) :
    stringRest? fuel (cs.flatMap escapeChar ++ '"' :: rest) = some (some cs, rest) := by
  induction cs generalizing fuel with
  | nil =>
    obtain ⟨fuel, rfl⟩ := Nat.exists_eq_add_one.mpr h
    rfl
  | cons c cs ih =>
    obtain ⟨fuel, rfl⟩ := Nat.exists_eq_add_one.mpr (Nat.zero_lt_of_lt h)
    rw [List.flatMap_cons, List.append_assoc, stringRest?_escapeChar,
      ih (Nat.lt_of_succ_lt_succ h)]
    rfl

theorem length_le_flatMap (cs : List Char) : cs.length ≤ (cs.flatMap escapeChar).length := by
  have hpos : ∀ c, 1 ≤ (escapeChar c).length := by
    intro c
    rw [escapeChar]
    repeat' split
    all_goals exact Nat.succ_le_succ (Nat.zero_le _)
  induction cs with
  | nil => exact Nat.le_refl _
  | cons c cs ih =>
    rw [List.flatMap_cons, List.length_append, List.length_cons, Nat.add_comm]
    exact Nat.add_le_add (hpos c) ih

/-- A quoted string is read back behind its first quote. -/
theorem string?_escaped (s : String) (rest : List Char) :
    string? (s.toList.flatMap escapeChar ++ '"' :: rest) = some (some s, rest) := by
  have hle := length_le_flatMap s.toList
  rw [string?, stringRest?_flatMap (by rw [List.length_append]; omega)]
  exact congrArg (fun t => some (some t, rest)) s.ofList_toList

/-! ## Numbers -/

theorem le_ofDigitChars (cs : List Char) (n : Nat) : n ≤ Nat.ofDigitChars 10 cs n := by
  induction cs generalizing n with
  | nil => exact (Nat.ofDigitChars_nil).ge
  | cons c cs ih =>
    rw [Nat.ofDigitChars_cons]
    exact (Nat.le_add_right_of_le (Nat.le_mul_of_pos_left n (by decide))).trans (ih _)

/-- What follows digits is no digit. -/
def EndsDigits (rest : List Char) : Prop :=
  ∀ c ∈ rest.head?, c.isDigit = false

/-- Digits that fit are read into a significand. -/
theorem significand_digits {digits rest : List Char} {n : Nat}
    (hdigits : ∀ c ∈ digits, c.isDigit = true) (hrest : EndsDigits rest)
    (hfits : Nat.ofDigitChars 10 digits n < 2 ^ 64) :
    significand n (digits ++ rest) = (Nat.ofDigitChars 10 digits n, digits.length, 0, rest) := by
  induction digits generalizing n with
  | nil =>
    cases rest with
    | nil => rfl
    | cons c rest =>
      rw [List.nil_append, significand, hrest c rfl, if_neg Bool.false_ne_true]
      rfl
  | cons c digits ih =>
    have hnext : n * 10 + (c.toNat - '0'.toNat) = 10 * n + (c.toNat - '0'.toNat) := by
      rw [Nat.mul_comm]
    rw [Nat.ofDigitChars_cons] at hfits ⊢
    have hlt : 10 * n + (c.toNat - '0'.toNat) < Nat.pow 2 64 :=
      (le_ofDigitChars _ _).trans_lt hfits
    rw [List.cons_append, significand, if_pos (hdigits c List.mem_cons_self)]
    dsimp only
    rw [hnext, if_pos hlt, ih (fun d hd => hdigits d (List.mem_cons_of_mem _ hd)) hfits]
    rfl

/-- What may follow a number. -/
def EndsNumber (rest : List Char) : Prop :=
  ∀ c ∈ rest.head?, c.isDigit = false ∧ c ≠ '.' ∧ c ≠ 'e' ∧ c ≠ 'E'

/-- The exponent of a number, if it has one. -/
def exponentText : Option Int → List Char
  | none => []
  | some e => 'e' :: (if e < 0 then '-' else '+') :: Nat.toDigits 10 e.natAbs

/-- A number with its sign, its digits before the point and after it, and its exponent. -/
def numberText (negative : Bool) (whole fraction : List Char) (e : Option Int) : List Char :=
  (if negative then ['-'] else []) ++ whole ++
    (if fraction.isEmpty then [] else '.' :: fraction) ++ exponentText e

theorem EndsNumber.endsDigits {rest : List Char} (h : EndsNumber rest) : EndsDigits rest :=
  fun c hc => (h c hc).1

theorem endsNumber_cons {c : Char}
    (h : c.isDigit = false ∧ c ≠ '.' ∧ c ≠ 'e' ∧ c ≠ 'E') (cs : List Char) : EndsNumber (c :: cs) := by
  intro d hd
  obtain rfl := Option.some.inj hd
  exact h

theorem digits?_append {digits rest : List Char} (hne : digits ≠ [])
    (hdigits : ∀ c ∈ digits, c.isDigit = true) (hrest : EndsDigits rest) :
    (digits ++ rest).takeWhile Char.isDigit = digits ∧
      Text.digits? 10 digits = some (Nat.ofDigitChars 10 digits 0) := by
  constructor
  · rw [List.takeWhile_append_of_pos hdigits]
    cases rest with
    | nil => rw [List.takeWhile_nil, List.append_nil]
    | cons c rest =>
      rw [List.takeWhile_cons, hrest c rfl, if_neg Bool.false_ne_true, List.append_nil]
  · rw [Text.digits?, List.isEmpty_eq_false_iff.mpr hne, if_neg Bool.false_ne_true,
      Text.digitsFrom?_of_isDigit hdigits]

theorem exponent?_exponentText (e : Option Int) {rest : List Char} (hrest : EndsNumber rest) :
    exponent? (exponentText e ++ rest) = some (e, rest) := by
  cases e with
  | none =>
    cases rest with
    | nil => rfl
    | cons c rest =>
      obtain ⟨-, -, he, hE⟩ := hrest c rfl
      simp [exponentText, exponent?, he, hE]
  | some e =>
    have hdigits : ∀ c ∈ Nat.toDigits 10 e.natAbs, c.isDigit = true := fun c hc =>
      Nat.isDigit_of_mem_toDigits (by decide) (by decide) hc
    obtain ⟨htake, hread⟩ := digits?_append Nat.toDigits_ne_nil hdigits hrest.endsDigits
    rw [Nat.ofDigitChars_ten_toDigits] at hread
    have hmark : (('e' == 'e' || 'e' == 'E') : Bool) = true := rfl
    by_cases he : e < 0
    · rw [exponentText, if_pos he, List.cons_append, List.cons_append, exponent?, if_pos hmark]
      dsimp only
      rw [htake, hread, List.drop_left]
      dsimp only
      rw [if_pos rfl, Int.ofNat_natAbs_of_nonpos he.le, Int.neg_neg]
    · rw [exponentText, if_neg he, List.cons_append, List.cons_append, exponent?, if_pos hmark]
      dsimp only
      rw [htake, hread, List.drop_left]
      dsimp only
      rw [if_neg Bool.false_ne_true, Int.natAbs_of_nonneg (Int.not_lt.mp he)]

theorem endsDigits_fraction (fraction : List Char) (e : Option Int) {rest : List Char}
    (hrest : EndsNumber rest) :
    EndsDigits ((if fraction.isEmpty then [] else '.' :: fraction) ++ exponentText e ++ rest) := by
  cases fraction with
  | nil =>
    cases e with
    | none => exact hrest.endsDigits
    | some e =>
      intro c hc
      obtain rfl := Option.some.inj hc
      rfl
  | cons d fraction =>
    intro c hc
    obtain rfl := Option.some.inj hc
    rfl

/-- What follows the digits before the point. -/
theorem fraction?_text (negative : Bool) (e : Option Int) {n : Nat} {fraction rest : List Char}
    (hdigits : ∀ c ∈ fraction, c.isDigit = true) (hfits : Nat.ofDigitChars 10 fraction n < 2 ^ 64)
    (hrest : EndsNumber rest) :
    fraction? negative n 0
        ((if fraction.isEmpty then [] else '.' :: fraction) ++ exponentText e ++ rest) =
      some (⟨negative, Nat.ofDigitChars 10 fraction n, e.getD 0 - fraction.length,
        e.isNone && fraction.isEmpty⟩, rest) := by
  have hexponent := exponent?_exponentText e hrest
  cases fraction with
  | nil =>
    have hhead : ∀ cs, exponentText e ++ rest ≠ '.' :: cs := by
      intro cs heq
      cases e with
      | some e => cases heq
      | none => exact (hrest '.' (congrArg List.head? heq)).2.1 rfl
    rw [List.isEmpty_nil, if_pos rfl, List.nil_append, fraction?, hexponent]
    · simp
    · exact hhead
  | cons d fraction =>
    have hread := significand_digits hdigits (endsDigits_fraction [] e hrest) hfits
    rw [List.isEmpty_nil, if_pos rfl, List.nil_append] at hread
    rw [List.isEmpty_cons, if_neg Bool.false_ne_true, List.append_assoc, List.cons_append, fraction?,
      hread]
    dsimp only
    rw [if_neg (by rw [List.length_cons]; omega), hexponent]
    simp [Int.sub_eq_add_neg, Int.add_comm]

theorem magnitude?_text (negative : Bool) (e : Option Int) {whole fraction rest : List Char}
    (hwhole : whole = ['0'] ∨ whole ≠ [] ∧ whole.head? ≠ some '0')
    (hdigits : ∀ c ∈ whole ++ fraction, c.isDigit = true)
    (hfits : Nat.ofDigitChars 10 (whole ++ fraction) 0 < 2 ^ 64) (hrest : EndsNumber rest) :
    magnitude? negative
        (whole ++ ((if fraction.isEmpty then [] else '.' :: fraction) ++ exponentText e ++ rest)) =
      some (⟨negative, Nat.ofDigitChars 10 (whole ++ fraction) 0, e.getD 0 - fraction.length,
        e.isNone && fraction.isEmpty⟩, rest) := by
  have hends := endsDigits_fraction fraction e hrest
  rw [Nat.ofDigitChars_append] at hfits ⊢
  have hfraction := fraction?_text negative e
    (fun c hc => hdigits c (List.mem_append_right _ hc)) hfits hrest
  generalize (if fraction.isEmpty then [] else '.' :: fraction) ++ exponentText e ++ rest = tail
    at hends hfraction ⊢
  obtain rfl | ⟨hne, hhead⟩ := hwhole
  · have hany : (tail.head?.any Char.isDigit) = false := by
      cases htail : tail.head? with
      | none => rfl
      | some c => exact hends c htail
    rw [List.singleton_append, magnitude?, hany, if_neg Bool.false_ne_true]
    exact hfraction
  · have hread := significand_digits (fun c hc => hdigits c (List.mem_append_left _ hc)) hends
      ((le_ofDigitChars _ _).trans_lt hfits)
    obtain ⟨c, cs, rfl⟩ := List.exists_cons_of_ne_nil hne
    rw [List.cons_append, magnitude?, if_pos (hdigits c List.mem_cons_self), ← List.cons_append,
      hread]
    · exact hfraction
    · rintro rfl
      exact hhead rfl

theorem number?_numberText (negative : Bool) (e : Option Int) {whole fraction rest : List Char}
    (hwhole : whole = ['0'] ∨ whole ≠ [] ∧ whole.head? ≠ some '0')
    (hdigits : ∀ c ∈ whole ++ fraction, c.isDigit = true)
    (hfits : Nat.ofDigitChars 10 (whole ++ fraction) 0 < 2 ^ 64) (hrest : EndsNumber rest) :
    number? (numberText negative whole fraction e ++ rest) =
      some (⟨negative, Nat.ofDigitChars 10 (whole ++ fraction) 0, e.getD 0 - fraction.length,
        e.isNone && fraction.isEmpty⟩, rest) := by
  have hread := magnitude?_text negative e hwhole hdigits hfits hrest
  cases negative with
  | true =>
    rw [numberText, if_pos rfl, List.singleton_append, List.cons_append, List.cons_append,
      List.cons_append, number?, List.append_assoc, List.append_assoc, ← List.append_assoc _ _ rest]
    exact hread
  | false =>
    obtain ⟨c, cs, hcs⟩ : ∃ c cs, whole = c :: cs := by
      obtain rfl | ⟨hne, -⟩ := hwhole
      · exact ⟨_, _, rfl⟩
      · exact List.exists_cons_of_ne_nil hne
    have hminus : c ≠ '-' := by
      rintro rfl
      have hdigit := hdigits '-' (hcs ▸ List.mem_cons_self)
      cases hdigit
    rw [numberText, if_neg Bool.false_ne_true, List.nil_append, List.append_assoc,
      List.append_assoc, ← List.append_assoc _ _ rest]
    rw [hcs] at hread ⊢
    rw [List.cons_append] at hread ⊢
    rw [number?]
    · exact hread
    · intro rest' heq
      exact hminus (List.head_eq_of_cons_eq heq)

/-! ## Documents -/

/-- A text is read as a value wherever a document may go on behind it. -/
def Stands (text : String) (v : Value) : Prop :=
  ∀ fuel rest, text.length ≤ fuel → EndsNumber rest →
    value? fuel (text.toList ++ rest) = some (v, rest)

theorem skip_cons {c : Char} (h : isSpace c = false) (cs : List Char) : skip (c :: cs) = c :: cs :=
  List.dropWhile_cons_of_neg (by simp [h])

theorem skip_skip (cs : List Char) : skip (skip cs) = skip cs :=
  List.dropWhile_idempotent isSpace cs

theorem value?_skip (fuel : Nat) (cs : List Char) : value? fuel (skip cs) = value? fuel cs := by
  cases fuel with
  | zero => rfl
  | succ fuel => rw [value?, value?, skip_skip]

theorem value?_space (fuel : Nat) (cs : List Char) : value? fuel (' ' :: cs) = value? fuel cs := by
  rw [← value?_skip, ← value?_skip fuel cs]
  rfl

theorem items?_skip (fuel : Nat) (cs : List Char) : items? fuel (skip cs) = items? fuel cs := by
  cases fuel with
  | zero => rfl
  | succ fuel => rw [items?, items?, value?_skip]

theorem fields?_skip (fuel : Nat) (cs : List Char) : fields? fuel (skip cs) = fields? fuel cs := by
  cases fuel with
  | zero => rfl
  | succ fuel => rw [fields?, fields?, skip_skip]

theorem skip_lineBreak (depth : Nat) (cs : List Char) :
    skip ((lineBreak depth).toList ++ cs) = skip cs := by
  refine List.dropWhile_append_of_pos fun c hc => ?_
  rw [lineBreak, String.toList_ofList] at hc
  obtain rfl | hc := List.mem_cons.mp hc
  · rfl
  · rw [List.eq_of_mem_replicate hc]
    rfl

theorem endsNumber_lineBreak (depth : Nat) (cs : List Char) :
    EndsNumber ((lineBreak depth).toList ++ cs) := by
  rw [lineBreak, String.toList_ofList]
  exact endsNumber_cons (by decide) _

theorem toList_moreItems (depth : Nat) (item : Document) (rest : List Document) :
    (moreItems depth (item :: rest)).toList = ',' :: ((lineBreak depth).toList ++
      ((item.text depth).toList ++ (moreItems depth rest).toList)) := by
  simp [moreItems]

theorem length_moreItems (depth : Nat) (item : Document) (rest : List Document) :
    (item.text depth).length + (moreItems depth rest).length <
      (moreItems depth (item :: rest)).length := by
  have htext := congrArg List.length (toList_moreItems depth item rest)
  simp only [List.length_cons, List.length_append, String.length_toList] at htext
  omega

/-- The items of an array from one of them on. -/
theorem items?_text {depth outer : Nat} {items : List Document} {values : List Value}
    (h : List.Forall₂ (fun (d : Document) v => Stands (d.text depth) v) items values)
    {item : Document} {v : Value} (hitem : Stands (item.text depth) v) {fuel : Nat}
    (hfuel : (item.text depth).length + (moreItems depth items).length < fuel) (rest : List Char) :
    items? fuel ((item.text depth).toList ++ ((moreItems depth items).toList ++
      ((lineBreak outer).toList ++ ']' :: rest))) = some (v :: values, rest) := by
  induction h generalizing item v fuel with
  | nil =>
    obtain ⟨fuel, rfl⟩ := Nat.exists_eq_add_one.mpr (Nat.zero_lt_of_lt hfuel)
    rw [moreItems, String.toList_empty, List.nil_append, items?,
      hitem fuel _ (by omega) (endsNumber_lineBreak _ _)]
    dsimp only
    rw [skip_lineBreak, skip_cons (by decide)]
    rfl
  | @cons next w items values hnext _ ih =>
    obtain ⟨fuel, rfl⟩ := Nat.exists_eq_add_one.mpr (Nat.zero_lt_of_lt hfuel)
    have hlength := length_moreItems depth next items
    rw [toList_moreItems, List.cons_append, items?,
      hitem fuel _ (by omega) (endsNumber_cons (by decide) _)]
    dsimp only
    rw [skip_cons (by decide)]
    change (items? fuel _).map _ = _
    rw [← items?_skip, List.append_assoc, skip_lineBreak, items?_skip, List.append_assoc,
      ih hnext (by omega)]
    rfl

theorem items?_bracket (fuel : Nat) (cs : List Char) : items? fuel (']' :: cs) = none := by
  cases fuel with
  | zero => rfl
  | succ fuel => cases fuel <;> rfl

theorem value?_array {fuel : Nat} {cs rest : List Char} {values : List Value}
    (h : items? fuel cs = some (values, rest)) :
    value? (fuel + 1) ('[' :: cs) = some (.array values, rest) := by
  rw [← items?_skip] at h
  unfold value?
  rw [skip_cons (by decide)]
  split
  case h_2 heq =>
    obtain rfl := List.tail_eq_of_cons_eq heq
    split
    next hskip =>
      rw [hskip, items?_bracket] at h
      cases h
    next => rw [h, Option.map_some]
  case h_7 hother _ _ _ _ => exact absurd rfl (hother _)
  all_goals
    next heq => cases heq

theorem fields?_brace (fuel : Nat) (cs : List Char) : fields? fuel ('\x7d' :: cs) = none := by
  cases fuel <;> rfl

theorem value?_object {fuel : Nat} {cs rest : List Char} {fields : List (Option String × Value)}
    (h : fields? fuel cs = some (fields, rest)) :
    value? (fuel + 1) ('\x7b' :: cs) = some (.object fields, rest) := by
  rw [← fields?_skip] at h
  unfold value?
  rw [skip_cons (by decide)]
  split
  case h_3 heq =>
    obtain rfl := List.tail_eq_of_cons_eq heq
    split
    next hskip =>
      rw [hskip, fields?_brace] at h
      cases h
    next => rw [h, Option.map_some]
  case h_7 hother _ _ _ => exact absurd rfl (hother _)
  all_goals
    next heq => cases heq

theorem toList_array (depth : Nat) (item : Document) (rest : List Document) :
    ((Document.array (item :: rest)).text depth).toList =
      '[' :: ((lineBreak (depth + 1)).toList ++ ((item.text (depth + 1)).toList ++
        ((moreItems (depth + 1) rest).toList ++ ((lineBreak depth).toList ++ [']'])))) := by
  simp [Document.text]

/-- An array is read item by item. -/
theorem stands_array {depth : Nat} {items : List Document} {values : List Value}
    (h : List.Forall₂ (fun (d : Document) v => Stands (d.text (depth + 1)) v) items values) :
    Stands ((Document.array items).text depth) (.array values) := by
  intro fuel rest hfuel _
  cases h with
  | nil =>
    have hlength : "[]".length ≤ fuel := by simpa only [Document.text] using hfuel
    obtain ⟨fuel, rfl⟩ := Nat.exists_eq_add_one.mpr (Nat.zero_lt_of_lt hlength)
    rw [Document.text]
    rfl
  | @cons item v items values hitem hrest =>
    rw [← String.length_toList, toList_array] at hfuel
    simp only [List.length_cons, List.length_append, String.length_toList] at hfuel
    obtain ⟨fuel, rfl⟩ := Nat.exists_eq_add_one.mpr (Nat.zero_lt_of_lt hfuel)
    rw [toList_array, List.cons_append]
    refine value?_array ?_
    rw [← items?_skip, List.append_assoc, skip_lineBreak, items?_skip]
    simp only [List.append_assoc, List.singleton_append]
    exact items?_text hrest hitem (by omega) rest

theorem fields?_cons {key : String} {cs rest next more after : List Char} {value : Value}
    {others : List (Option String × Value)} {depth : Nat}
    (hkey : string? cs = some (some key, ':' :: rest))
    (hvalue : value? depth rest = some (value, next)) (hnext : skip next = ',' :: more)
    (hothers : fields? depth more = some (others, after)) :
    fields? (depth + 1) ('"' :: cs) = some ((some key, value) :: others, after) := by
  unfold fields?
  rw [skip_cons (by decide)]
  simp only [hkey]
  rw [skip_cons (by decide)]
  simp only [hvalue, hnext, hothers, Option.map_some]

theorem fields?_singleton {key : String} {cs rest next after : List Char} {value : Value}
    {depth : Nat} (hkey : string? cs = some (some key, ':' :: rest))
    (hvalue : value? depth rest = some (value, next)) (hnext : skip next = '\x7d' :: after) :
    fields? (depth + 1) ('"' :: cs) = some ([(some key, value)], after) := by
  unfold fields?
  rw [skip_cons (by decide)]
  simp only [hkey]
  rw [skip_cons (by decide)]
  simp only [hvalue, hnext]

theorem toList_quote (s : String) : (quote s).toList = '"' :: (s.toList.flatMap escapeChar ++ ['"']) := by
  simp [quote]

theorem toList_moreFields (depth : Nat) (key : String) (value : Document)
    (rest : List (String × Document)) :
    (moreFields depth ((key, value) :: rest)).toList = ',' :: ((lineBreak depth).toList ++
      ((quote key).toList ++ (':' :: ' ' :: ((value.text depth).toList ++
        (moreFields depth rest).toList)))) := by
  simp [moreFields]

theorem length_moreFields (depth : Nat) (key : String) (value : Document)
    (rest : List (String × Document)) :
    (value.text depth).length + (moreFields depth rest).length <
      (moreFields depth ((key, value) :: rest)).length := by
  have htext := congrArg List.length (toList_moreFields depth key value rest)
  simp only [List.length_cons, List.length_append, String.length_toList] at htext
  omega

theorem string?_quote (s : String) (rest : List Char) :
    string? (s.toList.flatMap escapeChar ++ ['"'] ++ rest) = some (some s, rest) := by
  rw [List.append_assoc, List.singleton_append, string?_escaped]

/-- A field is read as a value with its key. -/
def StandsField (depth : Nat) (field : String × Document) (read : Option String × Value) : Prop :=
  read.1 = some field.1 ∧ Stands (field.2.text depth) read.2

/-- The fields of an object from one of them on. -/
theorem fields?_text {depth outer : Nat} {fields : List (String × Document)}
    {values : List (Option String × Value)} (h : List.Forall₂ (StandsField depth) fields values)
    {key : String} {value : Document} {v : Value} (hvalue : Stands (value.text depth) v)
    {fuel : Nat} (hfuel : (value.text depth).length + (moreFields depth fields).length < fuel)
    (rest : List Char) :
    fields? fuel ((quote key).toList ++ (':' :: ' ' :: ((value.text depth).toList ++
      ((moreFields depth fields).toList ++ ((lineBreak outer).toList ++ '\x7d' :: rest))))) =
        some ((some key, v) :: values, rest) := by
  induction h generalizing key value v fuel with
  | nil =>
    obtain ⟨fuel, rfl⟩ := Nat.exists_eq_add_one.mpr (Nat.zero_lt_of_lt hfuel)
    rw [toList_quote, List.cons_append, moreFields, String.toList_empty, List.nil_append]
    exact fields?_singleton (string?_quote key _) ((value?_space _ _).trans
      (hvalue fuel _ (by omega) (endsNumber_lineBreak _ _)))
      ((skip_lineBreak _ _).trans (skip_cons (by decide) rest))
  | @cons next w fields values hnext _ ih =>
    obtain ⟨fuel, rfl⟩ := Nat.exists_eq_add_one.mpr (Nat.zero_lt_of_lt hfuel)
    obtain ⟨key', value'⟩ := next
    obtain ⟨_, v'⟩ := w
    obtain ⟨rfl, hvalue'⟩ := hnext
    have hlength := length_moreFields depth key' value' fields
    dsimp only at hvalue'
    rw [toList_quote key, List.cons_append, toList_moreFields, List.cons_append]
    refine fields?_cons (string?_quote key _) ((value?_space _ _).trans
      (hvalue fuel _ (by omega) (endsNumber_cons (by decide) _))) (skip_cons (by decide) _) ?_
    rw [← fields?_skip, List.append_assoc, skip_lineBreak, fields?_skip]
    simp only [List.append_assoc, List.cons_append]
    exact ih hvalue' (by omega)

theorem toList_object (depth : Nat) (key : String) (value : Document)
    (rest : List (String × Document)) :
    ((Document.object ((key, value) :: rest)).text depth).toList =
      '\x7b' :: ((lineBreak (depth + 1)).toList ++ ((quote key).toList ++ (':' :: ' ' ::
        ((value.text (depth + 1)).toList ++ ((moreFields (depth + 1) rest).toList ++
          ((lineBreak depth).toList ++ ['\x7d'])))))) := by
  simp [Document.text]

/-- An object is read field by field. -/
theorem stands_object {depth : Nat} {fields : List (String × Document)}
    {values : List (Option String × Value)}
    (h : List.Forall₂ (StandsField (depth + 1)) fields values) :
    Stands ((Document.object fields).text depth) (.object values) := by
  intro fuel rest hfuel _
  cases h with
  | nil =>
    have hlength : "\x7b\x7d".length ≤ fuel := by simpa only [Document.text] using hfuel
    obtain ⟨fuel, rfl⟩ := Nat.exists_eq_add_one.mpr (Nat.zero_lt_of_lt hlength)
    rw [Document.text]
    rfl
  | @cons field v fields values hfield hrest =>
    obtain ⟨key, value⟩ := field
    obtain ⟨_, v⟩ := v
    obtain ⟨rfl, hvalue⟩ := hfield
    rw [← String.length_toList, toList_object] at hfuel
    simp only [List.length_cons, List.length_append, String.length_toList] at hfuel
    obtain ⟨fuel, rfl⟩ := Nat.exists_eq_add_one.mpr (Nat.zero_lt_of_lt hfuel)
    dsimp only at hvalue
    rw [toList_object, List.cons_append]
    refine value?_object ?_
    rw [← fields?_skip, List.append_assoc, skip_lineBreak, fields?_skip]
    simp only [List.append_assoc, List.cons_append, List.nil_append]
    exact fields?_text hrest hvalue (by omega) rest

theorem value?_quote (s : String) (fuel : Nat) (rest : List Char) :
    value? (fuel + 1) ((quote s).toList ++ rest) = some (.string (some s), rest) := by
  rw [toList_quote, List.cons_append]
  change (string? _).map _ = _
  rw [string?_quote]
  rfl

theorem stands_quote (s : String) : Stands (quote s) (.string (some s)) := by
  intro fuel rest hfuel _
  rw [← String.length_toList, toList_quote] at hfuel
  obtain ⟨fuel, rfl⟩ := Nat.exists_eq_add_one.mpr (Nat.zero_lt_of_lt hfuel)
  exact value?_quote s fuel rest

theorem stands_null : Stands "null" .null := by
  intro fuel rest hfuel _
  obtain ⟨fuel, rfl⟩ := Nat.exists_eq_add_one.mpr (Nat.zero_lt_of_lt hfuel)
  rfl

/-- A value that begins as a number does is a number. -/
theorem value?_eq_number? {c : Char} (h : c.isDigit = true ∨ c = '-') (fuel : Nat)
    (cs : List Char) :
    value? (fuel + 1) (c :: cs) = (number? (c :: cs)).map fun (n, after) => (.number n, after) := by
  have hspace : isSpace c = false := by
    simp only [isSpace, Bool.or_eq_false_iff, beq_eq_false_iff_ne]
    refine ⟨⟨⟨?_, ?_⟩, ?_⟩, ?_⟩
    all_goals
      rintro rfl
      obtain h | h := h <;> cases h
  unfold value?
  rw [skip_cons hspace]
  split
  case h_7 => rfl
  all_goals
    next heq =>
      obtain rfl := List.head_eq_of_cons_eq heq
      obtain h | h := h <;> cases h

theorem exists_numberText {whole : List Char} (negative : Bool) (fraction : List Char)
    (e : Option Int) (hne : whole ≠ []) (hdigits : ∀ c ∈ whole, c.isDigit = true) :
    ∃ c cs, numberText negative whole fraction e = c :: cs ∧ (c.isDigit = true ∨ c = '-') := by
  cases negative with
  | true => exact ⟨'-', _, rfl, .inr rfl⟩
  | false =>
    obtain ⟨c, cs, rfl⟩ := List.exists_cons_of_ne_nil hne
    exact ⟨c, _, rfl, .inl (hdigits c List.mem_cons_self)⟩

/-- A number is read from its text. -/
theorem stands_numberText (negative : Bool) (e : Option Int) {whole fraction : List Char}
    (hwhole : whole = ['0'] ∨ whole ≠ [] ∧ whole.head? ≠ some '0')
    (hdigits : ∀ c ∈ whole ++ fraction, c.isDigit = true)
    (hfits : Nat.ofDigitChars 10 (whole ++ fraction) 0 < 2 ^ 64) :
    Stands (String.ofList (numberText negative whole fraction e))
      (.number ⟨negative, Nat.ofDigitChars 10 (whole ++ fraction) 0, e.getD 0 - fraction.length,
        e.isNone && fraction.isEmpty⟩) := by
  intro fuel rest hfuel hrest
  have hne : whole ≠ [] := by
    obtain rfl | ⟨hne, -⟩ := hwhole
    · exact List.cons_ne_nil _ _
    · exact hne
  have hread := number?_numberText negative e hwhole hdigits hfits hrest
  obtain ⟨c, cs, htext, hfirst⟩ := exists_numberText negative fraction e hne
    fun c hc => hdigits c (List.mem_append_left _ hc)
  rw [htext] at hread hfuel ⊢
  obtain ⟨fuel, rfl⟩ := Nat.exists_eq_add_one.mpr
    (Nat.zero_lt_of_lt ((String.length_ofList ▸ hfuel : (c :: cs).length ≤ fuel)))
  rw [String.toList_ofList, List.cons_append, value?_eq_number? hfirst, ← List.cons_append, hread]
  rfl

/-- A text that may stand in a document may stand for itself. -/
theorem Stands.parse? {text : String} {v : Value} (h : Stands text v) : parse? text = some v := by
  have hread := h (2 * text.toList.length + 2) [] (by rw [String.length_toList]; omega)
    (fun c hc => by cases hc)
  rw [List.append_nil] at hread
  unfold Json.parse?
  simp only [hread]
  rfl

end Json

end ShaderReducer
