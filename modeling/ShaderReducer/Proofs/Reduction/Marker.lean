import ShaderReducer.Proofs.Json.Text
import ShaderReducer.Reduction.Ledger

/-!
# Markers that are written and read

What is read from the text of a marker is that marker. A step with too many digits is not read at
all.
-/

namespace ShaderReducer

namespace Json

variable {ds after : List Char}

/-- Digits are read to the last one. If all of them fit, they give the number that they stand
for. -/
theorem exists_significand (hds : ∀ c ∈ ds, c.isDigit = true) (hafter : EndsDigits after) (n : Nat) :
    ∃ m read left, significand n (ds ++ after) = (m, read, left, after) ∧
      (left = 0 → m = Nat.ofDigitChars 10 ds n) := by
  induction ds generalizing n with
  | nil =>
      refine ⟨n, 0, 0, ?_, fun _ => rfl⟩
      cases after with
      | nil => rfl
      | cons c after => rw [List.nil_append, significand, hafter c rfl, if_neg Bool.false_ne_true]
  | cons c ds ih =>
      have hc : c.isDigit = true := hds c List.mem_cons_self
      have hrest : ∀ d ∈ ds, d.isDigit = true := fun d hd => hds d (List.mem_cons_of_mem c hd)
      rw [List.cons_append, significand, if_pos hc]
      dsimp only
      by_cases hfits : n * 10 + (c.toNat - '0'.toNat) < Nat.pow 2 64
      · obtain ⟨m, read, left, heq, hvalue⟩ := ih hrest (n * 10 + (c.toNat - '0'.toNat))
        rw [if_pos hfits, heq]
        refine ⟨m, read + 1, left, rfl, fun hleft => ?_⟩
        rw [hvalue hleft, Nat.ofDigitChars_cons, Nat.mul_comm]
      · have hdigits : (c :: (ds ++ after)).takeWhile Char.isDigit = c :: ds :=
          (digits?_append (List.cons_ne_nil c ds) hds hafter).1
        rw [if_neg hfits, hdigits]
        refine ⟨n, 0, (c :: ds).length, ?_, fun hleft => by cases hleft⟩
        rw [← List.cons_append, List.drop_left]

theorem fraction?_eq (hafter : EndsNumber after) (n left : Nat) :
    fraction? false n left after = some (⟨false, n, left, left == 0⟩, after) := by
  have hexponent : exponent? after = some (none, after) := exponent?_exponentText none hafter
  unfold fraction?
  split
  next => exact absurd rfl (hafter '.' rfl).2.1
  next =>
    rw [hexponent]
    simp

/-- A number that begins with a digit is zero, or has all the digits that follow. -/
theorem number?_of_isDigit {d : Char} (hd : d.isDigit = true) (rest : List Char) :
    number? (d :: rest) =
      if d = '0' then if rest.head?.any Char.isDigit then none else fraction? false 0 0 rest
      else
        let read := significand 0 (d :: rest)
        fraction? false read.1 read.2.2.1 read.2.2.2 := by
  have hminus : d ≠ '-' := by
    rintro rfl
    cases hd
  by_cases hzero : d = '0'
  · subst hzero
    rfl
  · rw [number?, magnitude?, if_pos hd, if_neg hzero]
    · exact hzero
    · rintro rest' heq
      cases heq
      exact absurd rfl hminus

/-- What is read from the decimal digits of a number, if it is a whole number, is that number. -/
theorem eq_of_number?_toString (hafter : EndsNumber after) {n : Nat} {numeral : Numeral}
    {after' : List Char} (h : number? ((toString n).toList ++ after) = some (numeral, after')) :
    after' = after ∧ (numeral.whole = true → numeral.significand = n) := by
  have hdigits : ∀ d ∈ (toString n).toList, d.isDigit = true := fun d => Text.isDigit_toString
  have hvalue : Nat.ofDigitChars 10 (toString n).toList 0 = n := by
    change Nat.ofDigitChars 10 n.repr.toList 0 = n
    rw [Nat.toList_repr, Nat.ofDigitChars_toDigits (by decide) (by decide)]
  obtain ⟨m, read, left, hsignificand, hm⟩ := exists_significand hdigits hafter.endsDigits 0
  cases hds : (toString n).toList with
  | nil => exact absurd hds (Text.toString_ne_nil n)
  | cons d ds =>
      rw [hds] at h hdigits hvalue hsignificand hm
      rw [List.cons_append] at h hsignificand
      rw [number?_of_isDigit (hdigits d List.mem_cons_self), hsignificand] at h
      split at h
      next hzero =>
        subst hzero
        cases ds with
        | nil =>
            -- the only number that is written with a zero in front is zero
            split at h
            next => cases h
            next =>
              rw [List.nil_append, fraction?_eq hafter] at h
              cases h
              exact ⟨rfl, fun _ => hvalue⟩
        | cons e ds =>
            have he : e.isDigit = true := hdigits e (List.mem_cons_of_mem _ List.mem_cons_self)
            rw [List.cons_append, List.head?_cons, Option.any_some, he, if_pos rfl] at h
            cases h
      next =>
        dsimp only at h
        rw [fraction?_eq hafter] at h
        cases h
        refine ⟨rfl, fun hwhole => ?_⟩
        exact (hm (beq_iff_eq.mp hwhole)).trans hvalue

/-- The digits of a number are read as a value as they are read as a number. -/
theorem value?_toString_eq (depth n : Nat) :
    value? (depth + 1) ((toString n).toList ++ after) =
      (number? ((toString n).toList ++ after)).map fun (n, after) => (.number n, after) := by
  obtain ⟨d, ds, hds⟩ := List.exists_cons_of_ne_nil (Text.toString_ne_nil n)
  have hd : d.isDigit = true := Text.isDigit_toString (hds ▸ List.mem_cons_self)
  rw [hds, List.cons_append, value?_eq_number? (.inl hd)]

theorem eq_of_value?_toString (hafter : EndsNumber after) {n depth : Nat} {value : Value}
    {after' : List Char}
    (h : value? depth ((toString n).toList ++ after) = some (value, after')) :
    after' = after ∧
      ∃ numeral, value = .number numeral ∧ (numeral.whole = true → numeral.significand = n) := by
  cases depth with
  | zero =>
      rw [value?] at h
      cases h
  | succ depth =>
      rw [value?_toString_eq] at h
      obtain ⟨⟨numeral, after''⟩, hnumber, heq⟩ := Option.map_eq_some_iff.mp h
      cases heq
      obtain ⟨hafter, hwhole⟩ := eq_of_number?_toString hafter hnumber
      exact ⟨hafter, numeral, rfl, hwhole⟩

/-- A number with few enough bits is read from its decimal digits. -/
theorem value?_toString (hafter : EndsNumber after) {n : Nat} (hn : n < 2 ^ 64) (depth : Nat) :
    value? (depth + 1) ((toString n).toList ++ after) =
      some (.number ⟨false, n, 0, true⟩, after) := by
  have hdigits : ∀ c ∈ Nat.toDigits 10 n ++ [], c.isDigit = true := by
    rw [List.append_nil]
    exact fun c hc => Nat.isDigit_of_mem_toDigits (by decide) (by decide) hc
  have hvalue : Nat.ofDigitChars 10 (Nat.toDigits 10 n ++ []) 0 = n := by
    rw [List.append_nil, Nat.ofDigitChars_ten_toDigits]
  have hwhole : Nat.toDigits 10 n = ['0'] ∨
      Nat.toDigits 10 n ≠ [] ∧ (Nat.toDigits 10 n).head? ≠ some '0' := by
    by_cases hzero : n = 0
    · exact .inl (hzero ▸ rfl)
    · exact .inr ⟨Nat.toDigits_ne_nil, Text.head?_toDigits hzero⟩
  have hread := number?_numberText false none hwhole hdigits (hvalue.trans_lt hn) hafter
  rw [hvalue] at hread
  have htext : numberText false (Nat.toDigits 10 n) [] none = (toString n).toList := by
    change _ = n.repr.toList
    rw [Nat.toList_repr]
    simp [numberText, exponentText]
  rw [htext] at hread
  rw [value?_toString_eq, hread]
  rfl

end Json

namespace Marker

open Json

theorem toList_text (m : Marker) : m.text.toList =
    '\x7b' :: '"' :: 's' :: 't' :: 'e' :: 'p' :: '"' :: ':' :: ((toString m.step).toList ++
      ',' :: '"' :: 's' :: 'e' :: 'e' :: 'd' :: '"' :: ':' ::
        ((toString m.seed.toNat).toList ++ ['\x7d'])) := by
  simp [text]

theorem value?_field (depth : Nat) (rest : List Char) :
    value? (depth + 1) ('\x7b' :: '"' :: rest) =
      (fields? depth ('"' :: rest)).map fun (fields, after) => (.object fields, after) := by
  rfl

theorem string?_step (rest : List Char) :
    string? ('s' :: 't' :: 'e' :: 'p' :: '"' :: rest) = some (some "step", rest) := by
  rfl

theorem string?_seed (rest : List Char) :
    string? ('s' :: 'e' :: 'e' :: 'd' :: '"' :: rest) = some (some "seed", rest) := by
  rfl

/-- A field with a key is read up to what follows its value. -/
theorem exists_of_fields? {key : String} {cs rest after : List Char}
    {fields : List (Option String × Value)} {depth : Nat}
    (hkey : string? cs = some (some key, ':' :: rest))
    (h : fields? (depth + 1) ('"' :: cs) = some (fields, after)) :
    ∃ value next, value? depth rest = some (value, next) ∧
      ((∃ more others, skip next = ',' :: more ∧ fields? depth more = some (others, after) ∧
          fields = (some key, value) :: others) ∨
        (∃ more, skip next = '\x7d' :: more ∧ fields = [(some key, value)] ∧ after = more)) := by
  unfold fields? at h
  rw [skip_cons (by decide)] at h
  simp only [hkey] at h
  rw [skip_cons (by decide)] at h
  simp only at h
  split at h
  next value next hvalue =>
    refine ⟨value, next, hvalue, ?_⟩
    split at h
    next more hskip =>
      obtain ⟨⟨others, after'⟩, hothers, heq⟩ := Option.map_eq_some_iff.mp h
      cases heq
      exact .inl ⟨more, others, hskip, hothers, rfl⟩
    next more hskip =>
      cases h
      exact .inr ⟨_, hskip, rfl, rfl⟩
    next => cases h
  next => cases h

theorem exists_of_value?_text {m : Marker} {depth : Nat} {value : Value} {after : List Char}
    (h : value? depth m.text.toList = some (value, after)) :
    ∃ step seed, value = .object [(some "step", .number step), (some "seed", .number seed)] ∧
      (step.whole = true → step.significand = m.step) ∧
      (seed.whole = true → seed.significand = m.seed.toNat) := by
  rw [toList_text] at h
  match depth with
  | 0 =>
      rw [value?] at h
      cases h
  | 1 =>
      rw [value?_field, fields?] at h
      cases h
  | 2 =>
      rw [value?_field] at h
      obtain ⟨⟨fields, after'⟩, hfields, -⟩ := Option.map_eq_some_iff.mp h
      obtain ⟨step, next, hstep, -⟩ := exists_of_fields? (string?_step _) hfields
      rw [value?] at hstep
      cases hstep
  | depth + 3 =>
      rw [value?_field] at h
      obtain ⟨⟨fields, after'⟩, hfields, heq⟩ := Option.map_eq_some_iff.mp h
      cases heq
      obtain ⟨step, next, hstep, hrest⟩ := exists_of_fields? (string?_step _) hfields
      obtain ⟨rfl, step, rfl, hwhole⟩ :=
        eq_of_value?_toString (Json.endsNumber_cons (by decide) _) hstep
      rw [skip_cons (by decide)] at hrest
      obtain ⟨more, others, hmore, hothers, rfl⟩ | ⟨more, hmore, -⟩ := hrest
      · cases hmore
        obtain ⟨seed, next, hseed, hrest⟩ := exists_of_fields? (string?_seed _) hothers
        obtain ⟨rfl, seed, rfl, hwhole'⟩ :=
          eq_of_value?_toString (Json.endsNumber_cons (by decide) _) hseed
        rw [skip_cons (by decide)] at hrest
        obtain ⟨more, others, hmore, -⟩ | ⟨more, -, rfl, -⟩ := hrest
        · cases hmore
        · exact ⟨step, seed, rfl, hwhole, hwhole'⟩
      · cases hmore

theorem eq_of_readNat? {bound n k : Nat} {numeral : Numeral}
    (hwhole : numeral.whole = true → numeral.significand = n)
    (h : readNat? bound (.number numeral) = some k) : k = n := by
  rw [readNat?, Numeral.toNat?] at h
  split at h
  next hall =>
    cases h
    simp only [Bool.and_eq_true] at hall
    exact hwhole hall.1.1
  next => cases h

/-- What is read from the text of a marker is the marker. -/
theorem eq_of_parse?_text {m m' : Marker} (h : parse? m.text = some m') : m' = m := by
  rw [parse?] at h
  obtain ⟨value, hvalue, h⟩ := Option.bind_eq_some_iff.mp h
  rw [Json.parse?] at hvalue
  split at hvalue
  next value' after hread =>
    split at hvalue
    next =>
      cases hvalue
      obtain ⟨step, seed, rfl, hstep, hseed⟩ := exists_of_value?_text hread
      have hvalues : ofValues? (.number step) (.number seed) = some m' := h
      obtain ⟨k, hk, hvalues⟩ := Option.bind_eq_some_iff.mp hvalues
      obtain ⟨k', hk', hvalues⟩ := Option.bind_eq_some_iff.mp hvalues
      cases hvalues
      rw [eq_of_readNat? hstep hk, eq_of_readNat? hseed hk']
      simp
    next => cases hvalue
  next => cases hvalue

/-- A marker is read back from its text. -/
theorem parse?_text {m : Marker} (h : m.step < 2 ^ 32) : parse? m.text = some m := by
  have hseed := m.seed.toNat_lt
  have hvalue : Json.parse? m.text = some (.object [(some "step", .number ⟨false, m.step, 0, true⟩),
      (some "seed", .number ⟨false, m.seed.toNat, 0, true⟩)]) := by
    obtain ⟨depth, hdepth⟩ : ∃ depth, 2 * m.text.toList.length + 2 = depth + 5 := by
      refine ⟨2 * m.text.toList.length - 3, ?_⟩
      rw [toList_text]
      simp only [List.length_cons]
      omega
    have hread : value? (depth + 5) m.text.toList =
        some (.object [(some "step", .number ⟨false, m.step, 0, true⟩),
          (some "seed", .number ⟨false, m.seed.toNat, 0, true⟩)], []) := by
      rw [toList_text]
      refine value?_object (fields?_cons (string?_step _)
        (value?_toString (Json.endsNumber_cons (by decide) _) (h.trans (by decide)) _)
        (skip_cons (by decide) _) (fields?_singleton (string?_seed _)
          (value?_toString (Json.endsNumber_cons (by decide) _) hseed _) (skip_cons (by decide) _)))
    rw [Json.parse?, hdepth, hread]
    rfl
  rw [parse?, hvalue]
  change ofValues? (.number ⟨false, m.step, 0, true⟩) (.number ⟨false, m.seed.toNat, 0, true⟩) = some m
  have hread : ∀ {bound n : Nat}, n < bound →
      readNat? bound (.number ⟨false, n, 0, true⟩) = some n := by
    intro bound n hn
    simp [readNat?, Numeral.toNat?, hn]
  have hstep : readNat? (Nat.pow 2 32) (.number ⟨false, m.step, 0, true⟩) = some m.step := hread h
  have hword : readNat? (Nat.pow 2 64) (.number ⟨false, m.seed.toNat, 0, true⟩) =
      some m.seed.toNat := hread hseed
  rw [ofValues?, hstep, hword]
  simp

end Marker

end ShaderReducer
