import Mathlib.Tactic.Ring
import ShaderReducer.Decimal.Shortest
import ShaderReducer.Proofs.Text.Number

/-!
# The size of the shortest decimals

The shortest decimal of a finite number has at most eighteen digits, of which the first is not zero,
and it does not lie beyond the interval of its number. For all numbers but the largest this interval
ends half a unit before the numbers that are rounded to infinity begin.
-/

namespace ShaderReducer

namespace Decimal

/-! ## Digits -/

theorem of_mem_takeWhile {c : Char} {cs : List Char} (h : c ∈ cs.takeWhile (· == '0')) :
    c = '0' :=
  beq_iff_eq.mp (List.mem_takeWhile_imp (p := (· == '0')) h)

/-- Only zeros at the end are dropped. -/
theorem exists_trimZeros {digits : List Char} (hne : digits ≠ []) (h : digits.head? ≠ some '0') :
    ∃ zeros, digits = trimZeros digits ++ List.replicate zeros '0' := by
  have hsplit := List.takeWhile_append_dropWhile (p := (· == '0')) (l := digits.reverse)
  have hzeros : digits.reverse.takeWhile (· == '0') =
      List.replicate (digits.reverse.takeWhile (· == '0')).length '0' :=
    List.eq_replicate_iff.mpr ⟨rfl, fun c hc => of_mem_takeWhile hc⟩
  have hdigits : digits = (digits.reverse.dropWhile (· == '0')).reverse ++
      List.replicate (digits.reverse.takeWhile (· == '0')).length '0' := by
    rw [hzeros] at hsplit
    rw [← List.reverse_inj, List.reverse_append, List.reverse_replicate, List.reverse_reverse]
    exact hsplit.symm
  generalize (digits.reverse.takeWhile (· == '0')).length = zeros at hdigits
  refine ⟨zeros, ?_⟩
  rw [trimZeros]
  split
  next hnil =>
    rw [hnil, List.nil_append] at hdigits
    subst hdigits
    cases zeros with
    | zero => exact absurd rfl hne
    | succ zeros => exact absurd rfl h
  next => exact hdigits

theorem trimZeros_ne_nil (digits : List Char) : trimZeros digits ≠ [] := by
  rw [trimZeros]
  split
  next => exact List.cons_ne_nil _ _
  next hne => exact hne

theorem ofDigitChars_append_zeros (digits : List Char) (zeros : ℕ) :
    Nat.ofDigitChars 10 (digits ++ List.replicate zeros '0') 0 =
      Nat.ofDigitChars 10 digits 0 * 10 ^ zeros := by
  rw [Nat.ofDigitChars_append, Nat.ofDigitChars_replicate_zero, Nat.mul_comm]

/-! ## Intervals -/

/-- The end of the interval of the largest number but one. -/
def penultimate : ℕ := 2 ^ 1024 - 3 * 2 ^ 970

/-- The bits of the largest number. -/
def largestBits : ℕ := 2047 * 2 ^ 52 - 1

/-- The interval of a finite number other than zero and the largest. -/
structure Rounding.Inner (r : Rounding) : Prop where
  scale_pos : 0 < r.scale
  low_pos : 0 < r.low
  high_le : r.high ≤ penultimate * r.scale

namespace Rounding

theorem penultimate_eq : penultimate = (2 ^ 55 - 6) * 2 ^ 969 := by
  rw [penultimate, show 1024 = 55 + 969 from rfl, show 970 = 1 + 969 from rfl, Nat.pow_add,
    Nat.pow_add, ← Nat.mul_assoc, ← Nat.sub_mul]

theorem two_pow_le_penultimate {n : ℕ} (h : n ≤ 1023) : 2 ^ n ≤ penultimate := by
  have hpow : 2 ^ n ≤ 2 ^ (54 + 969) := Nat.pow_le_pow_right (by decide) h
  rw [Nat.pow_add] at hpow
  rw [penultimate_eq]
  generalize 2 ^ 969 = scale at hpow ⊢
  omega

theorem inner_ofBinary {m : ℕ} {q : ℤ} {narrow : Bool} (hpos : m ≠ 0)
    (hhigh : (4 * m + 2) * 2 ^ (q - 2).toNat ≤ penultimate) : (ofBinary m q narrow).Inner where
  scale_pos := Nat.two_pow_pos _
  low_pos := by
    refine Nat.mul_pos ?_ (Nat.two_pow_pos _)
    split <;> omega
  high_le := hhigh.trans (Nat.le_mul_of_pos_right _ (Nat.two_pow_pos _))

theorem inner_ofBits {bits : ℕ} (hpos : bits ≠ 0) (h : bits < largestBits) :
    (ofBits bits).Inner := by
  have hlargest : largestBits = 2047 * 2 ^ 52 - 1 := rfl
  have hfraction : bits % 2 ^ 52 < 2 ^ 52 := Nat.mod_lt _ (Nat.two_pow_pos 52)
  have hparts := Nat.div_add_mod bits (2 ^ 52)
  have hbiased : bits / 2 ^ 52 % 2 ^ 11 = bits / 2 ^ 52 :=
    Nat.mod_eq_of_lt (Nat.div_lt_of_lt_mul (by omega))
  rw [ofBits]
  change (if bits / 2 ^ 52 % 2 ^ 11 = 0 then ofBinary (bits % 2 ^ 52) (-1074) false
    else ofBinary (2 ^ 52 + bits % 2 ^ 52) (((bits / 2 ^ 52 % 2 ^ 11 : ℕ) : ℤ) - 1075) _).Inner
  rw [hbiased]
  generalize bits % 2 ^ 52 = fraction at *
  generalize bits / 2 ^ 52 = biased at *
  split
  next hzero =>
    have hle : 4 * fraction + 2 ≤ 2 ^ 55 := by omega
    refine inner_ofBinary (by omega) ?_
    rw [show ((-1074 : ℤ) - 2).toNat = 0 from rfl, Nat.pow_zero, Nat.mul_one]
    exact hle.trans (two_pow_le_penultimate (by decide))
  next hne =>
    refine inner_ofBinary (by omega) ?_
    obtain hlt | heq : biased ≤ 2045 ∨ biased = 2046 := by omega
    · have hle : 4 * (2 ^ 52 + fraction) + 2 ≤ 2 ^ 55 := by omega
      refine (Nat.mul_le_mul_right _ hle).trans ?_
      rw [← Nat.pow_add]
      exact two_pow_le_penultimate (by omega)
    · rw [heq, show ((2046 : ℕ) : ℤ) - 1075 - 2 = (969 : ℕ) from rfl, Int.toNat_natCast]
      calc (4 * (2 ^ 52 + fraction) + 2) * 2 ^ 969 ≤ (2 ^ 55 - 6) * 2 ^ 969 :=
            Nat.mul_le_mul_right _ (by omega)
        _ = penultimate := penultimate_eq.symm

/-- A number is less than the next power of ten after its first digit. -/
theorem value_mul_lt {r : Rounding} (h : 0 < r.scale) {digits k : ℕ} (hk : 330 = k)
    (hdigits : leadingExponent r = (digits : ℤ) - 331) :
    r.value * 10 ^ k < 10 ^ digits * r.scale := by
  have hlength : (Nat.toDigits 10 (r.value * 10 ^ k / r.scale)).length = digits := by
    unfold leadingExponent at hdigits
    simp only [hk] at hdigits
    exact Int.ofNat_inj.mp (sub_left_inj.mp hdigits)
  have hpos : 0 < digits := hlength ▸ Nat.length_toDigits_pos
  have hlt := (Nat.length_toDigits_le_iff (by decide) hpos).mp hlength.le
  exact (Nat.div_lt_iff_lt_mul h).mp hlt

end Rounding

/-! ## The digits that are found -/

/-- A decimal with its last digit at a power of ten stands beside a number, and reads back. -/
structure Rounding.Takes (r : Rounding) (last : ℤ) (n : ℕ) : Prop where
  le_succ : n ≤ r.value * 10 ^ (-last).toNat / (r.scale * 10 ^ last.toNat) + 1
  low_le : r.low * 10 ^ (-last).toNat ≤ n * (r.scale * 10 ^ last.toNat)
  le_high : n * (r.scale * 10 ^ last.toNat) ≤ r.high * 10 ^ (-last).toNat

theorem Rounding.le_of_accepts {r : Rounding} {n : ℕ} (h : r.accepts n = true) :
    r.low ≤ n ∧ n ≤ r.high := by
  rw [accepts] at h
  split at h
  · rw [Bool.and_eq_true, decide_eq_true_eq, decide_eq_true_eq] at h
    exact h
  · rw [Bool.and_eq_true, decide_eq_true_eq, decide_eq_true_eq] at h
    exact ⟨h.1.le, h.2.le⟩

variable {tie : Tie} {r : Rounding} {exponent : ℤ} {count : ℕ} {d : Scientific}

theorem exists_of_nearest? (h : nearest? tie r exponent count = some d) :
    ∃ n, r.Takes (exponent - (count - 1 : ℕ)) n ∧ d = ⟨Nat.toDigits 10 n,
      exponent - (count - 1 : ℕ) + (((Nat.toDigits 10 n).length - 1 : ℕ) : ℤ)⟩ := by
  generalize hlast : exponent - (count - 1 : ℕ) = last
  rw [nearest?] at h
  simp only [hlast, Nat.pow_eq] at h
  have hbelow := Nat.le_succ (r.value * 10 ^ (-last).toNat / (r.scale * 10 ^ last.toNat))
  split at h
  next htake htake' =>
    have htake := Rounding.le_of_accepts htake
    have htake' := Rounding.le_of_accepts htake'
    split at h
    · exact ⟨_, ⟨hbelow, htake.1, htake.2⟩, (Option.some.inj h).symm⟩
    · exact ⟨_, ⟨Nat.le_refl _, htake'.1, htake'.2⟩, (Option.some.inj h).symm⟩
  next htake _ =>
    have htake := Rounding.le_of_accepts htake
    exact ⟨_, ⟨hbelow, htake.1, htake.2⟩, (Option.some.inj h).symm⟩
  next _ htake =>
    have htake := Rounding.le_of_accepts htake
    exact ⟨_, ⟨Nat.le_refl _, htake.1, htake.2⟩, (Option.some.inj h).symm⟩
  next => cases h

/-- A decimal that can be read back without an overflow. -/
structure Scientific.Readable (d : Scientific) : Prop where
  isDigit : ∀ c ∈ d.digits, c.isDigit = true
  ne_nil : d.digits ≠ []
  head : d.digits.head? ≠ some '0' ∨ d.digits = ['0'] ∧ d.exponent = 0
  value_le : Nat.ofDigitChars 10 d.digits 0 ≤ 10 ^ 17
  fits : ∀ e : ℕ, d.exponent = (d.digits.length : ℤ) - 1 + e →
    Nat.ofDigitChars 10 d.digits 0 * 10 ^ e ≤ penultimate

theorem readable_zero : Scientific.Readable ⟨['0'], 0⟩ where
  isDigit := List.all_eq_true.mp rfl
  ne_nil := List.cons_ne_nil _ _
  head := .inr ⟨rfl, rfl⟩
  value_le := by decide
  fits := fun e _ => (Nat.zero_mul _).le.trans (Nat.zero_le _)

theorem Rounding.Takes.le_pow {digits : ℕ} {last : ℤ} {n : ℕ} (h : r.Takes last n)
    (hr : r.Inner) (hlast : leadingExponent r = last + (count - 1 : ℕ)) (hcount : count ≠ 0)
    (hdigits : leadingExponent r = (digits : ℤ) - 331) : n ≤ 10 ^ count := by
  obtain ⟨k, hk⟩ : ∃ k : ℕ, 330 = k := ⟨_, rfl⟩
  have hvalue := value_mul_lt hr.scale_pos hk hdigits
  refine h.le_succ.trans (Nat.succ_le_of_lt ?_)
  rw [Nat.div_lt_iff_lt_mul (Nat.mul_pos hr.scale_pos (Nat.pow_pos (by decide)))]
  refine Nat.lt_of_mul_lt_mul_right (a := 10 ^ k) ?_
  have hpowers : digits + (-last).toNat = count + last.toNat + k := by omega
  calc r.value * 10 ^ (-last).toNat * 10 ^ k = r.value * 10 ^ k * 10 ^ (-last).toNat := by ring
    _ < 10 ^ digits * r.scale * 10 ^ (-last).toNat :=
        Nat.mul_lt_mul_of_pos_right hvalue (Nat.pow_pos (by decide))
    _ = 10 ^ (digits + (-last).toNat) * r.scale := by rw [Nat.pow_add]; ring
    _ = 10 ^ count * (r.scale * 10 ^ last.toNat) * 10 ^ k := by
        rw [hpowers, Nat.pow_add, Nat.pow_add]
        ring

/-- What is found does not lie beyond the interval. -/
theorem Rounding.Takes.mul_pow_le {last : ℤ} {n value zeros e : ℕ} (h : r.Takes last n)
    (hr : r.Inner) (hvalue : n = value * 10 ^ zeros) (he : last + zeros = e) :
    value * 10 ^ e ≤ penultimate := by
  have hpowers : e + (-last).toNat = zeros + last.toNat := by omega
  refine Nat.le_of_mul_le_mul_right (?_ : _ ≤ penultimate * (10 ^ (-last).toNat * r.scale))
    (Nat.mul_pos (Nat.pow_pos (by decide)) hr.scale_pos)
  calc value * 10 ^ e * (10 ^ (-last).toNat * r.scale)
      = value * 10 ^ (e + (-last).toNat) * r.scale := by rw [Nat.pow_add]; ring
    _ = n * (r.scale * 10 ^ last.toNat) := by rw [hpowers, Nat.pow_add, hvalue]; ring
    _ ≤ r.high * 10 ^ (-last).toNat := h.le_high
    _ ≤ penultimate * r.scale * 10 ^ (-last).toNat := Nat.mul_le_mul_right _ hr.high_le
    _ = penultimate * (10 ^ (-last).toNat * r.scale) := by ring

theorem readable_of_nearest? (hr : r.Inner) (hcount : count ≠ 0) (hmost : count ≤ 17)
    (h : nearest? tie r (leadingExponent r) count = some d) :
    Scientific.Readable ⟨trimZeros d.digits, d.exponent⟩ := by
  obtain ⟨n, htakes, rfl⟩ := exists_of_nearest? h
  generalize hlast : leadingExponent r - (count - 1 : ℕ) = last at htakes ⊢
  have hne : n ≠ 0 := by
    rintro rfl
    have hlow := htakes.low_le
    rw [Nat.zero_mul] at hlow
    exact absurd hlow (Nat.not_le_of_lt (Nat.mul_pos hr.low_pos (Nat.pow_pos (by decide))))
  have hhead := Text.head?_toDigits hne
  obtain ⟨zeros, hzeros⟩ := exists_trimZeros Nat.toDigits_ne_nil hhead
  have htrimmed := trimZeros_ne_nil (Nat.toDigits 10 n)
  have hdigit : ∀ c ∈ Nat.toDigits 10 n, c.isDigit = true := fun c hc =>
    Nat.isDigit_of_mem_toDigits (by decide) (by decide) hc
  have hvalue : Nat.ofDigitChars 10 (Nat.toDigits 10 n) 0 = n := Nat.ofDigitChars_ten_toDigits
  have hle : n ≤ 10 ^ 17 :=
    (htakes.le_pow hr (by omega) hcount rfl).trans (Nat.pow_le_pow_right (by decide) hmost)
  generalize Nat.toDigits 10 n = digits at *
  generalize trimZeros digits = trimmed at *
  subst hzeros
  rw [ofDigitChars_append_zeros] at hvalue
  refine ⟨fun c hc => hdigit c (List.mem_append_left _ hc), htrimmed, .inl ?_, ?_, ?_⟩
  · obtain ⟨c, cs, rfl⟩ := List.exists_cons_of_ne_nil htrimmed
    exact hhead
  · exact (Nat.le_mul_of_pos_right _ (Nat.pow_pos (by decide))).trans (hvalue.le.trans hle)
  · intro e he
    refine htakes.mul_pow_le hr hvalue.symm ?_
    have hpos := List.length_pos_iff.mpr htrimmed
    rw [List.length_append, List.length_replicate] at he
    dsimp only at he
    omega

theorem readable_shortestFrom (hr : r.Inner) {more : ℕ} (hcount : count ≠ 0)
    (hmost : count + more ≤ 18) :
    (shortestFrom tie r (leadingExponent r) count more).Readable := by
  induction more generalizing count with
  | zero => exact readable_zero
  | succ more ih =>
    rw [shortestFrom]
    split
    next found hfound => exact readable_of_nearest? hr hcount (by omega) hfound
    next => exact ih (by omega) (by omega)

/-- The shortest decimal of a finite number other than zero and the largest can be read back. -/
theorem readable_shortest {bits : ℕ} (hne : bits ≠ 0) (h : bits < largestBits) :
    (shortest tie bits).Readable :=
  readable_shortestFrom (Rounding.inner_ofBits hne h) (by decide) (by decide)

theorem shortest_largest :
    shortest .toEven largestBits = ⟨"17976931348623157".toList, 308⟩ := by
  decide +kernel

end Decimal

end ShaderReducer
