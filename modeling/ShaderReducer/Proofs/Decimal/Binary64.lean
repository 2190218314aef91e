import Mathlib
import ShaderReducer.Json.Reader
import ShaderReducer.Random.Source
import ShaderReducer.Proofs.Decimal.Shortest

/-!
# Results that are finite

Which products and differences of floating-point numbers are finite. A number of full length stands
for `m · 2 ^ e`, where `m` has 53 bits. A product of two of them is rounded to such a number again if
the exact product is below the least magnitude that is rounded to infinity, because to round adds at
most half a unit in the last place.

Two things follow. What is drawn for a component of a uniform is finite, and a numeral with few
digits has a value if it is not too large. The powers of ten that the latter is multiplied by are
rounded themselves; where a product comes close to the bound, each of them is checked.
-/

namespace ShaderReducer

namespace Binary64

open Float.Model Float.Model.UnpackedFloat

/-! ## Mantissas -/

theorem shiftRight_succ (em : ExtendedMantissa) (k : ℕ) :
    em >>> (k + 1) = (em >>> k).shiftRightOne :=
  rfl

theorem roundedMantissa_le (em : ExtendedMantissa) :
    em.roundedMantissa ≤ em.mantissa + em.roundBit.toNat := by
  obtain ⟨m, r, s⟩ := em
  cases r with
  | false => cases s <;> exact Nat.le_refl _
  | true =>
    cases s with
    | false => exact Nat.add_le_add_left (Nat.le_of_lt_succ (Nat.mod_lt m (by decide))) m
    | true => exact Nat.le_refl _

theorem le_roundedMantissa (em : ExtendedMantissa) : em.mantissa ≤ em.roundedMantissa := by
  obtain ⟨m, r, s⟩ := em
  cases r <;> cases s
  · exact Nat.le_refl _
  · exact Nat.le_refl _
  · exact Nat.le_add_right _ _
  · exact Nat.le_add_right _ _

/-- A mantissa without a fraction. -/
abbrev whole (m : ℕ) : ExtendedMantissa :=
  ExtendedMantissa.ofMantissaAndAccuracy m .exact

theorem mantissa_shiftRight (m k : ℕ) : (whole m >>> k).mantissa = m / 2 ^ k := by
  induction k with
  | zero => exact (Nat.div_one m).symm
  | succ k ih =>
    rw [shiftRight_succ, Nat.pow_succ, ← Nat.div_div_eq_div_mul, ← ih]
    rfl

theorem shiftRight_le (m k : ℕ) :
    (2 * (whole m >>> k).mantissa + (whole m >>> k).roundBit.toNat) * 2 ^ k ≤ 2 * m := by
  induction k with
  | zero => exact (Nat.mul_one _).le
  | succ k ih =>
    rw [shiftRight_succ]
    generalize whole m >>> k = em at ih ⊢
    have hbit : (em.mantissa % 2 != 0).toNat = em.mantissa % 2 := by
      obtain h | h := Nat.mod_two_eq_zero_or_one em.mantissa
      · rw [h]
        rfl
      · rw [h]
        rfl
    have hparts : 2 * (em.mantissa / 2) + em.mantissa % 2 = em.mantissa := Nat.div_add_mod _ 2
    calc (2 * (em.mantissa / 2) + (em.mantissa % 2 != 0).toNat) * 2 ^ (k + 1)
        = 2 * em.mantissa * 2 ^ k := by rw [hbit, hparts, Nat.pow_succ']; ring
      _ ≤ (2 * em.mantissa + em.roundBit.toNat) * 2 ^ k :=
          Nat.mul_le_mul_right _ (Nat.le_add_right _ _)
      _ ≤ 2 * m := ih

/-- To round to the nearest adds at most half a unit in the last place. -/
theorem two_mul_rounded_le (m k : ℕ) :
    2 * ((whole m >>> k).roundedMantissa * 2 ^ k) ≤ 2 * m + 2 ^ k := by
  have hround := roundedMantissa_le (whole m >>> k)
  have hshift := shiftRight_le m k
  have hbit : (whole m >>> k).roundBit.toNat ≤ 1 := Bool.toNat_le _
  generalize (whole m >>> k).roundBit.toNat = bit at hround hshift hbit
  generalize (whole m >>> k).roundedMantissa = r at hround ⊢
  generalize (whole m >>> k).mantissa = q at hround hshift
  calc 2 * (r * 2 ^ k) ≤ 2 * ((q + bit) * 2 ^ k) :=
        Nat.mul_le_mul_left 2 (Nat.mul_le_mul_right _ hround)
    _ = (2 * q + bit) * 2 ^ k + bit * 2 ^ k := by ring
    _ ≤ 2 * m + 1 * 2 ^ k := Nat.add_le_add hshift (Nat.mul_le_mul_right _ hbit)
    _ = 2 * m + 2 ^ k := by rw [Nat.one_mul]

/-! ## Rounding -/

theorem targetExponent_eq (m : ℕ) (e : ℤ) (hlow : -1074 ≤ m.log2 + e - 52) :
    Format.binary64.targetExponent (totalExponent m e) = m.log2 + e - 52 := by
  have hmin : Format.binary64.minExponent = -1074 := by decide
  have hbits : (Format.binary64.mantissaBits : ℤ) = 53 := by decide
  rw [Format.targetExponent, totalExponent, hmin, hbits]
  omega

theorem shiftToTargetExponent_eq {m k : ℕ} {e : ℤ} (hlog : m.log2 = 52 + k)
    (hlow : -1074 ≤ e + k) :
    shiftToTargetExponent Format.binary64 m e .exact = (whole m >>> k, e + k) := by
  have htarget := targetExponent_eq m e (by omega)
  have hk : (Format.binary64.targetExponent (totalExponent m e) - e).toNat = k := by omega
  rw [shiftToTargetExponent]
  dsimp only [shiftToExponent]
  rw [hk]

section

variable {m k : ℕ} {e : ℤ}

/-- A number with 53 bits or more is cut to 53 bits, which a carry may fill. -/
theorem roundedMantissa_mem (hlog : m.log2 = 52 + k) :
    2 ^ 52 ≤ (whole m >>> k).roundedMantissa ∧ (whole m >>> k).roundedMantissa ≤ 2 ^ 53 := by
  have hne : m ≠ 0 := by
    rintro rfl
    rw [Nat.log2_zero] at hlog
    omega
  have hfloor : (whole m >>> k).mantissa = m / 2 ^ k := mantissa_shiftRight m k
  have hlow : 2 ^ 52 ≤ m / 2 ^ k := by
    rw [Nat.le_div_iff_mul_le (Nat.two_pow_pos k), ← Nat.pow_add, ← hlog]
    exact Nat.log2_self_le hne
  have hhigh : m / 2 ^ k < 2 ^ 53 := by
    rw [Nat.div_lt_iff_lt_mul (Nat.two_pow_pos k), ← Nat.pow_add,
      show 53 + k = m.log2 + 1 by omega]
    exact Nat.lt_log2_self
  have hbit : (whole m >>> k).roundBit.toNat ≤ 1 := Bool.toNat_le _
  have hle := roundedMantissa_le (whole m >>> k)
  exact ⟨(hfloor ▸ hlow).trans (le_roundedMantissa _), by omega⟩

/-- The second cut is by the bit of a carry, or by none. -/
theorem roundWithAccuracy_eq (hlog : m.log2 = 52 + k) (hlow : -1074 ≤ e + k) {j : ℕ}
    (hcarry : (whole m >>> k).roundedMantissa.log2 = 52 + j)
    (hne : (whole (whole m >>> k).roundedMantissa >>> j).mantissa ≠ 0) :
    roundWithAccuracy Format.binary64 .positive m e .exact =
      .finite .positive (whole (whole m >>> k).roundedMantissa >>> j).mantissa (e + k + j)
        (Nat.pos_of_ne_zero hne) := by
  rw [roundWithAccuracy, shiftToTargetExponent_eq hlog hlow]
  dsimp only
  rw [shiftToTargetExponent_eq hcarry (by omega)]
  dsimp only
  rw [dif_neg hne]

/-- What a number with 53 bits or more is rounded to has 53 bits, and is larger by at most half a
unit in the last place. -/
theorem exists_round (hlog : m.log2 = 52 + k) (hlow : -1074 ≤ e + k) :
    ∃ (r m' : ℕ) (e' : ℤ) (h : 0 < m'),
      roundWithAccuracy Format.binary64 .positive m e .exact = .finite .positive m' e' h ∧
      m'.log2 = 52 ∧ e + k ≤ e' ∧ (m' : ℚ) * 2 ^ e' = (r : ℚ) * 2 ^ (e + k) ∧
      2 * (r * 2 ^ k) ≤ 2 * m + 2 ^ k := by
  obtain ⟨hrlow, hrhigh⟩ := roundedMantissa_mem hlog
  have hbound := two_mul_rounded_le m k
  have hround := fun {j} => roundWithAccuracy_eq hlog hlow (j := j)
  generalize (whole m >>> k).roundedMantissa = r at *
  obtain hsmall | hcarry := hrhigh.lt_or_eq
  · have hrlog : r.log2 = 52 := (Nat.log2_eq_iff (by omega)).mpr ⟨hrlow, hsmall⟩
    have hpos : 0 < r := by omega
    refine ⟨r, r, e + k, hpos, ?_, hrlog, Int.le_refl _, rfl, hbound⟩
    have hm : (whole r >>> 0).mantissa = r := rfl
    rw [hround (j := 0) hrlog (by rw [hm]; omega)]
    simp only [hm, Nat.cast_zero, Int.add_zero]
  · have hrlog : r.log2 = 52 + 1 := by
      rw [hcarry]
      decide
    refine ⟨r, 2 ^ 52, e + k + 1, by decide, ?_, by decide, by omega, ?_, hbound⟩
    · have hm : (whole r >>> 1).mantissa = 2 ^ 52 := by
        rw [mantissa_shiftRight, hcarry]
        decide
      rw [hround (j := 1) hrlog (by rw [hm]; decide)]
      simp only [hm, Nat.cast_one]
    · rw [hcarry, zpow_add_one₀ (by norm_num)]
      push_cast
      ring

end

/-! ## Numbers of full length -/

/-- A floating-point number stands for `m · 2 ^ e`, where the mantissa has 53 bits. -/
structure Stands (x : Float) (m : ℕ) (e : ℤ) : Prop where
  unpack_eq : ∃ h, x.toModel.unpack = .finite .positive m e h
  log2_eq : m.log2 = 52

theorem Stands.isFinite {x : Float} {m : ℕ} {e : ℤ} (h : Stands x m e) : x.isFinite = true := by
  obtain ⟨_, hunpack⟩ := h.unpack_eq
  rw [Float.isFinite, Float.Model.isFinite, hunpack]
  rfl

theorem Stands.two_pow_le {x : Float} {m : ℕ} {e : ℤ} (h : Stands x m e) : 2 ^ 52 ≤ m := by
  obtain ⟨⟨hpos, -⟩, hlog⟩ := h
  rw [← hlog]
  exact Nat.log2_self_le hpos.ne'

/-- The parts of a number of full length are found again. -/
theorem unpack_packComponents {biased fraction : ℕ} (hpos : 0 < biased) (hfinite : biased < 2047)
    (hfraction : fraction < 2 ^ 52) :
    ∃ h, UnpackedFloat.unpack Format.binary64 (packComponents Format.binary64 .positive
        (BitVec.ofNat _ biased) (BitVec.ofNat _ fraction)) =
      .finite .positive (2 ^ 52 + fraction) (biased - 1075) h := by
  refine ⟨Nat.lt_of_lt_of_le (Nat.two_pow_pos 52) (Nat.le_add_right _ _), ?_⟩
  have hexponent : (BitVec.ofNat Format.binary64.exponentBits biased).toNat = biased := by
    rw [BitVec.toNat_ofNat]
    exact Nat.mod_eq_of_lt (hfinite.trans (by decide))
  have hinf : BitVec.ofNat Format.binary64.exponentBits biased ≠ -1#_ := by
    intro heq
    have := congrArg BitVec.toNat heq
    rw [hexponent, show (-1#_ : BitVec Format.binary64.exponentBits).toNat = 2047 from rfl] at this
    omega
  have hzero : BitVec.ofNat Format.binary64.exponentBits biased ≠ 0#_ := by
    intro heq
    have := congrArg BitVec.toNat heq
    rw [hexponent, show (0#_ : BitVec Format.binary64.exponentBits).toNat = 0 from rfl] at this
    omega
  have hmantissa :
      (1#1 ++ BitVec.ofNat Format.binary64.mantissaBitsWithoutImplicit fraction).toNat =
        2 ^ 52 + fraction := by
    rw [BitVec.toNat_append, ← Nat.shiftLeft_add_eq_or_of_lt (BitVec.isLt _), Nat.shiftLeft_eq,
      BitVec.toNat_ofNat]
    change 1 * 2 ^ 52 + fraction % 2 ^ 52 = 2 ^ 52 + fraction
    omega
  rw [UnpackedFloat.unpack]
  simp only [unpackMantissa_packComponents, unpackExponent_packComponents,
    unpackSign_packComponents, if_neg hinf, if_neg hzero, hmantissa, hexponent]
  rfl

theorem pack_eq {m : ℕ} {e : ℤ} (h : 0 < m) (hlog : m.log2 = 52) (hlow : -1074 ≤ e)
    (hhigh : e ≤ 971) : UnpackedFloat.pack Format.binary64 (.finite .positive m e h) =
      packComponents Format.binary64 .positive (BitVec.ofNat _ (e + 1075).toNat)
        (BitVec.ofNat _ m) := by
  have hbiased : e + Format.binary64.exponentBias + Format.binary64.mantissaBitsWithoutImplicit =
      e + 1075 := Int.add_assoc e 1023 52
  rw [UnpackedFloat.pack]
  dsimp only
  rw [hbiased, if_neg (by change ¬ 2048 ≤ (e + 1075).toNat + 1; omega),
    if_pos (by rw [hlog]; rfl)]

theorem stands_ofModel_pack {m : ℕ} {e : ℤ} (h : 0 < m) (hlog : m.log2 = 52) (hlow : -1074 ≤ e)
    (hhigh : e ≤ 971) : Stands (.ofModel (.pack (.finite .positive m e h))) m e := by
  refine ⟨⟨h, ?_⟩, hlog⟩
  have hbounds := (Nat.log2_eq_iff h.ne').mp hlog
  obtain ⟨fraction, rfl⟩ := Nat.exists_eq_add_of_le hbounds.1
  obtain ⟨biased, hbiased⟩ : ∃ biased : ℕ, e + 1075 = biased := ⟨(e + 1075).toNat, by omega⟩
  have hmantissa : BitVec.ofNat Format.binary64.mantissaBitsWithoutImplicit (2 ^ 52 + fraction) =
      BitVec.ofNat _ fraction := by
    refine BitVec.eq_of_toNat_eq ?_
    rw [BitVec.toNat_ofNat, BitVec.toNat_ofNat]
    exact Nat.add_mod_left (2 ^ 52) fraction
  obtain ⟨_, hunpack⟩ := unpack_packComponents (by omega : 0 < biased) (by omega)
    (by omega : fraction < 2 ^ 52)
  change UnpackedFloat.unpack Format.binary64 (UnpackedFloat.pack Format.binary64 _) = _
  rw [pack_eq h hlog hlow hhigh, hmantissa, hbiased, Int.toNat_natCast, hunpack]
  congr 1
  omega

/-- The least magnitude that is rounded to infinity. -/
def overflow : ℕ :=
  2 ^ 1024 - 2 ^ 970

theorem cast_two_pow_sub {a b : ℕ} (h : b ≤ a) :
    ((2 ^ a - 2 ^ b : ℕ) : ℚ) + 2 ^ (b : ℤ) = 2 ^ (a : ℤ) := by
  rw [Nat.cast_sub (Nat.pow_le_pow_right (by decide) h), zpow_natCast, zpow_natCast]
  push_cast
  ring

theorem overflow_add : (overflow : ℚ) + 2 ^ (970 : ℤ) = 2 ^ (1024 : ℤ) := by
  have h := cast_two_pow_sub (show 970 ≤ 1024 by decide)
  rwa [Nat.cast_ofNat, Nat.cast_ofNat] at h

theorem two_pow_le_overflow : (2 : ℚ) ^ (970 : ℤ) ≤ overflow := by
  have hle : (2 : ℚ) ^ (970 + 1 : ℤ) ≤ 2 ^ (1024 : ℤ) :=
    zpow_le_zpow_right₀ (by norm_num) (by norm_num)
  rw [zpow_add_one₀ (by norm_num), mul_two, ← overflow_add] at hle
  exact le_of_add_le_add_right hle

/-- Where a number is below `2 ^ 1024`, so is the power of two that it begins with. -/
theorem add_lt_of_mul_lt {m a : ℕ} {e : ℤ} (hle : 2 ^ a ≤ m)
    (hlt : (m : ℚ) * 2 ^ e < 2 ^ (1024 : ℤ)) : a + e < 1024 := by
  refine (zpow_lt_zpow_iff_right₀ (by norm_num : (1 : ℚ) < 2)).mp (lt_of_le_of_lt ?_ hlt)
  rw [zpow_add₀ (by norm_num), zpow_natCast]
  exact mul_le_mul_of_nonneg_right (by exact_mod_cast hle) (zpow_pos (by norm_num) e).le

/-- A number with 53 bits or more that is small enough is rounded to one that stands for a number
of 53 bits. It is larger by at most half a unit in the last place. -/
theorem exists_stands_round {m k : ℕ} {e : ℤ} (hlog : m.log2 = 52 + k) (hlow : -1074 ≤ e + k)
    (hsize : (m : ℚ) * 2 ^ e < overflow) :
    ∃ (r m' : ℕ) (e' : ℤ),
      Stands (.ofModel (.pack (roundWithAccuracy Format.binary64 .positive m e .exact))) m' e' ∧
      e + k ≤ e' ∧ (m' : ℚ) * 2 ^ e' = (r : ℚ) * 2 ^ (e + k) ∧
      2 * (r * 2 ^ k) ≤ 2 * m + 2 ^ k := by
  obtain ⟨r, m', e', hpos, hround, hlog', hlow', hvalue, hbound⟩ := exists_round hlog hlow
  refine ⟨r, m', e', ?_, hlow', hvalue, hbound⟩
  rw [hround]
  have htwo : (0 : ℚ) < 2 ^ e := zpow_pos (by norm_num) e
  have hne : m ≠ 0 := by
    rintro rfl
    rw [Nat.log2_zero] at hlog
    omega
  have hfits := add_lt_of_mul_lt (hlog ▸ Nat.log2_self_le hne)
    (hsize.trans_le (overflow_add ▸ le_add_of_nonneg_right (by positivity)))
  have hless : (m' : ℚ) * 2 ^ e' < 2 ^ (1024 : ℤ) := by
    have hhalf : 2 * ((r : ℚ) * 2 ^ (e + k)) ≤ 2 * (m * 2 ^ e) + 2 ^ (e + k) := by
      have : 2 * ((r : ℚ) * 2 ^ k) ≤ 2 * m + 2 ^ k := by exact_mod_cast hbound
      rw [zpow_add₀ (by norm_num), zpow_natCast]
      nlinarith
    have hunit : (2 : ℚ) ^ (e + k) ≤ 2 * 2 ^ (970 : ℤ) := by
      calc (2 : ℚ) ^ (e + k) ≤ 2 ^ (1 + 970 : ℤ) :=
            zpow_le_zpow_right₀ (by norm_num) (by push_cast at hfits; omega)
        _ = 2 * 2 ^ (970 : ℤ) := by rw [zpow_add₀ (by norm_num), zpow_one]
    rw [hvalue, ← overflow_add]
    linarith
  have hhigh := add_lt_of_mul_lt (hlog' ▸ Nat.log2_self_le hpos.ne') hless
  exact stands_ofModel_pack hpos hlog' (hlow.trans hlow') (by omega)

/-- A product does not overflow if the exact one is small enough. -/
theorem Stands.isFinite_mul {x y : Float} {m n : ℕ} {d e : ℤ} (hx : Stands x m d)
    (hy : Stands y n e) (hlow : -1126 ≤ d + e)
    (hsize : ((m : ℚ) * 2 ^ d) * ((n : ℚ) * 2 ^ e) < overflow) : (x * y).isFinite = true := by
  obtain ⟨k, hk, hlog⟩ : ∃ k, 52 ≤ k ∧ (m * n).log2 = 52 + k := by
    have hle : 2 ^ 52 * 2 ^ 52 ≤ m * n := Nat.mul_le_mul hx.two_pow_le hy.two_pow_le
    rw [← Nat.pow_add] at hle
    have hlog := (Nat.le_log2 (by omega)).mpr hle
    exact ⟨(m * n).log2 - 52, by omega, by omega⟩
  have hsize' : ((m * n : ℕ) : ℚ) * 2 ^ (d + e) < overflow := by
    rw [zpow_add₀ (by norm_num), Nat.cast_mul]
    calc (m : ℚ) * n * (2 ^ d * 2 ^ e) = (m * 2 ^ d) * (n * 2 ^ e) := by ring
      _ < overflow := hsize
  obtain ⟨_, m', e', hstands, -⟩ := exists_stands_round hlog (by omega) hsize'
  obtain ⟨hxpos, hx⟩ := hx.unpack_eq
  obtain ⟨hypos, hy⟩ := hy.unpack_eq
  have hmul : x * y =
      .ofModel (.pack (roundWithAccuracy Format.binary64 .positive (m * n) (d + e) .exact)) := by
    change Float.ofModel (.pack (UnpackedFloat.mul _ x.toModel.unpack y.toModel.unpack)) = _
    rw [hx, hy]
    rfl
  rw [hmul]
  exact hstands.isFinite

/-! ## Whole numbers -/

theorem log2_shiftLeft {n : ℕ} (h : n ≠ 0) (k : ℕ) : (n <<< k).log2 = n.log2 + k := by
  have hlow := Nat.log2_self_le h
  have hhigh := Nat.lt_log2_self (n := n)
  rw [Nat.shiftLeft_eq, Nat.log2_eq_iff (Nat.mul_ne_zero h (Nat.two_pow_pos k).ne'), Nat.pow_add,
    Nat.add_right_comm, Nat.pow_add]
  exact ⟨Nat.mul_le_mul_right _ hlow, Nat.mul_lt_mul_of_pos_right hhigh (Nat.two_pow_pos k)⟩

/-- A short number is made longer before it is rounded, which does not change it. -/
theorem exists_stands_shifted {n s k : ℕ} {e : ℤ} (hpos : n ≠ 0) (hlow : -1022 ≤ n.log2 + e)
    (hs : s = 52 - n.log2) (hk : k = n.log2 - 52) (hsize : (n : ℚ) * 2 ^ e < overflow) :
    ∃ (r m' : ℕ) (e' : ℤ),
      Stands (.ofModel (.pack (UnpackedFloat.round Format.binary64 .positive n e))) m' e' ∧
      e - s + k ≤ e' ∧ (m' : ℚ) * 2 ^ e' = (r : ℚ) * 2 ^ (e - s + k) ∧
      2 * (r * 2 ^ k) ≤ 2 * (n <<< s) + 2 ^ k := by
  have hdecrease : UnpackedFloat.round Format.binary64 .positive n e =
      roundWithAccuracy Format.binary64 .positive (n <<< s) (e - s) .exact := by
    have htarget := targetExponent_eq n e (by omega)
    rw [UnpackedFloat.round, htarget]
    dsimp only [decreaseExponent]
    rw [show (e - ((n.log2 : ℤ) + e - 52)).toNat = s by omega]
  have hlog : (n <<< s).log2 = 52 + k := by
    rw [log2_shiftLeft hpos]
    omega
  have hvalue : ((n <<< s : ℕ) : ℚ) * 2 ^ (e - s : ℤ) = n * 2 ^ e := by
    rw [Nat.shiftLeft_eq, zpow_sub₀ (by norm_num), zpow_natCast, Nat.cast_mul, Nat.cast_pow,
      Nat.cast_ofNat]
    field_simp
  rw [hdecrease]
  exact exists_stands_round hlog (by omega) (hvalue ▸ hsize)

/-- Half a unit in the last place of a number with 53 bits or more is a part of `2 ^ 53` of it. -/
theorem mul_le_add_div {n r k : ℕ} (hpos : n ≠ 0) (hk : n.log2 = 52 + k)
    (h : 2 * (r * 2 ^ k) ≤ 2 * n + 2 ^ k) : r * 2 ^ k ≤ n + n / 2 ^ 53 := by
  cases k with
  | zero => omega
  | succ k =>
    have hhalf : 2 ^ k ≤ n / 2 ^ 53 := by
      rw [Nat.le_div_iff_mul_le (Nat.two_pow_pos 53), ← Nat.pow_add,
        show k + 53 = n.log2 by omega]
      exact Nat.log2_self_le hpos
    rw [Nat.pow_succ] at h ⊢
    omega

/-- The number nearest to a whole number of 64 bits is larger by at most half a unit in the last
place. -/
theorem exists_stands_toFloat {n : ℕ} (hpos : n ≠ 0) (h : n < 2 ^ 64) :
    ∃ m e, Stands n.toUInt64.toFloat m e ∧ -52 ≤ e ∧
      (m : ℚ) * 2 ^ e ≤ ((n + n / 2 ^ 53 : ℕ) : ℚ) := by
  have hround : n.toUInt64.toFloat =
      .ofModel (.pack (UnpackedFloat.round Format.binary64 .positive n 0)) := by
    have hto : n.toUInt64.toNat = n := Nat.mod_eq_of_lt h
    change Float.ofModel (.pack (UnpackedFloat.normalize _ (n.toUInt64.toNat : ℤ) 0 .positive)) = _
    have hgt : compare (n : ℤ) 0 = .gt := Int.compare_eq_gt.mpr (by omega)
    rw [hto, UnpackedFloat.normalize, hgt]
    rfl
  have hsize : (n : ℚ) * 2 ^ (0 : ℤ) < overflow := by
    rw [zpow_zero, mul_one]
    calc (n : ℚ) < 2 ^ (64 : ℤ) := by exact_mod_cast h
      _ ≤ 2 ^ (970 : ℤ) := zpow_le_zpow_right₀ (by norm_num) (by norm_num)
      _ ≤ overflow := two_pow_le_overflow
  obtain ⟨s, hs⟩ : ∃ s, s = 52 - n.log2 := ⟨_, rfl⟩
  obtain ⟨k, hk⟩ : ∃ k, k = n.log2 - 52 := ⟨_, rfl⟩
  obtain ⟨r, m, e, hstands, hlow, hm, hbound⟩ :=
    exists_stands_shifted hpos (by omega) hs hk hsize
  rw [hround]
  refine ⟨m, e, hstands, by omega, ?_⟩
  rw [hm]
  -- the number is either made longer, which is exact, or made shorter
  obtain hshort | hlong := Nat.le_total n.log2 52
  · obtain rfl : k = 0 := by omega
    have hle : r ≤ n * 2 ^ s := by
      rw [Nat.shiftLeft_eq] at hbound
      omega
    calc (r : ℚ) * 2 ^ ((0 : ℤ) - s + (0 : ℕ)) ≤ ((n * 2 ^ s : ℕ) : ℚ) * 2 ^ (-(s : ℤ)) := by
          rw [Nat.cast_zero, add_zero, zero_sub]
          exact mul_le_mul_of_nonneg_right (by exact_mod_cast hle) (by positivity)
      _ = n := by
          rw [zpow_neg, zpow_natCast, Nat.cast_mul, Nat.cast_pow, Nat.cast_ofNat,
            mul_inv_cancel_right₀ (by positivity)]
      _ ≤ ((n + n / 2 ^ 53 : ℕ) : ℚ) := by exact_mod_cast Nat.le_add_right _ _
  · obtain rfl : s = 0 := by omega
    rw [Nat.shiftLeft_zero] at hbound
    have hle := mul_le_add_div hpos (by omega) hbound
    calc (r : ℚ) * 2 ^ ((0 : ℤ) - ((0 : ℕ) : ℤ) + k) = ((r * 2 ^ k : ℕ) : ℚ) := by
          rw [Nat.cast_zero, sub_zero, zero_add, zpow_natCast]
          push_cast
          rfl
      _ ≤ ((n + n / 2 ^ 53 : ℕ) : ℚ) := by exact_mod_cast hle

/-! ## Numbers that are drawn -/

/-- The bits of one: the exponent alone. -/
def oneBits : UInt64 := 0x3FF0000000000000

theorem stands_ofBits {fraction : UInt64} (h : fraction.toNat < 2 ^ 52) :
    Stands (Float.ofBits (fraction ||| oneBits)) (2 ^ 52 + fraction.toNat) (-52) := by
  have hbits : (fraction ||| oneBits).toBitVec = packComponents Format.binary64 .positive
      (BitVec.ofNat _ 1023) (BitVec.ofNat _ fraction.toNat) := by
    refine BitVec.eq_of_toNat_eq ?_
    have hfraction : (BitVec.ofNat Format.binary64.mantissaBitsWithoutImplicit
        fraction.toNat).toNat = fraction.toNat := by
      rw [BitVec.toNat_ofNat]
      exact Nat.mod_eq_of_lt h
    rw [packComponents, BitVec.toNat_append, hfraction]
    change (fraction ||| oneBits).toNat = 1023 <<< 52 ||| fraction.toNat
    rw [UInt64.toNat_or, Nat.or_comm]
    rfl
  have hlog : (2 ^ 52 + fraction.toNat).log2 = 52 :=
    (Nat.log2_eq_iff (by omega)).mpr ⟨by omega, by omega⟩
  obtain ⟨hpos, hunpack⟩ := unpack_packComponents (by decide : 0 < 1023) (by decide) h
  have hmodel : Float.ofBits (fraction ||| oneBits) =
      .ofModel (.pack (.finite .positive (2 ^ 52 + fraction.toNat) (-52) hpos)) := by
    change Float.ofModel (.pack (UnpackedFloat.unpack Format.binary64
      (fraction ||| oneBits).toBitVec)) = _
    rw [hbits, hunpack]
    rfl
  rw [hmodel]
  exact stands_ofModel_pack hpos hlog (by decide) (by decide)

theorem one_eq : (1.0 : Float) = Float.ofBits (0 ||| oneBits) := by
  decide

theorem stands_one : Stands 1.0 (2 ^ 52) (-52) := by
  rw [one_eq]
  exact stands_ofBits (by decide)

theorem isFinite_normalize {n : ℕ} {e : ℤ} (hlow : -1022 ≤ e) (hsize : (n : ℚ) * 2 ^ e < overflow) :
    (Float.ofModel (.pack (UnpackedFloat.normalize Format.binary64 n e .positive))).isFinite = true := by
  by_cases hzero : n = 0
  · have heq : compare ((0 : ℕ) : ℤ) 0 = .eq := rfl
    rw [hzero, UnpackedFloat.normalize, heq]
    dsimp only
    decide
  · have hgt : compare (n : ℤ) 0 = .gt := Int.compare_eq_gt.mpr (by omega)
    obtain ⟨_, _, _, hstands, -⟩ := exists_stands_shifted hzero (by omega) rfl rfl hsize
    rw [UnpackedFloat.normalize, hgt]
    exact hstands.isFinite

theorem isFinite_unit (r : RandomSource) : r.unit.1.isFinite = true := by
  obtain ⟨fraction, hfraction, hunit⟩ : ∃ fraction : UInt64, fraction.toNat < 2 ^ 52 ∧
      r.unit.1 = Float.ofBits (fraction ||| oneBits) - 1.0 := by
    refine ⟨r.draw.1 >>> 12, ?_, rfl⟩
    rw [UInt64.toNat_shiftRight]
    change r.draw.1.toNat >>> 12 < 2 ^ 52
    rw [Nat.shiftRight_eq_div_pow]
    have := r.draw.1.toNat_lt
    omega
  obtain ⟨_, hx⟩ := (stands_ofBits hfraction).unpack_eq
  obtain ⟨_, hone⟩ := stands_one.unpack_eq
  have hsub : r.unit.1 =
      .ofModel (.pack (UnpackedFloat.normalize Format.binary64 (fraction.toNat : ℤ) (-52) .positive)) := by
    have hdiff : ((2 ^ 52 + fraction.toNat : ℕ) : ℤ) - ((2 ^ 52 : ℕ) : ℤ) = fraction.toNat := by
      push_cast
      ring
    rw [hunit, ← hdiff]
    change Float.ofModel (.pack (UnpackedFloat.sub _ (Float.ofBits _).toModel.unpack
      (1.0 : Float).toModel.unpack)) = _
    rw [hx, hone]
    rfl
  rw [hsub]
  refine isFinite_normalize (by decide) ?_
  calc (fraction.toNat : ℚ) * 2 ^ (-52 : ℤ) < 2 ^ (52 : ℤ) * 2 ^ (-52 : ℤ) :=
        mul_lt_mul_of_pos_right (by exact_mod_cast hfraction) (by positivity)
    _ = 2 ^ (0 : ℤ) := by rw [← zpow_add₀ (by norm_num)]; norm_num
    _ ≤ 2 ^ (970 : ℤ) := zpow_le_zpow_right₀ (by norm_num) (by norm_num)
    _ ≤ overflow := two_pow_le_overflow

theorem isFinite_ofNat {n : ℕ} (h : n < 2 ^ 53) : (Float.ofNat n).isFinite = true := by
  have hofNat : Float.ofNat n = n.toUInt64.toFloat * 1.0 := by
    change Float.ofScientific n false 0 = _
    rw [Float.ofScientific, dif_pos ⟨h, by decide⟩, if_neg Bool.false_ne_true, one_eq]
    rfl
  rw [hofNat]
  by_cases hzero : n = 0
  · subst hzero
    decide
  · obtain ⟨m, e, hstands, hlow, hle⟩ := exists_stands_toFloat hzero (h.trans (by decide))
    refine hstands.isFinite_mul stands_one (by omega) ?_
    have hone : ((2 ^ 52 : ℕ) : ℚ) * 2 ^ (-52 : ℤ) = 1 := by norm_num
    rw [hone, mul_one]
    have hexact : n / 2 ^ 53 = 0 := Nat.div_eq_of_lt h
    calc (m : ℚ) * 2 ^ e ≤ ((n + n / 2 ^ 53 : ℕ) : ℚ) := hle
      _ < 2 ^ (53 : ℤ) := by rw [hexact]; exact_mod_cast h
      _ ≤ 2 ^ (970 : ℤ) := zpow_le_zpow_right₀ (by norm_num) (by norm_num)
      _ ≤ overflow := two_pow_le_overflow

/-! ## Powers of ten -/

/-- A significand up to this one does not overflow if it is multiplied by a power of ten. -/
def most (n : ℕ) : ℕ :=
  min (Decimal.penultimate / 10 ^ n) (10 ^ 17)

/-- An exact power of ten is small enough for the significands that it is multiplied with. -/
def powerFits (n : ℕ) : Bool :=
  match (Json.Numeral.power n).toModel.unpack with
  | .finite .positive m e _ =>
    m.log2 == 52 && decide (-52 ≤ e) &&
      decide ((most n + most n / 2 ^ 53) * (m * 2 ^ (e + 52).toNat) < overflow * 2 ^ 52)
  | _ => false

/-- A power of ten of more than 53 bits, rounded to 53 bits. It is counted in parts of `2 ^ 53`. -/
def rounded (n : ℕ) : ℕ :=
  (2 ^ 53 * 10 ^ n + 2 ^ (10 ^ n).log2) / 2 ^ ((10 ^ n).log2 + 1) * 2 ^ ((10 ^ n).log2 + 1)

/-- A rounded power of ten is small enough for the significands that it is multiplied with. -/
def roundedFits (n : ℕ) : Bool :=
  decide ((most n + most n / 2 ^ 53) * rounded n < overflow * 2 ^ 53)

/-- The powers of the table, and the last ones; those in between are far from the bound. -/
theorem all_fit : (List.range 23).all powerFits = true ∧
    (List.range 18).all (fun i => roundedFits (291 + i)) = true := by
  decide +kernel

/-- The powers of ten that are numbers are those up to the 308th. -/
theorem overflow_between : 10 ^ 308 < overflow ∧ Decimal.penultimate < 10 ^ 309 := by
  decide +kernel

theorem exists_stands_shortPower {n : ℕ} (h : n ≤ 22) :
    ∃ m e, Stands (Json.Numeral.power n) m e ∧ -52 ≤ e ∧
      ((most n + most n / 2 ^ 53 : ℕ) : ℚ) * (m * 2 ^ e) < overflow := by
  have hfits := List.all_eq_true.mp all_fit.1 n (List.mem_range.mpr (by omega))
  rw [powerFits] at hfits
  split at hfits
  next m e hpos hunpack =>
    rw [Bool.and_eq_true, Bool.and_eq_true, beq_iff_eq, decide_eq_true_eq, decide_eq_true_eq]
      at hfits
    obtain ⟨⟨hlog, hlow⟩, hbound⟩ := hfits
    refine ⟨m, e, ⟨⟨hpos, hunpack⟩, hlog⟩, hlow, ?_⟩
    generalize most n + most n / 2 ^ 53 = bound at hbound ⊢
    obtain ⟨j, hj⟩ : ∃ j : ℕ, e + 52 = j := ⟨(e + 52).toNat, by omega⟩
    rw [hj, Int.toNat_natCast] at hbound
    have hless : ((bound * (m * 2 ^ j) : ℕ) : ℚ) < overflow * 2 ^ (52 : ℤ) := by
      exact_mod_cast hbound
    have hshift : (bound : ℚ) * (m * 2 ^ e) * 2 ^ (52 : ℤ) = ((bound * (m * 2 ^ j) : ℕ) : ℚ) := by
      have hpow : (2 : ℚ) ^ e * 2 ^ (52 : ℤ) = 2 ^ j := by
        rw [← zpow_add₀ (by norm_num), hj, zpow_natCast]
      push_cast
      rw [← hpow]
      ring
    rw [← hshift] at hless
    exact lt_of_mul_lt_mul_right hless (by positivity)
  next => cases hfits

theorem mul_rounded_lt {n : ℕ} (h : n ≤ 308) :
    (most n + most n / 2 ^ 53) * rounded n < overflow * 2 ^ 53 := by
  obtain hlow | hhigh := Nat.lt_or_ge n 291
  · -- far below the largest number, rough bounds are enough
    have hpower := Nat.pow_le_pow_right (show 0 < 10 by decide) (Nat.le_of_lt_succ hlow)
    have hmost : most n + most n / 2 ^ 53 ≤ 10 ^ 17 + 10 ^ 17 :=
      Nat.add_le_add (min_le_right _ _) ((Nat.div_le_self _ _).trans (min_le_right _ _))
    have hrounded : rounded n ≤ 2 ^ 54 * 10 ^ 290 := by
      calc rounded n ≤ 2 ^ 53 * 10 ^ n + 2 ^ (10 ^ n).log2 := Nat.div_mul_le_self _ _
        _ ≤ 2 ^ 53 * 10 ^ n + 2 ^ 53 * 10 ^ n := by
            refine Nat.add_le_add_left ((Nat.log2_self_le ?_).trans ?_) _
            · exact (Nat.pow_pos (by decide)).ne'
            · exact Nat.le_mul_of_pos_left _ (by decide)
        _ ≤ 2 ^ 54 * 10 ^ 290 := by
            rw [← Nat.two_mul, ← Nat.mul_assoc]
            exact Nat.mul_le_mul_left _ hpower
    calc (most n + most n / 2 ^ 53) * rounded n
        ≤ (10 ^ 17 + 10 ^ 17) * (2 ^ 54 * 10 ^ 290) := Nat.mul_le_mul hmost hrounded
      _ ≤ 10 ^ (18 + 290) * 2 ^ 53 := by
          rw [Nat.pow_add]
          generalize 10 ^ 290 = power
          omega
      _ < overflow * 2 ^ 53 := Nat.mul_lt_mul_of_pos_right overflow_between.1 (by decide)
  · obtain ⟨i, rfl⟩ := Nat.exists_eq_add_of_le hhigh
    exact of_decide_eq_true
      (List.all_eq_true.mp all_fit.2 i (List.mem_range.mpr (by omega)))

/-- A power of ten that is not in the table is the product of one and its exact value, rounded. -/
theorem power_eq {n : ℕ} (hlow : 22 < n) (h : n ≤ 308) : Json.Numeral.power n =
    .ofModel (.pack (roundWithAccuracy Format.binary64 .positive (10 ^ n <<< 53) (-53) .exact)) := by
  have hcomm : 10 ^ n <<< 53 = 1 <<< 53 * 10 ^ n := by
    rw [Nat.shiftLeft_eq, Nat.shiftLeft_eq, Nat.one_mul, Nat.mul_comm]
  have hlarge : ¬ (n : ℤ) > 2 ^ Format.binary64.exponentBits := by
    change ¬ (n : ℤ) > 2 ^ 11
    omega
  have hsmall : ¬ (n : ℤ) < -(2 ^ Format.binary64.exponentBits + (Nat.log2 1 : ℤ)) := by
    change ¬ (n : ℤ) < -(2 ^ 11 + _)
    omega
  rw [hcomm, Json.Numeral.power, Float.ofScientific, dif_neg fun hshort => by omega]
  change Float.ofModel (.pack (UnpackedFloat.ofScientific Format.binary64 1 (n : ℤ))) = _
  rw [UnpackedFloat.ofScientific, dif_neg Nat.one_ne_zero, if_neg hlarge, if_neg hsmall,
    if_pos (Int.natCast_nonneg n)]
  rfl

theorem exists_stands_longPower {n : ℕ} (hlow : 22 < n) (h : n ≤ 308) :
    ∃ m e, Stands (Json.Numeral.power n) m e ∧ -52 ≤ e ∧
      ((most n + most n / 2 ^ 53 : ℕ) : ℚ) * (m * 2 ^ e) < overflow := by
  have hpos : 10 ^ n ≠ 0 := (Nat.pow_pos (by decide)).ne'
  have hlog : (10 ^ n <<< 53).log2 = 52 + ((10 ^ n).log2 + 1) := by
    rw [log2_shiftLeft hpos]
    omega
  have hsize : ((10 ^ n <<< 53 : ℕ) : ℚ) * 2 ^ (-53 : ℤ) < overflow := by
    have hexact : ((10 ^ n <<< 53 : ℕ) : ℚ) * 2 ^ (-53 : ℤ) = (10 ^ n : ℕ) := by
      rw [Nat.shiftLeft_eq, Nat.cast_mul, mul_assoc]
      norm_num
    rw [hexact]
    have hpower := Nat.pow_le_pow_right (show 0 < 10 by decide) h
    exact_mod_cast hpower.trans_lt overflow_between.1
  obtain ⟨r, m, e, hstands, hlow', hvalue, hbound⟩ := exists_stands_round hlog (by omega) hsize
  refine ⟨m, e, power_eq hlow h ▸ hstands, by omega, ?_⟩
  have hrounded : r * 2 ^ ((10 ^ n).log2 + 1) ≤ rounded n := by
    refine Nat.mul_le_mul_right _ ((Nat.le_div_iff_mul_le (Nat.two_pow_pos _)).mpr ?_)
    rw [Nat.shiftLeft_eq, Nat.pow_succ] at hbound
    rw [Nat.pow_succ]
    omega
  have hfits := mul_rounded_lt h
  generalize most n + most n / 2 ^ 53 = bound at hfits ⊢
  have hscaled : (bound : ℚ) * (m * 2 ^ e) * 2 ^ 53 < overflow * 2 ^ 53 := by
    calc (bound : ℚ) * (m * 2 ^ e) * 2 ^ 53
        = ((bound * (r * 2 ^ ((10 ^ n).log2 + 1)) : ℕ) : ℚ) := by
          rw [hvalue, zpow_add₀ (by norm_num), zpow_natCast]
          push_cast
          rw [zpow_neg]
          norm_num
          ring
      _ ≤ ((bound * rounded n : ℕ) : ℚ) := Nat.cast_le.mpr (Nat.mul_le_mul_left _ hrounded)
      _ < overflow * 2 ^ 53 := by exact_mod_cast hfits
  exact lt_of_mul_lt_mul_right hscaled (by positivity)

theorem exists_stands_power {n : ℕ} (h : n ≤ 308) : ∃ m e, Stands (Json.Numeral.power n) m e ∧
    -52 ≤ e ∧ ((most n + most n / 2 ^ 53 : ℕ) : ℚ) * (m * 2 ^ e) < overflow := by
  obtain hshort | hlong := le_or_gt n 22
  · exact exists_stands_shortPower hshort
  · exact exists_stands_longPower hlong h

theorem penultimate_lt {n : ℕ} (h : 308 < n) : Decimal.penultimate < 10 ^ n :=
  overflow_between.2.trans_le (Nat.pow_le_pow_right (by decide) h)

theorem isInf_eq_false {x : Float} (h : x.isFinite = true) : x.isInf = false := by
  rw [Float.isFinite, Float.Model.isFinite] at h
  rw [Float.isInf, Float.Model.isInf]
  cases hunpack : x.toModel.unpack with
  | infinity sign =>
    rw [hunpack] at h
    cases h
  | _ => rfl

/-- A numeral has a value if it has few enough digits, and is not beyond the interval of the largest
number but one. -/
theorem isSome_toFloat? {n : Json.Numeral} (hdigits : n.significand ≤ 10 ^ 17)
    (hfits : 0 ≤ n.exponent → n.significand ≠ 0 ∧
      n.significand * 10 ^ n.exponent.toNat ≤ Decimal.penultimate) : n.toFloat?.isSome = true := by
  rw [Json.Numeral.toFloat?, Option.isSome_map]
  by_cases hexponent : 0 ≤ n.exponent
  · obtain ⟨hzero, hfits⟩ := hfits hexponent
    obtain ⟨e, he⟩ := Int.eq_ofNat_of_zero_le hexponent
    rw [he, Int.toNat_natCast] at hfits
    have hpower : e ≤ 308 := by
      by_contra hlarge
      exact absurd ((Nat.le_mul_of_pos_left _ (Nat.pos_of_ne_zero hzero)).trans hfits)
        (Nat.not_le_of_lt (penultimate_lt (Nat.lt_of_not_le hlarge)))
    have hmost : n.significand ≤ most e :=
      le_min ((Nat.le_div_iff_mul_le (Nat.pow_pos (by decide))).mpr hfits) hdigits
    have hwidth : n.significand < 2 ^ 64 := hdigits.trans_lt (by decide)
    obtain ⟨m, d, hx, hlow, hle⟩ := exists_stands_toFloat hzero hwidth
    obtain ⟨m', d', hy, hlow', hbound⟩ := exists_stands_power hpower
    have hfinite : (n.significand.toUInt64.toFloat * Json.Numeral.power e).isFinite = true := by
      refine hx.isFinite_mul hy (by omega) (lt_of_le_of_lt ?_ hbound)
      refine mul_le_mul_of_nonneg_right (hle.trans ?_)
        (mul_nonneg (Nat.cast_nonneg _) (zpow_nonneg (by norm_num) _))
      exact Nat.cast_le.mpr (Nat.add_le_add hmost (Nat.div_le_div_right hmost))
    rw [if_pos hexponent, if_pos (by omega), he, Int.toNat_natCast]
    dsimp only
    rw [isInf_eq_false hfinite]
    rfl
  · rw [if_neg hexponent]
    rfl

theorem isSome_toFloat?_largest (negative : Bool) :
    (Json.Numeral.toFloat? ⟨negative, 17976931348623157, 292, false⟩).isSome = true := by
  cases negative <;> decide +kernel

end Binary64

end ShaderReducer

