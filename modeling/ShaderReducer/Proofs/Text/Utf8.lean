import ShaderReducer.Text.Utf8
import Mathlib.Tactic.Common

/-!
# Text read back from bytes

The first byte of a character tells how many follow, and none of the bytes that are written for a
character leaves a gap. So every text is read back from its bytes.
-/

namespace ShaderReducer

namespace Utf8

/-! ## The bytes of one character -/

theorem between_iff {low b high : UInt8} :
    (decide (low ≤ b) && decide (b ≤ high)) = true ↔
      low.toNat ≤ b.toNat ∧ b.toNat ≤ high.toNat := by
  rw [Bool.and_eq_true, decide_eq_true_eq, decide_eq_true_eq, UInt8.le_iff_toNat_le,
    UInt8.le_iff_toNat_le]

theorem continues_of_toNat {b : UInt8} (h : 0x80 ≤ b.toNat ∧ b.toNat ≤ 0xBF) :
    continues b = true :=
  between_iff.mpr h

theorem fitsSecond_of_toNat {first b : UInt8} (h : 0x80 ≤ b.toNat ∧ b.toNat ≤ 0xBF)
    (hE0 : first.toNat = 0xE0 → 0xA0 ≤ b.toNat) (hED : first.toNat = 0xED → b.toNat ≤ 0x9F)
    (hF0 : first.toNat = 0xF0 → 0x90 ≤ b.toNat) (hF4 : first.toNat = 0xF4 → b.toNat ≤ 0x8F) :
    fitsSecond first b = true := by
  refine between_iff.mpr ?_
  unfold secondRange
  split
  next heq => exact ⟨hE0 (congrArg UInt8.toNat heq), h.2⟩
  split
  next heq => exact ⟨h.1, hED (congrArg UInt8.toNat heq)⟩
  split
  next heq => exact ⟨hF0 (congrArg UInt8.toNat heq), h.2⟩
  split
  next heq => exact ⟨h.1, hF4 (congrArg UInt8.toNat heq)⟩
  exact h

section Step

variable {first b c d : UInt8} (rest : List UInt8)

theorem step_one (h : first.toNat < 0x80) :
    step first rest = (some (Char.ofNat first.toNat), 0) := by
  unfold step
  rw [if_pos (UInt8.lt_iff_toNat_lt.mpr h)]

theorem not_lt_of_toNat {low : UInt8} (h : low.toNat ≤ first.toNat) : ¬ first < low :=
  fun hlt => absurd (UInt8.lt_iff_toNat_lt.mp hlt) (Nat.not_lt.mpr h)

theorem not_between_of_toNat {low high : UInt8} (h : high.toNat < first.toNat) :
    ¬ (decide (low ≤ first) && decide (first ≤ high)) = true :=
  fun hle => absurd (between_iff.mp hle).2 (Nat.not_le.mpr h)

theorem step_two (h : 0xC2 ≤ first.toNat ∧ first.toNat ≤ 0xDF) (hb : continues b = true) :
    step first (b :: rest) = (some (Char.ofNat (first.toNat % 0x20 * 0x40 + tail b)), 1) := by
  have hin : (decide (0xC2 ≤ first) && decide (first ≤ 0xDF)) = true := between_iff.mpr h
  unfold step
  rw [if_neg (not_lt_of_toNat (Nat.le_trans (by decide) h.1)), if_pos hin]
  dsimp only
  rw [if_pos hb]

theorem step_three (h : 0xE0 ≤ first.toNat ∧ first.toNat ≤ 0xEF) (hb : fitsSecond first b = true)
    (hc : continues c = true) : step first (b :: c :: rest) =
      (some (Char.ofNat (first.toNat % 0x10 * 0x1000 + tail b * 0x40 + tail c)), 2) := by
  have hin : (decide (0xE0 ≤ first) && decide (first ≤ 0xEF)) = true := between_iff.mpr h
  unfold step
  rw [if_neg (not_lt_of_toNat (Nat.le_trans (by decide) h.1)),
    if_neg (not_between_of_toNat (Nat.lt_of_lt_of_le (by decide) h.1)),
    if_pos hin]
  dsimp only
  rw [hb, if_neg (by decide), if_pos hc]

theorem step_four (h : 0xF0 ≤ first.toNat ∧ first.toNat ≤ 0xF4) (hb : fitsSecond first b = true)
    (hc : continues c = true) (hd : continues d = true) : step first (b :: c :: d :: rest) =
      (some (Char.ofNat (first.toNat % 0x08 * 0x40000 + tail b * 0x1000 + tail c * 0x40 + tail d)),
        3) := by
  have hin : (decide (0xF0 ≤ first) && decide (first ≤ 0xF4)) = true := between_iff.mpr h
  unfold step
  rw [if_neg (not_lt_of_toNat (Nat.le_trans (by decide) h.1)),
    if_neg (not_between_of_toNat (Nat.lt_of_lt_of_le (by decide) h.1)),
    if_neg (not_between_of_toNat (Nat.lt_of_lt_of_le (by decide) h.1)),
    if_pos hin]
  dsimp only
  rw [hb, hc, if_neg (by decide), if_neg (by decide), if_pos hd]

end Step

/-! ## Characters and texts -/

/-- The bytes of a character are read as that character. -/
theorem step_encode (c : Char) (rest : List UInt8) : ∃ first more,
    String.utf8EncodeChar c = first :: more ∧ step first (more ++ rest) = (some c, more.length) := by
  have hvalid : c.toNat < 0xD800 ∨ (0xDFFF < c.toNat ∧ c.toNat < 0x110000) := c.valid
  have hbyte : ∀ n < 256, (UInt8.ofNat n).toNat = n := fun n hn => UInt8.toNat_ofNat_of_lt hn
  have hchar : ∀ n, n = c.toNat → some (Char.ofNat n) = some c := by
    rintro _ rfl
    rw [Char.ofNat_toNat]
  unfold String.utf8EncodeChar
  dsimp only
  generalize hn : c.val.toNat = n
  rw [show c.toNat = n from hn] at hvalid hchar
  have hlast := hbyte (n % 64 + 128) (by omega)
  have hmiddle := hbyte (n / 64 % 64 + 128) (by omega)
  have hsecond := hbyte (n / 4096 % 64 + 128) (by omega)
  split
  next hle =>
    have hfirst := hbyte n (by omega)
    refine ⟨_, _, rfl, (step_one _ (by omega)).trans ?_⟩
    rw [hchar _ hfirst]
    rfl
  split
  next hle =>
    have hfirst := hbyte (n / 64 % 32 + 192) (by omega)
    refine ⟨_, _, rfl, (step_two rest (by omega) (continues_of_toNat (by omega))).trans ?_⟩
    rw [hchar _ (by rw [tail, hfirst, hlast]; omega)]
    rfl
  split
  next hle =>
    have hfirst := hbyte (n / 4096 % 16 + 224) (by omega)
    have hfits : fitsSecond (UInt8.ofNat (n / 4096 % 16 + 224)) (UInt8.ofNat (n / 64 % 64 + 128)) =
        true := by
      apply fitsSecond_of_toNat <;> omega
    refine ⟨_, _, rfl, (step_three rest (by omega) hfits (continues_of_toNat (by omega))).trans ?_⟩
    rw [hchar _ (by rw [tail, tail, hfirst, hmiddle, hlast]; omega)]
    rfl
  next hle =>
    have hfirst := hbyte (n / 262144 % 8 + 240) (by omega)
    have hfits : fitsSecond (UInt8.ofNat (n / 262144 % 8 + 240))
        (UInt8.ofNat (n / 4096 % 64 + 128)) = true := by
      apply fitsSecond_of_toNat <;> omega
    refine ⟨_, _, rfl, (step_four rest (by omega) hfits (continues_of_toNat (by omega))
      (continues_of_toNat (by omega))).trans ?_⟩
    rw [hchar _ (by rw [tail, tail, tail, hfirst, hsecond, hmiddle, hlast]; omega)]
    rfl

theorem decode_encode (cs : List Char) :
    decode (cs.flatMap String.utf8EncodeChar) = cs.map some := by
  induction cs with
  | nil => rw [List.flatMap_nil, decode, List.map_nil]
  | cons c cs ih =>
      obtain ⟨first, more, hbytes, hstep⟩ := step_encode c (cs.flatMap String.utf8EncodeChar)
      rw [List.flatMap_cons, hbytes, List.cons_append, decode, hstep]
      dsimp only
      rw [List.drop_left, ih, List.map_cons]

/-- Every text is read back from its bytes. -/
theorem decode?_encode (s : String) : decode? (encode s) = some s := by
  have hmap : ∀ cs : List Char, (cs.map some).mapM id = some cs := by
    intro cs
    induction cs with
    | nil => rfl
    | cons c cs ih => simp [ih]
  rw [decode?, encode, decode_encode, hmap, Option.map_some, String.ofList_toList]

end Utf8

end ShaderReducer
