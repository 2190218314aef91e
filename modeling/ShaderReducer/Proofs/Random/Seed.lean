import Mathlib.Algebra.Group.Nat.Defs
import Mathlib.Data.List.Nodup
import ShaderReducer.Random.Source

/-!
# Seeds of different streams

Each step of the mixing can be undone: an addition, an exclusive or with the word moved to the right,
and a product with an odd number. So a seed and different numbers give different seeds, and so do
different seeds and a number. A stream numbers its children from one on, whatever is drawn from it
in between; their seeds are different up to the last number that a word holds.
-/

namespace ShaderReducer

namespace Seed

/-! ## The steps of the mixing -/

/-- A word is known from its exclusive or with itself moved to the right. -/
theorem xorShift_injective {k : UInt64} (hk : 0 < k.toNat % 64) :
    Function.Injective fun z : UInt64 => z ^^^ (z >>> k) := by
  intro x y h
  -- in what the two words differ does not change when it is moved, so it is nothing
  have hfixed : x ^^^ y = (x ^^^ y) >>> k := by
    rw [UInt64.shiftRight_xor, ← UInt64.xor_eq_zero_iff]
    calc x ^^^ y ^^^ (x >>> k ^^^ y >>> k) = (x ^^^ x >>> k) ^^^ (y ^^^ y >>> k) := by ac_rfl
      _ = 0 := UInt64.xor_eq_zero_iff.mpr h
  have hdiv : (x ^^^ y).toNat = (x ^^^ y).toNat / 2 ^ (k.toNat % 64) := by
    rw [← Nat.shiftRight_eq_div_pow, ← UInt64.toNat_shiftRight, ← hfixed]
  have hzero : (x ^^^ y).toNat = 0 := by
    by_contra hne
    have hlt := Nat.div_lt_self (Nat.pos_of_ne_zero hne) (Nat.one_lt_two_pow (Nat.pos_iff_ne_zero.mp hk))
    omega
  exact UInt64.xor_eq_zero_iff.mp (UInt64.toNat_inj.mp hzero)

/-- A word is known from its product with a number that another one takes back to one. -/
theorem mul_injective {c back : UInt64} (h : c * back = 1) :
    Function.Injective fun z : UInt64 => z * c := by
  intro x y hxy
  have hback : x * c * back = y * c * back := congrArg (· * back) hxy
  rwa [UInt64.mul_assoc, UInt64.mul_assoc, h, UInt64.mul_one, UInt64.mul_one] at hback

theorem scramble_injective : Function.Injective scramble := by
  have hfirst : (0xBF58476D1CE4E5B9 : UInt64) * 0x96DE1B173F119089 = 1 := by decide
  have hsecond : (0x94D049BB133111EB : UInt64) * 0x319642B2D24D8EC3 = 1 := by decide
  intro x y h
  have hz := mul_injective hsecond (xorShift_injective (k := 31) (by decide) h)
  have hz := mul_injective hfirst (xorShift_injective (k := 27) (by decide) hz)
  exact (UInt64.add_left_inj golden).mp (xorShift_injective (k := 30) (by decide) hz)

/-- Different numbers give different seeds. -/
theorem derive_injective (seed : UInt64) : Function.Injective (derive seed) := by
  intro a b h
  have hmixed := (UInt64.xor_right_inj seed).mp (scramble_injective h)
  exact (UInt64.add_left_inj golden).mp (scramble_injective hmixed)

/-- Different seeds give different seeds. -/
theorem derive_injective_left (stream : UInt64) : Function.Injective (derive · stream) :=
  fun _ _ h => (UInt64.xor_left_inj _).mp (scramble_injective h)

end Seed

namespace RandomSource

/-! ## What is drawn from a stream -/

/-- Two places in one stream: the seed is the same, and so is the number of children. -/
def SameStream (r r' : RandomSource) : Prop :=
  r'.seed = r.seed ∧ r'.children = r.children

theorem sameStream_draw (r : RandomSource) : SameStream r r.draw.2 :=
  ⟨rfl, rfl⟩

theorem sameStream_belowWithin (n : Nat) (r : RandomSource) (tries : Nat) :
    SameStream r (belowWithin n r tries).2 := by
  induction tries generalizing r with
  | zero => exact ⟨rfl, rfl⟩
  | succ tries ih =>
    unfold belowWithin
    dsimp only
    split
    · exact sameStream_draw r
    · exact ih r.draw.2

theorem sameStream_below (n : Nat) (r : RandomSource) : SameStream r (below n r).2 :=
  sameStream_belowWithin n r attempts

theorem sameStream_unit (r : RandomSource) : SameStream r (unit r).2 :=
  sameStream_draw r

theorem sameStream_chance (p : Float) (r : RandomSource) : SameStream r (chance p r).2 := by
  unfold chance
  split
  · exact ⟨rfl, rfl⟩
  · exact sameStream_draw r

/-! ## The children of a stream -/

/-- The use of a stream up to a place, with the children that were made on the way, in order. -/
inductive Spawns (start : RandomSource) : List RandomSource → RandomSource → Prop
  | start : Spawns start [] start
  | number {made r} (n : Nat) : Spawns start made r → Spawns start made (r.below n).2
  | fraction {made r} : Spawns start made r → Spawns start made r.unit.2
  | trial {made r} (p : Float) : Spawns start made r → Spawns start made (r.chance p).2
  | child {made r} : Spawns start made r → Spawns start (made ++ [r.child.1]) r.child.2

/-- What a stream with a seed has come to after a row of children: they have the seeds of the
numbers from one on. -/
structure Numbered (seed : UInt64) (made : List RandomSource) (r : RandomSource) : Prop where
  seed_eq : r.seed = seed
  children_eq : r.children = UInt64.ofNat made.length
  seeds_eq : made.map RandomSource.seed =
    (List.range made.length).map fun i => Seed.derive seed (UInt64.ofNat (i + 1))

section Numbered

variable {seed : UInt64} {made : List RandomSource} {r r' : RandomSource}

theorem numbered_ofSeed : Numbered seed [] (ofSeed seed) :=
  ⟨rfl, rfl, rfl⟩

theorem Numbered.sameStream (h : Numbered seed made r) (hr : SameStream r r') :
    Numbered seed made r' :=
  ⟨hr.1.trans h.seed_eq, hr.2.trans h.children_eq, h.seeds_eq⟩

theorem Numbered.child (h : Numbered seed made r) :
    Numbered seed (made ++ [r.child.1]) r.child.2 := by
  have hnumber : r.children + 1 = UInt64.ofNat (made.length + 1) := by
    rw [h.children_eq, UInt64.ofNat_add]
    rfl
  refine ⟨h.seed_eq, ?_, ?_⟩
  · rw [List.length_append, List.length_singleton]
    exact hnumber
  · have hseed : r.child.1.seed = Seed.derive seed (UInt64.ofNat (made.length + 1)) := by
      rw [← hnumber, ← h.seed_eq]
      rfl
    rw [List.map_append, List.length_append, List.length_singleton, List.range_succ,
      List.map_append, h.seeds_eq, List.map_singleton, List.map_singleton, hseed]

theorem Spawns.numbered (h : Spawns (ofSeed seed) made r) : Numbered seed made r := by
  induction h with
  | start => exact numbered_ofSeed
  | number n _ ih => exact ih.sameStream (sameStream_below n _)
  | fraction _ ih => exact ih.sameStream (sameStream_unit _)
  | trial p _ ih => exact ih.sameStream (sameStream_chance p _)
  | child _ ih => exact ih.child

/-- Children have different seeds as long as a word holds their numbers. -/
theorem Numbered.nodup_seeds (h : Numbered seed made r) :
    ((made.map RandomSource.seed).take (2 ^ 64 - 1)).Nodup := by
  rw [h.seeds_eq, ← List.map_take, List.take_range]
  refine List.Nodup.map_on ?_ List.nodup_range
  intro i hi j hj heq
  have hlt : ∀ k ∈ List.range (min (2 ^ 64 - 1) made.length), k + 1 < 2 ^ 64 := by
    intro k hk
    have := Nat.lt_of_lt_of_le (List.mem_range.mp hk) (Nat.min_le_left _ _)
    omega
  have hwords := congrArg UInt64.toNat (Seed.derive_injective seed heq)
  rw [UInt64.toNat_ofNat_of_lt' (hlt i hi), UInt64.toNat_ofNat_of_lt' (hlt j hj)] at hwords
  exact Nat.succ.inj hwords

end Numbered

end RandomSource

namespace Seed

/-- Seeds never collide within a family: neither those of one seed and different numbers, nor those
of different seeds and one number, nor those of the children of a stream. -/
theorem distinct : (∀ seed, Function.Injective (derive seed)) ∧
    (∀ stream, Function.Injective (derive · stream)) ∧
    ∀ seed made r, RandomSource.Spawns (RandomSource.ofSeed seed) made r →
      ((made.map RandomSource.seed).take (2 ^ 64 - 1)).Nodup :=
  ⟨derive_injective, derive_injective_left, fun _ _ _ h => h.numbered.nodup_seeds⟩

/-- The two children of a stream have different seeds, though a number is drawn in between. -/
theorem distinct_drawnBetween : ∃ first second,
    (∃ r, RandomSource.Spawns (RandomSource.ofSeed 3) [first, second] r) ∧
      first.seed ≠ second.seed := by
  have hstart : RandomSource.Spawns (.ofSeed 3) [] (.ofSeed 3) := .start
  have hspawns := (hstart.child.number 10).child
  have hnodup := distinct.2.2 3 _ _ hspawns
  rw [List.take_of_length_le (by simp)] at hnodup
  exact ⟨_, _, ⟨_, hspawns⟩, (List.pairwise_pair.mp hnodup :)⟩

end Seed

end ShaderReducer
