/-!
# The ChaCha stream with twelve rounds

A block is made from a key of eight words and a block number. It yields eight words of 64 bits, each
from two successive words of 32 bits, the lower half first.
-/

namespace ShaderReducer

namespace ChaCha

abbrev Block : Type := Vector UInt32 16

abbrev Key : Type := Vector UInt32 8

def rotateLeft (x : UInt32) (n : UInt32) : UInt32 :=
  (x <<< n) ||| (x >>> (32 - n))

def quarterRound (s : Block) (a b c d : Fin 16) : Block :=
  let xa := s[a] + s[b]
  let xd := rotateLeft (s[d] ^^^ xa) 16
  let xc := s[c] + xd
  let xb := rotateLeft (s[b] ^^^ xc) 12
  let ya := xa + xb
  let yd := rotateLeft (xd ^^^ ya) 8
  let yc := xc + yd
  let yb := rotateLeft (xb ^^^ yc) 7
  (((s.set a ya).set b yb).set c yc).set d yd

def doubleRound (s : Block) : Block :=
  let s := quarterRound s 0 4 8 12
  let s := quarterRound s 1 5 9 13
  let s := quarterRound s 2 6 10 14
  let s := quarterRound s 3 7 11 15
  let s := quarterRound s 0 5 10 15
  let s := quarterRound s 1 6 11 12
  let s := quarterRound s 2 7 8 13
  quarterRound s 3 4 9 14

/-- The block before it is mixed: four fixed words, the key, the number of the block, and zeros. -/
def start (key : Key) (number : UInt64) : Block :=
  let fixed : Vector UInt32 4 := #v[0x61707865, 0x3320646e, 0x79622d32, 0x6b206574]
  let last : Vector UInt32 4 := #v[number.toUInt32, (number >>> 32).toUInt32, 0, 0]
  fixed ++ key ++ last

def block (key : Key) (number : UInt64) : Block :=
  let s := start key number
  let mixed := (List.range 6).foldl (fun s _ => doubleRound s) s
  s.zipWith (· + ·) mixed

/-- Pairs of successive words as words of twice the size. -/
def pairs : List UInt32 → List UInt64
  | low :: high :: rest => (low.toUInt64 ||| (high.toUInt64 <<< 32)) :: pairs rest
  | _ => []

end ChaCha

/-- A place in a ChaCha stream: the key, the number of the next block, and what is left of the block
before it. -/
structure ChaCha where
  key : ChaCha.Key
  next : UInt64 := 0
  pending : List UInt64 := []

namespace ChaCha

def draw (g : ChaCha) : UInt64 × ChaCha :=
  match g.pending with
  | v :: rest => (v, { g with pending := rest })
  | [] =>
    let words := pairs (block g.key g.next).toList
    (words.headD 0, { g with next := g.next + 1, pending := words.tail })

def seedStep (state : UInt64) : UInt64 :=
  state * 6364136223846793005 + 11634580027462260723

/-- The word of a key that a state of that generator yields: its high bits, folded and rotated to
the right. -/
def seedWord (state : UInt64) : UInt32 :=
  let x := (((state >>> 18) ^^^ state) >>> 27).toUInt32
  let n := (state >>> 59).toUInt32
  rotateLeft x ((32 - n) % 32)

def seedWords (state : UInt64) : Nat → List UInt32
  | 0 => []
  | n + 1 => seedWord (seedStep state) :: seedWords (seedStep state) n

theorem length_seedWords (state : UInt64) (n : Nat) : (seedWords state n).length = n := by
  induction n generalizing state with
  | zero => rfl
  | succ n ih => simp [seedWords, ih]

def ofSeed (seed : UInt64) : ChaCha :=
  { key := ⟨(seedWords seed 8).toArray, by simp [length_seedWords]⟩ }

end ChaCha

end ShaderReducer

/-!
## Random numbers

A seeded stream of random numbers. A child is a stream of its own: to make one draws nothing from
the parent. A seed and the number of a child are mixed into the seed of the child's stream. Each step
of the mixing can be undone, so different numbers give different seeds.
-/

namespace ShaderReducer

namespace Seed

/-- The odd number nearest to the golden ratio, as a fraction of the words of 64 bits. -/
def golden : UInt64 := 0x9E3779B97F4A7C15

def scramble (z : UInt64) : UInt64 :=
  let z := z + golden
  let z := (z ^^^ (z >>> 30)) * 0xBF58476D1CE4E5B9
  let z := (z ^^^ (z >>> 27)) * 0x94D049BB133111EB
  z ^^^ (z >>> 31)

def derive (seed stream : UInt64) : UInt64 :=
  scramble (seed ^^^ scramble (stream + golden))

end Seed

structure RandomSource where
  stream : ChaCha
  seed : UInt64
  children : UInt64 := 0

namespace RandomSource

def ofSeed (seed : UInt64) : RandomSource :=
  { stream := ChaCha.ofSeed seed, seed := seed }

def draw (r : RandomSource) : UInt64 × RandomSource :=
  let (v, stream) := r.stream.draw
  (v, { r with stream := stream })

def child (r : RandomSource) : RandomSource × RandomSource :=
  let n := r.children + 1
  (ofSeed (Seed.derive r.seed n), { r with children := n })

def wordCount : Nat := 18446744073709551616

def zone (n : Nat) : Nat :=
  n * Nat.pow 2 (64 - (Nat.log2 n + 1)) - 1

/-- How often a word may be drawn: as often as a stream has words, and for those left of a block.
After that the stream has begun again, and none of its words can be kept. -/
def attempts : Nat := 8 * wordCount + 8

/-- A number below `n` from the first word that is not passed over. -/
def belowWithin (n : Nat) (r : RandomSource) : Nat → Nat × RandomSource
  | 0 => (0, r)
  | more + 1 =>
    let (v, r) := r.draw
    let product := v.toNat * n
    if product % wordCount ≤ zone n then (product / wordCount, r) else belowWithin n r more

def below (n : Nat) (r : RandomSource) : Nat × RandomSource :=
  belowWithin n r attempts

theorem belowWithin_lt {n : Nat} (h : 0 < n) (r : RandomSource) (tries : Nat) :
    (belowWithin n r tries).1 < n := by
  induction tries generalizing r with
  | zero => exact h
  | succ tries ih =>
    unfold belowWithin
    dsimp only
    split
    · have := (r.draw).1.toNat_lt
      rw [Nat.div_lt_iff_lt_mul (show 0 < wordCount by decide), Nat.mul_comm]
      exact Nat.mul_lt_mul_of_pos_left this h
    · exact ih _

theorem below_lt {n : Nat} (h : 0 < n) (r : RandomSource) : (below n r).1 < n :=
  belowWithin_lt h r attempts

def unit (r : RandomSource) : Float × RandomSource :=
  let (v, r) := r.draw
  (Float.ofBits ((v >>> 12) ||| 0x3FF0000000000000) - 1.0, r)

/-- Whether something happens that has a chance of `p`. What is certain takes no draw. -/
def chance (p : Float) (r : RandomSource) : Bool × RandomSource :=
  if p ≥ 1.0 then (true, r)
  else
    let (v, r) := r.draw
    (v < (p * 18446744073709551616.0).toUInt64, r)

end RandomSource

end ShaderReducer
