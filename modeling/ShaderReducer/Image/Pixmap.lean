import ShaderReducer.Text.Number
import ShaderReducer.Text.Utf8

/-!
# Images

Pictures of red, green and blue samples of one byte, how much two of them differ, and how they are
stored as binary pixmaps.

A pixmap is a header of four words, the mark `P6`, the width, the height and the largest sample, and
then the samples. Words stand between white space and comments, which go from `#` to the end of the
line. A single byte stands between the header and the samples.

Places in the bytes are numbers of 64 bits. A reading halts where a sum of two has more, and where a
range is not within the bytes.
-/

namespace ShaderReducer

structure Image where
  width : Nat
  height : Nat
  pixels : List UInt8
  deriving Repr, DecidableEq

namespace Image

/-- Samples that are no further apart than this count as equal. -/
def sampleDelta : Nat := 4

/-- Whether two samples are too far apart to count as equal. -/
def samplesDiffer (a b : UInt8) : Bool :=
  sampleDelta < (a.toNat - b.toNat) + (b.toNat - a.toNat)

/-- The number of samples in which two pictures differ. -/
def differing (a b : Image) : Nat :=
  (a.pixels.zip b.pixels).countP fun (x, y) => samplesDiffer x y

/-- The share of samples in which two pictures differ. Pictures of different sizes, and those
without samples, differ wholly unless they are the same. -/
def difference (a b : Image) : Float :=
  if a.width ≠ b.width ∨ a.height ≠ b.height ∨ a.pixels = [] then
    if a = b then 0.0 else 1.0
  else Float.ofNat (differing a b) / Float.ofNat a.pixels.length

end Image

/-- How much a picture may differ from the reference: not at all, or in a share of its samples. -/
inductive Tolerance where
  | identical
  | fuzzy (threshold : Float)

def Tolerance.accepts (t : Tolerance) (rendered reference : Image) : Bool :=
  let difference := rendered.difference reference
  match t with
  | identical => difference == 0.0
  | fuzzy threshold => difference ≤ threshold

namespace Pixmap

inductive Fault where
  | truncatedHeader
  | notPixmap
  | invalidNumber (word : String)
  | unsupportedMaximum (n : Nat)
  | tooLarge
  | missingSamples (expected : Nat)
  deriving Repr, DecidableEq

def Fault.message : Fault → String
  | truncatedHeader => "truncated header"
  | notPixmap => "not a binary PPM (expected P6)"
  | invalidNumber word => "invalid header number '" ++ word ++ "'"
  | unsupportedMaximum n => "unsupported maximum value " ++ toString n
  | tooLarge => "image dimensions overflow"
  | missingSamples expected => "expected " ++ toString expected ++ " bytes of pixel data"

/-- Why a reading halts: the bytes are no picture, a sum has no place in 64 bits, or a range is not
within the bytes. -/
inductive Halt where
  | fault (fault : Fault)
  | sum (a b : Nat)
  | range (start stop : Nat)
  deriving Repr, DecidableEq

/-- What is wrong with the bytes where a reading halts. A sum that has no place is taken without its
highest bit. For the end of the samples this is a place before they begin, so they are missing. -/
def Halt.toFault : Halt → Fault
  | .fault f => f
  | .sum _ count => .missingSamples count
  | .range start stop => .missingSamples (stop - start)

def plus (a b : Nat) : Except Halt Nat :=
  if a + b < Nat.pow 2 64 then .ok (a + b) else .error (.sum a b)

def range? (bytes : List UInt8) (start stop : Nat) : Option (List UInt8) :=
  if start ≤ stop ∧ stop ≤ bytes.length then some ((bytes.drop start).take (stop - start)) else none

def range (bytes : List UInt8) (start stop : Nat) : Except Halt (List UInt8) :=
  match range? bytes start stop with
  | some part => .ok part
  | none => .error (.range start stop)

theorem plus_eq_ok {a b c : Nat} (h : plus a b = .ok c) : c = a + b := by
  unfold plus at h
  split at h
  · exact (Except.ok.inj h).symm
  · cases h

/-- The first place from one on where a byte is an end, or the end of the bytes. -/
def pass (isEnd : UInt8 → Bool) (bytes : List UInt8) (place : Nat) : Except Halt Nat :=
  match _ : bytes[place]? with
  | none => .ok place
  | some b =>
    if isEnd b then .ok place
    else match _ : plus place 1 with
      | .ok next => pass isEnd bytes next
      | .error halt => .error halt
termination_by bytes.length - place
decreasing_by
  have := (List.getElem?_eq_some_iff.mp ‹bytes[place]? = some b›).1
  have := plus_eq_ok ‹plus place 1 = .ok next›
  omega

theorem le_of_pass {isEnd : UInt8 → Bool} {bytes : List UInt8} {place stop : Nat}
    (h : pass isEnd bytes place = .ok stop) : place ≤ stop := by
  fun_induction pass isEnd bytes place with
  | case1 => exact Nat.le_of_eq (Except.ok.inj h)
  | case2 => exact Nat.le_of_eq (Except.ok.inj h)
  | case3 place b hbyte hend next hnext ih =>
    have := plus_eq_ok hnext
    have := ih h
    omega
  | case4 => cases h

theorem lt_of_pass {isEnd : UInt8 → Bool} {bytes : List UInt8} {place stop : Nat} {b : UInt8}
    (hbyte : bytes[place]? = some b) (hend : isEnd b = false)
    (h : pass isEnd bytes place = .ok stop) : place < stop := by
  rw [pass] at h
  split at h
  next hnone => rw [hnone] at hbyte; cases hbyte
  next b' hsome =>
    obtain rfl := Option.some.inj (hsome.symm.trans hbyte)
    rw [hend, if_neg Bool.false_ne_true] at h
    split at h
    next next hnext =>
      have := plus_eq_ok hnext
      have := le_of_pass h
      omega
    next => cases h

def isSpace (b : UInt8) : Bool :=
  b == 0x20 || b == 0x09 || b == 0x0A || b == 0x0C || b == 0x0D

/-- The first place from one on that is not in white space or a comment. -/
def skipBlanks (bytes : List UInt8) (place : Nat) : Except Halt Nat :=
  match _ : bytes[place]? with
  | none => .error (.fault .truncatedHeader)
  | some b =>
    if _ : b = 0x23 then
      match _ : pass (· == 0x0A) bytes place with
      | .ok next => skipBlanks bytes next
      | .error halt => .error halt
    else if isSpace b then
      match _ : plus place 1 with
      | .ok next => skipBlanks bytes next
      | .error halt => .error halt
    else .ok place
termination_by bytes.length - place
decreasing_by
  · have hpass := ‹pass (· == 0x0A) bytes place = .ok next›
    have := (List.getElem?_eq_some_iff.mp ‹bytes[place]? = some b›).1
    have := lt_of_pass ‹bytes[place]? = some b› (by subst b; rfl) hpass
    omega
  · have := (List.getElem?_eq_some_iff.mp ‹bytes[place]? = some b›).1
    have := plus_eq_ok ‹plus place 1 = .ok next›
    omega

def word (bytes : List UInt8) (place : Nat) : Except Halt (String × Nat) := do
  let start ← skipBlanks bytes place
  let stop ← pass isSpace bytes start
  let text ← range bytes start stop
  return (Utf8.decodeLossy text, stop)

def number (bytes : List UInt8) (place : Nat) : Except Halt (Nat × Nat) := do
  let (text, stop) ← word bytes place
  match Text.natural? 10 64 text.toList with
  | some n => return (n, stop)
  | none => .error (.fault (.invalidNumber text))

structure Header where
  width : Nat
  height : Nat
  stop : Nat
  deriving Repr, DecidableEq

def header (bytes : List UInt8) : Except Halt Header := do
  let (mark, place) ← word bytes 0
  if mark ≠ "P6" then .error (.fault .notPixmap)
  let (width, place) ← number bytes place
  let (height, place) ← number bytes place
  let (maximum, place) ← number bytes place
  if maximum = 0 ∨ 255 < maximum then .error (.fault (.unsupportedMaximum maximum))
  return ⟨width, height, place⟩

/-- The number of samples of a picture, unless it has no place in 64 bits. -/
def sampleCount (width height : Nat) : Except Halt Nat :=
  let most := Nat.pow 2 64
  if width * height < most ∧ width * height * 3 < most then .ok (width * height * 3)
  else .error (.fault .tooLarge)

/-- The picture of a header. Its samples come behind the byte that ends the header; what follows them
does not count. -/
def Header.image (h : Header) (bytes : List UInt8) : Except Halt Image := do
  let start ← plus h.stop 1
  let count ← sampleCount h.width h.height
  let stop ← plus start count
  match range? bytes start stop with
  | some samples => return ⟨h.width, h.height, samples⟩
  | none => .error (.fault (.missingSamples count))

def read (bytes : List UInt8) : Except Halt Image := do
  (← header bytes).image bytes

def parse (bytes : List UInt8) : Except Fault Image :=
  match read bytes with
  | .ok image => .ok image
  | .error halt => .error halt.toFault

end Pixmap

end ShaderReducer
