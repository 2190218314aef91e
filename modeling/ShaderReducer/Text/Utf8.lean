/-!
# Text as bytes

The UTF-8 form of a text, and what bytes stand for. Bytes that are no text are read as far as they
are: each longest beginning of a character that is not completed is one gap.
-/

namespace ShaderReducer

namespace Utf8

def encode (s : String) : List UInt8 :=
  s.toList.flatMap String.utf8EncodeChar

def continues (b : UInt8) : Bool :=
  0x80 ≤ b && b ≤ 0xBF

def tail (b : UInt8) : Nat :=
  b.toNat % 0x40

def secondRange (first : UInt8) : UInt8 × UInt8 :=
  if first = 0xE0 then (0xA0, 0xBF)
  else if first = 0xED then (0x80, 0x9F)
  else if first = 0xF0 then (0x90, 0xBF)
  else if first = 0xF4 then (0x80, 0x8F)
  else (0x80, 0xBF)

def fitsSecond (first second : UInt8) : Bool :=
  (secondRange first).1 ≤ second && second ≤ (secondRange first).2

/-- The character at the beginning of some bytes, given the first one, or a gap; and the number of
further bytes that belong to it. -/
def step (first : UInt8) (rest : List UInt8) : Option Char × Nat :=
  if first < 0x80 then (some (Char.ofNat first.toNat), 0)
  else if 0xC2 ≤ first && first ≤ 0xDF then
    match rest with
    | b :: _ =>
      if continues b then (some (Char.ofNat (first.toNat % 0x20 * 0x40 + tail b)), 1) else (none, 0)
    | [] => (none, 0)
  else if 0xE0 ≤ first && first ≤ 0xEF then
    match rest with
    | b :: c :: _ =>
      if !fitsSecond first b then (none, 0)
      else if continues c then
        (some (Char.ofNat (first.toNat % 0x10 * 0x1000 + tail b * 0x40 + tail c)), 2)
      else (none, 1)
    | [b] => (none, if fitsSecond first b then 1 else 0)
    | [] => (none, 0)
  else if 0xF0 ≤ first && first ≤ 0xF4 then
    match rest with
    | b :: c :: d :: _ =>
      if !fitsSecond first b then (none, 0)
      else if !continues c then (none, 1)
      else if continues d then
        let high := first.toNat % 0x08 * 0x40000 + tail b * 0x1000
        (some (Char.ofNat (high + tail c * 0x40 + tail d)), 3)
      else (none, 2)
    | [b, c] => (none, if !fitsSecond first b then 0 else if continues c then 2 else 1)
    | [b] => (none, if fitsSecond first b then 1 else 0)
    | [] => (none, 0)
  else (none, 0)

def decode (bytes : List UInt8) : List (Option Char) :=
  match bytes with
  | [] => []
  | first :: rest =>
    let (c, n) := step first rest
    c :: decode (rest.drop n)
termination_by bytes.length
decreasing_by simp only [List.length_drop, List.length_cons]; omega

def decodeLossy (bytes : List UInt8) : String :=
  String.ofList ((decode bytes).map fun c => c.getD '\ufffd')

def decode? (bytes : List UInt8) : Option String :=
  ((decode bytes).mapM id).map String.ofList

end Utf8

/-! ## Bytes as characters

Commands work on bytes, most of which are ASCII characters. A text of octets has a character for
each byte, whose number is the byte, so that it can be compared and taken apart like other texts. -/

namespace Octets

def ofByte (b : UInt8) : Char := Char.ofNat b.toNat

def toByte (c : Char) : UInt8 := c.toNat.toUInt8

def ofBytes (bytes : List UInt8) : List Char := bytes.map ofByte

def toBytes (cs : List Char) : List UInt8 := cs.map toByte

theorem toByte_ofByte (b : UInt8) : toByte (ofByte b) = b := by
  have hv : b.toNat.isValidChar := Or.inl (Nat.lt_trans b.toNat_lt (by decide))
  have hnat : (ofByte b).toNat = b.toNat := by
    rw [ofByte, Char.ofNat, dif_pos hv]
    rfl
  rw [toByte, hnat]
  exact UInt8.ofNat_toNat

theorem toBytes_ofBytes (bytes : List UInt8) : toBytes (ofBytes bytes) = bytes := by
  simp only [toBytes, ofBytes, List.map_map]
  induction bytes with
  | nil => rfl
  | cons b rest ih => simp [toByte_ofByte, ih]

def encode (text : String) : String :=
  if text.toList.all fun c => c.toNat < 0x80 then text
  else String.ofList (ofBytes (Utf8.encode text))

def decode (octets : String) : String :=
  if octets.toList.all fun c => c.toNat < 0x80 then octets
  else Utf8.decodeLossy (toBytes octets.toList)

def isSpace (c : Char) : Bool :=
  c == ' ' || ('\t' ≤ c && c ≤ '\r')

def isGraph (c : Char) : Bool := '!' ≤ c && c ≤ '~'

end Octets

end ShaderReducer
