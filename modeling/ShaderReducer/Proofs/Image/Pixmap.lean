import ShaderReducer.Proofs.Image.Header
import ShaderReducer.Proofs.Text.Number
import ShaderReducer.Proofs.Text.Utf8

/-!
# Reading pixmaps

Bytes are a picture where they begin with a header, and the samples follow behind one byte. A range
that is read is always within the bytes, and a sum has its place in 64 bits but for one: the place
behind the samples has none where the size in the header comes close enough to what 64 bits hold.

A picture is read back from its file, whatever stands between the words of the header and behind the
samples.
-/

namespace ShaderReducer

namespace Pixmap

/-! ## The picture of a header -/

theorem sampleCount_of_lt {width height : Nat} (h : width * height * 3 < 2 ^ 64) :
    sampleCount width height = .ok (width * height * 3) :=
  if_pos ⟨Nat.lt_of_le_of_lt (Nat.le_mul_of_pos_right _ (by decide)) h, h⟩

theorem sampleCount_of_le {width height : Nat} (h : 2 ^ 64 ≤ width * height * 3) :
    sampleCount width height = .error (.fault .tooLarge) :=
  if_neg fun hlt => Nat.not_lt.mpr h hlt.2

namespace Header

variable {bytes front rest : List UInt8} {width height : Nat} (hbytes : bytes = front ++ rest)
  (hsize : bytes.length + 1 < 2 ^ 64)
include hbytes hsize

theorem plus_stop : plus front.length 1 = .ok (front.length + 1) := by
  have hlength := congrArg List.length hbytes
  rw [List.length_append] at hlength
  exact plus_of_lt (by omega)

theorem image_of_tooLarge (hcount : 2 ^ 64 ≤ width * height * 3) :
    image ⟨width, height, front.length⟩ bytes = .error (.fault .tooLarge) := by
  simp only [image, plus_stop hbytes hsize, sampleCount_of_le hcount, bind, Except.bind]

theorem image_of_sum (hcount : width * height * 3 < 2 ^ 64)
    (hstop : 2 ^ 64 ≤ front.length + 1 + width * height * 3) :
    image ⟨width, height, front.length⟩ bytes =
      .error (.sum (front.length + 1) (width * height * 3)) := by
  have hsum : plus (front.length + 1) (width * height * 3) =
      .error (.sum (front.length + 1) (width * height * 3)) := if_neg (Nat.not_lt.mpr hstop)
  simp only [image, plus_stop hbytes hsize, sampleCount_of_lt hcount, hsum, bind, Except.bind]

theorem image_of_lt (hcount : width * height * 3 < 2 ^ 64)
    (hstop : front.length + 1 + width * height * 3 < 2 ^ 64) :
    image ⟨width, height, front.length⟩ bytes =
      match range? bytes (front.length + 1) (front.length + 1 + width * height * 3) with
      | some samples => .ok ⟨width, height, samples⟩
      | none => .error (.fault (.missingSamples (width * height * 3))) := by
  simp only [image, plus_stop hbytes hsize, sampleCount_of_lt hcount, plus_of_lt hstop, bind,
    Except.bind]
  rfl

end Header

theorem range?_behind {bytes front rest samples : List UInt8} {count : Nat}
    (hbytes : bytes = front ++ rest) :
    range? bytes (front.length + 1) (front.length + 1 + count) = some samples ↔
      ∃ separator after, rest = separator :: (samples ++ after) ∧ samples.length = count := by
  subst hbytes
  constructor
  · intro h
    rw [range?] at h
    split at h
    next hwithin =>
      have hlength := hwithin.2
      rw [List.length_append] at hlength
      obtain _ | ⟨separator, behind⟩ := rest
      · rw [List.length_nil] at hlength
        omega
      rw [List.length_cons] at hlength
      rw [List.drop_append, List.drop_of_length_le (Nat.le_succ _), Nat.add_sub_cancel_left,
        Nat.add_sub_cancel_left, List.nil_append, List.drop_one, List.tail_cons] at h
      obtain rfl := Option.some.inj h
      exact ⟨separator, behind.drop count, by rw [List.take_append_drop],
        List.length_take_of_le (by omega)⟩
    next => cases h
  · rintro ⟨separator, after, rfl, rfl⟩
    have hmoved : front ++ separator :: (samples ++ after) =
        (front ++ [separator]) ++ (samples ++ after) := by simp
    have hrange := range?_append hmoved
    have hstart : (front ++ [separator]).length = front.length + 1 := List.length_append
    have hstop : (front ++ [separator] ++ samples).length = front.length + 1 + samples.length := by
      rw [List.length_append, hstart]
    rwa [hstart, hstop] at hrange

/-! ## The picture of some bytes -/

section Read

variable {bytes rest : List UInt8} {width height : Nat} (hsize : bytes.length + 1 < 2 ^ 64)
include hsize

theorem read_of_hasHeader (h : HasHeader bytes width height rest) : ∃ front, bytes = front ++ rest ∧
    bytes.length - rest.length = front.length ∧
      read bytes = Header.image ⟨width, height, front.length⟩ bytes := by
  obtain ⟨front, hbytes, hheader⟩ := header_of_hasHeader (by omega) h
  have hlength := congrArg List.length hbytes
  rw [List.length_append] at hlength
  exact ⟨front, hbytes, by omega, by simp only [read, hheader, bind, Except.bind]⟩

/-- A reading halts at a sum where the end of the samples has no place. -/
theorem read_of_sum (h : HasHeader bytes width height rest) (hcount : width * height * 3 < 2 ^ 64)
    (hstop : 2 ^ 64 ≤ bytes.length - rest.length + 1 + width * height * 3) :
    read bytes = .error (.sum (bytes.length - rest.length + 1) (width * height * 3)) := by
  obtain ⟨front, hbytes, hfront, hread⟩ := read_of_hasHeader hsize h
  rw [hfront] at hstop ⊢
  exact hread.trans (Header.image_of_sum hbytes hsize hcount hstop)

/-- Bytes are a picture where its samples come one byte behind a header with its size. -/
theorem read_of_samples {image : Image} {separator : UInt8} {after : List UInt8}
    (h : HasHeader bytes image.width image.height (separator :: (image.pixels ++ after)))
    (hcount : image.pixels.length = image.width * image.height * 3) : read bytes = .ok image := by
  obtain ⟨front, hbytes, -, hread⟩ := read_of_hasHeader hsize h
  have hlength := congrArg List.length hbytes
  rw [List.length_append, List.length_cons, List.length_append] at hlength
  rw [hread, Header.image_of_lt hbytes hsize (by omega) (by omega),
    (range?_behind hbytes).mpr ⟨separator, after, rfl, hcount⟩]

/-- There is nothing else that a reading does: the bytes are at fault, or the end of the samples has
no place, or the bytes are a picture. -/
theorem read_cases : (∃ fault, read bytes = .error (.fault fault)) ∨
    (∃ width height rest, HasHeader bytes width height rest ∧ width * height * 3 < 2 ^ 64 ∧
      2 ^ 64 ≤ bytes.length - rest.length + 1 + width * height * 3 ∧
      read bytes = .error (.sum (bytes.length - rest.length + 1) (width * height * 3))) ∨
    ∃ image separator after, read bytes = .ok image ∧
      HasHeader bytes image.width image.height (separator :: (image.pixels ++ after)) ∧
      image.pixels.length = image.width * image.height * 3 := by
  obtain ⟨fault, hheader⟩ | ⟨width, height, rest, h⟩ := header_cases (Nat.lt_of_succ_lt hsize)
  · exact .inl ⟨fault, by simp only [read, hheader, bind, Except.bind]⟩
  obtain ⟨front, hbytes, hfront, hread⟩ := read_of_hasHeader hsize h
  obtain hcount | hcount := Nat.lt_or_ge (width * height * 3) (2 ^ 64)
  swap
  · exact .inl ⟨_, hread.trans (Header.image_of_tooLarge hbytes hsize hcount)⟩
  obtain hstop | hstop := Nat.lt_or_ge (front.length + 1 + width * height * 3) (2 ^ 64)
  swap
  · rw [← hfront] at hstop
    exact .inr (.inl ⟨width, height, rest, h, hcount, hstop, read_of_sum hsize h hcount hstop⟩)
  rw [Header.image_of_lt hbytes hsize hcount hstop] at hread
  split at hread
  next samples hrange =>
    obtain ⟨separator, after, rfl, hlength⟩ := (range?_behind hbytes).mp hrange
    exact .inr (.inr ⟨⟨width, height, samples⟩, separator, after, hread, h, hlength⟩)
  next => exact .inl ⟨_, hread⟩

end Read

theorem parse_eq_ok_iff {bytes : List UInt8} {image : Image} :
    parse bytes = .ok image ↔ read bytes = .ok image := by
  unfold parse
  cases read bytes with
  | ok image' => exact ⟨fun h => congrArg _ (Except.ok.inj h), fun h => congrArg _ (Except.ok.inj h)⟩
  | error halt => exact ⟨nofun, nofun⟩

/-- A reading keeps within the bytes and the words of 64 bits, but for the place behind the samples:
where the size in the header is close enough to what a word holds, that place has none. Where the
bytes are read as a picture, it has three samples for each point, and they are the bytes behind the
one that ends the header. -/
theorem read_bounded {bytes : List UInt8} (hsize : bytes.length + 1 < 2 ^ 64) :
    ((∃ start count, read bytes = .error (.sum start count)) ↔
      ∃ width height rest, HasHeader bytes width height rest ∧ width * height * 3 < 2 ^ 64 ∧
        2 ^ 64 ≤ bytes.length - rest.length + 1 + width * height * 3) ∧
    (∀ start stop, read bytes ≠ .error (.range start stop)) ∧
    ∀ image, parse bytes = .ok image → image.pixels.length = 3 * image.width * image.height ∧
      ∃ separator after, isSpace separator = true ∧
        HasHeader bytes image.width image.height (separator :: (image.pixels ++ after)) := by
  refine ⟨⟨?_, ?_⟩, ?_, ?_⟩
  · rintro ⟨start, count, hsum⟩
    obtain ⟨fault, h⟩ | ⟨width, height, rest, h, hcount, hstop, -⟩ | ⟨image, -, -, h, -⟩ :=
      read_cases hsize
    · cases hsum.symm.trans h
    · exact ⟨width, height, rest, h, hcount, hstop⟩
    · cases hsum.symm.trans h
  · rintro ⟨width, height, rest, h, hcount, hstop⟩
    exact ⟨_, _, read_of_sum hsize h hcount hstop⟩
  · intro start stop hrange
    obtain ⟨fault, h⟩ | ⟨_, _, _, -, -, -, h⟩ | ⟨image, -, -, h, -⟩ := read_cases hsize <;>
      cases hrange.symm.trans h
  · intro image himage
    rw [parse_eq_ok_iff] at himage
    obtain ⟨fault, h⟩ | ⟨_, _, _, -, -, -, h⟩ | ⟨image', separator, after, h, hheader, hcount⟩ :=
      read_cases hsize
    · cases himage.symm.trans h
    · cases himage.symm.trans h
    · obtain rfl := Except.ok.inj (himage.symm.trans h)
      have hspace := hheader.endsWord separator rfl
      exact ⟨by rw [hcount, Nat.mul_comm, Nat.mul_assoc], separator, after, hspace, hheader⟩

/-- The number of samples of a picture fits a word, and the place behind them does not. -/
theorem read_bounded_hugeWidth :
    let bytes := Utf8.encode "P6 6148914691236517205 1 255\n"
    bytes.length + 1 < 2 ^ 64 ∧ read bytes = .error (.sum 29 18446744073709551615) ∧
      ∃ width height rest, HasHeader bytes width height rest ∧ width * height * 3 < 2 ^ 64 ∧
        2 ^ 64 ≤ bytes.length - rest.length + 1 + width * height * 3 := by
  have hread : read (Utf8.encode "P6 6148914691236517205 1 255\n") =
      .error (.sum 29 18446744073709551615) := by decide +kernel
  have hsize : (Utf8.encode "P6 6148914691236517205 1 255\n").length + 1 < 2 ^ 64 := by
    decide +kernel
  exact ⟨hsize, hread, (read_bounded hsize).1.mp ⟨_, _, hread⟩⟩

/-! ## Files of pictures -/

/-- What stands between two words: white space, and then white space and comments. -/
def IsSeparator (bytes : List UInt8) : Prop :=
  ∃ b blanks, bytes = b :: blanks ∧ isSpace b = true ∧ Blanks blanks

/-- What a file of a picture has beside the picture. -/
structure Layout where
  afterMark : List UInt8
  afterWidth : List UInt8
  afterHeight : List UInt8
  maximum : Nat
  last : UInt8
  trailing : List UInt8
  isSeparator_afterMark : IsSeparator afterMark
  isSeparator_afterWidth : IsSeparator afterWidth
  isSeparator_afterHeight : IsSeparator afterHeight
  maximum_pos : 0 < maximum
  maximum_le : maximum ≤ 255
  isSpace_last : isSpace last = true

/-- The decimal digits of a number. -/
def decimal (n : Nat) : List UInt8 :=
  Utf8.encode (toString n)

/-- A file of a picture. -/
def Layout.file (l : Layout) (image : Image) : List UInt8 :=
  Utf8.encode "P6" ++ (l.afterMark ++ (decimal image.width ++ (l.afterWidth ++
    (decimal image.height ++ (l.afterHeight ++ (decimal l.maximum ++
      l.last :: (image.pixels ++ l.trailing)))))))

theorem decodeLossy_encode (s : String) : Utf8.decodeLossy (Utf8.encode s) = s := by
  rw [Utf8.decodeLossy, Utf8.encode, Utf8.decode_encode, List.map_map]
  change String.ofList (s.toList.map id) = s
  rw [List.map_id, String.ofList_toList]

theorem mem_decimal {n : Nat} {b : UInt8} (h : b ∈ decimal n) : 48 ≤ b.toNat ∧ b.toNat ≤ 57 := by
  obtain ⟨c, hc, hb⟩ := List.mem_flatMap.mp h
  have hdigit := Text.isDigit_toString hc
  have hrange : 48 ≤ c.toNat ∧ c.toNat ≤ 57 := by
    simpa [Char.isDigit, UInt32.le_iff_toNat_le] using hdigit
  have hsize : c.utf8Size = 1 := by
    rw [Char.utf8Size_eq_one_iff, UInt32.le_iff_toNat_le]
    exact Nat.le_trans hrange.2 (by decide)
  rw [String.utf8EncodeChar_eq_singleton hsize, List.mem_singleton] at hb
  subst hb
  have hbyte : (c.val.toUInt8).toNat = c.toNat % 256 := rfl
  omega

theorem isWord_decimal (n : Nat) : IsWord (decimal n) := by
  have hplain : ∀ b ∈ decimal n, b ≠ 0x23 ∧ isSpace b = false := by
    intro b hb
    have hrange := mem_decimal hb
    refine ⟨?_, Bool.eq_false_iff.mpr fun hspace => ?_⟩
    · rintro rfl
      exact absurd hrange.1 (by decide)
    · simp only [isSpace, Bool.or_eq_true, beq_iff_eq] at hspace
      rcases hspace with (((rfl | rfl) | rfl) | rfl) | rfl <;> exact absurd hrange.1 (by decide)
  obtain ⟨b, rest, hcons⟩ : ∃ b rest, decimal n = b :: rest := by
    apply List.exists_cons_of_ne_nil
    intro hnil
    have hempty := congrArg Utf8.decodeLossy hnil
    rw [decimal, decodeLossy_encode, Utf8.decodeLossy, Utf8.decode] at hempty
    exact Text.toString_ne_nil n (congrArg String.toList hempty)
  exact ⟨⟨b, rest, hcons, hplain b (hcons ▸ List.mem_cons_self)⟩, fun b hb => (hplain b hb).2⟩

theorem spells_decimal {n : Nat} (h : n < 2 ^ 64) : Spells (decimal n) n := by
  rw [Spells, decimal, decodeLossy_encode]
  exact Text.natural?_toString h

theorem isWord_mark : IsWord (Utf8.encode "P6") := by
  have hbytes : Utf8.encode "P6" = [0x50, 0x36] := by decide +kernel
  rw [hbytes]
  exact ⟨⟨0x50, [0x36], rfl, by decide, rfl⟩, by simp [isSpace]⟩

theorem hasWords_separator {separator word more rest : List UInt8} {words : List (List UInt8)}
    (hseparator : IsSeparator separator) (hword : IsWord word) (hmore : EndsWord more)
    (h : HasWords rest words more) :
    EndsWord (separator ++ (word ++ more)) ∧
      HasWords rest (word :: words) (separator ++ (word ++ more)) := by
  obtain ⟨b, blanks, rfl, hspace, hblanks⟩ := hseparator
  refine ⟨fun x hx => ?_, .cons (.space hspace hblanks) hword hmore h⟩
  obtain rfl := Option.some.inj hx
  exact hspace

/-- A picture is read back from its file. -/
theorem parse_file (l : Layout) {image : Image} (hwidth : image.width < 2 ^ 64)
    (hheight : image.height < 2 ^ 64)
    (hpixels : image.pixels.length = 3 * image.width * image.height)
    (hsize : (l.file image).length + 1 < 2 ^ 64) : parse (l.file image) = .ok image := by
  have hlast : EndsWord (l.last :: (image.pixels ++ l.trailing)) := by
    intro b hb
    obtain rfl := Option.some.inj hb
    exact l.isSpace_last
  obtain ⟨hends, hwords⟩ := hasWords_separator l.isSeparator_afterHeight
    (isWord_decimal l.maximum) hlast .nil
  obtain ⟨hends, hwords⟩ := hasWords_separator l.isSeparator_afterWidth
    (isWord_decimal image.height) hends hwords
  obtain ⟨hends, hwords⟩ := hasWords_separator l.isSeparator_afterMark
    (isWord_decimal image.width) hends hwords
  have hall := HasWords.cons .nil isWord_mark hends hwords
  have hmaximum : Spells (decimal l.maximum) l.maximum :=
    spells_decimal (Nat.lt_of_le_of_lt l.maximum_le (by decide))
  have hheader : HasHeader (l.file image) image.width image.height
      (l.last :: (image.pixels ++ l.trailing)) :=
    ⟨_, _, _, _, l.maximum, hall, decodeLossy_encode "P6", spells_decimal hwidth,
      spells_decimal hheight, hmaximum, l.maximum_pos, l.maximum_le⟩
  exact parse_eq_ok_iff.mpr (read_of_samples hsize hheader (by rw [hpixels, Nat.mul_assoc,
    Nat.mul_comm]))

/-- A layout with a comment before each number, one of them without text, and a byte behind the
samples. -/
def Layout.commented : Layout where
  afterMark := 0x0A :: 0x23 :: ([0x20, 0x33, 0x23] ++ 0x0A :: [])
  afterWidth := 0x09 :: 0x23 :: ([] ++ 0x0A :: [0x0D])
  afterHeight := 0x20 :: 0x20 :: 0x23 :: ([0x39] ++ 0x0A :: [])
  maximum := 255
  last := 0x20
  trailing := [0x0A]
  isSeparator_afterMark := ⟨_, _, rfl, rfl, .comment (by decide) .nil⟩
  isSeparator_afterWidth := ⟨_, _, rfl, rfl, .comment (by decide) (.space rfl .nil)⟩
  isSeparator_afterHeight := ⟨_, _, rfl, rfl, .space rfl (.comment (by decide) .nil)⟩
  maximum_pos := by decide
  maximum_le := by decide
  isSpace_last := rfl

/-- Samples that look like white space, a comment and a digit are read back. -/
theorem parse_file_commented :
    let image : Image := ⟨1, 1, [0x20, 0x23, 0x31]⟩
    image.pixels.length = 3 * image.width * image.height ∧
      parse (Layout.commented.file image) = .ok image := by
  have hsize : (Layout.commented.file ⟨1, 1, [0x20, 0x23, 0x31]⟩).length + 1 < 2 ^ 64 := by
    decide +kernel
  exact ⟨rfl, parse_file Layout.commented (by decide) (by decide) rfl hsize⟩

end Pixmap

end ShaderReducer
