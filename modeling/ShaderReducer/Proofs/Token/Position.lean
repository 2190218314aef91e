import Mathlib.Algebra.GroupWithZero.Nat
import Mathlib.Data.List.DropRight
import ShaderReducer.Proofs.Token.Covered

/-!
# Lines and columns

The line of a token is the one its first byte is on. Its column is that of its first byte as well,
unless an unexpected character of more than one byte stands before it on its line: the lexer counts
such a character as one column, and the bytes of all others.

Lines and columns are kept in 32 bits. Neither count passes the number of bytes read by more than
one, wherever the lexer stands, so on a text of fewer than `2 ^ 32 - 1` bytes they are the numbers
that are proved of them here.
-/

namespace ShaderReducer

/-- The line after some bytes: one more than the newlines among them. -/
def lineAfter (bytes : List UInt8) : Nat :=
  1 + bytes.count 10

/-- The column after some bytes: one more than the bytes behind the last newline among them. -/
def columnAfter (bytes : List UInt8) : Nat :=
  1 + (bytes.rtakeWhile (· ≠ 10)).length

/-- The line of a byte of a source. -/
def lineAt (source : String) (offset : Nat) : Nat :=
  lineAfter ((Utf8.encode source).take offset)

/-- The column of a byte of a source. -/
def columnAt (source : String) (offset : Nat) : Nat :=
  columnAfter ((Utf8.encode source).take offset)

theorem length_encode (source : String) : (Utf8.encode source).length = source.utf8ByteSize := by
  rw [← String.size_toByteArray, ← String.utf8Encode_toList, List.utf8Encode,
    List.size_toByteArray, Utf8.encode]

theorem lineAfter_le (bytes : List UInt8) : lineAfter bytes ≤ bytes.length + 1 := by
  have hcount : bytes.count 10 ≤ bytes.length := List.count_le_length
  rw [lineAfter]
  omega

theorem columnAfter_le (bytes : List UInt8) : columnAfter bytes ≤ bytes.length + 1 := by
  have hsuffix := (bytes.rtakeWhile_suffix (· ≠ 10)).length_le
  rw [columnAfter]
  omega

/-- Only a newline has the byte of a newline. -/
theorem ne_of_mem_utf8EncodeChar {c : Char} (hc : c ≠ '\n') {b : UInt8}
    (hb : b ∈ String.utf8EncodeChar c) : b ≠ 10 := by
  have hbyte : ∀ n < 256, n ≠ 10 → UInt8.ofNat n ≠ 10 := by
    intro n hn hne heq
    exact hne ((UInt8.toNat_ofNat_of_lt' hn).symm.trans (congrArg UInt8.toNat heq))
  have hval : c.val.toNat ≠ 10 := fun h => hc (Char.ext (UInt32.toNat_inj.mp h))
  unfold String.utf8EncodeChar at hb
  dsimp only at hb
  generalize c.val.toNat = n at hb hval
  split at hb
  next hle =>
    rw [List.mem_singleton.mp hb]
    exact hbyte _ (by omega) hval
  split at hb
  next hle =>
    simp only [List.mem_cons, List.not_mem_nil, or_false] at hb
    rcases hb with rfl | rfl <;> exact hbyte _ (by omega) (by omega)
  split at hb
  next hle =>
    simp only [List.mem_cons, List.not_mem_nil, or_false] at hb
    rcases hb with rfl | rfl | rfl <;> exact hbyte _ (by omega) (by omega)
  next hle =>
    simp only [List.mem_cons, List.not_mem_nil, or_false] at hb
    rcases hb with rfl | rfl | rfl | rfl <;> exact hbyte _ (by omega) (by omega)

section After

variable (bytes : List UInt8)

theorem lineAfter_newline :
    lineAfter (bytes ++ String.utf8EncodeChar '\n') = lineAfter bytes + 1 := by
  rw [lineAfter, List.count_append]
  rfl

theorem columnAfter_newline : columnAfter (bytes ++ String.utf8EncodeChar '\n') = 1 := by
  rw [columnAfter]
  change 1 + ((bytes ++ [10]).rtakeWhile _).length = 1
  rw [List.rtakeWhile_concat_neg _ _ _ (by decide)]
  rfl

variable {c : Char} (hc : c ≠ '\n')
include hc

theorem lineAfter_char : lineAfter (bytes ++ String.utf8EncodeChar c) = lineAfter bytes := by
  have hnone : (String.utf8EncodeChar c).count 10 = 0 :=
    List.count_eq_zero.mpr fun hmem => ne_of_mem_utf8EncodeChar hc hmem rfl
  rw [lineAfter, List.count_append, hnone, Nat.add_zero, lineAfter]

theorem columnAfter_char :
    columnAfter (bytes ++ String.utf8EncodeChar c) = columnAfter bytes + c.utf8Size := by
  have hall : ∀ b ∈ (String.utf8EncodeChar c).reverse, decide (b ≠ 10) = true :=
    fun b hb => decide_eq_true (ne_of_mem_utf8EncodeChar hc (List.mem_reverse.mp hb))
  rw [columnAfter, columnAfter, List.rtakeWhile, List.reverse_append,
    List.takeWhile_append_of_pos hall, List.reverse_append, List.length_append,
    List.reverse_reverse, String.length_utf8EncodeChar, List.rtakeWhile]
  omega

end After

namespace Lexer

/-- The bytes of an unexpected character that are not counted as columns. -/
def uncounted : TokenKind → Nat
  | .malformed (.unexpectedCharacter c) => c.utf8Size - 1
  | _ => 0

theorem uncounted_eq_zero {kind : TokenKind} : uncounted kind = 0 ↔
    ∀ c, kind = .malformed (.unexpectedCharacter c) → c.utf8Size = 1 := by
  unfold uncounted
  split
  next c =>
    have := c.utf8Size_pos
    refine ⟨?_, fun h => by rw [h c rfl]⟩
    rintro h _ ⟨⟩
    omega
  next hother => exact iff_of_true rfl fun c hc => absurd hc (hother c)

/-- The bytes on a line that are not counted as columns. -/
def uncountedOn (read : List Token) (line : Nat) : Nat :=
  (read.map fun u => if u.span.line = line then uncounted u.kind else 0).sum

theorem uncountedOn_concat (read : List Token) (t : Token) :
    uncountedOn (read ++ [t]) t.span.line = uncountedOn read t.span.line + uncounted t.kind := by
  rw [uncountedOn, List.map_append, List.sum_append, uncountedOn, List.map_singleton, if_pos rfl,
    List.sum_singleton]

theorem uncountedOn_eq_zero {read : List Token} {line : Nat} : uncountedOn read line = 0 ↔
    ∀ u ∈ read, u.span.line = line →
      ∀ c, u.kind = .malformed (.unexpectedCharacter c) → c.utf8Size = 1 := by
  rw [uncountedOn, List.sum_eq_zero_iff_forall_eq_nat, List.forall_mem_map]
  simp only [ite_eq_right_iff]
  exact forall₃_congr fun u _ _ => uncounted_eq_zero

/-- The place behind some bytes, when some tokens have been read among them. -/
structure Located (read : List Token) (bytes : List UInt8) (p : Place) : Prop where
  line : p.line = lineAfter bytes
  column : p.column + uncountedOn read p.line = columnAfter bytes
  bound : ∀ u ∈ read, u.span.line ≤ p.line

namespace Located

variable {read : List Token} {bytes : List UInt8} {p : Place}

theorem next (h : Located read bytes p) (c : Char) :
    Located read (bytes ++ String.utf8EncodeChar c) (p.next c) := by
  unfold Place.next
  split
  next hc =>
    subst hc
    refine ⟨?_, ?_, fun u hu => Nat.le_succ_of_le (h.bound u hu)⟩
    · rw [lineAfter_newline, h.line]
    · rw [columnAfter_newline, uncountedOn_eq_zero.mpr]
      exact fun u hu hline =>
        absurd (hline.symm.trans_le (h.bound u hu)) (Nat.not_succ_le_self p.line)
  next hc =>
    refine ⟨?_, ?_, h.bound⟩
    · rw [lineAfter_char bytes hc, h.line]
    · rw [columnAfter_char bytes hc, ← h.column]
      exact Nat.add_right_comm _ _ _

theorem advance (h : Located read bytes p) (cs : List Char) :
    Located read (bytes ++ cs.flatMap String.utf8EncodeChar) (p.advance cs) := by
  induction cs generalizing bytes p with
  | nil => exact (List.append_nil bytes).symm ▸ h
  | cons c cs ih =>
    rw [List.flatMap_cons, ← List.append_assoc]
    exact ih (h.next c)

/-- Neither count passes the number of bytes by more than one. -/
theorem counts_le (h : Located read bytes p) :
    p.line ≤ bytes.length + 1 ∧ p.column ≤ bytes.length + 1 := by
  have hline := lineAfter_le bytes
  have hcolumn := columnAfter_le bytes
  rw [← h.line] at hline
  rw [← h.column] at hcolumn
  exact ⟨hline, Nat.le_of_add_right_le hcolumn⟩

/-- A token is read from a place on. -/
theorem concat (h : Located read bytes p) {t : Token} (hline : t.span.line = p.line)
    (ht : uncounted t.kind = 0) : Located (read ++ [t]) bytes p where
  line := h.line
  column := by
    rw [← hline, uncountedOn_concat, ht, Nat.add_zero, hline]
    exact h.column
  bound u hu := by
    obtain hu | hu := List.mem_append.mp hu
    · exact h.bound u hu
    · rw [List.mem_singleton.mp hu, hline]

theorem placeAfter (h : Located read bytes p) {t : Token} {text : List Char}
    (hline : t.span.line = p.line)
    (hchar : ∀ c, t.kind = .malformed (.unexpectedCharacter c) → text = [c] ∧ c ≠ '\n') :
    Located (read ++ [t]) (bytes ++ text.flatMap String.utf8EncodeChar)
      (placeAfter t.kind p text) := by
  unfold Lexer.placeAfter
  split
  next c hkind =>
    obtain ⟨rfl, hc⟩ := hchar c hkind
    rw [List.flatMap_singleton]
    refine ⟨?_, ?_, ?_⟩
    · rw [lineAfter_char bytes hc, h.line]
    · have := c.utf8Size_pos
      rw [columnAfter_char bytes hc, ← h.column, ← hline, uncountedOn_concat, hkind]
      change p.column + 1 + (_ + (c.utf8Size - 1)) = _
      omega
    · intro u hu
      obtain hu | hu := List.mem_append.mp hu
      · exact h.bound u hu
      · rw [List.mem_singleton.mp hu, hline]
  next hother =>
    exact (h.concat hline (uncounted_eq_zero.mpr fun c hc => absurd hc (hother c))).advance text

end Located

section Calls

variable {source : String} {front gap text : List Char} {s s' : State} {before : List Token}
  {t : Token}

theorem Step.bytes_eq (h : Step s gap text t s') (hs : Behind source front s) :
    (Utf8.encode source).take t.span.start = (front ++ gap).flatMap String.utf8EncodeChar := by
  rw [h.start_eq hs, Utf8.encode, hs.source_eq, h.ahead, ← List.append_assoc, List.flatMap_append]
  exact List.take_left

theorem Step.located (h : Step s gap text t s')
    (hbefore : Located before (front.flatMap String.utf8EncodeChar) s.place) :
    Located (before ++ [t]) ((front ++ gap ++ text).flatMap String.utf8EncodeChar) s'.place := by
  rw [List.flatMap_append, List.flatMap_append, h.place]
  exact (hbefore.advance gap).placeAfter (congrArg Span.line h.span) h.unexpected

theorem Step.position (h : Step s gap text t s') (hs : Behind source front s)
    (hbefore : Located before (front.flatMap String.utf8EncodeChar) s.place) :
    Located before ((Utf8.encode source).take t.span.start)
      ⟨t.span.start, t.span.line, t.span.column⟩ := by
  have hgap := hbefore.advance gap
  rw [← List.flatMap_append] at hgap
  rw [h.bytes_eq hs, h.span]
  exact hgap

end Calls

theorem Reading.position {source : String} {front : List Char} {s last : State}
    {before ts read after : List Token} {t eof : Token} (h : Reading s ts eof last)
    (hs : Behind source front s)
    (hfront : Located before (front.flatMap String.utf8EncodeChar) s.place)
    (hall : ts ++ [eof] = read ++ t :: after) :
    Located (before ++ read) ((Utf8.encode source).take t.span.start)
      ⟨t.span.start, t.span.line, t.span.column⟩ := by
  induction h generalizing before front read with
  | ended hnext hstep =>
    obtain ⟨rfl, hcons⟩ | ⟨_, rfl, hnil⟩ := List.cons_eq_append_iff.mp hall
    · cases hcons
      rw [List.append_nil]
      exact hstep.position hs hfront
    · simp at hnil
  | token hnext hstep htext hrest ih =>
    obtain ⟨rfl, hcons⟩ | ⟨read, rfl, hrest⟩ := List.cons_eq_append_iff.mp hall
    · cases hcons
      rw [List.append_nil]
      exact hstep.position hs hfront
    · rw [List.append_cons]
      exact ih (hstep.behind hs) (hstep.located hfront) hrest

theorem located_ofText (source : String) : Located [] [] (State.ofText source).place :=
  ⟨rfl, rfl, fun _ hu => nomatch hu⟩

end Lexer

namespace TokenStream

open Lexer (uncountedOn)

/-- The place at which a token starts, behind the tokens read before it. -/
theorem located_of_all {source : String} {read after : List Token} {t : Token}
    (h : (ofText source).all = read ++ t :: after) :
    Lexer.Located read ((Utf8.encode source).take t.span.start)
      ⟨t.span.start, t.span.line, t.span.column⟩ := by
  obtain ⟨last, hread, -⟩ := Lexer.reading_ofText source
  exact hread.position (Lexer.behind_ofText source) (Lexer.located_ofText source) h

/-- On a text that 32 bits can count, the line of a token is that of its first byte. Its column is
too, unless an unexpected character of more than one byte stands before it on its line. -/
theorem position_eq_iff {source : String} (hsize : source.utf8ByteSize + 1 < 2 ^ 32)
    {read after : List Token} {t : Token} (h : (ofText source).all = read ++ t :: after) :
    (t.span.line < 2 ^ 32 ∧ t.span.column < 2 ^ 32) ∧
      t.span.line = lineAt source t.span.start ∧
      (t.span.column = columnAt source t.span.start ↔ ∀ u ∈ read, u.span.line = t.span.line →
        ∀ c, u.kind = .malformed (.unexpectedCharacter c) → c.utf8Size = 1) := by
  have hlocated := located_of_all h
  obtain ⟨hline, hcolumn⟩ := hlocated.counts_le
  have hbytes : ((Utf8.encode source).take t.span.start).length ≤ source.utf8ByteSize :=
    length_encode source ▸ List.length_take_le' _ _
  refine ⟨⟨by dsimp only at hline; omega, by dsimp only at hcolumn; omega⟩, hlocated.line, ?_⟩
  rw [← Lexer.uncountedOn_eq_zero, columnAt, ← hlocated.column]
  exact Nat.left_eq_add

/-- An unexpected character of two bytes is one column, so that the name after it is off by one. -/
theorem position_accentThenName : ∃ accent name eof, (ofText "é x").all = [accent, name, eof] ∧
    name.span = ⟨3, 4, 1, 3⟩ ∧ name.span.line = lineAt "é x" 3 ∧
    name.span.column ≠ columnAt "é x" 3 := by
  have hall : (ofText "é x").all = [⟨.malformed (.unexpectedCharacter 'é'), "é", ⟨0, 2, 1, 1⟩⟩] ++
      ⟨.identifier, "x", ⟨3, 4, 1, 3⟩⟩ :: [⟨.endOfFile, "", ⟨4, 4, 1, 4⟩⟩] := by
    decide +kernel
  obtain ⟨-, hline, hcolumn⟩ := position_eq_iff (by decide +kernel) hall
  refine ⟨_, _, _, hall, rfl, hline, fun heq => ?_⟩
  exact absurd (hcolumn.mp heq _ (List.mem_singleton_self _) rfl 'é' rfl) (by decide)

end TokenStream

end ShaderReducer
