import Mathlib.Algebra.Group.Nat.Defs
import Mathlib.Data.List.TakeWhile
import Mathlib.Tactic.Common
import ShaderReducer.Image.Pixmap

/-!
# Headers of pixmaps

What the bytes of a header look like: words between white space and comments, of which the first is
the mark and the others are numbers. A header is read exactly where the bytes begin with one, and its
end is the place behind the last number. As long as the bytes have their places in 64 bits, no sum
and no range on the way to it halts the reading.
-/

namespace ShaderReducer

namespace Pixmap

/-! ## What a header looks like -/

/-- White space and comments. A comment goes from `#` to the end of the line. -/
inductive Blanks : List UInt8 → Prop
  | nil : Blanks []
  | space {b blanks} : isSpace b = true → Blanks blanks → Blanks (b :: blanks)
  | comment {text blanks} : 0x0A ∉ text → Blanks blanks → Blanks (0x23 :: (text ++ 0x0A :: blanks))

/-- Bytes that begin neither white space nor a comment. -/
def BeginsWord (bytes : List UInt8) : Prop :=
  ∃ b rest, bytes = b :: rest ∧ b ≠ 0x23 ∧ isSpace b = false

/-- A word: it goes on up to white space. -/
structure IsWord (bytes : List UInt8) : Prop where
  begins : BeginsWord bytes
  isSpace : ∀ b ∈ bytes, isSpace b = false

/-- Bytes behind a word: they are white space to begin with, or there are none. -/
def EndsWord (bytes : List UInt8) : Prop :=
  ∀ b ∈ bytes.head?, isSpace b = true

/-- Bytes that begin with some words, with white space and comments before each of them; the rest
comes behind the last one. -/
inductive HasWords (rest : List UInt8) : List (List UInt8) → List UInt8 → Prop
  | nil : HasWords rest [] rest
  | cons {blanks word words more} : Blanks blanks → IsWord word → EndsWord more →
      HasWords rest words more → HasWords rest (word :: words) (blanks ++ (word ++ more))

/-- A word that spells a number of 64 bits. -/
def Spells (word : List UInt8) (n : Nat) : Prop :=
  Text.natural? 10 64 (Utf8.decodeLossy word).toList = some n

/-- Bytes that begin with the header of a picture. -/
def HasHeader (bytes : List UInt8) (width height : Nat) (rest : List UInt8) : Prop :=
  ∃ mark w h m maximum, HasWords rest [mark, w, h, m] bytes ∧ Utf8.decodeLossy mark = "P6" ∧
    Spells w width ∧ Spells h height ∧ Spells m maximum ∧ 0 < maximum ∧ maximum ≤ 255

theorem HasWords.endsWord {rest word bytes : List UInt8} {words : List (List UInt8)}
    (h : HasWords rest (word :: words) bytes) : EndsWord rest := by
  induction words generalizing word bytes with
  | nil =>
    obtain _ | ⟨-, -, hends, hwords⟩ := h
    cases hwords
    exact hends
  | cons next words ih =>
    obtain _ | ⟨-, -, -, hwords⟩ := h
    exact ih hwords

theorem HasHeader.endsWord {bytes rest : List UInt8} {width height : Nat}
    (h : HasHeader bytes width height rest) : EndsWord rest := by
  obtain ⟨_, _, _, _, _, hwords, -⟩ := h
  exact hwords.endsWord

/-- Bytes begin with white space and comments, and behind them a word, or a comment without an end,
or nothing. -/
theorem exists_blanks (bytes : List UInt8) : ∃ blanks rest, bytes = blanks ++ rest ∧ Blanks blanks ∧
    (BeginsWord rest ∨ rest = [] ∨ ∃ text, rest = 0x23 :: text ∧ 0x0A ∉ text) := by
  induction hlength : bytes.length using Nat.strongRecOn generalizing bytes with
  | ind n ih =>
  obtain _ | ⟨b, more⟩ := bytes
  · exact ⟨[], [], rfl, .nil, .inr (.inl rfl)⟩
  rw [List.length_cons] at hlength
  by_cases hmark : b = 0x23
  · subst hmark
    by_cases hline : (0x0A : UInt8) ∈ more
    · obtain ⟨text, after, rfl, hfirst⟩ := List.eq_append_cons_of_mem hline
      rw [List.length_append, List.length_cons] at hlength
      obtain ⟨blanks, rest, rfl, hblanks, hrest⟩ := ih after.length (by omega) after rfl
      exact ⟨_, rest, by simp, .comment hfirst hblanks, hrest⟩
    · exact ⟨[], _, rfl, .nil, .inr (.inr ⟨more, rfl, hline⟩)⟩
  · cases hspace : isSpace b with
    | true =>
      obtain ⟨blanks, rest, rfl, hblanks, hrest⟩ := ih more.length (by omega) more rfl
      exact ⟨_, rest, rfl, .space hspace hblanks, hrest⟩
    | false => exact ⟨[], _, rfl, .nil, .inl ⟨b, more, rfl, hmark, hspace⟩⟩

/-- A word goes on up to white space or the end of the bytes. -/
theorem exists_word {bytes : List UInt8} (h : BeginsWord bytes) :
    ∃ word rest, bytes = word ++ rest ∧ IsWord word ∧ EndsWord rest := by
  obtain ⟨b, more, rfl, hmark, hspace⟩ := h
  refine ⟨(b :: more).takeWhile (!isSpace ·), (b :: more).dropWhile (!isSpace ·),
    List.takeWhile_append_dropWhile.symm, ⟨⟨b, _, List.takeWhile_cons_of_pos (by simp [hspace]),
      hmark, hspace⟩, fun x hx => ?_⟩, fun x hx => ?_⟩
  · simpa using List.mem_takeWhile_imp hx
  · have := List.head?_dropWhile_not (!isSpace ·) (b :: more)
    rw [Option.mem_def.mp hx] at this
    simpa using this

/-! ## How it is read -/

theorem pass_eq_bind (isEnd : UInt8 → Bool) (bytes : List UInt8) (place : Nat) :
    pass isEnd bytes place = match bytes[place]? with
      | none => .ok place
      | some b => if isEnd b then .ok place else (plus place 1).bind (pass isEnd bytes) := by
  rw [pass]
  split
  next hnone => rw [hnone]
  next b hsome =>
    rw [hsome]
    dsimp only
    split
    · rfl
    split
    next next hnext => rw [hnext, Except.bind]
    next halt hnext => rw [hnext, Except.bind]

theorem skipBlanks_eq_bind (bytes : List UInt8) (place : Nat) :
    skipBlanks bytes place = match bytes[place]? with
      | none => .error (.fault .truncatedHeader)
      | some b =>
        if b = 0x23 then (pass (· == 0x0A) bytes place).bind (skipBlanks bytes)
        else if isSpace b then (plus place 1).bind (skipBlanks bytes)
        else .ok place := by
  rw [skipBlanks]
  split
  next hnone => rw [hnone]
  next b hsome =>
    rw [hsome]
    dsimp only
    split
    · split
      next next hnext => rw [hnext, Except.bind]
      next halt hnext => rw [hnext, Except.bind]
    · split
      · split
        next next hnext => rw [hnext, Except.bind]
        next halt hnext => rw [hnext, Except.bind]
      · rfl

section Steps

variable {bytes : List UInt8} {place : Nat} {b : UInt8} {isEnd : UInt8 → Bool}

theorem plus_of_lt {m n : Nat} (h : m + n < 2 ^ 64) : plus m n = .ok (m + n) :=
  if_pos h

theorem pass_stop (h : ∀ b ∈ bytes[place]?, isEnd b = true) : pass isEnd bytes place = .ok place := by
  rw [pass_eq_bind]
  split
  · rfl
  next b hbyte => rw [if_pos (h b hbyte)]

theorem skipBlanks_end (hbyte : bytes[place]? = none) :
    skipBlanks bytes place = .error (.fault .truncatedHeader) := by
  rw [skipBlanks_eq_bind, hbyte]

theorem skipBlanks_comment {next : Nat} (hbyte : bytes[place]? = some 0x23)
    (hpass : pass (· == 0x0A) bytes place = .ok next) :
    skipBlanks bytes place = skipBlanks bytes next := by
  rw [skipBlanks_eq_bind bytes place, hbyte]
  dsimp only
  rw [if_pos rfl, hpass, Except.bind]

theorem skipBlanks_word (hbyte : bytes[place]? = some b) (hmark : b ≠ 0x23)
    (hspace : isSpace b = false) : skipBlanks bytes place = .ok place := by
  rw [skipBlanks_eq_bind, hbyte]
  dsimp only
  rw [if_neg hmark, hspace, if_neg Bool.false_ne_true]

variable (hsize : bytes.length < 2 ^ 64)
include hsize

theorem plus_one (hbyte : bytes[place]? = some b) : plus place 1 = .ok (place + 1) := by
  have := (List.getElem?_eq_some_iff.mp hbyte).1
  exact plus_of_lt (by omega)

theorem pass_step (hbyte : bytes[place]? = some b) (hend : isEnd b = false) :
    pass isEnd bytes place = pass isEnd bytes (place + 1) := by
  rw [pass_eq_bind isEnd bytes place, hbyte]
  dsimp only
  rw [hend, if_neg Bool.false_ne_true, plus_one hsize hbyte, Except.bind]

theorem skipBlanks_space (hbyte : bytes[place]? = some b) (hspace : isSpace b = true) :
    skipBlanks bytes place = skipBlanks bytes (place + 1) := by
  have hmark : b ≠ 0x23 := by
    rintro rfl
    cases hspace
  rw [skipBlanks_eq_bind bytes place, hbyte]
  dsimp only
  rw [if_neg hmark, hspace, if_pos rfl, plus_one hsize hbyte, Except.bind]

end Steps

section Runs

variable {bytes front blanks part rest : List UInt8} {isEnd : UInt8 → Bool}

theorem getElem?_front {b : UInt8} (h : bytes = front ++ b :: rest) :
    bytes[front.length]? = some b := by
  rw [h, List.getElem?_append_right (Nat.le_refl _), Nat.sub_self]
  rfl

theorem getElem?_length_eq (h : bytes = front ++ rest) : bytes[front.length]? = rest.head? := by
  rw [h, List.getElem?_append_right (Nat.le_refl _), Nat.sub_self, List.head?_eq_getElem?]

variable (hsize : bytes.length < 2 ^ 64)
include hsize

/-- The bytes up to the first end are passed. -/
theorem pass_eq (hbytes : bytes = front ++ (part ++ rest)) (hpart : ∀ b ∈ part, isEnd b = false)
    (hrest : ∀ b ∈ rest.head?, isEnd b = true) :
    pass isEnd bytes front.length = .ok (front ++ part).length := by
  induction part generalizing front with
  | nil =>
    rw [List.append_nil]
    exact pass_stop (getElem?_length_eq hbytes ▸ hrest)
  | cons b part ih =>
    obtain ⟨hb, hpart⟩ := List.forall_mem_cons.mp hpart
    have hmoved : bytes = (front ++ [b]) ++ (part ++ rest) := by simpa using hbytes
    have hnext := ih hmoved hpart
    rw [List.length_append, List.length_singleton] at hnext
    rw [pass_step hsize (getElem?_front hbytes) hb, hnext, List.append_assoc, List.singleton_append]

/-- A comment is passed up to the end of its line. -/
theorem pass_comment {text : List UInt8} (htext : 0x0A ∉ text)
    (hbytes : bytes = front ++ (0x23 :: text ++ rest)) (hrest : ∀ b ∈ rest.head?, b = 0x0A) :
    pass (· == 0x0A) bytes front.length = .ok (front ++ 0x23 :: text).length := by
  refine pass_eq hsize hbytes ?_ fun b hb => beq_iff_eq.mpr (hrest b hb)
  refine List.forall_mem_cons.mpr ⟨rfl, fun b hb => beq_false_of_ne ?_⟩
  rintro rfl
  exact htext hb

/-- White space and comments are skipped. -/
theorem skipBlanks_eq (hblanks : Blanks blanks) (hbytes : bytes = front ++ (blanks ++ rest)) :
    skipBlanks bytes front.length = skipBlanks bytes (front ++ blanks).length := by
  induction hblanks generalizing front with
  | nil => rw [List.append_nil]
  | @space b blanks hspace _ ih =>
    have hmoved : bytes = (front ++ [b]) ++ (blanks ++ rest) := by simpa using hbytes
    have hnext := ih hmoved
    rw [List.length_append, List.length_singleton] at hnext
    rw [skipBlanks_space hsize (getElem?_front hbytes) hspace, hnext, List.append_assoc,
      List.singleton_append]
  | @comment text blanks htext _ ih =>
    -- the comment is passed up to the newline, and the newline is white space
    have hcomment : bytes = front ++ (0x23 :: text ++ 0x0A :: (blanks ++ rest)) := by
      simpa using hbytes
    have hpass := pass_comment hsize htext hcomment (by simp)
    have hline : bytes = (front ++ 0x23 :: text) ++ 0x0A :: (blanks ++ rest) := by
      simpa using hbytes
    have hmoved : bytes = ((front ++ 0x23 :: text) ++ [0x0A]) ++ (blanks ++ rest) := by
      simpa using hbytes
    have hnext := ih hmoved
    rw [List.length_append, List.length_singleton] at hnext
    rw [skipBlanks_comment (getElem?_front hbytes) hpass,
      skipBlanks_space hsize (getElem?_front hline) rfl, hnext]
    congr 2
    simp

/-- Without a word there is no header. -/
theorem skipBlanks_noWord (hbytes : bytes = front ++ rest)
    (hrest : rest = [] ∨ ∃ text, rest = 0x23 :: text ∧ 0x0A ∉ text) :
    skipBlanks bytes front.length = .error (.fault .truncatedHeader) := by
  have hend : ∀ front : List UInt8, bytes = front ++ [] →
      skipBlanks bytes front.length = .error (.fault .truncatedHeader) := fun front h =>
    skipBlanks_end (getElem?_length_eq h)
  obtain rfl | ⟨text, rfl, htext⟩ := hrest
  · exact hend front hbytes
  · have hcomment : bytes = front ++ (0x23 :: text ++ []) := by simpa using hbytes
    have hpass := pass_comment hsize htext hcomment nofun
    rw [skipBlanks_comment (getElem?_front hbytes) hpass]
    exact hend _ (by simpa using hbytes)

end Runs

theorem range?_append {bytes front part rest : List UInt8} (h : bytes = front ++ (part ++ rest)) :
    range? bytes front.length (front ++ part).length = some part := by
  subst h
  rw [range?, if_pos (by simp [List.length_append])]
  simp

section Words

variable {bytes front ahead rest w : List UInt8} {words : List (List UInt8)}
  (hsize : bytes.length < 2 ^ 64)
include hsize

/-- A word is read where the bytes go on with one. -/
theorem word_of_hasWords (hbytes : bytes = front ++ ahead) (h : HasWords rest (w :: words) ahead) :
    ∃ front' ahead', bytes = front' ++ ahead' ∧ HasWords rest words ahead' ∧
      word bytes front.length = .ok (Utf8.decodeLossy w, front'.length) := by
  obtain _ | @⟨blanks, _, _, ahead', hblanks, hword, hends, hwords⟩ := h
  refine ⟨front ++ blanks ++ w, ahead', by simpa using hbytes, hwords, ?_⟩
  have hstart : skipBlanks bytes front.length = .ok (front ++ blanks).length := by
    obtain ⟨b, more, hcons, hmark, hspace⟩ := hword.begins
    have hbyte : bytes = (front ++ blanks) ++ b :: (more ++ ahead') := by
      rw [hbytes, hcons]
      simp
    rw [skipBlanks_eq hsize hblanks hbytes]
    exact skipBlanks_word (getElem?_front hbyte) hmark hspace
  have hall : bytes = (front ++ blanks) ++ (w ++ ahead') := by simpa using hbytes
  have hstop := pass_eq hsize hall hword.isSpace hends
  have hrange : range bytes (front ++ blanks).length (front ++ blanks ++ w).length = .ok w := by
    rw [range, range?_append hall]
  simp only [word, hstart, hstop, hrange, bind, Except.bind, pure, Except.pure]

/-- A word is read only where the bytes go on with one. -/
theorem word_cases (hbytes : bytes = front ++ ahead) :
    word bytes front.length = .error (.fault .truncatedHeader) ∨ ∃ w front' ahead',
      bytes = front' ++ ahead' ∧
      word bytes front.length = .ok (Utf8.decodeLossy w, front'.length) ∧
      ∀ rest words, HasWords rest words ahead' → HasWords rest (w :: words) ahead := by
  obtain ⟨blanks, more, rfl, hblanks, hmore⟩ := exists_blanks ahead
  obtain hbegins | hmore := hmore
  · obtain ⟨w, ahead', rfl, hword, hends⟩ := exists_word hbegins
    have hone : HasWords ahead' [w] (blanks ++ (w ++ ahead')) := .cons hblanks hword hends .nil
    obtain ⟨front', _, hbytes', hnil, heq⟩ := word_of_hasWords hsize hbytes hone
    cases hnil
    exact .inr ⟨w, front', ahead', hbytes', heq, fun rest words h => .cons hblanks hword hends h⟩
  · left
    have hskip : skipBlanks bytes front.length = .error (.fault .truncatedHeader) := by
      rw [skipBlanks_eq hsize hblanks hbytes]
      exact skipBlanks_noWord hsize (by simpa using hbytes) hmore
    simp only [word, hskip, bind, Except.bind]

/-- A number is read where the bytes go on with a word that spells it. -/
theorem number_of_hasWords {n : Nat} (hbytes : bytes = front ++ ahead)
    (h : HasWords rest (w :: words) ahead) (hn : Spells w n) :
    ∃ front' ahead', bytes = front' ++ ahead' ∧ HasWords rest words ahead' ∧
      number bytes front.length = .ok (n, front'.length) := by
  obtain ⟨front', ahead', hbytes', hwords, hword⟩ := word_of_hasWords hsize hbytes h
  refine ⟨front', ahead', hbytes', hwords, ?_⟩
  simp only [number, hword, bind, Except.bind]
  rw [show Text.natural? 10 64 _ = some n from hn]
  rfl

/-- A number is read only where the bytes go on with a word that spells it. -/
theorem number_cases (hbytes : bytes = front ++ ahead) :
    (∃ fault, number bytes front.length = .error (.fault fault)) ∨ ∃ w n front' ahead',
      bytes = front' ++ ahead' ∧ number bytes front.length = .ok (n, front'.length) ∧ Spells w n ∧
      ∀ rest words, HasWords rest words ahead' → HasWords rest (w :: words) ahead := by
  obtain hword | ⟨w, front', ahead', hbytes', hword, hwords⟩ := word_cases hsize hbytes
  · exact .inl ⟨.truncatedHeader, by simp only [number, hword, bind, Except.bind]⟩
  · cases hn : Text.natural? 10 64 (Utf8.decodeLossy w).toList with
    | none =>
      refine .inl ⟨.invalidNumber (Utf8.decodeLossy w), ?_⟩
      simp only [number, hword, hn, bind, Except.bind]
    | some n =>
      refine .inr ⟨w, n, front', ahead', hbytes', ?_, hn, hwords⟩
      simp only [number, hword, hn, bind, Except.bind]
      rfl

/-- A header is read where the bytes begin with one, up to the rest. -/
theorem header_of_hasHeader {width height : Nat} (h : HasHeader bytes width height rest) :
    ∃ front, bytes = front ++ rest ∧ header bytes = .ok ⟨width, height, front.length⟩ := by
  obtain ⟨mark, w, h, m, maximum, hwords, hmark, hw, hh, hm, hpos, hmax⟩ := h
  have hstart : bytes = [] ++ bytes := rfl
  obtain ⟨front, ahead, hbytes, hwords, hword⟩ := word_of_hasWords hsize hstart hwords
  obtain ⟨front, ahead, hbytes, hwords, hwidth⟩ := number_of_hasWords hsize hbytes hwords hw
  obtain ⟨front, ahead, hbytes, hwords, hheight⟩ := number_of_hasWords hsize hbytes hwords hh
  obtain ⟨front, ahead, hbytes, hwords, hmaximum⟩ := number_of_hasWords hsize hbytes hwords hm
  cases hwords
  refine ⟨front, hbytes, ?_⟩
  have hrange : ¬ (maximum = 0 ∨ 255 < maximum) := by omega
  rw [List.length_nil] at hword
  simp only [header, hword, hmark, hwidth, hheight, hmaximum, hrange, bind, Except.bind, pure,
    Except.pure, ne_eq, not_true_eq_false, if_false]

/-- A header is read only where the bytes begin with one; otherwise they are at fault. -/
theorem header_cases : (∃ fault, header bytes = .error (.fault fault)) ∨
    ∃ width height rest, HasHeader bytes width height rest := by
  have hstart : bytes = [] ++ bytes := rfl
  obtain hword | ⟨mark, front, ahead, hbytes, hword, hfirst⟩ := word_cases hsize hstart
  · refine .inl ⟨.truncatedHeader, ?_⟩
    rw [List.length_nil] at hword
    simp only [header, hword, bind, Except.bind]
  rw [List.length_nil] at hword
  by_cases hmark : Utf8.decodeLossy mark = "P6"
  swap
  · exact .inl ⟨.notPixmap, by simp only [header, hword, hmark, bind, Except.bind, ne_eq,
      not_false_eq_true, if_true]⟩
  obtain ⟨fault, hwidth⟩ | ⟨w, width, front₁, ahead₁, hbytes₁, hwidth, hw, hsecond⟩ :=
    number_cases hsize hbytes
  · exact .inl ⟨fault, by simp only [header, hword, hmark, hwidth, bind, Except.bind, ne_eq,
      not_true_eq_false, if_false]⟩
  obtain ⟨fault, hheight⟩ | ⟨h, height, front₂, ahead₂, hbytes₂, hheight, hh, hthird⟩ :=
    number_cases hsize hbytes₁
  · exact .inl ⟨fault, by simp only [header, hword, hmark, hwidth, hheight, bind, Except.bind, ne_eq,
      not_true_eq_false, if_false]⟩
  obtain ⟨fault, hmaximum⟩ | ⟨m, maximum, front₃, ahead₃, hbytes₃, hmaximum, hm, hlast⟩ :=
    number_cases hsize hbytes₂
  · exact .inl ⟨fault, by simp only [header, hword, hmark, hwidth, hheight, hmaximum, bind,
      Except.bind, ne_eq, not_true_eq_false, if_false]⟩
  by_cases hrange : maximum = 0 ∨ 255 < maximum
  · exact .inl ⟨.unsupportedMaximum maximum, by simp only [header, hword, hmark, hwidth, hheight,
      hmaximum, hrange, bind, Except.bind, ne_eq, not_true_eq_false, if_false, if_true]⟩
  · refine .inr ⟨width, height, ahead₃, mark, w, h, m, maximum, ?_, hmark, hw, hh, hm, by omega,
      by omega⟩
    exact hfirst _ _ (hsecond _ _ (hthird _ _ (hlast _ _ .nil)))

end Words

end Pixmap

end ShaderReducer
