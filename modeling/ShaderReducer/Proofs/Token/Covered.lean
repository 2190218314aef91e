import Mathlib.Data.List.Chain
import Mathlib.Data.List.Infix
import ShaderReducer.Proofs.Token.Written
import ShaderReducer.Text.Utf8

/-!
# Tokens cover a text

One call of the lexer passes a gap of blanks and comments and a text, and makes a token of the text:
`Step` says all that a call does. `Reading` is a row of calls up to the end. From these follows that
the tokens of a source, the gaps between them and nothing else make up the source, byte for byte.
-/

namespace ShaderReducer

/-- The number of bytes of a text. -/
def byteLength (cs : List Char) : Nat :=
  (cs.flatMap String.utf8EncodeChar).length

@[simp] theorem byteLength_nil : byteLength [] = 0 := rfl

@[simp] theorem byteLength_cons (c : Char) (cs : List Char) :
    byteLength (c :: cs) = c.utf8Size + byteLength cs := by
  rw [byteLength, List.flatMap_cons, List.length_append, String.length_utf8EncodeChar, byteLength]

@[simp] theorem byteLength_append (cs ds : List Char) :
    byteLength (cs ++ ds) = byteLength cs + byteLength ds := by
  rw [byteLength, List.flatMap_append, List.length_append, byteLength, byteLength]

theorem byteLength_pos {cs : List Char} (h : cs ≠ []) : 0 < byteLength cs := by
  obtain ⟨c, rest, rfl⟩ := List.exists_cons_of_ne_nil h
  have := c.utf8Size_pos
  rw [byteLength_cons]
  omega

theorem Place.offset_next (p : Place) (c : Char) : (p.next c).offset = p.offset + c.utf8Size := by
  rw [next]
  split
  next h =>
    subst h
    rfl
  next => rfl

theorem Place.offset_advance (p : Place) (cs : List Char) :
    (p.advance cs).offset = p.offset + byteLength cs := by
  induction cs generalizing p with
  | nil => rfl
  | cons c cs ih => rw [advance_cons, ih, offset_next, byteLength_cons, Nat.add_assoc]

namespace Lexer

/-! ## Gaps -/

/-- A comment that is complete where `after` follows it: a line comment goes up to the end of its
line or of the text, and a block comment up to the first closing mark behind its opening one. -/
inductive IsComment : List Char → List Char → Prop
  | line {body after : List Char} (hbody : '\n' ∉ body) (hafter : ∀ c ∈ after.head?, c = '\n') :
    IsComment ('/' :: '/' :: body) after
  | block {body after : List Char} (hbody : ¬ ['*', '/'] <:+: body ++ ['*']) :
    IsComment ('/' :: '*' :: (body ++ ['*', '/'])) after

/-- A text of blanks and complete comments, where `after` follows it. -/
inductive IsGap : List Char → List Char → Prop
  | nil {after : List Char} : IsGap [] after
  | blank {c : Char} {gap after : List Char} (hc : c ∈ [' ', '\t', '\r', '\n'])
    (hgap : IsGap gap after) : IsGap (c :: gap) after
  | comment {comment gap after : List Char} (hcomment : IsComment comment (gap ++ after))
    (hgap : IsGap gap after) : IsGap (comment ++ gap) after

/-- A block comment is split behind the first closing mark. -/
theorem body_of_splitComment? {cs inner after : List Char}
    (h : splitComment? cs = some (inner, after)) :
    ∃ body, inner = body ++ ['*', '/'] ∧ ¬ ['*', '/'] <:+: body ++ ['*'] := by
  fun_induction splitComment? cs generalizing inner after with
  | case1 => cases h
  | case2 rest =>
    cases h
    exact ⟨[], rfl, by decide⟩
  | case3 c rest hopen ih =>
    obtain ⟨⟨inner', after'⟩, hsplit, heq⟩ := Option.map_eq_some_iff.mp h
    cases heq
    obtain ⟨body, rfl, hbody⟩ := ih hsplit
    refine ⟨c :: body, rfl, fun hinfix => ?_⟩
    rw [List.cons_append, List.infix_cons_iff] at hinfix
    -- the mark would have to stand at the head, where the comment would have been closed
    obtain hhead | hinfix := hinfix
    · obtain ⟨rfl, htail⟩ := List.cons_prefix_cons.mp hhead
      cases body with
      | nil => cases (List.cons_prefix_cons.mp htail).1
      | cons d body =>
        obtain ⟨rfl, -⟩ := List.cons_prefix_cons.mp htail
        exact hopen _ rfl (append_of_splitComment? hsplit)
    · exact hbody hinfix

/-- The place behind a gap. -/
def Gap.place : Gap → Place
  | upTo place _ => place
  | unterminatedComment start _ => start

/-- The text behind a gap. -/
def Gap.text : Gap → List Char
  | upTo _ rest => rest
  | unterminatedComment _ comment => comment

/-- What is skipped is a gap, and the place moves on over it. -/
theorem isGap_skipBlanks (place : Place) (cs : List Char) : ∃ gap,
    cs = gap ++ (skipBlanks place cs).text ∧ (skipBlanks place cs).place = place.advance gap ∧
      IsGap gap (skipBlanks place cs).text := by
  fun_induction skipBlanks place cs with
  | case1 place => exact ⟨[], rfl, rfl, .nil⟩
  | case2 place tail comment ih =>
    obtain ⟨gap, hcs, hplace, hgap⟩ := ih
    refine ⟨comment ++ gap, ?_, ?_, .comment (.line ?_ ?_) hgap⟩
    · rw [List.append_assoc, ← hcs]
      simp [comment]
    · rw [hplace, Place.advance_append]
    · exact fun hmem => bne_iff_ne.mp (List.mem_takeWhile_imp (p := (· != '\n')) hmem) rfl
    · rw [← hcs]
      intro c hc
      have := List.head?_dropWhile_not (· != '\n') tail
      rw [hc] at this
      simpa using this
  | case3 place tail inner after hsplit ih =>
    obtain ⟨gap, hcs, hplace, hgap⟩ := ih
    obtain ⟨body, rfl, hbody⟩ := body_of_splitComment? hsplit
    refine ⟨'/' :: '*' :: (body ++ ['*', '/']) ++ gap, ?_, ?_, .comment (.block hbody) hgap⟩
    · rw [List.append_assoc, ← hcs, append_of_splitComment? hsplit]
      rfl
    · rw [hplace, Place.advance_append]
  | case4 place tail hsplit => exact ⟨[], rfl, rfl, .nil⟩
  | case5 place c tail _ _ hspace ih =>
    obtain ⟨gap, hcs, hplace, hgap⟩ := ih
    refine ⟨c :: gap, congrArg (List.cons c) hcs, hplace, .blank ?_ hgap⟩
    simpa [isSpace, or_assoc] using hspace
  | case6 place c tail => exact ⟨[], rfl, rfl, .nil⟩

/-- No blank is left at the head. -/
theorem isSpace_of_skipBlanks {place start : Place} {cs rest : List Char} {c : Char}
    (h : skipBlanks place cs = .upTo start (c :: rest)) : isSpace c = false := by
  fun_induction skipBlanks place cs with
  | case1 => cases h
  | case2 _ _ _ ih => exact ih h
  | case3 _ _ _ _ _ ih => exact ih h
  | case4 => cases h
  | case5 _ _ _ _ _ _ ih => exact ih h
  | case6 place c tail _ _ hspace =>
    cases h
    exact eq_false_of_ne_true hspace

theorem comment_ne_nil_of_skipBlanks {place start : Place} {cs comment : List Char}
    (h : skipBlanks place cs = .unterminatedComment start comment) : comment ≠ [] := by
  fun_induction skipBlanks place cs with
  | case1 => cases h
  | case2 _ _ _ ih => exact ih h
  | case3 _ _ _ _ _ ih => exact ih h
  | case4 =>
    cases h
    exact List.cons_ne_nil _ _
  | case5 _ _ _ _ _ _ ih => exact ih h
  | case6 => cases h

/-! ## One call -/

/-- What one call of the lexer does: it passes a gap and a text, makes a token of the text, and
notes an error if that is malformed. The text is empty only at the end of the source. -/
structure Step (s : State) (gap text : List Char) (t : Token) (s' : State) : Prop where
  ahead : s.ahead = gap ++ (text ++ s'.ahead)
  isGap : IsGap gap (text ++ s'.ahead)
  place : s'.place = placeAfter t.kind (s.place.advance gap) text
  span : t.span = .between (s.place.advance gap) s'.place
  lexeme : t.lexeme = lexeme t.kind text
  errors : s'.errors = State.note s.errors t.kind t.span
  ends : t.kind = .endOfFile ↔ text = []
  last : text = [] → s'.ahead = []
  unexpected : ∀ c, t.kind = .malformed (.unexpectedCharacter c) → text = [c] ∧ c ≠ '\n'

/-- Only a character by itself is unexpected. -/
theorem unexpected_of_recognise {c d : Char} {rest : List Char} {n : Nat}
    (h : recognise c rest = (.malformed (.unexpectedCharacter d), n)) : d = c ∧ n = 0 := by
  unfold recognise at h
  split at h
  next => cases h
  split at h
  next =>
    obtain hnum | hbad := isNumber_of_number c rest
    · rw [h] at hnum
      cases hnum
    · rw [h] at hbad
      cases hbad
  split at h
  next =>
    dsimp only at h
    split at h <;> cases h
  split at h
  next =>
    obtain hfloat | hbad := kind_of_point (countWhile Char.isDigit rest)
      (rest.drop (countWhile Char.isDigit rest))
    · dsimp only at h
      rw [h] at hfloat
      cases hfloat
    · dsimp only at h
      rw [h] at hbad
      cases hbad
  split at h
  next => cases h
  next =>
    cases h
    exact ⟨rfl, rfl⟩

theorem step_next (s : State) : ∃ gap text, Step s gap text s.next.1 s.next.2 := by
  obtain ⟨gap, hahead, hplace, hgap⟩ := isGap_skipBlanks s.place s.ahead
  unfold State.next
  split
  next start comment hskip =>
    rw [hskip] at hahead hplace hgap
    obtain rfl : start = s.place.advance gap := hplace
    refine ⟨gap, comment, ?_, ?_, rfl, rfl, rfl, rfl, ?_, ?_, ?_⟩
    · exact hahead.trans (congrArg _ (List.append_nil _).symm)
    · exact (List.append_nil comment).symm ▸ hgap
    · exact iff_of_false TokenKind.noConfusion (comment_ne_nil_of_skipBlanks hskip)
    · exact fun _ => rfl
    · exact fun _ h => nomatch h
  next last hskip =>
    rw [hskip] at hahead hplace hgap
    obtain rfl : last = s.place.advance gap := hplace
    exact ⟨gap, [], hahead, hgap, rfl, rfl, rfl, rfl, iff_of_true rfl rfl, fun _ => rfl,
      fun _ h => nomatch h⟩
  next start c rest hskip =>
    rw [hskip] at hahead hplace hgap
    obtain rfl : start = s.place.advance gap := hplace
    have hkind := recognise_ne_endOfFile c rest
    have hspace := isSpace_of_skipBlanks hskip
    cases hrecognise : recognise c rest with
    | mk kind n =>
      rw [hrecognise] at hkind
      have hsplit : c :: rest = c :: rest.take n ++ rest.drop n := by
        rw [List.cons_append, List.take_append_drop]
      refine ⟨gap, c :: rest.take n, ?_, ?_, rfl, rfl, rfl, rfl, ?_, ?_, ?_⟩
      · exact hahead.trans (congrArg _ hsplit)
      · exact hsplit ▸ hgap
      · exact iff_of_false hkind (List.cons_ne_nil _ _)
      · exact fun h => nomatch h
      · rintro d rfl
        obtain ⟨rfl, rfl⟩ := unexpected_of_recognise hrecognise
        refine ⟨rfl, ?_⟩
        rintro rfl
        cases hspace

/-! ## All calls -/

/-- The lexer after a number of calls. -/
def State.after (s : State) : Nat → State
  | 0 => s
  | n + 1 => s.next.2.after n

/-- A row of calls from a state: one for each of some tokens, and one at the end of the source. -/
inductive Reading : State → List Token → Token → State → Prop
  | ended {s s' : State} {gap : List Char} {t : Token} (hnext : s.next = (t, s'))
    (hstep : Step s gap [] t s') : Reading s [] t s'
  | token {s s' last : State} {gap text : List Char} {t eof : Token} {ts : List Token}
    (hnext : s.next = (t, s')) (hstep : Step s gap text t s') (htext : text ≠ [])
    (hrest : Reading s' ts eof last) : Reading s (t :: ts) eof last

/-- The lexer reads to the end of a source. -/
theorem reading_run (s : State) :
    ∃ last, Reading s s.run.tokens s.run.eof last ∧ last.errors = s.run.errors := by
  induction hn : s.ahead.length using Nat.strongRecOn generalizing s with
  | _ n ih =>
    obtain ⟨gap, text, hstep⟩ := step_next s
    by_cases hend : s.next.1.kind = .endOfFile
    · obtain rfl := hstep.ends.mp hend
      rw [State.run_of_end rfl hend]
      exact ⟨s.next.2, .ended rfl hstep, rfl⟩
    · obtain ⟨last, hrest, herrors⟩ := ih _ (hn ▸ State.length_ahead_next hend) s.next.2 rfl
      rw [State.run_of_token rfl hend]
      exact ⟨last, .token rfl hstep (fun htext => hend (hstep.ends.mpr htext)) hrest, herrors⟩

/-- The error that a token stands for, if it is malformed. -/
def error? (t : Token) : Option LexicalError :=
  match t.kind with
  | .malformed defect => some ⟨defect, t.span⟩
  | _ => none

theorem isSome_error? (t : Token) : (error? t).isSome = t.kind.isMalformed := by
  obtain ⟨kind, text, span⟩ := t
  cases kind <;> rfl

theorem note_eq (errors : List LexicalError) (t : Token) :
    State.note errors t.kind t.span = errors ++ [t].filterMap error? := by
  obtain ⟨kind, text, span⟩ := t
  cases kind <;> first | rfl | exact (List.append_nil errors).symm

namespace Reading

variable {s last : State} {ts : List Token} {eof : Token}

theorem getElem?_append (h : Reading s ts eof last) {i : Nat} (hi : i ≤ ts.length) :
    (ts ++ [eof])[i]? = some (s.after i).next.1 := by
  induction h generalizing i with
  | ended hnext hstep =>
    obtain rfl := Nat.le_zero.mp hi
    rw [State.after, hnext]
    rfl
  | token hnext hstep htext hrest ih =>
    cases i with
    | zero =>
      rw [State.after, hnext]
      rfl
    | succ i =>
      rw [State.after, hnext, List.cons_append, List.getElem?_cons_succ]
      exact ih (Nat.le_of_succ_le_succ hi)

theorem errors_eq (h : Reading s ts eof last) :
    last.errors = s.errors ++ ts.filterMap error? := by
  induction h with
  | @ended s s' gap t hnext hstep =>
    rw [hstep.errors, hstep.ends.mpr rfl]
    exact (List.append_nil _).symm
  | @token s s' last gap text t eof ts hnext hstep htext hrest ih =>
    rw [ih, hstep.errors, note_eq, List.append_assoc, ← List.filterMap_append]
    rfl

theorem after_eq (h : Reading s ts eof last) : s.after (ts.length + 1) = last := by
  induction h with
  | ended hnext hstep =>
    rw [State.after, hnext]
    rfl
  | token hnext hstep htext hrest ih => rw [State.after, hnext, List.length_cons, ih]

theorem kind_eof (h : Reading s ts eof last) : eof.kind = .endOfFile := by
  induction h with
  | ended hnext hstep => exact hstep.ends.mpr rfl
  | token hnext hstep htext hrest ih => exact ih

theorem kind_ne (h : Reading s ts eof last) : ∀ t ∈ ts, t.kind ≠ .endOfFile := by
  induction h with
  | ended hnext hstep => exact fun t ht => nomatch ht
  | token hnext hstep htext hrest ih =>
    exact List.forall_mem_cons.mpr ⟨fun hkind => htext (hstep.ends.mp hkind), ih⟩

theorem length_le (h : Reading s ts eof last) : ts.length ≤ byteLength s.ahead := by
  induction h with
  | ended hnext hstep => exact Nat.zero_le _
  | token hnext hstep htext hrest ih =>
    have := byteLength_pos htext
    rw [hstep.ahead, byteLength_append, byteLength_append, List.length_cons]
    omega

end Reading

/-! ## Bytes of a source -/

/-- A text stands in a source from one byte on up to another, and `after` follows it. -/
def StandsAt (source : String) (start stop : Nat) (text after : List Char) : Prop :=
  ∃ front, source.toList = front ++ (text ++ after) ∧
    byteLength front = start ∧ byteLength (front ++ text) = stop

/-- From one byte on up to another there are only blanks and complete comments. -/
def GapAt (source : String) (start stop : Nat) : Prop :=
  ∃ gap after, StandsAt source start stop gap after ∧ IsGap gap after

/-- What a token says is the text at its place, a directive without the white space at its end. -/
def WordAt (source : String) (t : Token) : Prop :=
  ∃ text after, StandsAt source t.span.start t.span.stop text after ∧ text ≠ [] ∧
    t.lexeme = String.ofList (if t.kind = .directive then Text.trimEndList text else text)

theorem lexeme_eq (kind : TokenKind) (text : List Char) : lexeme kind text =
    String.ofList (if kind = .directive then Text.trimEndList text else text) := by
  cases kind <;> rfl

theorem GapAt.le {source : String} {start stop : Nat} (h : GapAt source start stop) :
    start ≤ stop := by
  obtain ⟨gap, after, ⟨front, -, rfl, rfl⟩, -⟩ := h
  rw [byteLength_append]
  exact Nat.le_add_right _ _

theorem WordAt.lt {source : String} {t : Token} (h : WordAt source t) :
    t.span.start < t.span.stop := by
  obtain ⟨text, after, ⟨front, -, hstart, hstop⟩, htext, -⟩ := h
  have := byteLength_pos htext
  rw [← hstart, ← hstop, byteLength_append]
  omega

/-- The lexer has come to the end of a text at the head of a source. -/
structure Behind (source : String) (front : List Char) (s : State) : Prop where
  source_eq : source.toList = front ++ s.ahead
  offset : s.place.offset = byteLength front

theorem offset_placeAfter {kind : TokenKind} {text : List Char}
    (h : ∀ c, kind = .malformed (.unexpectedCharacter c) → text = [c]) (p : Place) :
    (placeAfter kind p text).offset = p.offset + byteLength text := by
  unfold placeAfter
  split
  next c =>
    rw [h c rfl]
    simp only [byteLength_cons, byteLength_nil, Nat.add_zero]
  next => exact p.offset_advance text

section Calls

variable {source : String} {front gap text : List Char} {s s' : State} {t : Token}

namespace Step

theorem start_eq (h : Step s gap text t s') (hs : Behind source front s) :
    t.span.start = byteLength (front ++ gap) := by
  rw [h.span, byteLength_append, ← hs.offset]
  exact Place.offset_advance _ _

theorem stop_eq (h : Step s gap text t s') (hs : Behind source front s) :
    t.span.stop = byteLength (front ++ gap ++ text) := by
  rw [h.span, byteLength_append, ← h.start_eq hs, h.span]
  change s'.place.offset = _
  rw [h.place]
  exact offset_placeAfter (fun c hc => (h.unexpected c hc).1) _

theorem behind (h : Step s gap text t s') (hs : Behind source front s) :
    Behind source (front ++ gap ++ text) s' where
  source_eq := by rw [hs.source_eq, h.ahead, List.append_assoc, List.append_assoc]
  offset := by rw [← h.stop_eq hs, h.span]; rfl

theorem gapAt (h : Step s gap text t s') (hs : Behind source front s) :
    GapAt source s.place.offset t.span.start :=
  ⟨gap, text ++ s'.ahead, ⟨front, by rw [hs.source_eq, h.ahead], hs.offset.symm,
    (h.start_eq hs).symm⟩, h.isGap⟩

theorem wordAt (h : Step s gap text t s') (hs : Behind source front s) (htext : text ≠ []) :
    WordAt source t :=
  ⟨text, s'.ahead, ⟨front ++ gap, by rw [hs.source_eq, h.ahead, List.append_assoc],
    (h.start_eq hs).symm, (h.stop_eq hs).symm⟩, htext, by rw [h.lexeme, lexeme_eq]⟩

end Step

end Calls

namespace Reading

variable {source : String} {front : List Char} {s last : State} {ts : List Token} {eof : Token}

theorem wordAt (h : Reading s ts eof last) (hs : Behind source front s) :
    ∀ t ∈ ts, WordAt source t := by
  induction h generalizing front with
  | ended hnext hstep => exact fun t ht => nomatch ht
  | token hnext hstep htext hrest ih =>
    exact List.forall_mem_cons.mpr ⟨hstep.wordAt hs htext, ih (hstep.behind hs)⟩

theorem gapAt_head (h : Reading s ts eof last) (hs : Behind source front s) :
    ∀ t ∈ (ts ++ [eof]).head?, GapAt source s.place.offset t.span.start := by
  cases h with
  | ended hnext hstep =>
    rintro t ⟨⟩
    exact hstep.gapAt hs
  | token hnext hstep htext hrest =>
    rintro t ⟨⟩
    exact hstep.gapAt hs

theorem isChain (h : Reading s ts eof last) (hs : Behind source front s) :
    (ts ++ [eof]).IsChain fun t u => GapAt source t.span.stop u.span.start := by
  induction h generalizing front with
  | ended hnext hstep => exact .singleton _
  | @token s s' last gap text t eof ts hnext hstep htext hrest ih =>
    have hs' := hstep.behind hs
    rw [List.cons_append, List.isChain_cons]
    refine ⟨fun u hu => ?_, ih hs'⟩
    rw [hstep.stop_eq hs, ← hs'.offset]
    exact hrest.gapAt_head hs' u hu

theorem le_start (h : Reading s ts eof last) (hs : Behind source front s) :
    ∀ u ∈ ts ++ [eof], s.place.offset ≤ u.span.start := by
  induction h generalizing front with
  | ended hnext hstep =>
    exact List.forall_mem_cons.mpr ⟨(hstep.gapAt hs).le, fun u hu => nomatch hu⟩
  | token hnext hstep htext hrest ih =>
    have hs' := hstep.behind hs
    refine List.forall_mem_cons.mpr ⟨(hstep.gapAt hs).le, fun u hu => ?_⟩
    calc _ ≤ _ := (hstep.gapAt hs).le
      _ ≤ _ := (hstep.wordAt hs htext).lt.le
      _ = _ := (hstep.stop_eq hs).trans hs'.offset.symm
      _ ≤ _ := ih hs' u hu

/-- No two tokens start at one place. -/
theorem pairwise_start (h : Reading s ts eof last) (hs : Behind source front s) :
    (ts ++ [eof]).Pairwise fun t u => t.span.start < u.span.start := by
  induction h generalizing front with
  | ended hnext hstep => exact List.pairwise_singleton _ _
  | token hnext hstep htext hrest ih =>
    have hs' := hstep.behind hs
    refine List.pairwise_cons.mpr ⟨fun u hu => ?_, ih hs'⟩
    calc _ < _ := (hstep.wordAt hs htext).lt
      _ = _ := (hstep.stop_eq hs).trans hs'.offset.symm
      _ ≤ _ := hrest.le_start hs' u hu

theorem span_eof (h : Reading s ts eof last) (hs : Behind source front s) :
    eof.span.start = (Utf8.encode source).length ∧ eof.span.stop = (Utf8.encode source).length := by
  induction h generalizing front with
  | @ended s s' gap t hnext hstep =>
    have hsource : source.toList = front ++ gap := by
      rw [hs.source_eq, hstep.ahead, hstep.last rfl, List.append_nil, List.append_nil]
    change _ = byteLength source.toList ∧ _ = byteLength source.toList
    rw [hsource, hstep.start_eq hs, hstep.stop_eq hs, List.append_nil]
    exact ⟨rfl, rfl⟩
  | token hnext hstep htext hrest ih => exact ih (hstep.behind hs)

end Reading

theorem behind_ofText (source : String) : Behind source [] (State.ofText source) :=
  ⟨rfl, rfl⟩

theorem reading_ofText (source : String) : ∃ last, Reading (State.ofText source)
    (TokenStream.ofText source).tokens (TokenStream.ofText source).eof last ∧
      last.errors = (TokenStream.ofText source).errors :=
  reading_run (State.ofText source)

end Lexer

namespace TokenStream

open Lexer (State GapAt WordAt)

theorem errors_ofText (source : String) :
    (ofText source).errors = (ofText source).tokens.filterMap Lexer.error? := by
  obtain ⟨last, hread, herrors⟩ := Lexer.reading_ofText source
  rw [← herrors, hread.errors_eq]
  rfl

theorem kind_eof_ofText (source : String) : (ofText source).eof.kind = .endOfFile := by
  obtain ⟨last, hread, -⟩ := Lexer.reading_ofText source
  exact hread.kind_eof

/-- The tokens of a source are those that the calls of the lexer give up to the end, no more than
the source has bytes. Each stands for a text that is not empty, and between them, before the first
and behind the last one there are only blanks and complete comments. -/
structure Covers (stream : TokenStream) (source : String) : Prop where
  calls : ∀ i ≤ stream.tokens.length, stream.all[i]? = some ((State.ofText source).after i).next.1
  kind_eof : stream.eof.kind = .endOfFile
  kind_ne : ∀ t ∈ stream.tokens, t.kind ≠ .endOfFile
  length_le : stream.tokens.length ≤ (Utf8.encode source).length
  words : ∀ t ∈ stream.tokens, t.span.start < t.span.stop ∧ WordAt source t
  ordered : stream.all.IsChain fun t u => t.span.stop ≤ u.span.start
  before : ∀ t ∈ stream.all.head?, GapAt source 0 t.span.start
  between : stream.all.IsChain fun t u => GapAt source t.span.stop u.span.start
  span_eof : stream.eof.span.start = (Utf8.encode source).length ∧
    stream.eof.span.stop = (Utf8.encode source).length
  errors : ((State.ofText source).after (stream.tokens.length + 1)).errors = stream.errors
  length_errors : stream.errors.length = stream.all.countP fun t => t.kind.isMalformed

theorem covers_ofText (source : String) : (ofText source).Covers source := by
  obtain ⟨last, hread, herrors⟩ := Lexer.reading_ofText source
  have hs := Lexer.behind_ofText source
  have hchain := hread.isChain hs
  exact {
    calls := fun i hi => hread.getElem?_append hi
    kind_eof := hread.kind_eof
    kind_ne := hread.kind_ne
    length_le := hread.length_le
    words := fun t ht => ⟨(hread.wordAt hs t ht).lt, hread.wordAt hs t ht⟩
    ordered := hchain.imp fun _ _ => GapAt.le
    before := hread.gapAt_head hs
    between := hchain
    span_eof := hread.span_eof hs
    errors := hread.after_eq ▸ herrors
    length_errors := by
      rw [← herrors, hread.errors_eq, all, List.countP_append, List.countP_singleton,
        hread.kind_eof]
      simp [State.ofText, List.length_filterMap_eq_countP, Lexer.isSome_error?,
        TokenKind.isMalformed] }

end TokenStream

end ShaderReducer
