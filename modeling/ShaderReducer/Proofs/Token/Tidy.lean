import ShaderReducer.Proofs.Token.Covered
import ShaderReducer.Syntax.Printer

/-!
# Tidy lines

The printer cuts the white space at the end of each line. No token loses anything by that, and none
gets another character behind it than the end of a line.

Every token that is not malformed is recognised from its own text alone, up to the end of a line. So
the tokens of a source can be written again with other white space between them, as long as a line
ends behind each: what the new text says is what the source says.
-/

namespace ShaderReducer

open Text (isBlank trimEndList splitOn linesList)

/-- A text without white space at the end of any line. -/
def trimLines : List Char → List Char
  | [] => []
  | c :: rest =>
    if isBlank c && c != '\n' && (trimLines rest).head?.all (· == '\n') then trimLines rest
    else c :: trimLines rest

theorem trimEndList_cons_eq (c : Char) (cs : List Char) : trimEndList (c :: cs) =
    if isBlank c && (trimEndList cs).isEmpty then [] else c :: trimEndList cs := by
  rw [trimEndList, trimEndList, List.reverse_cons, List.dropWhile_append]
  by_cases h : (cs.reverse.dropWhile isBlank).isEmpty = true
  · rw [if_pos h, List.isEmpty_iff.mp h]
    cases hc : isBlank c <;> simp [hc]
  · rw [if_neg h, List.isEmpty_reverse, eq_false_of_ne_true h, Bool.and_false,
      if_neg Bool.false_ne_true, List.reverse_append]
    rfl

theorem newline_notMem_splitOn (cs : List Char) : ∀ piece ∈ splitOn '\n' cs, '\n' ∉ piece := by
  induction cs with
  | nil =>
      rintro piece (_ | ⟨_, h⟩)
      · exact List.not_mem_nil
      · cases h
  | cons c rest ih =>
      rw [splitOn]
      cases hsplit : splitOn '\n' rest with
      | nil => exact absurd hsplit (Text.splitOn_ne_nil '\n' rest)
      | cons piece pieces =>
          rw [hsplit] at ih
          dsimp only
          by_cases hc : c = '\n'
          · rw [if_pos hc]
            rintro _ (_ | ⟨_, h⟩)
            · exact List.not_mem_nil
            · exact ih _ h
          · rw [if_neg hc]
            rintro _ (_ | ⟨_, h⟩)
            · rintro (_ | ⟨_, h⟩)
              · exact hc rfl
              · exact ih piece List.mem_cons_self h
            · exact ih _ (List.mem_cons_of_mem _ h)

theorem intercalate_cons_cons {α : Type} (sep x y : List α) (ys : List (List α)) :
    sep.intercalate (x :: y :: ys) = x ++ (sep ++ sep.intercalate (y :: ys)) := rfl

theorem intercalate_cons_append {α : Type} (sep : List α) (a : α) (x : List α)
    (ys : List (List α)) :
    sep.intercalate ((a :: x) :: ys) = a :: sep.intercalate (x :: ys) := by
  cases ys <;> rfl

/-- The first line of some is empty if they start with its end. -/
theorem head?_intercalate {piece : List Char} (h : '\n' ∉ piece) (pieces : List (List Char)) :
    (['\n'].intercalate (trimEndList piece :: pieces)).head?.all (· == '\n') =
      (trimEndList piece).isEmpty := by
  cases htrim : trimEndList piece with
  | nil => cases pieces <;> rfl
  | cons d line =>
      have hd : d ∈ piece := (isPrefix_trimEndList piece).subset (htrim ▸ List.mem_cons_self)
      have hne : (d == '\n') = false := beq_eq_false_iff_ne.mpr fun heq => h (heq ▸ hd)
      rw [intercalate_cons_append]
      simpa using hne

/-- To trim the lines is to cut the text into lines and trim each. -/
theorem trimLines_eq (cs : List Char) :
    trimLines cs = ['\n'].intercalate ((splitOn '\n' cs).map trimEndList) := by
  induction cs with
  | nil => rfl
  | cons c rest ih =>
      rw [trimLines, splitOn, ih]
      have hline := newline_notMem_splitOn rest
      cases hsplit : splitOn '\n' rest with
      | nil => exact absurd hsplit (Text.splitOn_ne_nil '\n' rest)
      | cons piece pieces =>
          rw [hsplit] at hline
          have hpiece := hline piece List.mem_cons_self
          dsimp only
          by_cases hc : c = '\n'
          · subst hc
            rw [if_neg (by simp), if_pos rfl]
            rfl
          · rw [if_neg hc, List.map_cons, List.map_cons, head?_intercalate hpiece,
              trimEndList_cons_eq]
            have hne : (c != '\n') = true := bne_iff_ne.mpr hc
            rw [hne, Bool.and_true]
            split
            next hblank =>
              rw [Bool.and_eq_true, List.isEmpty_iff] at hblank
              rw [hblank.2]
            next => rw [intercalate_cons_append]

theorem getLast?_splitOn {cs : List Char} (h : (splitOn '\n' cs).getLast? = some []) :
    cs.getLast?.all (· == '\n') = true := by
  induction cs with
  | nil => rfl
  | cons c rest ih =>
      rw [splitOn] at h
      cases hsplit : splitOn '\n' rest with
      | nil => exact absurd hsplit (Text.splitOn_ne_nil '\n' rest)
      | cons piece pieces =>
          rw [hsplit] at h ih
          dsimp only at h
          split at h
          next hc =>
            subst hc
            rw [List.getLast?_cons_cons] at h
            have := ih h
            cases hrest : rest with
            | nil => rfl
            | cons d more => rwa [List.getLast?_cons_cons, ← hrest]
          next hc =>
            cases pieces with
            | nil => cases h
            | cons piece' pieces =>
                rw [List.getLast?_cons_cons] at h
                have := ih ((List.getLast?_cons_cons).trans h)
                cases hrest : rest with
                | nil =>
                    rw [hrest] at hsplit
                    cases hsplit
                | cons d more => rwa [List.getLast?_cons_cons, ← hrest]

theorem exists_trimLines_append {c : Char} (hc : isBlank c = false) (cs : List Char) :
    ∃ front, trimLines (cs ++ [c]) = front ++ [c] := by
  induction cs with
  | nil => exact ⟨[], by rw [List.nil_append, trimLines, hc]; rfl⟩
  | cons d cs ih =>
      obtain ⟨front, hfront⟩ := ih
      rw [List.cons_append, trimLines, hfront]
      split
      · exact ⟨front, rfl⟩
      · exact ⟨d :: front, rfl⟩

/-- What ends with a visible character gets its lines trimmed and one end of a line. -/
theorem toList_tidyLines {text : String} {c : Char} (hlast : text.toList.getLast? = some c)
    (hc : isBlank c = false) : (tidyLines text).toList = trimLines text.toList ++ ['\n'] := by
  have hne : c ≠ '\n' := by
    rintro rfl
    cases hc
  have hlines : linesList text.toList = splitOn '\n' text.toList := by
    rw [linesList]
    refine if_neg fun hempty => ?_
    have := getLast?_splitOn hempty
    rw [hlast] at this
    exact hne (beq_iff_eq.mp this)
  obtain ⟨front, hfront⟩ := List.getLast?_eq_some_iff.mp hlast
  obtain ⟨front', hfront'⟩ := exists_trimLines_append hc front
  rw [tidyLines, String.toList_ofList, hlines, ← trimLines_eq, hfront, hfront']
  refine if_neg fun hnewline => hne ?_
  rw [List.getLast?_append, List.getLast?_singleton] at hnewline
  exact Option.some.inj hnewline

/-! ## Tokens in tidy lines -/

/-- The lexer finds no end of the text among others. -/
theorem Lexer.kind_ne_endOfFile {c : Char} {rest : List Char} {n : Nat} :
    recognise c rest ≠ (.endOfFile, n) := by
  intro h
  have hrecognised := recognised_of_recognise h rfl
  generalize hkind : TokenKind.endOfFile = kind at hrecognised
  cases hrecognised with
  | directive _ => cases hkind
  | number _ hnumber =>
      subst hkind
      obtain hnum | hbad := isNumber_of_number c rest
      · rw [hnumber] at hnum
        cases hnum
      · rw [hnumber] at hbad
        cases hbad
  | word _ =>
      unfold wordKind at hkind
      split at hkind <;> cases hkind
  | point _ _ hpoint =>
      subst hkind
      obtain hfloat | hbad := kind_of_point (countWhile Char.isDigit rest)
        (rest.drop (countWhile Char.isDigit rest))
      · rw [hpoint] at hfloat
        cases hfloat
      · rw [hpoint] at hbad
        cases hbad
  | symbol _ _ _ _ => cases hkind

/-- The end of a line goes on no token. -/
theorem IsToken.goesOn_newline {kind : TokenKind} {text : List Char} (h : IsToken kind text) :
    kind.goesOn text '\n' = false := by
  cases kind with
  | symbol sign => cases sign <;> rfl
  | endOfFile =>
      obtain ⟨c, tail, -, hrecognise⟩ := h.recognised
      exact absurd hrecognise Lexer.kind_ne_endOfFile
  | malformed defect => cases h.wellFormed
  | _ => rfl

theorem head_trimLines {cs : List Char} {c : Char} (h : c ∈ (trimLines cs).head?) :
    c = '\n' ∨ c ∈ cs.head? := by
  cases cs with
  | nil => cases h
  | cons d rest =>
      rw [trimLines] at h
      split at h
      next hcut =>
        rw [Bool.and_eq_true] at hcut
        have hall := hcut.2
        rw [Option.mem_def.mp h] at hall
        exact .inl (beq_iff_eq.mp hall)
      next => exact .inr h

/-- A text on one line that does not end with white space is not cut. -/
theorem trimLines_append {text : List Char} (hline : '\n' ∉ text)
    (htrimmed : trimEndList text = text) (rest : List Char) :
    trimLines (text ++ rest) = text ++ trimLines rest := by
  induction text with
  | nil => rfl
  | cons c tail ih =>
      rw [trimEndList_cons_eq] at htrimmed
      split at htrimmed
      next => cases htrimmed
      next hkept =>
        have htail : trimEndList tail = tail := (List.cons.inj htrimmed).2
        rw [List.cons_append, trimLines,
          ih (fun h => hline (List.mem_cons_of_mem c h)) htail, if_neg]
        · rfl
        · rw [htail, Bool.and_eq_true, not_and] at hkept
          rw [Bool.and_eq_true, Bool.and_eq_true, not_and]
          rintro ⟨hblank, -⟩ hall
          cases tail with
          | nil => exact hkept hblank rfl
          | cons d tail =>
              have hd : d = '\n' := by simpa using hall
              exact hline (hd ▸ List.mem_cons_of_mem c List.mem_cons_self)

theorem EndsWord.trimLines {rest : List Char} (h : Lexer.EndsWord rest) :
    Lexer.EndsWord (trimLines rest) := by
  intro c hc
  obtain rfl | hc := head_trimLines hc
  · rfl
  · exact h c hc

theorem EndsNumber.trimLines {rest : List Char} (h : Lexer.EndsNumber rest) :
    Lexer.EndsNumber (trimLines rest) := by
  refine ⟨EndsWord.trimLines h.word, fun s d tail heq hs => ?_⟩
  cases rest with
  | nil => cases heq
  | cons c rest =>
      have hne : s ≠ '\n' := by
        rintro rfl
        obtain hs | hs := hs <;> cases hs
      rw [ShaderReducer.trimLines] at heq
      split at heq
      next hcut =>
        rw [Bool.and_eq_true, heq] at hcut
        exact absurd (by simpa using hcut.2) hne
      next =>
        obtain ⟨rfl, htail⟩ := List.cons.inj heq
        have hd : d ∈ (ShaderReducer.trimLines rest).head? := by
          rw [htail]
          rfl
        obtain rfl | hd := head_trimLines hd
        · rfl
        · obtain ⟨more, rfl⟩ := List.head?_eq_some_iff.mp hd
          exact h.sign c d more rfl hs

theorem EndsNumber.append_newline {rest : List Char} (h : Lexer.EndsNumber rest) :
    Lexer.EndsNumber (rest ++ ['\n']) := by
  cases rest with
  | nil =>
      refine ⟨fun d hd => ?_, fun s d tail heq => ?_⟩
      · cases hd
        rfl
      · cases heq
  | cons c rest =>
      refine ⟨h.word, fun s d tail heq hs => ?_⟩
      cases rest with
      | nil =>
          cases heq
          rfl
      | cons d' rest =>
          cases heq
          exact h.sign _ _ rest rfl hs

theorem Written.trimLines {cs : List Char} {pieces : List Piece} (h : Written cs pieces) :
    Written (trimLines cs) pieces := by
  induction h with
  | nil => exact .nil
  | blank hc _ ih =>
      rw [ShaderReducer.trimLines]
      split
      · exact ih
      · exact .blank hc ih
  | token htext hends _ ih =>
      rw [trimLines_append htext.oneLine htext.trimmed]
      refine .token htext (fun d hd => ?_) ih
      obtain rfl | hd := head_trimLines hd
      · exact htext.goesOn_newline
      · exact hends d hd
  | broken htext hends _ ih =>
      rw [trimLines_append (newline_notMem_of_isGraphic htext.graphic)
        (trimEndList_of_forall fun c hc => isBlank_of_isGraphic (htext.graphic c hc))]
      exact .broken htext (EndsNumber.trimLines hends) ih

theorem Written.append_newline {cs : List Char} {pieces : List Piece}
    (h : Written cs pieces) : Written (cs ++ ['\n']) pieces := by
  have hhead : ∀ {rest : List Char} {d : Char}, d ∈ (rest ++ ['\n']).head? →
      d = '\n' ∨ d ∈ rest.head? := by
    intro rest d hd
    cases rest with
    | nil => exact .inl (Option.some.inj hd).symm
    | cons e rest => exact .inr hd
  induction h with
  | nil => exact .blank rfl .nil
  | blank hc _ ih => exact .blank hc ih
  | token htext hends _ ih =>
      rw [List.append_assoc]
      refine .token htext (fun d hd => ?_) ih
      obtain rfl | hd := hhead hd
      · exact htext.goesOn_newline
      · exact hends d hd
  | broken htext hends _ ih =>
      rw [List.append_assoc]
      exact .broken htext (EndsNumber.append_newline hends) ih

/-- A text that ends with a visible character still says the same with tidy lines. -/
theorem Written.tidyLines {text : String} {pieces : List Piece}
    (h : Written text.toList pieces) {c : Char} (hlast : text.toList.getLast? = some c)
    (hc : isBlank c = false) : Written (tidyLines text).toList pieces := by
  rw [toList_tidyLines hlast hc]
  exact h.trimLines.append_newline

/-! ## Tokens on lines of their own -/

/-- White space in front of a text adds nothing to what it says. -/
theorem Written.blanks {gap rest : List Char} {pieces : List Piece}
    (hgap : ∀ c ∈ gap, Lexer.isSpace c = true) (hrest : Written rest pieces) :
    Written (gap ++ rest) pieces := by
  induction gap with
  | nil => exact hrest
  | cons c gap ih =>
      exact .blank (hgap c List.mem_cons_self) (ih fun d hd => hgap d (List.mem_cons_of_mem c hd))

/-- A token in front of the end of a line, or of the text, is the first thing that the text says. -/
theorem Written.cons {t : Token} {rest : List Char} {pieces : List Piece}
    (ht : IsToken t.kind t.lexeme.toList) (hline : ∀ d ∈ rest.head?, d = '\n')
    (hrest : Written rest pieces) : Written (t.lexeme.toList ++ rest) (t.piece :: pieces) := by
  have hwritten := Written.token ht (fun d hd => hline d hd ▸ ht.goesOn_newline) hrest
  rwa [String.ofList_toList] at hwritten

/-- Tokens with the same white space between any two of them say just these tokens, if the white
space begins with the end of a line: that goes on no token, not even on a directive. -/
theorem written_intercalate {gap : List Char} (hgap : ∀ c ∈ gap, Lexer.isSpace c = true)
    (hline : gap.head? = some '\n') {ts : List Token}
    (hts : ∀ t ∈ ts, IsToken t.kind t.lexeme.toList) :
    Written (gap.intercalate (ts.map fun t => t.lexeme.toList)) (ts.map Token.piece) := by
  induction ts with
  | nil => exact .nil
  | cons t ts ih =>
      have ht := hts t List.mem_cons_self
      have hrest := ih fun u hu => hts u (List.mem_cons_of_mem t hu)
      cases ts with
      | nil =>
          have hlast : Written (t.lexeme.toList ++ []) [t.piece] :=
            .cons ht (fun d hd => nomatch hd) .nil
          rw [List.append_nil] at hlast
          rwa [List.map_singleton, List.intercalate_singleton]
      | cons u ts =>
          rw [List.map_cons, List.map_cons, List.intercalate_cons_cons, List.append_assoc]
          refine .cons ht (fun d hd => ?_) (hrest.blanks hgap)
          rw [List.head?_append, hline] at hd
          exact (Option.some.inj hd).symm

/-- What the token that stands for the end of a text says. -/
theorem Lexer.Reading.piece_eof {s last : State} {ts : List Token} {eof : Token}
    (h : Reading s ts eof last) : eof.piece = ⟨.endOfFile, ""⟩ := by
  induction h with
  | ended hnext hstep =>
      have hkind := hstep.ends.mpr rfl
      rw [Token.piece, hstep.lexeme, hkind]
      rfl
  | token hnext hstep htext hrest ih => exact ih

namespace TokenStream

/-- The lexemes of all tokens, each on a line of its own. -/
def onLines (stream : TokenStream) : String :=
  "\n".intercalate (stream.tokens.map Token.lexeme)

/-- What a text says, with its end. -/
def pieces (stream : TokenStream) : List Piece :=
  stream.all.map Token.piece

theorem pieces_ofText (source : String) : (ofText source).pieces =
    (ofText source).tokens.map Token.piece ++ [⟨.endOfFile, ""⟩] := by
  obtain ⟨last, hread, -⟩ := Lexer.reading_ofText source
  rw [pieces, all, List.map_append, List.map_singleton, hread.piece_eof]

/-- A text that is written with well-formed pieces says just these. -/
theorem pieces_of_written {source : String} {expected : List Piece}
    (h : Written source.toList expected) (hformed : ∀ p ∈ expected, p.kind.isMalformed = false) :
    (ofText source).pieces = expected ++ [⟨.endOfFile, ""⟩] := by
  obtain ⟨hpieces, -⟩ | ⟨-, p, hp, hbroken⟩ := h.lists {}
  · rw [pieces_ofText, ofText, hpieces]
  · rw [hformed p hp] at hbroken
    cases hbroken

/-- The tokens of a source without malformed tokens, each on a line of its own, are read as the same
tokens. -/
theorem pieces_onLines {source : String}
    (hformed : ∀ t ∈ (ofText source).tokens, t.kind.isMalformed = false) :
    (ofText (ofText source).onLines).pieces = (ofText source).pieces := by
  have htokens : ∀ t ∈ (ofText source).tokens, IsToken t.kind t.lexeme.toList := fun t ht =>
    Lexer.isToken_of_mem {} source.toList t ht (hformed t ht)
  have hwritten : Written (['\n'].intercalate _) _ :=
    written_intercalate (List.forall_mem_singleton.mpr rfl) rfl htokens
  have htext : (ofText source).onLines.toList =
      ['\n'].intercalate ((ofText source).tokens.map fun t => t.lexeme.toList) := by
    rw [onLines, String.toList_intercalate, List.map_map]
    rfl
  rw [← htext] at hwritten
  rw [pieces_of_written hwritten, pieces_ofText]
  intro p hp
  obtain ⟨t, ht, rfl⟩ := List.mem_map.mp hp
  exact hformed t ht

/-- A directive keeps what looks like a comment, and a number keeps the point and the exponent that
stand in front of a name. -/
theorem pieces_onLines_directiveAndNumbers :
    (ofText "#define a /* b \t\nx+++1.e-3f.y<<=0x1Fu").onLines =
        "#define a /* b\nx\n++\n+\n1.e-3f\n.\ny\n<<=\n0x1Fu" ∧
      (ofText "#define a /* b\nx\n++\n+\n1.e-3f\n.\ny\n<<=\n0x1Fu").pieces =
        (ofText "#define a /* b \t\nx+++1.e-3f.y<<=0x1Fu").pieces := by
  have hformed : ∀ t ∈ (ofText "#define a /* b \t\nx+++1.e-3f.y<<=0x1Fu").tokens,
      t.kind.isMalformed = false := by
    decide +kernel
  have htext : (ofText "#define a /* b \t\nx+++1.e-3f.y<<=0x1Fu").onLines =
      "#define a /* b\nx\n++\n+\n1.e-3f\n.\ny\n<<=\n0x1Fu" := by
    decide +kernel
  refine ⟨htext, ?_⟩
  rw [← htext]
  exact pieces_onLines hformed

end TokenStream

end ShaderReducer
