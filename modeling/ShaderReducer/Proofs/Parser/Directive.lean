import ShaderReducer.Proofs.Parser.RoundTrip
import ShaderReducer.Proofs.Parser.Simulation
import ShaderReducer.Proofs.Token.Written

/-!
# A directive in front of a program

What is read does not depend on its place: two rows of tokens that say the same are read alike, and a
text is cut into tokens that say the same wherever it stands.

So a line that starts with `#` in front of a program is read as a directive of its own, before the
declarations of the program, unless it is taken to be about the version; and that does not depend on
its first word, but on whether `version` stands anywhere in it.
-/

namespace ShaderReducer

namespace Parser

/-- Two rows of tokens say the same, maybe at different places. -/
def Alike (ts ts' : List Token) : Prop :=
  ts.map Token.piece = ts'.map Token.piece

instance : Simulation Alike where
  isEmpty_eq h := by
    rw [← List.isEmpty_map (f := Token.piece), ← List.isEmpty_map (f := Token.piece)]
    exact congrArg List.isEmpty h
  kind_eq h := congrArg Piece.kind (List.cons.inj h).1
  lexeme_eq h := congrArg Piece.text (List.cons.inj h).1
  tail h _ _ _ := (List.cons.inj h).2

theorem declarations_eq_ok_of_alike {ts ts' : List Token} {ds : List (DeclTree Unit Unit)}
    (h : Alike ts ts') (hds : declarations ts = .ok ds) : declarations ts' = .ok ds := by
  have hsame := same_declarations h
  rw [hds] at hsame
  revert hsame
  generalize declarations ts' = result
  rintro ⟨⟩
  rfl

end Parser

namespace Lexer

/-! ## Texts at another place -/

/-- What follows a gap, wherever it stands. -/
def Gap.ahead : Gap → Bool × List Char
  | .upTo _ rest => (true, rest)
  | .unterminatedComment _ comment => (false, comment)

theorem ahead_skipBlanks (place place' : Place) (cs : List Char) :
    (skipBlanks place cs).ahead = (skipBlanks place' cs).ahead := by
  fun_induction skipBlanks place cs generalizing place' with
  | case1 =>
    rw [skipBlanks]
    rfl
  | case2 place tail comment ih =>
    rw [skipBlanks]
    exact ih _
  | case3 place tail inner after hsplit ih =>
    rw [skipBlanks]
    split
    next hsplit' =>
      cases hsplit.symm.trans hsplit'
      exact ih _
    next hsplit' => cases hsplit.symm.trans hsplit'
  | case4 place tail hsplit =>
    rw [skipBlanks]
    split
    next hsplit' => cases hsplit.symm.trans hsplit'
    next => rfl
  | case5 place c tail hline hblock hspace ih =>
    rw [skipBlanks_space hspace]
    exact ih _
  | case6 place c tail hline hblock hspace =>
    rw [skipBlanks, if_neg hspace]
    · rfl
    · exact hline
    · exact hblock

/-- A text says the same wherever it stands. -/
theorem alike_tokensFrom (place place' : Place) (cs : List Char) :
    Parser.Alike (tokensFrom place cs).tokens (tokensFrom place' cs).tokens := by
  have hahead := ahead_skipBlanks place place' cs
  rw [tokensFrom_eq, tokensFrom_eq]
  cases hskip : skipBlanks place cs with
  | unterminatedComment start comment =>
    rw [hskip] at hahead
    cases hskip' : skipBlanks place' cs with
    | unterminatedComment start' comment' =>
      rw [hskip'] at hahead
      cases hahead
      rfl
    | upTo start' rest' =>
      rw [hskip'] at hahead
      cases hahead
  | upTo start rest =>
    rw [hskip] at hahead
    cases hskip' : skipBlanks place' cs with
    | unterminatedComment start' comment' =>
      rw [hskip'] at hahead
      cases hahead
    | upTo start' rest' =>
      rw [hskip'] at hahead
      cases hahead
      have hlength := length_le_of_skipBlanks hskip
      match rest with
      | [] => rfl
      | c :: tail =>
        rw [afterGap, afterGap]
        rcases recognise c tail with ⟨kind, n⟩
        have := alike_tokensFrom (placeAfter kind start (c :: tail.take n))
          (placeAfter kind start' (c :: tail.take n)) (tail.drop n)
        exact congrArg (List.cons ⟨kind, lexeme kind (c :: tail.take n)⟩) this
termination_by cs.length
decreasing_by
  simp only [List.length_cons, List.length_drop] at *
  omega

end Lexer

open Lexer (tokensFrom)

namespace Parser

/-- The tokens of a line that is a directive and of a text below it. -/
theorem tokens_directive {d : List Char} (hd : IsToken .directive d) (place : Place)
    (r : List Char) : ∃ span after,
      (tokensFrom place (d ++ '\n' :: r)).tokens = ⟨.directive, String.ofList d, span⟩ :: after ∧
        Alike (tokensFrom place r).tokens after := by
  have hends : ∀ c ∈ ('\n' :: r).head?, TokenKind.directive.goesOn d c = false := by
    rintro c ⟨⟩
    rfl
  obtain ⟨c, tail, rfl, -⟩ := hd.recognised
  obtain ⟨span, place', hstep⟩ := Lexer.tokensFrom_token (hd.skipBlanks_append hends place)
    (hd.recognise_append hends)
  rw [List.take_left, List.drop_left, hd.lexeme_eq,
    Lexer.tokensFrom_space (show Lexer.isSpace '\n' = true from rfl)] at hstep
  exact ⟨span, _, hstep, Lexer.alike_tokensFrom place _ r⟩

/-- A program that does not start with a directive is a row of declarations without a version. -/
theorem declarations_of_program {ts : List Token} {p : Program} (h : program ts = .ok p)
    (hfirst : headKind ts ≠ .directive) : declarations ts = .ok p.decls ∧ p.version = none := by
  cases ts with
  | nil =>
    cases h
    exact ⟨declarations_nil, rfl⟩
  | cons t after =>
    rw [headKind_cons] at hfirst
    have hplain : isVersionDirective t = false := by
      rw [isVersionDirective, beq_eq_false_iff_ne.mpr hfirst, Bool.false_and]
    rw [program, hplain, if_neg Bool.false_ne_true] at h
    cases hds : declarations (t :: after) with
    | error failure =>
      rw [hds] at h
      cases h
    | ok ds =>
      rw [hds] at h
      cases h
      exact ⟨rfl, rfl⟩

/-- A directive before some declarations. -/
theorem program_directive {t : Token} {after : List Token} {ds : List (DeclTree Unit Unit)}
    (ht : t.kind = .directive) (hds : declarations after = .ok ds) :
    program (t :: after) = .ok ⟨none, .directive t.lexeme :: ds⟩ ↔
      mentionsVersion t.lexeme = false := by
  have hdirective : isVersionDirective t = mentionsVersion t.lexeme :=
    isVersionDirective_of_piece (congrArg (Piece.mk · t.lexeme) ht)
  rw [program, hdirective]
  cases mentionsVersion t.lexeme with
  | true =>
    rw [if_pos rfl]
    refine iff_of_false ?_ Bool.true_eq_false.mp
    intro h
    cases hversion : Version.ofDirective? t.lexeme with
    | none =>
      rw [hversion] at h
      cases h
    | some version =>
      rw [hversion, hds] at h
      cases h
  | false =>
    rw [if_neg Bool.false_ne_true]
    refine iff_of_true ?_ rfl
    have hread : declarations (t :: after) = .ok (.directive t.lexeme :: ds) := by
      rw [declarations, topLevel, if_pos ht]
      change (declarations after >>= _) = _
      rw [hds]
      rfl
    rw [hread]
    rfl

end Parser

namespace Program

theorem parse_eq_ok {source : String} {p : Program} :
    parse source = .ok p ↔ Parser.program (TokenStream.ofText source).tokens = .ok p := by
  rw [parse]
  cases Parser.program (TokenStream.ofText source).tokens with
  | error failure =>
    refine iff_of_false ?_ ?_
    all_goals
      intro h
      cases h
  | ok q => exact ⟨fun h => congrArg _ (Except.ok.inj h), fun h => congrArg _ (Except.ok.inj h)⟩

/-- A directive in the line above a program that starts with no directive is kept as it stands, in
front of the declarations of the program, if and only if `version` stands nowhere in it. -/
theorem parse_directive_iff {d r : String} {p : Program} (hd : d.toList.head? = some '#')
    (hline : '\n' ∉ d.toList) (htrimmed : Text.trimEnd d = d) (hr : parse r = .ok p)
    (hfirst : Parser.headKind (TokenStream.ofText r).tokens ≠ .directive) :
    parse (d ++ "\n" ++ r) = .ok ⟨none, .directive d :: p.decls⟩ ↔ mentionsVersion d = false := by
  have htoken : IsToken .directive d.toList := by
    have htrimmed' : Text.trimEndList d.toList = d.toList := by
      have := congrArg String.toList htrimmed
      rwa [Text.trimEnd, String.toList_ofList] at this
    obtain ⟨tail, heq⟩ := List.head?_eq_some_iff.mp hd
    rw [heq] at hline htrimmed' ⊢
    exact isToken_directive (fun h => hline (List.mem_cons_of_mem _ h)) htrimmed'
  obtain ⟨span, after, htokens, halike⟩ := Parser.tokens_directive htoken {} r.toList
  have hsource : (d ++ "\n" ++ r).toList = d.toList ++ '\n' :: r.toList := by
    rw [String.toList_append, String.toList_append, List.append_assoc]
    rfl
  have hdecls := (Parser.declarations_of_program (parse_eq_ok.mp hr) hfirst).1
  rw [parse_eq_ok, TokenStream.ofText, hsource, htokens, String.ofList_toList]
  exact Parser.program_directive rfl (Parser.declarations_eq_ok_of_alike halike hdecls)

/-- A macro with the name `version` is not kept, and one with another name is. -/
theorem parse_directive_defineVersion : ∃ p, parse "void main() \x7b\x7d" = .ok p ∧
    parse "#define version 1\nvoid main() \x7b\x7d" ≠
      .ok ⟨none, .directive "#define version 1" :: p.decls⟩ ∧
    parse "#define size 1\nvoid main() \x7b\x7d" =
      .ok ⟨none, .directive "#define size 1" :: p.decls⟩ := by
  have hparses : (parse "void main() \x7b\x7d").toOption.isSome = true := by decide +kernel
  have hfirst : Parser.headKind (TokenStream.ofText "void main() \x7b\x7d").tokens ≠
      .directive := by
    decide +kernel
  cases hp : parse "void main() \x7b\x7d" with
  | error failure =>
    rw [hp] at hparses
    cases hparses
  | ok p =>
    refine ⟨p, rfl, fun hkept => ?_, ?_⟩
    · have := (parse_directive_iff (d := "#define version 1") rfl (by decide) (by decide +kernel) hp
        hfirst).mp hkept
      exact absurd this (by decide)
    · exact (parse_directive_iff (d := "#define size 1") rfl (by decide) (by decide +kernel) hp
        hfirst).mpr (by decide)

end Program

end ShaderReducer
