import ShaderReducer.Proofs.Parser.RereadStmt
import ShaderReducer.Proofs.Parser.SoundProgram
import ShaderReducer.Proofs.Syntax.Fused

/-!
# Programs are read back

Declarations are read back from their pieces, and so is a whole program, with the parentheses that
the printer adds. The one exception is a program without a version whose first declaration is a
directive about the version: there the directive is read as the version.
-/

namespace ShaderReducer

namespace Parser

variable {t : Token} {ts mid rest : List Token}

/-! ## Functions -/

theorem reads_param_back {p : Param} (hvalid : p.Valid) (hs : Spelled p.pieces ts rest)
    (hrest : headKind rest = .symbol .comma ∨ headKind rest = .symbol .rParen) :
    Reads (param ts) p rest := by
  obtain ⟨mid, htype, hname⟩ := spelled_append.mp hs
  refine reads_param.mpr ⟨p.type, mid, reads_typeSpec_back hvalid.type htype, ?_⟩
  have hunnamed := hvalid.unnamed
  have hsize := hvalid.arraySize
  obtain ⟨type, name, size⟩ := p
  cases name with
  | none =>
      rw [spelled_nil.mp hname]
      refine .inr ⟨?_, rfl, ?_⟩
      · obtain h | h := hrest <;> simp [h]
      · rw [show size = none from hunnamed rfl]
  | some name =>
      obtain ⟨t, after, rfl, ht, harray⟩ := spelled_cons.mp hname
      refine .inl ⟨t, after, size, rfl, kind_of_piece ht, reads_arraySize_back hsize harray ?_, ?_⟩
      · obtain h | h := hrest <;> simp [h]
      · rw [lexeme_of_piece ht]
        rfl

theorem reads_paramsMore_back {ps : List Param} (hvalid : ∀ p ∈ ps, p.Valid)
    (ht : t.kind = .symbol .rParen)
    (hs : Spelled ((ps.map Param.pieces).flatMap (Symbol.comma.piece :: ·)) ts (t :: rest)) :
    Reads (paramsMore ts) ps rest := by
  induction ps generalizing ts with
  | nil =>
      rw [spelled_nil.mp hs]
      exact (reads_paramsMore_stop (by simp [ht])).mpr ⟨ht, rfl, rfl⟩
  | cons p ps ih =>
      simp only [List.map_cons, List.flatMap_cons, List.cons_append, spelled_cons,
        spelled_append] at hs
      obtain ⟨comma, after, rfl, hcomma, mid, hp, hmore⟩ := hs
      exact (reads_paramsMore_comma (kind_of_piece hcomma)).mpr ⟨p, mid, ps,
        reads_param_back (hvalid p List.mem_cons_self) hp
          ((headKind_commas hmore).imp_right fun h => h.trans ht),
        ih (fun p hp => hvalid p (List.mem_cons_of_mem _ hp)) hmore, rfl⟩

theorem reads_params_back {ps : List Param} (hvalid : ∀ p ∈ ps, p.Valid)
    (ht : t.kind = .symbol .rParen)
    (hs : Spelled (commaPieces (ps.map Param.pieces)) ts (t :: rest)) :
    Reads (params ts) ps rest := by
  cases ps with
  | nil =>
      rw [spelled_nil.mp hs]
      exact (reads_params_nil ht).mpr ⟨rfl, rfl⟩
  | cons p ps =>
      rw [List.map_cons, commaPieces_cons] at hs
      obtain ⟨mid, hp, hmore⟩ := spelled_append.mp hs
      have hhead : headKind ts ≠ .symbol .rParen := by
        obtain ⟨_, htype, -⟩ := spelled_append.mp hp
        intro hkind
        have hstarts := headKind_type htype
        rw [hkind] at hstarts
        obtain h | h := hstarts <;> cases h
      exact (reads_params_cons hhead).mpr ⟨p, mid, ps,
        reads_param_back (hvalid p List.mem_cons_self) hp
          ((headKind_commas hmore).imp_right fun h => h.trans ht),
        reads_paramsMore_back (fun p hp => hvalid p (List.mem_cons_of_mem _ hp)) ht hmore, rfl⟩

theorem reads_functionBody_back {body : Option (Stmt Unit Unit)}
    (hblock : ∀ s ∈ body, s.isBlock = true)
    (hvalid : ∀ s ∈ body, s.Valid (Expr.Valid Literal.IsGenuine))
    (hs : Spelled (bodyPieces body) ts rest) :
    Reads (functionBody ts) (body.map Stmt.explicit) rest := by
  cases body with
  | none =>
      obtain ⟨t, after, rfl, ht, hafter⟩ := spelled_cons.mp hs
      rw [spelled_nil.mp hafter]
      exact reads_functionBody.mpr (.inl ⟨t, rfl, kind_of_piece ht, rfl⟩)
  | some s =>
      refine reads_functionBody.mpr (.inr ⟨s.explicit, ?_, rfl⟩)
      have hread := stmtBack (hvalid s rfl) ts rest hs
      obtain ⟨⟨⟩, form⟩ := s
      cases form with
      | block body =>
          obtain ⟨t, after, rfl, ht, -⟩ := spelled_cons.mp hs
          obtain ⟨body', hbody, heq⟩ := (reads_statement_block (kind_of_piece ht)).mp
            (hread fun hopen => nomatch hopen)
          exact reads_block.mpr ⟨t, after, body', rfl, kind_of_piece ht, hbody, heq⟩
      | _ => cases hblock _ rfl

/-! ## Structures -/

theorem reads_structFields_back {fields : List FieldDecl} (hvalid : ∀ f ∈ fields, f.Valid)
    (ht : t.kind = .symbol .rBrace) (hs : Spelled (fields.flatMap FieldDecl.pieces) ts (t :: rest)) :
    Reads (structFields ts) fields rest := by
  induction fields generalizing ts with
  | nil =>
      rw [spelled_nil.mp hs]
      exact (reads_structFields_nil ht).mpr ⟨rfl, rfl⟩
  | cons field fields ih =>
      rw [List.flatMap_cons, spelled_append] at hs
      obtain ⟨mid, hfield, hmore⟩ := hs
      simp only [FieldDecl.pieces, spelled_append, spelled_cons, spelled_nil] at hfield
      obtain ⟨_, htype, name, after, rfl, hname, _, harray, semicolon, _, rfl, hsemicolon, rfl⟩ :=
        hfield
      have hkind : semicolon.kind = .symbol .semicolon := kind_of_piece hsemicolon
      have hfieldValid := hvalid field List.mem_cons_self
      have hstarts := headKind_type htype
      have hhead : headKind ts ≠ .symbol .rBrace := by
        intro hkind
        rw [hkind] at hstarts
        obtain h | h := hstarts <;> cases h
      have hne : ts ≠ [] := by
        rintro rfl
        obtain h | h := hstarts <;> cases h
      refine (reads_structFields_cons hhead hne).mpr ⟨field.type, name, after, field.arraySize,
        _, [], _, fields, reads_typeSpec_back hfieldValid.type htype, kind_of_piece hname,
        reads_arraySize_back hfieldValid.arraySize harray ?_,
        (reads_fieldsMore_stop (by simp [hkind])).mpr ⟨hkind, rfl, rfl⟩,
        ih (fun f hf => hvalid f (List.mem_cons_of_mem _ hf)) hmore, ?_⟩
      · simp [headKind_cons, hkind]
      · rw [lexeme_of_piece hname]
        rfl

/-! ## Declarations -/

theorem precision?_eq {level : Precision} (ht : t.piece = level.keyword.piece) :
    precision? t = some level := by
  have hkind : t.kind = .keyword level.keyword := kind_of_piece ht
  rw [precision?, hkind]
  cases level <;> rfl

theorem readsTop_type {type : TypeSpec} {d : DeclTree Unit Unit} (hvalid : type.Valid)
    (htype : Spelled type.pieces ts (t :: mid)) (ht : t.kind = .identifier)
    (h : Reads (functionOrVars type t.lexeme mid) d rest) : ReadsTop ts (some d) rest := by
  have hstarts := headKind_type htype
  cases ts with
  | nil => obtain h | h := hstarts <;> cases h
  | cons t' after => exact .typed hstarts (reads_typeSpec_back hvalid htype) ht h

/-- A declaration is read back. -/
theorem readsTop_back {d : DeclTree Unit Unit}
    (hvalid : DeclTree.Valid (Expr.Valid Literal.IsGenuine) d)
    (hs : Spelled (DeclTree.pieces d) ts rest) : ReadsTop ts (some (DeclTree.explicit d)) rest := by
  obtain ⟨hform, hbodies, hinits⟩ := hvalid
  cases d with
  | directive text =>
      obtain ⟨t, after, rfl, ht, hafter⟩ := spelled_cons.mp hs
      rw [spelled_nil.mp hafter]
      have hread : ReadsTop (t :: rest) (some (.directive t.lexeme)) rest := .directive (kind_of_piece ht)
      rwa [lexeme_of_piece ht] at hread
  | precision level typeName =>
      simp only [DeclTree.pieces, spelled_cons, spelled_nil] at hs
      obtain ⟨t, _, rfl, ht, t₁, _, rfl, ht₁, t₂, _, rfl, ht₂, t₃, _, rfl, ht₃, rfl⟩ := hs
      refine .precision (kind_of_piece ht) (reads_precisionDecl.mpr ⟨t₁, t₂, t₃, level, rfl,
        precision?_eq ht₁, kind_of_piece ht₂, kind_of_piece ht₃, ?_⟩)
      rw [lexeme_of_piece ht₂]
      rfl
  | struct decl =>
      change Spelled decl.pieces ts rest at hs
      simp only [StructDecl.pieces, spelled_cons, spelled_append, spelled_nil] at hs
      obtain ⟨t, _, rfl, ht, t₁, _, rfl, ht₁, t₂, after, rfl, ht₂, _, hfields, t₃, _, rfl, ht₃, t₄, _,
        rfl, ht₄, rfl⟩ := hs
      refine .struct (kind_of_piece ht) (reads_structDecl.mpr ⟨t₁, t₂, after, decl.fields, t₄, rfl,
        kind_of_piece ht₁, kind_of_piece ht₂,
        reads_structFields_back hform.fields (kind_of_piece ht₃) hfields, kind_of_piece ht₄, ?_⟩)
      rw [lexeme_of_piece ht₁]
      rfl
  | function f =>
      obtain ⟨hnamed, hblock⟩ := hform
      change Spelled f.pieces ts rest at hs
      simp only [FunctionDecl.pieces, spelled_cons, spelled_append] at hs
      obtain ⟨_, htype, t, _, rfl, ht, t₁, after, rfl, ht₁, _, hparams, t₂, after', rfl, ht₂, hbody⟩ :=
        hs
      refine readsTop_type hnamed.returnType htype (kind_of_piece ht)
        ((reads_functionOrVars_function (kind_of_piece ht₁)).mpr ⟨f.params, after',
          f.body.map Stmt.explicit, reads_params_back hnamed.params (kind_of_piece ht₂) hparams,
          reads_functionBody_back hblock (fun s hs => hbodies s (Option.mem_toList.mpr hs)) hbody,
          ?_⟩)
      rw [lexeme_of_piece ht, hnamed.notVoid]
      rfl
  | vars v =>
      change Spelled (v.pieces ++ [Symbol.semicolon.piece]) ts rest at hs
      rw [VarDecl.pieces, List.append_assoc, spelled_append] at hs
      obtain ⟨mid, htype, hds⟩ := hs
      obtain ⟨t, after, rfl, ht, hdecl, hparen⟩ := reads_varDecl_back hform hinits hds
      exact readsTop_type hform.type htype ht ((reads_functionOrVars_vars hparen).mpr ⟨_, hdecl, rfl⟩)

theorem pieces_decl_ne_nil (d : DeclTree Unit Unit) : DeclTree.pieces d ≠ [] := by
  cases d <;> simp [DeclTree.pieces, StructDecl.pieces, FunctionDecl.pieces]

/-- A row of declarations is read back. -/
theorem declarations_back {ds : List (DeclTree Unit Unit)}
    (hvalid : ∀ d ∈ ds, DeclTree.Valid (Expr.Valid Literal.IsGenuine) d)
    (hs : Spelled (ds.flatMap DeclTree.pieces) ts []) :
    declarations ts = .ok (ds.map DeclTree.explicit) := by
  induction ds generalizing ts with
  | nil =>
      rw [spelled_nil.mp hs]
      exact declarations_nil
  | cons d ds ih =>
      rw [List.flatMap_cons, spelled_append] at hs
      obtain ⟨mid, hd, hmore⟩ := hs
      have hne : ts ≠ [] := by
        rintro rfl
        obtain ⟨used, hused, hpieces⟩ := hd
        obtain ⟨rfl, -⟩ := List.append_eq_nil_iff.mp hused.symm
        exact pieces_decl_ne_nil d hpieces.symm
      exact (declarations_eq_ok hne).mpr ⟨_, mid, _, readsTop_back (hvalid d List.mem_cons_self) hd,
        ih (fun d hd => hvalid d (List.mem_cons_of_mem _ hd)) hmore, rfl⟩

end Parser

/-- A text that is about the version. -/
def mentionsVersion (text : String) : Bool :=
  Text.occursIn "version".toList text.toList

/-- A program without a version starts with a directive that is about the version. -/
def Program.HidesVersion (p : Program) : Prop :=
  p.version = none ∧ ∃ text, p.decls.head? = some (.directive text) ∧ mentionsVersion text = true

instance (p : Program) : Decidable p.HidesVersion :=
  match hhead : p.decls.head? with
  | some (.directive text) =>
    decidable_of_iff (p.version = none ∧ mentionsVersion text = true) (by
      simp only [Program.HidesVersion, hhead, Option.some.injEq, Decl.directive.injEq,
        exists_eq_left'])
  | some (.precision ..) | some (.struct _) | some (.function _) | some (.vars _) | none =>
    isFalse fun h => by
      obtain ⟨-, text, heq, -⟩ := h
      rw [hhead] at heq
      cases heq

namespace Parser

theorem isVersionDirective_of_piece {t : Token} {text : String} (ht : t.piece = ⟨.directive, text⟩) :
    isVersionDirective t = mentionsVersion text := by
  rw [isVersionDirective, kind_of_piece ht, lexeme_of_piece ht, mentionsVersion]
  rfl

theorem mentionsVersion_directive (v : Version) : mentionsVersion v.directive = true := by
  rw [mentionsVersion, Version.toList_directive, Text.occursIn, Text.occursIn, Bool.or_eq_true,
    Bool.or_eq_true]
  exact .inr (.inl rfl)

/-- Only a directive starts with a directive. -/
theorem eq_directive_of_piece {d : DeclTree Unit Unit} (hs : Spelled (DeclTree.pieces d) (t :: ts) rest)
    (ht : t.kind = .directive) : d = .directive t.lexeme := by
  have htype : ∀ {type : TypeSpec} {mid : List Token}, ¬ Spelled type.pieces (t :: ts) mid := by
    intro type mid htype
    have hstarts := headKind_type htype
    rw [headKind_cons, ht] at hstarts
    obtain h | h := hstarts <;> cases h
  cases d with
  | directive text =>
      obtain ⟨t', after, heq, ht', -⟩ := spelled_cons.mp hs
      cases heq
      rw [lexeme_of_piece ht']
  | precision level typeName =>
      obtain ⟨t', after, heq, ht', -⟩ := spelled_cons.mp hs
      cases heq
      rw [kind_of_piece ht'] at ht
      cases ht
  | struct decl =>
      obtain ⟨t', after, heq, ht', -⟩ := spelled_cons.mp hs
      cases heq
      rw [kind_of_piece ht'] at ht
      cases ht
  | function f =>
      obtain ⟨mid, h, -⟩ := spelled_append.mp hs
      exact absurd h htype
  | vars v =>
      change Spelled (v.pieces ++ [Symbol.semicolon.piece]) (t :: ts) rest at hs
      rw [VarDecl.pieces, List.append_assoc, spelled_append] at hs
      obtain ⟨mid, h, -⟩ := hs
      exact absurd h htype

/-- A program is read back, unless its first declaration would be read as its version. -/
theorem program_back {p : Program} (hvalid : p.Valid (Expr.Valid Literal.IsGenuine))
    (hversion : ¬ p.HidesVersion) (hs : Spelled p.pieces ts []) : program ts = .ok p.explicit := by
  obtain ⟨version, ds⟩ := p
  cases version with
  | some v =>
      obtain ⟨t, after, rfl, ht, hds⟩ := spelled_cons.mp hs
      have hdirective : isVersionDirective t = true := by
        rw [isVersionDirective_of_piece ht, mentionsVersion_directive]
      rw [program, if_pos hdirective, lexeme_of_piece ht]
      dsimp only
      rw [Version.ofDirective?_directive (hvalid.version v rfl)]
      dsimp only
      rw [declarations_back hvalid.decls hds]
      rfl
  | none =>
      change Spelled (ds.flatMap DeclTree.pieces) ts [] at hs
      have hread := declarations_back hvalid.decls hs
      cases ds with
      | nil =>
          rw [spelled_nil.mp hs]
          rfl
      | cons d ds =>
          rw [List.flatMap_cons, spelled_append] at hs
          obtain ⟨mid, hd, hmore⟩ := hs
          cases ts with
          | nil =>
              rw [declarations_nil] at hread
              cases hread
          | cons t after =>
              have hplain : isVersionDirective t = false := by
                refine eq_false_of_ne_true fun hdirective => hversion ⟨rfl, t.lexeme, ?_⟩
                rw [isVersionDirective, Bool.and_eq_true, beq_iff_eq] at hdirective
                exact ⟨congrArg some (eq_directive_of_piece hd hdirective.1), hdirective.2⟩
              rw [program, if_neg (by rw [hplain]; exact Bool.false_ne_true), hread]
              rfl

/-- Where a directive is read as the version, it is lost as a declaration. -/
theorem program_hidden {p q : Program} (hvalid : p.Valid (Expr.Valid Literal.IsGenuine))
    (hversion : p.HidesVersion) (hs : Spelled p.pieces ts []) (h : program ts = .ok q) :
    ∃ text v ds, p = ⟨none, .directive text :: ds⟩ ∧ Version.ofDirective? text = some v ∧
      q = Program.explicit ⟨some v, ds⟩ := by
  obtain ⟨version, ds⟩ := p
  obtain ⟨rfl, text, hhead, hmentions⟩ := hversion
  obtain ⟨ds, rfl⟩ : ∃ ds', ds = .directive text :: ds' := List.head?_eq_some_iff.mp hhead
  obtain ⟨t, after, rfl, ht, hds⟩ := spelled_cons.mp hs
  have hdirective : isVersionDirective t = true := by
    rw [isVersionDirective_of_piece ht, hmentions]
  rw [program, if_pos hdirective, lexeme_of_piece ht] at h
  split at h
  next v hv =>
    rw [declarations_back (fun d hd => hvalid.decls d (List.mem_cons_of_mem _ hd)) hds] at h
    cases h
    exact ⟨text, v, ds, rfl, hv, rfl⟩
  next => cases h

end Parser

/-!
## Programs read back from their text

The text of a valid program stands for the program again, unless a member of decimal digits becomes
one number in it, or its first directive is taken for its version.
-/

namespace Parser

variable {ts : List Token}

/-- Some pieces as tokens, wherever they stand. -/
def tokensOf (ps : List Piece) : List Token :=
  ps.map fun p => ⟨p.kind, p.text, .between {} {}⟩

theorem map_piece_tokensOf (ps : List Piece) : (tokensOf ps).map Token.piece = ps := by
  rw [tokensOf, List.map_map]
  exact List.map_id ps

theorem spelled_of_pieces {ps : List Piece} (h : ts.map Token.piece = ps) : Spelled ps ts [] :=
  ⟨ts, (List.append_nil ts).symm, h⟩

/-- There are as many points in the pieces of a program as members in it. -/
theorem pointsIn_pieces {p : Program} (hvalid : p.Valid (Expr.Valid Literal.IsGenuine)) :
    pointsIn p.pieces = p.members := by
  have hgenuine : Genuine (tokensOf (p.decls.flatMap DeclTree.pieces)) := by
    intro t ht _
    obtain ⟨q, hq, rfl⟩ := List.mem_map.mp ht
    exact (printed_decls hvalid.decls).genuine q hq
  have hread := declarations_back hvalid.decls (spelled_of_pieces (map_piece_tokensOf _))
  have hcount := (sound_declarations hgenuine hread).2.count
  rw [points, map_piece_tokensOf, Nat.add_zero] at hcount
  have hexplicit : p.explicit.members = p.members :=
    Program.members_of_bare_eq p.bare_explicit
  rw [Program.pieces, pointsIn, List.countP_append]
  have hversion : (versionPieces p.version).countP (fun q => q.kind == .symbol .dot) = 0 := by
    cases p.version <;> rfl
  rw [hversion, Nat.zero_add]
  change pointsIn _ = _
  rw [hcount, ← hexplicit]
  exact Nat.zero_add _

end Parser

/-- The tokens of a text in which nothing is glued are the pieces it is written with. -/
theorem Printed.pieces_of_not {text : String} {ps : List Piece} {happens : Mishap → Prop}
    (h : Printed text.toList ps happens) (hglued : ¬ happens .glued) :
    (TokenStream.ofText text).tokens.map Token.piece = ps := by
  obtain ⟨found, hwritten, ⟨hyes, -⟩ | ⟨-, rfl⟩, -⟩ := h.exists_written
  · exact absurd hyes hglued
  · obtain ⟨hpieces, -⟩ | ⟨-, q, hq, hmalformed⟩ := hwritten.lists {}
    · exact hpieces
    · have := (h.genuine q hq).wellFormed
      rw [hmalformed] at this
      cases this

namespace Program

variable {p q : Program}

/-- The tokens of the text of a program without members of digits are its pieces. -/
theorem pieces_of_print (hvalid : p.Valid (Expr.Valid Literal.IsGenuine)) (hglues : ¬ p.Glues) :
    (TokenStream.ofText p.print).tokens.map Token.piece = p.pieces :=
  (isPrinted hvalid).pieces_of_not fun hsuffers => hglues (suffers_glued.mp hsuffers)

/-- The text of a program with a member of digits holds too few points. -/
theorem not_glues_of_parse (hvalid : p.Valid (Expr.Valid Literal.IsGenuine))
    (hq : parse p.print = .ok q) (hbare : q.bare = p.bare) : ¬ p.Glues := by
  intro hglues
  obtain ⟨-, hformed, hpoints⟩ := valid_of_parse hq
  obtain ⟨found, hwritten, ⟨-, hfew⟩ | ⟨hglued, -⟩, -⟩ := (isPrinted hvalid).exists_written
  · obtain ⟨hpieces, -⟩ | ⟨⟨t, ht, hmalformed⟩, -⟩ := hwritten.lists {}
    · have hfound : Parser.points (TokenStream.ofText p.print).tokens = pointsIn found :=
        congrArg pointsIn hpieces
      rw [Parser.pointsIn_pieces hvalid, ← members_of_bare_eq hbare, ← hpoints, hfound] at hfew
      exact Nat.lt_irrefl _ hfew
    · rw [hformed t ht] at hmalformed
      cases hmalformed
  · exact hglued (suffers_glued.mpr hglues)

/-- No number is malformed in the text of a program that is read back. -/
theorem not_suffers_of_parse (hvalid : p.Valid (Expr.Valid Literal.IsGenuine))
    (hq : parse p.print = .ok q) : ¬ p.Suffers .broken := by
  intro hbroken
  obtain ⟨-, hformed, -⟩ := valid_of_parse hq
  obtain ⟨found, hwritten, -, hfound⟩ := (isPrinted hvalid).exists_written
  obtain ⟨piece, hpiece, hmalformed⟩ := hfound hbroken
  obtain ⟨t, ht, hbad⟩ : ∃ t ∈ (TokenStream.ofText p.print).tokens, t.kind.isMalformed = true := by
    obtain ⟨hpieces, -⟩ | ⟨hbad, -⟩ := hwritten.lists {}
    · rw [← hpieces] at hpiece
      obtain ⟨t, ht, rfl⟩ := List.mem_map.mp hpiece
      exact ⟨t, ht, hmalformed⟩
    · exact hbad
  rw [hformed t ht] at hbad
  cases hbad

/-- The text of a valid program is read back as it is, with the parentheses that were printed. -/
theorem parse_print (hvalid : p.Valid (Expr.Valid Literal.IsGenuine)) (hglues : ¬ p.Glues)
    (hversion : ¬ p.HidesVersion) : parse p.print = .ok p.explicit := by
  rw [parse, Parser.program_back hvalid hversion
    (Parser.spelled_of_pieces (pieces_of_print hvalid hglues))]
  rfl

/-- Where the first directive is taken for the version, the program that is read is another. -/
theorem not_hidesVersion_of_parse (hvalid : p.Valid (Expr.Valid Literal.IsGenuine))
    (hq : parse p.print = .ok q) (hbare : q.bare = p.bare) : ¬ p.HidesVersion := by
  intro hversion
  have hspelled := Parser.spelled_of_pieces
    (pieces_of_print hvalid (not_glues_of_parse hvalid hq hbare))
  rw [parse] at hq
  cases hread : Parser.program (TokenStream.ofText p.print).tokens with
  | error failure =>
      rw [hread] at hq
      cases hq
  | ok q' =>
      rw [hread] at hq
      cases hq
      obtain ⟨text, v, ds, rfl, -, rfl⟩ := Parser.program_hidden hvalid hversion hspelled hread
      have hlength := congrArg (fun b => b.2.length) hbare
      simp [bare, explicit] at hlength

/-- The text of a valid program stands for a program that agrees with it if and only if there is no
member of digits in it and its first directive is not taken for its version. -/
theorem parse_print_iff (hvalid : p.Valid (Expr.Valid Literal.IsGenuine)) :
    (∃ q, parse p.print = .ok q ∧ q.bare = p.bare) ↔ ¬ p.Glues ∧ ¬ p.HidesVersion := by
  constructor
  · rintro ⟨q, hq, hbare⟩
    exact ⟨not_glues_of_parse hvalid hq hbare, not_hidesVersion_of_parse hvalid hq hbare⟩
  · rintro ⟨hglues, hversion⟩
    exact ⟨_, parse_print hvalid hglues hversion, p.bare_explicit⟩

/-- The first directive of a program is taken for its version, and as such it is printed in other
words. -/
def RewordsVersion (p : Program) : Prop :=
  p.HidesVersion ∧ ∃ text v, p.decls.head? = some (.directive text) ∧
    Version.ofDirective? text = some v ∧ v.directive ≠ text

theorem hidesVersion_fuse : p.fuse.HidesVersion ↔ p.HidesVersion :=
  and_congr_right fun _ => exists_congr fun _ => and_congr_left fun _ => head?_fuse

theorem rewordsVersion_fuse : p.fuse.RewordsVersion ↔ p.RewordsVersion :=
  and_congr hidesVersion_fuse <| exists_congr fun _ => exists_congr fun _ =>
    and_congr_left fun _ => head?_fuse

/-- A version prints as a directive of the same words. -/
theorem print_version_eq_iff {v : Version} {text : String} {ds : List (DeclTree Unit Unit)}
    (hv : v.Valid) (hvalid : Valid (Expr.Valid Literal.IsGenuine) ⟨none, .directive text :: ds⟩)
    (hglues : ¬ Glues ⟨none, .directive text :: ds⟩) :
    print ⟨some v, ds⟩ = print ⟨none, .directive text :: ds⟩ ↔ v.directive = text := by
  constructor
  · intro h
    have hvalid' : Valid (Expr.Valid Literal.IsGenuine) ⟨some v, ds⟩ :=
      ⟨fun _ heq => Option.some.inj heq ▸ hv, fun d hd => hvalid.decls d (List.mem_cons_of_mem _ hd)⟩
    have hglues' : ¬ Glues ⟨some v, ds⟩ := fun ⟨d, hd, hglued⟩ =>
      hglues ⟨d, List.mem_cons_of_mem _ hd, hglued⟩
    have hpieces := pieces_of_print hvalid' hglues'
    rw [h, pieces_of_print hvalid hglues] at hpieces
    exact (congrArg Piece.text (List.cons.inj hpieces).1).symm
  · rintro rfl
    have htext : print ⟨some v, ds⟩ =
        tidyLines (v.directive ++ declGap ++ declGap.intercalate (ds.map DeclTree.print)) := by
      rw [declGap, ← String.append_assoc]
      rfl
    have htoken := isToken_version v
    cases ds with
    | nil =>
        rw [htext, List.map_nil, String.intercalate_nil, String.append_empty, ← String.toList_inj,
          toList_tidyLines_line htoken]
        exact (toList_tidyLines_oneLine htoken.oneLine htoken.endsVisible).symm
    | cons d ds =>
        rw [htext]
        change _ = tidyLines (declGap.intercalate (v.directive :: DeclTree.print d :: _))
        rw [String.intercalate_cons_cons]
        rfl

/-- What the text of a program is read as prints as the same text, unless a directive is taken for the
version and printed in other words. -/
theorem print_of_parse_iff (hvalid : p.Valid (Expr.Valid Literal.IsGenuine))
    (hq : parse p.print = .ok q) : q.print = p.print ↔ ¬ p.RewordsVersion := by
  have hfused := valid_fuse hvalid (not_suffers_of_parse hvalid hq)
  have hglues := p.not_glues_fuse
  rw [← p.print_fuse] at hq ⊢
  rw [← rewordsVersion_fuse]
  generalize p.fuse = p at hq hfused hglues
  by_cases hversion : p.HidesVersion
  · rw [parse] at hq
    cases hread : Parser.program (TokenStream.ofText p.print).tokens with
    | error failure =>
        rw [hread] at hq
        cases hq
    | ok q' =>
        rw [hread] at hq
        cases hq
        obtain ⟨text, v, ds, rfl, hv, rfl⟩ := Parser.program_hidden hfused hversion
          (Parser.spelled_of_pieces (pieces_of_print hfused hglues)) hread
        rw [print_explicit, print_version_eq_iff (Parser.ofDirective?_lt hv) hfused hglues]
        constructor
        · rintro heq ⟨-, text', v', hhead, hv', hne⟩
          cases hhead
          rw [hv] at hv'
          cases hv'
          exact hne heq
        · exact fun h => by_contra fun hne => h ⟨hversion, text, v, rfl, hv, hne⟩
  · rw [parse_print hfused hglues hversion] at hq
    cases hq
    exact iff_of_true p.print_explicit fun h => hversion h.1

end Program

end ShaderReducer
