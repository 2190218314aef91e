import ShaderReducer.Proofs.Parser.Reread
import ShaderReducer.Proofs.Text.Number

/-!
# Statements are read back

Types, variables and statements are read back from their pieces, with the parentheses that the
printer adds to expressions. A statement that an `else` would be read as part of must not stand in
front of one.
-/

namespace ShaderReducer

namespace Parser

variable {t : Token} {ts mid rest : List Token}

/-! ## Types -/

theorem reads_arraySize_back {size : Option Nat} (hsize : IsArraySize size)
    (hs : Spelled (arraySizePieces size) ts rest) (hrest : headKind rest ≠ .symbol .lBracket) :
    Reads (arraySize ts) size rest := by
  cases size with
  | none =>
      rw [spelled_nil.mp hs]
      exact (reads_arraySize_stop hrest).mpr ⟨rfl, rfl⟩
  | some n =>
      simp only [arraySizePieces, spelled_cons, spelled_nil] at hs
      obtain ⟨t, _, rfl, ht, t', _, rfl, ht', t'', _, rfl, ht'', rfl⟩ := hs
      refine (reads_arraySize_some (kind_of_piece ht)).mpr
        ⟨t', n, t'', rfl, .inl (kind_of_piece ht'), ?_, kind_of_piece ht'', rfl⟩
      rw [lexeme_of_piece ht']
      exact integerValue?_toString (hsize n rfl)

theorem reads_layoutValue_back {item : LayoutItem} (hvalid : item.Valid)
    (hs : Spelled item.pieces ts rest) (hrest : headKind rest ≠ .symbol .eq) :
    ∃ t after, ts = t :: after ∧ t.kind = .identifier ∧ t.lexeme = item.key ∧
      Reads (layoutValue after) item.value rest := by
  obtain ⟨key, value⟩ := item
  obtain ⟨t, after, rfl, ht, hvalue⟩ := spelled_cons.mp hs
  refine ⟨t, after, rfl, kind_of_piece ht, lexeme_of_piece ht, ?_⟩
  cases value with
  | none =>
      rw [spelled_nil.mp hvalue]
      exact (reads_layoutValue_stop hrest).mpr ⟨rfl, rfl⟩
  | some value =>
      simp only [spelled_cons, spelled_nil] at hvalue
      obtain ⟨t₁, _, rfl, ht₁, t₂, _, rfl, ht₂, rfl⟩ := hvalue
      obtain ⟨kind, hkind, htoken⟩ := hvalid.2 value rfl
      refine (reads_layoutValue_eq (kind_of_piece ht₁)).mpr ⟨t₂, rfl, ?_, ?_⟩
      · rw [kind_of_piece ht₂, textPiece, htoken.kindOf_eq]
        simpa using hkind
      · rw [lexeme_of_piece ht₂]
        rfl

theorem reads_layoutItems_back {items : List LayoutItem} (hne : items ≠ [])
    (hvalid : ∀ item ∈ items, item.Valid) (ht : t.kind = .symbol .rParen)
    (hs : Spelled (commaPieces (items.map LayoutItem.pieces)) ts (t :: rest)) :
    Reads (layoutItems ts) items rest := by
  induction items generalizing ts with
  | nil => exact absurd rfl hne
  | cons item items ih =>
      rw [List.map_cons, commaPieces_cons] at hs
      obtain ⟨mid, hitem, hmore⟩ := spelled_append.mp hs
      have hmid : headKind mid ≠ .symbol .eq := by
        obtain h | h := headKind_commas hmore
        · simp [h]
        · simp [h, ht]
      obtain ⟨t', after, rfl, hkind, hkey, hvalue⟩ :=
        reads_layoutValue_back (hvalid item List.mem_cons_self) hitem hmid
      refine reads_layoutItems.mpr ⟨t', after, item.value, mid, rfl, hkind, hvalue, ?_⟩
      rw [hkey]
      cases items with
      | nil =>
          rw [spelled_nil.mp hmore]
          exact .inr ⟨t, rfl, ht, rfl⟩
      | cons item' items =>
          rw [List.map_cons, List.flatMap_cons, List.cons_append] at hmore
          obtain ⟨comma, mid', rfl, hcomma, hmore⟩ := spelled_cons.mp hmore
          refine .inl ⟨comma, mid', item' :: items, rfl, kind_of_piece hcomma,
            ih (List.cons_ne_nil _ _) (fun i hi => hvalid i (List.mem_cons_of_mem _ hi)) ?_, rfl⟩
          rw [List.map_cons, commaPieces_cons]
          exact hmore

theorem plainQualifier?_keyword {q : Qualifier} (h : ∀ items, q ≠ .layout items) :
    plainQualifier? q.keyword = some q := by
  cases q with
  | layout items => exact absurd rfl (h items)
  | precision level => cases level <;> rfl
  | _ => rfl

theorem reads_qualifiers_back {qs : List Qualifier} (hvalid : ∀ q ∈ qs, q.Valid)
    (hs : Spelled (qs.flatMap Qualifier.pieces) ts rest)
    (hrest : (headKind rest).isQualifier = false) : Reads (qualifiers ts) qs rest := by
  induction qs generalizing ts with
  | nil =>
      rw [spelled_nil.mp hs]
      exact (reads_qualifiers_stop hrest).mpr ⟨rfl, rfl⟩
  | cons q qs ih =>
      rw [List.flatMap_cons, spelled_append] at hs
      obtain ⟨mid, hq, hmore⟩ := hs
      have hrestReads := ih (fun q hq => hvalid q (List.mem_cons_of_mem _ hq)) hmore
      by_cases hlayout : ∃ items, q = .layout items
      · obtain ⟨items, rfl⟩ := hlayout
        simp only [Qualifier.pieces, spelled_cons, spelled_append, spelled_nil] at hq
        obtain ⟨t, _, rfl, ht, t', after, rfl, ht', _, hitems, t'', _, rfl, ht'', rfl⟩ := hq
        obtain ⟨hne, hitemsValid⟩ : items ≠ [] ∧ _ := hvalid _ List.mem_cons_self
        exact (reads_qualifiers_layout (kind_of_piece ht)).mpr ⟨t', after, items, _, qs, rfl,
          kind_of_piece ht', reads_layoutItems_back hne hitemsValid (kind_of_piece ht'') hitems,
          hrestReads, rfl⟩
      · have hplain : ∀ items, q ≠ .layout items := fun items h => hlayout ⟨items, h⟩
        have hpieces : q.pieces = [q.keyword.piece] := by
          cases q with
          | layout items => exact absurd rfl (hplain items)
          | _ => rfl
        rw [hpieces] at hq
        obtain ⟨t, after, rfl, ht, hafter⟩ := spelled_cons.mp hq
        rw [spelled_nil.mp hafter]
        exact (reads_qualifiers_plain (kind_of_piece ht) (plainQualifier?_keyword hplain)).mpr
          ⟨qs, hrestReads, rfl⟩

theorem reads_typeSpec_back {type : TypeSpec} (hvalid : type.Valid)
    (hs : Spelled type.pieces ts rest) : Reads (typeSpec ts) type rest := by
  obtain ⟨mid, hqs, hname⟩ := spelled_append.mp hs
  obtain ⟨t, after, rfl, ht, hafter⟩ := spelled_cons.mp hname
  rw [spelled_nil.mp hafter] at hqs
  have hkind : t.kind = .identifier := kind_of_piece ht
  refine reads_typeSpec.mpr ⟨type.qualifiers, t, ?_, hkind, ?_⟩
  · refine reads_qualifiers_back hvalid.qualifiers hqs ?_
    rw [headKind_cons, hkind]
    rfl
  · rw [lexeme_of_piece ht]
    rfl

/-- A type starts with a qualifier or with a name. -/
theorem headKind_type {type : TypeSpec} (hs : Spelled type.pieces ts rest) :
    headKind ts = .identifier ∨ (headKind ts).isQualifier = true := by
  obtain ⟨qs, name⟩ := type
  cases qs with
  | nil =>
      obtain ⟨t, after, rfl, ht, -⟩ := spelled_cons.mp hs
      exact .inl (kind_of_piece ht)
  | cons q qs =>
      obtain ⟨t, after, rfl, ht, -⟩ := spelled_cons.mp hs
      refine .inr ?_
      rw [headKind_cons, kind_of_piece ht]
      cases q with
      | precision level => cases level <;> rfl
      | _ => rfl

/-- A type and a name after it start a declaration. -/
theorem startsDeclaration_type {type : TypeSpec} (hs : Spelled type.pieces ts rest)
    (hrest : headKind rest = .identifier) : startsDeclaration ts = true := by
  obtain ⟨qs, name⟩ := type
  cases qs with
  | nil =>
      obtain ⟨t, after, rfl, ht, hafter⟩ := spelled_cons.mp hs
      rw [startsDeclaration, spelled_nil.mp hafter, hrest, kind_of_piece ht]
      rfl
  | cons q qs =>
      obtain ⟨t, after, rfl, ht, -⟩ := spelled_cons.mp hs
      have hqualifier : t.kind.isQualifier = true := by
        rw [kind_of_piece ht]
        cases q with
        | precision level => cases level <;> rfl
        | _ => rfl
      rw [startsDeclaration, hqualifier]
      rfl

/-! ## Variables -/

theorem reads_assignment_back {e : Expr Unit} (hvalid : e.Valid Literal.IsGenuine)
    (hs : Spelled (e.piecesAt Precedence.assignment) ts rest)
    (hrest : strength (headKind rest) < Precedence.assignment) :
    Reads (assignment ts) (e.explicit Precedence.assignment) rest :=
  (rereads_explicit hvalid).assignment (Expr.le_precedence_explicit (by decide) e) ts rest hs hrest

theorem reads_expression_back {e : Expr Unit} (hvalid : e.Valid Literal.IsGenuine)
    (hs : Spelled (e.piecesAt 0) ts rest) (hrest : strength (headKind rest) < Precedence.comma) :
    Reads (expression ts) (e.explicit 0) rest :=
  (rereads_explicit hvalid).reads_expression hs hrest

/-- Whether a token may stand after a declarator. -/
def endsDeclarator (kind : TokenKind) : Prop :=
  kind = .symbol .comma ∨ kind = .symbol .semicolon

theorem reads_declarator_back {d : Declarator (Expr Unit)} (hsize : IsArraySize d.arraySize)
    (hinit : ∀ e ∈ d.init, e.Valid Literal.IsGenuine) (hs : Spelled d.morePieces ts rest)
    (hrest : endsDeclarator (headKind rest)) :
    Reads (declarator d.name ts) (d.map (Expr.explicit Precedence.assignment)) rest := by
  obtain ⟨mid, harray, hmore⟩ := spelled_append.mp hs
  refine reads_declarator.mpr ⟨d.arraySize, mid, d.init.map (Expr.explicit Precedence.assignment), ?_, ?_, rfl⟩
  · refine reads_arraySize_back hsize harray ?_
    cases hd : d.init with
    | none =>
        rw [hd] at hmore
        rw [spelled_nil.mp hmore]
        obtain h | h := hrest <;> simp [h]
    | some e =>
        rw [hd] at hmore
        obtain ⟨t, after, rfl, ht, -⟩ := spelled_cons.mp hmore
        simp [headKind_cons, kind_of_piece ht, Symbol.piece]
  · cases hd : d.init with
    | none =>
        rw [hd] at hmore
        rw [spelled_nil.mp hmore]
        refine (reads_initializer_stop ?_).mpr ⟨rfl, rfl⟩
        obtain h | h := hrest <;> simp [h]
    | some e =>
        rw [hd] at hmore
        obtain ⟨t, after, rfl, ht, he⟩ := spelled_cons.mp hmore
        refine (reads_initializer_eq (kind_of_piece ht)).mpr ⟨e.explicit Precedence.assignment, ?_, rfl⟩
        refine reads_assignment_back (hinit e hd) he ?_
        obtain h | h := hrest
        all_goals
          rw [h]
          decide

theorem reads_declaratorsMore_back {ds : List (Declarator (Expr Unit))}
    (hnamed : ∀ d ∈ ds, d.Named) (hinits : ∀ d ∈ ds, ∀ e ∈ d.init, e.Valid Literal.IsGenuine)
    (ht : t.kind = .symbol .semicolon)
    (hs : Spelled ((ds.map Declarator.pieces).flatMap (Symbol.comma.piece :: ·)) ts (t :: rest)) :
    Reads (declaratorsMore ts) (ds.map (Declarator.map (Expr.explicit Precedence.assignment))) rest := by
  induction ds generalizing ts with
  | nil =>
      rw [spelled_nil.mp hs]
      exact (reads_declaratorsMore_stop (by simp [ht])).mpr ⟨ht, rfl, rfl⟩
  | cons d ds ih =>
      simp only [List.map_cons, List.flatMap_cons, List.cons_append, spelled_cons, spelled_append,
        Declarator.pieces] at hs
      obtain ⟨comma, _, rfl, hcomma, name, after, rfl, hname, mid, hd, hmore⟩ := hs
      refine (reads_declaratorsMore_comma (kind_of_piece hcomma)).mpr ⟨name, after,
        d.map (Expr.explicit Precedence.assignment), mid, _, rfl, kind_of_piece hname, ?_,
        ih (fun d hd => hnamed d (List.mem_cons_of_mem _ hd))
          (fun d hd => hinits d (List.mem_cons_of_mem _ hd)) hmore, rfl⟩
      rw [lexeme_of_piece hname]
      refine reads_declarator_back (hnamed d List.mem_cons_self).arraySize
        (hinits d List.mem_cons_self) hd ?_
      exact (headKind_commas hmore).imp_right fun h => h.trans ht

theorem mem_inits {ρ : Type} {v : VarDecl ρ} {d : Declarator ρ} (hd : d ∈ v.declarators) :
    ∀ e ∈ d.init, e ∈ v.inits := fun _ he => List.mem_filterMap.mpr ⟨d, hd, he⟩

/-- What follows the type of a declaration of variables is its first name and the rest of it. -/
theorem reads_varDecl_back {v : VarDecl (Expr Unit)} (hnamed : v.Named)
    (hinits : ∀ e ∈ v.inits, e.Valid Literal.IsGenuine)
    (hs : Spelled (commaPieces (v.declarators.map Declarator.pieces) ++ [Symbol.semicolon.piece]) ts
      rest) : ∃ t after, ts = t :: after ∧ t.kind = .identifier ∧
        Reads (varDecl v.type t.lexeme after) (v.map (Expr.explicit Precedence.assignment)) rest ∧
        headKind after ≠ .symbol .lParen := by
  obtain ⟨type, ds⟩ := v
  obtain ⟨d, ds, rfl⟩ := List.exists_cons_of_ne_nil hnamed.nonempty
  simp only [List.map_cons, commaPieces_cons, Declarator.pieces, List.cons_append, spelled_cons,
    spelled_append, spelled_nil] at hs
  obtain ⟨t, after, rfl, ht, _, ⟨mid, hd, hmore⟩, semicolon, _, rfl, hsemicolon, rfl⟩ := hs
  have hmid : endsDeclarator (headKind mid) :=
    (headKind_commas hmore).imp_right fun h => h.trans (kind_of_piece hsemicolon)
  refine ⟨t, after, rfl, kind_of_piece ht, reads_varDecl.mpr ⟨d.map (Expr.explicit Precedence.assignment), mid,
    ds.map (Declarator.map (Expr.explicit Precedence.assignment)), ?_, ?_, rfl⟩, ?_⟩
  · rw [lexeme_of_piece ht]
    exact reads_declarator_back (hnamed.declarators d List.mem_cons_self).arraySize
      (fun e he => hinits e (mem_inits List.mem_cons_self e he)) hd hmid
  · exact reads_declaratorsMore_back (fun d hd => hnamed.declarators d (List.mem_cons_of_mem _ hd))
      (fun d hd e he => hinits e (mem_inits (List.mem_cons_of_mem _ hd) e he))
      (kind_of_piece hsemicolon) hmore
  · rw [Declarator.morePieces, spelled_append] at hd
    obtain ⟨mid', harray, hinit⟩ := hd
    cases hsize : d.arraySize with
    | some n =>
        rw [hsize] at harray
        obtain ⟨t', _, rfl, ht', -⟩ := spelled_cons.mp harray
        simp [headKind_cons, kind_of_piece ht', Symbol.piece]
    | none =>
        rw [hsize] at harray
        rw [spelled_nil.mp harray]
        cases hd : d.init with
        | some e =>
            rw [hd] at hinit
            obtain ⟨t', _, rfl, ht', -⟩ := spelled_cons.mp hinit
            simp [headKind_cons, kind_of_piece ht', Symbol.piece]
        | none =>
            rw [hd] at hinit
            rw [spelled_nil.mp hinit]
            obtain h | h := hmid <;> simp [h]

/-! ## Statements -/

theorem reads_condition_back {cond : Expr Unit} (hvalid : cond.Valid Literal.IsGenuine)
    (hs : Spelled (Stmt.conditionPieces cond) ts rest) :
    Reads (condition ts) (cond.explicit 0) rest := by
  simp only [Stmt.conditionPieces, spelled_cons, spelled_append, spelled_nil] at hs
  obtain ⟨t, after, rfl, ht, _, hcond, t', _, rfl, ht', rfl⟩ := hs
  refine reads_condition.mpr ⟨t, after, t', rfl, kind_of_piece ht,
    reads_expression_back hvalid hcond ?_, kind_of_piece ht'⟩
  rw [headKind_cons, kind_of_piece ht']
  decide

theorem reads_expressionUnless_back {sign : Symbol} {value : Option (Expr Unit)}
    (hvalid : ∀ e ∈ value, e.Valid Literal.IsGenuine) (hs : Spelled (Stmt.optionPieces value) ts rest)
    (hrest : headKind rest = .symbol sign) (hsign : startsExpression (.symbol sign) = false)
    (hstrength : strength (.symbol sign) < Precedence.comma) :
    Reads (expressionUnless sign ts) (value.map (Expr.explicit 0)) rest := by
  cases value with
  | none =>
      rw [spelled_nil.mp hs]
      exact (reads_expressionUnless_none hrest).mpr ⟨rfl, rfl⟩
  | some e =>
      have hopens := (rereads_explicit (hvalid e rfl)).opens.head hs
      refine (reads_expressionUnless_some (headKind_ne hopens.1 hsign)).mpr
        ⟨e.explicit 0, reads_expression_back (hvalid e rfl) hs ?_, rfl⟩
      rwa [hrest]

theorem startsOtherStatement_of_startsExpression {kind : TokenKind}
    (h : startsExpression kind = true) : startsOtherStatement kind = false := by
  cases kind with
  | symbol sign => cases sign <;> first | rfl | cases h
  | keyword word => cases word <;> first | rfl | cases h
  | _ => rfl

theorem startsOtherStatement_of_isQualifier {kind : TokenKind} (h : kind.isQualifier = true) :
    startsOtherStatement kind = false := by
  cases kind with
  | keyword word => cases word <;> first | rfl | cases h
  | _ => cases h

/-- A declaration or an expression is read as one. -/
theorem reads_declarationOrExpression_back {s : Stmt Unit Unit} (hstart : s.form.isStart = true)
    (hvalid : s.Valid (Expr.Valid Literal.IsGenuine)) (hne : s.form ≠ .empty)
    (hs : Spelled s.pieces ts rest) : Reads (declarationOrExpression ts) s.explicit rest ∧
      startsOtherStatement (headKind ts) = false := by
  obtain ⟨⟨⟩, form⟩ := s
  obtain ⟨hform, hexprs⟩ := hvalid.form
  cases form with
  | vars v =>
      change Spelled (v.pieces ++ [Symbol.semicolon.piece]) ts rest at hs
      rw [VarDecl.pieces, List.append_assoc, spelled_append] at hs
      obtain ⟨mid, htype, hds⟩ := hs
      obtain ⟨t, after, rfl, ht, hdecl, -⟩ := reads_varDecl_back hform hexprs hds
      constructor
      · exact (reads_declarationOrExpression_vars (startsDeclaration_type htype ht)).mpr ⟨_,
          reads_declaration.mpr ⟨v.type, t, after, reads_typeSpec_back hform.type htype, ht, hdecl⟩,
          rfl⟩
      · obtain h | h := headKind_type htype
        · rw [h]
          rfl
        · exact startsOtherStatement_of_isQualifier h
  | expr e =>
      obtain ⟨mid, he, hsemicolon⟩ := spelled_append.mp hs
      obtain ⟨t, after, rfl, ht, hafter⟩ := spelled_cons.mp hsemicolon
      obtain rfl := spelled_nil.mp hafter
      have hkind : headKind (t :: after) = .symbol .semicolon := kind_of_piece ht
      have hvalid := hexprs e List.mem_cons_self
      obtain ⟨hplain, hstarts⟩ := (rereads_explicit hvalid).opens.notDeclaration he (by simp [hkind])
      refine ⟨?_, startsOtherStatement_of_startsExpression hstarts⟩
      exact (reads_declarationOrExpression_expr hplain).mpr (reads_expressionStatement.mpr ⟨_, t,
        reads_expression_back hvalid he (by rw [hkind]; decide), hkind, rfl⟩)
  | empty => exact absurd rfl hne
  | _ => cases hstart

/-- The first part of a loop is read back. -/
theorem reads_loopStart_back {s : Stmt Unit Unit} (hstart : s.form.isStart = true)
    (hvalid : s.Valid (Expr.Valid Literal.IsGenuine)) (hs : Spelled s.pieces ts rest) :
    Reads (loopStart ts) s.explicit rest := by
  by_cases hempty : s.form = .empty
  · obtain ⟨⟨⟩, form⟩ := s
    obtain rfl : form = .empty := hempty
    obtain ⟨t, after, rfl, ht, hafter⟩ := spelled_cons.mp hs
    obtain rfl := spelled_nil.mp hafter
    exact (reads_loopStart_empty (kind_of_piece ht)).mpr ⟨rfl, rfl⟩
  · obtain ⟨hreads, hother⟩ := reads_declarationOrExpression_back hstart hvalid hempty hs
    refine (reads_loopStart_other fun hkind => ?_).mpr hreads
    rw [hkind] at hother
    cases hother

/-- The rule for statements reads a statement. -/
def StmtBack (s : Stmt Unit Unit) : Prop :=
  ∀ ts rest, Spelled s.pieces ts rest →
    (s.isOpen = true → headKind rest ≠ .keyword .kwElse) → Reads (statement ts) s.explicit rest

/-- Whether a token may be the first of a statement. -/
def startsStatement (kind : TokenKind) : Bool :=
  startsOtherStatement kind || startsExpression kind || kind.isQualifier

theorem startsStatement_headKind {s : Stmt Unit Unit}
    (hvalid : s.Valid (Expr.Valid Literal.IsGenuine)) (hs : Spelled s.pieces ts rest) :
    startsStatement (headKind ts) = true := by
  obtain ⟨⟨⟩, form⟩ := s
  have hnode := hvalid.form
  have hword : ∀ {p : Piece} {ps : List Piece}, Spelled (p :: ps) ts rest →
      startsOtherStatement p.kind = true → startsStatement (headKind ts) = true := by
    intro p ps hps hp
    obtain ⟨t, after, rfl, rfl, -⟩ := spelled_cons.mp hps
    rw [startsStatement, headKind_cons, show startsOtherStatement t.kind = true from hp]
    rfl
  cases form with
  | vars v =>
      change Spelled (v.pieces ++ [Symbol.semicolon.piece]) ts rest at hs
      rw [VarDecl.pieces, List.append_assoc, spelled_append] at hs
      obtain ⟨mid, htype, -⟩ := hs
      obtain h | h := headKind_type htype
      · rw [h]
        rfl
      · rw [startsStatement, h, Bool.or_true]
  | expr e =>
      obtain ⟨mid, he, -⟩ := spelled_append.mp hs
      have h := ((rereads_explicit (hnode.2 e List.mem_cons_self)).opens.head he).1
      rw [startsStatement, h, Bool.or_true, Bool.true_or]
  | ifElse cond onTrue onFalse => cases onFalse <;> exact hword hs rfl
  | _ => exact hword hs rfl

theorem headKind_ne_else (h : startsStatement (headKind ts) = true) :
    headKind ts ≠ .keyword .kwElse := by
  intro hkind
  rw [hkind] at h
  cases h

theorem reads_blockBody_back {body : List (Stmt Unit Unit)} (hback : ∀ s ∈ body, StmtBack s)
    (hvalid : ∀ s ∈ body, s.Valid (Expr.Valid Literal.IsGenuine)) (ht : t.kind = .symbol .rBrace)
    (hs : Spelled (Stmt.piecesAll body) ts (t :: rest)) :
    Reads (blockBody ts) (body.map Stmt.explicit) rest := by
  induction body generalizing ts with
  | nil =>
      rw [spelled_nil.mp hs]
      exact (reads_blockBody_nil ht).mpr ⟨rfl, rfl⟩
  | cons s body ih =>
      obtain ⟨mid, hfirst, hmore⟩ := spelled_append.mp hs
      have hstarts := startsStatement_headKind (hvalid s List.mem_cons_self) hfirst
      have hhead : headKind ts ≠ .symbol .rBrace := by
        intro hkind
        rw [hkind] at hstarts
        cases hstarts
      have hne : ts ≠ [] := by
        rintro rfl
        cases hstarts
      have hmid : headKind mid ≠ .keyword .kwElse := by
        cases body with
        | nil =>
            rw [spelled_nil.mp hmore, headKind_cons, ht]
            simp
        | cons s' body =>
            obtain ⟨mid', hnext, -⟩ := spelled_append.mp hmore
            exact headKind_ne_else (startsStatement_headKind
              (hvalid s' (List.mem_cons_of_mem _ List.mem_cons_self)) hnext)
      exact (reads_blockBody_cons hhead hne).mpr ⟨s.explicit, mid, body.map Stmt.explicit,
        hback s List.mem_cons_self ts mid hfirst fun _ => hmid,
        ih (fun s hs => hback s (List.mem_cons_of_mem _ hs))
          (fun s hs => hvalid s (List.mem_cons_of_mem _ hs)) hmore, rfl⟩

/-- A statement is read back, unless an `else` behind it would be read as part of it. -/
theorem stmtBack {s : Stmt Unit Unit} (hvalid : s.Valid (Expr.Valid Literal.IsGenuine)) :
    StmtBack s := by
  induction s with
  | node tag form ih =>
      obtain ⟨hnode, hparts⟩ := Stmt.valid_node.mp hvalid
      have hback : ∀ s ∈ form.childStmts, StmtBack s := fun s hs => ih s hs (hparts s hs)
      intro ts rest hs hrest
      cases form with
      | block body =>
          simp only [Stmt.pieces, spelled_cons, spelled_append, spelled_nil] at hs
          obtain ⟨t, after, rfl, ht, _, hbody, t', _, rfl, ht', rfl⟩ := hs
          refine (reads_statement_block (kind_of_piece ht)).mpr ⟨body.map Stmt.explicit,
            reads_blockBody_back hback hparts (kind_of_piece ht') hbody, ?_⟩
          rw [Stmt.explicit, Stmt.mapExprs, Stmt.mapExprsAll_eq_map]
          rfl
      | vars v =>
          obtain ⟨hreads, hother⟩ := reads_declarationOrExpression_back rfl hvalid (by simp [Stmt.form]) hs
          exact (reads_statement_simple hother).mpr hreads
      | expr e =>
          obtain ⟨hreads, hother⟩ := reads_declarationOrExpression_back rfl hvalid (by simp [Stmt.form]) hs
          exact (reads_statement_simple hother).mpr hreads
      | ifElse cond onTrue onFalse =>
          have hcond := hnode.2 cond List.mem_cons_self
          cases onFalse with
          | none =>
              simp only [Stmt.pieces, spelled_cons, spelled_append] at hs
              obtain ⟨t, after, rfl, ht, mid, hscond, hsTrue⟩ := hs
              have helse : headKind rest ≠ .keyword .kwElse := hrest rfl
              exact (reads_statement_if (kind_of_piece ht)).mpr ⟨_, mid, _, rest, none,
                reads_condition_back hcond hscond,
                hback onTrue List.mem_cons_self mid rest hsTrue fun _ => helse,
                (reads_elseBranch_none helse).mpr ⟨rfl, rfl⟩, rfl⟩
          | some onFalse =>
              simp only [Stmt.pieces, spelled_cons, spelled_append] at hs
              obtain ⟨t, after, rfl, ht, mid, hscond, mid', hsTrue, t', after', rfl, ht', hsFalse⟩ :=
                hs
              have hclosed : onTrue.isOpen = false := hnode.1
              refine (reads_statement_if (kind_of_piece ht)).mpr ⟨_, mid, _, _,
                some onFalse.explicit, reads_condition_back hcond hscond,
                hback onTrue List.mem_cons_self mid _ hsTrue fun hopen => ?_,
                (reads_elseBranch_some (kind_of_piece ht')).mpr ⟨onFalse.explicit, ?_, rfl⟩, rfl⟩
              · rw [hclosed] at hopen
                cases hopen
              · exact hback onFalse (by simp [StmtNode.childStmts]) after' rest hsFalse hrest
      | forLoop start cond step body =>
          simp only [Stmt.pieces, spelled_cons, spelled_append] at hs
          obtain ⟨t, _, rfl, ht, t₁, mid₁, rfl, ht₁, mid₂, hstart, _, hcond, t₂, mid₃, rfl, ht₂, _,
            hstep, t₃, mid₄, rfl, ht₃, hbody⟩ := hs
          refine (reads_statement_for (kind_of_piece ht)).mpr ⟨t₁, mid₁, start.explicit, mid₂,
            cond.map (Expr.explicit 0), t₂, mid₃, step.map (Expr.explicit 0), t₃, mid₄, body.explicit,
            rfl, kind_of_piece ht₁,
            reads_loopStart_back hnode.1 (hparts start List.mem_cons_self) hstart, ?_,
            kind_of_piece ht₂, ?_, kind_of_piece ht₃,
            hback body (by simp [StmtNode.childStmts]) mid₄ rest hbody hrest, rfl⟩
          · exact reads_expressionUnless_back
              (fun e he => hnode.2 e (List.mem_append_left _ (Option.mem_toList.mpr he)))
              hcond (kind_of_piece ht₂) rfl (by decide)
          · exact reads_expressionUnless_back
              (fun e he => hnode.2 e (List.mem_append_right _ (Option.mem_toList.mpr he)))
              hstep (kind_of_piece ht₃) rfl (by decide)
      | whileLoop cond body =>
          simp only [Stmt.pieces, spelled_cons, spelled_append] at hs
          obtain ⟨t, after, rfl, ht, mid, hscond, hbody⟩ := hs
          exact (reads_statement_while (kind_of_piece ht)).mpr ⟨_, mid, body.explicit,
            reads_condition_back (hnode.2 cond List.mem_cons_self) hscond,
            hback body List.mem_cons_self mid rest hbody hrest, rfl⟩
      | doWhile body cond =>
          simp only [Stmt.pieces, spelled_cons, spelled_append, spelled_nil] at hs
          obtain ⟨t, after, rfl, ht, _, hbody, t₁, mid, rfl, ht₁, _, hscond, t₂, _, rfl, ht₂, rfl⟩ := hs
          refine (reads_statement_do (kind_of_piece ht)).mpr ⟨body.explicit, t₁, mid, _, t₂,
            hback body List.mem_cons_self after _ hbody fun _ => ?_, kind_of_piece ht₁,
            reads_condition_back (hnode.2 cond List.mem_cons_self) hscond, kind_of_piece ht₂, rfl⟩
          rw [headKind_cons, kind_of_piece ht₁]
          simp [Keyword.piece]
      | returns value =>
          simp only [Stmt.pieces, spelled_cons, spelled_append, spelled_nil] at hs
          obtain ⟨t, after, rfl, ht, _, hvalue, t', _, rfl, ht', rfl⟩ := hs
          refine (reads_statement_return (kind_of_piece ht)).mpr ⟨_, t', ?_, kind_of_piece ht', rfl⟩
          exact reads_expressionUnless_back (fun e he => hnode.2 e (Option.mem_toList.mpr he))
            hvalue (kind_of_piece ht') rfl (by decide)
      | breaks =>
          simp only [Stmt.pieces, spelled_cons, spelled_nil] at hs
          obtain ⟨t, _, rfl, ht, t', _, rfl, ht', rfl⟩ := hs
          exact (reads_statement_break (kind_of_piece ht)).mpr
            (reads_wordStatement.mpr ⟨t', rfl, kind_of_piece ht', rfl⟩)
      | continues =>
          simp only [Stmt.pieces, spelled_cons, spelled_nil] at hs
          obtain ⟨t, _, rfl, ht, t', _, rfl, ht', rfl⟩ := hs
          exact (reads_statement_continue (kind_of_piece ht)).mpr
            (reads_wordStatement.mpr ⟨t', rfl, kind_of_piece ht', rfl⟩)
      | discards =>
          simp only [Stmt.pieces, spelled_cons, spelled_nil] at hs
          obtain ⟨t, _, rfl, ht, t', _, rfl, ht', rfl⟩ := hs
          exact (reads_statement_discard (kind_of_piece ht)).mpr
            (reads_wordStatement.mpr ⟨t', rfl, kind_of_piece ht', rfl⟩)
      | empty =>
          obtain ⟨t, after, rfl, ht, hafter⟩ := spelled_cons.mp hs
          rw [spelled_nil.mp hafter]
          exact (reads_statement_empty (kind_of_piece ht)).mpr ⟨rfl, rfl⟩

end Parser

end ShaderReducer
