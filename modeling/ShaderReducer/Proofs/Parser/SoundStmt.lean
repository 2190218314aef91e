import ShaderReducer.Proofs.Parser.Sound
import ShaderReducer.Proofs.Text.Number

/-!
# What the rules of statements read is valid

As for expressions. That an `if` before an `else` takes no `else` away comes from the rule for the
branches: a statement that is still open is not followed by an `else`, for it would have read it.
-/

namespace ShaderReducer

namespace Parser

variable {t : Token} {ts mid rest after : List Token}

/-! ## Types and variables -/

/-- Tokens without members are passed, whatever was read before. -/
theorem Passes.any (h : Passes ts rest 0 0) (k : Nat) : Passes ts rest k k :=
  h.add k

theorem natural?_lt {base bits n : Nat} {cs : List Char} (h : Text.natural? base bits cs = some n) :
    n < 2 ^ bits := by
  simp only [Text.natural?] at h
  split at h
  · split at h
    · cases h
      assumption
    · cases h
  · cases h

theorem integerValue?_lt {lexeme : String} {n : Nat} (h : integerValue? lexeme = some n) :
    n < 2 ^ 32 := by
  simp only [integerValue?] at h
  split at h <;> exact natural?_lt h

theorem sound_arraySize {size : Option Nat} (h : Reads (arraySize ts) size rest) :
    IsArraySize size ∧ Passes ts rest 0 0 := by
  by_cases hopen : headKind ts = .symbol .lBracket
  · match ts with
    | [] => cases hopen
    | t :: after =>
      obtain ⟨t', n, t'', rfl, ht', hn, ht'', rfl⟩ := (reads_arraySize_some hopen).mp h
      refine ⟨fun m hm => ?_, ?_⟩
      · cases hm
        exact integerValue?_lt hn
      · have hclose := (Passes.refl rest 0).symbol ht'' (by simp)
        have hsize : Passes (t' :: t'' :: rest) rest 0 0 := by
          obtain ht' | ht' := ht' <;> exact hclose.cons (by rw [ht']; rfl) (by simp [ht'])
        exact hsize.symbol hopen (by simp)
  · obtain ⟨rfl, rfl⟩ := (reads_arraySize_stop hopen).mp h
    exact ⟨fun _ hn => (nomatch hn), .refl _ 0⟩

theorem sound_layoutValue {value : Option String} (hts : Genuine ts)
    (h : Reads (layoutValue ts) value rest) :
    (∀ v ∈ value, ∃ kind ∈ [TokenKind.intLiteral, .uintLiteral, .identifier],
      IsToken kind v.toList) ∧ Passes ts rest 0 0 := by
  by_cases heq : headKind ts = .symbol .eq
  · match ts, hts with
    | [], _ => cases heq
    | t :: after, hts =>
      obtain ⟨t', rfl, ht', rfl⟩ := (reads_layoutValue_eq heq).mp h
      have hvalue := hts.tail t' List.mem_cons_self
      have hplain : t'.kind.isMalformed = false ∧ t'.kind ≠ .symbol .dot := by
        obtain ht' | ht' | ht' := ht' <;> rw [ht'] <;> exact ⟨rfl, by simp⟩
      refine ⟨fun v hv => ?_, ((Passes.refl rest 0).cons hplain.1 hplain.2).symbol heq (by simp)⟩
      cases hv
      exact ⟨t'.kind, by simpa using ht', hvalue hplain.1⟩
  · obtain ⟨rfl, rfl⟩ := (reads_layoutValue_stop heq).mp h
    exact ⟨fun _ hv => (nomatch hv), .refl _ 0⟩

theorem sound_layoutItems {ts rest : List Token} {items : List LayoutItem} (hts : Genuine ts)
    (h : Reads (layoutItems ts) items rest) :
    (items ≠ [] ∧ ∀ item ∈ items, item.Valid) ∧ Passes ts rest 0 0 := by
  obtain ⟨t, after, value, mid, heq, ht, hvalue, hmore⟩ := reads_layoutItems.mp h
  have hlength : after.length < ts.length := heq ▸ tail_lt t after
  rw [heq] at hts ⊢
  obtain ⟨hvalid, hpasses⟩ := sound_layoutValue hts.tail hvalue
  have hitem : LayoutItem.Valid ⟨t.lexeme, value⟩ := ⟨hts.name ht, hvalid⟩
  obtain ⟨t', mid', more, rfl, ht', hitems, rfl⟩ | ⟨t', rfl, ht', rfl⟩ := hmore
  · have hlt := hvalue.lt
    rw [List.length_cons] at hlt
    obtain ⟨⟨-, hitems⟩, hpasses'⟩ :=
      sound_layoutItems (hts.tail.of_suffix hpasses.suffix).tail hitems
    exact ⟨⟨List.cons_ne_nil _ _, List.forall_mem_cons.mpr ⟨hitem, hitems⟩⟩,
      (hpasses.trans (hpasses'.symbol ht' (by simp))).name ht⟩
  · exact ⟨⟨List.cons_ne_nil _ _, List.forall_mem_singleton.mpr hitem⟩,
      (hpasses.trans ((Passes.refl rest 0).symbol ht' (by simp))).name ht⟩
termination_by ts.length
decreasing_by
  all_goals simp only [List.length_cons] at *
  all_goals omega

theorem valid_plainQualifier {word : Keyword} {q : Qualifier} (h : plainQualifier? word = some q) :
    q.Valid := by
  cases word <;> cases h <;> trivial

theorem sound_qualifiers {ts rest : List Token} {qs : List Qualifier} (hts : Genuine ts)
    (h : Reads (qualifiers ts) qs rest) : (∀ q ∈ qs, q.Valid) ∧ Passes ts rest 0 0 := by
  cases hqualifier : (headKind ts).isQualifier with
  | false =>
      obtain ⟨rfl, rfl⟩ := (reads_qualifiers_stop hqualifier).mp h
      exact ⟨fun _ hq => (nomatch hq), .refl _ 0⟩
  | true =>
      match ts, hts with
      | [], _ => cases hqualifier
      | t :: after, hts =>
        rw [headKind_cons] at hqualifier
        match hkind : t.kind with
        | .keyword word =>
          rw [hkind, TokenKind.isQualifier, isQualifier_eq, Bool.or_eq_true, beq_iff_eq,
            Option.isSome_iff_exists] at hqualifier
          obtain rfl | ⟨q, hq⟩ := hqualifier
          · obtain ⟨t', after', items, mid, more, heq, ht', hitems, hmore, rfl⟩ :=
              (reads_qualifiers_layout hkind).mp h
            have hlt := hitems.lt
            have hlength : after'.length < after.length := heq ▸ tail_lt t' after'
            rw [heq] at hts ⊢
            obtain ⟨hvalid, hpasses⟩ := sound_layoutItems hts.tail.tail hitems
            obtain ⟨hvalid', hpasses'⟩ :=
              sound_qualifiers (hts.tail.tail.of_suffix hpasses.suffix) hmore
            exact ⟨List.forall_mem_cons.mpr ⟨hvalid, hvalid'⟩,
              ((hpasses.trans hpasses').symbol ht' (by simp)).keyword hkind⟩
          · obtain ⟨more, hmore, rfl⟩ := (reads_qualifiers_plain hkind hq).mp h
            obtain ⟨hvalid, hpasses⟩ := sound_qualifiers hts.tail hmore
            exact ⟨List.forall_mem_cons.mpr ⟨valid_plainQualifier hq, hvalid⟩, hpasses.keyword hkind⟩
        | .intLiteral | .uintLiteral | .floatLiteral | .identifier | .directive | .symbol _
        | .endOfFile | .malformed _ => rw [hkind] at hqualifier; cases hqualifier
termination_by ts.length
decreasing_by
  all_goals simp only [List.length_cons] at *
  all_goals omega

theorem sound_typeSpec {type : TypeSpec} (hts : Genuine ts) (h : Reads (typeSpec ts) type rest) :
    type.Valid ∧ Passes ts rest 0 0 := by
  obtain ⟨qs, t, hqs, ht, rfl⟩ := reads_typeSpec.mp h
  obtain ⟨hvalid, hpasses⟩ := sound_qualifiers hts hqs
  exact ⟨⟨hvalid, (hts.of_suffix hpasses.suffix).name ht⟩,
    hpasses.trans ((Passes.refl rest 0).name ht)⟩

/-- What is read as an expression that may be absent. -/
structure SoundOption (ts : List Token) (value : Option (Expr Unit)) (rest : List Token) : Prop where
  valid : ∀ e ∈ value, e.Valid Literal.IsGenuine
  passes : Passes ts rest 0 (value.toList.map Expr.members).sum

theorem SoundOption.none : SoundOption ts none ts :=
  ⟨fun _ he => (nomatch he), .refl ts 0⟩

theorem SoundOption.close {sign : Symbol} {value : Option (Expr Unit)}
    (h : SoundOption ts value (t :: rest)) (ht : t.kind = .symbol sign) (hdot : sign ≠ .dot) :
    SoundOption ts value rest :=
  ⟨h.valid, h.passes.trans ((Passes.refl rest _).symbol ht hdot)⟩

theorem SoundExpr.some {e : Expr Unit} (h : SoundExpr ts 0 e rest) : SoundOption ts (some e) rest := by
  refine ⟨fun e' he' => ?_, by simpa using h.passes⟩
  cases he'
  exact h.valid

theorem sound_initializer {init : Option (Expr Unit)} (hts : Genuine ts)
    (h : Reads (initializer ts) init rest) : SoundOption ts init rest := by
  by_cases heq : headKind ts = .symbol .eq
  · match ts, hts with
    | [], _ => cases heq
    | t :: after, hts =>
      obtain ⟨value, hvalue, rfl⟩ := (reads_initializer_eq heq).mp h
      exact ((sound_assignment hts.tail hvalue).symbol heq (by simp)).some
  · obtain ⟨rfl, rfl⟩ := (reads_initializer_stop heq).mp h
    exact .none

/-- What is read as a row of declarators. -/
structure SoundDeclarators (ts : List Token) (ds : List (Declarator (Expr Unit)))
    (rest : List Token) : Prop where
  named : ∀ d ∈ ds, d.Named
  inits : ∀ d ∈ ds, ∀ e ∈ d.init, e.Valid Literal.IsGenuine
  passes : Passes ts rest 0 ((ds.filterMap Declarator.init).map Expr.members).sum

theorem SoundDeclarators.nil : SoundDeclarators ts [] ts :=
  ⟨fun _ hd => (nomatch hd), fun _ hd => (nomatch hd), .refl ts 0⟩

/-- Tokens before a row of declarators. -/
theorem SoundDeclarators.behind {ds : List (Declarator (Expr Unit))}
    (h : SoundDeclarators mid ds rest) (hpasses : Passes ts mid 0 0) : SoundDeclarators ts ds rest :=
  ⟨h.named, h.inits, hpasses.trans h.passes⟩

/-- A declarator before others. -/
theorem sound_declarator {name : String} {d : Declarator (Expr Unit)}
    {ds : List (Declarator (Expr Unit))} (hts : Genuine ts) (hname : IsName name)
    (h : Reads (declarator name ts) d mid)
    (hmore : Genuine mid → SoundDeclarators mid ds rest) : SoundDeclarators ts (d :: ds) rest := by
  obtain ⟨size, mid', init, hsize, hinit, rfl⟩ := reads_declarator.mp h
  obtain ⟨hsize, hpasses⟩ := sound_arraySize hsize
  have hinit := sound_initializer (hts.of_suffix hpasses.suffix) hinit
  have hmore := hmore (hts.of_suffix (hinit.passes.suffix.trans hpasses.suffix))
  refine ⟨List.forall_mem_cons.mpr ⟨⟨hname, hsize⟩, hmore.named⟩,
    List.forall_mem_cons.mpr ⟨hinit.valid, hmore.inits⟩, ?_⟩
  have hall := hpasses.trans (hinit.passes.trans (hmore.passes.add _))
  cases init with
  | none => simpa using hall
  | some init => simpa using hall

theorem sound_declaratorsMore {ts rest : List Token} {ds : List (Declarator (Expr Unit))}
    (hts : Genuine ts) (h : Reads (declaratorsMore ts) ds rest) : SoundDeclarators ts ds rest := by
  match ts, hts with
  | [], _ =>
    rw [declaratorsMore] at h
    exact (reads_error.mp h).elim
  | t :: after, hts =>
    by_cases hcomma : t.kind = .symbol .comma
    · obtain ⟨t', after', first, mid, more, heq, ht', hfirst, hmore, rfl⟩ :=
        (reads_declaratorsMore_comma hcomma).mp h
      have hlt := hfirst.lt
      rw [heq] at hts ⊢
      have hlength : after'.length < after.length := heq ▸ tail_lt t' after'
      have hsound := sound_declarator hts.tail.tail (hts.tail.name ht') hfirst
        fun hmid => sound_declaratorsMore hmid hmore
      exact hsound.behind (((Passes.refl after' 0).name ht').symbol hcomma (by simp))
    · obtain ⟨hclose, rfl, rfl⟩ := (reads_declaratorsMore_stop hcomma).mp h
      exact SoundDeclarators.nil.behind ((Passes.refl rest 0).symbol hclose (by simp))
termination_by ts.length
decreasing_by
  all_goals simp only [List.length_cons] at *
  all_goals omega

/-- What is read as a declaration of variables. -/
structure SoundVars (ts : List Token) (decl : VarDecl (Expr Unit)) (rest : List Token) : Prop where
  named : decl.Named
  inits : ∀ e ∈ decl.inits, e.Valid Literal.IsGenuine
  passes : Passes ts rest 0 (decl.inits.map Expr.members).sum

theorem sound_varDecl {type : TypeSpec} {name : String} {decl : VarDecl (Expr Unit)}
    (hts : Genuine ts) (htype : type.Valid) (hname : IsName name)
    (h : Reads (varDecl type name ts) decl rest) : SoundVars ts decl rest := by
  obtain ⟨first, mid, more, hfirst, hmore, rfl⟩ := reads_varDecl.mp h
  have hsound := sound_declarator hts hname hfirst fun hmid => sound_declaratorsMore hmid hmore
  refine ⟨⟨htype, List.cons_ne_nil _ _, hsound.named⟩, fun e he => ?_, hsound.passes⟩
  obtain ⟨d, hd, he⟩ := List.mem_filterMap.mp he
  exact hsound.inits d hd e he

/-! ## Statements -/

section Statements

open Stmt (valid_node members_node)

variable {s body start onTrue : Stmt Unit Unit} {e cond : Expr Unit}

/-- What is read as a statement is valid and has the members read; it is not followed by an `else` if
it is open. -/
structure SoundStmt (ts : List Token) (s : Stmt Unit Unit) (rest : List Token) : Prop where
  valid : s.Valid (Expr.Valid Literal.IsGenuine)
  passes : Passes ts rest 0 s.members
  isOpen : s.isOpen = true → headKind rest ≠ .keyword .kwElse

theorem SoundStmt.suffix (h : SoundStmt ts s rest) : rest <:+ ts :=
  h.passes.suffix

/-- A statement without parts that are statements, and that an `else` cannot follow. -/
theorem sound_leaf {form : StmtNode (Expr Unit) (Stmt Unit Unit)} (hleaf : form.childStmts = [])
    (hform : Stmt.NodeValid (Expr.Valid Literal.IsGenuine) form)
    (hpasses : Passes ts rest 0 (form.childExprs.map Expr.members).sum)
    (hclosed : (Stmt.node () form).isOpen = false) : SoundStmt ts (.node () form) rest := by
  refine ⟨valid_node.mpr ⟨hform, by simp [hleaf]⟩, ?_, fun h => ?_⟩
  · rw [members_node, hleaf]
    exact hpasses
  · rw [hclosed] at h
    cases h

theorem sound_declaration {decl : VarDecl (Expr Unit)} (hts : Genuine ts)
    (h : Reads (declaration ts) decl rest) : SoundVars ts decl rest := by
  obtain ⟨type, t, after, htype, ht, hdecl⟩ := reads_declaration.mp h
  obtain ⟨htype, hpasses⟩ := sound_typeSpec hts htype
  have hafter := hts.of_suffix hpasses.suffix
  have hsound := sound_varDecl hafter.tail htype (hafter.name ht) hdecl
  exact ⟨hsound.named, hsound.inits, hpasses.trans (hsound.passes.name ht)⟩

theorem sound_declarationOrExpression (hts : Genuine ts)
    (h : Reads (declarationOrExpression ts) s rest) :
    SoundStmt ts s rest ∧ s.form.isStart = true := by
  cases hstarts : startsDeclaration ts with
  | true =>
      obtain ⟨decl, hdecl, rfl⟩ := (reads_declarationOrExpression_vars hstarts).mp h
      have hsound := sound_declaration hts hdecl
      exact ⟨sound_leaf rfl ⟨hsound.named, hsound.inits⟩ hsound.passes rfl, rfl⟩
  | false =>
      obtain ⟨e, t, he, ht, rfl⟩ :=
        reads_expressionStatement.mp ((reads_declarationOrExpression_expr hstarts).mp h)
      have hsound := (sound_expression hts he).close ht (by simp)
      exact ⟨sound_leaf rfl ⟨trivial, List.forall_mem_singleton.mpr hsound.valid⟩
        (by simpa [StmtNode.childExprs] using hsound.passes) rfl, rfl⟩

theorem sound_empty (ht : t.kind = .symbol .semicolon) :
    SoundStmt (t :: rest) (.node () .empty) rest :=
  sound_leaf rfl ⟨trivial, fun _ he => nomatch he⟩ ((Passes.refl rest 0).symbol ht (by simp)) rfl

theorem sound_loopStart (hts : Genuine ts) (h : Reads (loopStart ts) s rest) :
    SoundStmt ts s rest ∧ s.form.isStart = true := by
  by_cases hempty : headKind ts = .symbol .semicolon
  · match ts with
    | [] => cases hempty
    | t :: after =>
      obtain ⟨rfl, rfl⟩ := (reads_loopStart_empty hempty).mp h
      exact ⟨sound_empty hempty, rfl⟩
  · exact sound_declarationOrExpression hts ((reads_loopStart_other hempty).mp h)

theorem sound_expressionUnless {sign : Symbol} {value : Option (Expr Unit)} (hts : Genuine ts)
    (h : Reads (expressionUnless sign ts) value rest) : SoundOption ts value rest := by
  by_cases hsign : headKind ts = .symbol sign
  · obtain ⟨rfl, rfl⟩ := (reads_expressionUnless_none hsign).mp h
    exact .none
  · obtain ⟨e, he, rfl⟩ := (reads_expressionUnless_some hsign).mp h
    exact (sound_expression hts he).some

theorem sound_condition (hts : Genuine ts) (h : Reads (condition ts) e rest) :
    SoundExpr ts 0 e rest := by
  obtain ⟨t, after, t', rfl, ht, he, ht'⟩ := reads_condition.mp h
  exact ((sound_expression hts.tail he).close ht' (by simp)).symbol ht (by simp)

theorem sound_wordStatement {word : Keyword} {form : StmtNode (Expr Unit) (Stmt Unit Unit)}
    (ht : t.kind = .keyword word) (h : Reads (wordStatement form after) s rest)
    (hform : form = .breaks ∨ form = .continues ∨ form = .discards) :
    SoundStmt (t :: after) s rest := by
  obtain ⟨t', rfl, ht', rfl⟩ := reads_wordStatement.mp h
  have hpasses := ((Passes.refl rest 0).symbol ht' (by simp)).keyword ht
  obtain rfl | rfl | rfl := hform
  all_goals exact sound_leaf rfl ⟨trivial, fun _ he => nomatch he⟩ hpasses rfl

theorem sound_while (hcond : SoundExpr ts 0 cond mid) (hbody : SoundStmt mid body rest) :
    SoundStmt ts (.node () (.whileLoop cond body)) rest := by
  refine ⟨valid_node.mpr ⟨⟨trivial, List.forall_mem_singleton.mpr hcond.valid⟩,
    List.forall_mem_singleton.mpr hbody.valid⟩, ?_, hbody.isOpen⟩
  rw [members_node]
  simpa [StmtNode.childExprs, StmtNode.childStmts] using
    hcond.passes.trans (hbody.passes.add cond.members)

theorem sound_doWhile (hbody : SoundStmt ts body mid) (hcond : SoundExpr mid 0 cond rest) :
    SoundStmt ts (.node () (.doWhile body cond)) rest := by
  refine ⟨valid_node.mpr ⟨⟨trivial, List.forall_mem_singleton.mpr hcond.valid⟩,
    List.forall_mem_singleton.mpr hbody.valid⟩, ?_, fun h => nomatch h⟩
  rw [members_node]
  simpa [StmtNode.childExprs, StmtNode.childStmts, Nat.add_comm] using
    hbody.passes.trans (hcond.passes.add body.members)

theorem sound_forLoop {mid' mid'' : List Token} {cond step : Option (Expr Unit)}
    (hstart : SoundStmt ts start mid) (hform : start.form.isStart = true)
    (hcond : SoundOption mid cond mid') (hstep : SoundOption mid' step mid'')
    (hbody : SoundStmt mid'' body rest) :
    SoundStmt ts (.node () (.forLoop start cond step body)) rest := by
  refine ⟨valid_node.mpr ⟨⟨hform, fun e he => ?_⟩, ?_⟩, ?_, hbody.isOpen⟩
  · obtain he | he := List.mem_append.mp he
    · exact hcond.valid e (Option.mem_toList.mp he)
    · exact hstep.valid e (Option.mem_toList.mp he)
  · simp [StmtNode.childStmts, hstart.valid, hbody.valid]
  · have hlast := hstep.passes.trans (hbody.passes.add (step.toList.map Expr.members).sum)
    have hmiddle := hcond.passes.trans (hlast.add (cond.toList.map Expr.members).sum)
    have hpasses := hstart.passes.trans (hmiddle.add start.members)
    have hmembers : (Stmt.node () (.forLoop start cond step body)).members = start.members +
        ((cond.toList.map Expr.members).sum + ((step.toList.map Expr.members).sum + body.members)) := by
      rw [members_node]
      simp only [StmtNode.childExprs, StmtNode.childStmts, List.map_append, List.sum_append,
        List.map_cons, List.map_nil, List.sum_cons, List.sum_nil]
      omega
    rwa [hmembers]

theorem sound_block {l : List (Stmt Unit Unit)}
    (hvalid : ∀ s ∈ l, s.Valid (Expr.Valid Literal.IsGenuine))
    (hpasses : Passes ts rest 0 (l.map Stmt.members).sum) :
    SoundStmt ts (.node () (.block l)) rest := by
  refine ⟨valid_node.mpr ⟨⟨trivial, fun _ he => nomatch he⟩, hvalid⟩, ?_, fun h => nomatch h⟩
  rw [members_node]
  simpa [StmtNode.childExprs, StmtNode.childStmts] using hpasses

theorem sound_returns {value : Option (Expr Unit)} (h : SoundOption ts value rest) :
    SoundStmt ts (.node () (.returns value)) rest :=
  sound_leaf rfl ⟨trivial, fun e he => h.valid e (Option.mem_toList.mp he)⟩ h.passes rfl

/-- What is read as the other branch of a condition; without one no `else` follows. -/
structure SoundElse (ts : List Token) (onFalse : Option (Stmt Unit Unit)) (rest : List Token) :
    Prop where
  valid : ∀ s ∈ onFalse, s.Valid (Expr.Valid Literal.IsGenuine)
  passes : Passes ts rest 0 (onFalse.toList.map Stmt.members).sum
  isElse : onFalse.isSome = true → headKind ts = .keyword .kwElse
  isOpen : (∀ s ∈ onFalse, s.isOpen = true) → headKind rest ≠ .keyword .kwElse

theorem sound_ifElse {onFalse : Option (Stmt Unit Unit)} {mid' : List Token}
    (hcond : SoundExpr ts 0 cond mid) (htrue : SoundStmt mid onTrue mid')
    (hfalse : SoundElse mid' onFalse rest) :
    SoundStmt ts (.node () (.ifElse cond onTrue onFalse)) rest := by
  refine ⟨valid_node.mpr ⟨⟨?_, List.forall_mem_singleton.mpr hcond.valid⟩,
    List.forall_mem_cons.mpr ⟨htrue.valid, fun s hs => hfalse.valid s (Option.mem_toList.mp hs)⟩⟩,
    ?_, fun h => hfalse.isOpen fun s hs => ?_⟩
  · cases onFalse with
    | none => trivial
    | some onFalse =>
        exact eq_false_of_ne_true fun hopen => htrue.isOpen hopen (hfalse.isElse rfl)
  · have hlast := htrue.passes.trans (hfalse.passes.add onTrue.members)
    have hpasses := hcond.passes.trans (hlast.add cond.members)
    rw [members_node]
    simpa [StmtNode.childExprs, StmtNode.childStmts] using hpasses
  · cases hs
    exact h

/-- The ways to read a statement. -/
inductive ReadsStatement : List Token → Stmt Unit Unit → List Token → Prop
  | block {t : Token} {after rest : List Token} {body : List (Stmt Unit Unit)}
    (ht : t.kind = .symbol .lBrace) (h : Reads (blockBody after) body rest) :
    ReadsStatement (t :: after) (.node () (.block body)) rest
  | ifElse {t : Token} {after mid mid' rest : List Token} {cond : Expr Unit}
    {onTrue : Stmt Unit Unit} {onFalse : Option (Stmt Unit Unit)} (ht : t.kind = .keyword .kwIf)
    (hcond : Reads (condition after) cond mid) (htrue : Reads (statement mid) onTrue mid')
    (hfalse : Reads (elseBranch mid') onFalse rest) :
    ReadsStatement (t :: after) (.node () (.ifElse cond onTrue onFalse)) rest
  | forLoop {t t₁ t₂ t₃ : Token} {mid₁ mid₂ mid₃ mid₄ rest : List Token} {start body : Stmt Unit Unit}
    {cond step : Option (Expr Unit)} (ht : t.kind = .keyword .kwFor)
    (ht₁ : t₁.kind = .symbol .lParen) (hstart : Reads (loopStart mid₁) start mid₂)
    (hcond : Reads (expressionUnless .semicolon mid₂) cond (t₂ :: mid₃))
    (ht₂ : t₂.kind = .symbol .semicolon)
    (hstep : Reads (expressionUnless .rParen mid₃) step (t₃ :: mid₄))
    (ht₃ : t₃.kind = .symbol .rParen) (hbody : Reads (statement mid₄) body rest) :
    ReadsStatement (t :: t₁ :: mid₁) (.node () (.forLoop start cond step body)) rest
  | whileLoop {t : Token} {after mid rest : List Token} {cond : Expr Unit} {body : Stmt Unit Unit}
    (ht : t.kind = .keyword .kwWhile) (hcond : Reads (condition after) cond mid)
    (hbody : Reads (statement mid) body rest) :
    ReadsStatement (t :: after) (.node () (.whileLoop cond body)) rest
  | doWhile {t t₁ t₂ : Token} {after mid rest : List Token} {cond : Expr Unit} {body : Stmt Unit Unit}
    (ht : t.kind = .keyword .kwDo) (hbody : Reads (statement after) body (t₁ :: mid))
    (ht₁ : t₁.kind = .keyword .kwWhile) (hcond : Reads (condition mid) cond (t₂ :: rest))
    (ht₂ : t₂.kind = .symbol .semicolon) :
    ReadsStatement (t :: after) (.node () (.doWhile body cond)) rest
  | returns {t t' : Token} {after rest : List Token} {value : Option (Expr Unit)}
    (ht : t.kind = .keyword .kwReturn)
    (h : Reads (expressionUnless .semicolon after) value (t' :: rest))
    (ht' : t'.kind = .symbol .semicolon) :
    ReadsStatement (t :: after) (.node () (.returns value)) rest
  | word {t : Token} {after rest : List Token} {word : Keyword} {s : Stmt Unit Unit}
    {form : StmtNode (Expr Unit) (Stmt Unit Unit)} (ht : t.kind = .keyword word)
    (hform : form = .breaks ∨ form = .continues ∨ form = .discards)
    (h : Reads (wordStatement form after) s rest) : ReadsStatement (t :: after) s rest
  | empty {t : Token} {rest : List Token} (ht : t.kind = .symbol .semicolon) :
    ReadsStatement (t :: rest) (.node () .empty) rest
  | simple {ts rest : List Token} {s : Stmt Unit Unit}
    (h : Reads (declarationOrExpression ts) s rest) : ReadsStatement ts s rest

theorem readsStatement_of_reads (h : Reads (statement ts) s rest) : ReadsStatement ts s rest := by
  cases hother : startsOtherStatement (headKind ts) with
  | false => exact .simple ((reads_statement_simple hother).mp h)
  | true =>
      match ts with
      | [] => cases hother
      | t :: after =>
        rw [headKind_cons] at hother
        unfold startsOtherStatement at hother
        split at hother
        next hkind =>
          obtain ⟨body, hbody, rfl⟩ := (reads_statement_block hkind).mp h
          exact .block hkind hbody
        next hkind =>
          obtain ⟨rfl, rfl⟩ := (reads_statement_empty hkind).mp h
          exact .empty hkind
        next hkind =>
          obtain ⟨cond, mid, onTrue, mid', onFalse, hcond, htrue, hfalse, rfl⟩ :=
            (reads_statement_if hkind).mp h
          exact .ifElse hkind hcond htrue hfalse
        next hkind =>
          obtain ⟨t₁, mid₁, start, mid₂, cond, t₂, mid₃, step, t₃, mid₄, body, rfl, ht₁, hstart,
            hcond, ht₂, hstep, ht₃, hbody, rfl⟩ := (reads_statement_for hkind).mp h
          exact .forLoop hkind ht₁ hstart hcond ht₂ hstep ht₃ hbody
        next hkind =>
          obtain ⟨cond, mid, body, hcond, hbody, rfl⟩ := (reads_statement_while hkind).mp h
          exact .whileLoop hkind hcond hbody
        next hkind =>
          obtain ⟨body, t₁, mid, cond, t₂, hbody, ht₁, hcond, ht₂, rfl⟩ :=
            (reads_statement_do hkind).mp h
          exact .doWhile hkind hbody ht₁ hcond ht₂
        next hkind =>
          obtain ⟨value, t', hvalue, ht', rfl⟩ := (reads_statement_return hkind).mp h
          exact .returns hkind hvalue ht'
        next hkind =>
          exact .word hkind (.inl rfl) ((reads_statement_break hkind).mp h)
        next hkind =>
          exact .word hkind (.inr (.inl rfl)) ((reads_statement_continue hkind).mp h)
        next hkind =>
          exact .word hkind (.inr (.inr rfl)) ((reads_statement_discard hkind).mp h)
        · cases hother

mutual

theorem sound_statement {ts rest : List Token} {s : Stmt Unit Unit} (hts : Genuine ts)
    (h : Reads (statement ts) s rest) : SoundStmt ts s rest := by
  match readsStatement_of_reads h, hts with
  | .block ht hbody, hts =>
    have hlt := hbody.lt
    obtain ⟨hvalid, hpasses⟩ := sound_blockBody hts.tail hbody
    exact sound_block hvalid (hpasses.symbol ht (by simp))
  | .ifElse ht hcond htrue hfalse, hts =>
    have hlt := hcond.lt
    have hlt' := htrue.lt
    have hcond := sound_condition hts.tail hcond
    have hmid := hts.tail.of_suffix hcond.suffix
    have htrue := sound_statement hmid htrue
    have hfalse := sound_elseBranch (hmid.of_suffix htrue.suffix) hfalse
    exact sound_ifElse (hcond.keyword ht) htrue hfalse
  | .forLoop ht ht₁ hstart hcond ht₂ hstep ht₃ hbody, hts =>
    have hlt := hstart.lt
    have hlt' := hcond.lt
    have hlt'' := hstep.lt
    have hstart := sound_loopStart hts.tail.tail hstart
    have hmid := hts.tail.tail.of_suffix hstart.1.suffix
    have hcond := (sound_expressionUnless hmid hcond).close ht₂ (by simp)
    have hmid := hmid.of_suffix hcond.passes.suffix
    have hstep := (sound_expressionUnless hmid hstep).close ht₃ (by simp)
    have hbody := sound_statement (hmid.of_suffix hstep.passes.suffix) hbody
    have hhead := hstart.1.passes.symbol ht₁ (by simp)
    exact sound_forLoop ⟨hstart.1.valid, hhead.keyword ht, hstart.1.isOpen⟩ hstart.2 hcond hstep hbody
  | .whileLoop ht hcond hbody, hts =>
    have hlt := hcond.lt
    have hcond := sound_condition hts.tail hcond
    exact sound_while (hcond.keyword ht) (sound_statement (hts.tail.of_suffix hcond.suffix) hbody)
  | .doWhile ht hbody ht₁ hcond ht₂, hts =>
    have hlt := hbody.lt
    have hbody := sound_statement hts.tail hbody
    have hcond := (sound_condition (hts.tail.of_suffix hbody.suffix).tail hcond).close ht₂ (by simp)
    exact sound_doWhile ⟨hbody.valid, hbody.passes.keyword ht, hbody.isOpen⟩ (hcond.keyword ht₁)
  | .returns ht hvalue ht', hts =>
    have hvalue := (sound_expressionUnless hts.tail hvalue).close ht' (by simp)
    exact sound_returns ⟨hvalue.valid, hvalue.passes.keyword ht⟩
  | .word ht hform hword, _ => exact sound_wordStatement ht hword hform
  | .empty ht, _ => exact sound_empty ht
  | .simple hsimple, hts => exact (sound_declarationOrExpression hts hsimple).1
termination_by 8 * ts.length + 1
decreasing_by
  all_goals simp only [List.length_cons] at *
  all_goals omega

theorem sound_elseBranch {ts rest : List Token} {onFalse : Option (Stmt Unit Unit)}
    (hts : Genuine ts) (h : Reads (elseBranch ts) onFalse rest) : SoundElse ts onFalse rest := by
  by_cases helse : headKind ts = .keyword .kwElse
  · match ts, hts with
    | [], _ => cases helse
    | t :: after, hts =>
      obtain ⟨s, hs, rfl⟩ := (reads_elseBranch_some helse).mp h
      have hsound := sound_statement hts.tail hs
      refine ⟨fun s' hs' => ?_, ?_, fun _ => helse, fun hopen => hsound.isOpen (hopen s rfl)⟩
      · cases hs'
        exact hsound.valid
      · simpa using hsound.passes.keyword helse
  · obtain ⟨rfl, rfl⟩ := (reads_elseBranch_none helse).mp h
    exact ⟨fun _ hs => (nomatch hs), .refl _ 0, fun hsome => (nomatch hsome), fun _ => helse⟩
termination_by 8 * ts.length + 0
decreasing_by
  all_goals simp only [List.length_cons] at *
  all_goals omega

theorem sound_blockBody {ts rest : List Token} {body : List (Stmt Unit Unit)} (hts : Genuine ts)
    (h : Reads (blockBody ts) body rest) :
    (∀ s ∈ body, s.Valid (Expr.Valid Literal.IsGenuine)) ∧
      Passes ts rest 0 (body.map Stmt.members).sum := by
  match ts, hts with
  | [], _ =>
    rw [blockBody] at h
    exact (reads_error.mp h).elim
  | t :: after, hts =>
    by_cases hclose : t.kind = .symbol .rBrace
    · obtain ⟨rfl, rfl⟩ := (reads_blockBody_nil hclose).mp h
      exact ⟨fun _ hs => (nomatch hs), (Passes.refl rest 0).symbol hclose (by simp)⟩
    · have hopen : headKind (t :: after) ≠ .symbol .rBrace := hclose
      obtain ⟨first, mid, more, hfirst, hmore, rfl⟩ :=
        (reads_blockBody_cons hopen (List.cons_ne_nil t after)).mp h
      have hlt := hfirst.lt
      have hsound := sound_statement hts hfirst
      obtain ⟨hvalid, hpasses⟩ := sound_blockBody (hts.of_suffix hsound.suffix) hmore
      refine ⟨List.forall_mem_cons.mpr ⟨hsound.valid, hvalid⟩, ?_⟩
      rw [List.map_cons, List.sum_cons]
      exact hsound.passes.trans (hpasses.add first.members)
termination_by 8 * ts.length + 2
decreasing_by
  all_goals simp only [List.length_cons] at *
  all_goals omega

end

theorem sound_blockStatement (hts : Genuine ts) (h : Reads (block ts) s rest) :
    SoundStmt ts s rest ∧ s.isBlock = true := by
  obtain ⟨t, after, body, rfl, ht, hbody, rfl⟩ := reads_block.mp h
  obtain ⟨hvalid, hpasses⟩ := sound_blockBody hts.tail hbody
  exact ⟨sound_block hvalid (hpasses.symbol ht (by simp)), rfl⟩

end Statements

end Parser

end ShaderReducer
