import ShaderReducer.Proofs.Syntax.Printed
import ShaderReducer.Proofs.Syntax.Retag
import ShaderReducer.Proofs.Text.Number
import ShaderReducer.Proofs.Token.Tidy

/-!
# What printed programs are written with

The text of a program is written with its pieces, unless a member of digits becomes one number in it.
A statement ends with a symbol that nothing goes on, so that any text may stand behind it; behind a
directive there has to be a new line.
-/

namespace ShaderReducer

open Lexer (EndsWord EndsNumber)

variable {rest : List Char} {ps : List Piece} {glued : Mishap → Prop}

/-! ## Types and variables -/

theorem printed_arraySize (size : Option Nat) (h : Printed rest ps glued) :
    Printed ((printArraySize size).toList ++ rest) (arraySizePieces size ++ ps) glued := by
  cases size with
  | none => exact h
  | some n =>
      have hsize := (h.inert .rBracket fun _ => rfl).token (isToken_natural n) fun d hd => by
        cases hd
        rfl
      have hwhole := hsize.inert .lBracket fun _ => rfl
      rw [printArraySize, String.toList_append, String.toList_append, List.append_assoc,
        List.append_assoc]
      exact hwhole

theorem printed_layoutItem {item : LayoutItem} (hvalid : item.Valid) (hrest : Apart rest)
    (h : Printed rest ps glued) : Printed (item.print.toList ++ rest) (item.pieces ++ ps) glued := by
  obtain ⟨key, value⟩ := item
  cases value with
  | none => exact h.name hvalid.1 hrest.word
  | some value =>
      obtain ⟨kind, hkind, hvalue⟩ := hvalid.2 value rfl
      have hword : ∀ d ∈ rest.head?, kind.goesOn value.toList d = false := by
        intro d hd
        have hchar : Lexer.isWordChar d = false := hrest.word d hd
        have hpoint : d ≠ '.' := fun hpoint => hrest.point (hpoint ▸ hd)
        simp only [List.mem_cons, List.not_mem_nil, or_false] at hkind
        obtain rfl | rfl | rfl := hkind <;> simp [TokenKind.goesOn, hchar, hpoint]
      have hlast := (h.token hvalue hword).space.symbol .eq (Expr.goesOn_space _ _)
      rw [← hvalue.kindOf_eq] at hlast
      have hwhole := hlast.space.name hvalid.1 apart_space.word
      simp only [LayoutItem.print, String.toList_append, List.append_assoc]
      exact hwhole

theorem Precision.spelling_keyword (level : Precision) : level.spelling = level.keyword.spelling := by
  cases level <;> rfl

theorem printed_qualifier {q : Qualifier} (hvalid : q.Valid) (hrest : Apart rest)
    (h : Printed rest ps glued) : Printed (q.print.toList ++ rest) (q.pieces ++ ps) glued := by
  cases q with
  | layout items =>
      have hrow := printed_commas (fun _ _ => False)
        (fun item hitem _ _ _ hrest h => (printed_layoutItem (hvalid.2 item hitem) hrest h).congr
          fun m => (by simp)) (apart_symbol .rParen rfl) (h.inert .rParen fun _ => rfl)
      have hwhole := (hrow.inert .lParen fun _ => rfl).keyword .kwLayout (apart_symbol .lParen rfl).word
      have htext : "layout(" = Keyword.kwLayout.spelling ++ Symbol.lParen.spelling := rfl
      simp only [Qualifier.print, Qualifier.pieces, htext, String.toList_append, List.append_assoc,
        List.cons_append]
      exact hwhole.congr fun m => by simp
  | precision level =>
      rw [Qualifier.print, level.spelling_keyword]
      exact h.keyword level.keyword hrest.word
  | const => exact h.keyword .kwConst hrest.word
  | uniform => exact h.keyword .kwUniform hrest.word
  | input => exact h.keyword .kwIn hrest.word
  | output => exact h.keyword .kwOut hrest.word
  | inputOutput => exact h.keyword .kwInout hrest.word
  | vertexAttribute => exact h.keyword .kwAttribute hrest.word
  | varying => exact h.keyword .kwVarying hrest.word
  | flat => exact h.keyword .kwFlat hrest.word
  | invariant => exact h.keyword .kwInvariant hrest.word

theorem printed_type {type : TypeSpec} (hvalid : type.Valid) (hrest : EndsWord rest)
    (h : Printed rest ps glued) : Printed (type.print.toList ++ rest) (type.pieces ++ ps) glued := by
  obtain ⟨qs, name⟩ := type
  have hname := h.name hvalid.name hrest
  have hqs := hvalid.qualifiers
  simp only [TypeSpec.print, TypeSpec.pieces, String.toList_append, List.append_assoc] at hname ⊢
  clear hvalid
  induction qs with
  | nil => exact hname
  | cons q qs ih =>
      have hmore := ih fun q hq => hqs q (List.mem_cons_of_mem _ hq)
      have hwhole := printed_qualifier (hqs q List.mem_cons_self) apart_space hmore.space
      simpa [String.toList_join] using hwhole

theorem apart_arraySize (size : Option Nat) (hrest : Apart rest) :
    Apart ((printArraySize size).toList ++ rest) := by
  cases size with
  | none => exact hrest
  | some n =>
      rw [printArraySize, String.toList_append, String.toList_append, List.append_assoc,
        List.append_assoc]
      exact apart_cons rfl

theorem printed_declarator {d : Declarator (Expr Unit)} (hnamed : d.Named)
    (hinit : ∀ e ∈ d.init, e.Valid Literal.IsGenuine) (hrest : Apart rest)
    (h : Printed rest ps glued) :
    Printed (d.print.toList ++ rest) (d.pieces ++ ps)
      (fun m => (∃ e ∈ d.init, e.Suffers m) ∨ glued m) := by
  obtain ⟨name, size, init⟩ := d
  have hsize : ∀ {rest ps glued}, Apart rest → Printed rest ps glued →
      Printed (name.toList ++ ((printArraySize size).toList ++ rest))
        (namePiece name :: (arraySizePieces size ++ ps)) glued := fun hrest h =>
    (printed_arraySize size h).name hnamed.name (apart_arraySize size hrest).word
  cases init with
  | none =>
      simp only [Declarator.print, Declarator.pieces, Declarator.morePieces, initPieces,
        String.toList_append, List.append_assoc, List.append_nil, List.cons_append]
      exact (hsize hrest h).congr fun m => by simp
  | some init =>
      have hvalue := Expr.isPrinted (hinit init rfl) Precedence.assignment (.of_apart hrest) h
      have hwhole := hsize apart_space (hvalue.space.symbol .eq (Expr.goesOn_space _ _)).space
      simp only [Declarator.print, Declarator.pieces, Declarator.morePieces, initPieces,
        String.toList_append, List.append_assoc, List.cons_append]
      exact hwhole.congr fun m => by simp

theorem printed_varDecl {v : VarDecl (Expr Unit)} (hnamed : v.Named)
    (hinits : ∀ e ∈ v.inits, e.Valid Literal.IsGenuine) (hrest : Apart rest)
    (h : Printed rest ps glued) :
    Printed (v.print.toList ++ rest) (v.pieces ++ ps)
      (fun m => (∃ e ∈ v.inits, e.Suffers m) ∨ glued m) := by
  have hrow := printed_commas (fun (d : Declarator (Expr Unit)) m => ∃ e ∈ d.init, e.Suffers m)
    (fun d hd _ _ _ hrest h => printed_declarator (hnamed.declarators d hd)
      (fun e he => hinits e (List.mem_filterMap.mpr ⟨d, hd, he⟩)) hrest h) hrest h
  have hwhole := printed_type hnamed.type apart_space.word hrow.space
  simp only [VarDecl.print, VarDecl.pieces, String.toList_append, List.append_assoc]
  exact hwhole.congr fun m => or_congr_left (by simp [VarDecl.inits]; grind)

/-! ## Statements -/

namespace Stmt

variable {ε σ : Type}

/-- Something happens to a member in the text of a statement. -/
def Suffers (m : Mishap) (s : Stmt ε σ) : Prop :=
  ∃ e ∈ s.exprs, e.form.suffers m = true

theorem suffers_node {m : Mishap} {tag : σ} {form : StmtNode (Expr ε) (Stmt ε σ)} :
    (node tag form).Suffers m ↔
      (∃ e ∈ form.childExprs, e.Suffers m) ∨ ∃ t ∈ form.childStmts, t.Suffers m := by
  simp only [Suffers, Expr.Suffers, exprs_node, List.mem_append, List.mem_flatMap]
  grind

theorem suffers_forLoop {m : Mishap} {tag : σ} {start body : Stmt ε σ} {cond step : Option (Expr ε)} :
    (node tag (.forLoop start cond step body)).Suffers m ↔
      start.Suffers m ∨ (∃ e ∈ cond, e.Suffers m) ∨ (∃ e ∈ step, e.Suffers m) ∨ body.Suffers m := by
  simp only [suffers_node, StmtNode.childExprs, StmtNode.childStmts, List.mem_append, Option.mem_toList,
    Option.mem_def, List.mem_cons, List.not_mem_nil, or_false, exists_eq_left, or_and_right,
    exists_or]
  grind

/-- The text of a statement is written with its pieces. -/
def IsPrinted (s : Stmt Unit Unit) : Prop :=
  ∀ (depth : Nat) {rest : List Char} {ps : List Piece} {glued : Mishap → Prop}, Printed rest ps glued →
    Printed ((s.print depth).toList ++ rest) (s.pieces ++ ps) (fun m => s.Suffers m ∨ glued m)

theorem printed_body {body : Stmt Unit Unit} (hbody : body.IsPrinted) (depth : Nat)
    (h : Printed rest ps glued) :
    Printed ((body.lead depth).toList ++ ((body.print (body.bodyDepth depth)).toList ++ rest))
      (body.pieces ++ ps) (fun m => body.Suffers m ∨ glued m) := by
  rw [lead]
  split
  · exact hbody _ h
  · exact (hbody _ h).newline _

theorem printed_optional {e : Option (Expr Unit)} (he : ∀ e' ∈ e, e'.Valid Literal.IsGenuine)
    (hrest : Apart rest) (h : Printed rest ps glued) :
    Printed ((optional e).toList ++ rest) (optionPieces e ++ ps)
      (fun m => (∃ e' ∈ e, e'.Suffers m) ∨ glued m) := by
  cases e with
  | none => exact h.congr fun m => by simp
  | some e =>
      have hwhole := (Expr.isPrinted (he e rfl) 0 (.of_apart hrest) h).space
      rw [optional, String.toList_append, List.append_assoc]
      exact hwhole.congr fun m => by simp

/-- A condition behind a reserved word. -/
theorem printed_condition {cond : Expr Unit} (hcond : cond.Valid Literal.IsGenuine) (word : Keyword)
    (h : Printed rest ps glued) :
    Printed (word.spelling.toList ++ (" ".toList ++ (Symbol.lParen.spelling.toList ++
      ((cond.print 0).toList ++ (Symbol.rParen.spelling.toList ++ rest)))))
      (word.piece :: (conditionPieces cond ++ ps)) (fun m => cond.Suffers m ∨ glued m) := by
  have hinner := Expr.isPrinted hcond 0 (.of_apart (apart_symbol .rParen rfl)) (h.inert .rParen fun _ => rfl)
  have hwhole := (hinner.inert .lParen fun _ => rfl).space.keyword word apart_space.word
  simp only [conditionPieces, List.cons_append, List.append_assoc]
  exact hwhole

/-- A word with a semicolon is a statement. -/
theorem printed_word (word : Keyword) (h : Printed rest ps glued) :
    Printed ((word.spelling ++ ";").toList ++ rest) (word.piece :: Symbol.semicolon.piece :: ps)
      glued := by
  rw [String.toList_append, List.append_assoc]
  exact (h.inert .semicolon fun _ => rfl).keyword word (apart_symbol .semicolon rfl).word

theorem printed_returns {value : Option (Expr Unit)}
    (hvalue : ∀ e ∈ value, e.Valid Literal.IsGenuine) (depth : Nat) (h : Printed rest ps glued) :
    Printed (((node () (.returns value) : Stmt Unit Unit).print depth).toList ++ rest)
      ((node () (.returns value)).pieces ++ ps)
        (fun m => (∃ e ∈ value, e.Suffers m) ∨ glued m) := by
  cases value with
  | none => exact (printed_word .kwReturn h).congr fun m => by simp
  | some value =>
      have hreturn : "return " = Keyword.kwReturn.spelling ++ " " := rfl
      have hinner := printed_optional hvalue (apart_symbol .semicolon rfl)
        (h.inert .semicolon fun _ => rfl)
      rw [optional, String.toList_append, List.append_assoc] at hinner
      have hwhole := hinner.keyword .kwReturn apart_space.word
      simp only [print, pieces, hreturn, String.toList_append, List.append_assoc, List.cons_append]
      exact hwhole

theorem printed_ifElse {cond : Expr Unit} {onTrue : Stmt Unit Unit}
    {onFalse : Option (Stmt Unit Unit)} (hcond : cond.Valid Literal.IsGenuine)
    (honTrue : onTrue.IsPrinted) (honFalse : ∀ s ∈ onFalse, s.IsPrinted) :
    (node () (.ifElse cond onTrue onFalse)).IsPrinted := by
  intro depth rest ps glued h
  have htext : "if (" = Keyword.kwIf.spelling ++ " " ++ Symbol.lParen.spelling := rfl
  have hclose : ") " = Symbol.rParen.spelling ++ " " := rfl
  cases onFalse with
  | none =>
      have hwhole := printed_condition hcond .kwIf (printed_body honTrue depth h).space
      simp only [print, pieces, htext, hclose, String.toList_append, List.append_assoc,
        List.cons_append]
      exact hwhole.congr fun m => by
        simp [suffers_node, StmtNode.childExprs, StmtNode.childStmts, or_assoc]
  | some onFalse =>
      have hmiddle : ∀ {rest ps glued}, Printed rest ps glued →
          Printed ((if onTrue.isBlock then " " else newline depth).toList ++ rest) ps glued := by
        intro rest ps glued h
        split
        · exact h.space
        · exact h.newline depth
      have helse : "else " = Keyword.kwElse.spelling ++ " " := rfl
      have hlast := (printed_body (honFalse onFalse rfl) depth h).space.keyword .kwElse
        apart_space.word
      have hwhole := printed_condition hcond .kwIf (printed_body honTrue depth (hmiddle hlast)).space
      simp only [print, pieces, htext, hclose, helse, String.toList_append, List.append_assoc,
        List.cons_append]
      exact hwhole.congr fun m => by
        simp [suffers_node, StmtNode.childExprs, StmtNode.childStmts, or_assoc]

theorem printed_forLoop {start body : Stmt Unit Unit} {cond step : Option (Expr Unit)}
    (hcond : ∀ e ∈ cond, e.Valid Literal.IsGenuine) (hstep : ∀ e ∈ step, e.Valid Literal.IsGenuine)
    (hstart : start.IsPrinted) (hbody : body.IsPrinted) :
    (node () (.forLoop start cond step body)).IsPrinted := by
  intro depth rest ps glued h
  have htext : "for (" = Keyword.kwFor.spelling ++ " " ++ Symbol.lParen.spelling := rfl
  have hclose : ") " = Symbol.rParen.spelling ++ " " := rfl
  have hlast := printed_optional hstep (apart_symbol .rParen rfl)
    ((printed_body hbody depth h).space.inert .rParen fun _ => rfl)
  have hmiddle := printed_optional hcond (apart_symbol .semicolon rfl) (hlast.inert .semicolon fun _ => rfl)
  have hwhole := ((hstart depth hmiddle).inert .lParen fun _ => rfl).space.keyword .kwFor
    apart_space.word
  simp only [print, pieces, htext, hclose, String.toList_append, List.append_assoc, List.cons_append]
  exact hwhole.congr fun m => by simp [suffers_forLoop, or_assoc]

theorem printed_block {body : List (Stmt Unit Unit)} (hbody : ∀ s ∈ body, s.IsPrinted) :
    (node () (.block body)).IsPrinted := by
  intro depth rest ps glued h
  have hclosed := h.inert .rBrace fun _ => rfl
  have hrest : ∀ {l : List (Stmt Unit Unit)}, (∀ s ∈ l, s.IsPrinted) →
      ∀ {rest ps glued}, Printed rest ps glued →
        Printed ((printRest (depth + 1) l).toList ++ rest) (piecesAll l ++ ps)
          (fun m => (∃ s ∈ l, s.Suffers m) ∨ glued m) := by
    intro l hl
    induction l with
    | nil => exact fun h => h.congr fun m => by simp
    | cons s l ih =>
        intro rest ps glued h
        have hmore := ih (fun t ht => hl t (List.mem_cons_of_mem s ht)) h
        have hwhole := (hl s List.mem_cons_self (depth + 1) hmore).newline (depth + 1)
        simp only [printRest, piecesAll, String.toList_append, List.append_assoc]
        exact hwhole.congr fun m => by simp [or_assoc]
  cases body with
  | nil =>
      have hopen : "\x7b\x7d" = Symbol.lBrace.spelling ++ Symbol.rBrace.spelling := rfl
      have hwhole := hclosed.inert .lBrace fun _ => rfl
      simp only [print, pieces, piecesAll, hopen, String.toList_append, List.append_assoc,
        List.cons_append, List.nil_append]
      exact hwhole.congr fun m => by simp [suffers_node, StmtNode.childExprs, StmtNode.childStmts]
  | cons s l =>
      have hmore := hrest (fun t ht => hbody t (List.mem_cons_of_mem s ht)) (hclosed.newline depth)
      have hwhole := ((hbody s List.mem_cons_self (depth + 1) hmore).newline (depth + 1)).inert
        .lBrace fun _ => rfl
      simp only [print, pieces, piecesAll, String.toList_append, List.append_assoc, List.cons_append]
      exact hwhole.congr fun m => by
        simp [suffers_node, StmtNode.childExprs, StmtNode.childStmts, or_assoc]

/-- The text of a statement is written with its pieces. -/
theorem isPrinted {s : Stmt Unit Unit} (hvalid : s.Valid (Expr.Valid Literal.IsGenuine)) :
    s.IsPrinted := by
  induction s with
  | node tag form ih =>
      obtain ⟨⟨hform, hexprs⟩, hstmts⟩ := valid_node.mp hvalid
      have ih : ∀ t ∈ form.childStmts, t.IsPrinted := fun t ht => ih t ht (hstmts t ht)
      clear hvalid hstmts
      cases form with
      | block body => exact printed_block ih
      | vars decl =>
          intro depth rest ps glued h
          have hwhole := printed_varDecl hform hexprs (apart_symbol .semicolon rfl)
            (h.inert .semicolon fun _ => rfl)
          simp only [print, pieces, String.toList_append, List.append_assoc]
          exact hwhole.congr fun m => by
            simp [suffers_node, StmtNode.childExprs, StmtNode.childStmts]
      | expr value =>
          intro depth rest ps glued h
          have hwhole := Expr.isPrinted (hexprs value List.mem_cons_self) 0
            (.of_apart (apart_symbol .semicolon rfl)) (h.inert .semicolon fun _ => rfl)
          simp only [print, pieces, String.toList_append, List.append_assoc]
          exact hwhole.congr fun m => by
            simp [suffers_node, StmtNode.childExprs, StmtNode.childStmts]
      | ifElse cond onTrue onFalse =>
          exact printed_ifElse (hexprs cond List.mem_cons_self) (ih onTrue List.mem_cons_self)
            fun s hs => ih s (List.mem_cons_of_mem _ (Option.mem_toList.mpr hs))
      | forLoop start cond step body =>
          exact printed_forLoop
            (fun e he => hexprs e (List.mem_append_left _ (Option.mem_toList.mpr he)))
            (fun e he => hexprs e (List.mem_append_right _ (Option.mem_toList.mpr he)))
            (ih start List.mem_cons_self) (ih body (List.mem_cons_of_mem _ List.mem_cons_self))
      | whileLoop cond body =>
          intro depth rest ps glued h
          have htext : "while (" = Keyword.kwWhile.spelling ++ " " ++ Symbol.lParen.spelling := rfl
          have hclose : ") " = Symbol.rParen.spelling ++ " " := rfl
          have hwhole := printed_condition (hexprs cond List.mem_cons_self) .kwWhile
            (printed_body (ih body List.mem_cons_self) depth h).space
          simp only [print, pieces, htext, hclose, String.toList_append, List.append_assoc,
            List.cons_append]
          exact hwhole.congr fun m => by
            simp [suffers_node, StmtNode.childExprs, StmtNode.childStmts, or_assoc]
      | doWhile body cond =>
          intro depth rest ps glued h
          have hdo : "do " = Keyword.kwDo.spelling ++ " " := rfl
          have htext : " while (" = " " ++ Keyword.kwWhile.spelling ++ " " ++ Symbol.lParen.spelling :=
            rfl
          have hclose : ");" = Symbol.rParen.spelling ++ Symbol.semicolon.spelling := rfl
          have hlast := printed_condition (hexprs cond List.mem_cons_self) .kwWhile
            (h.inert .semicolon fun _ => rfl)
          have hwhole := (printed_body (ih body List.mem_cons_self) depth hlast.space).space.keyword
            .kwDo apart_space.word
          simp only [print, pieces, hdo, htext, hclose, String.toList_append, List.append_assoc,
            List.cons_append]
          exact hwhole.congr fun m => (by
            simp [suffers_node, StmtNode.childExprs, StmtNode.childStmts, or_assoc, or_left_comm])
      | returns value =>
          have hexprs : ∀ e ∈ value, e.Valid Literal.IsGenuine := fun e he =>
            hexprs e (Option.mem_toList.mpr he)
          exact fun depth rest ps glued h => (printed_returns hexprs depth h).congr
            fun m => by simp [suffers_node, StmtNode.childExprs, StmtNode.childStmts]
      | breaks =>
          exact fun depth rest ps glued h => (printed_word .kwBreak h).congr
            fun m => by simp [suffers_node, StmtNode.childExprs, StmtNode.childStmts]
      | continues =>
          exact fun depth rest ps glued h => (printed_word .kwContinue h).congr
            fun m => by simp [suffers_node, StmtNode.childExprs, StmtNode.childStmts]
      | discards =>
          exact fun depth rest ps glued h => (printed_word .kwDiscard h).congr
            fun m => by simp [suffers_node, StmtNode.childExprs, StmtNode.childStmts]
      | empty =>
          exact fun depth rest ps glued h => (h.inert .semicolon fun _ => rfl).congr
            fun m => by simp [suffers_node, StmtNode.childExprs, StmtNode.childStmts]

end Stmt

/-! ## Declarations -/

theorem printed_field {field : FieldDecl} (hvalid : field.Valid) (h : Printed rest ps glued) :
    Printed (field.print.toList ++ rest) (field.pieces ++ ps) glued := by
  have hsize := printed_arraySize field.arraySize (h.inert .semicolon fun _ => rfl)
  have hname := hsize.name hvalid.name (apart_arraySize _ (apart_symbol .semicolon rfl)).word
  have hwhole := printed_type hvalid.type apart_space.word hname.space
  simp only [FieldDecl.print, FieldDecl.pieces, String.toList_append, List.append_assoc,
    List.cons_append]
  exact hwhole

theorem printed_fields {fields : List FieldDecl} (hvalid : ∀ field ∈ fields, field.Valid)
    (h : Printed rest ps glued) :
    Printed ((String.join (fields.map fun field => newline 1 ++ field.print)).toList ++ rest)
      (fields.flatMap FieldDecl.pieces ++ ps) glued := by
  rw [String.toList_join]
  induction fields with
  | nil => exact h
  | cons field fields ih =>
      have hmore := ih fun field hfield => hvalid field (List.mem_cons_of_mem _ hfield)
      have hwhole := (printed_field (hvalid field List.mem_cons_self) hmore).newline 1
      simpa [String.toList_append] using hwhole

theorem printed_struct {decl : StructDecl} (hvalid : decl.Valid) (h : Printed rest ps glued) :
    Printed (decl.print.toList ++ rest) (decl.pieces ++ ps) glued := by
  have htext : "struct " = Keyword.kwStruct.spelling ++ " " := rfl
  have hopen : " \x7b" = " " ++ Symbol.lBrace.spelling := rfl
  have hclose : "\x7d;" = Symbol.rBrace.spelling ++ Symbol.semicolon.spelling := rfl
  have hlast := (h.inert .semicolon fun _ => rfl).inert .rBrace fun _ => rfl
  have hline : ∀ {rest ps glued}, Printed rest ps glued →
      Printed ((if decl.fields.isEmpty then "" else newline 0).toList ++ rest) ps glued := by
    intro rest ps glued h
    split
    · exact h
    · exact h.newline 0
  have hfields := (printed_fields hvalid.fields (hline hlast)).inert .lBrace fun _ => rfl
  have hwhole := (hfields.space.name hvalid.name apart_space.word).space.keyword .kwStruct
    apart_space.word
  simp only [StructDecl.print, StructDecl.pieces, htext, hopen, hclose, String.toList_append,
    List.append_assoc, List.cons_append, List.nil_append]
  exact hwhole

theorem printed_param {p : Param} (hvalid : p.Valid) (hrest : Apart rest) (h : Printed rest ps glued) :
    Printed (p.print.toList ++ rest) (p.pieces ++ ps) glued := by
  obtain ⟨type, name, size⟩ := p
  cases name with
  | none =>
      have hwhole := printed_type hvalid.type hrest.word h
      simpa [Param.print, Param.pieces] using hwhole
  | some name =>
      have hname := (printed_arraySize size h).name (hvalid.name name rfl)
        (apart_arraySize size hrest).word
      have hwhole := printed_type hvalid.type apart_space.word hname.space
      simp only [Param.print, Param.pieces, String.toList_append, List.append_assoc,
        List.cons_append]
      exact hwhole

theorem printed_function {f : FunctionDecl (Stmt Unit Unit)} (hnamed : f.Named)
    (hbody : ∀ s ∈ f.body, s.IsPrinted) (h : Printed rest ps glued) :
    Printed (f.print.toList ++ rest) (f.pieces ++ ps)
      (fun m => (∃ s ∈ f.body, s.Suffers m) ∨ glued m) := by
  obtain ⟨returnType, name, params, body⟩ := f
  have hhead : ∀ {rest ps glued}, Printed rest ps glued → Printed (returnType.print.toList ++
      (" ".toList ++ (name.toList ++ (Symbol.lParen.spelling.toList ++
        ((", ".intercalate (params.map Param.print)).toList ++
          (Symbol.rParen.spelling.toList ++ rest)))))) (returnType.pieces ++ namePiece name ::
            Symbol.lParen.piece :: (commaPieces (params.map Param.pieces) ++
              Symbol.rParen.piece :: ps)) glued := by
    intro rest ps glued h
    have hparams := printed_commas (fun _ _ => False)
      (fun p hp _ _ _ hrest h => (printed_param (hnamed.params p hp) hrest h).congr fun m => by simp)
      (apart_symbol .rParen rfl) (h.inert .rParen fun _ => rfl)
    have hname := (hparams.inert .lParen fun _ => rfl).name hnamed.name (apart_symbol .lParen rfl).word
    exact (printed_type hnamed.returnType apart_space.word hname.space).congr fun m => by simp
  simp only [FunctionDecl.print, FunctionDecl.pieces, String.toList_append, List.append_assoc,
    List.cons_append]
  cases body with
  | none => exact (hhead (h.inert .semicolon fun _ => rfl)).congr fun m => by simp
  | some body =>
      rw [String.toList_append, List.append_assoc]
      exact (hhead (hbody body rfl 0 h).space).congr fun m => by simp

namespace DeclTree

variable {ε σ : Type}

/-- Some member in a declaration is one of decimal digits. -/
def Glues (d : DeclTree ε σ) : Prop :=
  ∃ e ∈ exprs d, e.form.isGlued = true

/-- Something happens to a member in the text of a declaration. -/
def Suffers (m : Mishap) (d : DeclTree ε σ) : Prop :=
  ∃ e ∈ exprs d, e.form.suffers m = true

theorem suffers_glued {d : DeclTree ε σ} : Suffers .glued d ↔ Glues d := by
  simp only [Suffers, Glues, ExprNode.suffers_glued]

theorem suffers_iff {m : Mishap} {d : DeclTree ε σ} :
    Suffers m d ↔ (∃ e ∈ Decl.inits d, e.Suffers m) ∨ ∃ s ∈ Decl.bodies d, s.Suffers m := by
  simp only [Suffers, Stmt.Suffers, Expr.Suffers, exprs, List.mem_append, List.mem_flatMap]
  grind

/-- The text of a declaration is written with its pieces, at the end of a line. -/
theorem isPrinted {d : DeclTree Unit Unit}
    (hvalid : DeclTree.Valid (Expr.Valid Literal.IsGenuine) d) (hrest : ∀ c ∈ rest.head?, c = '\n')
    (h : Printed rest ps glued) :
    Printed ((print d).toList ++ rest) (pieces d ++ ps) (fun m => Suffers m d ∨ glued m) := by
  obtain ⟨hform, hbodies, hinits⟩ := hvalid
  cases d with
  | directive text =>
      have hends : ∀ c ∈ rest.head?, TokenKind.directive.goesOn text.toList c = false :=
        fun c hc => bne_eq_false_iff_eq.mpr (hrest c hc)
      exact (h.token hform hends).congr fun m => by simp [suffers_iff, Decl.inits, Decl.bodies]
  | precision level typeName =>
      have htext : "precision " = Keyword.kwPrecision.spelling ++ " " := rfl
      have hname := (h.inert .semicolon fun _ => rfl).name hform (apart_symbol .semicolon rfl).word
      have hlevel := hname.space.keyword level.keyword apart_space.word
      have hwhole := hlevel.space.keyword .kwPrecision apart_space.word
      simp only [print, pieces, htext, level.spelling_keyword, String.toList_append,
        List.append_assoc, List.cons_append, List.nil_append]
      exact hwhole.congr fun m => by simp [suffers_iff, Decl.inits, Decl.bodies]
  | struct decl =>
      exact (printed_struct hform h).congr fun m => by simp [suffers_iff, Decl.inits, Decl.bodies]
  | function decl =>
      exact (printed_function hform.1 (fun s hs => Stmt.isPrinted (hbodies s (Option.mem_toList.mpr hs)))
        h).congr fun m => by simp [suffers_iff, Decl.inits, Decl.bodies]
  | vars decl =>
      have hwhole := printed_varDecl hform hinits (apart_symbol .semicolon rfl)
        (h.inert .semicolon fun _ => rfl)
      simp only [print, pieces, String.toList_append, List.append_assoc]
      exact hwhole.congr fun m => by simp [suffers_iff, Decl.inits, Decl.bodies]

end DeclTree

/-! ## The end of a text -/

/-- A text ends with a visible character. -/
def EndsVisible (text : List Char) : Prop :=
  ∃ c, text.getLast? = some c ∧ Text.isBlank c = false

theorem EndsVisible.append_left {text : List Char} (h : EndsVisible text) (front : List Char) :
    EndsVisible (front ++ text) := by
  obtain ⟨c, hlast, hc⟩ := h
  exact ⟨c, by rw [List.getLast?_append, hlast]; rfl, hc⟩

theorem IsToken.endsVisible {kind : TokenKind} {text : List Char} (h : IsToken kind text) :
    EndsVisible text := by
  obtain ⟨c, hlast⟩ := List.getLast?_isSome.mpr h.ne_nil |> Option.isSome_iff_exists.mp
  exact ⟨c, hlast, getLast_trimEndList (h.trimmed.symm ▸ hlast)⟩

theorem endsVisible_symbol (sign : Symbol) (front : String) :
    EndsVisible (front ++ sign.spelling).toList := by
  rw [String.toList_append]
  exact (isToken_symbol sign).endsVisible.append_left _

theorem Stmt.endsVisible_block {s : Stmt Unit Unit} (h : s.isBlock = true) (depth : Nat) :
    EndsVisible (s.print depth).toList := by
  obtain ⟨tag, form⟩ := s
  cases form with
  | block body =>
      cases body with
      | nil => exact endsVisible_symbol .rBrace "\x7b"
      | cons s l => exact endsVisible_symbol .rBrace _
  | _ => cases h

theorem DeclTree.endsVisible {d : DeclTree Unit Unit}
    (hvalid : DeclTree.Valid (Expr.Valid Literal.IsGenuine) d) : EndsVisible (print d).toList := by
  cases d with
  | directive text => exact IsToken.endsVisible hvalid.form
  | precision level typeName => exact endsVisible_symbol .semicolon _
  | struct decl =>
      have hclose : "\x7d;" = "\x7d" ++ Symbol.semicolon.spelling := rfl
      simp only [print, StructDecl.print, hclose, ← String.append_assoc]
      exact endsVisible_symbol .semicolon _
  | function decl =>
      obtain ⟨returnType, name, params, body⟩ := decl
      cases body with
      | none => exact endsVisible_symbol .semicolon _
      | some body =>
          simp only [print, FunctionDecl.print, String.toList_append]
          exact ((Stmt.endsVisible_block (hvalid.form.2 body rfl) 0).append_left _).append_left _
  | vars decl => exact endsVisible_symbol .semicolon _

theorem trimEndList_of_endsVisible {text : List Char} (h : EndsVisible text) :
    Text.trimEndList text = text := by
  obtain ⟨c, hlast, hc⟩ := h
  obtain ⟨front, rfl⟩ := List.getLast?_eq_some_iff.mp hlast
  exact trimEndList_append_singleton hc

theorem Printed.tidyLines {text : String} (h : Printed text.toList ps glued)
    (hends : EndsVisible text.toList) : Printed (tidyLines text).toList ps glued := by
  obtain ⟨found, hwritten, hfound⟩ := h.exists_written
  obtain ⟨c, hlast, hc⟩ := hends
  exact ⟨h.genuine, found, hwritten.tidyLines hlast hc, hfound⟩

/-! ## Programs -/

/-- The directive that names a dialect is a token. -/
theorem isToken_version (v : Version) : IsToken .directive v.directive.toList := by
  have hdigits : ∀ c ∈ (toString v.number).toList, c.isDigit = true := fun c hc =>
    Text.isDigit_toString hc
  have hends : EndsVisible v.directive.toList := by
    rw [Version.directive]
    split
    · rw [String.toList_append]
      exact EndsVisible.append_left ⟨'s', rfl, rfl⟩ _
    · rw [String.toList_append]
      exact (isToken_natural v.number).endsVisible.append_left _
  have htrimmed := trimEndList_of_endsVisible hends
  rw [Version.toList_directive] at htrimmed ⊢
  refine isToken_directive ?_ htrimmed
  intro hline
  simp only [List.mem_cons, List.mem_append, Char.reduceEq, false_or] at hline
  obtain hline | hline := hline
  · cases hdigits _ hline
  · split at hline <;> simp at hline

/-- The text between two declarations. -/
def declGap : String :=
  newline 0 ++ newline 0

theorem printed_gap (h : Printed rest ps glued) : Printed (declGap.toList ++ rest) ps glued := by
  rw [declGap, String.toList_append, List.append_assoc]
  exact (h.newline 0).newline 0

theorem head_gap (c : Char) (hc : c ∈ (declGap.toList ++ rest).head?) : c = '\n' := by
  cases hc
  rfl

theorem printed_decls {ds : List (DeclTree Unit Unit)}
    (hvalid : ∀ d ∈ ds, DeclTree.Valid (Expr.Valid Literal.IsGenuine) d) :
    Printed (declGap.intercalate (ds.map DeclTree.print)).toList (ds.flatMap DeclTree.pieces)
      (fun m => ∃ d ∈ ds, DeclTree.Suffers m d) := by
  induction ds with
  | nil => exact Printed.nil.congr fun m => by simp
  | cons d ds ih =>
      have ih := ih fun d hd => hvalid d (List.mem_cons_of_mem _ hd)
      cases ds with
      | nil =>
          have hend : ∀ c ∈ ([] : List Char).head?, c = '\n' := fun c hc => nomatch hc
          have hlast := DeclTree.isPrinted (hvalid d List.mem_cons_self) hend Printed.nil
          simpa using hlast
      | cons d' ds =>
          have hwhole := DeclTree.isPrinted (hvalid d List.mem_cons_self) head_gap (printed_gap ih)
          rw [List.map_cons, List.map_cons, String.intercalate_cons_cons, String.toList_append,
            String.toList_append, List.append_assoc]
          exact hwhole.congr fun m => by simp

theorem endsVisible_decls {ds : List (DeclTree Unit Unit)}
    (hvalid : ∀ d ∈ ds, DeclTree.Valid (Expr.Valid Literal.IsGenuine) d) (hne : ds ≠ []) :
    EndsVisible (declGap.intercalate (ds.map DeclTree.print)).toList := by
  induction ds with
  | nil => exact absurd rfl hne
  | cons d ds ih =>
      cases ds with
      | nil => simpa using DeclTree.endsVisible (hvalid d List.mem_cons_self)
      | cons d' ds =>
          have ih := ih (fun d hd => hvalid d (List.mem_cons_of_mem _ hd)) (List.cons_ne_nil _ _)
          rw [List.map_cons, List.map_cons, String.intercalate_cons_cons, String.toList_append]
          exact ih.append_left _

theorem splitOn_eq {line : List Char} (h : '\n' ∉ line) : Text.splitOn '\n' line = [line] := by
  induction line with
  | nil => rfl
  | cons c line ih =>
    rw [List.mem_cons, not_or] at h
    rw [Text.splitOn, ih h.2]
    exact if_neg (Ne.symm h.1)

/-- Nothing but its end is put to one line that ends visibly. -/
theorem toList_tidyLines_oneLine {line : String} (h : '\n' ∉ line.toList)
    (hends : EndsVisible line.toList) : (tidyLines line).toList = line.toList ++ ['\n'] := by
  obtain ⟨c, hlast, hc⟩ := hends
  have hline : ['\n'].intercalate ([line.toList].map Text.trimEndList) = line.toList := by
    rw [List.map_singleton, trimEndList_of_endsVisible ⟨c, hlast, hc⟩]
    exact List.append_nil _
  rw [toList_tidyLines hlast hc, trimLines_eq, splitOn_eq h, hline]

theorem splitOn_line {line : List Char} (h : '\n' ∉ line) :
    Text.splitOn '\n' (line ++ declGap.toList) = [line, [], []] := by
  induction line with
  | nil => rfl
  | cons c line ih =>
      rw [List.mem_cons, not_or] at h
      rw [List.cons_append, Text.splitOn, ih h.2]
      exact if_neg (Ne.symm h.1)

/-- Of the text behind a line one end of a line is left. -/
theorem toList_tidyLines_line {kind : TokenKind} {line : String} (h : IsToken kind line.toList) :
    (tidyLines (line ++ declGap)).toList = line.toList ++ ['\n'] := by
  have hlines : Text.linesList (line ++ declGap).toList = [line.toList, []] := by
    rw [Text.linesList, String.toList_append, splitOn_line h.oneLine]
    rfl
  rw [tidyLines, hlines, List.map_cons, h.trimmed, String.toList_ofList]
  exact if_pos (by simp [Text.trimEndList, List.intercalate])

namespace Program

/-- Some member access in a program has a literal of nothing but decimal digits as its base. -/
def Glues (p : Program) : Prop :=
  ∃ d ∈ p.decls, DeclTree.Glues d

instance (p : Program) : Decidable p.Glues :=
  inferInstanceAs (Decidable (∃ d ∈ p.decls, ∃ e ∈ DeclTree.exprs d, e.form.isGlued = true))

/-- Something happens to a member in the text of a program. -/
def Suffers (m : Mishap) (p : Program) : Prop :=
  ∃ d ∈ p.decls, DeclTree.Suffers m d

theorem suffers_glued {p : Program} : p.Suffers .glued ↔ p.Glues := by
  simp only [Suffers, Glues, DeclTree.suffers_glued]

/-- The text of a program is written with its pieces, unless a member of digits is in it. -/
theorem isPrinted {p : Program} (hvalid : p.Valid (Expr.Valid Literal.IsGenuine)) :
    Printed p.print.toList p.pieces (p.Suffers ·) := by
  obtain ⟨version, ds⟩ := p
  have hdecls := printed_decls hvalid.decls
  have hends := endsVisible_decls hvalid.decls
  have hline : Printed ['\n'] [] fun _ => False := Printed.nil.blank rfl
  cases version with
  | none =>
      cases ds with
      | nil => exact hline.congr fun m => by simp [Suffers]
      | cons d ds => exact hdecls.tidyLines (hends (List.cons_ne_nil d ds))
  | some v =>
      have hversion := isToken_version v
      have hgoes : ∀ {rest : List Char}, (∀ c ∈ rest.head?, c = '\n') →
          ∀ c ∈ rest.head?, TokenKind.directive.goesOn v.directive.toList c = false :=
        fun h c hc => bne_eq_false_iff_eq.mpr (h c hc)
      have htext : print ⟨some v, ds⟩ = ShaderReducer.tidyLines
          (v.directive ++ declGap ++ declGap.intercalate (ds.map DeclTree.print)) := by
        rw [declGap, ← String.append_assoc]
        rfl
      rw [htext]
      cases ds with
      | nil =>
          have hnext : ∀ c ∈ ['\n'].head?, c = '\n' := fun c hc => (Option.some.inj hc).symm
          have hwhole := hline.token hversion (hgoes hnext)
          rw [List.map_nil, String.intercalate_nil, String.append_empty,
            toList_tidyLines_line hversion]
          exact hwhole.congr fun m => by simp [Suffers]
      | cons d ds =>
          have hwhole := (printed_gap hdecls).token hversion (hgoes head_gap)
          rw [← List.append_assoc, ← String.toList_append, ← String.toList_append] at hwhole
          refine hwhole.tidyLines ?_
          rw [String.toList_append]
          exact (hends (List.cons_ne_nil d ds)).append_left _

end Program

end ShaderReducer
