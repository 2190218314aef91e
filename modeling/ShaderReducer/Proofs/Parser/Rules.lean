import ShaderReducer.Proofs.Parser.Reads

/-!
# The rules of the grammar

Each rule by what its parts read.
-/

namespace ShaderReducer

namespace Parser

variable {t : Token} {ts after rest : List Token}

theorem headKind_cons : headKind (t :: after) = t.kind := rfl

/-! ## Expressions -/

section Expressions

variable {e left cond base : Expr Unit}

theorem reads_expression : Reads (expression ts) e rest ↔
    ∃ first mid, Reads (assignment ts) first mid ∧ Reads (expressionMore first mid) e rest := by
  rw [expression]
  simp

theorem reads_expressionMore_comma (ht : t.kind = .symbol .comma) :
    Reads (expressionMore left (t :: after)) e rest ↔ ∃ right mid,
      Reads (assignment after) right mid ∧
        Reads (expressionMore (.node () (.binary .comma left right)) mid) e rest := by
  rw [expressionMore, if_pos ht]
  simp

theorem reads_expressionMore_stop (h : headKind ts ≠ .symbol .comma) :
    Reads (expressionMore left ts) e rest ↔ e = left ∧ rest = ts := by
  cases ts with
  | nil => simp [expressionMore, Parsed.nothing]
  | cons t after =>
      rw [headKind_cons] at h
      rw [expressionMore, if_neg h]
      simp [Parsed.nothing]

theorem reads_assignment : Reads (assignment ts) e rest ↔
    ∃ first mid, Reads (conditional ts) first mid ∧ Reads (assignmentMore first mid) e rest := by
  rw [assignment]
  simp

theorem reads_assignmentMore_op {op : BinaryOp} (ht : t.kind.assignmentOp? = some op) :
    Reads (assignmentMore left (t :: after)) e rest ↔ ∃ right,
      Reads (assignment after) right rest ∧ e = .node () (.binary op left right) := by
  rw [assignmentMore, ht]
  simp

theorem reads_assignmentMore_stop (h : (headKind ts).assignmentOp? = none) :
    Reads (assignmentMore left ts) e rest ↔ e = left ∧ rest = ts := by
  cases ts with
  | nil => simp [assignmentMore, Parsed.nothing]
  | cons t after =>
      rw [headKind_cons] at h
      rw [assignmentMore, h]
      simp [Parsed.nothing]

theorem reads_conditional : Reads (conditional ts) e rest ↔
    ∃ first mid, Reads (binary Precedence.conditional ts) first mid ∧
      Reads (conditionalMore first mid) e rest := by
  rw [conditional]
  simp

theorem reads_conditionalMore_question (ht : t.kind = .symbol .question) :
    Reads (conditionalMore cond (t :: after)) e rest ↔ ∃ onTrue mid t' after' onFalse,
      Reads (expression after) onTrue mid ∧ mid = t' :: after' ∧ t'.kind = .symbol .colon ∧
        Reads (assignment after') onFalse rest ∧
        e = .node () (.ternary cond onTrue onFalse) := by
  rw [conditionalMore, if_pos ht]
  simp
  grind

theorem reads_conditionalMore_stop (h : headKind ts ≠ .symbol .question) :
    Reads (conditionalMore cond ts) e rest ↔ e = cond ∧ rest = ts := by
  cases ts with
  | nil => simp [conditionalMore, Parsed.nothing]
  | cons t after =>
      rw [headKind_cons] at h
      rw [conditionalMore, if_neg h]
      simp [Parsed.nothing]

theorem reads_binary {least : Nat} : Reads (binary least ts) e rest ↔
    ∃ first mid, Reads (unary ts) first mid ∧ Reads (binaryMore least first mid) e rest := by
  rw [binary]
  simp

theorem reads_binaryMore_op {least : Nat} {op : BinaryOp} (ht : t.kind.binaryOp? = some op)
    (hop : least < op.precedence) :
    Reads (binaryMore least left (t :: after)) e rest ↔ ∃ right mid,
      Reads (binary op.precedence after) right mid ∧
        Reads (binaryMore least (.node () (.binary op left right)) mid) e rest := by
  rw [binaryMore, ht]
  simp [hop]

theorem reads_binaryMore_stop {least : Nat}
    (h : ∀ op, (headKind ts).binaryOp? = some op → op.precedence ≤ least) :
    Reads (binaryMore least left ts) e rest ↔ e = left ∧ rest = ts := by
  cases ts with
  | nil => simp [binaryMore, Parsed.nothing]
  | cons t after =>
      rw [headKind_cons] at h
      rw [binaryMore]
      cases hop : t.kind.binaryOp? with
      | none => simp [Parsed.nothing]
      | some op => simp [Nat.not_lt.mpr (h op hop), Parsed.nothing]

theorem reads_unary_op {op : UnaryOp} (ht : t.kind.leadingOp? = some op) :
    Reads (unary (t :: after)) e rest ↔ ∃ operand,
      Reads (unary after) operand rest ∧ e = .node () (.unary op operand) := by
  rw [unary, ht]
  simp

theorem reads_unary_access (h : (headKind ts).leadingOp? = none) :
    Reads (unary ts) e rest ↔ Reads (access ts) e rest := by
  cases ts with
  | nil => rw [unary]
  | cons t after =>
      rw [headKind_cons] at h
      rw [unary, h]

theorem reads_access : Reads (access ts) e rest ↔
    ∃ first mid, Reads (primary ts) first mid ∧ Reads (accessMore first mid) e rest := by
  rw [access]
  simp

theorem reads_accessMore_index (ht : t.kind = .symbol .lBracket) :
    Reads (accessMore base (t :: after)) e rest ↔ ∃ offset mid t' after',
      Reads (expression after) offset mid ∧ mid = t' :: after' ∧ t'.kind = .symbol .rBracket ∧
        Reads (accessMore (.node () (.index base offset)) after') e rest := by
  rw [accessMore, ht]
  simp
  grind

theorem reads_accessMore_member (ht : t.kind = .symbol .dot) :
    Reads (accessMore base (t :: after)) e rest ↔ ∃ t' after',
      after = t' :: after' ∧ t'.kind = .identifier ∧
        Reads (accessMore (.node () (.member base t'.lexeme)) after') e rest := by
  rw [accessMore, ht]
  simp
  grind

theorem reads_accessMore_plusPlus (ht : t.kind = .symbol .plusPlus) :
    Reads (accessMore base (t :: after)) e rest ↔
      Reads (accessMore (.node () (.unary .postInc base)) after) e rest := by
  rw [accessMore, ht]
  simp

theorem reads_accessMore_minusMinus (ht : t.kind = .symbol .minusMinus) :
    Reads (accessMore base (t :: after)) e rest ↔
      Reads (accessMore (.node () (.unary .postDec base)) after) e rest := by
  rw [accessMore, ht]
  simp

theorem reads_accessMore_stop (hindex : headKind ts ≠ .symbol .lBracket)
    (hmember : headKind ts ≠ .symbol .dot) (hplus : headKind ts ≠ .symbol .plusPlus)
    (hminus : headKind ts ≠ .symbol .minusMinus) :
    Reads (accessMore base ts) e rest ↔ e = base ∧ rest = ts := by
  cases ts with
  | nil => simp [accessMore, Parsed.nothing]
  | cons t after =>
      rw [accessMore]
      rw [headKind_cons] at hindex hmember hplus hminus
      split
      next h => exact absurd h hindex
      next h => exact absurd h hmember
      next h => exact absurd h hplus
      next h => exact absurd h hminus
      next => simp [Parsed.nothing]

/-- The literal that a token stands for by itself. -/
def literal? (t : Token) : Option Literal :=
  match t.kind with
  | .intLiteral => some (.int t.lexeme)
  | .uintLiteral => some (.uint t.lexeme)
  | .floatLiteral => some (.float t.lexeme)
  | .keyword .kwTrue => some (.bool true)
  | .keyword .kwFalse => some (.bool false)
  | _ => none

theorem reads_primary_literal {value : Literal} (ht : literal? t = some value) :
    Reads (primary (t :: after)) e rest ↔ e = .node () (.literal value) ∧ rest = after := by
  unfold literal? at ht
  split at ht
  all_goals cases ht
  all_goals
    next hkind =>
      unfold primary
      simp [hkind, Parsed.one]

theorem reads_primary_ident (ht : t.kind = .identifier)
    (hafter : headKind after ≠ .symbol .lParen) :
    Reads (primary (t :: after)) e rest ↔ e = .node () (.ident t.lexeme) ∧ rest = after := by
  cases after with
  | nil =>
      rw [primary, ht]
      simp [Parsed.one]
  | cons t' after' =>
      rw [primary, ht]
      rw [headKind_cons] at hafter
      simp [hafter, Parsed.one]

theorem reads_primary_call {t' : Token} (ht : t.kind = .identifier)
    (ht' : t'.kind = .symbol .lParen) :
    Reads (primary (t :: t' :: after)) e rest ↔ ∃ args,
      Reads (arguments after) args rest ∧ e = .node () (.call t.lexeme args) := by
  rw [primary, ht]
  simp [ht']

theorem reads_primary_paren (ht : t.kind = .symbol .lParen) :
    Reads (primary (t :: after)) e rest ↔ ∃ inner t',
      Reads (expression after) inner (t' :: rest) ∧ t'.kind = .symbol .rParen ∧
        e = .node () (.paren inner) := by
  unfold primary
  simp [ht]
  grind

variable {args : List (Expr Unit)}

theorem reads_arguments_nil (ht : t.kind = .symbol .rParen) :
    Reads (arguments (t :: after)) args rest ↔ args = [] ∧ rest = after := by
  rw [arguments, if_pos ht]
  simp [Parsed.one]

theorem reads_arguments_cons (h : headKind ts ≠ .symbol .rParen) (hts : ts ≠ []) :
    Reads (arguments ts) args rest ↔ ∃ first mid more,
      Reads (assignment ts) first mid ∧ Reads (argumentsMore mid) more rest ∧
        args = first :: more := by
  cases ts with
  | nil => exact absurd rfl hts
  | cons t after =>
      rw [headKind_cons] at h
      rw [arguments, if_neg h]
      simp

theorem reads_argumentsMore_comma (ht : t.kind = .symbol .comma) :
    Reads (argumentsMore (t :: after)) args rest ↔ ∃ next mid more,
      Reads (assignment after) next mid ∧ Reads (argumentsMore mid) more rest ∧
        args = next :: more := by
  rw [argumentsMore, if_pos ht]
  simp

theorem reads_argumentsMore_stop (ht : t.kind ≠ .symbol .comma) :
    Reads (argumentsMore (t :: after)) args rest ↔
      t.kind = .symbol .rParen ∧ args = [] ∧ rest = after := by
  rw [argumentsMore, if_neg ht]
  simp
  grind

end Expressions

/-! ## Specifiers and declarators -/

section Specifiers

theorem reads_arraySize_some {size : Option Nat} (ht : t.kind = .symbol .lBracket) :
    Reads (arraySize (t :: after)) size rest ↔ ∃ t' n t'', after = t' :: t'' :: rest ∧
      (t'.kind = .intLiteral ∨ t'.kind = .uintLiteral) ∧ integerValue? t'.lexeme = some n ∧
        t''.kind = .symbol .rBracket ∧ size = some n := by
  unfold arraySize
  cases after with
  | nil => simp [ht]
  | cons t' after' =>
      by_cases hkind : t'.kind = .intLiteral ∨ t'.kind = .uintLiteral
      · cases hvalue : integerValue? t'.lexeme with
        | none =>
            simp only [List.length_cons, ht, ↓reduceIte, hkind, hvalue, reads_error, List.cons.injEq,
              false_iff, not_exists, not_and, and_imp]
            grind
        | some n =>
            simp only [List.length_cons, ht, ↓reduceIte, hkind, hvalue, bind_pure_comp,
              reads_loosen, reads_map, reads_since, reads_expectSymbol, exists_and_left,
              exists_prop, exists_eq_right', exists_const, List.cons.injEq]
            grind
      · simp only [List.length_cons, ht, ↓reduceIte, hkind, reads_error, List.cons.injEq, false_iff,
          not_exists, not_and, and_imp]
        grind

theorem reads_arraySize_stop {size : Option Nat} (h : headKind ts ≠ .symbol .lBracket) :
    Reads (arraySize ts) size rest ↔ size = none ∧ rest = ts := by
  cases ts with
  | nil => simp [arraySize, Parsed.nothing]
  | cons t after =>
      rw [headKind_cons] at h
      unfold arraySize
      simp [h, Parsed.nothing]

theorem reads_layoutValue_eq {value : Option String} (ht : t.kind = .symbol .eq) :
    Reads (layoutValue (t :: after)) value rest ↔ ∃ t', after = t' :: rest ∧
      (t'.kind = .intLiteral ∨ t'.kind = .uintLiteral ∨ t'.kind = .identifier) ∧
        value = some t'.lexeme := by
  unfold layoutValue
  cases after with
  | nil => simp [ht]
  | cons t' after' =>
      by_cases hkind : t'.kind = .intLiteral ∨ t'.kind = .uintLiteral ∨ t'.kind = .identifier
      · simp [ht, hkind]
        grind
      · simp [ht, hkind]

theorem reads_layoutValue_stop {value : Option String} (h : headKind ts ≠ .symbol .eq) :
    Reads (layoutValue ts) value rest ↔ value = none ∧ rest = ts := by
  cases ts with
  | nil => simp [layoutValue, Parsed.nothing]
  | cons t after =>
      rw [headKind_cons] at h
      unfold layoutValue
      simp [h, Parsed.nothing]

theorem reads_layoutItems {items : List LayoutItem} : Reads (layoutItems ts) items rest ↔
    ∃ t after value mid, ts = t :: after ∧ t.kind = .identifier ∧
      Reads (layoutValue after) value mid ∧
        ((∃ t' mid' more, mid = t' :: mid' ∧ t'.kind = .symbol .comma ∧
          Reads (layoutItems mid') more rest ∧ items = ⟨t.lexeme, value⟩ :: more) ∨
        (∃ t', mid = t' :: rest ∧ t'.kind = .symbol .rParen ∧
          items = [⟨t.lexeme, value⟩])) := by
  rw [layoutItems]
  simp only [bind_pure_comp, reads_bind, reads_ite, reads_map, reads_since,
    exists_eq_right_right', reads_expectSymbol, exists_prop, exists_const, reads_sinceMaybe,
    reads_identifier]
  constructor
  · rintro ⟨key, mid, ⟨t, rfl, ht, rfl⟩, value, mid', hvalue, hmore⟩
    refine ⟨t, mid, value, mid', rfl, ht, hvalue, ?_⟩
    obtain ⟨-, mid'', ⟨t', rfl, ht'⟩, more, hmore, rfl⟩ | ⟨-, ⟨t', rfl, ht'⟩, rfl⟩ := hmore
    · exact .inl ⟨t', mid'', more, rfl, ht', hmore, rfl⟩
    · exact .inr ⟨t', rfl, ht', rfl⟩
  · rintro ⟨t, mid, value, mid', rfl, ht, hvalue, hmore⟩
    refine ⟨t.lexeme, mid, ⟨t, rfl, ht, rfl⟩, value, mid', hvalue, ?_⟩
    obtain ⟨t', mid'', more, rfl, ht', hmore, rfl⟩ | ⟨t', rfl, ht', rfl⟩ := hmore
    · exact .inl ⟨ht', mid'', ⟨t', rfl, ht'⟩, more, hmore, rfl⟩
    · exact .inr ⟨by simp [headKind_cons, ht'], ⟨t', rfl, ht'⟩, rfl⟩

theorem reads_qualifiers_layout {qs : List Qualifier} (ht : t.kind = .keyword .kwLayout) :
    Reads (qualifiers (t :: after)) qs rest ↔ ∃ t' after' items mid more,
      after = t' :: after' ∧ t'.kind = .symbol .lParen ∧ Reads (layoutItems after') items mid ∧
        Reads (qualifiers mid) more rest ∧ qs = .layout items :: more := by
  rw [qualifiers, ht]
  simp
  grind

theorem reads_qualifiers_plain {qs : List Qualifier} {word : Keyword} {q : Qualifier}
    (ht : t.kind = .keyword word) (hq : plainQualifier? word = some q) :
    Reads (qualifiers (t :: after)) qs rest ↔ ∃ more,
      Reads (qualifiers after) more rest ∧ qs = q :: more := by
  rw [qualifiers, ht]
  have hword : word ≠ .kwLayout := by
    rintro rfl
    cases hq
  simp [hq]

theorem isQualifier_eq (word : Keyword) :
    word.isQualifier = (word == .kwLayout || (plainQualifier? word).isSome) := by
  cases word <;> rfl

theorem reads_qualifiers_stop {qs : List Qualifier} (h : (headKind ts).isQualifier = false) :
    Reads (qualifiers ts) qs rest ↔ qs = [] ∧ rest = ts := by
  cases ts with
  | nil => simp [qualifiers, Parsed.nothing]
  | cons t after =>
      rw [headKind_cons] at h
      rw [qualifiers]
      split
      next hkind =>
        rw [hkind] at h
        cases h
      next word _ hkind =>
        rw [hkind, TokenKind.isQualifier, isQualifier_eq, Bool.or_eq_false_iff,
          Option.isSome_eq_false_iff, Option.isNone_iff_eq_none] at h
        simp [h.2, Parsed.nothing]
      next => simp [Parsed.nothing]

theorem reads_typeSpec {type : TypeSpec} : Reads (typeSpec ts) type rest ↔ ∃ qs t,
    Reads (qualifiers ts) qs (t :: rest) ∧ t.kind = .identifier ∧ type = ⟨qs, t.lexeme⟩ := by
  rw [typeSpec]
  simp
  grind

variable {init : Option (Expr Unit)} {name : String} {d : Declarator (Expr Unit)}
  {ds : List (Declarator (Expr Unit))}

theorem reads_initializer_eq (ht : t.kind = .symbol .eq) :
    Reads (initializer (t :: after)) init rest ↔ ∃ value,
      Reads (assignment after) value rest ∧ init = some value := by
  rw [initializer, if_pos ht]
  simp

theorem reads_initializer_stop (h : headKind ts ≠ .symbol .eq) :
    Reads (initializer ts) init rest ↔ init = none ∧ rest = ts := by
  cases ts with
  | nil => simp [initializer, Parsed.nothing]
  | cons t after =>
      rw [headKind_cons] at h
      rw [initializer, if_neg h]
      simp [Parsed.nothing]

theorem reads_declarator : Reads (declarator name ts) d rest ↔ ∃ size mid init,
    Reads (arraySize ts) size mid ∧ Reads (initializer mid) init rest ∧
      d = ⟨name, size, init⟩ := by
  rw [declarator]
  simp

theorem reads_declaratorsMore_comma (ht : t.kind = .symbol .comma) :
    Reads (declaratorsMore (t :: after)) ds rest ↔ ∃ t' after' first mid more,
      after = t' :: after' ∧ t'.kind = .identifier ∧
        Reads (declarator t'.lexeme after') first mid ∧
        Reads (declaratorsMore mid) more rest ∧ ds = first :: more := by
  rw [declaratorsMore, if_pos ht]
  simp
  grind

theorem reads_declaratorsMore_stop (ht : t.kind ≠ .symbol .comma) :
    Reads (declaratorsMore (t :: after)) ds rest ↔
      t.kind = .symbol .semicolon ∧ ds = [] ∧ rest = after := by
  rw [declaratorsMore, if_neg ht]
  simp
  grind

theorem reads_varDecl {type : TypeSpec} {decl : VarDecl (Expr Unit)} :
    Reads (varDecl type name ts) decl rest ↔ ∃ first mid more,
      Reads (declarator name ts) first mid ∧ Reads (declaratorsMore mid) more rest ∧
        decl = ⟨type, first :: more⟩ := by
  rw [varDecl]
  simp

end Specifiers

/-! ## Statements -/

section Statements

variable {s : Stmt Unit Unit} {value : Option (Expr Unit)} {e : Expr Unit}

theorem reads_declaration {decl : VarDecl (Expr Unit)} :
    Reads (declaration ts) decl rest ↔ ∃ type t after, Reads (typeSpec ts) type (t :: after) ∧
      t.kind = .identifier ∧ Reads (varDecl type t.lexeme after) decl rest := by
  rw [declaration]
  simp
  grind

theorem reads_expressionUnless_none {sign : Symbol} (h : headKind ts = .symbol sign) :
    Reads (expressionUnless sign ts) value rest ↔ value = none ∧ rest = ts := by
  rw [expressionUnless, if_pos h]
  simp [Parsed.nothing]

theorem reads_expressionUnless_some {sign : Symbol} (h : headKind ts ≠ .symbol sign) :
    Reads (expressionUnless sign ts) value rest ↔ ∃ e,
      Reads (expression ts) e rest ∧ value = some e := by
  rw [expressionUnless, if_neg h]
  simp

theorem reads_expressionStatement : Reads (expressionStatement ts) s rest ↔ ∃ e t,
    Reads (expression ts) e (t :: rest) ∧ t.kind = .symbol .semicolon ∧
      s = .node () (.expr e) := by
  rw [expressionStatement]
  simp
  grind

theorem reads_declarationOrExpression_vars (h : startsDeclaration ts = true) :
    Reads (declarationOrExpression ts) s rest ↔ ∃ decl,
      Reads (declaration ts) decl rest ∧ s = .node () (.vars decl) := by
  rw [declarationOrExpression, if_pos h]
  simp

theorem reads_declarationOrExpression_expr (h : startsDeclaration ts = false) :
    Reads (declarationOrExpression ts) s rest ↔ Reads (expressionStatement ts) s rest := by
  rw [declarationOrExpression, if_neg (by rw [h]; exact Bool.false_ne_true)]

theorem reads_loopStart_empty (ht : t.kind = .symbol .semicolon) :
    Reads (loopStart (t :: after)) s rest ↔ s = .node () .empty ∧ rest = after := by
  rw [loopStart, if_pos ht]
  simp [Parsed.one]

theorem reads_loopStart_other (h : headKind ts ≠ .symbol .semicolon) :
    Reads (loopStart ts) s rest ↔ Reads (declarationOrExpression ts) s rest := by
  cases ts with
  | nil => rw [loopStart]
  | cons t after =>
      rw [headKind_cons] at h
      rw [loopStart, if_neg h]

theorem reads_wordStatement {form : StmtNode (Expr Unit) (Stmt Unit Unit)} :
    Reads (wordStatement form ts) s rest ↔ ∃ t, ts = t :: rest ∧
      t.kind = .symbol .semicolon ∧ s = .node () form := by
  rw [wordStatement]
  simp
  grind

theorem reads_condition : Reads (condition ts) e rest ↔ ∃ t after t', ts = t :: after ∧
    t.kind = .symbol .lParen ∧ Reads (expression after) e (t' :: rest) ∧
      t'.kind = .symbol .rParen := by
  rw [condition]
  simp
  grind

theorem reads_statement_block (ht : t.kind = .symbol .lBrace) :
    Reads (statement (t :: after)) s rest ↔ ∃ body,
      Reads (blockBody after) body rest ∧ s = .node () (.block body) := by
  rw [statement, ht]
  simp

theorem reads_statement_if (ht : t.kind = .keyword .kwIf) :
    Reads (statement (t :: after)) s rest ↔ ∃ cond mid onTrue mid' onFalse,
      Reads (condition after) cond mid ∧ Reads (statement mid) onTrue mid' ∧
        Reads (elseBranch mid') onFalse rest ∧
        s = .node () (.ifElse cond onTrue onFalse) := by
  rw [statement, ht]
  simp

theorem reads_statement_for (ht : t.kind = .keyword .kwFor) :
    Reads (statement (t :: after)) s rest ↔ ∃ t₁ mid₁ start mid₂ cond t₂ mid₃ step t₃ mid₄ body,
      after = t₁ :: mid₁ ∧ t₁.kind = .symbol .lParen ∧ Reads (loopStart mid₁) start mid₂ ∧
        Reads (expressionUnless .semicolon mid₂) cond (t₂ :: mid₃) ∧
        t₂.kind = .symbol .semicolon ∧ Reads (expressionUnless .rParen mid₃) step (t₃ :: mid₄) ∧
        t₃.kind = .symbol .rParen ∧ Reads (statement mid₄) body rest ∧
        s = .node () (.forLoop start cond step body) := by
  rw [statement, ht]
  simp
  grind

theorem reads_statement_while (ht : t.kind = .keyword .kwWhile) :
    Reads (statement (t :: after)) s rest ↔ ∃ cond mid body,
      Reads (condition after) cond mid ∧ Reads (statement mid) body rest ∧
        s = .node () (.whileLoop cond body) := by
  rw [statement, ht]
  simp

theorem reads_statement_do (ht : t.kind = .keyword .kwDo) :
    Reads (statement (t :: after)) s rest ↔ ∃ body t₁ mid cond t₂,
      Reads (statement after) body (t₁ :: mid) ∧ t₁.kind = .keyword .kwWhile ∧
        Reads (condition mid) cond (t₂ :: rest) ∧ t₂.kind = .symbol .semicolon ∧
        s = .node () (.doWhile body cond) := by
  rw [statement, ht]
  simp
  grind

theorem reads_statement_return (ht : t.kind = .keyword .kwReturn) :
    Reads (statement (t :: after)) s rest ↔ ∃ value t',
      Reads (expressionUnless .semicolon after) value (t' :: rest) ∧
        t'.kind = .symbol .semicolon ∧ s = .node () (.returns value) := by
  rw [statement, ht]
  simp
  grind

theorem reads_statement_break (ht : t.kind = .keyword .kwBreak) :
    Reads (statement (t :: after)) s rest ↔ Reads (wordStatement .breaks after) s rest := by
  rw [statement, ht]
  simp

theorem reads_statement_continue (ht : t.kind = .keyword .kwContinue) :
    Reads (statement (t :: after)) s rest ↔ Reads (wordStatement .continues after) s rest := by
  rw [statement, ht]
  simp

theorem reads_statement_discard (ht : t.kind = .keyword .kwDiscard) :
    Reads (statement (t :: after)) s rest ↔ Reads (wordStatement .discards after) s rest := by
  rw [statement, ht]
  simp

theorem reads_statement_empty (ht : t.kind = .symbol .semicolon) :
    Reads (statement (t :: after)) s rest ↔ s = .node () .empty ∧ rest = after := by
  rw [statement, ht]
  simp [Parsed.one]

/-- Whether a token starts a statement that is no declaration and no expression. -/
def startsOtherStatement : TokenKind → Bool
  | .symbol .lBrace | .symbol .semicolon => true
  | .keyword .kwIf | .keyword .kwFor | .keyword .kwWhile | .keyword .kwDo | .keyword .kwReturn
  | .keyword .kwBreak | .keyword .kwContinue | .keyword .kwDiscard => true
  | _ => false

theorem reads_statement_simple (h : startsOtherStatement (headKind ts) = false) :
    Reads (statement ts) s rest ↔ Reads (declarationOrExpression ts) s rest := by
  cases ts with
  | nil => rw [statement]
  | cons t after =>
      rw [headKind_cons] at h
      rw [statement]
      split
      all_goals first
        | rfl
        | next hkind =>
            rw [hkind] at h
            cases h

theorem reads_elseBranch_some {onFalse : Option (Stmt Unit Unit)} (ht : t.kind = .keyword .kwElse) :
    Reads (elseBranch (t :: after)) onFalse rest ↔ ∃ s,
      Reads (statement after) s rest ∧ onFalse = some s := by
  rw [elseBranch, if_pos ht]
  simp

theorem reads_elseBranch_none {onFalse : Option (Stmt Unit Unit)}
    (h : headKind ts ≠ .keyword .kwElse) :
    Reads (elseBranch ts) onFalse rest ↔ onFalse = none ∧ rest = ts := by
  cases ts with
  | nil => simp [elseBranch, Parsed.nothing]
  | cons t after =>
      rw [headKind_cons] at h
      rw [elseBranch, if_neg h]
      simp [Parsed.nothing]

variable {body : List (Stmt Unit Unit)}

theorem reads_blockBody_nil (ht : t.kind = .symbol .rBrace) :
    Reads (blockBody (t :: after)) body rest ↔ body = [] ∧ rest = after := by
  rw [blockBody, if_pos ht]
  simp [Parsed.one]

theorem reads_blockBody_cons (h : headKind ts ≠ .symbol .rBrace) (hts : ts ≠ []) :
    Reads (blockBody ts) body rest ↔ ∃ first mid more,
      Reads (statement ts) first mid ∧ Reads (blockBody mid) more rest ∧
        body = first :: more := by
  cases ts with
  | nil => exact absurd rfl hts
  | cons t after =>
      rw [headKind_cons] at h
      rw [blockBody, if_neg h]
      simp

theorem reads_block : Reads (block ts) s rest ↔ ∃ t after body, ts = t :: after ∧
    t.kind = .symbol .lBrace ∧ Reads (blockBody after) body rest ∧
      s = .node () (.block body) := by
  rw [block]
  simp
  grind

end Statements

/-! ## Programs -/

section Programs

variable {type : TypeSpec} {fields : List FieldDecl}

theorem reads_fieldsMore_comma (ht : t.kind = .symbol .comma) :
    Reads (fieldsMore type (t :: after)) fields rest ↔ ∃ t' after' size mid more,
      after = t' :: after' ∧ t'.kind = .identifier ∧ Reads (arraySize after') size mid ∧
        Reads (fieldsMore type mid) more rest ∧ fields = ⟨type, t'.lexeme, size⟩ :: more := by
  rw [fieldsMore, if_pos ht]
  simp
  grind

theorem reads_fieldsMore_stop (ht : t.kind ≠ .symbol .comma) :
    Reads (fieldsMore type (t :: after)) fields rest ↔
      t.kind = .symbol .semicolon ∧ fields = [] ∧ rest = after := by
  rw [fieldsMore, if_neg ht]
  simp
  grind

theorem reads_structFields_nil (ht : t.kind = .symbol .rBrace) :
    Reads (structFields (t :: after)) fields rest ↔ fields = [] ∧ rest = after := by
  rw [structFields, if_pos ht]
  simp [Parsed.one]

theorem reads_structFields_cons (h : headKind ts ≠ .symbol .rBrace) (hts : ts ≠ []) :
    Reads (structFields ts) fields rest ↔ ∃ type t after size mid same mid' more,
      Reads (typeSpec ts) type (t :: after) ∧ t.kind = .identifier ∧
        Reads (arraySize after) size mid ∧ Reads (fieldsMore type mid) same mid' ∧
        Reads (structFields mid') more rest ∧
        fields = ⟨type, t.lexeme, size⟩ :: (same ++ more) := by
  cases ts with
  | nil => exact absurd rfl hts
  | cons t after =>
      rw [headKind_cons] at h
      rw [structFields, if_neg h]
      simp
      grind

theorem reads_structDecl {decl : StructDecl} : Reads (structDecl ts) decl rest ↔
    ∃ t t' after fields t'', ts = t :: t' :: after ∧ t.kind = .identifier ∧
      t'.kind = .symbol .lBrace ∧ Reads (structFields after) fields (t'' :: rest) ∧
      t''.kind = .symbol .semicolon ∧ decl = ⟨t.lexeme, fields⟩ := by
  rw [structDecl]
  simp
  grind

theorem reads_precisionDecl {d : DeclTree Unit Unit} : Reads (precisionDecl ts) d rest ↔
    ∃ t t' t'' level, ts = t :: t' :: t'' :: rest ∧ precision? t = some level ∧
      t'.kind = .identifier ∧ t''.kind = .symbol .semicolon ∧
      d = .precision level t'.lexeme := by
  cases ts with
  | nil => simp [precisionDecl]
  | cons t after =>
      rw [precisionDecl]
      dsimp only
      split
      next level hlevel =>
        simp only [List.length_cons, bind_pure_comp, reads_bind, reads_map, reads_since,
          reads_expectSymbol, exists_and_left, exists_prop, exists_eq_right', exists_const,
          reads_name, List.cons.injEq]
        grind
      next hlevel =>
        simp only [List.length_cons, reads_error, List.cons.injEq, exists_and_left, false_iff,
          not_exists, not_and, and_imp]
        grind

theorem reads_param {p : Param} : Reads (param ts) p rest ↔ ∃ type mid,
    Reads (typeSpec ts) type mid ∧
      ((∃ t after size, mid = t :: after ∧ t.kind = .identifier ∧
        Reads (arraySize after) size rest ∧ p = ⟨type, some t.lexeme, size⟩) ∨
      (headKind mid ≠ .identifier ∧ rest = mid ∧ p = ⟨type, none, none⟩)) := by
  rw [param]
  simp only [bind_pure_comp, reads_bind, reads_ite, reads_map, reads_sinceMaybe,
    exists_eq_right_right', reads_since, reads_identifier, exists_prop, reads_pure, ne_eq]
  constructor
  · rintro ⟨type, mid, htype, ⟨-, _, _, ⟨t, rfl, ht, rfl⟩, size, hsize, rfl⟩ | ⟨hname, rfl, rfl⟩⟩
    · exact ⟨type, _, htype, .inl ⟨t, _, size, rfl, ht, hsize, rfl⟩⟩
    · exact ⟨type, _, htype, .inr ⟨hname, rfl, rfl⟩⟩
  · rintro ⟨type, mid, htype, ⟨t, after, size, rfl, ht, hsize, rfl⟩ | ⟨hname, rfl, rfl⟩⟩
    · exact ⟨type, _, htype, .inl ⟨ht, _, _, ⟨t, rfl, ht, rfl⟩, size, hsize, rfl⟩⟩
    · exact ⟨type, _, htype, .inr ⟨hname, rfl, rfl⟩⟩

variable {ps : List Param}

theorem reads_paramsMore_comma (ht : t.kind = .symbol .comma) :
    Reads (paramsMore (t :: after)) ps rest ↔ ∃ next mid more,
      Reads (param after) next mid ∧ Reads (paramsMore mid) more rest ∧ ps = next :: more := by
  rw [paramsMore, if_pos ht]
  simp

theorem reads_paramsMore_stop (ht : t.kind ≠ .symbol .comma) :
    Reads (paramsMore (t :: after)) ps rest ↔
      t.kind = .symbol .rParen ∧ ps = [] ∧ rest = after := by
  rw [paramsMore, if_neg ht]
  simp
  grind

theorem reads_params_nil (ht : t.kind = .symbol .rParen) :
    Reads (params (t :: after)) ps rest ↔ ps = [] ∧ rest = after := by
  rw [params, headKind_cons, if_pos ht]
  simp
  grind

theorem reads_params_cons (h : headKind ts ≠ .symbol .rParen) :
    Reads (params ts) ps rest ↔ ∃ first mid more,
      Reads (param ts) first mid ∧ Reads (paramsMore mid) more rest ∧ ps = first :: more := by
  rw [params, if_neg h]
  simp

theorem reads_functionBody {body : Option (Stmt Unit Unit)} :
    Reads (functionBody ts) body rest ↔
      (∃ t, ts = t :: rest ∧ t.kind = .symbol .semicolon ∧ body = none) ∨
      (∃ s, Reads (block ts) s rest ∧ body = some s) := by
  rw [functionBody, reads_ite, reads_ite]
  simp only [bind_pure_comp, reads_map, reads_expectSymbol, exists_prop, exists_const,
    exists_eq_right_right', reads_error, and_false, or_false]
  constructor
  · rintro (⟨-, ⟨t, rfl, ht⟩, rfl⟩ | ⟨-, -, s, hs, rfl⟩)
    · exact .inl ⟨t, rfl, ht, rfl⟩
    · exact .inr ⟨s, hs, rfl⟩
  · rintro (⟨t, rfl, ht, rfl⟩ | ⟨s, hs, rfl⟩)
    · exact .inl ⟨ht, ⟨t, rfl, ht⟩, rfl⟩
    · obtain ⟨t, after, body, rfl, ht, -, -⟩ := reads_block.mp hs
      exact .inr ⟨by simp [headKind_cons, ht], ht, s, hs, rfl⟩

theorem reads_functionOrVars_function {name : String} {d : DeclTree Unit Unit}
    (ht : t.kind = .symbol .lParen) :
    Reads (functionOrVars type name (t :: after)) d rest ↔ ∃ ps mid body,
      Reads (params after) ps mid ∧ Reads (functionBody mid) body rest ∧
        d = .function ⟨type, name, withoutVoid ps, body⟩ := by
  rw [functionOrVars, headKind_cons, if_pos ht]
  simp only [List.length_cons, bind_pure_comp, reads_bind, reads_map, reads_since,
    exists_eq_right_right', reads_expectSymbol, List.cons.injEq, exists_prop, exists_const,
    exists_and_left]
  constructor
  · rintro ⟨_, ⟨_, ⟨rfl, rfl⟩, -⟩, hparts⟩
    exact hparts
  · exact fun hparts => ⟨after, ⟨t, ⟨rfl, rfl⟩, ht⟩, hparts⟩

theorem reads_functionOrVars_vars {name : String} {d : DeclTree Unit Unit}
    (h : headKind ts ≠ .symbol .lParen) :
    Reads (functionOrVars type name ts) d rest ↔ ∃ decl,
      Reads (varDecl type name ts) decl rest ∧ d = .vars decl := by
  rw [functionOrVars, if_neg h]
  simp

/-- The ways to read a declaration at top level. -/
inductive ReadsTop : List Token → Option (DeclTree Unit Unit) → List Token → Prop
  | directive {t : Token} {rest : List Token} (ht : t.kind = .directive) :
    ReadsTop (t :: rest) (some (.directive t.lexeme)) rest
  | semicolon {t : Token} {rest : List Token} (ht : t.kind = .symbol .semicolon) :
    ReadsTop (t :: rest) none rest
  | precision {t : Token} {after rest : List Token} {d : DeclTree Unit Unit}
    (ht : t.kind = .keyword .kwPrecision) (h : Reads (precisionDecl after) d rest) :
    ReadsTop (t :: after) (some d) rest
  | struct {t : Token} {after rest : List Token} {decl : StructDecl}
    (ht : t.kind = .keyword .kwStruct) (h : Reads (structDecl after) decl rest) :
    ReadsTop (t :: after) (some (.struct decl)) rest
  | typed {t t' : Token} {after mid rest : List Token} {type : TypeSpec} {d : DeclTree Unit Unit}
    (ht : t.kind = .identifier ∨ t.kind.isQualifier = true)
    (htype : Reads (typeSpec (t :: after)) type (t' :: mid)) (ht' : t'.kind = .identifier)
    (h : Reads (functionOrVars type t'.lexeme mid) d rest) :
    ReadsTop (t :: after) (some d) rest

theorem reads_topLevel {d : Option (DeclTree Unit Unit)} :
    Reads (topLevel ts) d rest ↔ ReadsTop ts d rest := by
  constructor
  · intro h
    cases ts with
    | nil => simp [topLevel] at h
    | cons t after =>
        simp only [List.length_cons, topLevel, Parsed.one, bind_pure_comp, reads_ite, reads_pure,
          reads_map, reads_since, exists_eq_right_right', reads_bind,
          reads_identifier, exists_prop, not_or, Bool.not_eq_true, reads_error, and_false,
          or_false] at h
        obtain ⟨ht, rfl, rfl⟩ | ⟨-, ⟨ht, rfl, rfl⟩ | ⟨-, ⟨ht, d, hd, rfl⟩ | ⟨-, ⟨ht, d, hd, rfl⟩ |
          ⟨-, ht, type, _, htype, _, _, ⟨t', rfl, ht', rfl⟩, d, hd, rfl⟩⟩⟩⟩ := h
        · exact .directive ht
        · exact .semicolon ht
        · exact .precision ht hd
        · exact .struct ht hd
        · exact .typed ht htype ht' hd
  · intro h
    cases h with
    | directive ht => simp [topLevel, ht, Parsed.one]
    | semicolon ht => simp [topLevel, ht, Parsed.one]
    | precision ht hd => simpa [topLevel, ht] using hd
    | struct ht hd => simpa [topLevel, ht] using hd
    | @typed t t' after mid rest type d ht htype ht' hd =>
        have hkinds : t.kind ≠ .directive ∧ t.kind ≠ .symbol .semicolon ∧
            t.kind ≠ .keyword .kwPrecision ∧ t.kind ≠ .keyword .kwStruct := by
          obtain ht | ht := ht
          · simp [ht]
          · refine ⟨?_, ?_, ?_, ?_⟩
            all_goals
              intro hkind
              rw [hkind] at ht
              cases ht
        simp only [List.length_cons, topLevel, hkinds, ↓reduceIte, ht, bind_pure_comp, reads_bind,
          reads_map, Option.some.injEq, reads_since, exists_eq_right_right',
          exists_eq_right', reads_identifier, exists_prop]
        exact ⟨type, _, htype, _, _, ⟨t', rfl, ht', rfl⟩, hd⟩

theorem declarations_nil : declarations [] = .ok [] := by
  rw [declarations]
  rfl

theorem declarations_eq_ok {ds : List (DeclTree Unit Unit)} (hts : ts ≠ []) :
    declarations ts = .ok ds ↔ ∃ d mid more,
      ReadsTop ts d mid ∧ declarations mid = .ok more ∧ ds = d.toList ++ more := by
  cases ts with
  | nil => exact absurd rfl hts
  | cons t after =>
      simp only [← reads_topLevel, Reads]
      rw [declarations]
      cases h : topLevel (t :: after) with
      | error failure => simp [bind, Except.bind]
      | ok p =>
          simp only [bind, Except.bind, pure, Except.pure]
          cases hmore : declarations p.rest with
          | error failure =>
              simp only [reduceCtorEq, false_iff]
              rintro ⟨d, mid, more, ⟨_, heq⟩, hmore', -⟩
              cases heq
              rw [hmore] at hmore'
              cases hmore'
          | ok more =>
              simp only [Except.ok.injEq]
              constructor
              · rintro rfl
                exact ⟨p.value, p.rest, more, ⟨p.fewer, rfl⟩, hmore, rfl⟩
              · rintro ⟨d, mid, more', ⟨_, heq⟩, hmore', rfl⟩
                cases heq
                rw [hmore] at hmore'
                cases hmore'
                rfl

end Programs

end Parser

end ShaderReducer
