import ShaderReducer.Proofs.Parser.Rules
import ShaderReducer.Proofs.Syntax.Pieces
import ShaderReducer.Proofs.Syntax.Valid

/-!
# Reading expressions back

The grammar reads a tight tree from the tokens of its pieces, if the token after them does not go on
with it. How far a token may go on is its strength: the least precedence of an expression that ends
before it.
-/

namespace ShaderReducer

namespace Parser

variable {t : Token} {ts mid rest : List Token}

/-- The tokens `ts` are some pieces and then the tokens `rest`. -/
def Spelled (pieces : List Piece) (ts rest : List Token) : Prop :=
  ∃ used, ts = used ++ rest ∧ used.map Token.piece = pieces

@[simp] theorem spelled_nil : Spelled [] ts rest ↔ ts = rest := by
  constructor
  · rintro ⟨used, rfl, hused⟩
    rw [List.map_eq_nil_iff.mp hused, List.nil_append]
  · rintro rfl
    exact ⟨[], rfl, rfl⟩

@[simp] theorem spelled_cons {p : Piece} {ps : List Piece} : Spelled (p :: ps) ts rest ↔
    ∃ t after, ts = t :: after ∧ t.piece = p ∧ Spelled ps after rest := by
  constructor
  · rintro ⟨used, rfl, hused⟩
    obtain ⟨t, more, rfl, ht, hmore⟩ := List.map_eq_cons_iff.mp hused
    exact ⟨t, more ++ rest, rfl, ht, more, rfl, hmore⟩
  · rintro ⟨t, _, rfl, rfl, more, rfl, rfl⟩
    exact ⟨t :: more, rfl, rfl⟩

@[simp] theorem spelled_append {ps qs : List Piece} : Spelled (ps ++ qs) ts rest ↔
    ∃ mid, Spelled ps ts mid ∧ Spelled qs mid rest := by
  constructor
  · rintro ⟨used, rfl, hused⟩
    obtain ⟨first, second, rfl, hfirst, hsecond⟩ := List.map_eq_append_iff.mp hused
    exact ⟨second ++ rest, ⟨first, List.append_assoc _ _ _, hfirst⟩, second, rfl, hsecond⟩
  · rintro ⟨mid, ⟨first, rfl, rfl⟩, second, rfl, rfl⟩
    exact ⟨first ++ second, (List.append_assoc _ _ _).symm, List.map_append⟩

theorem kind_of_piece {p : Piece} (h : t.piece = p) : t.kind = p.kind :=
  congrArg Piece.kind h

theorem lexeme_of_piece {p : Piece} (h : t.piece = p) : t.lexeme = p.text :=
  congrArg Piece.text h

/-! ## Strength -/

/-- The least precedence of an expression that a token does not go on with; zero if it goes on with
none. -/
def strength : TokenKind → Nat
  | .symbol .lParen => Precedence.primary
  | .symbol .lBracket | .symbol .dot | .symbol .plusPlus | .symbol .minusMinus =>
    Precedence.access
  | .symbol .question => Precedence.conditional
  | .symbol .comma => Precedence.comma
  | kind => max kind.precedence ((kind.assignmentOp?.map BinaryOp.precedence).getD 0)

theorem strength_symbol (op : BinaryOp) : strength (.symbol op.symbol) = op.precedence := by
  cases op <;> rfl

theorem precedence_le_strength {kind : TokenKind} {op : BinaryOp} (h : kind.binaryOp? = some op) :
    op.precedence ≤ strength kind := by
  cases kind with
  | symbol sign =>
      cases sign <;> cases h <;> decide
  | _ => cases h

theorem assignment_le_strength {kind : TokenKind} {op : BinaryOp}
    (h : kind.assignmentOp? = some op) : Precedence.assignment ≤ strength kind := by
  cases kind with
  | symbol sign =>
      cases sign <;> cases h <;> decide
  | _ => cases h

section Stops

variable {e left : Expr Unit}

theorem accessMore_stop (h : strength (headKind ts) < Precedence.access) :
    Reads (accessMore left ts) e rest ↔ e = left ∧ rest = ts := by
  refine reads_accessMore_stop ?_ ?_ ?_ ?_
  all_goals
    intro hkind
    rw [hkind] at h
    exact absurd h (by decide)

theorem binaryMore_stop {least : Nat} (h : strength (headKind ts) ≤ least) :
    Reads (binaryMore least left ts) e rest ↔ e = left ∧ rest = ts :=
  reads_binaryMore_stop fun _ hop => Nat.le_trans (precedence_le_strength hop) h

theorem conditionalMore_stop (h : strength (headKind ts) < Precedence.conditional) :
    Reads (conditionalMore left ts) e rest ↔ e = left ∧ rest = ts := by
  refine reads_conditionalMore_stop fun hkind => ?_
  rw [hkind] at h
  exact absurd h (by decide)

theorem assignmentMore_stop (h : strength (headKind ts) < Precedence.assignment) :
    Reads (assignmentMore left ts) e rest ↔ e = left ∧ rest = ts := by
  refine reads_assignmentMore_stop ?_
  cases hop : (headKind ts).assignmentOp? with
  | none => rfl
  | some op => exact absurd (assignment_le_strength hop) (Nat.not_le.mpr h)

theorem expressionMore_stop (h : strength (headKind ts) < Precedence.comma) :
    Reads (expressionMore left ts) e rest ↔ e = left ∧ rest = ts := by
  refine reads_expressionMore_stop fun hkind => ?_
  rw [hkind] at h
  exact absurd h (by decide)

end Stops

/-! ## How expressions start -/

/-- Whether a token may be the first of an expression. -/
def startsExpression : TokenKind → Bool
  | .intLiteral | .uintLiteral | .floatLiteral | .identifier => true
  | .keyword .kwTrue | .keyword .kwFalse => true
  | .symbol .lParen => true
  | kind => kind.leadingOp?.isSome

/-- Some pieces that an expression may start with: the first of them may be the first of an
expression, and two names do not stand side by side. -/
def Opens (ps : List Piece) : Prop :=
  ∃ p more, ps = p :: more ∧ startsExpression p.kind = true ∧
    (p.kind = .identifier → ∀ q ∈ more.head?, q.kind ≠ .identifier)

theorem Opens.append {ps qs : List Piece} (h : Opens ps)
    (hqs : ∀ q ∈ qs.head?, q.kind ≠ .identifier) : Opens (ps ++ qs) := by
  obtain ⟨p, more, rfl, hp, hmore⟩ := h
  refine ⟨p, more ++ qs, rfl, hp, fun hname q hq => ?_⟩
  cases more with
  | nil => exact hqs q hq
  | cons q' more => exact hmore hname q hq

theorem opens_cons {p : Piece} {ps : List Piece} (hp : startsExpression p.kind = true)
    (hname : p.kind ≠ .identifier) : Opens (p :: ps) :=
  ⟨p, ps, rfl, hp, fun h => absurd h hname⟩

/-- An expression does not start like a declaration or another statement. -/
theorem Opens.notDeclaration {ps : List Piece} (h : Opens ps) (hs : Spelled ps ts rest)
    (hrest : headKind rest ≠ .identifier) :
    startsDeclaration ts = false ∧ startsExpression (headKind ts) = true := by
  obtain ⟨p, more, rfl, hp, hmore⟩ := h
  obtain ⟨t, after, rfl, rfl, hafter⟩ := spelled_cons.mp hs
  refine ⟨?_, hp⟩
  change startsExpression t.kind = true at hp
  change t.kind = .identifier → _ at hmore
  rw [startsDeclaration, Bool.or_eq_false_iff, Bool.and_eq_false_iff, beq_eq_false_iff_ne,
    beq_eq_false_iff_ne]
  constructor
  · cases hkind : t.kind with
    | keyword word =>
        rw [hkind] at hp
        cases word <;> first | rfl | cases hp
    | _ => rfl
  · refine or_iff_not_imp_left.mpr fun hname => ?_
    cases more with
    | nil =>
        rw [spelled_nil.mp hafter]
        exact hrest
    | cons q more =>
        obtain ⟨t', after', rfl, rfl, -⟩ := spelled_cons.mp hafter
        exact hmore (not_not.mp hname) _ rfl

end Parser

/-!
## Tight trees are read back

Every rule of the grammar reads a tree that binds tightly enough for it. The rules that go on after
a first part are told of by what they make of the tokens after the tree.
-/

namespace Parser

variable {e : Expr Unit}

/-! ## Levels -/

/-- The rule for primary expressions reads a tree. -/
def PrimaryBack (e : Expr Unit) : Prop :=
  ∀ ts rest, Spelled e.pieces ts rest → strength (headKind rest) < Precedence.primary →
    Reads (primary ts) e rest

/-- The rule for members and indices reads a tree and goes on with the tokens after it. -/
def AccessBack (e : Expr Unit) : Prop :=
  ∀ ts rest v last, Spelled e.pieces ts rest → strength (headKind rest) < Precedence.primary →
    Reads (accessMore e rest) v last → Reads (access ts) v last

/-- The rule for unary operators reads a tree. -/
def UnaryBack (e : Expr Unit) : Prop :=
  ∀ ts rest, Spelled e.pieces ts rest → strength (headKind rest) < Precedence.access →
    Reads (unary ts) e rest

/-- The rule for binary operators reads a tree and goes on with the tokens after it. -/
def BinaryBack (e : Expr Unit) : Prop :=
  ∀ ts rest least v last, Spelled e.pieces ts rest → Precedence.conditional ≤ least →
    least < e.precedence → strength (headKind rest) ≤ e.precedence →
    strength (headKind rest) < Precedence.access →
    Reads (binaryMore least e rest) v last → Reads (binary least ts) v last

/-- The rule for the conditional operator reads a tree. -/
def ConditionalBack (e : Expr Unit) : Prop :=
  ∀ ts rest, Spelled e.pieces ts rest → strength (headKind rest) < Precedence.conditional →
    Reads (conditional ts) e rest

/-- The rule for assignments reads a tree. -/
def AssignmentBack (e : Expr Unit) : Prop :=
  ∀ ts rest, Spelled e.pieces ts rest → strength (headKind rest) < Precedence.assignment →
    Reads (assignment ts) e rest

/-- The rule for expressions reads a tree and goes on with the tokens after it. -/
def ExpressionBack (e : Expr Unit) : Prop :=
  ∀ ts rest v last, Spelled e.pieces ts rest → strength (headKind rest) ≤ Precedence.comma →
    Reads (expressionMore e rest) v last → Reads (expression ts) v last

/-- A tree starts with no operator. -/
def PlainStart (e : Expr Unit) : Prop :=
  ∀ p ∈ e.pieces.head?, p.kind.leadingOp? = none

theorem PrimaryBack.access (h : PrimaryBack e) : AccessBack e := fun ts rest _ _ hs hrest hmore =>
  reads_access.mpr ⟨e, rest, h ts rest hs hrest, hmore⟩

theorem AccessBack.unary (h : AccessBack e) (hopens : Opens e.pieces) (hstart : PlainStart e) :
    UnaryBack e := by
  intro ts rest hs hrest
  have hhead : (headKind ts).leadingOp? = none := by
    obtain ⟨p, more, hpieces, -⟩ := hopens
    rw [PlainStart, hpieces] at hstart
    rw [hpieces] at hs
    obtain ⟨t, after, rfl, rfl, -⟩ := spelled_cons.mp hs
    exact hstart _ rfl
  rw [reads_unary_access hhead]
  exact h ts rest e rest hs (Nat.lt_trans hrest (by decide)) ((accessMore_stop hrest).mpr ⟨rfl, rfl⟩)

theorem UnaryBack.binary (h : UnaryBack e) : BinaryBack e :=
  fun ts rest _ _ _ hs _ _ _ hrest hmore => reads_binary.mpr ⟨e, rest, h ts rest hs hrest, hmore⟩

theorem BinaryBack.conditional (h : BinaryBack e) (he : Precedence.conditional < e.precedence) :
    ConditionalBack e := by
  intro ts rest hs hrest
  refine reads_conditional.mpr ⟨e, rest, ?_, (conditionalMore_stop hrest).mpr ⟨rfl, rfl⟩⟩
  exact h ts rest _ e rest hs (Nat.le_refl _) he (Nat.le_of_lt (Nat.lt_trans hrest he))
    (Nat.lt_trans hrest (by decide)) ((binaryMore_stop (Nat.le_of_lt hrest)).mpr ⟨rfl, rfl⟩)

theorem ConditionalBack.assignment (h : ConditionalBack e) : AssignmentBack e :=
  fun ts rest hs hrest => reads_assignment.mpr
    ⟨e, rest, h ts rest hs (Nat.lt_trans hrest (by decide)), (assignmentMore_stop hrest).mpr ⟨rfl, rfl⟩⟩

theorem AssignmentBack.expression (h : AssignmentBack e) : ExpressionBack e :=
  fun ts rest _ _ hs hrest hmore => reads_expression.mpr
    ⟨e, rest, h ts rest hs (Nat.lt_of_le_of_lt hrest (by decide)), hmore⟩

/-- Every rule reads a tree that binds tightly enough for it. -/
structure Rereads (e : Expr Unit) : Prop where
  opens : Opens e.pieces
  start : Precedence.access ≤ e.precedence → PlainStart e
  access : Precedence.access ≤ e.precedence → AccessBack e
  unary : Precedence.unary ≤ e.precedence → UnaryBack e
  binary : Precedence.conditional < e.precedence → BinaryBack e
  assignment : Precedence.assignment ≤ e.precedence → AssignmentBack e
  expression : ExpressionBack e

namespace Rereads

theorem of_access (h : AccessBack e) (hopens : Opens e.pieces) (hstart : PlainStart e)
    (he : Precedence.conditional < e.precedence) : Rereads e :=
  have hunary := h.unary hopens hstart
  have hassignment := (hunary.binary.conditional he).assignment
  ⟨hopens, fun _ => hstart, fun _ => h, fun _ => hunary, fun _ => hunary.binary,
    fun _ => hassignment, hassignment.expression⟩

theorem of_unary (h : UnaryBack e) (hopens : Opens e.pieces)
    (he : e.precedence = Precedence.unary) : Rereads e :=
  have hassignment := (h.binary.conditional (by rw [he]; decide)).assignment
  ⟨hopens, fun hle => absurd (he ▸ hle) (by decide), fun hle => absurd (he ▸ hle) (by decide),
    fun _ => h, fun _ => h.binary, fun _ => hassignment, hassignment.expression⟩

theorem of_binary (h : BinaryBack e) (hopens : Opens e.pieces)
    (hlow : Precedence.conditional < e.precedence) (hhigh : e.precedence < Precedence.unary) :
    Rereads e :=
  have hassignment := (h.conditional hlow).assignment
  ⟨hopens, fun hle => absurd (Nat.lt_of_lt_of_le hhigh (by decide)) (Nat.not_lt.mpr hle),
    fun hle => absurd (Nat.lt_of_lt_of_le hhigh (by decide)) (Nat.not_lt.mpr hle),
    fun hle => absurd hhigh (Nat.not_lt.mpr hle), fun _ => h, fun _ => hassignment,
    hassignment.expression⟩

theorem of_assignment (h : AssignmentBack e) (hopens : Opens e.pieces)
    (he : e.precedence ≤ Precedence.conditional) : Rereads e :=
  ⟨hopens, fun hle => absurd (Nat.le_trans hle he) (by decide),
    fun hle => absurd (Nat.le_trans hle he) (by decide),
    fun hle => absurd (Nat.le_trans hle he) (by decide), fun hlt => absurd hlt (Nat.not_lt.mpr he),
    fun _ => h, h.expression⟩

theorem of_expression (h : ExpressionBack e) (hopens : Opens e.pieces)
    (he : e.precedence = Precedence.comma) : Rereads e :=
  ⟨hopens, fun hle => absurd (he ▸ hle) (by decide), fun hle => absurd (he ▸ hle) (by decide),
    fun hle => absurd (he ▸ hle) (by decide), fun hle => absurd (he ▸ hle) (by decide),
    fun hle => absurd (he ▸ hle) (by decide), h⟩

/-- A tree is an expression on its own, where the token after it goes on with none. -/
theorem reads_expression {ts rest : List Token} (h : Rereads e) (hs : Spelled e.pieces ts rest)
    (hrest : strength (headKind rest) < Precedence.comma) : Reads (Parser.expression ts) e rest :=
  h.expression ts rest e rest hs (Nat.le_of_lt hrest) ((expressionMore_stop hrest).mpr ⟨rfl, rfl⟩)

end Rereads

/-! ## Literals and names -/

theorem kindOf_bool (value : Bool) : Lexer.kindOf (Literal.bool value).text.toList =
    .keyword (if value then .kwTrue else .kwFalse) := by
  cases value with
  | true => exact (isToken_keyword .kwTrue).kindOf_eq
  | false => exact (isToken_keyword .kwFalse).kindOf_eq

theorem literal?_eq {t : Token} {value : Literal} (hvalue : value.IsGenuine)
    (ht : t.piece = textPiece value.text) : literal? t = some value := by
  have hkind := kind_of_piece ht
  have htext := lexeme_of_piece ht
  rw [textPiece] at hkind htext
  dsimp only at hkind htext
  cases value with
  | int text => rw [literal?, hkind, htext, Literal.text, IsToken.kindOf_eq hvalue]
  | uint text => rw [literal?, hkind, htext, Literal.text, IsToken.kindOf_eq hvalue]
  | float text => rw [literal?, hkind, htext, Literal.text, IsToken.kindOf_eq hvalue]
  | bool value =>
      rw [literal?, hkind, kindOf_bool]
      cases value <;> rfl

theorem opens_literal {value : Literal} (hvalue : value.IsGenuine) : Opens [textPiece value.text] ∧
    (textPiece value.text).kind.leadingOp? = none := by
  have h : ∃ kind, (textPiece value.text).kind = kind ∧ startsExpression kind = true ∧
      kind ≠ .identifier ∧ kind.leadingOp? = none := by
    cases value with
    | int text => exact ⟨_, IsToken.kindOf_eq hvalue, rfl, by simp, rfl⟩
    | uint text => exact ⟨_, IsToken.kindOf_eq hvalue, rfl, by simp, rfl⟩
    | float text => exact ⟨_, IsToken.kindOf_eq hvalue, rfl, by simp, rfl⟩
    | bool value => exact ⟨_, kindOf_bool value, by cases value <;> rfl, by simp, by cases value <;> rfl⟩
  obtain ⟨kind, hkind, hstarts, hname, hleading⟩ := h
  exact ⟨opens_cons (hkind ▸ hstarts) (hkind ▸ hname), hkind ▸ hleading⟩

theorem rereads_literal {value : Literal} (hvalue : value.IsGenuine) :
    Rereads (.node () (.literal value)) := by
  obtain ⟨hopens, hstart⟩ := opens_literal hvalue
  refine .of_access (PrimaryBack.access ?_) hopens (fun p hp => ?_) (by decide : 3 < 17)
  · intro ts rest hs _
    obtain ⟨t, after, rfl, ht, hafter⟩ := spelled_cons.mp hs
    rw [spelled_nil.mp hafter]
    exact (reads_primary_literal (literal?_eq hvalue ht)).mpr ⟨rfl, rfl⟩
  · cases hp
    exact hstart

theorem rereads_ident (name : String) : Rereads (.node () (.ident name)) := by
  refine .of_access (PrimaryBack.access ?_) ⟨_, _, rfl, rfl, fun _ q hq => nomatch hq⟩
    (fun p hp => ?_) (by decide : 3 < 17)
  · intro ts rest hs hrest
    obtain ⟨t, after, rfl, ht, hafter⟩ := spelled_cons.mp hs
    rw [spelled_nil.mp hafter]
    have hparen : headKind rest ≠ .symbol .lParen := by
      intro hkind
      rw [hkind] at hrest
      exact absurd hrest (by decide)
    refine (reads_primary_ident (kind_of_piece ht) hparen).mpr ⟨?_, rfl⟩
    rw [lexeme_of_piece ht]
    rfl
  · cases hp
    rfl

/-! ## Operators, members and calls -/

theorem rereads_paren {inner : Expr Unit} (h : Rereads inner) :
    Rereads (.node () (.paren inner)) := by
  refine .of_access (PrimaryBack.access ?_) (opens_cons rfl (by simp [Symbol.piece]))
    (fun p hp => ?_) (by decide : 3 < 17)
  · intro ts rest hs _
    simp only [Expr.pieces_paren, spelled_cons, spelled_append, spelled_nil] at hs
    obtain ⟨t, after, rfl, ht, mid, hinner, t', rest, rfl, ht', rfl⟩ := hs
    have hclose : headKind (t' :: rest) = .symbol .rParen := kind_of_piece ht'
    refine (reads_primary_paren (kind_of_piece ht)).mpr ⟨inner, t', ?_, kind_of_piece ht', rfl⟩
    exact h.reads_expression hinner (by rw [hclose]; decide)
  · cases hp
    rfl

theorem rereads_leading {op : UnaryOp} {operand : Expr Unit} (hop : op.isTrailing = false)
    (h : Rereads operand) (hprec : Precedence.unary ≤ operand.precedence) :
    Rereads (.node () (.unary op operand)) := by
  have hpieces : (Expr.node () (.unary op operand)).pieces = op.symbol.piece :: operand.pieces :=
    Expr.pieces_leading hop
  have hleading := UnaryOp.leadingOp?_symbol hop
  refine .of_unary ?_ ?_ ?_
  · intro ts rest hs hrest
    rw [hpieces] at hs
    obtain ⟨t, after, rfl, ht, hoperand⟩ := spelled_cons.mp hs
    have hkind : t.kind.leadingOp? = some op := by
      rw [kind_of_piece ht]
      exact hleading
    exact (reads_unary_op hkind).mpr ⟨operand, h.unary hprec after rest hoperand hrest, rfl⟩
  · rw [hpieces]
    refine opens_cons ?_ (by simp [Symbol.piece])
    cases op <;> rfl
  · change op.precedence = _
    rw [UnaryOp.precedence, hop]
    rfl

theorem rereads_trailing {op : UnaryOp} {operand : Expr Unit} (hop : op.isTrailing = true)
    (h : Rereads operand) (hprec : Precedence.access ≤ operand.precedence) :
    Rereads (.node () (.unary op operand)) := by
  have hpieces : (Expr.node () (.unary op operand)).pieces = operand.pieces ++ [op.symbol.piece] :=
    Expr.pieces_trailing hop
  have hprec' : (Expr.node () (.unary op operand)).precedence = Precedence.access := by
    change op.precedence = _
    rw [UnaryOp.precedence, hop]
    rfl
  refine .of_access ?_ ?_ ?_ (by rw [hprec']; decide)
  · intro ts rest v last hs hrest hmore
    simp only [hpieces, spelled_cons, spelled_append, spelled_nil] at hs
    obtain ⟨mid, hoperand, t, _, rfl, ht, rfl⟩ := hs
    have hkind : t.kind = .symbol op.symbol := kind_of_piece ht
    refine h.access hprec ts _ v last hoperand ?_ ?_
    · rw [headKind_cons, hkind]
      revert hop
      cases op <;> decide
    · cases op with
      | postInc => exact (reads_accessMore_plusPlus hkind).mpr hmore
      | postDec => exact (reads_accessMore_minusMinus hkind).mpr hmore
      | _ => cases hop
  · rw [hpieces]
    exact h.opens.append fun q hq => by cases hq; simp [Symbol.piece]
  · intro p hp
    obtain ⟨q, more, hq, -⟩ := h.opens
    have hstart := h.start hprec
    rw [PlainStart, hq] at hstart
    rw [hpieces, hq] at hp
    exact hstart p hp

theorem opens_between {lhs : Expr Unit} (h : Rereads lhs) (sign : Symbol) (ps : List Piece) :
    Opens (lhs.pieces ++ sign.piece :: ps) :=
  h.opens.append fun q hq => by cases hq; simp [Symbol.piece]

theorem rereads_comma {lhs rhs : Expr Unit} (hl : Rereads lhs) (hr : Rereads rhs)
    (hrhs : Precedence.assignment ≤ rhs.precedence) :
    Rereads (.node () (.binary .comma lhs rhs)) := by
  refine .of_expression ?_ (opens_between hl _ _) rfl
  intro ts rest v last hs hrest hmore
  simp only [Expr.pieces_binary, spelled_cons, spelled_append] at hs
  obtain ⟨mid, hlhs, t, after, rfl, ht, hright⟩ := hs
  have hkind : t.kind = .symbol .comma := kind_of_piece ht
  refine hl.expression ts _ v last hlhs (by rw [headKind_cons, hkind]; decide) ?_
  exact (reads_expressionMore_comma hkind).mpr
    ⟨rhs, rest, hr.assignment hrhs after rest hright (Nat.lt_of_le_of_lt hrest (by decide)), hmore⟩

theorem rereads_assign {op : BinaryOp} {lhs rhs : Expr Unit} (hop : op.isAssignment = true)
    (hl : Rereads lhs) (hr : Rereads rhs) (hlhs : Precedence.unary ≤ lhs.precedence)
    (hrhs : Precedence.assignment ≤ rhs.precedence) :
    Rereads (.node () (.binary op lhs rhs)) := by
  have hprec : op.precedence = Precedence.assignment := by
    revert hop
    cases op <;> decide
  refine .of_assignment ?_ (opens_between hl _ _) ?_
  · intro ts rest hs hrest
    simp only [Expr.pieces_binary, spelled_cons, spelled_append] at hs
    obtain ⟨mid, hleft, t, after, rfl, ht, hright⟩ := hs
    have hkind : t.kind = .symbol op.symbol := kind_of_piece ht
    have hassign : t.kind.assignmentOp? = some op := by
      rw [hkind]
      exact BinaryOp.assignmentOp?_symbol hop
    have hcond : Precedence.conditional < lhs.precedence := Nat.lt_of_lt_of_le (by decide) hlhs
    refine reads_assignment.mpr ⟨lhs, t :: after, ?_, (reads_assignmentMore_op hassign).mpr ?_⟩
    · refine (hl.binary hcond).conditional hcond ts _ hleft ?_
      rw [headKind_cons, hkind, strength_symbol, hprec]
      decide
    · exact ⟨rhs, hr.assignment hrhs after rest hright hrest, rfl⟩
  · change op.precedence ≤ _
    rw [hprec]
    decide

theorem rereads_binary {op : BinaryOp} {lhs rhs : Expr Unit}
    (hop : Precedence.conditional < op.precedence) (hl : Rereads lhs) (hr : Rereads rhs)
    (hlhs : op.precedence ≤ lhs.precedence) (hrhs : op.precedence < rhs.precedence) :
    Rereads (.node () (.binary op lhs rhs)) := by
  have hhigh : op.precedence < Precedence.unary := by cases op <;> decide
  refine .of_binary ?_ (opens_between hl _ _) hop hhigh
  intro ts rest least v last hs hleast hlt hrest hrest' hmore
  change least < op.precedence at hlt
  change strength (headKind rest) ≤ op.precedence at hrest
  simp only [Expr.pieces_binary, spelled_cons, spelled_append] at hs
  obtain ⟨mid, hleft, t, after, rfl, ht, hright⟩ := hs
  have hkind : t.kind = .symbol op.symbol := kind_of_piece ht
  have hbinary : t.kind.binaryOp? = some op := by
    rw [hkind]
    exact BinaryOp.binaryOp?_symbol hop
  have hstrength : strength (headKind (t :: after)) = op.precedence := by
    rw [headKind_cons, hkind, strength_symbol]
  refine hl.binary (Nat.lt_of_lt_of_le hop hlhs) ts _ least v last hleft hleast
    (Nat.lt_of_lt_of_le hlt hlhs) (hstrength ▸ hlhs)
    (by rw [hstrength]; exact Nat.lt_trans hhigh (by decide)) ?_
  refine (reads_binaryMore_op hbinary hlt).mpr ⟨rhs, rest, ?_, hmore⟩
  exact hr.binary (Nat.lt_trans hop hrhs) after rest op.precedence rhs rest hright
    (Nat.le_of_lt hop) hrhs (Nat.le_trans hrest (Nat.le_of_lt hrhs)) hrest'
    ((binaryMore_stop hrest).mpr ⟨rfl, rfl⟩)

theorem rereads_ternary {cond onTrue onFalse : Expr Unit} (hc : Rereads cond)
    (ht : Rereads onTrue) (hf : Rereads onFalse)
    (hcond : Precedence.conditional < cond.precedence)
    (hfalse : Precedence.conditional ≤ onFalse.precedence) :
    Rereads (.node () (.ternary cond onTrue onFalse)) := by
  refine .of_assignment ?_ (opens_between hc _ _) (Nat.le_refl _)
  intro ts rest hs hrest
  simp only [Expr.pieces_ternary, spelled_cons, spelled_append] at hs
  obtain ⟨mid, hscond, t, after, rfl, hquestion, mid', hstrue, t', after', rfl, hcolon, hsfalse⟩ := hs
  have hkind : t.kind = .symbol .question := kind_of_piece hquestion
  have hkind' : headKind (t' :: after') = .symbol .colon := kind_of_piece hcolon
  have hstrength : strength (headKind (t :: after)) = Precedence.conditional := by
    rw [headKind_cons, hkind]
    rfl
  refine reads_assignment.mpr ⟨_, rest, reads_conditional.mpr ⟨cond, t :: after, ?_, ?_⟩,
    (assignmentMore_stop hrest).mpr ⟨rfl, rfl⟩⟩
  · refine hc.binary hcond ts _ _ cond _ hscond (Nat.le_refl _) hcond ?_ ?_
      ((binaryMore_stop (Nat.le_of_eq hstrength)).mpr ⟨rfl, rfl⟩)
    · rw [hstrength]
      exact Nat.le_of_lt hcond
    · rw [hstrength]
      decide
  · refine (reads_conditionalMore_question hkind).mpr
      ⟨onTrue, _, t', after', onFalse, ht.reads_expression hstrue ?_, rfl, hkind', ?_, rfl⟩
    · rw [hkind']
      decide
    · exact hf.assignment (Nat.le_trans (by decide) hfalse) after' rest hsfalse hrest

theorem rereads_member {base : Expr Unit} {field : String} (h : Rereads base)
    (hprec : Precedence.access ≤ base.precedence) :
    Rereads (.node () (.member base field)) := by
  refine .of_access ?_ (opens_between h _ _) (fun p hp => ?_) (by decide : 3 < 16)
  · intro ts rest v last hs hrest hmore
    simp only [Expr.pieces_member, spelled_cons, spelled_append, spelled_nil] at hs
    obtain ⟨mid, hbase, t, after, rfl, ht, t', rest, rfl, ht', rfl⟩ := hs
    have hkind : t.kind = .symbol .dot := kind_of_piece ht
    refine h.access hprec ts _ v last hbase (by rw [headKind_cons, hkind]; decide) ?_
    refine (reads_accessMore_member hkind).mpr ⟨t', rest, rfl, kind_of_piece ht', ?_⟩
    rw [lexeme_of_piece ht']
    exact hmore
  · obtain ⟨q, more, hq, -⟩ := h.opens
    have hstart := h.start hprec
    rw [PlainStart, hq] at hstart
    rw [Expr.pieces_member, hq] at hp
    exact hstart p hp

theorem rereads_index {base offset : Expr Unit} (h : Rereads base) (hoffset : Rereads offset)
    (hprec : Precedence.access ≤ base.precedence) :
    Rereads (.node () (.index base offset)) := by
  refine .of_access ?_ (opens_between h _ _) (fun p hp => ?_) (by decide : 3 < 16)
  · intro ts rest v last hs hrest hmore
    simp only [Expr.pieces_index, spelled_cons, spelled_append, spelled_nil] at hs
    obtain ⟨mid, hbase, t, after, rfl, ht, mid', hsoffset, t', rest, rfl, ht', rfl⟩ := hs
    have hkind : t.kind = .symbol .lBracket := kind_of_piece ht
    have hkind' : headKind (t' :: rest) = .symbol .rBracket := kind_of_piece ht'
    refine h.access hprec ts _ v last hbase (by rw [headKind_cons, hkind]; decide) ?_
    refine (reads_accessMore_index hkind).mpr
      ⟨offset, _, t', rest, hoffset.reads_expression hsoffset ?_, rfl, hkind', hmore⟩
    rw [hkind']
    decide
  · obtain ⟨q, more, hq, -⟩ := h.opens
    have hstart := h.start hprec
    rw [PlainStart, hq] at hstart
    rw [Expr.pieces_index, hq] at hp
    exact hstart p hp

/-! ## Calls -/

/-- What follows a row is a comma or what follows all rows. -/
theorem headKind_commas {rows : List (List Piece)} {ts rest : List Token} {t : Token}
    (hs : Spelled (rows.flatMap (Symbol.comma.piece :: ·)) ts (t :: rest)) :
    headKind ts = .symbol .comma ∨ headKind ts = t.kind := by
  cases rows with
  | nil =>
      rw [spelled_nil.mp hs]
      exact .inr rfl
  | cons row rows =>
      rw [List.flatMap_cons, List.cons_append] at hs
      obtain ⟨t', after, rfl, ht', -⟩ := spelled_cons.mp hs
      exact .inl (kind_of_piece ht')

theorem strength_commas {rows : List (List Piece)} {ts rest : List Token} {t : Token}
    (hs : Spelled (rows.flatMap (Symbol.comma.piece :: ·)) ts (t :: rest))
    (ht : strength t.kind < Precedence.assignment) :
    strength (headKind ts) < Precedence.assignment := by
  obtain hkind | hkind := headKind_commas hs
  · rw [hkind]
    decide
  · rwa [hkind]

theorem reads_argumentsMore {args : List (Expr Unit)}
    (hargs : ∀ e ∈ args, Rereads e ∧ Precedence.assignment ≤ e.precedence) {ts rest : List Token}
    {t : Token} (ht : t.kind = .symbol .rParen)
    (hs : Spelled ((args.map Expr.pieces).flatMap (Symbol.comma.piece :: ·)) ts (t :: rest)) :
    Reads (argumentsMore ts) args rest := by
  induction args generalizing ts with
  | nil =>
      rw [spelled_nil.mp hs]
      exact (reads_argumentsMore_stop (by simp [ht])).mpr ⟨ht, rfl, rfl⟩
  | cons e args ih =>
      simp only [List.map_cons, List.flatMap_cons, List.cons_append, spelled_cons,
        spelled_append] at hs
      obtain ⟨t', after, rfl, ht', mid, he, hmore⟩ := hs
      obtain ⟨hback, hprec⟩ := hargs e List.mem_cons_self
      refine (reads_argumentsMore_comma (kind_of_piece ht')).mpr ⟨e, mid, args, ?_,
        ih (fun e' he' => hargs e' (List.mem_cons_of_mem e he')) hmore, rfl⟩
      exact hback.assignment hprec after mid he (strength_commas hmore (by rw [ht]; decide))

/-- The first token of an expression is no closing parenthesis or brace, and no semicolon. -/
theorem Opens.head {ps : List Piece} (h : Opens ps) {ts rest : List Token} (hs : Spelled ps ts rest) :
    startsExpression (headKind ts) = true ∧ ts ≠ [] := by
  obtain ⟨p, more, rfl, hp, -⟩ := h
  obtain ⟨t, after, rfl, rfl, -⟩ := spelled_cons.mp hs
  exact ⟨hp, List.cons_ne_nil t after⟩

theorem headKind_ne {ts : List Token} {sign : Symbol}
    (h : startsExpression (headKind ts) = true) (hsign : startsExpression (.symbol sign) = false) :
    headKind ts ≠ .symbol sign := by
  intro hkind
  rw [hkind, hsign] at h
  cases h

theorem reads_arguments {args : List (Expr Unit)}
    (hargs : ∀ e ∈ args, Rereads e ∧ Precedence.assignment ≤ e.precedence) {ts rest : List Token}
    {t : Token} (ht : t.kind = .symbol .rParen)
    (hs : Spelled (commaPieces (args.map Expr.pieces)) ts (t :: rest)) :
    Reads (arguments ts) args rest := by
  cases args with
  | nil =>
      rw [spelled_nil.mp hs]
      exact (reads_arguments_nil ht).mpr ⟨rfl, rfl⟩
  | cons e args =>
      rw [List.map_cons, commaPieces_cons] at hs
      obtain ⟨mid, he, hmore⟩ := spelled_append.mp hs
      obtain ⟨hback, hprec⟩ := hargs e List.mem_cons_self
      obtain ⟨hstart, hne⟩ := hback.opens.head he
      refine (reads_arguments_cons (headKind_ne hstart rfl) hne).mpr ⟨e, mid, args, ?_,
        reads_argumentsMore (fun e' he' => hargs e' (List.mem_cons_of_mem e he')) ht hmore, rfl⟩
      exact hback.assignment hprec ts mid he (strength_commas hmore (by rw [ht]; decide))

theorem rereads_call {callee : String} {args : List (Expr Unit)}
    (hargs : ∀ e ∈ args, Rereads e ∧ Precedence.assignment ≤ e.precedence) :
    Rereads (.node () (.call callee args)) := by
  refine .of_access (PrimaryBack.access ?_) ⟨_, _, rfl, rfl, fun _ q hq => ?_⟩ (fun p hp => ?_)
    (by decide : 3 < 16)
  · intro ts rest hs _
    simp only [Expr.pieces_call, spelled_cons, spelled_append, spelled_nil] at hs
    obtain ⟨t, _, rfl, ht, t', after, rfl, ht', mid, hsargs, t'', rest, rfl, ht'', rfl⟩ := hs
    refine (reads_primary_call (kind_of_piece ht) (kind_of_piece ht')).mpr
      ⟨args, reads_arguments hargs (kind_of_piece ht'') hsargs, ?_⟩
    rw [lexeme_of_piece ht]
    rfl
  · cases hq
    simp [Symbol.piece]
  · cases hp
    rfl

/-! ## All trees -/

/-- A tight tree with genuine literals is read back by every rule that it binds tightly enough
for. -/
theorem rereads_of_tight (htight : Expr.Tight e) (hvalid : e.Valid Literal.IsGenuine) :
    Rereads e := by
  induction htight with
  | literal value => exact rereads_literal (Expr.valid_node.mp hvalid).1
  | ident name => exact rereads_ident name
  | paren hinner ih =>
      exact rereads_paren (ih ((Expr.valid_node.mp hvalid).2 _ List.mem_cons_self))
  | @unary op operand hoperand hprec ih =>
      have hback := ih ((Expr.valid_node.mp hvalid).2 _ List.mem_cons_self)
      cases hop : op.isTrailing with
      | true => exact rereads_trailing hop hback (by simpa [Expr.operandPrecedence, hop] using hprec)
      | false =>
          refine rereads_leading hop hback (Nat.le_trans ?_ hprec)
          rw [Expr.operandPrecedence, hop]
          cases operand.startsWithOperator <;> decide
  | @binary op lhs rhs _ _ hl hr ihl ihr =>
      have hparts := (Expr.valid_node.mp hvalid).2
      have hlback := ihl (hparts lhs (by simp [ExprNode.children]))
      have hrback := ihr (hparts rhs (by simp [ExprNode.children]))
      obtain rfl | hassign | hop := op.comma_or_assignment_or
      · exact rereads_comma hlback hrback hr
      · have hprec : op.precedence = Precedence.assignment := by
          revert hassign
          cases op <;> decide
        rw [Expr.lhsPrecedence, hassign] at hl
        rw [Expr.rhsPrecedence, hassign, if_pos rfl, hprec] at hr
        exact rereads_assign hassign hlback hrback hl hr
      · have hassign : op.isAssignment = false := by
          revert hop
          cases op <;> decide
        rw [Expr.lhsPrecedence, hassign] at hl
        rw [Expr.rhsPrecedence, hassign] at hr
        exact rereads_binary hop hlback hrback hl hr
  | ternary _ _ _ hc _ hf ihc iht ihf =>
      have hparts := (Expr.valid_node.mp hvalid).2
      exact rereads_ternary (ihc (hparts _ (by simp [ExprNode.children])))
        (iht (hparts _ (by simp [ExprNode.children])))
        (ihf (hparts _ (by simp [ExprNode.children]))) hc hf
  | call _ hprec ih =>
      have hparts := (Expr.valid_node.mp hvalid).2
      exact rereads_call fun e he => ⟨ih e he (hparts e he), hprec e he⟩
  | member _ hprec ih =>
      exact rereads_member (ih ((Expr.valid_node.mp hvalid).2 _ List.mem_cons_self)) hprec
  | index _ _ hprec ihb iho =>
      have hparts := (Expr.valid_node.mp hvalid).2
      exact rereads_index (ihb (hparts _ (by simp [ExprNode.children])))
        (iho (hparts _ (by simp [ExprNode.children]))) hprec

/-- What the printer writes for an expression is read back, with the parentheses it adds. -/
theorem rereads_explicit {required : Nat} (hvalid : e.Valid Literal.IsGenuine) :
    Rereads (e.explicit required) :=
  rereads_of_tight (e.tight_explicit required) (Expr.valid_explicit hvalid required)

end Parser

end ShaderReducer
