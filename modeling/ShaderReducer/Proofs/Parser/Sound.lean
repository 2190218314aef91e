import ShaderReducer.Proofs.Parser.Rules
import ShaderReducer.Proofs.Syntax.Bare
import ShaderReducer.Proofs.Syntax.Pieces
import ShaderReducer.Proofs.Syntax.Valid

/-!
# What the grammar reads is valid

Of tokens that a lexer finds the grammar makes only what can be read again: names and literals are
tokens, no `if` before an `else` takes it away, and so on. It passes no malformed token, and each
point that it passes makes a member.
-/

namespace ShaderReducer

namespace Parser

variable {t : Token} {ts mid rest after : List Token}

/-! ## Tokens that are passed -/

/-- Tokens as a lexer finds them: what is not malformed is a token indeed. -/
def Genuine (ts : List Token) : Prop :=
  ∀ t ∈ ts, t.kind.isMalformed = false → IsToken t.kind t.lexeme.toList

/-- None of some tokens is malformed. -/
def WellFormed (ts : List Token) : Prop :=
  ∀ t ∈ ts, t.kind.isMalformed = false

/-- The number of points among some tokens. -/
def points (ts : List Token) : Nat :=
  pointsIn (ts.map Token.piece)

/-- Up to the tokens `rest` no token is malformed, and the points make as many members as there are
more after than before. -/
structure Passes (ts rest : List Token) (before after : Nat) : Prop where
  suffix : rest <:+ ts
  wellFormed : WellFormed rest → WellFormed ts
  count : points ts + before = points rest + after

theorem points_cons (t : Token) (ts : List Token) :
    points (t :: ts) = points ts + if t.kind = .symbol .dot then 1 else 0 :=
  pointsIn_cons t.piece _

namespace Genuine

theorem of_suffix (h : Genuine ts) (hsuffix : rest <:+ ts) : Genuine rest :=
  fun t ht => h t (hsuffix.subset ht)

theorem tail (h : Genuine (t :: after)) : Genuine after :=
  h.of_suffix (List.suffix_cons t after)

theorem name (h : Genuine (t :: after)) (ht : t.kind = .identifier) : IsName t.lexeme := by
  have := h t List.mem_cons_self (by rw [ht]; rfl)
  rwa [ht] at this

end Genuine

namespace Passes

variable {a b c : Nat}

theorem refl (ts : List Token) (a : Nat) : Passes ts ts a a :=
  ⟨List.suffix_rfl, id, rfl⟩

theorem trans (h : Passes ts mid a b) (h' : Passes mid rest b c) : Passes ts rest a c :=
  ⟨h'.suffix.trans h.suffix, fun hrest => h.wellFormed (h'.wellFormed hrest),
    by have := h.count; have := h'.count; omega⟩

theorem add (h : Passes ts rest a b) (k : Nat) : Passes ts rest (k + a) (k + b) :=
  ⟨h.suffix, h.wellFormed, by have := h.count; omega⟩

/-- A token that is neither malformed nor a point is passed. -/
theorem cons (h : Passes after rest a b) (ht : t.kind.isMalformed = false)
    (hdot : t.kind ≠ .symbol .dot) : Passes (t :: after) rest a b := by
  refine ⟨h.suffix.trans (List.suffix_cons t after), fun hrest => ?_, ?_⟩
  · exact List.forall_mem_cons.mpr ⟨ht, h.wellFormed hrest⟩
  · rw [points_cons, if_neg hdot]
    exact h.count

theorem symbol {sign : Symbol} (h : Passes after rest a b) (ht : t.kind = .symbol sign)
    (hdot : sign ≠ .dot) : Passes (t :: after) rest a b :=
  h.cons (by rw [ht]; rfl) (by rw [ht]; simpa using hdot)

theorem keyword {word : Keyword} (h : Passes after rest a b) (ht : t.kind = .keyword word) :
    Passes (t :: after) rest a b :=
  h.cons (by rw [ht]; rfl) (by simp [ht])

theorem name (h : Passes after rest a b) (ht : t.kind = .identifier) :
    Passes (t :: after) rest a b :=
  h.cons (by rw [ht]; rfl) (by simp [ht])

theorem dot (h : Passes after rest (a + 1) b) (ht : t.kind = .symbol .dot) :
    Passes (t :: after) rest a b := by
  refine ⟨h.suffix.trans (List.suffix_cons t after), fun hrest => ?_, ?_⟩
  · exact List.forall_mem_cons.mpr ⟨by rw [ht]; rfl, h.wellFormed hrest⟩
  · rw [points_cons, if_pos ht]
    have := h.count
    omega

end Passes

/-! ## Expressions -/

section Expressions

open ShaderReducer.Expr (valid_node members_node)

variable {e left right cond base : Expr Unit}

/-- What is read as an expression after `before` members is valid and has the members read. -/
structure SoundExpr (ts : List Token) (before : Nat) (e : Expr Unit) (rest : List Token) : Prop where
  valid : e.Valid Literal.IsGenuine
  passes : Passes ts rest before e.members

theorem members_binary (op : BinaryOp) (left right : Expr Unit) :
    (Expr.node () (.binary op left right)).members = left.members + right.members := by
  simp [members_node, ExprNode.children, ExprNode.isMember]

theorem members_unary (op : UnaryOp) (operand : Expr Unit) :
    (Expr.node () (.unary op operand)).members = operand.members := by
  simp [members_node, ExprNode.children, ExprNode.isMember]

theorem members_member (base : Expr Unit) (field : String) :
    (Expr.node () (.member base field)).members = base.members + 1 := by
  simp [members_node, ExprNode.children, ExprNode.isMember]

theorem members_index (base offset : Expr Unit) :
    (Expr.node () (.index base offset)).members = base.members + offset.members := by
  simp [members_node, ExprNode.children, ExprNode.isMember]

theorem members_ternary (cond onTrue onFalse : Expr Unit) :
    (Expr.node () (.ternary cond onTrue onFalse)).members =
      cond.members + (onTrue.members + onFalse.members) := by
  simp [members_node, ExprNode.children, ExprNode.isMember]

theorem members_paren (inner : Expr Unit) :
    (Expr.node () (.paren inner)).members = inner.members := by
  simp [members_node, ExprNode.children, ExprNode.isMember]

theorem members_call (callee : String) (args : List (Expr Unit)) :
    (Expr.node () (.call callee args)).members = (args.map Expr.members).sum := by
  simp [members_node, ExprNode.children, ExprNode.isMember]

theorem valid_unary (op : UnaryOp) (he : e.Valid Literal.IsGenuine) :
    (Expr.node () (.unary op e)).Valid Literal.IsGenuine :=
  valid_node.mpr ⟨trivial, by simp [ExprNode.children, he]⟩

namespace SoundExpr

variable {before : Nat} {onTrue onFalse : Expr Unit}

theorem suffix (h : SoundExpr ts before e rest) : rest <:+ ts :=
  h.passes.suffix

theorem refl (he : e.Valid Literal.IsGenuine) : SoundExpr ts e.members e ts :=
  ⟨he, .refl ts _⟩

/-- More is read after an expression. -/
theorem trans (h : SoundExpr ts before left mid) (h' : SoundExpr mid left.members e rest) :
    SoundExpr ts before e rest :=
  ⟨h'.valid, h.passes.trans h'.passes⟩

theorem cons (h : SoundExpr after before e rest) (ht : t.kind.isMalformed = false)
    (hdot : t.kind ≠ .symbol .dot) : SoundExpr (t :: after) before e rest :=
  ⟨h.valid, h.passes.cons ht hdot⟩

theorem symbol {sign : Symbol} (h : SoundExpr after before e rest) (ht : t.kind = .symbol sign)
    (hdot : sign ≠ .dot) : SoundExpr (t :: after) before e rest :=
  ⟨h.valid, h.passes.symbol ht hdot⟩

theorem keyword {word : Keyword} (h : SoundExpr after before e rest) (ht : t.kind = .keyword word) :
    SoundExpr (t :: after) before e rest :=
  ⟨h.valid, h.passes.keyword ht⟩

/-- A token after an expression. -/
theorem close {sign : Symbol} (h : SoundExpr ts before e (t :: rest)) (ht : t.kind = .symbol sign)
    (hdot : sign ≠ .dot) : SoundExpr ts before e rest :=
  ⟨h.valid, h.passes.trans ((Passes.refl rest _).symbol ht hdot)⟩

theorem binary (op : BinaryOp) (h : SoundExpr ts 0 right rest) (hleft : left.Valid Literal.IsGenuine) :
    SoundExpr ts left.members (.node () (.binary op left right)) rest :=
  ⟨valid_node.mpr ⟨trivial, by simp [ExprNode.children, hleft, h.valid]⟩,
    members_binary op left right ▸ h.passes.add left.members⟩

theorem unary {op : UnaryOp} (h : SoundExpr ts 0 e rest) :
    SoundExpr ts 0 (.node () (.unary op e)) rest :=
  ⟨valid_unary op h.valid, members_unary op e ▸ h.passes⟩

theorem index (h : SoundExpr ts 0 e rest) (hbase : base.Valid Literal.IsGenuine) :
    SoundExpr ts base.members (.node () (.index base e)) rest :=
  ⟨valid_node.mpr ⟨trivial, by simp [ExprNode.children, hbase, h.valid]⟩,
    members_index base e ▸ h.passes.add base.members⟩

theorem ternary (htrue : SoundExpr ts 0 onTrue mid) (hcond : cond.Valid Literal.IsGenuine)
    (hfalse : SoundExpr mid 0 onFalse rest) :
    SoundExpr ts cond.members (.node () (.ternary cond onTrue onFalse)) rest := by
  refine ⟨valid_node.mpr ⟨trivial, by simp [ExprNode.children, hcond, htrue.valid, hfalse.valid]⟩, ?_⟩
  rw [members_ternary]
  exact (htrue.passes.trans (hfalse.passes.add onTrue.members)).add cond.members

end SoundExpr

/-- What is read as a row of arguments is valid and has the members read. -/
structure SoundExprs (ts : List Token) (args : List (Expr Unit)) (rest : List Token) : Prop where
  valid : ∀ e ∈ args, e.Valid Literal.IsGenuine
  passes : Passes ts rest 0 (args.map Expr.members).sum

namespace SoundExprs

variable {args : List (Expr Unit)}

theorem nil : SoundExprs ts [] ts :=
  ⟨fun _ he => (nomatch he), .refl ts 0⟩

theorem cons (h : SoundExpr ts 0 e mid) (h' : SoundExprs mid args rest) :
    SoundExprs ts (e :: args) rest := by
  refine ⟨List.forall_mem_cons.mpr ⟨h.valid, h'.valid⟩, ?_⟩
  rw [List.map_cons, List.sum_cons]
  exact h.passes.trans (h'.passes.add e.members)

theorem symbol {sign : Symbol} (h : SoundExprs after args rest) (ht : t.kind = .symbol sign)
    (hdot : sign ≠ .dot) : SoundExprs (t :: after) args rest :=
  ⟨h.valid, h.passes.symbol ht hdot⟩

end SoundExprs

theorem isMalformed_of_leadingOp? {kind : TokenKind} {op : UnaryOp} (h : kind.leadingOp? = some op) :
    kind.isMalformed = false ∧ kind ≠ .symbol .dot := by
  cases kind with
  | symbol sign => exact ⟨rfl, by rintro heq; cases heq; cases h⟩
  | _ => cases h

theorem isMalformed_of_binaryOp? {kind : TokenKind} {op : BinaryOp} (h : kind.binaryOp? = some op) :
    kind.isMalformed = false ∧ kind ≠ .symbol .dot := by
  cases kind with
  | symbol sign => exact ⟨rfl, by rintro heq; cases heq; cases h⟩
  | _ => cases h

theorem isMalformed_of_assignmentOp? {kind : TokenKind} {op : BinaryOp}
    (h : kind.assignmentOp? = some op) : kind.isMalformed = false ∧ kind ≠ .symbol .dot := by
  cases kind with
  | symbol sign => exact ⟨rfl, by rintro heq; cases heq; cases h⟩
  | _ => cases h

/-- The ways to read a primary expression. -/
inductive ReadsPrimary : List Token → Expr Unit → List Token → Prop
  | literal {t : Token} {rest : List Token} {value : Literal} (ht : literal? t = some value) :
    ReadsPrimary (t :: rest) (.node () (.literal value)) rest
  | ident {t : Token} {rest : List Token} (ht : t.kind = .identifier) :
    ReadsPrimary (t :: rest) (.node () (.ident t.lexeme)) rest
  | call {t t' : Token} {after rest : List Token} {args : List (Expr Unit)}
    (ht : t.kind = .identifier) (ht' : t'.kind = .symbol .lParen)
    (h : Reads (arguments after) args rest) :
    ReadsPrimary (t :: t' :: after) (.node () (.call t.lexeme args)) rest
  | paren {t t' : Token} {after rest : List Token} {inner : Expr Unit}
    (ht : t.kind = .symbol .lParen) (h : Reads (expression after) inner (t' :: rest))
    (ht' : t'.kind = .symbol .rParen) :
    ReadsPrimary (t :: after) (.node () (.paren inner)) rest

theorem readsPrimary_of_reads (h : Reads (primary ts) e rest) : ReadsPrimary ts e rest := by
  cases ts with
  | nil =>
      rw [primary] at h
      exact (reads_error.mp h).elim
  | cons t after =>
      cases hliteral : literal? t with
      | some value =>
          obtain ⟨rfl, rfl⟩ := (reads_primary_literal hliteral).mp h
          exact .literal hliteral
      | none =>
          by_cases hname : t.kind = .identifier
          · by_cases hcall : headKind after = .symbol .lParen
            · cases after with
              | nil => cases hcall
              | cons t' after =>
                  obtain ⟨args, hargs, rfl⟩ := (reads_primary_call hname hcall).mp h
                  exact .call hname hcall hargs
            · obtain ⟨rfl, rfl⟩ := (reads_primary_ident hname hcall).mp h
              exact .ident hname
          · by_cases hparen : t.kind = .symbol .lParen
            · obtain ⟨inner, t', hinner, ht', rfl⟩ := (reads_primary_paren hparen).mp h
              exact .paren hparen hinner ht'
            · unfold literal? at hliteral
              unfold primary at h
              split at h <;> simp_all

theorem sound_literal {value : Literal} (hts : Genuine (t :: rest)) (ht : literal? t = some value) :
    SoundExpr (t :: rest) 0 (.node () (.literal value)) rest := by
  have hgenuine := hts t List.mem_cons_self
  have hread : value.IsGenuine ∧ t.kind.isMalformed = false ∧ t.kind ≠ .symbol .dot := by
    unfold literal? at ht
    split at ht
    all_goals cases ht
    all_goals
      next hkind =>
        rw [hkind] at hgenuine ⊢
        exact ⟨by first | trivial | exact hgenuine rfl, rfl, by simp⟩
  exact ⟨valid_node.mpr ⟨hread.1, fun c hc => nomatch hc⟩,
    (Passes.refl rest 0).cons hread.2.1 hread.2.2⟩

mutual

theorem sound_expression {ts rest : List Token} {e : Expr Unit} (hts : Genuine ts)
    (h : Reads (expression ts) e rest) : SoundExpr ts 0 e rest := by
  obtain ⟨first, mid, hfirst, hmore⟩ := reads_expression.mp h
  have hlt := hfirst.lt
  have hsound := sound_assignment hts hfirst
  exact hsound.trans (sound_expressionMore (hts.of_suffix hsound.suffix) hsound.valid hmore)
termination_by 8 * ts.length + 6

theorem sound_expressionMore {ts rest : List Token} {left e : Expr Unit} (hts : Genuine ts)
    (hleft : left.Valid Literal.IsGenuine) (h : Reads (expressionMore left ts) e rest) :
    SoundExpr ts left.members e rest := by
  by_cases hcomma : headKind ts = .symbol .comma
  · match ts, hts with
    | [], _ => cases hcomma
    | t :: after, hts =>
      obtain ⟨right, mid, hright, hmore⟩ := (reads_expressionMore_comma hcomma).mp h
      have hlt := hright.lt
      have hsound := (sound_assignment hts.tail hright).binary .comma hleft
      exact (hsound.trans (sound_expressionMore (hts.tail.of_suffix hsound.suffix) hsound.valid
        hmore)).symbol hcomma (by simp)
  · obtain ⟨rfl, rfl⟩ := (reads_expressionMore_stop hcomma).mp h
    exact .refl hleft
termination_by 8 * ts.length + 7
decreasing_by
  all_goals try simp only [List.length_cons]
  all_goals omega

theorem sound_assignment {ts rest : List Token} {e : Expr Unit} (hts : Genuine ts)
    (h : Reads (assignment ts) e rest) : SoundExpr ts 0 e rest := by
  obtain ⟨first, mid, hfirst, hmore⟩ := reads_assignment.mp h
  have hlt := hfirst.lt
  have hsound := sound_conditional hts hfirst
  exact hsound.trans (sound_assignmentMore (hts.of_suffix hsound.suffix) hsound.valid hmore)
termination_by 8 * ts.length + 5

theorem sound_assignmentMore {ts rest : List Token} {left e : Expr Unit} (hts : Genuine ts)
    (hleft : left.Valid Literal.IsGenuine) (h : Reads (assignmentMore left ts) e rest) :
    SoundExpr ts left.members e rest := by
  cases hop : (headKind ts).assignmentOp? with
  | some op =>
      match ts, hts with
      | [], _ => cases hop
      | t :: after, hts =>
        obtain ⟨right, hright, rfl⟩ := (reads_assignmentMore_op hop).mp h
        have hlt := hright.lt
        have hkind := isMalformed_of_assignmentOp? hop
        exact ((sound_assignment hts.tail hright).binary op hleft).cons hkind.1 hkind.2
  | none =>
      obtain ⟨rfl, rfl⟩ := (reads_assignmentMore_stop hop).mp h
      exact .refl hleft
termination_by 8 * ts.length + 7
decreasing_by
  all_goals try simp only [List.length_cons]
  all_goals omega

theorem sound_conditional {ts rest : List Token} {e : Expr Unit} (hts : Genuine ts)
    (h : Reads (conditional ts) e rest) : SoundExpr ts 0 e rest := by
  obtain ⟨first, mid, hfirst, hmore⟩ := reads_conditional.mp h
  have hlt := hfirst.lt
  have hsound := sound_binary hts hfirst
  exact hsound.trans (sound_conditionalMore (hts.of_suffix hsound.suffix) hsound.valid hmore)
termination_by 8 * ts.length + 4

theorem sound_conditionalMore {ts rest : List Token} {cond e : Expr Unit} (hts : Genuine ts)
    (hcond : cond.Valid Literal.IsGenuine) (h : Reads (conditionalMore cond ts) e rest) :
    SoundExpr ts cond.members e rest := by
  by_cases hquestion : headKind ts = .symbol .question
  · match ts, hts with
    | [], _ => cases hquestion
    | t :: after, hts =>
      obtain ⟨onTrue, mid, t', after', onFalse, htrue, rfl, ht', hfalse, rfl⟩ :=
        (reads_conditionalMore_question hquestion).mp h
      have hlt : after'.length + 1 < after.length := htrue.lt
      have hlt' := hfalse.lt
      have hsound := (sound_expression hts.tail htrue).close ht' (by simp)
      have hsound' := sound_assignment (hts.tail.of_suffix hsound.suffix) hfalse
      exact (hsound.ternary hcond hsound').symbol hquestion (by simp)
  · obtain ⟨rfl, rfl⟩ := (reads_conditionalMore_stop hquestion).mp h
    exact .refl hcond
termination_by 8 * ts.length + 7
decreasing_by
  all_goals try simp only [List.length_cons]
  all_goals omega

theorem sound_binary {least : Nat} {ts rest : List Token} {e : Expr Unit} (hts : Genuine ts)
    (h : Reads (binary least ts) e rest) : SoundExpr ts 0 e rest := by
  obtain ⟨first, mid, hfirst, hmore⟩ := reads_binary.mp h
  have hlt := hfirst.lt
  have hsound := sound_unary hts hfirst
  exact hsound.trans (sound_binaryMore (hts.of_suffix hsound.suffix) hsound.valid hmore)
termination_by 8 * ts.length + 3

theorem sound_binaryMore {least : Nat} {ts rest : List Token} {left e : Expr Unit} (hts : Genuine ts)
    (hleft : left.Valid Literal.IsGenuine) (h : Reads (binaryMore least left ts) e rest) :
    SoundExpr ts left.members e rest := by
  by_cases hstop : ∀ op, (headKind ts).binaryOp? = some op → op.precedence ≤ least
  · obtain ⟨rfl, rfl⟩ := (reads_binaryMore_stop hstop).mp h
    exact .refl hleft
  · obtain ⟨op, hstop⟩ := not_forall.mp hstop
    obtain ⟨hop, hleast⟩ := Classical.not_imp.mp hstop
    match ts, hts with
    | [], _ => cases hop
    | t :: after, hts =>
      obtain ⟨right, mid, hright, hmore⟩ :=
        (reads_binaryMore_op hop (Nat.lt_of_not_le hleast)).mp h
      have hlt := hright.lt
      have hkind := isMalformed_of_binaryOp? hop
      have hsound := (sound_binary hts.tail hright).binary op hleft
      exact (hsound.trans (sound_binaryMore (hts.tail.of_suffix hsound.suffix) hsound.valid
        hmore)).cons hkind.1 hkind.2
termination_by 8 * ts.length + 7
decreasing_by
  all_goals try simp only [List.length_cons]
  all_goals omega

theorem sound_unary {ts rest : List Token} {e : Expr Unit} (hts : Genuine ts)
    (h : Reads (unary ts) e rest) : SoundExpr ts 0 e rest := by
  cases hop : (headKind ts).leadingOp? with
  | some op =>
      match ts, hts with
      | [], _ => cases hop
      | t :: after, hts =>
        obtain ⟨operand, hoperand, rfl⟩ := (reads_unary_op hop).mp h
        have hlt := hoperand.lt
        have hkind := isMalformed_of_leadingOp? hop
        exact (sound_unary hts.tail hoperand).unary.cons hkind.1 hkind.2
  | none => exact sound_access hts ((reads_unary_access hop).mp h)
termination_by 8 * ts.length + 2
decreasing_by
  all_goals try simp only [List.length_cons]
  all_goals omega

theorem sound_access {ts rest : List Token} {e : Expr Unit} (hts : Genuine ts)
    (h : Reads (access ts) e rest) : SoundExpr ts 0 e rest := by
  obtain ⟨first, mid, hfirst, hmore⟩ := reads_access.mp h
  have hlt := hfirst.lt
  have hsound := sound_primary hts hfirst
  exact hsound.trans (sound_accessMore (hts.of_suffix hsound.suffix) hsound.valid hmore)
termination_by 8 * ts.length + 1

theorem sound_accessMore {ts rest : List Token} {base e : Expr Unit} (hts : Genuine ts)
    (hbase : base.Valid Literal.IsGenuine) (h : Reads (accessMore base ts) e rest) :
    SoundExpr ts base.members e rest := by
  match ts, hts with
  | [], _ =>
    obtain ⟨rfl, rfl⟩ := (reads_accessMore_stop (by simp [headKind]) (by simp [headKind])
      (by simp [headKind]) (by simp [headKind])).mp h
    exact .refl hbase
  | t :: after, hts =>
    by_cases hindex : t.kind = .symbol .lBracket
    · obtain ⟨offset, mid, t', after', hoffset, rfl, ht', hmore⟩ :=
        (reads_accessMore_index hindex).mp h
      have hlt : after'.length + 1 < after.length := hoffset.lt
      have hsound := ((sound_expression hts.tail hoffset).close ht' (by simp)).index hbase
      exact (hsound.trans (sound_accessMore (hts.tail.of_suffix hsound.suffix) hsound.valid
        hmore)).symbol hindex (by simp)
    by_cases hmember : t.kind = .symbol .dot
    · obtain ⟨t', after', heq, ht', hmore⟩ := (reads_accessMore_member hmember).mp h
      have hlt : after'.length < after.length := heq ▸ tail_lt t' after'
      rw [heq] at hts ⊢
      have hnode : (Expr.node () (.member base t'.lexeme)).Valid Literal.IsGenuine :=
        valid_node.mpr ⟨hts.tail.name ht', by simp [ExprNode.children, hbase]⟩
      have hsound := sound_accessMore hts.tail.tail hnode hmore
      rw [members_member] at hsound
      exact ⟨hsound.valid, (hsound.passes.name ht').dot hmember⟩
    by_cases hplus : t.kind = .symbol .plusPlus
    · have hsound := sound_accessMore hts.tail (valid_unary .postInc hbase)
        ((reads_accessMore_plusPlus hplus).mp h)
      rw [members_unary] at hsound
      exact hsound.symbol hplus (by simp)
    by_cases hminus : t.kind = .symbol .minusMinus
    · have hsound := sound_accessMore hts.tail (valid_unary .postDec hbase)
        ((reads_accessMore_minusMinus hminus).mp h)
      rw [members_unary] at hsound
      exact hsound.symbol hminus (by simp)
    have hstop : Reads (accessMore base (t :: after)) e rest ↔ e = base ∧ rest = t :: after :=
      reads_accessMore_stop hindex hmember hplus hminus
    obtain ⟨rfl, rfl⟩ := hstop.mp h
    exact .refl hbase
termination_by 8 * ts.length + 7
decreasing_by
  all_goals try simp only [List.length_cons]
  all_goals omega

theorem sound_primary {ts rest : List Token} {e : Expr Unit} (hts : Genuine ts)
    (h : Reads (primary ts) e rest) : SoundExpr ts 0 e rest := by
  match readsPrimary_of_reads h, hts with
  | .literal ht, hts => exact sound_literal hts ht
  | .ident ht, hts =>
    refine ⟨Expr.valid_node.mpr ⟨hts.name ht, fun c hc => nomatch hc⟩, ?_⟩
    exact (Passes.refl _ 0).name ht
  | .call ht ht' hargs, hts =>
    have hlt := hargs.lt
    have hsound := sound_arguments hts.tail.tail hargs
    refine ⟨Expr.valid_node.mpr ⟨hts.name ht, hsound.valid⟩, ?_⟩
    rw [members_call]
    exact (hsound.passes.symbol ht' (by simp)).name ht
  | .paren ht hinner ht', hts =>
    have hlt := hinner.lt
    have hsound := (sound_expression hts.tail hinner).close ht' (by simp)
    refine ⟨Expr.valid_node.mpr ⟨trivial, by simp [ExprNode.children, hsound.valid]⟩, ?_⟩
    rw [members_paren]
    exact hsound.passes.symbol ht (by simp)
termination_by 8 * ts.length + 0
decreasing_by
  all_goals try simp only [List.length_cons]
  all_goals omega

theorem sound_arguments {ts rest : List Token} {args : List (Expr Unit)} (hts : Genuine ts)
    (h : Reads (arguments ts) args rest) : SoundExprs ts args rest := by
  match ts, hts with
  | [], _ =>
    rw [arguments] at h
    exact (reads_error.mp h).elim
  | t :: after, hts =>
    by_cases hclose : t.kind = .symbol .rParen
    · obtain ⟨rfl, rfl⟩ := (reads_arguments_nil hclose).mp h
      exact SoundExprs.nil.symbol hclose (by simp)
    · have hopen : headKind (t :: after) ≠ .symbol .rParen := hclose
      obtain ⟨first, mid, more, hfirst, hmore, rfl⟩ :=
        (reads_arguments_cons hopen (List.cons_ne_nil t after)).mp h
      have hlt : mid.length < after.length + 1 := hfirst.lt
      have hsound := sound_assignment hts hfirst
      exact .cons hsound (sound_argumentsMore (hts.of_suffix hsound.suffix) hmore)
termination_by 8 * ts.length + 6
decreasing_by
  all_goals try simp only [List.length_cons]
  all_goals omega

theorem sound_argumentsMore {ts rest : List Token} {args : List (Expr Unit)} (hts : Genuine ts)
    (h : Reads (argumentsMore ts) args rest) : SoundExprs ts args rest := by
  match ts, hts with
  | [], _ =>
    rw [argumentsMore] at h
    exact (reads_error.mp h).elim
  | t :: after, hts =>
    by_cases hcomma : t.kind = .symbol .comma
    · obtain ⟨next, mid, more, hnext, hmore, rfl⟩ := (reads_argumentsMore_comma hcomma).mp h
      have hlt := hnext.lt
      have hsound := sound_assignment hts.tail hnext
      exact (SoundExprs.cons hsound (sound_argumentsMore (hts.tail.of_suffix hsound.suffix)
        hmore)).symbol hcomma (by simp)
    · obtain ⟨hclose, rfl, rfl⟩ := (reads_argumentsMore_stop hcomma).mp h
      exact SoundExprs.nil.symbol hclose (by simp)
termination_by 8 * ts.length + 7
decreasing_by
  all_goals try simp only [List.length_cons]
  all_goals omega

end

end Expressions

end Parser

end ShaderReducer
