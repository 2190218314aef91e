import ShaderReducer.Proofs.Parser.Following
import ShaderReducer.Proofs.Shader.Compact

/-!
# The reader and the grammar: whole texts

The rules for specifiers, statements and declarations, and what the reader makes of a text: it
always has an answer, and this is the program of the grammar laid out, or the same error.
-/

namespace ShaderReducer

/-- Lays a declarator out in a shader. -/
def Declarator.place {ε : Type} (d : Declarator (Expr ε)) : StateM Shader (Declarator ExprId) := do
  return ⟨d.name, d.arraySize, ← Expr.placeOption d.init⟩

/-- Lays an optional statement out in a shader. -/
def Stmt.placeOption {ε σ : Type} : Option (Stmt ε σ) → StateM Shader (Option StmtId)
  | some t => do return some (← t.place)
  | none => pure none

/-- Lays declarations out and keeps the shader alone. -/
def DeclTree.add (ds : List (DeclTree Unit Unit)) (s : Shader) : Unit × Shader :=
  ((), Shader.placeDecls ds s)

namespace Parser

open Reader (Rule)

variable {stream : TokenStream} {ts : List Token} {s : Shader} {r : Reader}

/-! ## Slots of statements and declarations -/

section Slots

variable {n : Nat} {rest : List Token} {s₀ : Shader}

theorem follows_newStmt {t : Stmt Unit Unit} {node : StmtNode ExprId StmtId} {h : rest.length < n}
    (hview : View stream rest s₀ r) (hplace : t.place s = s₀.addStmt node) :
    Follows stream Stmt.place s (.ok ⟨t, rest, h⟩) (Reader.newStmt node) r := by
  have hnew : Reader.newStmt node r = pure ((r.shader.addStmt node).1,
    { r with shader := (r.shader.addStmt node).2 }) := rfl
  rw [hview.shader, ← hplace] at hnew
  exact ⟨_, hnew, hview.withShader _⟩

theorem follows_newDecl {α : Type} {list : α → List (DeclTree Unit Unit)} {value : α}
    {node : Decl ExprId StmtId} {h : rest.length < n} (hview : View stream rest s₀ r)
    (hplace : Shader.placeDecls (list value) s = (s₀.addDecl node).2) :
    Follows stream (DeclTree.add ∘ list) s (.ok ⟨value, rest, h⟩) (Reader.newDecl node) r := by
  have hnew : Reader.newDecl node r =
    pure ((), { r with shader := (r.shader.addDecl node).2 }) := rfl
  rw [hview.shader, ← hplace] at hnew
  exact ⟨_, hnew, hview.withShader _⟩

end Slots

/-! ## Tokens that are known -/

section Known

variable {α β : Type} {n m : Nat} {lay : α → Shader → β × Shader} {s' : Shader}
  {t : Token} {rest : List Token} {wanted : TokenKind}

/-- A token that is passed where it is known to be ahead. -/
theorem Follows.passed {rule : Rule β} {answer : Outcome Unit n} {p : Parsed Unit n}
    {more : Parsed Unit n → Outcome α m} (hanswer : answer = .ok p)
    (h : Follows stream lay s (more p) rule r) : Follows stream lay s (answer >>= more) rule r := by
  rw [hanswer]
  exact h

theorem expect_head (ht : t.kind = wanted) : expect wanted (t :: rest) = .ok (.one () t rest) :=
  if_pos ht

theorem expect_head_since (hlt : (t :: rest).length < n) (ht : t.kind = wanted) :
    (expect wanted (t :: rest)).since hlt = .ok ⟨(), rest, lt_of_since (tail_lt t rest) hlt⟩ := by
  rw [expect_head ht]
  rfl

/-- A row of parts that the end of the text stops as well as its closing token. -/
theorem follows_closing {answer other : Outcome α n} {close rule : Rule β}
    (h : View stream (t :: rest) s' r)
    (hyes : t.kind = wanted → Follows stream lay s answer close r.advance)
    (hno : Follows stream lay s other rule r) :
    Follows stream lay s (if t.kind = wanted then answer else other)
      (if t.kind = wanted ∨ t.kind = .endOfFile then
        Reader.expect wanted >>= fun _ => close else rule) r := by
  have hend := h.kind_ne t List.mem_cons_self
  by_cases hc : t.kind = wanted
  · rw [if_pos hc, if_pos (.inl hc), Reader.expect, bind_assoc, follows_kind h, headKind, if_pos hc]
    exact hyes hc
  · rw [if_neg hc, if_neg (not_or.mpr ⟨hc, hend⟩)]
    exact hno

end Known

/-! ## Specifiers and declarators -/

theorem follows_arraySize (h : View stream ts s r) :
    Follows stream Prod.mk s (arraySize ts) Reader.arraySize r := by
  rw [Reader.arraySize]
  cases ts with
  | nil => exact follows_accept_nil h TokenKind.noConfusion (.plain h)
  | cons t after =>
    unfold arraySize
    refine follows_accept h (fun _ => ?_) fun _ => .plain h
    rw [follows_current h.advance]
    cases after with
    | nil =>
      rw [List.headD_nil, h.kind_eof]
      exact .error h.advance
    | cons size rest =>
      rw [List.headD_cons]
      dsimp only
      split
      next =>
        cases integerValue? size.lexeme with
        | none => exact .error h.advance
        | some n =>
          dsimp only
          rw [follows_shift]
          exact .loosen ((follows_expectSymbol _ h.advance.advance).since.bind
            fun _ rest hlt r h => .plain h)
      next => exact .error h.advance

theorem follows_layoutValue (h : View stream ts s r) :
    Follows stream Prod.mk s (layoutValue ts) Reader.layoutValue r := by
  rw [Reader.layoutValue]
  cases ts with
  | nil => exact follows_accept_nil h TokenKind.noConfusion (.plain h)
  | cons t after =>
    unfold layoutValue
    refine follows_accept h (fun _ => ?_) fun _ => .plain h
    rw [follows_current h.advance]
    cases after with
    | nil =>
      rw [List.headD_nil, h.kind_eof]
      exact .error h.advance
    | cons value rest =>
      rw [List.headD_cons]
      dsimp only
      split
      next => exact .plain h.advance.advance
      next => exact .error h.advance

theorem follows_layoutItemsWithin {fuel : Nat} {ts : List Token} {r : Reader}
    (hfuel : 8 * ts.length < fuel) (h : View stream ts s r) :
    Follows stream Prod.mk s (layoutItems ts) (Reader.layoutItemsWithin fuel) r := by
  cases fuel with
  | zero => exact absurd hfuel (Nat.not_lt_zero _)
  | succ fuel =>
    rw [layoutItems, Reader.layoutItemsWithin]
    refine (follows_identifier h).bind fun key rest hlt r h => ?_
    refine (follows_layoutValue h).sinceMaybe.bind fun value rest hlt r h => ?_
    dsimp only
    cases rest with
    | nil =>
      exact follows_accept_nil h TokenKind.noConfusion (follows_expectSymbol .rParen h).stop
    | cons t after =>
      have hlength : (t :: after).length = after.length + 1 := rfl
      have hafter := tail_lt t after
      refine follows_accept h (fun hc => .passed (expect_head_since _ hc) ?_) fun _ => ?_
      · exact (follows_layoutItemsWithin (by omega) h.advance).since.bind
          fun more rest hlt r h => .plain h
      · exact (follows_expectSymbol _ h).since.bind fun _ rest hlt r h => .plain h
termination_by fuel

theorem follows_layoutItems (h : View stream ts s r) :
    Follows stream Prod.mk s (layoutItems ts) Reader.layoutItems r :=
  .bounded h fun _ hfuel => follows_layoutItemsWithin (by omega) h

theorem follows_qualifiersWithin {fuel : Nat} {ts : List Token} {r : Reader}
    (hfuel : 8 * ts.length < fuel) (h : View stream ts s r) :
    Follows stream Prod.mk s (qualifiers ts) (Reader.qualifiersWithin fuel) r := by
  cases fuel with
  | zero => exact absurd hfuel (Nat.not_lt_zero _)
  | succ fuel =>
    rw [Reader.qualifiersWithin, follows_kind h]
    cases ts with
    | nil =>
      rw [qualifiers]
      exact .plain h
    | cons t after =>
      have hlength : (t :: after).length = after.length + 1 := rfl
      rw [qualifiers, headKind]
      split
      next hc =>
        simp only [hc, follows_shift]
        refine .loosen ((follows_expectSymbol _ h.advance).since.bind fun _ rest hlt r h => ?_)
        refine (follows_layoutItems h).since.bind fun items rest hlt r h => ?_
        exact (follows_qualifiersWithin (by omega) h).sinceMaybe.bind
          fun more rest hlt r h => .plain h
      next word _ hc =>
        simp only [hc]
        cases plainQualifier? word with
        | some q =>
          dsimp only
          rw [follows_shift]
          exact .loosen ((follows_qualifiersWithin (by omega) h.advance).sinceMaybe.bind
            fun more rest hlt r h => .plain h)
        | none => exact .plain h
      next hne =>
        first
          | exact .plain h
          | split
            next => contradiction
            next hc => exact absurd hc (hne _)
            next => exact .plain h
termination_by fuel

theorem follows_qualifiers (h : View stream ts s r) :
    Follows stream Prod.mk s (qualifiers ts) Reader.qualifiers r :=
  .bounded h fun _ hfuel => follows_qualifiersWithin (by omega) h

theorem follows_typeSpec (h : View stream ts s r) :
    Follows stream Prod.mk s (typeSpec ts) Reader.typeSpec r := by
  rw [typeSpec, Reader.typeSpec]
  refine (follows_qualifiers h).bind fun qs rest hlt r h => ?_
  exact (follows_name _ h).after.bind fun typeName rest hlt r h => .plain h

theorem follows_initializer (h : View stream ts s r) :
    Follows stream Expr.placeOption s (initializer ts) Reader.initializer r := by
  rw [Reader.initializer]
  cases ts with
  | nil => exact follows_accept_nil h TokenKind.noConfusion (.ok h)
  | cons t after =>
    rw [initializer]
    refine follows_accept h (fun _ => .loosen ?_) fun _ => .ok h
    exact (follows_assignment h.advance).since.bind fun value rest hlt r h => .ok h

theorem follows_declarator (name : String) (h : View stream ts s r) :
    Follows stream Declarator.place s (declarator name ts) (Reader.declarator name) r := by
  rw [declarator, Reader.declarator]
  refine (follows_arraySize h).bind fun size rest hlt r h => ?_
  exact (follows_initializer h).sinceMaybe.bind fun init rest hlt r h => .ok h

theorem follows_declaratorsMoreWithin {fuel : Nat} {ts : List Token} {s : Shader} {r : Reader}
    (hfuel : 8 * ts.length < fuel) (h : View stream ts s r) :
    Follows stream Declarator.placeAll s (declaratorsMore ts)
      (Reader.declaratorsMoreWithin fuel) r := by
  cases fuel with
  | zero => exact absurd hfuel (Nat.not_lt_zero _)
  | succ fuel =>
    rw [Reader.declaratorsMoreWithin]
    cases ts with
    | nil =>
      rw [declaratorsMore]
      exact follows_accept_nil h TokenKind.noConfusion (follows_expectSymbol .semicolon h).stop
    | cons t after =>
      have hlength : (t :: after).length = after.length + 1 := rfl
      rw [declaratorsMore]
      refine follows_accept h (fun _ => ?_) fun _ => ?_
      · refine (follows_identifier h.advance).since.bind fun name rest hlt r h => ?_
        refine (follows_declarator name h).sinceMaybe.bind fun first rest hlt r h => ?_
        exact (follows_declaratorsMoreWithin (by omega) h).since.bind fun more rest hlt r h => .ok h
      · exact (follows_expectSymbol _ h).bind fun _ rest hlt r h => .ok h
termination_by fuel

theorem follows_declaratorsMore (h : View stream ts s r) :
    Follows stream Declarator.placeAll s (declaratorsMore ts) Reader.declaratorsMore r :=
  .bounded h fun _ hfuel => follows_declaratorsMoreWithin (by omega) h

theorem follows_varDecl (type : TypeSpec) (name : String) (h : View stream ts s r) :
    Follows stream VarDecl.place s (varDecl type name ts) (Reader.varDecl type name) r := by
  rw [varDecl, Reader.varDecl]
  refine (follows_declarator name h).bind fun first rest hlt r h => ?_
  exact (follows_declaratorsMore h).after.bind fun more rest hlt r h => .ok h

/-! ## Statements -/

theorem follows_startsDeclaration {α β : Type} {n : Nat} {lay : α → Shader → β × Shader}
    {s' : Shader} {answer : Outcome α n} {next : Bool → Rule β} (h : View stream ts s r) :
    Follows stream lay s' answer (Reader.startsDeclaration >>= next) r ↔
      Follows stream lay s' answer (next (startsDeclaration ts)) r := by
  have hstarts : Reader.startsDeclaration r = pure (startsDeclaration ts, r) := by
    rw [Reader.startsDeclaration, h.kind_eq]
    cases ts with
    | nil => rfl
    | cons t after =>
      rw [h.peek_eq]
      rfl
  have hbind : (Reader.startsDeclaration >>= next) r =
      Reader.startsDeclaration r >>= fun p => next p.1 p.2 := rfl
  rw [hstarts] at hbind
  unfold Follows
  rw [hbind]
  rfl

theorem follows_declaration (h : View stream ts s r) :
    Follows stream VarDecl.place s (declaration ts) Reader.declaration r := by
  rw [declaration, Reader.declaration]
  refine (follows_typeSpec h).bind fun type rest hlt r h => ?_
  refine (follows_identifier h).since.bind fun name rest hlt r h => ?_
  exact (follows_varDecl type name h).since.last

theorem follows_expressionUnless (sign : Symbol) (h : View stream ts s r) :
    Follows stream Expr.placeOption s (expressionUnless sign ts) (Reader.expressionUnless sign) r := by
  rw [expressionUnless, Reader.expressionUnless, follows_kind h]
  split
  next => exact .ok h
  next => exact .loosen ((follows_expression h).bind fun e rest hlt r h => .ok h)

theorem follows_expressionStatement (h : View stream ts s r) :
    Follows stream Stmt.place s (expressionStatement ts) Reader.expressionStatement r := by
  rw [expressionStatement, Reader.expressionStatement]
  refine (follows_expression h).bind fun e rest hlt r h => ?_
  exact (follows_expectSymbol _ h).since.bind fun _ rest hlt r h => follows_newStmt h rfl

theorem follows_declarationOrExpression (h : View stream ts s r) :
    Follows stream Stmt.place s (declarationOrExpression ts) Reader.declarationOrExpression r := by
  rw [declarationOrExpression, Reader.declarationOrExpression, follows_startsDeclaration h]
  split
  next => exact (follows_declaration h).bind fun decl rest hlt r h => follows_newStmt h rfl
  next => exact follows_expressionStatement h

theorem follows_loopStart (h : View stream ts s r) :
    Follows stream Stmt.place s (loopStart ts) Reader.loopStart r := by
  rw [Reader.loopStart]
  cases ts with
  | nil => exact follows_accept_nil h TokenKind.noConfusion (follows_declarationOrExpression h)
  | cons t after =>
    rw [loopStart]
    exact follows_accept h (fun _ => follows_newStmt h.advance rfl) fun _ =>
      follows_declarationOrExpression h

theorem follows_wordStatement {form : StmtNode (Expr Unit) (Stmt Unit Unit)}
    {node : StmtNode ExprId StmtId} (hplace : ∀ s, (Stmt.node () form).place s = s.addStmt node)
    (h : View stream ts s r) :
    Follows stream Stmt.place s (wordStatement form ts) (Reader.wordStatement node) r := by
  rw [wordStatement, Reader.wordStatement]
  exact (follows_expectSymbol _ h).bind fun _ rest hlt r h => follows_newStmt h (hplace _)

theorem follows_condition (h : View stream ts s r) :
    Follows stream Expr.place s (condition ts) Reader.condition r := by
  rw [condition, Reader.condition]
  refine (follows_expectSymbol _ h).bind fun _ rest hlt r h => ?_
  refine (follows_expression h).since.bind fun cond rest hlt r h => ?_
  exact (follows_expectSymbol _ h).since.bind fun _ rest hlt r h => .ok h

mutual

theorem follows_statementWithin {fuel : Nat} {ts : List Token} {s : Shader} {r : Reader}
    (hfuel : 8 * ts.length + 1 < fuel) (h : View stream ts s r) :
    Follows stream Stmt.place s (statement ts) (Reader.statementWithin fuel) r := by
  cases fuel with
  | zero => exact absurd hfuel (Nat.not_lt_zero _)
  | succ fuel =>
    rw [Reader.statementWithin, follows_kind h]
    cases ts with
    | nil =>
      rw [statement]
      exact follows_declarationOrExpression h
    | cons t after =>
      have hlength : (t :: after).length = after.length + 1 := rfl
      rw [statement, headKind]
      split
      next hc =>
        simp only [hc, follows_shift]
        exact (follows_blockBodyWithin (by omega) h.advance).since.bind
          fun body rest hlt r h => follows_newStmt h rfl
      next hc =>
        simp only [hc, follows_shift]
        refine (follows_condition h.advance).since.bind fun cond rest hlt r h => ?_
        refine (follows_statementWithin (by omega) h).since.bind fun onTrue rest hlt r h => ?_
        refine (follows_elseBranchWithin (by omega) h).sinceMaybe.bind fun onFalse rest hlt r h => ?_
        exact follows_newStmt h (by cases onFalse <;> rfl)
      next hc =>
        simp only [hc, follows_shift]
        refine (follows_expectSymbol _ h.advance).since.bind fun _ rest hlt r h => ?_
        refine (follows_loopStart h).since.bind fun start rest hlt r h => ?_
        refine (follows_expressionUnless _ h).sinceMaybe.bind fun cond rest hlt r h => ?_
        refine (follows_expectSymbol _ h).since.bind fun _ rest hlt r h => ?_
        refine (follows_expressionUnless _ h).sinceMaybe.bind fun step rest hlt r h => ?_
        refine (follows_expectSymbol _ h).since.bind fun _ rest hlt r h => ?_
        exact (follows_statementWithin (by omega) h).since.bind
          fun body rest hlt r h => follows_newStmt h rfl
      next hc =>
        simp only [hc, follows_shift]
        refine (follows_condition h.advance).since.bind fun cond rest hlt r h => ?_
        exact (follows_statementWithin (by omega) h).since.bind
          fun body rest hlt r h => follows_newStmt h rfl
      next hc =>
        simp only [hc, follows_shift]
        refine (follows_statementWithin (by omega) h.advance).since.bind fun body rest hlt r h => ?_
        refine (follows_expect TokenKind.noConfusion h).since.bind fun _ rest hlt r h => ?_
        refine (follows_condition h).since.bind fun cond rest hlt r h => ?_
        exact (follows_expectSymbol _ h).since.bind fun _ rest hlt r h => follows_newStmt h rfl
      next hc =>
        simp only [hc, follows_shift]
        refine (follows_expressionUnless _ h.advance).sinceMaybe.bind fun value rest hlt r h => ?_
        exact (follows_expectSymbol _ h).since.bind fun _ rest hlt r h => follows_newStmt h rfl
      next hc =>
        simp only [hc, follows_shift]
        exact (follows_wordStatement (fun _ => rfl) h.advance).since.last
      next hc =>
        simp only [hc, follows_shift]
        exact (follows_wordStatement (fun _ => rfl) h.advance).since.last
      next hc =>
        simp only [hc, follows_shift]
        exact (follows_wordStatement (fun _ => rfl) h.advance).since.last
      next hc =>
        simp only [hc, follows_shift]
        exact follows_newStmt h.advance rfl
      next =>
        first
          | exact follows_declarationOrExpression h
          | (split <;> first | contradiction | exact follows_declarationOrExpression h)
termination_by fuel

theorem follows_elseBranchWithin {fuel : Nat} {ts : List Token} {s : Shader} {r : Reader}
    (hfuel : 8 * ts.length < fuel) (h : View stream ts s r) :
    Follows stream Stmt.placeOption s (elseBranch ts) (Reader.elseBranchWithin fuel) r := by
  cases fuel with
  | zero => exact absurd hfuel (Nat.not_lt_zero _)
  | succ fuel =>
    rw [Reader.elseBranchWithin]
    cases ts with
    | nil =>
      rw [elseBranch]
      exact follows_accept_nil h TokenKind.noConfusion (.ok h)
    | cons t after =>
      have hlength : (t :: after).length = after.length + 1 := rfl
      rw [elseBranch]
      refine follows_accept h (fun _ => .loosen ?_) fun _ => .ok h
      exact (follows_statementWithin (by omega) h.advance).since.bind fun t rest hlt r h => .ok h
termination_by fuel

theorem follows_blockBodyWithin {fuel : Nat} {ts : List Token} {s : Shader} {r : Reader}
    (hfuel : 8 * ts.length + 2 < fuel) (h : View stream ts s r) :
    Follows stream Stmt.placeAll s (blockBody ts) (Reader.blockBodyWithin fuel) r := by
  cases fuel with
  | zero => exact absurd hfuel (Nat.not_lt_zero _)
  | succ fuel =>
    rw [Reader.blockBodyWithin, follows_kind h, follows_kind h]
    cases ts with
    | nil =>
      rw [blockBody]
      exact (follows_expectSymbol .rBrace h).stop
    | cons t after =>
      have hlength : (t :: after).length = after.length + 1 := rfl
      rw [blockBody]
      refine follows_closing h (fun _ => ⟨_, rfl, h.advance⟩) ?_
      refine (follows_statementWithin (by omega) h).bind fun first rest hlt r h => ?_
      exact (follows_blockBodyWithin (by omega) h).since.bind fun more rest hlt r h => .ok h
termination_by fuel

end

theorem follows_blockBody (h : View stream ts s r) :
    Follows stream Stmt.placeAll s (blockBody ts) Reader.blockBody r :=
  .bounded h fun _ hfuel => follows_blockBodyWithin (by omega) h

theorem follows_block (h : View stream ts s r) :
    Follows stream Stmt.place s (block ts) Reader.block r := by
  rw [block, Reader.block]
  refine (follows_expectSymbol _ h).bind fun _ rest hlt r h => ?_
  exact (follows_blockBody h).since.bind fun body rest hlt r h => follows_newStmt h rfl

/-! ## Declarations -/

theorem follows_fieldsMoreWithin {fuel : Nat} {ts : List Token} {r : Reader} (type : TypeSpec)
    (hfuel : 8 * ts.length < fuel) (h : View stream ts s r) :
    Follows stream Prod.mk s (fieldsMore type ts) (Reader.fieldsMoreWithin fuel type) r := by
  cases fuel with
  | zero => exact absurd hfuel (Nat.not_lt_zero _)
  | succ fuel =>
    rw [Reader.fieldsMoreWithin]
    cases ts with
    | nil =>
      rw [fieldsMore]
      exact follows_accept_nil h TokenKind.noConfusion (follows_expectSymbol .semicolon h).stop
    | cons t after =>
      have hlength : (t :: after).length = after.length + 1 := rfl
      rw [fieldsMore]
      refine follows_accept h (fun _ => ?_) fun _ => ?_
      · refine (follows_identifier h.advance).since.bind fun name rest hlt r h => ?_
        refine (follows_arraySize h).sinceMaybe.bind fun size rest hlt r h => ?_
        exact (follows_fieldsMoreWithin type (by omega) h).since.bind
          fun more rest hlt r h => .plain h
      · exact (follows_expectSymbol _ h).bind fun _ rest hlt r h => .plain h
termination_by fuel

theorem follows_fieldsMore (type : TypeSpec) (h : View stream ts s r) :
    Follows stream Prod.mk s (fieldsMore type ts) (Reader.fieldsMore type) r :=
  .bounded h fun _ hfuel => follows_fieldsMoreWithin type (by omega) h

theorem follows_structFieldsWithin {fuel : Nat} {ts : List Token} {r : Reader}
    (hfuel : 8 * ts.length < fuel) (h : View stream ts s r) :
    Follows stream Prod.mk s (structFields ts) (Reader.structFieldsWithin fuel) r := by
  cases fuel with
  | zero => exact absurd hfuel (Nat.not_lt_zero _)
  | succ fuel =>
    rw [Reader.structFieldsWithin, follows_kind h, follows_kind h]
    cases ts with
    | nil =>
      rw [structFields]
      exact (follows_expectSymbol .rBrace h).stop
    | cons t after =>
      have hlength : (t :: after).length = after.length + 1 := rfl
      rw [structFields]
      refine follows_closing h (fun _ => .plain h.advance) ?_
      refine (follows_typeSpec h).bind fun type rest hlt r h => ?_
      refine (follows_identifier h).since.bind fun name rest hlt r h => ?_
      refine (follows_arraySize h).sinceMaybe.bind fun size rest hlt r h => ?_
      refine (follows_fieldsMore type h).since.bind fun same rest hlt r h => ?_
      exact (follows_structFieldsWithin (by omega) h).since.bind fun more rest hlt r h => .plain h
termination_by fuel

theorem follows_structFields (h : View stream ts s r) :
    Follows stream Prod.mk s (structFields ts) Reader.structFields r :=
  .bounded h fun _ hfuel => follows_structFieldsWithin (by omega) h

theorem follows_structDecl (h : View stream ts s r) :
    Follows stream Prod.mk s (structDecl ts) Reader.structDecl r := by
  rw [structDecl, Reader.structDecl]
  refine (follows_identifier h).bind fun name rest hlt r h => ?_
  refine (follows_expectSymbol _ h).since.bind fun _ rest hlt r h => ?_
  refine (follows_structFields h).since.bind fun fields rest hlt r h => ?_
  exact (follows_expectSymbol _ h).since.bind fun _ rest hlt r h => .plain h

theorem follows_param (h : View stream ts s r) :
    Follows stream Prod.mk s (param ts) Reader.param r := by
  rw [param, Reader.param]
  refine (follows_typeSpec h).bind fun type rest hlt r h => ?_
  rw [follows_kind h]
  dsimp only
  split
  next =>
    refine (follows_identifier h).since.bind fun name rest hlt r h => ?_
    exact (follows_arraySize h).sinceMaybe.bind fun size rest hlt r h => .plain h
  next => exact .plain h

theorem follows_paramsMoreWithin {fuel : Nat} {ts : List Token} {r : Reader}
    (hfuel : 8 * ts.length < fuel) (h : View stream ts s r) :
    Follows stream Prod.mk s (paramsMore ts) (Reader.paramsMoreWithin fuel) r := by
  cases fuel with
  | zero => exact absurd hfuel (Nat.not_lt_zero _)
  | succ fuel =>
    rw [Reader.paramsMoreWithin]
    cases ts with
    | nil =>
      rw [paramsMore]
      exact follows_accept_nil h TokenKind.noConfusion (follows_expectSymbol .rParen h).stop
    | cons t after =>
      have hlength : (t :: after).length = after.length + 1 := rfl
      rw [paramsMore]
      refine follows_accept h (fun _ => ?_) fun _ => ?_
      · refine (follows_param h.advance).since.bind fun next rest hlt r h => ?_
        exact (follows_paramsMoreWithin (by omega) h).since.bind fun more rest hlt r h => .plain h
      · exact (follows_expectSymbol _ h).bind fun _ rest hlt r h => .plain h
termination_by fuel

theorem follows_paramsMore (h : View stream ts s r) :
    Follows stream Prod.mk s (paramsMore ts) Reader.paramsMore r :=
  .bounded h fun _ hfuel => follows_paramsMoreWithin (by omega) h

theorem follows_params (h : View stream ts s r) :
    Follows stream Prod.mk s (params ts) Reader.params r := by
  rw [params, Reader.params]
  cases ts with
  | nil =>
    refine follows_accept_nil h TokenKind.noConfusion ?_
    refine (follows_param h).bind fun first rest hlt r h => ?_
    exact (follows_paramsMore h).since.bind fun more rest hlt r h => .plain h
  | cons t after =>
    refine follows_accept h (fun hc => .passed (expect_head hc) (.plain h.advance)) fun _ => ?_
    refine (follows_param h).bind fun first rest hlt r h => ?_
    exact (follows_paramsMore h).since.bind fun more rest hlt r h => .plain h

theorem follows_functionBody (h : View stream ts s r) :
    Follows stream Stmt.placeOption s (functionBody ts) Reader.functionBody r := by
  rw [functionBody, Reader.functionBody]
  cases ts with
  | nil =>
    refine follows_accept_nil h TokenKind.noConfusion ?_
    rw [follows_kind h]
    exact .error h
  | cons t after =>
    refine follows_accept h (fun hc => .passed (expect_head hc) (.ok h.advance)) fun _ => ?_
    rw [follows_kind h]
    split
    next => exact (follows_block h).bind fun body rest hlt r h => .ok h
    next => exact .error h

theorem follows_functionOrVars (type : TypeSpec) (name : String) (h : View stream ts s r) :
    Follows stream (DeclTree.add ∘ ([·])) s (functionOrVars type name ts)
      (Reader.functionOrVars type name) r := by
  rw [functionOrVars, Reader.functionOrVars]
  cases ts with
  | nil =>
    refine follows_accept_nil h TokenKind.noConfusion ?_
    exact (follows_varDecl type name h).bind fun decl rest hlt r h => follows_newDecl h rfl
  | cons t after =>
    refine follows_accept h (fun hc => .passed (expect_head hc) ?_) fun _ => ?_
    · refine (follows_params h.advance).since.bind fun ps rest hlt r h => ?_
      refine (follows_functionBody h).since.bind fun body rest hlt r h => ?_
      exact follows_newDecl h (by cases body <;> rfl)
    · exact (follows_varDecl type name h).bind fun decl rest hlt r h => follows_newDecl h rfl

theorem follows_precisionDecl (h : View stream ts s r) :
    Follows stream (DeclTree.add ∘ ([·])) s (precisionDecl ts) Reader.precisionDecl r := by
  rw [Reader.precisionDecl, follows_current h]
  cases ts with
  | nil =>
    simp only [List.headD_nil, precision?, h.kind_eof]
    exact .error h
  | cons t after =>
    rw [precisionDecl, List.headD_cons]
    cases precision? t with
    | none => exact .error h
    | some level =>
      dsimp only
      rw [follows_shift]
      refine (follows_name _ h.advance).since.bind fun typeName rest hlt r h => ?_
      exact (follows_expectSymbol _ h).since.bind fun _ rest hlt r h => follows_newDecl h rfl

/-- A rule that ends with another one, which gives a part of what is read. -/
theorem Follows.part {α β γ : Type} {n : Nat} {lay : α → Shader → β × Shader}
    {lay' : γ → Shader → β × Shader} {answer : Outcome α n} {rule : Rule β} {whole : α → γ}
    (hlay : ∀ value, lay' (whole value) s = lay value s) (h : Follows stream lay s answer rule r) :
    Follows stream lay' s
      (answer >>= fun ⟨value, rest, hlt⟩ => pure ⟨whole value, rest, hlt⟩) rule r := by
  cases answer with
  | error failure => exact h
  | ok p =>
    obtain ⟨r', hrule, hview⟩ := h
    rw [← hlay] at hrule hview
    exact ⟨r', hrule, hview⟩

theorem follows_topLevel {t : Token} {after : List Token} (h : View stream (t :: after) s r) :
    Follows stream (DeclTree.add ∘ Option.toList) s (topLevel (t :: after)) Reader.topLevel r := by
  rw [topLevel, Reader.topLevel, follows_current h, List.headD_cons]
  split
  next =>
    rw [follows_shift]
    exact follows_newDecl h.advance rfl
  split
  next => exact ⟨_, rfl, h.advance⟩
  split
  next =>
    rw [follows_shift]
    exact (follows_precisionDecl h.advance).since.part fun _ => rfl
  split
  next =>
    rw [follows_shift]
    exact (follows_structDecl h.advance).since.bind fun decl rest hlt r h => follows_newDecl h rfl
  split
  next =>
    refine (follows_typeSpec h).bind fun type rest hlt r h => ?_
    refine (follows_identifier h).since.bind fun name rest hlt r h => ?_
    exact (follows_functionOrVars type name h).since.part fun _ => rfl
  next => exact .error h

/-! ## Whole texts -/

theorem placeDecls_append {ε σ : Type} (ds more : List (DeclTree ε σ)) (s : Shader) :
    Shader.placeDecls (ds ++ more) s = Shader.placeDecls more (Shader.placeDecls ds s) := by
  induction ds generalizing s with
  | nil => rfl
  | cons d ds ih => exact ih _

/-- What the reader makes of the rest of a text, where the grammar gives `result`. -/
def Ends (stream : TokenStream) (result : Except Failure Shader)
    (answer : ExceptT ParseError Option (Unit × Reader)) : Prop :=
  match result with
  | .ok s => ∃ r, answer = pure ((), r) ∧ r.shader = s
  | .error failure => answer = throw (failure.toError stream)

theorem run_declarationsWithin (fuel : Nat) (h : View stream ts s r) :
    Reader.declarationsWithin (fuel + 1) r =
      if headKind ts = .endOfFile then pure ((), r)
      else Reader.topLevel r >>= fun p => Reader.declarationsWithin fuel p.2 := by
  rw [← h.kind_eq]
  change (if r.current.kind = .endOfFile then pure () else _ : Rule Unit) r = _
  split <;> rfl

theorem ends_declarationsWithin {fuel : Nat} {ts : List Token} {s : Shader} {r : Reader}
    (hfuel : 8 * ts.length < fuel) (h : View stream ts s r) :
    Ends stream ((declarations ts).map fun ds => Shader.placeDecls ds s)
      (Reader.declarationsWithin fuel r) := by
  induction fuel generalizing ts s r with
  | zero => exact absurd hfuel (Nat.not_lt_zero _)
  | succ fuel ih =>
    rw [run_declarationsWithin fuel h]
    cases ts with
    | nil =>
      rw [declarations]
      exact ⟨r, rfl, h.shader⟩
    | cons t after =>
      have htop := follows_topLevel h
      rw [declarations, headKind, if_neg (h.kind_ne t List.mem_cons_self)]
      cases hanswer : topLevel (t :: after) with
      | error failure =>
        rw [hanswer] at htop
        have hrule : Reader.topLevel r = throw (failure.toError stream) := htop
        rw [hrule]
        exact rfl
      | ok p =>
        rw [hanswer] at htop
        obtain ⟨r', hrule, hview⟩ := htop
        have hlt := p.fewer
        have hrest := ih (by omega) hview
        have hmap : ((do
            let more ← declarations p.rest
            return p.value.toList ++ more).map fun ds => Shader.placeDecls ds s) =
            (declarations p.rest).map fun ds =>
              Shader.placeDecls ds (Shader.placeDecls p.value.toList s) := by
          cases declarations p.rest with
          | error failure => rfl
          | ok more => exact congrArg Except.ok (placeDecls_append _ _ _)
        rw [hrule]
        exact hmap ▸ hrest

theorem ends_declarations (h : View stream ts s r) :
    Ends stream ((declarations ts).map fun ds => Shader.placeDecls ds s)
      (Reader.declarations r) := by
  have hlength := h.length_le
  exact ends_declarationsWithin (by omega) h

theorem program_plain (hversion : ¬ isVersionDirective r.current = true) :
    Reader.program r = Reader.declarations r := by
  change (if isVersionDirective r.current = true then _ else Reader.declarations : Rule Unit) r = _
  rw [if_neg hversion]

theorem program_version {version : Version} (hversion : isVersionDirective r.current = true)
    (hnumber : Version.ofDirective? r.current.lexeme = some version) : Reader.program r =
      Reader.declarations (Reader.advance { r with shader := { r.shader with version := version } })
    := by
  change (if isVersionDirective r.current = true then _ else Reader.declarations : Rule Unit) r = _
  rw [if_pos hversion, hnumber]
  rfl

theorem program_noVersion (hversion : isVersionDirective r.current = true)
    (hnumber : Version.ofDirective? r.current.lexeme = none) :
    Reader.program r = throw (r.error .versionDirective) := by
  change (if isVersionDirective r.current = true then _ else Reader.declarations : Rule Unit) r = _
  rw [if_pos hversion, hnumber]
  rfl

theorem ends_program (h : View stream ts {} r) :
    Ends stream ((program ts).map Shader.ofProgram) (Reader.program r) := by
  have hplain : Ends stream ((declarations ts).map fun ds => Shader.ofProgram ⟨none, ds⟩)
      (Reader.declarations r) := ends_declarations h
  cases ts with
  | nil =>
    have hversion : ¬ isVersionDirective r.current = true := by
      simp [isVersionDirective, h.kind_eq, headKind]
    rw [declarations] at hplain
    rw [program_plain hversion]
    exact hplain
  | cons t after =>
    have hcurrent := h.current_eq
    rw [program]
    split
    next hversion =>
      cases hnumber : Version.ofDirective? t.lexeme with
      | none =>
        rw [program_noVersion (hcurrent ▸ hversion) (hcurrent ▸ hnumber), h.error_eq]
        rfl
      | some version =>
        have hrest := ends_declarations (h.withShader { version := some version }).advance
        rw [program_version (hcurrent ▸ hversion) (hcurrent ▸ hnumber), h.shader]
        cases hdecls : declarations after with
        | error failure => rwa [hdecls] at hrest
        | ok ds => rwa [hdecls] at hrest
    next hversion =>
      rw [program_plain (hcurrent ▸ hversion)]
      cases hdecls : declarations (t :: after) with
      | error failure => rwa [hdecls] at hplain
      | ok ds => rwa [hdecls] at hplain

end Parser

open TokenStream (ofText)
open Lexer (error?)

theorem Reader.view_start (source : String) :
    Parser.View (ofText source) (ofText source).tokens {} (start source) := by
  have hcovers := TokenStream.covers_ofText source
  have herrors := (Lexer.State.ofText source).errors_next
  have hrun : ofText source = (Lexer.State.ofText source).run := rfl
  obtain ⟨hcurrent, hahead⟩ : (start source).current =
      (ofText source).tokens.headD (ofText source).eof ∧ ((ofText source).tokens ≠ [] →
        (start source).lexer.run.tokens = (ofText source).tokens.tail ∧
          (start source).lexer.run.eof = (ofText source).eof) := by
    by_cases hend : (Lexer.State.ofText source).next.1.kind = .endOfFile
    · rw [hrun, Lexer.State.run_of_end rfl hend]
      exact ⟨rfl, fun hne => absurd rfl hne⟩
    · rw [hrun, Lexer.State.run_of_token rfl hend]
      exact ⟨rfl, fun _ => Lexer.State.run_takeErrors _⟩
  refine ⟨hcurrent, hcovers.kind_eof, TokenStream.errors_ofText source, hahead, hcovers.kind_ne,
    ⟨[], rfl, ?_⟩, fun _ => rfl, rfl⟩
  have hkept : (start source).kept = (Lexer.State.ofText source).next.2.errors.head? := rfl
  have hfirst : (Lexer.State.ofText source).next.1 = (start source).current := rfl
  rw [hkept, herrors, hfirst, hcurrent]
  cases (ofText source).tokens with
  | nil =>
    have hnone : error? (ofText source).eof = none := by rw [error?, hcovers.kind_eof]
    exact congrArg (fun e => (e.toList : List LexicalError).head?) hnone
  | cons t after =>
    rw [List.headD_cons, List.take_succ_cons, List.take_zero, List.nil_append, List.filterMap_cons,
      List.filterMap_nil]
    cases error? t <;> rfl

/-- The reader always has an answer: the program of the grammar, laid out, or the same error. -/
theorem Shader.read_eq (source : String) :
    read source = some ((Program.parse source).map Shader.ofProgram) := by
  have hends := Parser.ends_program (Reader.view_start source)
  have hread : read source = Option.map (fun answer => answer.map fun p => p.2.shader)
    (Reader.program (Reader.start source)) := rfl
  rw [hread, Program.parse]
  cases hprogram : Parser.program (ofText source).tokens with
  | error failure =>
    rw [hprogram] at hends
    have hanswer : Reader.program (Reader.start source) =
      throw (failure.toError (ofText source)) := hends
    rw [hanswer]
    rfl
  | ok p =>
    rw [hprogram] at hends
    obtain ⟨r, hanswer, hshader⟩ := hends
    rw [hanswer]
    exact congrArg (fun s => some (Except.ok s)) hshader

namespace Shader

/-- The reader puts every node where a new layout puts it, so that the shader of a text is compact.
Any other shader keeps its syntax and its text when it is made compact; then it has no slot that is
dead or out of reach, and it is not changed by another layout. -/
theorem compact_identity_projection (source : String) (s : Shader) :
    (∃ answer, read source = some answer ∧ ∀ t, answer = .ok t → t.compact = t) ∧
      s.compact.agrees s = true ∧ s.compact.print = s.print ∧
      (∀ n, s.compact.HasSlot n → s.compact.isLive n = true ∧ s.compact.Reaches n) ∧
      s.compact.compact = s.compact := by
  refine ⟨⟨_, read_eq source, fun t ht => ?_⟩, compact_projection s⟩
  cases hparse : Program.parse source with
  | error e =>
    rw [hparse] at ht
    cases ht
  | ok p =>
    rw [hparse] at ht
    obtain rfl := Except.ok.inj ht
    exact compact_of_program p

end Shader

end ShaderReducer
