import ShaderReducer.Parser.Program

/-!
# Rows of tokens that are read alike

A rule looks at one token after the other, and passes only those it accepts, none of which is
malformed. So it cannot tell two rows apart that are related by a relation which looks at heads, and
behind heads that are not malformed: it gives the same value for both and leaves related rows, or it
fails at related rows with the same expectation. One lemma for each rule follows the rule's own
recursion.
-/

namespace ShaderReducer

namespace TokenKind

variable {kind : TokenKind}

theorem isMalformed_of_binaryOp? {op : BinaryOp} (h : kind.binaryOp? = some op) :
    kind.isMalformed = false := by
  cases kind <;> first | rfl | cases h

theorem isMalformed_of_assignmentOp? {op : BinaryOp} (h : kind.assignmentOp? = some op) :
    kind.isMalformed = false := by
  cases kind <;> first | rfl | cases h

theorem isMalformed_of_leadingOp? {op : UnaryOp} (h : kind.leadingOp? = some op) :
    kind.isMalformed = false := by
  cases kind <;> first | rfl | cases h

end TokenKind

namespace Parser

/-- A relation of rows of tokens that no rule can tell apart: both rows end, or their heads are of
one kind and say the same, and the rows behind these are related unless they are malformed. -/
class Simulation (R : List Token → List Token → Prop) : Prop where
  isEmpty_eq {ts ts' : List Token} (h : R ts ts') : ts.isEmpty = ts'.isEmpty
  kind_eq {t t' : Token} {after after' : List Token} (h : R (t :: after) (t' :: after')) :
    t.kind = t'.kind
  lexeme_eq {t t' : Token} {after after' : List Token} (h : R (t :: after) (t' :: after')) :
    t.lexeme = t'.lexeme
  tail {t t' : Token} {after after' : List Token} (h : R (t :: after) (t' :: after'))
    {kind : TokenKind} (hkind : t'.kind = kind) (hread : kind.isMalformed = false) : R after after'

open Simulation (isEmpty_eq kind_eq lexeme_eq tail)

variable {R : List Token → List Token → Prop} {ts ts' : List Token}

theorem headKind_eq [Simulation R] (h : R ts ts') : headKind ts = headKind ts' := by
  match ts, ts', h with
  | [], [], _ => rfl
  | [], _ :: _, h | _ :: _, [], h => nomatch isEmpty_eq h
  | t :: after, t' :: after', h => exact kind_eq h

/-- Answers with the same value and related rests, or failures with the same expectation at related
rows. -/
inductive Same (R : List Token → List Token → Prop) {α : Type} {n n' : Nat} :
    Outcome α n → Outcome α n' → Prop
  | ok {rest rest' : List Token} {h : rest.length < n} {h' : rest'.length < n'} (value : α)
    (hrest : R rest rest') : Same R (.ok ⟨value, rest, h⟩) (.ok ⟨value, rest', h'⟩)
  | error {ahead ahead' : List Token} (expected : Expectation) (hahead : R ahead ahead') :
    Same R (.error ⟨expected, ahead⟩) (.error ⟨expected, ahead'⟩)

namespace Same

variable {α β : Type} {n n' m m' : Nat} {answer : Outcome α n} {answer' : Outcome α n'}

/-- Rules made of two parts answer alike if both parts do. -/
theorem bind {next : Parsed α n → Outcome β m} {next' : Parsed α n' → Outcome β m'}
    (h : Same R answer answer')
    (hnext : ∀ value rest rest' hlt hlt', R rest rest' →
      Same R (next ⟨value, rest, hlt⟩) (next' ⟨value, rest', hlt'⟩)) :
    Same R (answer >>= next) (answer' >>= next') := by
  cases h with
  | ok value hrest => exact hnext value _ _ _ _ hrest
  | error expected hahead => exact .error expected hahead

theorem loosen (h : Same R answer answer') : Same R answer.loosen answer'.loosen := by
  cases h with
  | ok value hrest => exact .ok value hrest
  | error expected hahead => exact .error expected hahead

theorem ite {c : Prop} [Decidable c] {other : Outcome α n} {other' : Outcome α n'}
    (h : c → Same R answer answer') (h' : Same R other other') :
    Same R (if c then answer else other) (if c then answer' else other') := by
  split
  next hc => exact h hc
  next => exact h'

variable {rest rest' : List Token}

theorem since {answer : Outcome α rest.length} {answer' : Outcome α rest'.length}
    (h : Same R answer answer') {hlt : rest.length < n} {hlt' : rest'.length < n'} :
    Same R (answer.since hlt) (answer'.since hlt') := by
  cases h with
  | ok value hrest => exact .ok value hrest
  | error expected hahead => exact .error expected hahead

theorem sinceMaybe {answer : Outcome α (rest.length + 1)} {answer' : Outcome α (rest'.length + 1)}
    (h : Same R answer answer') {hlt : rest.length < n} {hlt' : rest'.length < n'} :
    Same R (answer.sinceMaybe hlt) (answer'.sinceMaybe hlt') := by
  cases h with
  | ok value hrest => exact .ok value hrest
  | error expected hahead => exact .error expected hahead

theorem after {answer : Outcome α rest.length} {answer' : Outcome α rest'.length}
    (h : Same R answer answer') {hlt : rest.length < n + 1} {hlt' : rest'.length < n' + 1} :
    Same R (answer.after hlt) (answer'.after hlt') := by
  cases h with
  | ok value hrest => exact .ok value hrest
  | error expected hahead => exact .error expected hahead

end Same

variable [Simulation R]

/-! ## Single tokens -/

theorem same_expect {kind : TokenKind} (hkind : kind.isMalformed = false) (h : R ts ts') :
    Same R (expect kind ts) (expect kind ts') := by
  match ts, ts', h with
  | [], [], h => exact .error _ h
  | [], _ :: _, h | _ :: _, [], h => nomatch isEmpty_eq h
  | t :: after, t' :: after', h =>
    rw [expect, expect, kind_eq h]
    exact .ite (fun hc => .ok () (tail h hc hkind)) (.error _ h)

theorem same_expectSymbol (sign : Symbol) (h : R ts ts') :
    Same R (expectSymbol sign ts) (expectSymbol sign ts') :=
  same_expect rfl h

theorem same_expectKeyword (word : Keyword) (h : R ts ts') :
    Same R (expectKeyword word ts) (expectKeyword word ts') :=
  same_expect rfl h

theorem same_name (expected : Expectation) (h : R ts ts') :
    Same R (name expected ts) (name expected ts') := by
  match ts, ts', h with
  | [], [], h => exact .error _ h
  | [], _ :: _, h | _ :: _, [], h => nomatch isEmpty_eq h
  | t :: after, t' :: after', h =>
    rw [name, name, kind_eq h, lexeme_eq h]
    exact .ite (fun hc => .ok _ (tail h hc rfl)) (.error _ h)

theorem same_identifier (h : R ts ts') : Same R (identifier ts) (identifier ts') :=
  same_name _ h

/-! ## Expressions -/

-- the instance is needed in all rules of the recursion, also where only another one asks for it
set_option linter.unusedSectionVars false in
mutual

theorem same_expression {ts ts' : List Token} (h : R ts ts') :
    Same R (expression ts) (expression ts') := by
  rw [expression, expression]
  refine (same_assignment h).bind fun first rest rest' hlt hlt' hrest => ?_
  exact (same_expressionMore first hrest).sinceMaybe.bind fun e _ _ _ _ hrest => .ok e hrest
termination_by 8 * ts.length + 6
decreasing_by all_goals omega

theorem same_expressionMore {ts ts' : List Token} (left : Expr Unit) (h : R ts ts') :
    Same R (expressionMore left ts) (expressionMore left ts') := by
  match ts, ts', h with
  | [], [], h =>
    rw [expressionMore]
    exact .ok left h
  | [], _ :: _, h | _ :: _, [], h => nomatch isEmpty_eq h
  | t :: after, t' :: after', h =>
    rw [expressionMore, expressionMore, kind_eq h]
    refine .ite (fun hc => .loosen ?_) (.ok left h)
    refine (same_assignment (tail h hc rfl)).since.bind fun right rest rest' hlt hlt' hrest => ?_
    exact (same_expressionMore _ hrest).sinceMaybe.bind fun e _ _ _ _ hrest => .ok e hrest
termination_by 8 * ts.length + 7
decreasing_by
  all_goals simp only [List.length_cons] at *
  all_goals omega

theorem same_assignment {ts ts' : List Token} (h : R ts ts') :
    Same R (assignment ts) (assignment ts') := by
  rw [assignment, assignment]
  refine (same_conditional h).bind fun left rest rest' hlt hlt' hrest => ?_
  exact (same_assignmentMore left hrest).sinceMaybe.bind fun e _ _ _ _ hrest => .ok e hrest
termination_by 8 * ts.length + 5
decreasing_by all_goals omega

theorem same_assignmentMore {ts ts' : List Token} (left : Expr Unit) (h : R ts ts') :
    Same R (assignmentMore left ts) (assignmentMore left ts') := by
  match ts, ts', h with
  | [], [], h =>
    rw [assignmentMore]
    exact .ok left h
  | [], _ :: _, h | _ :: _, [], h => nomatch isEmpty_eq h
  | t :: after, t' :: after', h =>
    rw [assignmentMore, assignmentMore, kind_eq h]
    cases hop : t'.kind.assignmentOp? with
    | none => exact .ok left h
    | some op =>
      have hafter := tail h rfl (TokenKind.isMalformed_of_assignmentOp? hop)
      exact .loosen ((same_assignment hafter).since.bind fun right _ _ _ _ hrest => .ok _ hrest)
termination_by 8 * ts.length + 7
decreasing_by
  all_goals simp only [List.length_cons] at *
  all_goals omega

theorem same_conditional {ts ts' : List Token} (h : R ts ts') :
    Same R (conditional ts) (conditional ts') := by
  rw [conditional, conditional]
  refine (same_binary _ h).bind fun cond rest rest' hlt hlt' hrest => ?_
  exact (same_conditionalMore cond hrest).sinceMaybe.bind fun e _ _ _ _ hrest => .ok e hrest
termination_by 8 * ts.length + 4
decreasing_by all_goals omega

theorem same_conditionalMore {ts ts' : List Token} (cond : Expr Unit) (h : R ts ts') :
    Same R (conditionalMore cond ts) (conditionalMore cond ts') := by
  match ts, ts', h with
  | [], [], h =>
    rw [conditionalMore]
    exact .ok cond h
  | [], _ :: _, h | _ :: _, [], h => nomatch isEmpty_eq h
  | t :: after, t' :: after', h =>
    rw [conditionalMore, conditionalMore, kind_eq h]
    refine .ite (fun hc => .loosen ?_) (.ok cond h)
    refine (same_expression (tail h hc rfl)).since.bind fun onTrue _ _ _ _ hrest => ?_
    refine (same_expectSymbol _ hrest).since.bind fun _ rest rest' hlt hlt' hrest => ?_
    exact (same_assignment hrest).since.bind fun onFalse _ _ _ _ hrest => .ok _ hrest
termination_by 8 * ts.length + 7
decreasing_by
  all_goals simp only [List.length_cons] at *
  all_goals omega

theorem same_binary {ts ts' : List Token} (least : Nat) (h : R ts ts') :
    Same R (binary least ts) (binary least ts') := by
  rw [binary, binary]
  refine (same_unary h).bind fun first rest rest' hlt hlt' hrest => ?_
  exact (same_binaryMore least first hrest).sinceMaybe.bind fun e _ _ _ _ hrest => .ok e hrest
termination_by 8 * ts.length + 3
decreasing_by all_goals omega

theorem same_binaryMore {ts ts' : List Token} (least : Nat) (left : Expr Unit) (h : R ts ts') :
    Same R (binaryMore least left ts) (binaryMore least left ts') := by
  match ts, ts', h with
  | [], [], h =>
    rw [binaryMore]
    exact .ok left h
  | [], _ :: _, h | _ :: _, [], h => nomatch isEmpty_eq h
  | t :: after, t' :: after', h =>
    rw [binaryMore, binaryMore, kind_eq h]
    cases hop : t'.kind.binaryOp? with
    | none => exact .ok left h
    | some op =>
      have hafter := tail h rfl (TokenKind.isMalformed_of_binaryOp? hop)
      refine .ite (fun _ => .loosen ?_) (.ok left h)
      refine (same_binary _ hafter).since.bind fun right rest rest' hlt hlt' hrest => ?_
      exact (same_binaryMore least _ hrest).sinceMaybe.bind fun e _ _ _ _ hrest => .ok e hrest
termination_by 8 * ts.length + 7
decreasing_by
  all_goals simp only [List.length_cons] at *
  all_goals omega

theorem same_unary {ts ts' : List Token} (h : R ts ts') : Same R (unary ts) (unary ts') := by
  match ts, ts', h with
  | [], [], h =>
    rw [unary]
    exact same_access h
  | [], _ :: _, h | _ :: _, [], h => nomatch isEmpty_eq h
  | t :: after, t' :: after', h =>
    rw [unary, unary, kind_eq h]
    cases hop : t'.kind.leadingOp? with
    | none => exact same_access h
    | some op =>
      have hafter := tail h rfl (TokenKind.isMalformed_of_leadingOp? hop)
      exact (same_unary hafter).since.bind fun operand _ _ _ _ hrest => .ok _ hrest
termination_by 8 * ts.length + 2
decreasing_by
  all_goals try simp only [List.length_cons] at *
  all_goals omega

theorem same_access {ts ts' : List Token} (h : R ts ts') : Same R (access ts) (access ts') := by
  rw [access, access]
  refine (same_primary h).bind fun base rest rest' hlt hlt' hrest => ?_
  exact (same_accessMore base hrest).sinceMaybe.bind fun e _ _ _ _ hrest => .ok e hrest
termination_by 8 * ts.length + 1
decreasing_by all_goals omega

theorem same_accessMore {ts ts' : List Token} (base : Expr Unit) (h : R ts ts') :
    Same R (accessMore base ts) (accessMore base ts') := by
  match ts, ts', h with
  | [], [], h =>
    rw [accessMore]
    exact .ok base h
  | [], _ :: _, h | _ :: _, [], h => nomatch isEmpty_eq h
  | t :: after, t' :: after', h =>
    rw [accessMore, accessMore, kind_eq h]
    split
    next hc =>
      refine .loosen ((same_expression (tail h hc rfl)).since.bind fun offset _ _ _ _ hrest => ?_)
      refine (same_expectSymbol _ hrest).since.bind fun _ rest rest' hlt hlt' hrest => ?_
      exact (same_accessMore _ hrest).sinceMaybe.bind fun e _ _ _ _ hrest => .ok e hrest
    next hc =>
      refine .loosen ((same_identifier (tail h hc rfl)).since.bind fun _ rest rest' _ _ hrest => ?_)
      exact (same_accessMore _ hrest).sinceMaybe.bind fun e _ _ _ _ hrest => .ok e hrest
    next hc =>
      have hafter := tail h hc rfl
      exact .loosen ((same_accessMore _ hafter).sinceMaybe.bind fun e _ _ _ _ hrest => .ok e hrest)
    next hc =>
      have hafter := tail h hc rfl
      exact .loosen ((same_accessMore _ hafter).sinceMaybe.bind fun e _ _ _ _ hrest => .ok e hrest)
    next => exact .ok base h
termination_by 8 * ts.length + 7
decreasing_by
  all_goals simp only [List.length_cons] at *
  all_goals omega

theorem same_primary {ts ts' : List Token} (h : R ts ts') :
    Same R (primary ts) (primary ts') := by
  match ts, ts', h with
  | [], [], h =>
    rw [primary]
    exact .error _ h
  | [], _ :: _, h | _ :: _, [], h => nomatch isEmpty_eq h
  | t :: after, t' :: after', h =>
    unfold primary
    simp only [kind_eq h, lexeme_eq h]
    split
    next hc => exact .ok _ (tail h hc rfl)
    next hc => exact .ok _ (tail h hc rfl)
    next hc => exact .ok _ (tail h hc rfl)
    next hc => exact .ok _ (tail h hc rfl)
    next hc => exact .ok _ (tail h hc rfl)
    next hc =>
      have hafter := tail h hc rfl
      match after, after', hafter with
      | [], [], hafter => exact .ok _ hafter
      | [], _ :: _, hafter | _ :: _, [], hafter => nomatch isEmpty_eq hafter
      | u :: rest, u' :: rest', hafter =>
        simp only [kind_eq hafter]
        refine .ite (fun hc => ?_) (.ok _ hafter)
        exact (same_arguments (tail hafter hc rfl)).since.bind fun args _ _ _ _ hrest => .ok _ hrest
    next hc =>
      refine (same_expression (tail h hc rfl)).since.bind fun inner _ _ _ _ hrest => ?_
      exact (same_expectSymbol _ hrest).since.bind fun _ _ _ _ _ hrest => .ok _ hrest
    next => exact .error _ h
termination_by 8 * ts.length + 0
decreasing_by
  all_goals simp only [List.length_cons] at *
  all_goals omega

theorem same_arguments {ts ts' : List Token} (h : R ts ts') :
    Same R (arguments ts) (arguments ts') := by
  match ts, ts', h with
  | [], [], h =>
    rw [arguments]
    exact .error _ h
  | [], _ :: _, h | _ :: _, [], h => nomatch isEmpty_eq h
  | t :: after, t' :: after', h =>
    rw [arguments, arguments, kind_eq h]
    refine .ite (fun hc => .ok [] (tail h hc rfl)) ?_
    refine (same_assignment h).bind fun first rest rest' hlt hlt' hrest => ?_
    exact (same_argumentsMore hrest).since.bind fun more _ _ _ _ hrest => .ok _ hrest
termination_by 8 * ts.length + 6
decreasing_by
  all_goals simp only [List.length_cons] at *
  all_goals omega

theorem same_argumentsMore {ts ts' : List Token} (h : R ts ts') :
    Same R (argumentsMore ts) (argumentsMore ts') := by
  match ts, ts', h with
  | [], [], h =>
    rw [argumentsMore]
    exact .error _ h
  | [], _ :: _, h | _ :: _, [], h => nomatch isEmpty_eq h
  | t :: after, t' :: after', h =>
    rw [argumentsMore, argumentsMore, kind_eq h]
    refine .ite (fun hc => ?_) ((same_expectSymbol _ h).bind fun _ _ _ _ _ hrest => .ok _ hrest)
    refine (same_assignment (tail h hc rfl)).since.bind fun next rest rest' hlt hlt' hrest => ?_
    exact (same_argumentsMore hrest).since.bind fun more _ _ _ _ hrest => .ok _ hrest
termination_by 8 * ts.length + 7
decreasing_by
  all_goals simp only [List.length_cons] at *
  all_goals omega

end

/-! ## Specifiers and declarators -/

theorem same_arraySize (h : R ts ts') : Same R (arraySize ts) (arraySize ts') := by
  match ts, ts', h with
  | [], [], h => exact .ok none h
  | [], _ :: _, h | _ :: _, [], h => nomatch isEmpty_eq h
  | t :: after, t' :: after', h =>
    unfold arraySize
    simp only [kind_eq h]
    refine .ite (fun hc => ?_) (.ok none h)
    have hafter := tail h hc rfl
    match after, after', hafter with
    | [], [], hafter => exact .error _ hafter
    | [], _ :: _, hafter | _ :: _, [], hafter => nomatch isEmpty_eq hafter
    | size :: rest, size' :: rest', hafter =>
      simp only [kind_eq hafter, lexeme_eq hafter]
      refine .ite (fun hc => ?_) (.error _ hafter)
      have hrest := hc.elim (tail hafter · rfl) (tail hafter · rfl)
      cases integerValue? size'.lexeme with
      | none => exact .error _ hafter
      | some n => exact .loosen ((same_expectSymbol _ hrest).since.bind fun _ _ _ _ _ hrest =>
          .ok _ hrest)

theorem same_layoutValue (h : R ts ts') : Same R (layoutValue ts) (layoutValue ts') := by
  match ts, ts', h with
  | [], [], h => exact .ok none h
  | [], _ :: _, h | _ :: _, [], h => nomatch isEmpty_eq h
  | t :: after, t' :: after', h =>
    unfold layoutValue
    simp only [kind_eq h]
    refine .ite (fun hc => ?_) (.ok none h)
    have hafter := tail h hc rfl
    match after, after', hafter with
    | [], [], hafter => exact .error _ hafter
    | [], _ :: _, hafter | _ :: _, [], hafter => nomatch isEmpty_eq hafter
    | value :: rest, value' :: rest', hafter =>
      simp only [kind_eq hafter, lexeme_eq hafter]
      refine .ite (fun hc => .loosen (.ok _ ?_)) (.error _ hafter)
      exact hc.elim (tail hafter · rfl) fun hc => hc.elim (tail hafter · rfl) (tail hafter · rfl)

theorem same_layoutItems {ts ts' : List Token} (h : R ts ts') :
    Same R (layoutItems ts) (layoutItems ts') := by
  rw [layoutItems, layoutItems]
  refine (same_identifier h).bind fun key _ _ _ _ hrest => ?_
  refine (same_layoutValue hrest).sinceMaybe.bind fun value rest rest' hlt hlt' hrest => ?_
  dsimp only
  rw [headKind_eq hrest]
  refine .ite (fun _ => ?_)
    ((same_expectSymbol _ hrest).since.bind fun _ _ _ _ _ hrest => .ok _ hrest)
  refine (same_expectSymbol _ hrest).since.bind fun _ rest rest' hlt hlt' hrest => ?_
  exact (same_layoutItems hrest).since.bind fun more _ _ _ _ hrest => .ok _ hrest
termination_by ts.length
decreasing_by all_goals omega

theorem same_qualifiers {ts ts' : List Token} (h : R ts ts') :
    Same R (qualifiers ts) (qualifiers ts') := by
  match ts, ts', h with
  | [], [], h =>
    rw [qualifiers]
    exact .ok [] h
  | [], _ :: _, h | _ :: _, [], h => nomatch isEmpty_eq h
  | t :: after, t' :: after', h =>
    rw [qualifiers, qualifiers, kind_eq h]
    split
    next hc =>
      refine .loosen ((same_expectSymbol _ (tail h hc rfl)).since.bind fun _ _ _ _ _ hrest => ?_)
      refine (same_layoutItems hrest).since.bind fun items rest rest' hlt hlt' hrest => ?_
      exact (same_qualifiers hrest).sinceMaybe.bind fun more _ _ _ _ hrest => .ok _ hrest
    next word _ hc =>
      have hafter := tail h hc rfl
      cases plainQualifier? word with
      | none => exact .ok [] h
      | some q => exact .loosen ((same_qualifiers hafter).sinceMaybe.bind fun more _ _ _ _ hrest =>
          .ok _ hrest)
    next => exact .ok [] h
termination_by ts.length
decreasing_by
  all_goals simp only [List.length_cons] at *
  all_goals omega

theorem same_typeSpec (h : R ts ts') : Same R (typeSpec ts) (typeSpec ts') :=
  (same_qualifiers h).bind fun _ _ _ _ _ hrest =>
    (same_name _ hrest).after.bind fun _ _ _ _ _ hrest => .ok _ hrest

theorem same_initializer (h : R ts ts') : Same R (initializer ts) (initializer ts') := by
  match ts, ts', h with
  | [], [], h => exact .ok none h
  | [], _ :: _, h | _ :: _, [], h => nomatch isEmpty_eq h
  | t :: after, t' :: after', h =>
    rw [initializer, initializer, kind_eq h]
    refine .ite (fun hc => .loosen ?_) (.ok none h)
    exact (same_assignment (tail h hc rfl)).since.bind fun value _ _ _ _ hrest => .ok _ hrest

theorem same_declarator (name : String) (h : R ts ts') :
    Same R (declarator name ts) (declarator name ts') :=
  (same_arraySize h).bind fun _ _ _ _ _ hrest =>
    (same_initializer hrest).sinceMaybe.bind fun _ _ _ _ _ hrest => .ok _ hrest

theorem same_declaratorsMore {ts ts' : List Token} (h : R ts ts') :
    Same R (declaratorsMore ts) (declaratorsMore ts') := by
  match ts, ts', h with
  | [], [], h =>
    rw [declaratorsMore]
    exact .error _ h
  | [], _ :: _, h | _ :: _, [], h => nomatch isEmpty_eq h
  | t :: after, t' :: after', h =>
    rw [declaratorsMore, declaratorsMore, kind_eq h]
    refine .ite (fun hc => ?_) ((same_expectSymbol _ h).bind fun _ _ _ _ _ hrest => .ok _ hrest)
    refine (same_identifier (tail h hc rfl)).since.bind fun name _ _ _ _ hrest => ?_
    refine (same_declarator name hrest).sinceMaybe.bind fun first rest rest' hlt hlt' hrest => ?_
    exact (same_declaratorsMore hrest).since.bind fun more _ _ _ _ hrest => .ok _ hrest
termination_by ts.length
decreasing_by
  simp only [List.length_cons] at *
  omega

theorem same_varDecl (type : TypeSpec) (name : String) (h : R ts ts') :
    Same R (varDecl type name ts) (varDecl type name ts') :=
  (same_declarator name h).bind fun _ _ _ _ _ hrest =>
    (same_declaratorsMore hrest).after.bind fun _ _ _ _ _ hrest => .ok _ hrest

/-! ## Statements -/

theorem startsDeclaration_eq (h : R ts ts') :
    startsDeclaration ts = startsDeclaration ts' := by
  match ts, ts', h with
  | [], [], h => rfl
  | [], _ :: _, h | _ :: _, [], h => nomatch isEmpty_eq h
  | t :: after, t' :: after', h =>
    rw [Parser.startsDeclaration, Parser.startsDeclaration, kind_eq h]
    by_cases hc : t'.kind = .identifier
    · rw [headKind_eq (tail h hc rfl)]
    · rw [beq_eq_false_iff_ne.mpr hc, Bool.false_and, Bool.false_and]

theorem same_declaration (h : R ts ts') : Same R (declaration ts) (declaration ts') :=
  (same_typeSpec h).bind fun type _ _ _ _ hrest =>
    (same_identifier hrest).since.bind fun name _ _ _ _ hrest =>
      (same_varDecl type name hrest).since.bind fun _ _ _ _ _ hrest => .ok _ hrest

theorem same_expressionUnless (sign : Symbol) (h : R ts ts') :
    Same R (expressionUnless sign ts) (expressionUnless sign ts') := by
  rw [expressionUnless, expressionUnless, headKind_eq h]
  refine .ite (fun _ => .ok none h) (.loosen ?_)
  exact (same_expression h).bind fun _ _ _ _ _ hrest => .ok _ hrest

theorem same_expressionStatement (h : R ts ts') :
    Same R (expressionStatement ts) (expressionStatement ts') :=
  (same_expression h).bind fun _ _ _ _ _ hrest =>
    (same_expectSymbol _ hrest).since.bind fun _ _ _ _ _ hrest => .ok _ hrest

theorem same_declarationOrExpression (h : R ts ts') :
    Same R (declarationOrExpression ts) (declarationOrExpression ts') := by
  rw [declarationOrExpression, declarationOrExpression, startsDeclaration_eq h]
  exact .ite (fun _ => (same_declaration h).bind fun _ _ _ _ _ hrest => .ok _ hrest)
    (same_expressionStatement h)

theorem same_loopStart (h : R ts ts') : Same R (loopStart ts) (loopStart ts') := by
  match ts, ts', h with
  | [], [], h => exact same_declarationOrExpression h
  | [], _ :: _, h | _ :: _, [], h => nomatch isEmpty_eq h
  | t :: after, t' :: after', h =>
    rw [loopStart, loopStart, kind_eq h]
    exact .ite (fun hc => .ok _ (tail h hc rfl)) (same_declarationOrExpression h)

theorem same_wordStatement (form : StmtNode (Expr Unit) (Stmt Unit Unit)) (h : R ts ts') :
    Same R (wordStatement form ts) (wordStatement form ts') :=
  (same_expectSymbol _ h).bind fun _ _ _ _ _ hrest => .ok _ hrest

theorem same_condition (h : R ts ts') : Same R (condition ts) (condition ts') :=
  (same_expectSymbol _ h).bind fun _ _ _ _ _ hrest =>
    (same_expression hrest).since.bind fun _ _ _ _ _ hrest =>
      (same_expectSymbol _ hrest).since.bind fun _ _ _ _ _ hrest => .ok _ hrest

mutual

theorem same_statement {ts ts' : List Token} (h : R ts ts') :
    Same R (statement ts) (statement ts') := by
  match ts, ts', h with
  | [], [], h =>
    rw [statement]
    exact same_declarationOrExpression h
  | [], _ :: _, h | _ :: _, [], h => nomatch isEmpty_eq h
  | t :: after, t' :: after', h =>
    rw [statement, statement, kind_eq h]
    split
    next hc =>
      exact (same_blockBody (tail h hc rfl)).since.bind fun _ _ _ _ _ hrest => .ok _ hrest
    next hc =>
      refine (same_condition (tail h hc rfl)).since.bind fun cond _ _ _ _ hrest => ?_
      refine (same_statement hrest).since.bind fun onTrue _ _ _ _ hrest => ?_
      exact (same_elseBranch hrest).sinceMaybe.bind fun _ _ _ _ _ hrest => .ok _ hrest
    next hc =>
      refine (same_expectSymbol _ (tail h hc rfl)).since.bind fun _ _ _ _ _ hrest => ?_
      refine (same_loopStart hrest).since.bind fun start _ _ _ _ hrest => ?_
      refine (same_expressionUnless _ hrest).sinceMaybe.bind fun cond _ _ _ _ hrest => ?_
      refine (same_expectSymbol _ hrest).since.bind fun _ _ _ _ _ hrest => ?_
      refine (same_expressionUnless _ hrest).sinceMaybe.bind fun step _ _ _ _ hrest => ?_
      refine (same_expectSymbol _ hrest).since.bind fun _ _ _ _ _ hrest => ?_
      exact (same_statement hrest).since.bind fun _ _ _ _ _ hrest => .ok _ hrest
    next hc =>
      refine (same_condition (tail h hc rfl)).since.bind fun cond _ _ _ _ hrest => ?_
      exact (same_statement hrest).since.bind fun _ _ _ _ _ hrest => .ok _ hrest
    next hc =>
      refine (same_statement (tail h hc rfl)).since.bind fun body _ _ _ _ hrest => ?_
      refine (same_expectKeyword _ hrest).since.bind fun _ _ _ _ _ hrest => ?_
      refine (same_condition hrest).since.bind fun cond _ _ _ _ hrest => ?_
      exact (same_expectSymbol _ hrest).since.bind fun _ _ _ _ _ hrest => .ok _ hrest
    next hc =>
      refine (same_expressionUnless _ (tail h hc rfl)).sinceMaybe.bind fun value _ _ _ _ hrest => ?_
      exact (same_expectSymbol _ hrest).since.bind fun _ _ _ _ _ hrest => .ok _ hrest
    next hc =>
      exact (same_wordStatement _ (tail h hc rfl)).since.bind fun _ _ _ _ _ hrest => .ok _ hrest
    next hc =>
      exact (same_wordStatement _ (tail h hc rfl)).since.bind fun _ _ _ _ _ hrest => .ok _ hrest
    next hc =>
      exact (same_wordStatement _ (tail h hc rfl)).since.bind fun _ _ _ _ _ hrest => .ok _ hrest
    next hc => exact .ok _ (tail h hc rfl)
    next => exact same_declarationOrExpression h
termination_by 8 * ts.length + 1
decreasing_by
  all_goals simp only [List.length_cons] at *
  all_goals omega

theorem same_elseBranch {ts ts' : List Token} (h : R ts ts') :
    Same R (elseBranch ts) (elseBranch ts') := by
  match ts, ts', h with
  | [], [], h =>
    rw [elseBranch]
    exact .ok none h
  | [], _ :: _, h | _ :: _, [], h => nomatch isEmpty_eq h
  | t :: after, t' :: after', h =>
    rw [elseBranch, elseBranch, kind_eq h]
    refine .ite (fun hc => .loosen ?_) (.ok none h)
    exact (same_statement (tail h hc rfl)).since.bind fun _ _ _ _ _ hrest => .ok _ hrest
termination_by 8 * ts.length + 0
decreasing_by
  all_goals simp only [List.length_cons] at *
  all_goals omega

theorem same_blockBody {ts ts' : List Token} (h : R ts ts') :
    Same R (blockBody ts) (blockBody ts') := by
  match ts, ts', h with
  | [], [], h =>
    rw [blockBody]
    exact .error _ h
  | [], _ :: _, h | _ :: _, [], h => nomatch isEmpty_eq h
  | t :: after, t' :: after', h =>
    rw [blockBody, blockBody, kind_eq h]
    refine .ite (fun hc => .ok [] (tail h hc rfl)) ?_
    refine (same_statement h).bind fun first rest rest' hlt hlt' hrest => ?_
    exact (same_blockBody hrest).since.bind fun _ _ _ _ _ hrest => .ok _ hrest
termination_by 8 * ts.length + 2
decreasing_by
  all_goals simp only [List.length_cons] at *
  all_goals omega

end

theorem same_block (h : R ts ts') : Same R (block ts) (block ts') :=
  (same_expectSymbol _ h).bind fun _ _ _ _ _ hrest =>
    (same_blockBody hrest).since.bind fun _ _ _ _ _ hrest => .ok _ hrest

/-! ## Declarations -/

theorem same_fieldsMore {ts ts' : List Token} (type : TypeSpec) (h : R ts ts') :
    Same R (fieldsMore type ts) (fieldsMore type ts') := by
  match ts, ts', h with
  | [], [], h =>
    rw [fieldsMore]
    exact .error _ h
  | [], _ :: _, h | _ :: _, [], h => nomatch isEmpty_eq h
  | t :: after, t' :: after', h =>
    rw [fieldsMore, fieldsMore, kind_eq h]
    refine .ite (fun hc => ?_) ((same_expectSymbol _ h).bind fun _ _ _ _ _ hrest => .ok _ hrest)
    refine (same_identifier (tail h hc rfl)).since.bind fun name _ _ _ _ hrest => ?_
    refine (same_arraySize hrest).sinceMaybe.bind fun size rest rest' hlt hlt' hrest => ?_
    exact (same_fieldsMore type hrest).since.bind fun _ _ _ _ _ hrest => .ok _ hrest
termination_by ts.length
decreasing_by
  simp only [List.length_cons] at *
  omega

theorem same_structFields {ts ts' : List Token} (h : R ts ts') :
    Same R (structFields ts) (structFields ts') := by
  match ts, ts', h with
  | [], [], h =>
    rw [structFields]
    exact .error _ h
  | [], _ :: _, h | _ :: _, [], h => nomatch isEmpty_eq h
  | t :: after, t' :: after', h =>
    rw [structFields, structFields, kind_eq h]
    refine .ite (fun hc => .ok [] (tail h hc rfl)) ?_
    refine (same_typeSpec h).bind fun type _ _ _ _ hrest => ?_
    refine (same_identifier hrest).since.bind fun name _ _ _ _ hrest => ?_
    refine (same_arraySize hrest).sinceMaybe.bind fun size _ _ _ _ hrest => ?_
    refine (same_fieldsMore type hrest).since.bind fun same rest rest' hlt hlt' hrest => ?_
    exact (same_structFields hrest).since.bind fun _ _ _ _ _ hrest => .ok _ hrest
termination_by ts.length
decreasing_by
  all_goals simp only [List.length_cons] at *
  all_goals omega

theorem same_structDecl (h : R ts ts') : Same R (structDecl ts) (structDecl ts') :=
  (same_identifier h).bind fun _ _ _ _ _ hrest =>
    (same_expectSymbol _ hrest).since.bind fun _ _ _ _ _ hrest =>
      (same_structFields hrest).since.bind fun _ _ _ _ _ hrest =>
        (same_expectSymbol _ hrest).since.bind fun _ _ _ _ _ hrest => .ok _ hrest

theorem same_precisionDecl (h : R ts ts') : Same R (precisionDecl ts) (precisionDecl ts') := by
  match ts, ts', h with
  | [], [], h => exact .error _ h
  | [], _ :: _, h | _ :: _, [], h => nomatch isEmpty_eq h
  | t :: after, t' :: after', h =>
    have hsame : precision? t = precision? t' := by rw [precision?, precision?, kind_eq h]
    rw [precisionDecl, precisionDecl, hsame]
    dsimp only
    split
    next level hlevel =>
      have hafter : R after after' := by
        unfold precision? at hlevel
        split at hlevel
        next hc => exact tail h hc rfl
        next hc => exact tail h hc rfl
        next hc => exact tail h hc rfl
        next => cases hlevel
      refine (same_name _ hafter).since.bind fun typeName _ _ _ _ hrest => ?_
      exact (same_expectSymbol _ hrest).since.bind fun _ _ _ _ _ hrest => .ok _ hrest
    next => exact .error _ h

theorem same_param (h : R ts ts') : Same R (param ts) (param ts') := by
  refine (same_typeSpec h).bind fun type _ _ _ _ hrest => ?_
  dsimp only
  rw [headKind_eq hrest]
  refine .ite (fun _ => ?_) (.ok _ hrest)
  refine (same_identifier hrest).since.bind fun name _ _ _ _ hrest => ?_
  exact (same_arraySize hrest).sinceMaybe.bind fun _ _ _ _ _ hrest => .ok _ hrest

theorem same_paramsMore {ts ts' : List Token} (h : R ts ts') :
    Same R (paramsMore ts) (paramsMore ts') := by
  match ts, ts', h with
  | [], [], h =>
    rw [paramsMore]
    exact .error _ h
  | [], _ :: _, h | _ :: _, [], h => nomatch isEmpty_eq h
  | t :: after, t' :: after', h =>
    rw [paramsMore, paramsMore, kind_eq h]
    refine .ite (fun hc => ?_) ((same_expectSymbol _ h).bind fun _ _ _ _ _ hrest => .ok _ hrest)
    refine (same_param (tail h hc rfl)).since.bind fun next rest rest' hlt hlt' hrest => ?_
    exact (same_paramsMore hrest).since.bind fun _ _ _ _ _ hrest => .ok _ hrest
termination_by ts.length
decreasing_by
  simp only [List.length_cons] at *
  omega

theorem same_params (h : R ts ts') : Same R (params ts) (params ts') := by
  rw [params, params, headKind_eq h]
  refine .ite (fun _ => (same_expectSymbol _ h).bind fun _ _ _ _ _ hrest => .ok _ hrest) ?_
  refine (same_param h).bind fun first _ _ _ _ hrest => ?_
  exact (same_paramsMore hrest).since.bind fun _ _ _ _ _ hrest => .ok _ hrest

theorem same_functionBody (h : R ts ts') : Same R (functionBody ts) (functionBody ts') := by
  rw [functionBody, functionBody, headKind_eq h]
  refine .ite (fun _ => (same_expectSymbol _ h).bind fun _ _ _ _ _ hrest => .ok _ hrest) ?_
  exact .ite (fun _ => (same_block h).bind fun _ _ _ _ _ hrest => .ok _ hrest) (.error _ h)

theorem same_functionOrVars (type : TypeSpec) (name : String) (h : R ts ts') :
    Same R (functionOrVars type name ts) (functionOrVars type name ts') := by
  rw [functionOrVars, functionOrVars, headKind_eq h]
  refine .ite (fun _ => ?_) ((same_varDecl type name h).bind fun _ _ _ _ _ hrest => .ok _ hrest)
  refine (same_expectSymbol _ h).bind fun _ _ _ _ _ hrest => ?_
  refine (same_params hrest).since.bind fun ps _ _ _ _ hrest => ?_
  exact (same_functionBody hrest).since.bind fun _ _ _ _ _ hrest => .ok _ hrest

theorem same_topLevel (h : R ts ts') : Same R (topLevel ts) (topLevel ts') := by
  match ts, ts', h with
  | [], [], h => exact .error _ h
  | [], _ :: _, h | _ :: _, [], h => nomatch isEmpty_eq h
  | t :: after, t' :: after', h =>
    rw [topLevel, topLevel, kind_eq h, lexeme_eq h]
    refine .ite (fun hc => .ok _ (tail h hc rfl)) (.ite (fun hc => .ok _ (tail h hc rfl)) (.ite
      (fun hc => ?_) (.ite (fun hc => ?_) (.ite (fun _ => ?_) (.error _ h)))))
    · exact (same_precisionDecl (tail h hc rfl)).since.bind fun _ _ _ _ _ hrest => .ok _ hrest
    · exact (same_structDecl (tail h hc rfl)).since.bind fun _ _ _ _ _ hrest => .ok _ hrest
    · refine (same_typeSpec h).bind fun type _ _ _ _ hrest => ?_
      refine (same_identifier hrest).since.bind fun name _ _ _ _ hrest => ?_
      exact (same_functionOrVars type name hrest).since.bind fun _ _ _ _ _ hrest => .ok _ hrest

/-! ## Programs -/

/-- Results with the same value that leave nothing, or failures with the same expectation at related
rows. -/
inductive SameResult (R : List Token → List Token → Prop) {α : Type} :
    Except Failure α → Except Failure α → Prop
  | ok (value : α) (hend : R [] []) : SameResult R (.ok value) (.ok value)
  | error {ahead ahead' : List Token} (expected : Expectation) (hahead : R ahead ahead') :
    SameResult R (.error ⟨expected, ahead⟩) (.error ⟨expected, ahead'⟩)

omit [Simulation R] in
theorem SameResult.map {α β : Type} {result result' : Except Failure α} (f : α → β)
    (h : SameResult R result result') :
    SameResult R (result >>= fun value => return f value)
      (result' >>= fun value => return f value) := by
  cases h with
  | ok value hend => exact .ok (f value) hend
  | error expected hahead => exact .error expected hahead

theorem same_declarations {ts ts' : List Token} (h : R ts ts') :
    SameResult R (declarations ts) (declarations ts') := by
  match ts, ts', h with
  | [], [], h =>
    rw [declarations]
    exact .ok [] h
  | [], _ :: _, h | _ :: _, [], h => nomatch isEmpty_eq h
  | t :: after, t' :: after', h =>
    rw [declarations, declarations]
    have hsame := same_topLevel h
    revert hsame
    generalize topLevel (t :: after) = answer
    generalize topLevel (t' :: after') = answer'
    intro hsame
    cases hsame with
    | error expected hahead => exact .error expected hahead
    | ok d hrest => exact (same_declarations hrest).map (d.toList ++ ·)
termination_by ts.length
decreasing_by
  all_goals simp only [List.length_cons] at *
  all_goals omega

/-- Related rows are read as the same program, or what is wrong with them is found at related rows
again. -/
theorem same_program (h : R ts ts') : SameResult R (program ts) (program ts') := by
  match ts, ts', h with
  | [], [], h => exact .ok _ h
  | [], _ :: _, h | _ :: _, [], h => nomatch isEmpty_eq h
  | t :: after, t' :: after', h =>
    have hversion : isVersionDirective t = isVersionDirective t' := by
      rw [isVersionDirective, isVersionDirective, kind_eq h, lexeme_eq h]
    rw [program, program, hversion, lexeme_eq h]
    split
    next hc =>
      have hdirective := beq_iff_eq.mp (Bool.and_eq_true_iff.mp hc).1
      cases Version.ofDirective? t'.lexeme with
      | none => exact .error _ h
      | some version => exact (same_declarations (tail h hdirective rfl)).map _
    next => exact (same_declarations h).map _

end Parser

end ShaderReducer
