import ShaderReducer.Parser.Reader
import ShaderReducer.Proofs.Token.Covered
import ShaderReducer.Proofs.Token.Written

/-!
# The reader and the grammar: expressions

The reader takes its tokens from the lexer one by one and makes slots on the way; the grammar reads
a tree from the list of all tokens, and `place` lays the tree out afterwards. Both come to the same:
a rule of the reader gives the slot that the tree of the grammar gets, it leaves the shader with
these slots, and it stops before the same tokens; where the grammar fails, it reports the error that
stands for this failure. In particular a rule of the reader always has an answer.

What carries the induction is `View`: the tokens the reader has come to, and the one error it keeps,
which is the first among the tokens up to the current one.
-/

namespace ShaderReducer

open Lexer (State error?)

namespace Lexer.State

variable (s : State)

theorem run_takeErrors :
    s.takeErrors.2.run.tokens = s.run.tokens ∧ s.takeErrors.2.run.eof = s.run.eof := by
  obtain ⟨place, ahead, errors⟩ := s
  rw [run_eq_append place ahead errors]
  exact ⟨rfl, rfl⟩

theorem length_tokens_run_le : s.run.tokens.length ≤ s.ahead.length := by
  generalize hn : s.ahead.length = n
  induction n using Nat.strong_induction_on generalizing s with
  | h n ih =>
    by_cases hend : s.next.1.kind = .endOfFile
    · rw [run_of_end rfl hend]
      exact Nat.zero_le n
    · have hlt := hn ▸ length_ahead_next hend
      rw [run_of_token rfl hend]
      exact (Nat.succ_le_succ (ih _ hlt s.next.2 rfl)).trans hlt

theorem errors_next : s.next.2.errors = s.errors ++ (error? s.next.1).toList := by
  obtain ⟨_, _, hstep⟩ := step_next s
  rw [hstep.errors, note_eq, List.filterMap_cons, List.filterMap_nil]
  cases error? s.next.1 <;> rfl

end Lexer.State

namespace Reader

variable {r : Reader}

/-- The lexer is asked for its errors at a malformed token, and only when none is kept. -/
theorem advance_eq (r : Reader) : r.advance =
    if r.lexer.next.1.kind.isMalformed && r.kept.isNone then
      ⟨r.lexer.next.2.takeErrors.2, r.lexer.next.1, r.lexer.next.2.errors.head?, r.shader⟩
    else ⟨r.lexer.next.2, r.lexer.next.1, r.kept, r.shader⟩ :=
  rfl

theorem current_advance : r.advance.current = r.lexer.next.1 := by
  rw [advance_eq]
  split <;> rfl

@[simp] theorem shader_advance : r.advance.shader = r.shader := by
  rw [advance_eq]
  split <;> rfl

theorem run_advance : r.advance.lexer.run.tokens = r.lexer.next.2.run.tokens ∧
    r.advance.lexer.run.eof = r.lexer.next.2.run.eof := by
  rw [advance_eq]
  split
  next => exact r.lexer.next.2.run_takeErrors
  next => exact ⟨rfl, rfl⟩

/-- The error kept is that of the first malformed token, and none is left behind in the lexer. -/
theorem kept_advance (h : r.kept = none → r.lexer.errors = []) :
    r.advance.kept = r.kept.or (error? r.advance.current) ∧
      (r.advance.kept = none → r.advance.lexer.errors = []) := by
  have herrors := r.lexer.errors_next
  rw [current_advance, advance_eq]
  cases hkept : r.kept with
  | some first =>
    rw [Option.isNone_some, Bool.and_false, if_neg Bool.false_ne_true]
    exact ⟨rfl, fun hnone => nomatch hnone⟩
  | none =>
    rw [h hkept, List.nil_append] at herrors
    rw [Option.isNone_none, Bool.and_true, ← Lexer.isSome_error?, herrors]
    cases herror : error? r.lexer.next.1 with
    | none =>
      rw [herror] at herrors
      rw [Option.isSome_none, if_neg Bool.false_ne_true]
      exact ⟨rfl, fun _ => herrors⟩
    | some first =>
      rw [Option.isSome_some, if_pos rfl]
      exact ⟨rfl, fun hnone => nomatch hnone⟩

end Reader

namespace Parser

open Reader (Rule)

/-- The reader has come to the tokens `ts`, the last ones of a stream, and has made the shader
`s`. -/
structure View (stream : TokenStream) (ts : List Token) (s : Shader) (r : Reader) : Prop where
  current : r.current = ts.headD stream.eof
  kind_eof : stream.eof.kind = .endOfFile
  errors : stream.errors = stream.tokens.filterMap error?
  ahead : ts ≠ [] → r.lexer.run.tokens = ts.tail ∧ r.lexer.run.eof = stream.eof
  kind_ne : ∀ t ∈ ts, t.kind ≠ .endOfFile
  kept : ∃ read, stream.tokens = read ++ ts ∧
    r.kept = ((read ++ ts.take 1).filterMap error?).head?
  collected : r.kept = none → r.lexer.errors = []
  shader : r.shader = s

variable {stream : TokenStream} {ts : List Token} {s : Shader} {r : Reader}

namespace View

theorem kind_eq (h : View stream ts s r) : r.current.kind = headKind ts := by
  rw [h.current]
  cases ts with
  | nil => exact h.kind_eof
  | cons t after => rfl

/-- The text ahead is long enough for the tokens after the current one. -/
theorem length_le (h : View stream ts s r) : ts.length ≤ r.lexer.ahead.length + 1 := by
  cases ts with
  | nil => exact Nat.zero_le _
  | cons t after =>
    have htokens := (h.ahead (List.cons_ne_nil _ _)).1
    have hle := r.lexer.length_tokens_run_le
    rw [htokens] at hle
    exact Nat.succ_le_succ hle

/-- Another shader makes no difference to the tokens. -/
theorem withShader (h : View stream ts s r) (s' : Shader) :
    View stream ts s' { r with shader := s' } :=
  { h with shader := rfl }

variable {t : Token} {after : List Token}

theorem current_eq (h : View stream (t :: after) s r) : r.current = t :=
  h.current

/-- The lexer gives the token after the current one. -/
theorem next_eq (h : View stream (t :: after) s r) : r.lexer.next.1 = after.headD stream.eof ∧
    (after ≠ [] → r.lexer.next.2.run.tokens = after.tail ∧
      r.lexer.next.2.run.eof = stream.eof) := by
  obtain ⟨htokens, heof⟩ := h.ahead (List.cons_ne_nil _ _)
  rw [List.tail_cons] at htokens
  by_cases hend : r.lexer.next.1.kind = .endOfFile
  · rw [State.run_of_end rfl hend] at htokens heof
    subst htokens
    exact ⟨heof, fun hne => absurd rfl hne⟩
  · rw [State.run_of_token rfl hend] at htokens heof
    subst htokens
    exact ⟨rfl, fun _ => ⟨rfl, heof⟩⟩

/-- Going on to the next token. -/
theorem advance (h : View stream (t :: after) s r) : View stream after s r.advance := by
  obtain ⟨hnext, hahead⟩ := h.next_eq
  obtain ⟨read, htokens, hkept⟩ := h.kept
  obtain ⟨hkept', hcollected⟩ := Reader.kept_advance h.collected
  rw [Reader.current_advance, hnext] at hkept'
  refine ⟨Reader.current_advance.trans hnext, h.kind_eof, h.errors, ?_,
    fun u hu => h.kind_ne u (List.mem_cons_of_mem _ hu), ⟨read ++ [t], ?_, ?_⟩, hcollected,
    Reader.shader_advance.trans h.shader⟩
  · rw [Reader.run_advance.1, Reader.run_advance.2]
    exact hahead
  · rw [htokens, List.append_cons]
  · rw [hkept', hkept, List.take_succ_cons, List.take_zero, List.filterMap_append (l := read ++ [t]),
      List.head?_append]
    cases after with
    | nil => rw [List.headD_nil, error?, h.kind_eof]; simp
    | cons u rest => simp [List.filterMap_cons]; cases error? u <;> rfl

theorem peek_eq (h : View stream (t :: after) s r) : r.peek.kind = headKind after := by
  rw [Reader.peek, h.next_eq.1]
  cases after with
  | nil => exact h.kind_eof
  | cons u rest => rfl

/-- What is wrong at the current token. -/
theorem error_eq (h : View stream ts s r) (expected : Expectation) :
    r.error expected = Failure.toError stream ⟨expected, ts⟩ := by
  obtain ⟨read, htokens, hkept⟩ := h.kept
  rw [Reader.error, Failure.toError, ← h.current]
  cases hkind : r.current.kind with
  | malformed defect =>
    have herror : error? r.current = some ⟨defect, r.current.span⟩ := by rw [error?, hkind]
    obtain ⟨t, after, rfl⟩ : ∃ t after, ts = t :: after := by
      cases ts with
      | nil => rw [h.kind_eq] at hkind; cases hkind
      | cons t after => exact ⟨t, after, rfl⟩
    -- the first error up to a malformed token is the first one of all
    have hfirst : stream.errors.head? = r.kept := by
      rw [h.errors, htokens, hkept, List.take_succ_cons, List.take_zero, List.append_cons,
        List.filterMap_append (l := read ++ [t]), List.head?_append, List.filterMap_append,
        ← h.current_eq, List.filterMap_cons_some herror, List.head?_append]
      cases (read.filterMap error?).head? <;> rfl
    rewrite [hfirst]
    cases r.kept <;> rfl
  | _ => rfl

end View

/-- What a rule of the reader does, where the grammar gives `answer`: with a value, the reader goes
on behind it, and the value is laid out behind the slots of the shader `s`. -/
def Follows {α β : Type} {n : Nat} (stream : TokenStream) (lay : α → Shader → β × Shader)
    (s : Shader) (answer : Outcome α n) (rule : Rule β) (r : Reader) : Prop :=
  match answer with
  | .ok p => ∃ r', rule r = pure ((lay p.value s).1, r') ∧ View stream p.rest (lay p.value s).2 r'
  | .error failure => rule r = throw (failure.toError stream)

namespace Follows

variable {α β γ δ : Type} {n m : Nat} {lay : α → Shader → β × Shader} {s s' : Shader}
  {lay' : γ → Shader → δ × Shader} {rule : Rule β} {next : β → Rule δ}

theorem ok {value : α} {rest : List Token} {h : rest.length < n}
    (hview : View stream rest (lay value s).2 r) :
    Follows stream lay s (.ok ⟨value, rest, h⟩) (pure (lay value s).1) r :=
  ⟨r, rfl, hview⟩

/-- A value without slots. -/
theorem plain {value : α} {rest : List Token} {h : rest.length < n} (hview : View stream rest s r) :
    Follows stream Prod.mk s (.ok ⟨value, rest, h⟩) (pure value) r :=
  ⟨r, rfl, hview⟩

theorem error {expected : Expectation} (h : View stream ts s' r) :
    Follows stream lay s (.error ⟨expected, ts⟩ : Outcome α n) (Reader.fail expected) r :=
  congrArg throw (h.error_eq expected)

/-- Where the first part fails, so does the whole. -/
theorem stop {failure : Failure} (h : Follows stream lay s (.error failure : Outcome α n) rule r) :
    Follows stream lay' s' (.error failure : Outcome γ m) (rule >>= next) r := by
  have hrule : rule r = throw (failure.toError stream) := h
  have hbind : (rule >>= next) r = rule r >>= fun p => next p.1 p.2 := rfl
  rw [hrule] at hbind
  exact hbind

/-- Rules made of two parts do the same if both parts do. -/
theorem bind {answer : Outcome α n} {more : Parsed α n → Outcome γ m}
    (h : Follows stream lay s answer rule r)
    (hmore : ∀ value rest hlt r, View stream rest (lay value s).2 r →
      Follows stream lay' s' (more ⟨value, rest, hlt⟩) (next (lay value s).1) r) :
    Follows stream lay' s' (answer >>= more) (rule >>= next) r := by
  cases answer with
  | error failure => exact h.stop
  | ok p =>
    obtain ⟨r', hrule, hview⟩ := h
    have hbind : (rule >>= next) r = rule r >>= fun p => next p.1 p.2 := rfl
    have hmore := hmore p.value p.rest p.fewer r' hview
    unfold Follows at hmore ⊢
    rw [hbind, hrule]
    exact hmore

theorem loosen {answer : Outcome α n} (h : Follows stream lay s answer rule r) :
    Follows stream lay s answer.loosen rule r := by
  cases answer <;> exact h

theorem since {rest : List Token} {answer : Outcome α rest.length}
    (h : Follows stream lay s answer rule r) {hlt : rest.length < n} :
    Follows stream lay s (answer.since hlt) rule r := by
  cases answer <;> exact h

theorem sinceMaybe {rest : List Token} {answer : Outcome α (rest.length + 1)}
    (h : Follows stream lay s answer rule r) {hlt : rest.length < n} :
    Follows stream lay s (answer.sinceMaybe hlt) rule r := by
  cases answer <;> exact h

theorem after {rest : List Token} {answer : Outcome α rest.length}
    (h : Follows stream lay s answer rule r) {hlt : rest.length < n + 1} :
    Follows stream lay s (answer.after hlt) rule r := by
  cases answer <;> exact h

/-- A rule that ends with another one. -/
theorem last {answer : Outcome α n} (h : Follows stream lay s answer rule r) :
    Follows stream lay s (answer >>= fun ⟨value, rest, hlt⟩ => pure ⟨value, rest, hlt⟩) rule r := by
  cases answer <;> exact h

/-- The bound of a rule is never reached. -/
theorem bounded {answer : Outcome α n} {rules : Nat → Rule β} (h : View stream ts s' r)
    (hrules : ∀ fuel, 8 * ts.length + 7 < fuel → Follows stream lay s answer (rules fuel) r) :
    Follows stream lay s answer (Reader.bounded rules) r := by
  have hlength := h.length_le
  exact hrules _ (by omega)

end Follows

/-! ## Single tokens -/

section Steps

variable {α β : Type} {n : Nat} {lay : α → Shader → β × Shader} {s' : Shader}
  {answer other : Outcome α n} {t : Token} {rest : List Token}

theorem follows_kind {next : TokenKind → Rule β} (h : View stream ts s' r) :
    Follows stream lay s answer (Reader.kind >>= next) r ↔
      Follows stream lay s answer (next (headKind ts)) r := by
  rw [← h.kind_eq]
  rfl

theorem follows_current {next : Token → Rule β} (h : View stream ts s' r) :
    Follows stream lay s answer (Reader.current? >>= next) r ↔
      Follows stream lay s answer (next (ts.headD stream.eof)) r := by
  rw [← h.current]
  rfl

theorem follows_shift {rule : Rule β} :
    Follows stream lay s answer (Reader.shift >>= fun _ => rule) r ↔
      Follows stream lay s answer rule r.advance :=
  Iff.rfl

variable {wanted : TokenKind} {yes no : Rule β}

/-- A token that may be passed. -/
theorem follows_accept (h : View stream (t :: rest) s' r)
    (hyes : t.kind = wanted → Follows stream lay s answer yes r.advance)
    (hno : t.kind ≠ wanted → Follows stream lay s other no r) :
    Follows stream lay s (if t.kind = wanted then answer else other)
      (Reader.accept wanted >>= fun found => if found = true then yes else no) r := by
  rw [Reader.accept, bind_assoc, follows_kind h, headKind]
  split
  next hc => exact hyes hc
  next hc => exact hno hc

theorem follows_accept_nil (h : View stream [] s' r) (hwanted : wanted ≠ .endOfFile)
    (hno : Follows stream lay s other no r) : Follows stream lay s other
      (Reader.accept wanted >>= fun found => if found = true then yes else no) r := by
  rw [Reader.accept, bind_assoc, follows_kind h, headKind, if_neg hwanted.symm]
  exact hno

end Steps

theorem follows_expect {wanted : TokenKind} (hwanted : wanted ≠ .endOfFile)
    (h : View stream ts s r) :
    Follows stream Prod.mk s (expect wanted ts) (Reader.expect wanted) r := by
  rw [Reader.expect, follows_kind h]
  cases ts with
  | nil =>
    rw [headKind, if_neg hwanted.symm]
    exact .error h
  | cons t after =>
    rw [expect, headKind]
    split
    next => exact .plain h.advance
    next => exact .error h

theorem follows_expectSymbol (sign : Symbol) (h : View stream ts s r) :
    Follows stream Prod.mk s (expectSymbol sign ts) (Reader.expect (.symbol sign)) r :=
  follows_expect TokenKind.noConfusion h

theorem follows_name (expected : Expectation) (h : View stream ts s r) :
    Follows stream Prod.mk s (name expected ts) (Reader.name expected) r := by
  rw [Reader.name, follows_current h]
  cases ts with
  | nil =>
    rw [List.headD_nil, h.kind_eof]
    exact .error h
  | cons t after =>
    rw [name, List.headD_cons]
    split
    next => exact .plain h.advance
    next => exact .error h

theorem follows_identifier (h : View stream ts s r) :
    Follows stream Prod.mk s (identifier ts) Reader.identifier r :=
  follows_name _ h

/-! ## Slots of expressions -/

section Slots

variable {γ δ : Type} {n m : Nat} {rest : List Token} {s₀ : Shader} {e : Expr Unit}
  {node : ExprNode ExprId} {lay' : γ → Shader → δ × Shader}

theorem follows_newExpr {h : rest.length < n} (hview : View stream rest s₀ r)
    (hplace : e.place s = s₀.addExpr node) :
    Follows stream Expr.place s (.ok ⟨e, rest, h⟩) (Reader.newExpr node) r := by
  have hnew : Reader.newExpr node r = pure ((r.shader.addExpr node).1,
    { r with shader := (r.shader.addExpr node).2 }) := rfl
  rw [hview.shader, ← hplace] at hnew
  exact ⟨_, hnew, hview.withShader _⟩

/-- A new slot, and what follows. -/
theorem Follows.newExpr {next : ExprId → Rule δ} {s' : Shader} {answer : Outcome γ m}
    (hview : View stream rest s₀ r) (hplace : e.place s = s₀.addExpr node)
    (hnext : ∀ r, View stream rest (e.place s).2 r →
      Follows stream lay' s' answer (next (e.place s).1) r) :
    Follows stream lay' s' answer (Reader.newExpr node >>= next) r := by
  have hnew : (Reader.newExpr node >>= next) r = next (r.shader.addExpr node).1
    { r with shader := (r.shader.addExpr node).2 } := rfl
  have hnext := hnext _ (hview.withShader _)
  unfold Follows at hnext ⊢
  rw [hnew, hview.shader, ← hplace]
  exact hnext

end Slots

/-! ## Expressions -/

theorem assignment_nil : assignment [] = .error ⟨.expression, []⟩ := by
  rw [assignment, conditional, binary, unary, access, primary]
  rfl

mutual

theorem follows_expressionWithin {fuel : Nat} {ts : List Token} {s : Shader} {r : Reader}
    (hfuel : 8 * ts.length + 6 < fuel) (h : View stream ts s r) :
    Follows stream Expr.place s (expression ts) (Reader.expressionWithin fuel) r := by
  cases fuel with
  | zero => exact absurd hfuel (Nat.not_lt_zero _)
  | succ fuel =>
    rw [expression, Reader.expressionWithin]
    exact (follows_assignmentWithin (by omega) h).bind fun first rest hlt r h =>
      (follows_expressionMoreWithin (by omega) h).sinceMaybe.last
termination_by fuel

theorem follows_expressionMoreWithin {fuel : Nat} {ts : List Token} {left : Expr Unit} {s : Shader}
    {r : Reader} (hfuel : 8 * ts.length + 7 < fuel) (h : View stream ts (left.place s).2 r) :
    Follows stream Expr.place s (expressionMore left ts)
      (Reader.expressionMoreWithin fuel (left.place s).1) r := by
  cases fuel with
  | zero => exact absurd hfuel (Nat.not_lt_zero _)
  | succ fuel =>
    rw [Reader.expressionMoreWithin]
    cases ts with
    | nil =>
      rw [expressionMore]
      exact follows_accept_nil h TokenKind.noConfusion (.ok h)
    | cons t after =>
      have hlength : (t :: after).length = after.length + 1 := rfl
      rw [expressionMore]
      refine follows_accept h (fun _ => .loosen ?_) fun _ => .ok h
      refine (follows_assignmentWithin (by omega) h.advance).since.bind fun right rest hlt r h => ?_
      refine .newExpr h (e := .node () (.binary .comma left right)) (by rw [Expr.place]; rfl)
        fun r h => ?_
      exact (follows_expressionMoreWithin (by omega) h).sinceMaybe.last
termination_by fuel

theorem follows_assignmentWithin {fuel : Nat} {ts : List Token} {s : Shader} {r : Reader}
    (hfuel : 8 * ts.length + 5 < fuel) (h : View stream ts s r) :
    Follows stream Expr.place s (assignment ts) (Reader.assignmentWithin fuel) r := by
  cases fuel with
  | zero => exact absurd hfuel (Nat.not_lt_zero _)
  | succ fuel =>
    rw [assignment, Reader.assignmentWithin]
    exact (follows_conditionalWithin (by omega) h).bind fun left rest hlt r h =>
      (follows_assignmentMoreWithin (by omega) h).sinceMaybe.last
termination_by fuel

theorem follows_assignmentMoreWithin {fuel : Nat} {ts : List Token} {left : Expr Unit} {s : Shader}
    {r : Reader} (hfuel : 8 * ts.length + 7 < fuel) (h : View stream ts (left.place s).2 r) :
    Follows stream Expr.place s (assignmentMore left ts)
      (Reader.assignmentMoreWithin fuel (left.place s).1) r := by
  cases fuel with
  | zero => exact absurd hfuel (Nat.not_lt_zero _)
  | succ fuel =>
    rw [Reader.assignmentMoreWithin, follows_kind h]
    cases ts with
    | nil =>
      rw [assignmentMore]
      exact .ok h
    | cons t after =>
      have hlength : (t :: after).length = after.length + 1 := rfl
      rw [assignmentMore, headKind]
      cases t.kind.assignmentOp? with
      | none => exact .ok h
      | some op =>
        dsimp only
        rw [follows_shift]
        refine .loosen ((follows_assignmentWithin (by omega) h.advance).since.bind
          fun right rest hlt r h => ?_)
        exact follows_newExpr h (by rw [Expr.place]; rfl)
termination_by fuel

theorem follows_conditionalWithin {fuel : Nat} {ts : List Token} {s : Shader} {r : Reader}
    (hfuel : 8 * ts.length + 4 < fuel) (h : View stream ts s r) :
    Follows stream Expr.place s (conditional ts) (Reader.conditionalWithin fuel) r := by
  cases fuel with
  | zero => exact absurd hfuel (Nat.not_lt_zero _)
  | succ fuel =>
    rw [conditional, Reader.conditionalWithin]
    exact (follows_binaryWithin _ (by omega) h).bind fun cond rest hlt r h =>
      (follows_conditionalMoreWithin (by omega) h).sinceMaybe.last
termination_by fuel

theorem follows_conditionalMoreWithin {fuel : Nat} {ts : List Token} {cond : Expr Unit} {s : Shader}
    {r : Reader} (hfuel : 8 * ts.length + 7 < fuel) (h : View stream ts (cond.place s).2 r) :
    Follows stream Expr.place s (conditionalMore cond ts)
      (Reader.conditionalMoreWithin fuel (cond.place s).1) r := by
  cases fuel with
  | zero => exact absurd hfuel (Nat.not_lt_zero _)
  | succ fuel =>
    rw [Reader.conditionalMoreWithin]
    cases ts with
    | nil =>
      rw [conditionalMore]
      exact follows_accept_nil h TokenKind.noConfusion (.ok h)
    | cons t after =>
      have hlength : (t :: after).length = after.length + 1 := rfl
      rw [conditionalMore]
      refine follows_accept h (fun _ => .loosen ?_) fun _ => .ok h
      refine (follows_expressionWithin (by omega) h.advance).since.bind fun onTrue rest hlt r h => ?_
      refine (follows_expectSymbol _ h).since.bind fun _ rest hlt r h => ?_
      refine (follows_assignmentWithin (by omega) h).since.bind fun onFalse rest hlt r h => ?_
      exact follows_newExpr h (by rw [Expr.place]; rfl)
termination_by fuel

theorem follows_binaryWithin {fuel : Nat} {ts : List Token} {s : Shader} {r : Reader} (least : Nat)
    (hfuel : 8 * ts.length + 3 < fuel) (h : View stream ts s r) :
    Follows stream Expr.place s (binary least ts) (Reader.binaryWithin fuel least) r := by
  cases fuel with
  | zero => exact absurd hfuel (Nat.not_lt_zero _)
  | succ fuel =>
    rw [binary, Reader.binaryWithin]
    exact (follows_unaryWithin (by omega) h).bind fun left rest hlt r h =>
      (follows_binaryMoreWithin least (by omega) h).sinceMaybe.last
termination_by fuel

theorem follows_binaryMoreWithin {fuel : Nat} {ts : List Token} {left : Expr Unit} {s : Shader}
    {r : Reader} (least : Nat) (hfuel : 8 * ts.length + 7 < fuel)
    (h : View stream ts (left.place s).2 r) :
    Follows stream Expr.place s (binaryMore least left ts)
      (Reader.binaryMoreWithin fuel least (left.place s).1) r := by
  cases fuel with
  | zero => exact absurd hfuel (Nat.not_lt_zero _)
  | succ fuel =>
    rw [Reader.binaryMoreWithin, follows_kind h]
    cases ts with
    | nil =>
      rw [binaryMore]
      exact .ok h
    | cons t after =>
      have hlength : (t :: after).length = after.length + 1 := rfl
      rw [binaryMore, headKind]
      cases t.kind.binaryOp? with
      | none => exact .ok h
      | some op =>
        dsimp only
        split
        next =>
          rw [follows_shift]
          refine .loosen ((follows_binaryWithin _ (by omega) h.advance).since.bind
            fun right rest hlt r h => ?_)
          refine .newExpr h (e := .node () (.binary op left right)) (by rw [Expr.place]; rfl)
            fun r h => ?_
          exact (follows_binaryMoreWithin least (by omega) h).sinceMaybe.last
        next => exact .ok h
termination_by fuel

theorem follows_unaryWithin {fuel : Nat} {ts : List Token} {s : Shader} {r : Reader}
    (hfuel : 8 * ts.length + 2 < fuel) (h : View stream ts s r) :
    Follows stream Expr.place s (unary ts) (Reader.unaryWithin fuel) r := by
  cases fuel with
  | zero => exact absurd hfuel (Nat.not_lt_zero _)
  | succ fuel =>
    rw [Reader.unaryWithin, follows_kind h]
    cases ts with
    | nil =>
      rw [unary]
      exact follows_accessWithin (by omega) h
    | cons t after =>
      have hlength : (t :: after).length = after.length + 1 := rfl
      rw [unary, headKind]
      cases t.kind.leadingOp? with
      | none => exact follows_accessWithin (by omega) h
      | some op =>
        dsimp only
        rw [follows_shift]
        refine (follows_unaryWithin (by omega) h.advance).since.bind fun operand rest hlt r h => ?_
        exact follows_newExpr h (by rw [Expr.place]; rfl)
termination_by fuel

theorem follows_accessWithin {fuel : Nat} {ts : List Token} {s : Shader} {r : Reader}
    (hfuel : 8 * ts.length + 1 < fuel) (h : View stream ts s r) :
    Follows stream Expr.place s (access ts) (Reader.accessWithin fuel) r := by
  cases fuel with
  | zero => exact absurd hfuel (Nat.not_lt_zero _)
  | succ fuel =>
    rw [access, Reader.accessWithin]
    exact (follows_primaryWithin (by omega) h).bind fun base rest hlt r h =>
      (follows_accessMoreWithin (by omega) h).sinceMaybe.last
termination_by fuel

theorem follows_accessMoreWithin {fuel : Nat} {ts : List Token} {base : Expr Unit} {s : Shader}
    {r : Reader} (hfuel : 8 * ts.length + 7 < fuel) (h : View stream ts (base.place s).2 r) :
    Follows stream Expr.place s (accessMore base ts)
      (Reader.accessMoreWithin fuel (base.place s).1) r := by
  cases fuel with
  | zero => exact absurd hfuel (Nat.not_lt_zero _)
  | succ fuel =>
    rw [Reader.accessMoreWithin, follows_kind h]
    cases ts with
    | nil =>
      rw [accessMore]
      exact .ok h
    | cons t after =>
      have hlength : (t :: after).length = after.length + 1 := rfl
      rw [accessMore, headKind]
      split
      next hc =>
        simp only [hc, follows_shift]
        refine .loosen ((follows_expressionWithin (by omega) h.advance).since.bind
          fun offset rest hlt r h => ?_)
        refine (follows_expectSymbol _ h).since.bind fun _ rest hlt r h => ?_
        refine .newExpr h (e := .node () (.index base offset)) (by rw [Expr.place]; rfl)
          fun r h => ?_
        exact (follows_accessMoreWithin (by omega) h).sinceMaybe.last
      next hc =>
        simp only [hc, follows_shift]
        refine .loosen ((follows_identifier h.advance).since.bind fun field rest hlt r h => ?_)
        refine .newExpr h (e := .node () (.member base field)) (by rw [Expr.place]; rfl)
          fun r h => ?_
        exact (follows_accessMoreWithin (by omega) h).sinceMaybe.last
      next hc =>
        simp only [hc, follows_shift]
        refine .loosen (.newExpr h.advance (e := .node () (.unary .postInc base))
          (by rw [Expr.place]; rfl) fun r h => ?_)
        exact (follows_accessMoreWithin (by omega) h).sinceMaybe.last
      next hc =>
        simp only [hc, follows_shift]
        refine .loosen (.newExpr h.advance (e := .node () (.unary .postDec base))
          (by rw [Expr.place]; rfl) fun r h => ?_)
        exact (follows_accessMoreWithin (by omega) h).sinceMaybe.last
      next => first | exact .ok h | (split <;> first | contradiction | exact .ok h)
termination_by fuel

theorem follows_primaryWithin {fuel : Nat} {ts : List Token} {s : Shader} {r : Reader}
    (hfuel : 8 * ts.length < fuel) (h : View stream ts s r) :
    Follows stream Expr.place s (primary ts) (Reader.primaryWithin fuel) r := by
  cases fuel with
  | zero => exact absurd hfuel (Nat.not_lt_zero _)
  | succ fuel =>
    rw [Reader.primaryWithin, follows_current h]
    cases ts with
    | nil =>
      rw [primary]
      simp only [List.headD_nil, h.kind_eof]
      exact .error h
    | cons t after =>
      have hlength : (t :: after).length = after.length + 1 := rfl
      unfold primary
      rw [List.headD_cons]
      split
      next hc =>
        simp only [hc, follows_shift]
        exact follows_newExpr h.advance (by rw [Expr.place])
      next hc =>
        simp only [hc, follows_shift]
        exact follows_newExpr h.advance (by rw [Expr.place])
      next hc =>
        simp only [hc, follows_shift]
        exact follows_newExpr h.advance (by rw [Expr.place])
      next hc =>
        simp only [hc, follows_shift]
        exact follows_newExpr h.advance (by rw [Expr.place])
      next hc =>
        simp only [hc, follows_shift]
        exact follows_newExpr h.advance (by rw [Expr.place])
      next hc =>
        simp only [hc, follows_shift]
        cases after with
        | nil =>
          exact follows_accept_nil h.advance TokenKind.noConfusion
            (follows_newExpr h.advance (by rw [Expr.place]))
        | cons u rest =>
          have hlength : (u :: rest).length = rest.length + 1 := rfl
          refine follows_accept h.advance (fun _ => ?_) fun _ =>
            follows_newExpr h.advance (by rw [Expr.place])
          refine (follows_argumentsWithin (by omega) h.advance.advance).since.bind
            fun args rest hlt r h => ?_
          exact follows_newExpr h (by rw [Expr.place]; rfl)
      next hc =>
        simp only [hc, follows_shift]
        refine (follows_expressionWithin (by omega) h.advance).since.bind fun inner rest hlt r h => ?_
        refine (follows_expectSymbol _ h).since.bind fun _ rest hlt r h => ?_
        exact follows_newExpr h (by rw [Expr.place]; rfl)
      next => first | exact .error h | (split <;> first | contradiction | exact .error h)
termination_by fuel

theorem follows_argumentsWithin {fuel : Nat} {ts : List Token} {s : Shader} {r : Reader}
    (hfuel : 8 * ts.length + 6 < fuel) (h : View stream ts s r) :
    Follows stream Expr.placeAll s (arguments ts) (Reader.argumentsWithin fuel) r := by
  cases fuel with
  | zero => exact absurd hfuel (Nat.not_lt_zero _)
  | succ fuel =>
    rw [Reader.argumentsWithin]
    cases ts with
    | nil =>
      have hfirst : Follows stream Expr.place s (assignment []) (Reader.assignmentWithin fuel) r :=
        follows_assignmentWithin (by omega) h
      rw [assignment_nil] at hfirst
      rw [arguments]
      exact follows_accept_nil h TokenKind.noConfusion hfirst.stop
    | cons t after =>
      have hlength : (t :: after).length = after.length + 1 := rfl
      rw [arguments]
      refine follows_accept h (fun _ => ⟨_, rfl, h.advance⟩) fun _ => ?_
      refine (follows_assignmentWithin (by omega) h).bind fun first rest hlt r h => ?_
      exact (follows_argumentsMoreWithin (by omega) h).since.bind fun more rest hlt r h => .ok h
termination_by fuel

theorem follows_argumentsMoreWithin {fuel : Nat} {ts : List Token} {s : Shader} {r : Reader}
    (hfuel : 8 * ts.length + 7 < fuel) (h : View stream ts s r) :
    Follows stream Expr.placeAll s (argumentsMore ts) (Reader.argumentsMoreWithin fuel) r := by
  cases fuel with
  | zero => exact absurd hfuel (Nat.not_lt_zero _)
  | succ fuel =>
    rw [Reader.argumentsMoreWithin]
    cases ts with
    | nil =>
      rw [argumentsMore]
      exact follows_accept_nil h TokenKind.noConfusion (follows_expectSymbol .rParen h).stop
    | cons t after =>
      have hlength : (t :: after).length = after.length + 1 := rfl
      rw [argumentsMore]
      refine follows_accept h (fun _ => ?_) fun _ => ?_
      · refine (follows_assignmentWithin (by omega) h.advance).since.bind fun next rest hlt r h => ?_
        exact (follows_argumentsMoreWithin (by omega) h).since.bind fun more rest hlt r h => .ok h
      · exact (follows_expectSymbol _ h).bind fun _ rest hlt r h => .ok h
termination_by fuel

end

theorem follows_expression (h : View stream ts s r) :
    Follows stream Expr.place s (expression ts) Reader.expression r :=
  .bounded h fun _ hfuel => follows_expressionWithin (by omega) h

theorem follows_assignment (h : View stream ts s r) :
    Follows stream Expr.place s (assignment ts) Reader.assignment r :=
  .bounded h fun _ hfuel => follows_assignmentWithin (by omega) h

end Parser

end ShaderReducer
