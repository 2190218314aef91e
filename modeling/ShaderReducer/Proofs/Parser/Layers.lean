import ShaderReducer.Proofs.Parser.Rules
import ShaderReducer.Shader.Tree

/-!
# Binary operators, one layer for each precedence

The grammar can be written with one rule for each precedence: a row of operands of the next layer,
joined by operators of just this precedence and grouped to the left, above a last layer of operands
that have no binary operator outside of parentheses. `layer` reads by these rules and puts each node
into a slot as soon as its parts are read. The rule `binary` has one loop for all precedences; it
reads the same trees, lays them out in the same slots, leaves the same tokens and fails at the same
places.

The one fact behind this is that a row of the layer of precedence `level` can be put in between:
where `binary` takes operators above `level - 1`, it first takes all those above `level`, and what
stops these is either an operator of precedence `level` or the end of both.
-/

namespace ShaderReducer

namespace Parser

/-- A rule that puts what it reads into a shader. -/
abbrev Builder : Type :=
  Shader → (ts : List Token) → Outcome (ExprId × Shader) ts.length

/-- An answer with its tree laid out in a shader. -/
def Outcome.placedIn {n : Nat} (answer : Outcome (Expr Unit) n) (s : Shader) :
    Outcome (ExprId × Shader) n :=
  answer.map fun p => ⟨p.value.place s, p.rest, p.fewer⟩

/-- A rule with its trees laid out. -/
def laidOut (rule : (ts : List Token) → Outcome (Expr Unit) ts.length) : Builder :=
  fun s ts => (rule ts).placedIn s

/-! ## The layers -/

/-- Further operands of a row after `left`, joined by operators of the precedence `level`. -/
def layerMore (operand : Builder) (level : Nat) (left : ExprId) (s : Shader) (ts : List Token) :
    Outcome (ExprId × Shader) (ts.length + 1) :=
  match ts with
  | t :: after => match t.kind.binaryOp? with
    | some op => if op.precedence = level then Outcome.loosen do
        let ⟨(right, s), rest, h⟩ ← (operand s after).since (tail_lt t after)
        let (joined, s) := s.addExpr (.binary op left right)
        let ⟨answer, rest, h⟩ ← (layerMore operand level joined s rest).sinceMaybe h
        return ⟨answer, rest, h⟩
      else return .nothing (left, s) (t :: after)
    | none => return .nothing (left, s) (t :: after)
  | [] => return .nothing (left, s) []
termination_by ts.length
decreasing_by
  simp only [List.length_cons] at *
  omega

/-- The rule of a layer: a row of operands of the next layer. The layer of operators before their
operand, and any above it, is the rule for these. -/
def layer (level : Nat) : Builder := fun s ts =>
  if level < Precedence.unary then do
    let ⟨(left, s), rest, h⟩ ← layer (level + 1) s ts
    let ⟨answer, rest, h⟩ ← (layerMore (layer (level + 1)) level left s rest).sinceMaybe h
    return ⟨answer, rest, h⟩
  else laidOut unary s ts
termination_by Precedence.unary - level
decreasing_by all_goals omega

/-! ## What stops a loop -/

variable {t : Token} {ts after : List Token} {least : Nat}

/-- All operators that the loop may take are taken: the next one binds no more tightly. -/
theorem precedence_le_of_binaryMore {ts rest : List Token} {left e : Expr Unit}
    (h : Reads (binaryMore least left ts) e rest) {op : BinaryOp}
    (hop : (headKind rest).binaryOp? = some op) : op.precedence ≤ least := by
  by_cases hstop : ∀ op, (headKind ts).binaryOp? = some op → op.precedence ≤ least
  · obtain ⟨-, rfl⟩ := (reads_binaryMore_stop hstop).mp h
    exact hstop op hop
  · obtain ⟨op', hstop⟩ := not_forall.mp hstop
    obtain ⟨hop', hleast⟩ := Classical.not_imp.mp hstop
    match ts with
    | [] => cases hop'
    | t :: after =>
      obtain ⟨right, mid, hright, hmore⟩ :=
        (reads_binaryMore_op hop' (Nat.lt_of_not_le hleast)).mp h
      have hlt := hright.lt
      exact precedence_le_of_binaryMore hmore hop
termination_by ts.length
decreasing_by
  simp only [List.length_cons] at *
  omega

theorem precedence_le_of_binary {rest : List Token} {e : Expr Unit}
    (h : Reads (binary least ts) e rest) {op : BinaryOp}
    (hop : (headKind rest).binaryOp? = some op) : op.precedence ≤ least := by
  obtain ⟨_, _, -, hmore⟩ := reads_binary.mp h
  exact precedence_le_of_binaryMore hmore hop

theorem binaryMore_stopped {left : Expr Unit}
    (h : ∀ op, (headKind ts).binaryOp? = some op → op.precedence ≤ least) :
    binaryMore least left ts = .ok (.nothing left ts) := by
  obtain ⟨_, heq⟩ := (reads_binaryMore_stop h).mpr ⟨rfl, rfl⟩
  exact heq

theorem layerMore_stopped {operand : Builder} {level : Nat} {id : ExprId} {s : Shader}
    (h : ∀ op, (headKind ts).binaryOp? = some op → op.precedence ≠ level) :
    layerMore operand level id s ts = .ok (.nothing (id, s) ts) := by
  cases ts with
  | nil => rw [layerMore]; rfl
  | cons t after =>
    rw [headKind_cons] at h
    rw [layerMore]
    cases hop : t.kind.binaryOp? with
    | none => rfl
    | some op => simp only [if_neg (h op hop)]; rfl

theorem precedence_lt_unary (op : BinaryOp) : op.precedence < Precedence.unary := by
  cases op <;> decide

/-! ## One turn of a loop -/

section Turns

variable {op : BinaryOp} {left : Expr Unit} {failure : Failure}

theorem binaryMore_of_error (hop : t.kind.binaryOp? = some op) (hlt : least < op.precedence)
    (hright : binary op.precedence after = .error failure) :
    binaryMore least left (t :: after) = .error failure := by
  rw [binaryMore, hop]
  simp only [hlt, hright]
  rfl

theorem binaryMore_of_ok (hop : t.kind.binaryOp? = some op) (hlt : least < op.precedence)
    {p : Parsed (Expr Unit) after.length} (hright : binary op.precedence after = .ok p) :
    binaryMore least left (t :: after) =
      (binaryMore least (.node () (.binary op left p.value)) p.rest).sinceMaybe
        (Nat.lt_succ_of_lt (Nat.lt_succ_of_lt p.fewer)) := by
  rw [binaryMore, hop]
  simp only [if_pos hlt, hright]
  change Outcome.loosen ((binaryMore least _ p.rest).sinceMaybe _ >>= pure) = _
  cases binaryMore least (.node () (.binary op left p.value)) p.rest <;> rfl

theorem binary_of_error (hfirst : unary ts = .error failure) :
    binary least ts = .error failure := by
  rw [binary, hfirst]
  rfl

theorem binary_of_ok {p : Parsed (Expr Unit) ts.length} (hfirst : unary ts = .ok p) :
    binary least ts = (binaryMore least p.value p.rest).sinceMaybe p.fewer := by
  rw [binary, hfirst]
  change (binaryMore least p.value p.rest).sinceMaybe _ >>= pure = _
  cases binaryMore least p.value p.rest <;> rfl

theorem laidOut_of_error {rule : (ts : List Token) → Outcome (Expr Unit) ts.length} (s : Shader)
    (h : rule ts = .error failure) : laidOut rule s ts = .error failure := by
  rw [laidOut, h]
  rfl

theorem laidOut_of_ok {rule : (ts : List Token) → Outcome (Expr Unit) ts.length} (s : Shader)
    {p : Parsed (Expr Unit) ts.length} (h : rule ts = .ok p) :
    laidOut rule s ts = .ok ⟨p.value.place s, p.rest, p.fewer⟩ := by
  rw [laidOut, h]
  rfl

variable {operand : Builder} {id : ExprId} {s : Shader}

theorem layerMore_of_error (hop : t.kind.binaryOp? = some op)
    (hright : operand s after = .error failure) :
    layerMore operand op.precedence id s (t :: after) = .error failure := by
  rw [layerMore, hop]
  simp only [hright]
  rfl

theorem layerMore_of_ok (hop : t.kind.binaryOp? = some op)
    {p : Parsed (ExprId × Shader) after.length} (hright : operand s after = .ok p) :
    layerMore operand op.precedence id s (t :: after) =
      (layerMore operand op.precedence (p.value.2.addExpr (.binary op id p.value.1)).1
        (p.value.2.addExpr (.binary op id p.value.1)).2 p.rest).sinceMaybe
        (Nat.lt_succ_of_lt (Nat.lt_succ_of_lt p.fewer)) := by
  rw [layerMore, hop]
  simp only [if_pos, hright]
  change Outcome.loosen ((layerMore operand _ _ _ p.rest).sinceMaybe _ >>= pure) = _
  cases layerMore operand op.precedence (p.value.2.addExpr (.binary op id p.value.1)).1
    (p.value.2.addExpr (.binary op id p.value.1)).2 p.rest <;> rfl

end Turns

/-! ## A layer put in between -/

theorem sinceMaybe_sinceMaybe {α : Type} {n : Nat} {rest mid : List Token}
    {answer : Outcome α (rest.length + 1)} (h : rest.length < mid.length + 1)
    (h' : mid.length < n) :
    (answer.sinceMaybe h).sinceMaybe h' = answer.sinceMaybe (lt_of_sinceMaybe h h') := by
  cases answer <;> rfl

theorem placedIn_sinceMaybe {n : Nat} {rest : List Token} {s : Shader}
    {answer : Outcome (Expr Unit) (rest.length + 1)} (h : rest.length < n) :
    Outcome.placedIn (answer.sinceMaybe h) s = (answer.placedIn s).sinceMaybe h := by
  cases answer <;> rfl

/-- What is read, as the first operand of a row of the precedence after `least`. -/
def Outcome.withRow {n : Nat} (answer : Outcome (Expr Unit) n) (least : Nat) (s : Shader) :
    Outcome (ExprId × Shader) n := do
  let ⟨(left, s), rest, h⟩ ← answer.placedIn s
  (layerMore (laidOut (binary (least + 1))) (least + 1) left s rest).sinceMaybe h

section Rows

variable {op : BinaryOp} {left : Expr Unit} {s : Shader}

theorem withRow_nothing :
    Outcome.withRow (.ok (.nothing left ts)) least s =
      (layerMore (laidOut (binary (least + 1))) (least + 1) (left.place s).1 (left.place s).2
        ts).sinceMaybe (length_lt_succ ts) :=
  rfl

theorem withRow_sinceMaybe {n : Nat} {rest : List Token}
    {answer : Outcome (Expr Unit) (rest.length + 1)} (h : rest.length < n) :
    Outcome.withRow (answer.sinceMaybe h) least s = (answer.withRow least s).sinceMaybe h := by
  cases answer with
  | error failure => rfl
  | ok p => exact (sinceMaybe_sinceMaybe p.fewer h).symm

/-- Without an operator above `least` there is no row. -/
theorem placedIn_stopped (hstop : ∀ op, (headKind ts).binaryOp? = some op → op.precedence ≤ least) :
    (binaryMore least left ts).placedIn s = (binaryMore (least + 1) left ts).withRow least s := by
  have hnext : ∀ op, (headKind ts).binaryOp? = some op → op.precedence ≤ least + 1 :=
    fun op hop => Nat.le_succ_of_le (hstop op hop)
  rw [binaryMore_stopped hstop, binaryMore_stopped hnext, withRow_nothing, layerMore_stopped]
  · rfl
  · exact fun op hop => Nat.ne_of_lt (Nat.lt_succ_of_le (hstop op hop))

/-- An operator of the row: its operand stops before the next operator of the row. -/
theorem placedIn_row (hop : t.kind.binaryOp? = some op) (hlevel : op.precedence = least + 1)
    (ih : ∀ left rest, rest.length < after.length → (binaryMore least left rest).placedIn s =
      (binaryMore (least + 1) left rest).withRow least s) :
    (binaryMore least left (t :: after)).placedIn s =
      (binaryMore (least + 1) left (t :: after)).withRow least s := by
  have hlt : least < op.precedence := hlevel ▸ Nat.lt_succ_self least
  have hhead : binaryMore (least + 1) left (t :: after) = .ok (.nothing left (t :: after)) :=
    binaryMore_stopped fun op' hop' => by
      cases hop.symm.trans hop'
      exact Nat.le_of_eq hlevel
  rw [hhead, withRow_nothing, ← hlevel]
  cases hright : binary op.precedence after with
  | error failure =>
    rw [binaryMore_of_error hop hlt hright, layerMore_of_error hop (laidOut_of_error _ hright)]
    rfl
  | ok p =>
    have hrest : ∀ op', (headKind p.rest).binaryOp? = some op' → op'.precedence ≤ least + 1 :=
      fun op' hop' => by
        rw [← hlevel]
        exact precedence_le_of_binary ⟨p.fewer, hright⟩ hop'
    have hmore := ih (.node () (.binary op left p.value)) p.rest p.fewer
    rw [binaryMore_stopped hrest, withRow_nothing, ← hlevel] at hmore
    rw [binaryMore_of_ok hop hlt hright, placedIn_sinceMaybe, hmore, sinceMaybe_sinceMaybe,
      layerMore_of_ok hop (laidOut_of_ok _ hright), sinceMaybe_sinceMaybe]
    rfl

/-- An operator that binds more tightly than the row is taken before the row begins. -/
theorem placedIn_tighter (hop : t.kind.binaryOp? = some op) (hlevel : least + 1 < op.precedence)
    (ih : ∀ left rest, rest.length < after.length → (binaryMore least left rest).placedIn s =
      (binaryMore (least + 1) left rest).withRow least s) :
    (binaryMore least left (t :: after)).placedIn s =
      (binaryMore (least + 1) left (t :: after)).withRow least s := by
  have hlt : least < op.precedence := Nat.lt_of_succ_lt hlevel
  cases hright : binary op.precedence after with
  | error failure =>
    rw [binaryMore_of_error hop hlt hright, binaryMore_of_error hop hlevel hright]
    rfl
  | ok p =>
    rw [binaryMore_of_ok hop hlt hright, binaryMore_of_ok hop hlevel hright, placedIn_sinceMaybe,
      withRow_sinceMaybe, ih _ _ p.fewer]

end Rows

/-- Taking all operators above `least` is taking first those above the next precedence, and then
those of just this one. -/
theorem placedIn_binaryMore (least : Nat) (left : Expr Unit) (s : Shader) (ts : List Token) :
    (binaryMore least left ts).placedIn s = (binaryMore (least + 1) left ts).withRow least s := by
  by_cases hstop : ∀ op, (headKind ts).binaryOp? = some op → op.precedence ≤ least
  · exact placedIn_stopped hstop
  · obtain ⟨op, hstop⟩ := not_forall.mp hstop
    obtain ⟨hop, hleast⟩ := Classical.not_imp.mp hstop
    match ts with
    | [] => cases hop
    | t :: after =>
      rw [headKind_cons] at hop
      have ih : ∀ left rest, rest.length < after.length → (binaryMore least left rest).placedIn s =
          (binaryMore (least + 1) left rest).withRow least s :=
        fun left rest _ => placedIn_binaryMore least left s rest
      obtain hlevel | hlevel : op.precedence = least + 1 ∨ least + 1 < op.precedence := by omega
      · exact placedIn_row hop hlevel ih
      · exact placedIn_tighter hop hlevel ih
termination_by ts.length
decreasing_by
  simp only [List.length_cons]
  omega

/-- A layer below the last is a row of what `binary` reads above it. -/
theorem laidOut_binary (least : Nat) (s : Shader) (ts : List Token) :
    laidOut (binary least) s ts = (binary (least + 1) ts).withRow least s := by
  cases hfirst : unary ts with
  | error failure =>
    rw [laidOut_of_error s (binary_of_error hfirst), binary_of_error hfirst]
    rfl
  | ok p =>
    rw [laidOut, binary_of_ok hfirst, binary_of_ok hfirst, placedIn_sinceMaybe,
      withRow_sinceMaybe, placedIn_binaryMore]

theorem binary_eq_unary (hleast : Precedence.unary ≤ least + 1) : binary least ts = unary ts := by
  cases hfirst : unary ts with
  | error failure => exact binary_of_error hfirst
  | ok p =>
    rw [binary_of_ok hfirst, binaryMore_stopped fun op _ =>
      Nat.le_of_lt_succ (Nat.lt_of_lt_of_le (precedence_lt_unary op) hleast)]
    rfl

/-- The layers and the one loop read the same, from any tokens and into the same slots of any
shader, and fail at the same places. -/
theorem layer_eq_binary (least : Nat) (s : Shader) (ts : List Token) :
    layer (least + 1) s ts = (binary least ts).placedIn s := by
  rw [layer]
  split
  next hlevel =>
    have hnext : layer (least + 2) = laidOut (binary (least + 1)) :=
      funext fun s => funext fun ts => layer_eq_binary (least + 1) s ts
    rw [hnext]
    refine Eq.trans ?_ (laidOut_binary least s ts).symm
    rw [laidOut, Outcome.withRow]
    cases (binary (least + 1) ts).placedIn s with
    | error failure => rfl
    | ok p => exact bind_pure (m := Except Failure) _
  next hlevel => rw [laidOut, binary_eq_unary (Nat.le_of_not_lt hlevel)]
termination_by Precedence.unary - least
decreasing_by omega

end Parser

end ShaderReducer
