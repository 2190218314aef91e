import ShaderReducer.Analysis.Uses

/-!
# The scope of the reduction

The code that may be changed freely because it cannot run: the bodies of functions that `main` does
not reach by calls, and the branches of conditions that were put in to be false. All other code is
in scope only by request.
-/

namespace ShaderReducer

/-! ## Marks

Sets of slot numbers, kept as one bit a slot. -/

structure Marks where
  bits : Array Bool := #[]

namespace Marks

def contains (m : Marks) (i : Nat) : Bool :=
  m.bits[i]?.getD false

def insert (m : Marks) (i : Nat) : Marks :=
  ⟨m.bits.setIfInBounds i true⟩

def none (bound : Nat) : Marks :=
  ⟨Array.replicate bound false⟩

/-- The marks on the numbers of a list that are below a bound. -/
def ofList (bound : Nat) (is : List Nat) : Marks :=
  is.foldl insert (none bound)

@[simp] theorem contains_none (bound i : Nat) : (none bound).contains i = false := by
  simp [none, contains, Array.getElem?_replicate]
  split <;> simp

theorem contains_insert (m : Marks) (i j : Nat) :
    (m.insert i).contains j = (m.contains j || (i == j && decide (j < m.bits.size))) := by
  by_cases h : i = j
  · subst h
    by_cases h' : i < m.bits.size <;> simp [insert, contains, h']
  · simp [insert, contains, h]

@[simp] theorem size_insert (m : Marks) (i : Nat) : (m.insert i).bits.size = m.bits.size := by
  simp [insert]

theorem contains_foldl_insert (is : List Nat) (m : Marks) (i : Nat) :
    (is.foldl insert m).contains i =
      (m.contains i || (is.contains i && decide (i < m.bits.size))) := by
  induction is generalizing m with
  | nil => simp
  | cons j is ih =>
    rw [List.foldl_cons, ih, contains_insert, size_insert, List.contains_cons]
    rw [show (j == i) = (i == j) from BEq.comm]
    cases m.contains i <;> cases (i == j) <;> cases is.contains i <;> simp

/-- A number is marked if and only if it is in the list and below the bound. -/
theorem contains_ofList (bound : Nat) (is : List Nat) (i : Nat) :
    (ofList bound is).contains i = (is.contains i && decide (i < bound)) := by
  rw [ofList, contains_foldl_insert, contains_none]
  simp [none]

end Marks

/-! ## The scope of the reduction -/

def injectionSwitch : String := "injectionSwitch"

def deadMarker : String := "_GLF_DEAD"

namespace Expr

variable {ε : Type}

def isSwitchComponent (component : String) (e : Expr ε) : Bool :=
  match e.stripParens with
  | node _ (.member base field) =>
    field == component && match base.stripParens with
      | node _ (.ident name) => name == injectionSwitch
      | _ => false
  | _ => false

/-- Whether a condition was put in to be false: a call of the marker, or the comparison of the two
components of the switch. -/
def isDeadCondition (e : Expr ε) : Bool :=
  match e.stripParens with
  | node _ (.call callee _) => callee == deadMarker
  | node _ (.binary .gt lhs rhs) => lhs.isSwitchComponent "x" && rhs.isSwitchComponent "y"
  | _ => false

end Expr

def Stmt.deadBranch? {ε σ : Type} : Stmt ε σ → Option (Stmt ε σ)
  | node _ (.ifElse cond onTrue _) => if cond.isDeadCondition then some onTrue else none
  | _ => none

abbrev CallGraph : Type := List (String × List String)

namespace CallGraph

def ofShader (s : Shader) : CallGraph :=
  s.declTrees.filterMap fun d => match d with
    | .function ⟨_, name, _, some body⟩ =>
      some (name, (body.exprVisits 1).filterMap fun (_, e) => NameUses.calledName? e)
    | _ => none

def callees (graph : CallGraph) (name : String) : List String :=
  (graph.filter fun edge => edge.1 == name).flatMap Prod.snd

/-- The number of calls in functions that are not among some names. -/
def pendingCalls (graph : CallGraph) (seen : List String) : Nat :=
  ((graph.filter fun edge => !seen.contains edge.1).flatMap Prod.snd).length

theorem pendingCalls_cons (graph : CallGraph) {seen : List String} {name : String}
    (h : seen.contains name = false) :
    graph.pendingCalls (name :: seen) + (graph.callees name).length = graph.pendingCalls seen := by
  induction graph with
  | nil => rfl
  | cons edge graph ih =>
    simp only [pendingCalls, callees, List.contains_cons] at ih ⊢
    by_cases h1 : edge.1 = name
    · have h2 : seen.contains edge.1 = false := by rw [h1]; exact h
      simp only [List.filter_cons, h1, BEq.rfl, Bool.true_or, Bool.not_true,
        Bool.false_eq_true, if_false, if_true, List.flatMap_cons, List.length_append, h,
        Bool.not_false]
      omega
    · have h2 : (edge.1 == name) = false := by simpa using h1
      by_cases h3 : seen.contains edge.1 = true
      · simp only [List.filter_cons, h2, Bool.false_or, h3, Bool.not_true,
          Bool.false_eq_true, if_false]
        exact ih
      · have h4 : seen.contains edge.1 = false := by simpa using h3
        simp only [List.filter_cons, h2, Bool.false_or, h4, Bool.not_false,
          Bool.false_eq_true, if_false, if_true, List.flatMap_cons, List.length_append]
        omega

/-- The names that are reached from those of a list, together with those that were reached
before. -/
def reach (graph : CallGraph) (seen ahead : List String) : List String :=
  match ahead with
  | [] => seen
  | name :: rest =>
    match _seen : seen.contains name with
    | true => graph.reach seen rest
    | false => graph.reach (name :: seen) (graph.callees name ++ rest)
termination_by ahead.length + graph.pendingCalls seen
decreasing_by
  · simp
  · have := graph.pendingCalls_cons _seen
    simp only [List.length_append, List.length_cons]
    omega

def reachedFromMain (graph : CallGraph) : List String :=
  graph.reach [] ["main"]

end CallGraph

/-- The code that may be changed. `everywhere` is the request to change all code. -/
structure ReductionScope where
  everywhere : Bool
  stmts : Marks
  exprs : Marks
  unreachable : List DeclId
  deadIfs : Marks

namespace ReductionScope

/-- The functions with a body that `main` does not reach. -/
def unreachableFunctions (s : Shader) : List DeclId :=
  let reached := (CallGraph.ofShader s).reachedFromMain
  (s.functions.filter fun (_, f) => f.body.isSome && !reached.contains f.name).map Prod.fst

/-- The injected conditions of a shader, each with the branch that does not run. -/
def deadBranches (s : Shader) : List (StmtId × Stmt ExprId StmtId) :=
  s.stmtVisits.filterMap fun (_, stmt) => stmt.deadBranch?.map (stmt.tag, ·)

/-- The statements whose code cannot run: the bodies of functions that are not reached, and the
branches of injected conditions. -/
def roots (s : Shader) : List (Stmt ExprId StmtId) :=
  ((unreachableFunctions s).filterMap fun id => match s.declTree id with
    | .function decl => decl.body
    | _ => none) ++ (deadBranches s).map Prod.snd

def ofShader (s : Shader) (everywhere : Bool) : ReductionScope where
  everywhere := everywhere
  stmts := Marks.ofList s.stmts.size
    ((roots s).flatMap fun root => (root.visits 0).map fun (_, t) => t.tag.index)
  exprs := Marks.ofList s.exprs.size
    ((roots s).flatMap fun root => (root.exprVisits 0).map fun (_, e) => e.tag.index)
  unreachable := unreachableFunctions s
  deadIfs := Marks.ofList s.stmts.size ((deadBranches s).map fun (id, _) => id.index)

def containsStmt (scope : ReductionScope) (id : StmtId) : Bool :=
  scope.everywhere || scope.stmts.contains id.index

def containsExpr (scope : ReductionScope) (id : ExprId) : Bool :=
  scope.everywhere || scope.exprs.contains id.index

def isDeadIf (scope : ReductionScope) (id : StmtId) : Bool :=
  scope.deadIfs.contains id.index

/-- Whether a declaration is a function that `main` does not reach. -/
def isUnreachableFunction (scope : ReductionScope) (id : DeclId) : Bool :=
  scope.unreachable.contains id

end ReductionScope

end ShaderReducer
