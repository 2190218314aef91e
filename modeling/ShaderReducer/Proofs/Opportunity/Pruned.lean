import ShaderReducer.Proofs.Opportunity.Found
import ShaderReducer.Proofs.Opportunity.Removal
import ShaderReducer.Proofs.Opportunity.WellTyped

/-!
# Shaders that are pruned

Taking declarations, statements and variables away and putting constants in the place of expressions
prunes a shader. What such changes leave in a slot that stays live depends on which of them were
tried, and not on their order: a change that is stale is one whose work has been done by others, or
whose slots are dead.
-/

namespace ShaderReducer

/-! ## What is left in a slot -/

/-- What is left of some variables when the first one with each of some names is taken out. -/
def Declarator.without {ρ : Type} (names : List String) (ds : List (Declarator ρ)) :
    List (Declarator ρ) :=
  names.foldr (fun name ds => ds.eraseP fun d => d.name == name) ds

namespace Declarator

variable {ρ : Type} {names names' : List String} {ds : List (Declarator ρ)}

/-- Variables are taken out in any order. -/
theorem without_perm (h : names.Perm names') (ds : List (Declarator ρ)) :
    without names ds = without names' ds := by
  have hcomm : LeftCommutative fun (name : String) (ds : List (Declarator ρ)) =>
      ds.eraseP fun d => d.name == name := by
    refine ⟨fun name name' ds => ?_⟩
    obtain rfl | hne := eq_or_ne name name'
    · rfl
    · refine List.eraseP_comm fun d _ => ?_
      by_cases hname : d.name = name'
      · exact .inr (by simpa [hname] using hne.symm)
      · exact .inl (by simpa using hname)
  exact h.foldr_eq ds

theorem without_sublist (names : List String) (ds : List (Declarator ρ)) :
    (without names ds).Sublist ds := by
  induction names with
  | nil => exact .refl ds
  | cons name names ih => exact List.eraseP_sublist.trans ih

end Declarator

/-- The names of the variables that some changes take out of the declaration in a slot. -/
def Change.takenNames (cs : List Change) (id : StmtId) : List String :=
  cs.filterMap fun c => match c with
    | removeVariable stmt _ name => if stmt = id then some name else none
    | _ => none

namespace Shader

/-- Whether some changes leave a declaration of variables without any. -/
def empties (s : Shader) (cs : List Change) (id : StmtId) : Bool :=
  match s.stmt id with
  | .vars decl => !decl.declarators.isEmpty &&
      (Declarator.without (Change.takenNames cs id) decl.declarators).isEmpty
  | _ => false

/-- Whether some changes take a statement out of a block. -/
def takesOut (s : Shader) (cs : List Change) (block stmt : StmtId) : Bool :=
  cs.contains (.removeStmt block stmt) || s.empties cs stmt

/-- What some changes leave in the slot of a statement, if it stays live. -/
def pruned (s : Shader) (cs : List Change) (id : StmtId) : StmtNode ExprId StmtId :=
  match s.stmt id with
  | .block body => .block (body.filter fun stmt => !s.takesOut cs id stmt)
  | .vars decl =>
    if s.empties cs id then .empty
    else .vars ⟨decl.type, Declarator.without (Change.takenNames cs id) decl.declarators⟩
  | node => node

variable {s t t' : Shader} {c : Change} {cs cs' : List Change}

theorem empties_congr {id : StmtId}
    (hnames : (Change.takenNames cs id).Perm (Change.takenNames cs' id)) :
    s.empties cs id = s.empties cs' id := by
  rw [empties, empties]
  split
  next decl _ => rw [Declarator.without_perm hnames]
  next => rfl

/-- What is left in a slot depends on the variables that are taken out of it and on the statements
that are taken out of it. -/
theorem pruned_congr {id : StmtId}
    (hnames : (Change.takenNames cs id).Perm (Change.takenNames cs' id))
    (htakes : ∀ body, s.stmt id = .block body → ∀ stmt ∈ body,
      s.takesOut cs id stmt = s.takesOut cs' id stmt) : s.pruned cs id = s.pruned cs' id := by
  rw [pruned, pruned, empties_congr hnames]
  split
  next body hid =>
    refine congrArg _ (List.filter_congr fun stmt hstmt => ?_)
    rw [htakes body hid stmt hstmt]
  next decl _ => rw [Declarator.without_perm hnames]
  next => rfl

/-- What is left does not depend on the order of the changes. -/
theorem pruned_perm (h : cs.Perm cs') : s.pruned cs = s.pruned cs' := by
  have hnames : ∀ id, (Change.takenNames cs id).Perm (Change.takenNames cs' id) := fun id =>
    h.filterMap _
  funext id
  refine pruned_congr (hnames id) fun body _ stmt _ => ?_
  rw [takesOut, takesOut, empties_congr (hnames stmt), Bool.eq_iff_iff, Bool.or_eq_true,
    Bool.or_eq_true, List.contains_iff_mem, List.contains_iff_mem, h.mem_iff]

theorem pruned_of_stmt_eq_block {id : StmtId} {body : List StmtId} (h : s.stmt id = .block body)
    (cs : List Change) : s.pruned cs id = .block (body.filter fun stmt => !s.takesOut cs id stmt) := by
  rw [pruned, h]

theorem pruned_nil (s : Shader) : s.pruned [] = s.stmt := by
  have hempties : ∀ id, s.empties [] id = false := by
    intro id
    rw [empties]
    split
    next decl _ => cases h : decl.declarators <;> simp [Declarator.without, Change.takenNames]
    next => rfl
  funext id
  rw [pruned]
  split
  next body hid =>
    rw [hid]
    refine congrArg _ (List.filter_eq_self.mpr fun stmt _ => ?_)
    simp [takesOut, hempties]
  next decl hid =>
    rw [hempties, hid]
    rfl
  next => rfl

theorem childStmts_pruned_subset (s : Shader) (cs : List Change) (id : StmtId) :
    (s.pruned cs id).childStmts ⊆ s.stmtParts id := by
  rw [pruned, stmtParts]
  split
  next body hid =>
    rw [hid]
    exact List.filter_sublist.subset
  next =>
    split
    next => exact List.nil_subset _
    next => exact List.nil_subset _
  next => exact List.Subset.refl _

theorem childExprs_pruned_subset (s : Shader) (cs : List Change) (id : StmtId) :
    (s.pruned cs id).childExprs ⊆ (s.stmt id).childExprs := by
  rw [pruned]
  split
  next => exact List.nil_subset _
  next decl hid =>
    rw [hid]
    split
    next => exact List.nil_subset _
    next => exact ((Declarator.without_sublist _ decl.declarators).filterMap _).subset
  next => exact List.Subset.refl _

/-! ## One more change -/

theorem takenNames_cons_of_ne {id : StmtId}
    (h : ∀ block name, c ≠ .removeVariable id block name) :
    Change.takenNames (c :: cs) id = Change.takenNames cs id := by
  refine List.filterMap_cons_none ?_
  split
  next stmt block name =>
    refine if_neg fun hid => h block name ?_
    rw [hid]
  next => rfl

theorem takenNames_cons (id : StmtId) (block : Option StmtId) (name : String)
    (cs : List Change) : Change.takenNames (.removeVariable id block name :: cs) id =
      name :: Change.takenNames cs id :=
  List.filterMap_cons_some (if_pos rfl)

theorem takesOut_cons_of_empties_eq {block stmt : StmtId} (hstmt : c ≠ .removeStmt block stmt)
    (hempties : s.empties (c :: cs) stmt = s.empties cs stmt) :
    s.takesOut (c :: cs) block stmt = s.takesOut cs block stmt := by
  rw [takesOut, takesOut, hempties, List.contains_cons, beq_false_of_ne hstmt.symm, Bool.false_or]

theorem takesOut_cons_of_ne {block stmt : StmtId} (hstmt : c ≠ .removeStmt block stmt)
    (hvariable : ∀ block name, c ≠ .removeVariable stmt block name) :
    s.takesOut (c :: cs) block stmt = s.takesOut cs block stmt :=
  takesOut_cons_of_empties_eq hstmt
    (empties_congr (.of_eq (takenNames_cons_of_ne hvariable)))

/-- What is taken out stays out. -/
theorem takesOut_cons {block stmt : StmtId} (h : s.takesOut cs block stmt = true) (c : Change) :
    s.takesOut (c :: cs) block stmt = true := by
  rw [takesOut, Bool.or_eq_true] at h ⊢
  refine h.imp (fun hmem => ?_) fun hempty => ?_
  · exact List.contains_iff_mem.mpr (List.mem_cons_of_mem c (List.contains_iff_mem.mp hmem))
  · by_cases hvariable : ∃ block name, c = .removeVariable stmt block name
    · obtain ⟨block', name, rfl⟩ := hvariable
      rw [empties] at hempty ⊢
      split at hempty
      next decl hid =>
        simp only [Bool.and_eq_true] at hempty ⊢
        refine ⟨hempty.1, ?_⟩
        rw [takenNames_cons, Declarator.without, List.foldr_cons, ← Declarator.without,
          List.isEmpty_iff.mp hempty.2]
        rfl
      next => cases hempty
    · rw [empties_congr (.of_eq (takenNames_cons_of_ne fun block name heq =>
        hvariable ⟨block, name, heq⟩))]
      exact hempty

/-- Changes that take no variable and no statement out leave all statements as they are. -/
theorem pruned_cons_of_ne (hstmt : ∀ block stmt, c ≠ .removeStmt block stmt)
    (hvariable : ∀ stmt block name, c ≠ .removeVariable stmt block name) :
    s.pruned (c :: cs) = s.pruned cs := by
  funext id
  exact pruned_congr (.of_eq (takenNames_cons_of_ne (hvariable id))) fun body _ stmt _ =>
    takesOut_cons_of_ne (hstmt id stmt) (hvariable stmt)

end Shader

end ShaderReducer
