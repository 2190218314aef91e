import ShaderReducer.Opportunity.Replacement
import ShaderReducer.Proofs.Shader.Places
import ShaderReducer.Proofs.Shader.Structs

/-!
# The weight of a program

A number that every change makes less. It is not the number of nodes: a name may give way to a
constructor with an argument, which are two nodes. So a constant weighs less than anything that may
give way to it: one for the constants that the reduction makes, with one more for the argument of a
vector, two for other literals and three for all other expressions. A statement weighs one, with one
more for each variable, and a declaration weighs one. The fields of structures weigh their volume.

The weight is that of the syntax, so laying a shader out anew leaves it as it is. Where all slots are
owned it is a sum over the live slots, and a change is weighed by the slots it touches.
-/

namespace ShaderReducer

/-- Whether a literal is a constant of its type. -/
def Literal.isUnit (value : Literal) : Bool :=
  [ScalarKind.bool, .int, .uint, .float].any fun kind => Constant.element? true kind == some value

/-- Whether a call of a name with a literal is a constant of a vector type. -/
def Constant.isVector (callee : String) (value : Literal) : Bool :=
  match Ty.ofName? callee with
  | some (.vector kind _) => element? true kind == some value
  | _ => false

namespace ExprNode

variable {ρ τ : Type}

/-- The literal that an expression is. -/
def literal? : ExprNode ρ → Option Literal
  | literal value => some value
  | _ => none

/-- The weight of one expression, without its parts; `inside` gives the literals among these. -/
def weight (inside : ρ → Option Literal) : ExprNode ρ → Nat
  | literal value => if value.isUnit then 1 else 2
  | call callee [arg] => if (inside arg).any (Constant.isVector callee) then 1 else 3
  | _ => 3

@[simp] theorem literal?_map (f : ρ → τ) (e : ExprNode ρ) : (e.map f).literal? = e.literal? := by
  cases e <;> rfl

theorem eq_of_literal? {e : ExprNode ρ} {value : Literal} (h : e.literal? = some value) :
    e = literal value := by
  cases e with
  | literal value' => exact congrArg literal (Option.some.inj h)
  | _ => cases h

theorem weight_map (f : ρ → τ) (inside : τ → Option Literal) (e : ExprNode ρ) :
    (e.map f).weight inside = e.weight (inside ∘ f) := by
  cases e with
  | call callee args =>
      match args with
      | [] | [_] | _ :: _ :: _ => rfl
  | _ => rfl

theorem weight_pos (inside : ρ → Option Literal) (e : ExprNode ρ) : 0 < e.weight inside := by
  unfold weight
  split
  next => split <;> omega
  next => split <;> omega
  next => omega

theorem weight_literal_le (inside : ρ → Option Literal) (value : Literal) :
    (literal value : ExprNode ρ).weight inside ≤ 2 := by
  rw [weight]
  split <;> omega

theorem weight_le_three (inside : ρ → Option Literal) (e : ExprNode ρ) : e.weight inside ≤ 3 := by
  unfold weight
  split
  next => split <;> omega
  next => split <;> omega
  next => omega

end ExprNode

theorem Constant.isUnit_of_element? {kind : ScalarKind} {value : Literal} {unsigned : Bool}
    (h : element? unsigned kind = some value) : value.isUnit = true := by
  cases kind with
  | uint =>
      cases unsigned with
      | true => cases h; rfl
      | false => cases h
  | _ => cases h; rfl

theorem Constant.isUnit_of_isVector {callee : String} {value : Literal}
    (h : isVector callee value = true) : value.isUnit = true := by
  unfold isVector at h
  split at h
  next kind _ _ =>
    have hkind : element? true kind = some value := eq_of_beq h
    exact isUnit_of_element? hkind
  next => cases h

/-- An expression does not weigh more if its parts are the constants that they were. -/
theorem ExprNode.weight_le {ρ : Type} {inside inside' : ρ → Option Literal} {e : ExprNode ρ}
    (h : ∀ c ∈ e.children, ∀ value, inside c = some value → value.isUnit = true →
      inside' c = some value) : e.weight inside' ≤ e.weight inside := by
  cases e with
  | call callee args =>
      match args with
      | [arg] =>
          rw [weight, weight]
          by_cases hvector : (inside arg).any (Constant.isVector callee) = true
          · obtain ⟨value, hvalue, hunit⟩ := (Option.any_eq_true _ _).mp hvector
            rw [hvalue, h arg List.mem_cons_self value hvalue (Constant.isUnit_of_isVector hunit)]
          · rw [if_neg hvector]
            split <;> omega
      | [] | _ :: _ :: _ => exact Nat.le_refl _
  | _ => exact Nat.le_refl _

/-- An expression weighs three if it is neither a literal nor a constant of a vector type. -/
theorem ExprNode.weight_cases {ρ : Type} (inside : ρ → Option Literal) (e : ExprNode ρ) :
    (∃ value, e = .literal value) ∨ e.weight inside = 3 ∨
      ∃ callee arg value, e = .call callee [arg] ∧ inside arg = some value ∧
        Constant.isVector callee value = true := by
  cases e with
  | literal value => exact Or.inl ⟨value, rfl⟩
  | call callee args =>
      match args with
      | [arg] =>
          rw [weight]
          by_cases hvector : (inside arg).any (Constant.isVector callee) = true
          · obtain ⟨value, hvalue, hvector⟩ := (Option.any_eq_true _ _).mp hvector
            exact Or.inr (Or.inr ⟨callee, arg, value, rfl, hvalue, hvector⟩)
          · exact Or.inr (Or.inl (if_neg hvector))
      | [] | _ :: _ :: _ => exact Or.inr (Or.inl rfl)
  | _ => exact Or.inr (Or.inl rfl)

namespace StmtNode

/-- The weight of one statement, without its parts. -/
def weight {ρ σ : Type} : StmtNode ρ σ → Nat
  | vars decl => 1 + decl.declarators.length
  | _ => 1

theorem weight_map {ρ σ ρ' σ' : Type} (f : ρ → ρ') (g : σ → σ') (t : StmtNode ρ σ) :
    (t.map f g).weight = t.weight := by
  cases t with
  | vars decl => simp [map, weight, VarDecl.map]
  | _ => rfl

theorem weight_pos {ρ σ : Type} (t : StmtNode ρ σ) : 0 < t.weight := by
  unfold weight
  split <;> omega

end StmtNode

/-- The weight of the topmost node of an expression. -/
def Expr.weight {ε : Type} (e : Expr ε) : Nat :=
  e.form.weight fun c => c.form.literal?

theorem Expr.weight_erase {ε : Type} (e : Expr ε) : e.erase.weight = e.weight := by
  have hliteral : ∀ c : Expr ε, c.erase.form.literal? = c.form.literal? := by
    rintro ⟨tag, form⟩
    rw [erase_node, Expr.form, Expr.form, ExprNode.literal?_map]
  obtain ⟨tag, form⟩ := e
  rw [erase_node, weight, Expr.form, ExprNode.weight_map, weight]
  exact congrArg (fun inside => ExprNode.weight inside form) (funext hliteral)

/-- The weight of a program. -/
def Program.weight (p : Program) : Nat :=
  ((p.decls.flatMap DeclTree.exprVisits).map fun v => v.2.weight).sum +
    ((p.decls.flatMap DeclTree.stmtVisits).map fun v => v.2.form.weight).sum +
    p.decls.length + StructDecl.totalVolume p.structDecls

namespace Shader

variable {s t : Shader}

/-- The weight of the syntax of a shader. -/
def weight (s : Shader) : Nat :=
  s.toProgram.weight

theorem weight_compact (s : Shader) : s.compact.weight = s.weight := by
  rw [weight, toProgram_compact, weight]

/-- The weight of one expression. -/
def exprWeight (s : Shader) (id : ExprId) : Nat :=
  (s.expr id).weight fun c => (s.expr c).literal?

/-- The weight of the live expressions. -/
def exprsWeight (s : Shader) : Nat :=
  (s.liveExprs.map s.exprWeight).sum

/-- The weight of the live statements. -/
def stmtsWeight (s : Shader) : Nat :=
  (s.liveStmts.map fun id => (s.stmt id).weight).sum

theorem Grounded.weight_exprTree (h : s.Grounded) (id : ExprId) :
    (s.exprTree id).weight = s.exprWeight id := by
  have hliteral : ∀ c, (s.exprTree c).form.literal? = (s.expr c).literal? := by
    intro c
    rw [h.exprTree_eq, Expr.form, ExprNode.literal?_map]
  rw [h.exprTree_eq, Expr.weight, Expr.form, ExprNode.weight_map, exprWeight]
  exact congrArg (fun inside => ExprNode.weight inside (s.expr id)) (funext hliteral)

theorem Owned.sum_exprVisits (h : s.Grounded) (ho : s.Owned) :
    ((s.toProgram.decls.flatMap DeclTree.exprVisits).map fun v => v.2.weight).sum =
      s.exprsWeight := by
  have hperm : ((s.toProgram.decls.flatMap DeclTree.exprVisits).map Prod.snd).Perm
      ((s.exprVisits.map Prod.snd).map Expr.erase) := by
    rw [toProgram, exprVisits, List.flatMap_map, List.map_flatMap, List.map_flatMap, List.map_flatMap]
    exact List.Perm.flatMap_left _ fun d _ => d.map_snd_exprVisits_erase_perm
  calc ((s.toProgram.decls.flatMap DeclTree.exprVisits).map fun v => v.2.weight).sum
      = (((s.toProgram.decls.flatMap DeclTree.exprVisits).map Prod.snd).map Expr.weight).sum := by
        rw [List.map_map]
        rfl
    _ = ((s.exprVisits.map Prod.snd).map Expr.weight).sum := by
        rw [(hperm.map Expr.weight).sum_eq, List.map_map]
        exact congrArg List.sum (List.map_congr_left fun e _ => e.weight_erase)
    _ = ((s.exprVisits.map fun v => v.2.tag).map s.exprWeight).sum := by
        rw [List.map_map, List.map_map]
        refine congrArg List.sum (List.map_congr_left fun v hv => ?_)
        have htree := h.eq_exprTree_of_mem_exprVisits (List.mem_map_of_mem hv)
        rw [Function.comp_apply, Function.comp_apply, ← h.weight_exprTree, ← htree]
    _ = s.exprsWeight := by
        rw [exprsWeight, ← ho.coe_exprVisits h, Multiset.map_coe, Multiset.sum_coe]

theorem Owned.sum_stmtVisits (h : s.Grounded) (ho : s.Owned) :
    ((s.toProgram.decls.flatMap DeclTree.stmtVisits).map fun v => v.2.form.weight).sum =
      s.stmtsWeight := by
  have heq : (s.toProgram.decls.flatMap DeclTree.stmtVisits).map Prod.snd =
      (s.stmtVisits.map Prod.snd).map Stmt.erase := by
    rw [toProgram, stmtVisits, List.flatMap_map, List.map_flatMap, List.map_flatMap, List.map_flatMap]
    exact List.flatMap_congr fun d _ => d.map_snd_stmtVisits_erase
  calc ((s.toProgram.decls.flatMap DeclTree.stmtVisits).map fun v => v.2.form.weight).sum
      = (((s.toProgram.decls.flatMap DeclTree.stmtVisits).map Prod.snd).map
          fun t => t.form.weight).sum := by
        rw [List.map_map]
        rfl
    _ = ((s.stmtVisits.map fun v => v.2.tag).map fun id => (s.stmt id).weight).sum := by
        rw [heq, List.map_map, List.map_map, List.map_map]
        refine congrArg List.sum (List.map_congr_left fun v hv => ?_)
        obtain ⟨depth, t⟩ := v
        have htree := h.eq_stmtTree_of_mem_stmtVisits (List.mem_map_of_mem (f := Prod.snd) hv)
        rw [Function.comp_apply, Function.comp_apply, Function.comp_apply, Stmt.form_erase,
          StmtNode.weight_map, htree, h.stmtTree_eq, Stmt.form, StmtNode.weight_map]
        rfl
    _ = s.stmtsWeight := by
        rw [stmtsWeight, ← ho.coe_stmtVisits h, Multiset.map_coe, Multiset.sum_coe]

/-- The weight of a shader whose slots are owned is that of its live slots. -/
theorem Owned.weight_eq (h : s.Grounded) (ho : s.Owned) :
    s.weight = s.exprsWeight + s.stmtsWeight + s.decls.length +
      StructDecl.totalVolume s.structDecls := by
  rw [weight, Program.weight, ho.sum_exprVisits h, ho.sum_stmtVisits h, structDecls_toProgram]
  simp [toProgram, declTrees]

theorem Grounded.exprWeight_addExpr (h : s.Grounded) (node : ExprNode ExprId) {id : ExprId}
    (hid : id ∈ s.liveExprs) : (s.addExpr node).2.exprWeight id = s.exprWeight id := by
  have hsame : ∀ c ∈ (s.expr id).children, (s.addExpr node).2.expr c = s.expr c := by
    intro c hc
    obtain ⟨rank, hr⟩ := h.exprs
    exact expr_addExpr_of_lt s node (hr.falls id c hc).1
  rw [exprWeight, exprWeight, expr_addExpr_of_lt s node (lt_size_of_mem_liveExprs hid)]
  exact le_antisymm (ExprNode.weight_le fun c hc _ hv _ => by rwa [hsame c hc])
    (ExprNode.weight_le fun c hc _ hv _ => by rwa [hsame c hc] at hv)

/-- A constant in a new slot weighs one, and nothing else weighs more. -/
theorem Grounded.exprsWeight_addExpr (h : s.Grounded) {value : Literal}
    (hvalue : value.isUnit = true) :
    (s.addExpr (.literal value)).2.exprsWeight = s.exprsWeight + 1 := by
  have hnew : (s.addExpr (.literal value)).2.exprWeight (s.addExpr (.literal value)).1 = 1 := by
    rw [exprWeight, expr_addExpr_self]
    exact if_pos hvalue
  rw [exprsWeight, liveExprs_addExpr, Multiset.map_cons, Multiset.sum_cons, hnew,
    Multiset.map_congr rfl fun id hid => h.exprWeight_addExpr (.literal value) hid, Nat.add_comm,
    exprsWeight]

/-! ## Weighing a change -/

/-- No live expression weighs more than before, and there are no new ones. -/
theorem exprsWeight_le (hlive : t.liveExprs ≤ s.liveExprs)
    (hle : ∀ id ∈ t.liveExprs, t.exprWeight id ≤ s.exprWeight id) :
    t.exprsWeight ≤ s.exprsWeight := by
  obtain ⟨gone, hgone⟩ := Multiset.le_iff_exists_add.mp hlive
  have hkept := Multiset.sum_map_le_sum_map t.exprWeight s.exprWeight hle
  rw [exprsWeight, exprsWeight, hgone, Multiset.map_add, Multiset.sum_add]
  exact hkept.trans (Nat.le_add_right _ _)

/-- One expression has changed and some are gone; no other one weighs more than before. -/
theorem exprsWeight_add_le {gone : Multiset ExprId} {target : ExprId}
    (hlive : t.liveExprs + gone = s.liveExprs) (htarget : target ∈ t.liveExprs)
    (hle : ∀ id ∈ t.liveExprs, id ≠ target → t.exprWeight id ≤ s.exprWeight id) :
    t.exprsWeight + (s.exprWeight target + (gone.map s.exprWeight).sum) ≤
      s.exprsWeight + t.exprWeight target := by
  obtain ⟨rest, hrest⟩ := Multiset.exists_cons_of_mem htarget
  have hnot : target ∉ rest := by
    have hnodup := nodup_liveExprs t
    rw [hrest] at hnodup
    exact (Multiset.nodup_cons.mp hnodup).1
  have hkept := Multiset.sum_map_le_sum_map (s := rest) t.exprWeight s.exprWeight fun id hid =>
    hle id (by rw [hrest]; exact Multiset.mem_cons_of_mem hid) fun heq => hnot (heq ▸ hid)
  rw [exprsWeight, exprsWeight, ← hlive, Multiset.map_add, Multiset.sum_add, hrest,
    Multiset.map_cons, Multiset.map_cons, Multiset.sum_cons, Multiset.sum_cons]
  omega

/-- No live statement weighs more than before, and there are no new ones. -/
theorem stmtsWeight_le (hlive : t.liveStmts ≤ s.liveStmts)
    (hle : ∀ id ∈ t.liveStmts, (t.stmt id).weight ≤ (s.stmt id).weight) :
    t.stmtsWeight ≤ s.stmtsWeight := by
  obtain ⟨gone, hgone⟩ := Multiset.le_iff_exists_add.mp hlive
  have hkept := Multiset.sum_map_le_sum_map (fun id => (t.stmt id).weight)
    (fun id => (s.stmt id).weight) hle
  rw [stmtsWeight, stmtsWeight, hgone, Multiset.map_add, Multiset.sum_add]
  exact hkept.trans (Nat.le_add_right _ _)

/-- A live statement that weighs less than before, or is gone, makes a difference. -/
theorem stmtsWeight_lt (hlive : t.liveStmts ≤ s.liveStmts)
    (hle : ∀ id ∈ t.liveStmts, (t.stmt id).weight ≤ (s.stmt id).weight) {target : StmtId}
    (htarget : target ∈ s.liveStmts)
    (hless : target ∈ t.liveStmts → (t.stmt target).weight < (s.stmt target).weight) :
    t.stmtsWeight < s.stmtsWeight := by
  obtain ⟨gone, hgone⟩ := Multiset.le_iff_exists_add.mp hlive
  have hkept := Multiset.sum_map_le_sum_map (fun id => (t.stmt id).weight)
    (fun id => (s.stmt id).weight) hle
  rw [stmtsWeight, stmtsWeight, hgone, Multiset.map_add, Multiset.sum_add]
  rw [hgone] at htarget
  rcases Multiset.mem_add.mp htarget with htarget | htarget
  · have hlt := Multiset.sum_lt_sum hle ⟨target, htarget, hless htarget⟩
    omega
  · have hpos := Multiset.single_le_sum (fun _ _ => Nat.zero_le _) _
      (Multiset.mem_map_of_mem (fun id => (s.stmt id).weight) htarget)
    have := (s.stmt target).weight_pos
    omega

end Shader

end ShaderReducer
