import Mathlib.Data.List.Perm.Basic
import ShaderReducer.Syntax.Tree

/-!
# Trees by their parts

The functions on trees are written case by case. Here each is put as one equation on a node and its
parts, and induction on a tree is put the same way, so that what follows does not go through the
forms again.

`children` and `childStmts` are the parts of a form. The order in which a statement lists its
expressions is not that of its parts, for the parts of a loop stand between its expressions, so
`exprVisits` is given up to order.
-/

namespace ShaderReducer

namespace ExprNode

variable {ρ τ υ : Type}

theorem map_map (f : ρ → τ) (g : τ → υ) (e : ExprNode ρ) : (e.map f).map g = e.map (g ∘ f) := by
  cases e <;> simp [map]

theorem map_congr {f g : ρ → τ} {e : ExprNode ρ} (h : ∀ c ∈ e.children, f c = g c) :
    e.map f = e.map g := by
  cases e <;> simp_all [map, children]

theorem map_id (e : ExprNode ρ) : e.map id = e := by
  cases e <;> simp [map]

/-- The form with its parts left out. -/
def shape (e : ExprNode ρ) : ExprNode Unit :=
  e.map fun _ => ()

@[simp] theorem shape_map (f : ρ → τ) (e : ExprNode ρ) : (e.map f).shape = e.shape := by
  rw [shape, shape, map_map]

/-- A form is told by its shape and its parts. -/
theorem map_eq_map_of_shape {f : ρ → υ} {g : τ → υ} {e : ExprNode ρ} {e' : ExprNode τ}
    (hs : e.shape = e'.shape) (hc : e.children.map f = e'.children.map g) :
    e.map f = e'.map g := by
  cases e <;> cases e' <;> simp_all [shape, map, children]

end ExprNode

namespace VarDecl

variable {ρ τ υ : Type}

@[simp] theorem inits_map (f : ρ → τ) (v : VarDecl ρ) : (v.map f).inits = v.inits.map f := by
  simp only [inits, map, List.filterMap_map, List.map_filterMap]
  rfl

theorem map_map (f : ρ → τ) (g : τ → υ) (v : VarDecl ρ) : (v.map f).map g = v.map (g ∘ f) := by
  simp [map, Declarator.map]

theorem map_id (v : VarDecl ρ) : v.map id = v := by
  have hd : (Declarator.map id : Declarator ρ → Declarator ρ) = id := by
    funext d
    simp [Declarator.map]
  rw [map, hd, List.map_id]

theorem map_congr {f g : ρ → τ} {v : VarDecl ρ} (h : ∀ e ∈ v.inits, f e = g e) :
    v.map f = v.map g := by
  have hd : ∀ d ∈ v.declarators, d.map f = d.map g := by
    intro d hd
    cases hi : d.init with
    | none => simp [Declarator.map, hi]
    | some e => simp [Declarator.map, hi, h e (List.mem_filterMap.mpr ⟨d, hd, hi⟩)]
  rw [map, map, List.map_congr_left hd]

/-- A declaration is told by its names and its initial values. -/
theorem map_eq_map_of_shape {f : ρ → υ} {g : τ → υ} {v : VarDecl ρ} {v' : VarDecl τ}
    (hs : v.map (fun _ => ()) = v'.map fun _ => ()) (hi : v.inits.map f = v'.inits.map g) :
    v.map f = v'.map g := by
  obtain ⟨type, ds⟩ := v
  obtain ⟨type', ds'⟩ := v'
  simp only [map, mk.injEq] at hs ⊢
  refine ⟨hs.1, ?_⟩
  replace hs := hs.2
  induction ds generalizing ds' with
  | nil => simpa using hs
  | cons d ds ih =>
      obtain ⟨name, size, init⟩ := d
      cases ds' with
      | nil => simp at hs
      | cons d' ds' =>
          obtain ⟨name', size', init'⟩ := d'
          cases init <;> cases init' <;> simp [Declarator.map, inits] at hs hi ⊢
          case none.none => exact ⟨hs.1, ih ds' hi hs.2⟩
          case some.some => exact ⟨⟨hs.1.1, hs.1.2, hi.1⟩, ih ds' hi.2 hs.2⟩

end VarDecl

namespace StmtNode

variable {ρ σ ρ' σ' ρ'' σ'' : Type}

theorem map_map (f : ρ → ρ') (g : σ → σ') (f' : ρ' → ρ'') (g' : σ' → σ'') (s : StmtNode ρ σ) :
    (s.map f g).map f' g' = s.map (f' ∘ f) (g' ∘ g) := by
  cases s <;> simp [map, VarDecl.map, Declarator.map]

theorem map_id (s : StmtNode ρ σ) : s.map id id = s := by
  cases s with
  | vars decl => exact congrArg vars decl.map_id
  | _ => simp [map]

/-- The form with its parts left out. -/
def shape (s : StmtNode ρ σ) : StmtNode Unit Unit :=
  s.map (fun _ => ()) (fun _ => ())

@[simp] theorem shape_map (f : ρ → ρ') (g : σ → σ') (s : StmtNode ρ σ) :
    (s.map f g).shape = s.shape := by
  rw [shape, shape, map_map]

@[simp] theorem childStmts_map (f : ρ → ρ') (g : σ → σ') (s : StmtNode ρ σ) :
    (s.map f g).childStmts = s.childStmts.map g := by
  cases s with
  | ifElse cond onTrue onFalse => cases onFalse <;> rfl
  | _ => simp [map, childStmts]

@[simp] theorem childExprs_map (f : ρ → ρ') (g : σ → σ') (s : StmtNode ρ σ) :
    (s.map f g).childExprs = s.childExprs.map f := by
  cases s with
  | vars decl => exact VarDecl.inits_map f decl
  | forLoop start cond step body => cases cond <;> cases step <;> rfl
  | returns value => cases value <;> rfl
  | _ => rfl

theorem map_congr {f f' : ρ → ρ'} {g g' : σ → σ'} {s : StmtNode ρ σ}
    (hf : ∀ e ∈ s.childExprs, f e = f' e) (hg : ∀ t ∈ s.childStmts, g t = g' t) :
    s.map f g = s.map f' g' := by
  cases s with
  | vars decl => simp only [map, VarDecl.map_congr hf]
  | ifElse cond onTrue onFalse => cases onFalse <;> simp_all [map, childExprs, childStmts]
  | forLoop start cond step body =>
      cases cond <;> cases step <;> simp_all [map, childExprs, childStmts]
  | returns value => cases value <;> simp_all [map, childExprs]
  | _ => simp_all [map, childExprs, childStmts]

/-- A form is told by its shape and its parts. -/
theorem map_eq_map_of_shape {f : ρ → ρ''} {g : σ → σ''} {f' : ρ' → ρ''} {g' : σ' → σ''}
    {s : StmtNode ρ σ} {s' : StmtNode ρ' σ'} (hs : s.shape = s'.shape)
    (he : s.childExprs.map f = s'.childExprs.map f')
    (ht : s.childStmts.map g = s'.childStmts.map g') : s.map f g = s'.map f' g' := by
  cases s <;> cases s' <;> simp only [shape, map, reduceCtorEq, vars.injEq] at hs
  case vars.vars v v' => exact congrArg vars (VarDecl.map_eq_map_of_shape hs he)
  case block.block => simp_all [map, childStmts]
  case expr.expr => simp_all [map, childExprs]
  case ifElse.ifElse cond onTrue onFalse cond' onTrue' onFalse' =>
    cases onFalse <;> cases onFalse' <;> simp_all [map, childExprs, childStmts]
  case forLoop.forLoop start cond step body start' cond' step' body' =>
    cases cond <;> cases cond' <;> cases step <;> cases step' <;>
      simp_all [map, childExprs, childStmts]
  case returns.returns value value' =>
    cases value <;> cases value' <;> simp_all [map, childExprs]
  all_goals simp_all [map, childExprs, childStmts]

end StmtNode

namespace Decl

variable {ρ σ ρ' σ' ρ'' σ'' : Type}

/-- The body of a function. -/
def bodies : Decl ρ σ → List σ
  | function decl => decl.body.toList
  | directive _ | precision _ _ | struct _ | vars _ => []

/-- The initial values of variables. -/
def inits : Decl ρ σ → List ρ
  | vars decl => decl.inits
  | directive _ | precision _ _ | struct _ | function _ => []

@[simp] theorem bodies_map (f : ρ → ρ') (g : σ → σ') (d : Decl ρ σ) :
    (d.map f g).bodies = d.bodies.map g := by
  cases d with
  | function decl => cases h : decl.body <;> simp [map, bodies, h]
  | _ => rfl

@[simp] theorem inits_map (f : ρ → ρ') (g : σ → σ') (d : Decl ρ σ) :
    (d.map f g).inits = d.inits.map f := by
  cases d with
  | vars decl => exact VarDecl.inits_map f decl
  | _ => rfl

theorem map_map (f : ρ → ρ') (g : σ → σ') (f' : ρ' → ρ'') (g' : σ' → σ'') (d : Decl ρ σ) :
    (d.map f g).map f' g' = d.map (f' ∘ f) (g' ∘ g) := by
  cases d with
  | vars decl => simp [map, VarDecl.map_map]
  | _ => simp [map]

theorem map_id (d : Decl ρ σ) : d.map id id = d := by
  cases d with
  | vars decl => exact congrArg vars decl.map_id
  | _ => simp [map]

theorem map_congr {f f' : ρ → ρ'} {g g' : σ → σ'} {d : Decl ρ σ}
    (hf : ∀ e ∈ d.inits, f e = f' e) (hg : ∀ t ∈ d.bodies, g t = g' t) :
    d.map f g = d.map f' g' := by
  cases d with
  | vars decl => simp only [map, VarDecl.map_congr hf]
  | function decl => cases h : decl.body <;> simp_all [map, bodies]
  | _ => rfl

end Decl

namespace Expr

variable {ε : Type}

/-- Induction on an expression, with all its parts at once. -/
@[elab_as_elim, induction_eliminator]
theorem induction {motive : Expr ε → Prop}
    (node : ∀ tag form, (∀ c ∈ form.children, motive c) → motive (.node tag form))
    (e : Expr ε) : motive e := by
  refine @Expr.rec ε motive (fun form => ∀ c ∈ form.children, motive c)
    (fun l => ∀ c ∈ l, motive c) node ?_ ?_ ?_ ?_ ?_ ?_ ?_ ?_ ?_ ?_ ?_ e <;>
    grind [ExprNode.children]

theorem eraseAll_eq_map (l : List (Expr ε)) : eraseAll l = l.map erase := by
  induction l with
  | nil => rfl
  | cons e rest ih => rw [eraseAll, ih, List.map_cons]

theorem erase_node (tag : ε) (form : ExprNode (Expr ε)) :
    (node tag form).erase = node () (form.map erase) := by
  cases form <;> simp [erase, ExprNode.map, eraseAll_eq_map]

theorem visitsAll_eq_flatMap (depth : Nat) (l : List (Expr ε)) :
    visitsAll depth l = l.flatMap (visits depth) := by
  induction l with
  | nil => rfl
  | cons e rest ih => rw [visitsAll, ih, List.flatMap_cons]

theorem visits_node (depth : Nat) (tag : ε) (form : ExprNode (Expr ε)) :
    (node tag form).visits depth =
      (depth, node tag form) :: form.children.flatMap (visits (depth + 1)) := by
  cases form <;> simp [visits, ExprNode.children, visitsAll_eq_flatMap]

/-- What is visited does not depend on the depth that the visit starts at. -/
theorem map_snd_visits (depth : Nat) (e : Expr ε) :
    (e.visits depth).map Prod.snd = e.subexprs := by
  induction e generalizing depth with
  | node tag form ih =>
      have hparts : ∀ d, (form.children.flatMap (visits d)).map Prod.snd =
          form.children.flatMap subexprs := by
        intro d
        rw [List.map_flatMap]
        exact List.flatMap_congr fun c hc => ih c hc d
      rw [subexprs, visits_node, visits_node, List.map_cons, List.map_cons, hparts, hparts]

theorem subexprs_node (tag : ε) (form : ExprNode (Expr ε)) :
    (node tag form).subexprs = node tag form :: form.children.flatMap subexprs := by
  rw [subexprs, visits_node, List.map_cons, List.map_flatMap]
  congr 1
  exact List.flatMap_congr fun c _ => map_snd_visits _ c

theorem mem_subexprs_trans {e e' e'' : Expr ε} (h : e' ∈ e.subexprs) (h' : e'' ∈ e'.subexprs) :
    e'' ∈ e.subexprs := by
  induction e with
  | node tag form ih =>
      rw [subexprs_node, List.mem_cons] at h
      rcases h with rfl | h
      · exact h'
      · obtain ⟨c, hc, hec⟩ := List.mem_flatMap.mp h
        rw [subexprs_node]
        exact List.mem_cons_of_mem _ (List.mem_flatMap.mpr ⟨c, hc, ih c hc hec⟩)

theorem mem_subexprs_self (e : Expr ε) : e ∈ e.subexprs := by
  cases e with
  | node tag form => simp [subexprs_node]

theorem subexprs_erase (e : Expr ε) : e.erase.subexprs = e.subexprs.map erase := by
  induction e with
  | node tag form ih =>
      rw [erase_node, subexprs_node, subexprs_node, List.map_cons, erase_node, List.map_flatMap,
        ExprNode.children_map, List.flatMap_map, List.flatMap_congr ih]

end Expr

namespace Stmt

variable {ε σ : Type}

/-- Induction on a statement, with all statements directly below it at once. -/
@[elab_as_elim, induction_eliminator]
theorem induction {motive : Stmt ε σ → Prop}
    (node : ∀ tag form, (∀ t ∈ form.childStmts, motive t) → motive (.node tag form))
    (s : Stmt ε σ) : motive s := by
  refine @Stmt.rec ε σ motive (fun form => ∀ t ∈ form.childStmts, motive t)
    (fun l => ∀ t ∈ l, motive t) (fun o => ∀ t ∈ o, motive t) node
    ?_ ?_ ?_ ?_ ?_ ?_ ?_ ?_ ?_ ?_ ?_ ?_ ?_ ?_ ?_ ?_ s <;>
    grind [StmtNode.childStmts]

theorem eraseAll_eq_map (l : List (Stmt ε σ)) : eraseAll l = l.map erase := by
  induction l with
  | nil => rfl
  | cons s rest ih => rw [eraseAll, ih, List.map_cons]

theorem erase_node (tag : σ) (form : StmtNode (Expr ε) (Stmt ε σ)) :
    (node tag form).erase = node () (form.map Expr.erase erase) := by
  cases form with
  | ifElse cond onTrue onFalse => cases onFalse <;> simp [erase, StmtNode.map]
  | _ => simp [erase, StmtNode.map, eraseAll_eq_map]

theorem visitsAll_eq_flatMap (depth : Nat) (l : List (Stmt ε σ)) :
    visitsAll depth l = l.flatMap (visits depth) := by
  induction l with
  | nil => rfl
  | cons s rest ih => rw [visitsAll, ih, List.flatMap_cons]

theorem visits_node (depth : Nat) (tag : σ) (form : StmtNode (Expr ε) (Stmt ε σ)) :
    (node tag form).visits depth =
      (depth, node tag form) :: form.childStmts.flatMap (visits (depth + 1)) := by
  cases form with
  | ifElse cond onTrue onFalse => cases onFalse <;> simp [visits, StmtNode.childStmts]
  | _ => simp [visits, StmtNode.childStmts, visitsAll_eq_flatMap]

/-- The statement and all statements below it. -/
def substmts (s : Stmt ε σ) : List (Stmt ε σ) :=
  (s.visits 0).map Prod.snd

/-- What is visited does not depend on the depth that the visit starts at. -/
theorem map_snd_visits (depth : Nat) (s : Stmt ε σ) :
    (s.visits depth).map Prod.snd = s.substmts := by
  induction s generalizing depth with
  | node tag form ih =>
      have hparts : ∀ d, (form.childStmts.flatMap (visits d)).map Prod.snd =
          form.childStmts.flatMap substmts := by
        intro d
        rw [List.map_flatMap]
        exact List.flatMap_congr fun t ht => ih t ht d
      rw [substmts, visits_node, visits_node, List.map_cons, List.map_cons, hparts, hparts]

theorem substmts_node (tag : σ) (form : StmtNode (Expr ε) (Stmt ε σ)) :
    (node tag form).substmts = node tag form :: form.childStmts.flatMap substmts := by
  rw [substmts, visits_node, List.map_cons, List.map_flatMap]
  congr 1
  exact List.flatMap_congr fun t _ => map_snd_visits _ t

theorem mem_substmts_trans {t t' t'' : Stmt ε σ} (h : t' ∈ t.substmts) (h' : t'' ∈ t'.substmts) :
    t'' ∈ t.substmts := by
  induction t with
  | node tag form ih =>
      rw [substmts_node] at h ⊢
      rcases List.mem_cons.mp h with rfl | h
      · rwa [substmts_node] at h'
      · obtain ⟨c, hc, h⟩ := List.mem_flatMap.mp h
        exact List.mem_cons_of_mem _ (List.mem_flatMap.mpr ⟨c, hc, ih c hc h⟩)

theorem mem_substmts_self (t : Stmt ε σ) : t ∈ t.substmts := by
  cases t with
  | node tag form => simp [substmts_node]

theorem substmts_erase (s : Stmt ε σ) : s.erase.substmts = s.substmts.map erase := by
  induction s with
  | node tag form ih =>
      rw [erase_node, substmts_node, substmts_node, List.map_cons, erase_node, List.map_flatMap,
        StmtNode.childStmts_map, List.flatMap_map, List.flatMap_congr ih]

theorem form_erase (s : Stmt ε σ) : s.erase.form = s.form.map Expr.erase erase := by
  cases s with
  | node tag form =>
      rw [erase_node]
      rfl

theorem exprVisitsAll_eq_flatMap (depth : Nat) (l : List (Stmt ε σ)) :
    exprVisitsAll depth l = l.flatMap (exprVisits depth) := by
  induction l with
  | nil => rfl
  | cons s rest ih => rw [exprVisitsAll, ih, List.flatMap_cons]

/-- The expressions of a statement are those of its own parts and those of the statements below it,
in some order. -/
theorem exprVisits_node_perm (depth : Nat) (tag : σ) (form : StmtNode (Expr ε) (Stmt ε σ)) :
    (node tag form).exprVisits depth |>.Perm
      (form.childExprs.flatMap (Expr.visits (depth + 1)) ++
        form.childStmts.flatMap (exprVisits (depth + 1))) := by
  cases form with
  | ifElse cond onTrue onFalse =>
      cases onFalse <;> simp [exprVisits, StmtNode.childExprs, StmtNode.childStmts]
  | forLoop start cond step body =>
      simp only [exprVisits, StmtNode.childExprs, StmtNode.childStmts, List.flatMap_append,
        List.flatMap_cons, List.flatMap_nil, List.append_nil, ← List.append_assoc]
      refine List.Perm.append_right _ ?_
      rw [List.append_assoc]
      exact List.perm_append_comm
  | doWhile body cond =>
      simpa [exprVisits, StmtNode.childExprs, StmtNode.childStmts] using List.perm_append_comm
  | _ => simp [exprVisits, StmtNode.childExprs, StmtNode.childStmts, exprVisitsAll_eq_flatMap]

/-- The expressions of a statement, those of each statement together. -/
theorem map_snd_exprVisits_perm (depth : Nat) (s : Stmt ε σ) :
    ((s.exprVisits depth).map Prod.snd).Perm
      (s.substmts.flatMap fun t => t.form.childExprs.flatMap Expr.subexprs) := by
  induction s generalizing depth with
  | node tag form ih =>
      have hown : (form.childExprs.flatMap (Expr.visits (depth + 1))).map Prod.snd =
          form.childExprs.flatMap Expr.subexprs := by
        rw [List.map_flatMap]
        exact List.flatMap_congr fun e _ => Expr.map_snd_visits _ e
      have hbelow : ((form.childStmts.flatMap (exprVisits (depth + 1))).map Prod.snd).Perm
          ((form.childStmts.flatMap substmts).flatMap fun t =>
            t.form.childExprs.flatMap Expr.subexprs) := by
        rw [List.map_flatMap, List.flatMap_assoc]
        exact List.Perm.flatMap_left _ fun t ht => ih t ht (depth + 1)
      refine ((exprVisits_node_perm depth tag form).map Prod.snd).trans ?_
      rw [List.map_append, hown, substmts_node, List.flatMap_cons]
      exact List.Perm.append_left _ hbelow

end Stmt

namespace DeclTree

variable {ε σ : Type}

theorem stmtVisits_eq_flatMap (d : DeclTree ε σ) :
    d.stmtVisits = d.bodies.flatMap (Stmt.visits 1) := by
  cases d <;> rfl

theorem map_snd_stmtVisits (d : DeclTree ε σ) :
    d.stmtVisits.map Prod.snd = d.bodies.flatMap Stmt.substmts := by
  rw [stmtVisits_eq_flatMap, List.map_flatMap]
  exact List.flatMap_congr fun t _ => Stmt.map_snd_visits _ t

/-- The expressions of a declaration: those of its initial values, and those of the statements in
it, in some order. -/
theorem map_snd_exprVisits_perm (d : DeclTree ε σ) :
    (d.exprVisits.map Prod.snd).Perm
      (d.inits.flatMap Expr.subexprs ++ (d.stmtVisits.map Prod.snd).flatMap fun t =>
        t.form.childExprs.flatMap Expr.subexprs) := by
  rw [map_snd_stmtVisits, List.flatMap_assoc]
  cases d with
  | function decl =>
      simp only [exprVisits, Decl.inits, Decl.bodies, List.flatMap_nil, List.nil_append,
        List.map_flatMap]
      exact List.Perm.flatMap_left _ fun t _ => Stmt.map_snd_exprVisits_perm 1 t
  | vars decl =>
      simp only [exprVisits, Decl.inits, Decl.bodies, List.flatMap_nil, List.append_nil,
        List.map_flatMap]
      rw [List.flatMap_congr fun e _ => Expr.map_snd_visits 1 e]
  | _ => simp [exprVisits, Decl.inits, Decl.bodies]

/-- What is below an expression that is visited is visited too. -/
theorem mem_exprVisits_of_mem_subexprs {d : DeclTree ε σ} {e sub : Expr ε}
    (he : e ∈ d.exprVisits.map Prod.snd) (hsub : sub ∈ e.subexprs) :
    sub ∈ d.exprVisits.map Prod.snd := by
  have htrans : ∀ es : List (Expr ε), e ∈ es.flatMap Expr.subexprs →
      sub ∈ es.flatMap Expr.subexprs := by
    intro es he
    obtain ⟨root, hroot, he⟩ := List.mem_flatMap.mp he
    exact List.mem_flatMap.mpr ⟨root, hroot, Expr.mem_subexprs_trans he hsub⟩
  rw [(map_snd_exprVisits_perm d).mem_iff, List.mem_append] at he ⊢
  rcases he with he | he
  · exact Or.inl (htrans _ he)
  · obtain ⟨t, ht, he⟩ := List.mem_flatMap.mp he
    exact Or.inr (List.mem_flatMap.mpr ⟨t, ht, htrans _ he⟩)

theorem map_snd_stmtVisits_erase (d : DeclTree ε σ) :
    d.erase.stmtVisits.map Prod.snd = (d.stmtVisits.map Prod.snd).map Stmt.erase := by
  rw [map_snd_stmtVisits, map_snd_stmtVisits, erase, Decl.bodies_map, List.flatMap_map,
    List.map_flatMap]
  exact List.flatMap_congr fun t _ => Stmt.substmts_erase t

/-- What is visited does not depend on the tags. -/
theorem map_snd_exprVisits_erase_perm (d : DeclTree ε σ) :
    (d.erase.exprVisits.map Prod.snd).Perm ((d.exprVisits.map Prod.snd).map Expr.erase) := by
  refine (map_snd_exprVisits_perm d.erase).trans
    (List.Perm.trans ?_ ((map_snd_exprVisits_perm d).map Expr.erase).symm)
  have hexprs : ∀ es : List (Expr ε), (es.map Expr.erase).flatMap Expr.subexprs =
      (es.flatMap Expr.subexprs).map Expr.erase := by
    intro es
    rw [List.flatMap_map, List.map_flatMap]
    exact List.flatMap_congr fun e _ => Expr.subexprs_erase e
  rw [List.map_append, map_snd_stmtVisits_erase, List.flatMap_map, erase, Decl.inits_map, hexprs]
  refine List.Perm.append_left _ (List.Perm.of_eq ?_)
  rw [List.map_flatMap]
  refine List.flatMap_congr fun t _ => ?_
  rw [Stmt.form_erase, StmtNode.childExprs_map, hexprs]

end DeclTree

end ShaderReducer
