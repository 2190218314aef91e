import Mathlib.Data.List.Forall2
import ShaderReducer.Proofs.Shader.Renumbered
import ShaderReducer.Proofs.Syntax.Bare
import ShaderReducer.Proofs.Syntax.Printed

/-!
# Comparing shaders

A shader whose nodes form finite trees stands for nested syntax: each number is replaced by the node
that it names, and each pair of parentheses by what is in it. `Shader.Erases` says so without reading
any trees. Two such shaders agree exactly if they are for the same dialect and stand for the same
syntax, so that agreement is an equivalence.

An expression of a shader whose nodes form a finite tree, with names and literals that are tokens,
is read off the shader to its end, whatever the other slots hold: a way down that were longer than
the arena would meet a slot twice, and a slot that there is none of holds no name.
-/

namespace ShaderReducer

/-! ## Ways down that end -/

section Ways

variable {α : Type} {parts : α → List α}

/-- No way down from a node meets more than a number of nodes. -/
inductive Within (parts : α → List α) : Nat → α → Prop
  | node {depth : Nat} {a : α} (hparts : ∀ b ∈ parts a, Within parts depth b) :
    Within parts (depth + 1) a

/-- Where all ways down end, a node is not below itself. -/
theorem not_below_self_of_acc {a : α} (h : Acc (fun b a => b ∈ parts a) a) :
    ¬ Relation.TransGen (fun a b => b ∈ parts a) a a := by
  induction h with
  | intro a _ ih =>
    intro hbelow
    obtain ⟨b, hb, hfrom⟩ := Relation.TransGen.head'_iff.mp hbelow
    exact ih b hb (Relation.TransGen.tail' hfrom hb)

variable {index : α → Nat} {size : Nat} (hinjective : Function.Injective index)
include hinjective

/-- What a way down has met leaves no room for one that is as long as there are slots besides. -/
theorem within_of_met {a : α} (h : Acc (fun b a => b ∈ parts a) a)
    (hslots : ∀ b, Relation.ReflTransGen (fun a b => b ∈ parts a) a b → index b < size)
    {above : List α} {depth : Nat}
    (habove : ∀ b ∈ above, Relation.TransGen (fun a b => b ∈ parts a) b a) (hnodup : above.Nodup)
    (hlt : ∀ b ∈ above, index b < size) (hdepth : size ≤ above.length + depth) :
    Within parts depth a := by
  have hnew : (a :: above).Nodup :=
    List.nodup_cons.mpr ⟨fun ha => not_below_self_of_acc h (habove a ha), hnodup⟩
  have hnewlt : ∀ b ∈ a :: above, index b < size := List.forall_mem_cons.mpr ⟨hslots a .refl, hlt⟩
  induction depth generalizing a above with
  | zero =>
    have hlength := Shader.length_le_of_nodup hinjective hnew hnewlt
    rw [List.length_cons] at hlength
    omega
  | succ depth ih =>
    refine .node fun c hc => ?_
    have hbelow : ∀ b ∈ a :: above, Relation.TransGen (fun a b => b ∈ parts a) b c := by
      rintro b (_ | ⟨_, hb⟩)
      · exact .single hc
      · exact (habove b hb).tail hc
    have hslots' := fun d hd => hslots d (.head hc hd)
    have hpart := h.inv hc
    exact ih hpart hslots' hbelow hnew hnewlt (by rw [List.length_cons]; omega)
      (List.nodup_cons.mpr ⟨fun hmem => not_below_self_of_acc hpart (hbelow c hmem), hnew⟩)
      (List.forall_mem_cons.mpr ⟨hslots' c .refl, hnewlt⟩)

/-- A tree is no deeper than there are slots. -/
theorem within_size {a : α} (h : Acc (fun b a => b ∈ parts a) a)
    (hslots : ∀ b, Relation.ReflTransGen (fun a b => b ∈ parts a) a b → index b < size) :
    Within parts size a :=
  within_of_met hinjective h hslots (List.forall_mem_nil _) .nil (List.forall_mem_nil _)
    (by rw [List.length_nil, Nat.zero_add])

end Ways

namespace Shader

variable {s : Shader} {id : ExprId}

/-- An expression is another one or below it. -/
def ExprFrom (s : Shader) : ExprId → ExprId → Prop :=
  Relation.ReflTransGen fun id part => part ∈ s.exprParts id

/-- No way down from an expression goes on without end. -/
def FiniteBelow (s : Shader) (id : ExprId) : Prop :=
  Acc (fun part id => part ∈ s.exprParts id) id

/-- The nodes at and below an expression form a finite tree, their names are identifiers and their
literals are tokens, and no member stands directly on a literal of nothing but decimal digits. -/
structure IsExprTree (s : Shader) (id : ExprId) : Prop where
  finite : s.FiniteBelow id
  valid : ∀ c, s.ExprFrom id c → (s.expr c).Valid Literal.IsGenuine
  apart : ∀ c base field, s.ExprFrom id c → s.expr c = .member base field →
    (s.expr base).isDecimal = false

/-- A tree that is read deep enough holds what its slots hold. -/
theorem readExpr_complete {depth : Nat} (h : Within s.exprParts depth id) :
    ∀ e ∈ (s.readExpr depth id).subexprs,
      s.ExprFrom id e.tag ∧ s.expr e.tag = e.form.map Expr.tag := by
  induction h with
  | @node depth id hparts ih =>
    rw [readExpr, Expr.subexprs_node, ExprNode.children_map, List.flatMap_map]
    intro e he
    rcases List.mem_cons.mp he with rfl | he
    · refine ⟨.refl, ?_⟩
      rw [Expr.tag, Expr.form, ExprNode.map_map]
      exact (ExprNode.map_id _).symm.trans
        (ExprNode.map_congr fun c _ => (tag_readExpr s depth c).symm)
    · obtain ⟨c, hc, he⟩ := List.mem_flatMap.mp he
      obtain ⟨hfrom, heq⟩ := ih c hc e he
      exact ⟨.head hc hfrom, heq⟩

namespace IsExprTree

theorem filled (h : s.IsExprTree id) {c : ExprId} (hc : s.ExprFrom id c) :
    c.index < s.exprs.size := by
  by_contra hsize
  have hvalid := h.valid c hc
  rw [expr_of_size_le (Nat.le_of_not_lt hsize)] at hvalid
  exact IsToken.ne_nil hvalid rfl

/-- The tree of an expression holds what its slots hold. -/
theorem form_eq (h : s.IsExprTree id) {e : Expr ExprId} (he : e ∈ (s.exprTree id).subexprs) :
    s.ExprFrom id e.tag ∧ s.expr e.tag = e.form.map Expr.tag :=
  readExpr_complete (within_size ExprId.index_injective h.finite fun _ hc => h.filled hc) e he

theorem valid_exprTree (h : s.IsExprTree id) : (s.exprTree id).Valid Literal.IsGenuine := by
  intro e he
  obtain ⟨hfrom, heq⟩ := h.form_eq he
  have hvalid := h.valid e.tag hfrom
  rwa [heq, ExprNode.valid_map] at hvalid

theorem not_glues_exprTree (h : s.IsExprTree id) : ¬ (s.exprTree id).Glues := by
  rintro ⟨⟨tag, form⟩, he, hglued⟩
  obtain ⟨hfrom, heq⟩ := h.form_eq he
  cases form with
  | member base field =>
    have hbase : base ∈ (Expr.node tag (.member base field)).subexprs := by
      rw [Expr.subexprs_node]
      exact List.mem_cons_of_mem _ (List.mem_flatMap.mpr
        ⟨base, List.mem_cons_self, base.mem_subexprs_self⟩)
    have hplain := h.apart tag base.tag field hfrom heq
    rw [(h.form_eq (Expr.mem_subexprs_trans he hbase)).2, ExprNode.isDecimal_map] at hplain
    exact Bool.false_ne_true (hplain.symm.trans hglued)
  | _ => cases hglued

end IsExprTree

end Shader

theorem ExprNode.isParen_map {ρ τ : Type} (f : ρ → τ) (e : ExprNode ρ) :
    (e.map f).isParen = e.isParen := by
  cases e <;> rfl

theorem ExprNode.exists_of_isParen {ρ : Type} {e : ExprNode ρ} (h : e.isParen = true) :
    ∃ inner, e = .paren inner := by
  cases e <;> first | exact ⟨_, rfl⟩ | cases h

namespace Shader

variable (s : Shader)

/-! ## Shaders that are finite -/

/-- The nodes at and below an expression are slots and form a finite tree. -/
inductive FiniteExpr : ExprId → Prop
  | node {id : ExprId} (hslot : id.index < s.exprs.size)
    (hparts : ∀ c ∈ s.exprParts id, FiniteExpr c) : FiniteExpr id

/-- The nodes at and below a statement are slots and form a finite tree. -/
inductive FiniteStmt : StmtId → Prop
  | node {id : StmtId} (hslot : id.index < s.stmts.size)
    (hexprs : ∀ e ∈ (s.stmt id).childExprs, s.FiniteExpr e)
    (hparts : ∀ t ∈ s.stmtParts id, FiniteStmt t) : FiniteStmt id

/-- The nodes that the declarations reach are slots and form finite trees. -/
structure IsFinite : Prop where
  slots : ∀ d ∈ s.decls, d.index < s.declNodes.size
  inits : ∀ d ∈ s.decls, ∀ e ∈ (s.decl d).inits, s.FiniteExpr e
  bodies : ∀ d ∈ s.decls, ∀ t ∈ (s.decl d).bodies, s.FiniteStmt t

/-! ## The syntax that a shader stands for -/

/-- The syntax that an expression stands for, without parentheses. -/
inductive ErasesExpr : ExprId → Expr Unit → Prop
  | paren {id inner : ExprId} {e : Expr Unit} (hid : s.expr id = .paren inner)
    (hinner : ErasesExpr inner e) : ErasesExpr id e
  | node {id : ExprId} {f : ExprId → Expr Unit} (hid : (s.expr id).isParen = false)
    (hparts : ∀ c ∈ s.exprParts id, ErasesExpr c (f c)) :
    ErasesExpr id (.node () ((s.expr id).map f))

/-- The syntax that a statement stands for, without parentheses. -/
inductive ErasesStmt : StmtId → Stmt Unit Unit → Prop
  | node {id : StmtId} {f : ExprId → Expr Unit} {g : StmtId → Stmt Unit Unit}
    (hexprs : ∀ e ∈ (s.stmt id).childExprs, s.ErasesExpr e (f e))
    (hparts : ∀ t ∈ s.stmtParts id, ErasesStmt t (g t)) :
    ErasesStmt id (.node () ((s.stmt id).map f g))

/-- The syntax that a declaration stands for, without parentheses. -/
inductive ErasesDecl : DeclId → DeclTree Unit Unit → Prop
  | node {d : DeclId} {f : ExprId → Expr Unit} {g : StmtId → Stmt Unit Unit}
    (hinits : ∀ e ∈ (s.decl d).inits, s.ErasesExpr e (f e))
    (hbodies : ∀ t ∈ (s.decl d).bodies, s.ErasesStmt t (g t)) :
    ErasesDecl d ((s.decl d).map f g)

/-- The declarations that a shader stands for, without parentheses. -/
def Erases (ds : List (DeclTree Unit Unit)) : Prop :=
  List.Forall₂ s.ErasesDecl s.decls ds

variable {s}

theorem ErasesExpr.unique {id : ExprId} {e e' : Expr Unit} (h : s.ErasesExpr id e)
    (h' : s.ErasesExpr id e') : e = e' := by
  induction h generalizing e' with
  | paren hid hinner ih =>
    cases h' with
    | paren hid' hinner' =>
      cases hid.symm.trans hid'
      exact ih hinner'
    | node hid' hparts' =>
      rw [hid] at hid'
      cases hid'
  | node hid hparts ih =>
    cases h' with
    | paren hid' hinner' =>
      rw [hid'] at hid
      cases hid
    | node hid' hparts' =>
      exact congrArg (Expr.node ()) (ExprNode.map_congr fun c hc => ih c hc (hparts' c hc))

theorem ErasesStmt.unique {id : StmtId} {t t' : Stmt Unit Unit} (h : s.ErasesStmt id t)
    (h' : s.ErasesStmt id t') : t = t' := by
  induction h generalizing t' with
  | node hexprs hparts ih =>
    obtain ⟨hexprs', hparts'⟩ := h'
    exact congrArg (Stmt.node ()) (StmtNode.map_congr
      (fun e he => (hexprs e he).unique (hexprs' e he)) fun t ht => ih t ht (hparts' t ht))

theorem ErasesDecl.rightUnique : Relator.RightUnique s.ErasesDecl := by
  rintro d _ _ ⟨hinits, hbodies⟩ ⟨hinits', hbodies'⟩
  exact Decl.map_congr (fun e he => (hinits e he).unique (hinits' e he))
    fun t ht => (hbodies t ht).unique (hbodies' t ht)

theorem Erases.unique {ds ds' : List (DeclTree Unit Unit)} (h : s.Erases ds) (h' : s.Erases ds') :
    ds = ds' :=
  ErasesDecl.rightUnique.forall₂ h h'

/-! ## What is read off a finite shader -/

namespace FiniteExpr

variable {id : ExprId}

theorem finiteBelow (h : s.FiniteExpr id) : s.FiniteBelow id := by
  induction h with
  | node _ _ ih => exact .intro _ ih

theorem slot_of_exprFrom (h : s.FiniteExpr id) {c : ExprId} (hc : s.ExprFrom id c) :
    c.index < s.exprs.size := by
  induction h with
  | node hslot _ ih =>
    obtain rfl | ⟨d, hd, hc⟩ := hc.cases_head
    · exact hslot
    · exact ih d hd hc

theorem within (h : s.FiniteExpr id) : Within s.exprParts s.exprs.size id :=
  within_size ExprId.index_injective h.finiteBelow fun _ hc => h.slot_of_exprFrom hc

theorem erases_readExpr {depth : Nat} (h : Within s.exprParts depth id) :
    s.ErasesExpr id (s.readExpr depth id).bare := by
  induction h with
  | @node depth id hparts ih =>
    rw [readExpr]
    cases hid : (s.expr id).isParen with
    | true =>
      obtain ⟨inner, hinner⟩ := ExprNode.exists_of_isParen hid
      rw [hinner]
      exact .paren hinner (ih inner (by rw [exprParts, hinner]; exact List.mem_cons_self))
    | false =>
      rw [Expr.bare_node _ ((ExprNode.isParen_map _ _).trans hid), ExprNode.map_map]
      exact .node hid ih

theorem erases (h : s.FiniteExpr id) : s.ErasesExpr id (s.exprTree id).bare :=
  erases_readExpr h.within

end FiniteExpr

namespace FiniteStmt

variable {id : StmtId}

theorem within (h : s.FiniteStmt id) : Within s.stmtParts s.stmts.size id := by
  refine within_size StmtId.index_injective ?_ ?_
  · induction h with
    | node _ _ _ ih => exact .intro _ ih
  · intro c hc
    induction h with
    | node hslot _ _ ih =>
      obtain rfl | ⟨d, hd, hc⟩ := hc.cases_head
      · exact hslot
      · exact ih d hd hc

theorem erases_readStmt {depth : Nat} (h : Within s.stmtParts depth id) (hid : s.FiniteStmt id) :
    s.ErasesStmt id (s.readStmt depth id).bare := by
  induction h with
  | node hparts ih =>
    obtain ⟨-, hexprs, hstmts⟩ := hid
    rw [readStmt, Stmt.bare_node, StmtNode.map_map]
    exact .node (fun e he => (hexprs e he).erases) fun t ht => ih t ht (hstmts t ht)

theorem erases (h : s.FiniteStmt id) : s.ErasesStmt id (s.stmtTree id).bare :=
  erases_readStmt h.within h

end FiniteStmt

theorem IsFinite.erases (h : s.IsFinite) : s.Erases (s.declTrees.map DeclTree.bare) := by
  rw [Erases, declTrees, List.map_map, List.forall₂_map_right_iff, List.forall₂_same]
  intro d hd
  rw [Function.comp_apply, DeclTree.bare_eq_map, declTree, Decl.map_map]
  exact .node (fun e he => (h.inits d hd e he).erases) fun t ht => (h.bodies d hd t ht).erases

/-! ## Agreement -/

theorem IsFinite.erases_iff (h : s.IsFinite) {ds : List (DeclTree Unit Unit)} :
    s.Erases ds ↔ ds = s.declTrees.map DeclTree.bare := by
  refine ⟨fun hds => hds.unique h.erases, ?_⟩
  rintro rfl
  exact h.erases

/-- A finite shader stands for one row of declarations. Two of them agree exactly if they are for the
same dialect, which is that of version 110 where none is named, and stand for the same declarations;
so agreement is an equivalence. -/
theorem agrees_iff_erases :
    (∀ a b : Shader, a.IsFinite → b.IsFinite → ∃ ds es,
      (∀ xs, a.Erases xs ↔ xs = ds) ∧ (∀ xs, b.Erases xs ↔ xs = es) ∧
      (a.agrees b = true ↔
        a.version.getD ⟨110, false⟩ = b.version.getD ⟨110, false⟩ ∧ ds = es)) ∧
    Equivalence fun a b : { s : Shader // s.IsFinite } => a.val.agrees b.val = true := by
  refine ⟨fun a b ha hb => ⟨_, _, fun _ => ha.erases_iff, fun _ => hb.erases_iff, ?_⟩, ?_, ?_, ?_⟩
  · rw [agrees_iff, bare_toProgram, bare_toProgram, Prod.mk.injEq]
    rfl
  · exact fun a => (agrees_iff _ _).mpr rfl
  · exact fun hab => (agrees_iff _ _).mpr ((agrees_iff _ _).mp hab).symm
  · exact fun hab hbc => (agrees_iff _ _).mpr
      (((agrees_iff _ _).mp hab).trans ((agrees_iff _ _).mp hbc))

/-- A variable whose initial value is a number or, in another slot, that number in parentheses. -/
def oneVariable (value : ExprId) : Shader where
  decls := [⟨0⟩]
  exprs := ⟨#[⟨.literal (.int "1"), true⟩, ⟨.paren ⟨0⟩, true⟩]⟩
  declNodes := ⟨#[⟨.vars ⟨⟨[], "int"⟩, [⟨"a", none, some value⟩]⟩, true⟩]⟩

/-- Parentheses around a value are not seen. -/
theorem agrees_oneVariable : ∃ ds, (oneVariable ⟨1⟩).Erases ds ∧ (oneVariable ⟨0⟩).Erases ds ∧
    (oneVariable ⟨1⟩).agrees (oneVariable ⟨0⟩) = true := by
  have hfinite : ∀ value, (oneVariable value).FiniteExpr value → (oneVariable value).IsFinite := by
    intro value hvalue
    refine ⟨?_, ?_, ?_⟩
    · rintro _ (_ | ⟨_, ⟨⟩⟩)
      exact Nat.one_pos
    · rintro _ (_ | ⟨_, ⟨⟩⟩) e he
      obtain rfl := List.mem_singleton.mp he
      exact hvalue
    · rintro _ (_ | ⟨_, ⟨⟩⟩) t ⟨⟩
  have hplain : ∀ value, (oneVariable value).FiniteExpr ⟨0⟩ :=
    fun value => .node Nat.two_pos (List.forall_mem_nil _)
  have hparens : (oneVariable ⟨1⟩).FiniteExpr ⟨1⟩ :=
    .node Nat.one_lt_two (List.forall_mem_singleton.mpr (hplain _))
  obtain ⟨ds, es, hds, hes, hiff⟩ :=
    agrees_iff_erases.1 _ _ (hfinite _ hparens) (hfinite _ (hplain _))
  have hagrees : (oneVariable ⟨1⟩).agrees (oneVariable ⟨0⟩) = true := by decide
  obtain ⟨-, rfl⟩ := hiff.mp hagrees
  exact ⟨ds, (hds ds).mpr rfl, (hes ds).mpr rfl, hagrees⟩

end Shader

end ShaderReducer
