import ShaderReducer.Proofs.Opportunity.InlineTypes
import ShaderReducer.Proofs.Opportunity.Lighter
import ShaderReducer.Proofs.Opportunity.Pruning
import ShaderReducer.Proofs.Syntax.Bare

/-!
# Changes that change something

Two shaders agree if they have the same syntax, whatever their slots and parentheses. A change that
is found makes a shader that does not agree with the one it was found in, with one exception: the
constant that is put in the place of a constructor whose argument is the same literal in
parentheses.

Statements are weighed, for a change to statements takes weight away and shaders that agree weigh
the same. A change to an expression is followed down from the declarations: where two shaders agree
and nodes differ in one slot only, the trees of that slot agree.
-/

namespace ShaderReducer

namespace Expr

variable {ε : Type}

/-- The number of nodes of an expression. -/
def size (e : Expr ε) : Nat :=
  e.subexprs.length

theorem size_node (tag : ε) (form : ExprNode (Expr ε)) :
    (node tag form).size = (form.children.map size).sum + 1 := by
  rw [size, subexprs_node, List.length_cons, List.length_flatMap]
  rfl

/-- An operand is smaller than the operation. -/
theorem size_lt_of_mem_children {tag : ε} {form : ExprNode (Expr ε)} {e : Expr ε}
    (he : e ∈ form.children) : e.size < (node tag form).size := by
  rw [size_node]
  exact Nat.lt_succ_of_le (List.single_le_sum (fun _ _ => Nat.zero_le _) _ (List.mem_map_of_mem he))

end Expr

/-- Programs that are the same without tags and parentheses have statements of the same weight. -/
theorem Program.sum_stmtVisits_of_bare_eq {p q : Program} (h : p.bare = q.bare) :
    ((p.decls.flatMap DeclTree.stmtVisits).map fun v => v.2.form.weight).sum =
      ((q.decls.flatMap DeclTree.stmtVisits).map fun v => v.2.form.weight).sum := by
  have hdecl : ∀ d : DeclTree Unit Unit, (d.stmtVisits.map fun v => v.2.form.weight) =
      (DeclTree.bare d).stmtVisits.map fun v => v.2.form.weight := by
    intro d
    have hvisits : ∀ d : DeclTree Unit Unit, (d.stmtVisits.map fun v => v.2.form.weight) =
        (d.bodies.flatMap Stmt.substmts).map fun t => t.form.weight := by
      intro d
      rw [← DeclTree.map_snd_stmtVisits, List.map_map]
      rfl
    have hform : ∀ t : Stmt Unit Unit, t.bare.form.weight = t.form.weight := by
      rintro ⟨tag, form⟩
      rw [Stmt.bare_node, Stmt.form, Stmt.form, StmtNode.weight_map]
    rw [hvisits, hvisits, DeclTree.bare_eq_map, Decl.bodies_map, List.flatMap_map, List.map_flatMap,
      List.map_flatMap]
    refine List.flatMap_congr fun t _ => ?_
    rw [Stmt.substmts_bare, List.map_map]
    exact List.map_congr_left fun t _ => (hform t).symm
  have hdecls : ∀ r : Program,
      ((r.decls.flatMap DeclTree.stmtVisits).map fun v => v.2.form.weight) =
      r.bare.2.flatMap fun d => d.stmtVisits.map fun v => v.2.form.weight := by
    intro r
    rw [bare, List.flatMap_map, List.map_flatMap]
    exact List.flatMap_congr fun d _ => hdecl d
  rw [hdecls, hdecls, h]

namespace Shader

variable {s t : Shader}

/-! ## Shaders that agree -/

theorem map_bare_of_agrees (h : s.agrees t = true) :
    s.decls.map (fun d => DeclTree.bare (s.declTree d)) =
      t.decls.map fun d => DeclTree.bare (t.declTree d) := by
  rw [agrees, Bool.and_eq_true, DeclTree.agreesAll_iff, declTrees, declTrees, List.map_map,
    List.map_map] at h
  exact h.2

/-- Shaders that agree and have the same declarations in the same slots have the same syntax in each
of them. -/
theorem bare_declTree_of_agrees (h : s.agrees t = true) (hdecls : t.decls = s.decls) {d : DeclId}
    (hd : d ∈ s.decls) : DeclTree.bare (s.declTree d) = DeclTree.bare (t.declTree d) := by
  have hmap := map_bare_of_agrees h
  rw [hdecls] at hmap
  exact List.map_inj_left.mp hmap d hd

theorem stmtsWeight_eq_of_agrees (hs : s.Grounded) (hos : s.Owned) (ht : t.Grounded) (hot : t.Owned)
    (h : s.agrees t = true) : t.stmtsWeight = s.stmtsWeight := by
  rw [← hos.sum_stmtVisits hs, ← hot.sum_stmtVisits ht]
  exact (Program.sum_stmtVisits_of_bare_eq ((agrees_iff s t).mp h)).symm

/-- A shader that differs from another one in one expression. -/
structure DiffersAt (s t : Shader) (target : ExprId) : Prop where
  dialect : t.dialect = s.dialect
  decls : t.decls = s.decls
  decl : t.decl = s.decl
  stmt : t.stmt = s.stmt
  expr : ∀ id, id.index < s.exprs.size → id ≠ target → t.expr id = s.expr id

namespace DiffersAt

variable {target : ExprId}

theorem bare_of_mem_decl (hd : s.DiffersAt t target) {d : DeclId}
    (h : DeclTree.bare (s.declTree d) = DeclTree.bare (t.declTree d)) :
    (∀ id ∈ (s.decl d).bodies, (s.stmtTree id).bare = (t.stmtTree id).bare) ∧
      ∀ id ∈ (s.decl d).inits, (s.exprTree id).bare = (t.exprTree id).bare := by
  rw [DeclTree.bare_eq_map, DeclTree.bare_eq_map, declTree, declTree, hd.decl, Decl.map_map,
    Decl.map_map] at h
  have hbodies := congrArg Decl.bodies h
  have hinits := congrArg Decl.inits h
  rw [Decl.bodies_map, Decl.bodies_map] at hbodies
  rw [Decl.inits_map, Decl.inits_map] at hinits
  exact ⟨List.map_inj_left.mp hbodies, List.map_inj_left.mp hinits⟩

theorem bare_of_mem_stmt (hd : s.DiffersAt t target) (hs : s.Grounded) (ht : t.Grounded)
    {id : StmtId} (h : (s.stmtTree id).bare = (t.stmtTree id).bare) :
    (∀ part ∈ (s.stmt id).childStmts, (s.stmtTree part).bare = (t.stmtTree part).bare) ∧
      ∀ e ∈ (s.stmt id).childExprs, (s.exprTree e).bare = (t.exprTree e).bare := by
  rw [hs.stmtTree_eq, ht.stmtTree_eq, hd.stmt, Stmt.bare_node, Stmt.bare_node, StmtNode.map_map,
    StmtNode.map_map] at h
  have hform := (Stmt.node.inj h).2
  have hstmts := congrArg StmtNode.childStmts hform
  have hexprs := congrArg StmtNode.childExprs hform
  rw [StmtNode.childStmts_map, StmtNode.childStmts_map] at hstmts
  rw [StmtNode.childExprs_map, StmtNode.childExprs_map] at hexprs
  exact ⟨List.map_inj_left.mp hstmts, List.map_inj_left.mp hexprs⟩

theorem bare_of_mem_expr (hs : s.Grounded) (ht : t.Grounded) {id : ExprId}
    (hsame : t.expr id = s.expr id) (h : (s.exprTree id).bare = (t.exprTree id).bare) :
    ∀ part ∈ (s.expr id).children, (s.exprTree part).bare = (t.exprTree part).bare := by
  rw [hs.exprTree_eq, ht.exprTree_eq, hsame] at h
  cases hform : s.expr id with
  | paren inner =>
      rw [hform] at h
      intro part hpart
      cases List.mem_singleton.mp hpart
      exact h
  | _ =>
      rw [hform, Expr.bare_node _ rfl, Expr.bare_node _ rfl, ExprNode.map_map,
        ExprNode.map_map] at h
      have hparts := congrArg ExprNode.children (Expr.node.inj h).2
      rw [ExprNode.children_map, ExprNode.children_map] at hparts
      exact List.map_inj_left.mp hparts

/-- The syntax of a node is the same in two shaders, or the node is below the slot in which they
differ. -/
def SameOrBelow (s t : Shader) (target : ExprId) : NodeId → Prop
  | .decl d => DeclTree.bare (s.declTree d) = DeclTree.bare (t.declTree d)
  | .stmt id => (s.stmtTree id).bare = (t.stmtTree id).bare
  | .expr id => s.ExprBelow target id ∨ (s.exprTree id).bare = (t.exprTree id).bare

/-- In two shaders that agree the syntax is the same from the declarations down to the slot in which
they differ. -/
theorem sameOrBelow_of_reaches (hd : s.DiffersAt t target) (hs : s.Grounded) (hos : s.Owned)
    (ht : t.Grounded) (h : s.agrees t = true) {n : NodeId} (hn : s.Reaches n) :
    SameOrBelow s t target n := by
  induction hn with
  | decl hmem => exact bare_declTree_of_agrees h hd.decls hmem
  | @stmt n id _ hid ih =>
      cases n with
      | decl d => exact (hd.bare_of_mem_decl ih).1 id hid
      | stmt parent => exact (hd.bare_of_mem_stmt hs ht ih).1 id hid
      | expr parent => cases hid
  | @expr n id hn hid ih =>
      cases n with
      | decl d => exact Or.inr ((hd.bare_of_mem_decl ih).2 id hid)
      | stmt parent => exact Or.inr ((hd.bare_of_mem_stmt hs ht ih).2 id hid)
      | expr parent =>
          have hlt := lt_size_of_mem_liveExprs (hos.mem_liveExprs_of_reaches hs hn)
          rcases ih with hbelow | hsame
          · exact Or.inl (hbelow.tail hid)
          · by_cases hparent : parent = target
            · exact Or.inl (exprBelow_of_mem (hparent ▸ hid))
            · exact Or.inr (bare_of_mem_expr hs ht (hd.expr parent hlt hparent) hsame id hid)

/-- The trees of the slot in which two shaders differ agree if the shaders do. -/
theorem bare_exprTree_of_agrees (hd : s.DiffersAt t target) (hs : s.Grounded) (hos : s.Owned)
    (ht : t.Grounded) (hlive : target ∈ s.liveExprs) (h : s.agrees t = true) :
    (s.exprTree target).bare = (t.exprTree target).bare := by
  have hreaches := hos.reaches_of_mem_liveExprs hs hlive
  refine (hd.sameOrBelow_of_reaches hs hos ht h hreaches).resolve_left fun hbelow => ?_
  obtain ⟨rank, hrank⟩ := hs.exprs
  exact Nat.lt_irrefl _ (hrank.lt_of_below hbelow).2

/-- Shaders agree if the trees of the one slot do in which they differ. -/
theorem agrees_of_bare_exprTree (hd : s.DiffersAt t target) (hs : s.Grounded) (ht : t.Grounded)
    (htarget : (s.exprTree target).bare = (t.exprTree target).bare) : s.agrees t = true := by
  have hexpr : ∀ id : ExprId, id.index < s.exprs.size →
      (s.exprTree id).bare = (t.exprTree id).bare := by
    intro id
    induction id using hs.expr_induction with
    | step id ih =>
        intro hlt
        by_cases hid : id = target
        · rw [hid]
          exact htarget
        · obtain ⟨rank, hrank⟩ := hs.exprs
          have hparts : ∀ c ∈ (s.expr id).children,
              (s.exprTree c).bare = (t.exprTree c).bare := fun c hc =>
            ih c hc (hrank.falls id c hc).1
          rw [hs.exprTree_eq, ht.exprTree_eq, hd.expr id hlt hid]
          cases hform : s.expr id with
          | paren inner => exact hparts inner (by rw [hform]; exact List.mem_cons_self)
          | _ =>
              rw [Expr.bare_node _ rfl, Expr.bare_node _ rfl, ExprNode.map_map, ExprNode.map_map]
              refine congrArg _ (ExprNode.map_congr fun c hc => hparts c ?_)
              rwa [hform]
  have hstmt : ∀ id : StmtId, (s.stmtTree id).bare = (t.stmtTree id).bare := by
    intro id
    induction id using hs.stmt_induction with
    | step id ih =>
        rw [hs.stmtTree_eq, ht.stmtTree_eq, hd.stmt, Stmt.bare_node, Stmt.bare_node,
          StmtNode.map_map, StmtNode.map_map]
        exact congrArg _ (StmtNode.map_congr (fun e he => hexpr e (hs.stmtExprs id e he)) ih)
  have hdecl : ∀ d, DeclTree.bare (s.declTree d) = DeclTree.bare (t.declTree d) := by
    intro d
    rw [DeclTree.bare_eq_map, DeclTree.bare_eq_map, declTree, declTree, hd.decl, Decl.map_map,
      Decl.map_map]
    exact Decl.map_congr (fun e he => hexpr e (hs.inits d e he)) fun id _ => hstmt id
  rw [agrees, Bool.and_eq_true, DeclTree.agreesAll_iff, declTrees, declTrees, List.map_map,
    List.map_map, hd.decls, hd.dialect]
  exact ⟨BEq.rfl, List.map_congr_left fun d _ => hdecl d⟩

/-- What is not around the slot in which two shaders differ has the same tree in both. -/
theorem exprTree_eq_of_not_below (hd : s.DiffersAt t target) (hs : s.Grounded) (ht : t.Grounded)
    {id : ExprId} (hlt : id.index < s.exprs.size) (hne : id ≠ target)
    (hbelow : ¬ s.ExprBelow id target) : t.exprTree id = s.exprTree id := by
  induction id using hs.expr_induction with
  | step id ih =>
      obtain ⟨rank, hrank⟩ := hs.exprs
      rw [hs.exprTree_eq, ht.exprTree_eq, hd.expr id hlt hne]
      refine congrArg _ (ExprNode.map_congr fun part hpart => ?_)
      refine ih part hpart (hrank.falls id part hpart).1 ?_ fun h => ?_
      · rintro rfl
        exact hbelow (exprBelow_of_mem hpart)
      · exact hbelow (.head hpart h)

end DiffersAt

end Shader

/-! ## Expressions -/

namespace SubExpr

variable {s : Shader} {a : Analysis} {target child : ExprId}

/-- What is replaced by an operand is an operation. -/
theorem isOperation_of_mem_find (h : s.Grounded) (ho : s.Owned) {o : Opportunity}
    (hfind : o ∈ find s a) (hchange : o.change = .toSubExpr target child) :
    isOperation (s.expr target) = true := by
  obtain ⟨⟨depth, e⟩, hv, hmem⟩ := List.mem_flatMap.mp hfind
  obtain ⟨child', hchild, rfl⟩ := List.mem_map.mp hmem
  cases hchange
  obtain ⟨-, htree⟩ := (ho.mem_exprVisits h).mp (List.mem_map_of_mem (f := Prod.snd) hv)
  obtain ⟨tag, form⟩ := e
  rw [Expr.tag] at htree
  rw [operands] at hchild
  split at hchild
  next hcond =>
    simp only [Bool.and_eq_true] at hcond
    rw [Expr.tag, (h.expr_of_exprTree htree.symm).2]
    exact hcond.1.1
  next => cases hchild

theorem differsAt_replaceWithChild (s : Shader) (target child : ExprId) :
    s.DiffersAt (s.replaceWithChild target child) target := by
  obtain ⟨hdecls, hnodes⟩ := Shader.decls_replaceWithChild s target child
  refine ⟨?_, hdecls, Shader.decl_congr hnodes, ?_, fun id _ hne => ?_⟩
  · rw [Shader.replaceWithChild_eq]
    rfl
  · funext id
    rw [Shader.stmt, Shader.stmts_replaceWithChild, Shader.stmt]
  · rw [Shader.replaceWithChild_eq, Shader.expr_setExpr, if_neg fun hc => hne hc.1.symm,
      Shader.expr_forgetExprs]

/-- An operation is not the same as its operand. -/
theorem not_agrees_replaceWithChild (h : s.Grounded) (ho : s.Owned)
    (hholds : holds s target child = true) (hoperation : isOperation (s.expr target) = true) :
    s.agrees (s.replaceWithChild target child) = false := by
  simp only [holds, Bool.and_eq_true] at hholds
  obtain ⟨⟨hlive, hlive'⟩, hchild⟩ := hholds
  have hmem : child ∈ (s.expr target).children := List.contains_iff_mem.mp hchild
  have hlt := Shader.lt_size_of_mem_liveExprs (Shader.mem_liveExprs.mpr hlive)
  have hd := differsAt_replaceWithChild s target child
  have ht := h.replaceWithChild hmem
  have htarget : (s.replaceWithChild target child).expr target = s.expr child := by
    rw [Shader.replaceWithChild_eq, Shader.expr_setExpr, Shader.size_exprs_forgetExprs,
      if_pos ⟨rfl, hlt⟩]
  obtain ⟨rank, hrank⟩ := h.exprs
  have hparts : ∀ part ∈ (s.expr child).children,
      (s.replaceWithChild target child).exprTree part = s.exprTree part := by
    intro part hpart
    have hfalls := (hrank.falls child part hpart).2.trans (hrank.falls target child hmem).2
    refine hd.exprTree_eq_of_not_below h ht (hrank.falls child part hpart).1 ?_ fun hbelow => ?_
    · rintro rfl
      exact Nat.lt_irrefl _ hfalls
    · exact Nat.lt_asymm hfalls (hrank.lt_of_below hbelow).2
  have hsame : ((s.replaceWithChild target child).exprTree target).bare =
      (s.exprTree child).bare := by
    rw [ht.exprTree_eq, htarget, h.exprTree_eq, ExprNode.map_congr hparts]
    exact Expr.bare_congr_tag _ _ _
  refine Bool.eq_false_of_not_eq_true fun hagrees => ?_
  have hbare := hd.bare_exprTree_of_agrees h ho ht (Shader.mem_liveExprs.mpr hlive) hagrees
  have hparen : ((s.expr target).map s.exprTree).isParen = false := by
    cases hform : s.expr target with
    | paren inner => rw [hform] at hoperation; cases hoperation
    | _ => rfl
  rw [hsame, h.exprTree_eq target, Expr.bare_node _ hparen] at hbare
  have hsmaller : (s.exprTree child).bare.size <
      (Expr.node () (((s.expr target).map s.exprTree).map Expr.bare)).size := by
    refine Expr.size_lt_of_mem_children ?_
    rw [ExprNode.children_map, ExprNode.children_map]
    exact List.mem_map_of_mem (List.mem_map_of_mem hmem)
  rw [hbare] at hsmaller
  exact Nat.lt_irrefl _ hsmaller

end SubExpr

/-- A change that only takes parentheses away: the constant of a vector type is put in the place of
a constructor of that type whose argument is the literal in parentheses. -/
inductive Change.Respells (s : Shader) : Change → Prop
  | vector {target arg : ExprId} {constructor : String} {element : Literal}
    (hcall : s.expr target = .call constructor [arg])
    (harg : (s.exprTree arg).stripParens.form = .literal element) :
    Respells s (.toConstant target (.vector constructor element))

namespace Constant

variable {s : Shader} {a : Analysis} {target : ExprId} {constant : Constant}

/-- What is replaced by a constant is replaceable. -/
theorem isReplaceable_of_mem_find (h : s.Grounded) (ho : s.Owned) {o : Opportunity}
    (hfind : o ∈ find s a) (hchange : o.change = .toConstant target constant) :
    isReplaceable (s.expr target) = true := by
  obtain ⟨⟨depth, e⟩, hv, hmem⟩ := List.mem_filterMap.mp hfind
  obtain ⟨constant', hconstant, rfl⟩ := Option.map_eq_some_iff.mp hmem
  cases hchange
  obtain ⟨-, htree⟩ := (ho.mem_exprVisits h).mp (List.mem_map_of_mem (f := Prod.snd) hv)
  obtain ⟨tag, form⟩ := e
  rw [Expr.tag] at htree
  rw [replacement?] at hconstant
  split at hconstant
  next hcond =>
    simp only [Bool.and_eq_true] at hcond
    have hform := hcond.1.1.1
    rw [Expr.tag, (h.expr_of_exprTree htree.symm).2]
    cases form <;> exact hform
  next => cases hconstant

theorem differsAt_apply (s : Shader) (target : ExprId) (constant : Constant) :
    s.DiffersAt (apply s target constant) target := by
  obtain ⟨hdecls, hnodes⟩ := decls_apply s target constant
  refine ⟨?_, hdecls, Shader.decl_congr hnodes, ?_, fun id hlt hne => ?_⟩
  · cases constant with
    | scalar value => rw [apply, Shader.replaceWithLeaf_eq]; rfl
    | vector constructor element => rw [apply_vector, Shader.replaceWithLeaf_eq]; rfl
  · funext id
    rw [Shader.stmt, stmts_apply, Shader.stmt]
  · rw [expr_apply hlt, if_neg hne.symm]

theorem bare_tree (constant : Constant) : constant.tree.bare = constant.tree := by
  cases constant <;> rfl

/-- An expression that may be replaced is the constant but for parentheses if only those go. -/
theorem bare_exprTree_eq_tree_iff (h : s.Grounded)
    (hreplaceable : isReplaceable (s.expr target) = true) :
    (s.exprTree target).bare = constant.tree ↔ (Change.toConstant target constant).Respells s := by
  constructor
  · intro hbare
    rw [h.exprTree_eq] at hbare
    cases hform : s.expr target with
    | call callee args =>
        rw [hform, Expr.bare_node _ rfl, ExprNode.map_map] at hbare
        cases constant with
        | scalar value => cases (Expr.node.inj hbare).2
        | vector constructor element =>
            obtain ⟨rfl, hargs⟩ := ExprNode.call.inj (Expr.node.inj hbare).2
            obtain ⟨arg, rfl, harg⟩ := List.map_eq_singleton_iff.mp hargs
            exact .vector hform (Expr.bare_eq_literal_iff.mp harg)
    | literal value => rw [hform] at hreplaceable; cases hreplaceable
    | paren inner => rw [hform] at hreplaceable; cases hreplaceable
    | _ =>
        rw [hform, Expr.bare_node _ rfl] at hbare
        cases constant <;> cases (Expr.node.inj hbare).2
  · rintro ⟨hcall, harg⟩
    rw [h.exprTree_eq, hcall, Expr.bare_node _ rfl, tree, ExprNode.map_map, ExprNode.map,
      List.map_singleton, Function.comp_apply, Expr.bare_eq_literal_iff.mpr harg]

/-- A constant is the same as what it replaces if only parentheses go. -/
theorem agrees_apply_iff (h : s.Grounded) (ho : s.Owned) (hholds : holds s target constant = true)
    (hreplaceable : isReplaceable (s.expr target) = true) :
    s.agrees (apply s target constant) = true ↔ (Change.toConstant target constant).Respells s := by
  rw [holds, Bool.and_eq_true] at hholds
  have hlive := Shader.mem_liveExprs.mpr hholds.1
  have hd := differsAt_apply s target constant
  have ht := grounded_apply h hlive constant
  have htree : ((apply s target constant).exprTree target).bare = constant.tree := by
    rw [← Expr.bare_erase, erase_exprTree_of_isAt ht (isAt_apply hlive), bare_tree]
  rw [← bare_exprTree_eq_tree_iff h hreplaceable, ← htree]
  exact ⟨hd.bare_exprTree_of_agrees h ho ht hlive, hd.agrees_of_bare_exprTree h ht⟩

end Constant

/-! ## Declarations -/

theorem Shader.not_agrees_removeDecl {s : Shader} {d : DeclId} (hd : d ∈ s.decls) :
    s.agrees (s.removeDecl d).2 = false := by
  refine Bool.eq_false_of_not_eq_true fun hagrees => ?_
  have hlength := congrArg List.length (map_bare_of_agrees hagrees)
  rw [List.length_map, List.length_map] at hlength
  have hless := length_decls_removeDecl hd
  omega

/-- A structure that has other fields in the place of one is another structure. -/
theorem InlineField.not_agrees_apply {s : Shader} {outerId : DeclId} {field : String}
    (hholds : holds s outerId field = true) (supply : NameSupply) :
    s.agrees (apply s supply outerId field).1 = false := by
  obtain ⟨plan, hplan⟩ := exists_plan_of_holds hholds
  obtain ⟨outer, inner, wrapper, hfits⟩ := exists_fits hplan
  have hmem := mem_decls_of_holds hholds
  have hlive := (Bool.and_eq_true_iff.mp (Bool.and_eq_true_iff.mp hholds).1).1
  refine Bool.eq_false_of_not_eq_true fun hagrees => ?_
  rw [hfits.apply_eq hplan] at hagrees
  obtain ⟨-, -, hdecls, hdecl⟩ := decls_inlined s outerId outer plan
    (renamed field (keptNames outer plan.position) supply inner.fields).1
  have hbare := Shader.bare_declTree_of_agrees hagrees hdecls hmem
  rw [Shader.declTree, Shader.declTree, hdecl, Shader.decl_setDecl,
    if_pos ⟨rfl, Arena.lt_size_of_isLive hlive⟩, Decl.struct?_eq_some.mp hfits.outer_eq] at hbare
  obtain ⟨hsplit, hwrapper⟩ := hfits.split_fields
  have hfields := congrArg StructDecl.fields (Decl.struct.inj hbare)
  rw [widened] at hfields
  conv_lhs at hfields => rw [hsplit]
  rw [List.append_assoc, List.append_cancel_left_eq, ← List.singleton_append,
    List.append_cancel_right_eq] at hfields
  have hnew : wrapper ∈ (renamed field (keptNames outer plan.position) supply inner.fields).1 := by
    rw [← hfields]
    exact List.mem_cons_self
  exact name_renamed_ne hfits.field_start hnew hwrapper

/-! ## All changes -/

namespace Opportunity

variable {s : Shader} {o : Opportunity}

theorem agrees_apply_iff (h : s.Grounded) (ho : s.Owned) {everywhere : Bool}
    {kinds : List OpportunityKind} (hfind : o ∈ find s everywhere kinds) (supply : NameSupply) :
    s.agrees (o.apply s supply).1 = true ↔ o.change.Respells s := by
  have hholds := holds_of_mem_find h ho hfind
  have hkind := mem_ofKind_of_mem_find hfind
  have hgrounded := grounded_apply h hholds supply
  have hweight : (o.apply s supply).1.Owned → (o.apply s supply).1.stmtsWeight < s.stmtsWeight →
      s.agrees (o.apply s supply).1 = false := fun howned hlt =>
    Bool.eq_false_of_not_eq_true fun hagrees =>
      hlt.ne (Shader.stmtsWeight_eq_of_agrees h ho hgrounded howned hagrees)
  have hdiffers : s.agrees (o.apply s supply).1 = false → ¬ o.change.Respells s →
      (s.agrees (o.apply s supply).1 = true ↔ o.change.Respells s) := by
    intro hfalse hrespells
    rw [hfalse]
    exact iff_of_false Bool.false_ne_true hrespells
  obtain ⟨depth, change⟩ := o
  cases change with
  | toSubExpr target child =>
      exact hdiffers (SubExpr.not_agrees_replaceWithChild h ho hholds
        (SubExpr.isOperation_of_mem_find h ho hkind rfl)) (by rintro ⟨⟩)
  | toConstant target constant =>
      exact Constant.agrees_apply_iff h ho hholds
        (Constant.isReplaceable_of_mem_find h ho hkind rfl)
  | removeDecl decl =>
      simp only [holds, Shader.isDeclLive, Bool.and_eq_true] at hholds
      exact hdiffers (Shader.not_agrees_removeDecl (List.contains_iff_mem.mp hholds.2)) (by rintro ⟨⟩)
  | inlineField outer field => exact hdiffers (InlineField.not_agrees_apply hholds supply) (by rintro ⟨⟩)
  | removeStmt block stmt =>
      exact hdiffers (hweight (ho.removeFromBlock h hholds)
        (Shader.stmtsWeight_removeFromBlock_lt hholds)) (by rintro ⟨⟩)
  | removeVariable stmt block name =>
      exact hdiffers (hweight (UnusedVariable.owned_apply h ho hholds)
        (UnusedVariable.stmtsWeight_apply_lt hholds)) (by rintro ⟨⟩)
  | unwrap block target way =>
      exact hdiffers (hweight (Unwrap.owned_apply h ho hholds)
        (Unwrap.stmtsWeight_apply_lt hholds)) (by rintro ⟨⟩)

/-- A change that is found in the shader of a program is made when it is tried, and makes a shader
with other syntax, unless it only takes parentheses away. -/
theorem agrees_tryApply_iff {p : Program} {everywhere : Bool} {kinds : List OpportunityKind}
    (hfind : o ∈ find (Shader.ofProgram p) everywhere kinds) (supply : NameSupply) :
    (o.tryApply (Shader.ofProgram p) supply).1 = true ∧
      ((Shader.ofProgram p).agrees (o.tryApply (Shader.ofProgram p) supply).2.1 = true ↔
        o.change.Respells (Shader.ofProgram p)) := by
  have hlaid := Shader.laidOut_ofProgram p
  have hholds := holds_of_mem_find hlaid.layered.grounded hlaid.owned hfind
  rw [tryApply, if_pos hholds]
  exact ⟨rfl, agrees_apply_iff hlaid.layered.grounded hlaid.owned hfind supply⟩

/-- A constructor whose argument is a literal in parentheses. -/
def vectorOfTwo : Program :=
  let arg : Expr Unit := .node () (.paren (.node () (.literal (.float "2.0"))))
  ⟨none, [.function ⟨.ofName "void", "main", [],
    some (.node () (.block [.node () (.expr (.node () (.call "vec2" [arg])))]))⟩]⟩

/-- It is another literal than that of the constant, which makes another program. -/
theorem agrees_vectorOfTwo :
    ∃ o ∈ find (Shader.ofProgram vectorOfTwo) true [.exprToConstant],
      o.change = .toConstant ⟨2⟩ (.vector "vec2" (.float "1.0")) ∧
      (Shader.ofProgram vectorOfTwo).agrees
        (o.tryApply (Shader.ofProgram vectorOfTwo) {}).2.1 = false := by
  have hfind : ⟨3, .toConstant ⟨2⟩ (.vector "vec2" (.float "1.0"))⟩ ∈
      find (Shader.ofProgram vectorOfTwo) true [.exprToConstant] :=
    List.mem_mergeSort.mpr (List.mem_flatMap.mpr ⟨.exprToConstant, by decide, by decide +kernel⟩)
  have hcall : (Shader.ofProgram vectorOfTwo).expr ⟨2⟩ = .call "vec2" [⟨1⟩] := by decide +kernel
  have harg : ((Shader.ofProgram vectorOfTwo).exprTree ⟨1⟩).stripParens.form.literal? =
      some (.float "2.0") := by
    decide +kernel
  refine ⟨_, hfind, rfl, Bool.eq_false_of_not_eq_true fun hagrees => ?_⟩
  cases (agrees_tryApply_iff hfind {}).2.mp hagrees with
  | vector hcall' harg' =>
      cases hcall.symm.trans hcall'
      rw [harg'] at harg
      exact absurd harg (by decide)

end Opportunity

end ShaderReducer
