import ShaderReducer.Proofs.Shader.Compact
import ShaderReducer.Proofs.Syntax.Valid

/-!
# Shaders that can be read

The syntax of a shader can be read if what its slots hold can. What is asked of a slot does not look
at what is below it, other than at the role that a statement below it has: whether it may start a
loop, is a block, or takes an `else` away. A change that leaves the roles as they are only has to
account for the slots that it writes to.

Dead slots are asked for less: what a statement held that was dropped is of no account.
-/

namespace ShaderReducer

namespace Shader

/-- The slots of expressions hold what can be read. -/
def ExprsValid (s : Shader) : Prop :=
  ∀ id : ExprId, id.index < s.exprs.size → (s.expr id).Valid Literal.IsGenuine

/-- Whether the slot of a statement holds what can be read, by the roles of what it names. -/
def StmtValid (s : Shader) (id : StmtId) : Prop :=
  (s.stmt id).Valid (fun t => (s.stmtTree t).form.isStart = true)
    fun t => (s.stmtTree t).isOpen = false

/-- A shader whose slots hold what can be read. -/
structure Valid (s : Shader) : Prop where
  grounded : s.Grounded
  ownsStmts : s.OwnsStmts 0
  version : ∀ v ∈ s.version, v.Valid
  exprs : s.ExprsValid
  stmts : ∀ id ∈ s.liveStmts, s.StmtValid id
  decls : ∀ d ∈ s.decls, (s.decl d).Valid fun t => (s.stmtTree t).isBlock = true

/-! ## From slots to syntax -/

namespace Valid

variable {s : Shader}

theorem exprTree (h : s.Valid) {id : ExprId} (hid : id.index < s.exprs.size) :
    (s.exprTree id).Valid Literal.IsGenuine := by
  obtain ⟨rank, hr⟩ := h.grounded.exprs
  induction id using h.grounded.expr_induction with
  | step id ih =>
      rw [h.grounded.exprTree_eq, Expr.valid_node, ExprNode.valid_map, ExprNode.children_map]
      refine ⟨h.exprs id hid, List.forall_mem_map.mpr fun c hc => ih c hc (hr.falls id c hc).1⟩

theorem stmtTree (h : s.Valid) {id : StmtId} (hid : id ∈ s.liveStmts) :
    (s.stmtTree id).Valid (Expr.Valid Literal.IsGenuine) := by
  induction id using h.grounded.stmt_induction with
  | step id ih =>
      rw [h.grounded.stmtTree_eq, Stmt.valid_node, Stmt.NodeValid, StmtNode.valid_map,
        StmtNode.childExprs_map, StmtNode.childStmts_map]
      refine ⟨⟨h.stmts id hid, List.forall_mem_map.mpr fun e he => ?_⟩,
        List.forall_mem_map.mpr fun t ht => ?_⟩
      · exact h.exprTree (h.grounded.stmtExprs id e he)
      · exact ih t ht (h.ownsStmts.mem_of_mem_parts hid ht)

theorem declTree (h : s.Valid) {d : DeclId} (hd : d ∈ s.decls) :
    DeclTree.Valid (Expr.Valid Literal.IsGenuine) (s.declTree d) := by
  refine ⟨Decl.valid_map.mpr (h.decls d hd), ?_, ?_⟩
  · rw [Shader.declTree, Decl.bodies_map]
    refine List.forall_mem_map.mpr fun t ht => h.stmtTree (h.ownsStmts.mem_of_mem_roots ?_)
    rw [zero_add]
    exact Multiset.mem_bind.mpr ⟨d, hd, ht⟩
  · rw [Shader.declTree, Decl.inits_map]
    exact List.forall_mem_map.mpr fun e he => h.exprTree (h.grounded.inits d e he)

/-- The syntax of a shader can be read if what its slots hold can. -/
theorem toProgram (h : s.Valid) : s.toProgram.Valid (Expr.Valid Literal.IsGenuine) where
  version := h.version
  decls := by
    rw [Shader.toProgram, declTrees, List.map_map]
    exact List.forall_mem_map.mpr fun d hd => DeclTree.valid_erase.mpr (h.declTree hd)

end Valid

/-! ## From syntax to slots -/

variable {s : Shader}

theorem Grounded.expr_valid_of_tree (h : s.Grounded) {id e : ExprId}
    (hid : (s.exprTree id).Valid Literal.IsGenuine) (he : e ∈ s.exprSlotsOf id) :
    (s.expr e).Valid Literal.IsGenuine := by
  obtain ⟨d, hd, rfl⟩ := List.mem_map.mp he
  have hform := hid d hd
  rwa [h.eq_exprTree_of_mem_subexprs hd, h.exprTree_eq, Expr.form, ExprNode.valid_map] at hform

theorem Grounded.stmt_valid_of_tree (h : s.Grounded) {id t : StmtId}
    (hid : (s.stmtTree id).Valid (Expr.Valid Literal.IsGenuine)) (ht : t ∈ s.stmtSlotsOf id) :
    s.StmtValid t ∧ ∀ e ∈ (s.stmt t).childExprs, (s.exprTree e).Valid Literal.IsGenuine := by
  rw [stmtSlotsOf, stmtSlots_eq_map] at ht
  obtain ⟨d, hd, rfl⟩ := List.mem_map.mp ht
  have hform := hid d hd
  rw [h.eq_stmtTree_of_mem_substmts hd, h.stmtTree_eq, Stmt.form, Stmt.NodeValid,
    StmtNode.valid_map, StmtNode.childExprs_map] at hform
  exact ⟨hform.1, List.forall_mem_map.mp hform.2⟩

/-- Where all slots are live and named once, they hold what can be read if the syntax can be read. -/
theorem Grounded.valid_of_toProgram (h : s.Grounded) (ho : s.Owned) (hfilled : s.Filled)
    (hp : s.toProgram.Valid (Expr.Valid Literal.IsGenuine)) : s.Valid := by
  have hdecls : ∀ d ∈ s.decls, DeclTree.Valid (Expr.Valid Literal.IsGenuine) (s.declTree d) := by
    intro d hd
    exact DeclTree.valid_erase.mp (hp.decls _ (List.mem_map_of_mem (List.mem_map_of_mem hd)))
  have hstmts : ∀ t ∈ s.liveStmts, s.StmtValid t ∧
      ∀ e ∈ (s.stmt t).childExprs, (s.exprTree e).Valid Literal.IsGenuine := by
    intro t ht
    rw [ho.stmts.liveStmts_eq h, zero_add, Multiset.mem_bind] at ht
    obtain ⟨root, hroot, ht⟩ := ht
    obtain ⟨d, hd, hroot⟩ := Multiset.mem_bind.mp hroot
    have hbodies := (hdecls d hd).bodies
    rw [Shader.declTree, Decl.bodies_map] at hbodies
    exact h.stmt_valid_of_tree (List.forall_mem_map.mp hbodies root hroot) ht
  refine ⟨h, ho.stmts, hp.version, fun id hid => ?_, fun t ht => (hstmts t ht).1, fun d hd => ?_⟩
  · have hlive := mem_liveExprs.mpr (hfilled (.expr id) hid)
    rw [ho.exprs.liveExprs_eq h, zero_add, Multiset.mem_bind] at hlive
    obtain ⟨root, hroot, hmem⟩ := hlive
    refine h.expr_valid_of_tree ?_ hmem
    rcases Multiset.mem_add.mp hroot with hroot | hroot
    · obtain ⟨d, hd, hroot⟩ := Multiset.mem_bind.mp hroot
      have hinits := (hdecls d hd).inits
      rw [Shader.declTree, Decl.inits_map] at hinits
      exact List.forall_mem_map.mp hinits root hroot
    · obtain ⟨t, ht, hroot⟩ := Multiset.mem_bind.mp hroot
      exact (hstmts t ht).2 root hroot
  · exact Decl.valid_map.mp (hdecls d hd).form

/-- The shader of a program that can be read holds what can be read. -/
theorem valid_ofProgram {p : Program} (hp : p.Valid (Expr.Valid Literal.IsGenuine)) :
    (ofProgram p).Valid := by
  have hlaid := laidOut_ofProgram p
  refine hlaid.layered.grounded.valid_of_toProgram hlaid.owned ?_ (by rwa [toProgram_ofProgram])
  rw [← compact_of_program]
  exact filled_compact _

theorem Valid.compact (h : s.Valid) : s.compact.Valid := by
  rw [compact_eq]
  exact valid_ofProgram h.toProgram

end Shader

/-! ## Changes of expressions -/

namespace Shader.ExprsValid

variable {s : Shader}

theorem congr {t : Shader} (h : s.ExprsValid) (hsize : t.exprs.size = s.exprs.size)
    (hexpr : t.expr = s.expr) : t.ExprsValid := by
  rw [ExprsValid, hsize, hexpr]
  exact h

theorem forgetExprs (h : s.ExprsValid) (ids : List ExprId) : (s.forgetExprs ids).ExprsValid :=
  h.congr (size_exprs_forgetExprs s ids) (expr_forgetExprs s ids)

theorem setExpr (h : s.ExprsValid) (target : ExprId) {node : ExprNode ExprId}
    (hnode : node.Valid Literal.IsGenuine) : (s.setExpr target node).ExprsValid := by
  intro id hid
  rw [size_exprs_setExpr] at hid
  rw [expr_setExpr]
  split
  next => exact hnode
  next => exact h id hid

theorem addExpr (h : s.ExprsValid) {node : ExprNode ExprId} (hnode : node.Valid Literal.IsGenuine) :
    (s.addExpr node).2.ExprsValid := by
  intro id hid
  rw [size_addExpr] at hid
  rw [expr_addExpr]
  split
  next => exact hnode
  next hne => exact h id (by omega)

end Shader.ExprsValid

/-! ## Roles of statements -/

/-- What a form of a statement may become: a block stays a block, and a declaration that can be read
stays one or goes. -/
inductive StmtNode.Trims {ρ σ : Type} : StmtNode ρ σ → StmtNode ρ σ → Prop
  | same (form : StmtNode ρ σ) : Trims form form
  | block (body body' : List σ) : Trims (.block body) (.block body')
  | vars (decl : VarDecl ρ) {decl' : VarDecl ρ} (h : decl'.Named) : Trims (.vars decl) (.vars decl')
  | empty (decl : VarDecl ρ) : Trims (.vars decl) .empty

namespace Shader

variable {s t : Shader}

theorem Grounded.isStart_of_trims (h : s.Grounded) (ht : t.Grounded) {id : StmtId}
    (htrims : (s.stmt id).Trims (t.stmt id)) (hstart : (s.stmtTree id).form.isStart = true) :
    (t.stmtTree id).form.isStart = true := by
  rw [h.stmtTree_eq, Stmt.form, StmtNode.isStart_map] at hstart
  rw [ht.stmtTree_eq, Stmt.form, StmtNode.isStart_map]
  generalize s.stmt id = form at htrims hstart
  generalize t.stmt id = form' at htrims ⊢
  cases htrims with
  | same => exact hstart
  | block => exact hstart
  | vars => rfl
  | empty => rfl

theorem Grounded.isBlock_of_trims (h : s.Grounded) (ht : t.Grounded) {id : StmtId}
    (htrims : (s.stmt id).Trims (t.stmt id)) (hblock : (s.stmtTree id).isBlock = true) :
    (t.stmtTree id).isBlock = true := by
  rw [h.stmtTree_eq] at hblock
  rw [ht.stmtTree_eq]
  generalize s.stmt id = form at htrims hblock
  generalize t.stmt id = form' at htrims ⊢
  cases htrims with
  | same =>
      cases form with
      | block => rfl
      | _ => cases hblock
  | block => rfl
  | vars => cases hblock
  | empty => cases hblock

/-- No `else` is taken away that was not before: what may take one away keeps its form. -/
theorem Grounded.isOpen_of_trims (h : s.Grounded) (ht : t.Grounded) (ho : t.OwnsStmts 0)
    (htrims : ∀ id ∈ t.liveStmts, (s.stmt id).Trims (t.stmt id)) {id : StmtId}
    (hid : id ∈ t.liveStmts) : (t.stmtTree id).isOpen = (s.stmtTree id).isOpen := by
  induction id using ht.stmt_induction with
  | step id ih =>
      have hpart : ∀ part ∈ (t.stmt id).childStmts,
          (t.stmtTree part).isOpen = (s.stmtTree part).isOpen :=
        fun part hpart => ih part hpart (ho.mem_of_mem_parts hid hpart)
      rw [h.stmtTree_eq, ht.stmtTree_eq, Stmt.isOpen_node, Stmt.isOpen_node,
        StmtNode.isOpenWith_map, StmtNode.isOpenWith_map]
      have htrim := htrims id hid
      generalize s.stmt id = form at htrim ⊢
      generalize t.stmt id = form' at hpart htrim ⊢
      cases htrim with
      | same => exact StmtNode.isOpenWith_congr hpart
      | _ => rfl

/-- A shader holds what can be read if its statements come from one that does and keep their roles,
and what else was put into its slots can be read. -/
theorem Valid.of_trims (h : s.Valid) (ht : t.Grounded) (ho : t.OwnsStmts 0)
    (hversion : t.version = s.version) (hexprs : t.ExprsValid)
    (hstmts : ∀ id ∈ t.liveStmts, id ∈ s.liveStmts ∧ (s.stmt id).Trims (t.stmt id))
    (hdecls : ∀ d ∈ t.decls, (t.decl d).Valid fun body => (s.stmtTree body).isBlock = true) :
    t.Valid where
  grounded := ht
  ownsStmts := ho
  version := hversion ▸ h.version
  exprs := hexprs
  stmts id hid := by
    obtain ⟨hold, htrim⟩ := hstmts id hid
    have hvalid : t.stmt id = s.stmt id → t.StmtValid id := by
      intro heq
      have hlive : ∀ part ∈ (s.stmt id).childStmts, part ∈ t.liveStmts := fun part hpart =>
        ho.mem_of_mem_parts hid (by rwa [stmtPartsOf, stmtParts, heq])
      rw [StmtValid, heq]
      refine (h.stmts id hold).imp (fun part hpart => ?_) fun part hpart hclosed => ?_
      · exact h.grounded.isStart_of_trims ht (hstmts part (hlive part hpart)).2
      · rw [h.grounded.isOpen_of_trims ht ho (fun u hu => (hstmts u hu).2) (hlive part hpart)]
        exact hclosed
    rw [StmtValid] at hvalid ⊢
    generalize s.stmt id = form at htrim hvalid
    generalize t.stmt id = form' at htrim hvalid ⊢
    cases htrim with
    | same => exact hvalid rfl
    | block => trivial
    | vars decl hnamed => exact hnamed
    | empty => trivial
  decls d hd := by
    refine (hdecls d hd).imp fun body hbody => h.grounded.isBlock_of_trims ht (hstmts body ?_).2
    refine ho.mem_of_mem_roots ?_
    rw [zero_add]
    exact Multiset.mem_bind.mpr ⟨d, hd, hbody⟩

/-- A change that leaves the statements alone only has to account for expressions and structures. -/
theorem Valid.of_stmts_eq (h : s.Valid) (ht : t.Grounded) (ho : t.OwnsStmts 0)
    (hversion : t.version = s.version) (hexprs : t.ExprsValid) (hstmts : t.stmts = s.stmts)
    (hdecls : ∀ d ∈ t.decls, (t.decl d).Valid fun body => (s.stmtTree body).isBlock = true) :
    t.Valid := by
  refine h.of_trims ht ho hversion hexprs (fun id hid => ⟨?_, ?_⟩) hdecls
  · rwa [liveStmts, hstmts] at hid
  · rw [stmt, stmt, hstmts]
    exact .same _

end Shader

end ShaderReducer
