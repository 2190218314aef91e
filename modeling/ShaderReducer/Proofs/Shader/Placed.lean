import ShaderReducer.Proofs.Shader.OwnedStmt

/-!
# Laying out trees

Laying trees out in a shader adds slots and changes none. `Placed` says what that comes to: the new
slots are named by the nodes above them, the slots of the trees themselves are pending, and the trees
read from these slots are the ones that were laid out. Laying out one row of trees after another is
`Placed.append`, and a node above them is `Placed.addExpr` or `Placed.addStmt`.

So a shader that is laid out from syntax is grounded and owned, and has that syntax.
-/

namespace ShaderReducer

namespace Shader

/-- Every slot names slots before it, or any slots of another arena. -/
structure Layered (s : Shader) : Prop where
  exprs : ∀ id, ∀ c ∈ s.exprParts id, c.index < id.index
  stmts : ∀ id, ∀ c ∈ s.stmtParts id, c.index < id.index
  stmtExprs : ∀ id, ∀ e ∈ (s.stmt id).childExprs, e.index < s.exprs.size
  inits : ∀ id, ∀ e ∈ (s.decl id).inits, e.index < s.exprs.size
  bodies : ∀ id, ∀ t ∈ (s.decl id).bodies, t.index < s.stmts.size

/-- Every slot of an expression is live. -/
def AllLive (s : Shader) : Prop :=
  ∀ id : ExprId, id.index < s.exprs.size → id ∈ s.liveExprs

/-- A shader with more slots than another, which holds the same in the slots of that one. -/
structure Extends (s t : Shader) : Prop where
  exprs_le : s.exprs.size ≤ t.exprs.size
  stmts_le : s.stmts.size ≤ t.stmts.size
  expr_eq : ∀ id : ExprId, id.index < s.exprs.size → t.expr id = s.expr id
  stmt_eq : ∀ id : StmtId, id.index < s.stmts.size → t.stmt id = s.stmt id
  version_eq : t.version = s.version
  decls_eq : t.decls = s.decls
  declNodes_eq : t.declNodes = s.declNodes
  allLive : s.AllLive → t.AllLive

variable {s t u : Shader}

theorem lt_size_of_mem_exprParts {id c : ExprId} (h : c ∈ s.exprParts id) :
    id.index < s.exprs.size := by
  by_contra hid
  rw [exprParts, expr_of_size_le (by omega)] at h
  cases h

theorem lt_size_of_mem_stmtParts {id c : StmtId} (h : c ∈ s.stmtParts id) :
    id.index < s.stmts.size := by
  by_contra hid
  rw [stmtParts, stmt_of_size_le (by omega)] at h
  cases h

/-- The number of a slot is a rank. -/
theorem Layered.grounded (h : s.Layered) : s.Grounded where
  exprs := ⟨ExprId.index, fun _ ha => ha, fun a b hb =>
    ⟨(h.exprs a b hb).trans (lt_size_of_mem_exprParts hb), h.exprs a b hb⟩⟩
  stmts := ⟨StmtId.index, fun _ ha => ha, fun a b hb =>
    ⟨(h.stmts a b hb).trans (lt_size_of_mem_stmtParts hb), h.stmts a b hb⟩⟩
  stmtExprs := h.stmtExprs
  inits := h.inits
  bodies := h.bodies

theorem Extends.refl (s : Shader) : s.Extends s :=
  ⟨le_rfl, le_rfl, fun _ _ => rfl, fun _ _ => rfl, rfl, rfl, rfl, id⟩

theorem Extends.trans (h : s.Extends t) (h' : t.Extends u) : s.Extends u where
  exprs_le := h.exprs_le.trans h'.exprs_le
  stmts_le := h.stmts_le.trans h'.stmts_le
  expr_eq id hid := (h'.expr_eq id (hid.trans_le h.exprs_le)).trans (h.expr_eq id hid)
  stmt_eq id hid := (h'.stmt_eq id (hid.trans_le h.stmts_le)).trans (h.stmt_eq id hid)
  version_eq := h'.version_eq.trans h.version_eq
  decls_eq := h'.decls_eq.trans h.decls_eq
  declNodes_eq := h'.declNodes_eq.trans h.declNodes_eq
  allLive hs := h'.allLive (h.allLive hs)

/-- The tree of an old slot is as it was. -/
theorem Extends.exprTree_eq (h : s.Extends t) (hs : s.Grounded) (ht : t.Grounded) {id : ExprId}
    (hid : id.index < s.exprs.size) : t.exprTree id = s.exprTree id := by
  obtain ⟨rank, hr⟩ := hs.exprs
  induction id using hs.expr_induction with
  | step id ih =>
      rw [ht.exprTree_eq, hs.exprTree_eq, h.expr_eq id hid]
      exact congrArg _ (ExprNode.map_congr fun c hc => ih c hc (hr.falls id c hc).1)

/-- The tree of an old slot is as it was. -/
theorem Extends.stmtTree_eq (h : s.Extends t) (hs : s.Grounded) (ht : t.Grounded) {id : StmtId}
    (hid : id.index < s.stmts.size) : t.stmtTree id = s.stmtTree id := by
  obtain ⟨rank, hr⟩ := hs.stmts
  induction id using hs.stmt_induction with
  | step id ih =>
      rw [ht.stmtTree_eq, hs.stmtTree_eq, h.stmt_eq id hid]
      exact congrArg _ (StmtNode.map_congr
        (fun e he => h.exprTree_eq hs ht (hs.stmtExprs id e he))
        fun c hc => ih c hc (hr.falls id c hc).1)

/-- Trees were laid out in a shader, one for each of the slots `stmts` and `exprs`. -/
structure Placed (s : Shader) (stmts : List StmtId) (exprs : List ExprId)
    (stmtTrees : List (Stmt Unit Unit)) (exprTrees : List (Expr Unit)) (t : Shader) : Prop where
  extend : s.Extends t
  layered : t.Layered
  stmts_lt : ∀ id ∈ stmts, id.index < t.stmts.size
  exprs_lt : ∀ id ∈ exprs, id.index < t.exprs.size
  ownsStmts : ∀ pending, s.OwnsStmts pending → t.OwnsStmts (stmts + pending)
  ownsExprs : ∀ pending, s.OwnsExprs pending → t.OwnsExprs (exprs + pending)
  stmtTrees_eq : stmts.map (fun id => (t.stmtTree id).erase) = stmtTrees
  exprTrees_eq : exprs.map (fun id => (t.exprTree id).erase) = exprTrees

theorem Placed.nil (h : s.Layered) : s.Placed [] [] [] [] s where
  extend := Extends.refl s
  layered := h
  stmts_lt := by simp
  exprs_lt := by simp
  ownsStmts pending ho := by simpa using ho
  ownsExprs pending ho := by simpa using ho
  stmtTrees_eq := rfl
  exprTrees_eq := rfl

/-- One row of trees after another. -/
theorem Placed.append {stmts stmts' : List StmtId} {exprs exprs' : List ExprId}
    {stmtTrees stmtTrees' : List (Stmt Unit Unit)} {exprTrees exprTrees' : List (Expr Unit)}
    (h : s.Placed stmts exprs stmtTrees exprTrees t)
    (h' : t.Placed stmts' exprs' stmtTrees' exprTrees' u) :
    s.Placed (stmts ++ stmts') (exprs ++ exprs') (stmtTrees ++ stmtTrees')
      (exprTrees ++ exprTrees') u where
  extend := h.extend.trans h'.extend
  layered := h'.layered
  stmts_lt id hid := by
    rcases List.mem_append.mp hid with hid | hid
    · exact (h.stmts_lt id hid).trans_le h'.extend.stmts_le
    · exact h'.stmts_lt id hid
  exprs_lt id hid := by
    rcases List.mem_append.mp hid with hid | hid
    · exact (h.exprs_lt id hid).trans_le h'.extend.exprs_le
    · exact h'.exprs_lt id hid
  ownsStmts pending ho := by
    have hu := h'.ownsStmts _ (h.ownsStmts pending ho)
    rwa [← add_assoc, add_comm (stmts' : Multiset StmtId), Multiset.coe_add] at hu
  ownsExprs pending ho := by
    have hu := h'.ownsExprs _ (h.ownsExprs pending ho)
    rwa [← add_assoc, add_comm (exprs' : Multiset ExprId), Multiset.coe_add] at hu
  stmtTrees_eq := by
    rw [List.map_append, h'.stmtTrees_eq, ← h.stmtTrees_eq]
    congr 1
    refine List.map_congr_left fun id hid => ?_
    rw [h'.extend.stmtTree_eq h.layered.grounded h'.layered.grounded (h.stmts_lt id hid)]
  exprTrees_eq := by
    rw [List.map_append, h'.exprTrees_eq, ← h.exprTrees_eq]
    congr 1
    refine List.map_congr_left fun id hid => ?_
    rw [h'.extend.exprTree_eq h.layered.grounded h'.layered.grounded (h.exprs_lt id hid)]

theorem extends_addExpr (s : Shader) (node : ExprNode ExprId) : s.Extends (s.addExpr node).2 where
  exprs_le := by simp
  stmts_le := le_rfl
  expr_eq _ hid := expr_addExpr_of_lt s node hid
  stmt_eq _ _ := rfl
  version_eq := rfl
  decls_eq := rfl
  declNodes_eq := rfl
  allLive hs id hid := by
    rw [liveExprs_addExpr, Multiset.mem_cons]
    have hle : id.index < s.exprs.size + 1 := by simpa using hid
    rcases Nat.lt_succ_iff_lt_or_eq.mp hle with hlt | heq
    · exact Or.inr (hs id hlt)
    · exact Or.inl (congrArg ExprId.mk heq)

theorem extends_addStmt (s : Shader) (node : StmtNode ExprId StmtId) :
    s.Extends (s.addStmt node).2 where
  exprs_le := le_rfl
  stmts_le := by simp
  expr_eq _ _ := rfl
  stmt_eq _ hid := stmt_addStmt_of_lt s node hid
  version_eq := rfl
  decls_eq := rfl
  declNodes_eq := rfl
  allLive hs := hs

theorem Layered.addExpr (h : s.Layered) {node : ExprNode ExprId}
    (hc : ∀ c ∈ node.children, c.index < s.exprs.size) : (s.addExpr node).2.Layered where
  exprs id c hcp := by
    rw [exprParts, expr_addExpr] at hcp
    split at hcp
    next hid => exact hid ▸ hc c hcp
    next => exact h.exprs id c hcp
  stmts := h.stmts
  stmtExprs id e he := (h.stmtExprs id e he).trans_le (extends_addExpr s node).exprs_le
  inits id e he := (h.inits id e he).trans_le (extends_addExpr s node).exprs_le
  bodies := h.bodies

theorem Layered.addStmt (h : s.Layered) {node : StmtNode ExprId StmtId}
    (hc : ∀ c ∈ node.childStmts, c.index < s.stmts.size)
    (he : ∀ e ∈ node.childExprs, e.index < s.exprs.size) : (s.addStmt node).2.Layered where
  exprs := h.exprs
  stmts id c hcp := by
    rw [stmtParts, stmt_addStmt] at hcp
    split at hcp
    next hid => exact hid ▸ hc c hcp
    next => exact h.stmts id c hcp
  stmtExprs id e hep := by
    rw [stmt_addStmt] at hep
    split at hep
    next => exact he e hep
    next => exact h.stmtExprs id e hep
  inits := h.inits
  bodies id t ht := (h.bodies id t ht).trans_le (extends_addStmt s node).stmts_le

/-- Puts an expression above the trees that were laid out. -/
theorem Placed.addExpr {node : ExprNode ExprId} {exprTrees : List (Expr Unit)}
    {form : ExprNode (Expr Unit)} (h : s.Placed [] node.children [] exprTrees t)
    (hform : node.map (fun id => (t.exprTree id).erase) = form) :
    s.Placed [] [(t.addExpr node).1] [] [.node () form] (t.addExpr node).2 := by
  have hlayered : (t.addExpr node).2.Layered := h.layered.addExpr h.exprs_lt
  have hext := extends_addExpr t node
  refine ⟨h.extend.trans hext, hlayered, by simp, ?_, fun p ho => ?_, fun p ho => ?_, rfl, ?_⟩
  · intro id hid
    obtain rfl := List.mem_singleton.mp hid
    simp [Shader.addExpr]
  · exact (h.ownsStmts p ho).of_stmts_eq rfl rfl
  · rw [Multiset.coe_singleton, Multiset.singleton_add]
    exact (h.ownsExprs p ho).addExpr
  · rw [List.map_singleton, hlayered.grounded.exprTree_eq, expr_addExpr_self, Expr.erase_node,
      ExprNode.map_map, ← hform]
    congr 2
    refine ExprNode.map_congr fun c hc => ?_
    rw [Function.comp_apply,
      hext.exprTree_eq h.layered.grounded hlayered.grounded (h.exprs_lt c hc)]

/-- Puts a statement above the trees that were laid out. -/
theorem Placed.addStmt {node : StmtNode ExprId StmtId} {stmtTrees : List (Stmt Unit Unit)}
    {exprTrees : List (Expr Unit)} {form : StmtNode (Expr Unit) (Stmt Unit Unit)}
    (h : s.Placed node.childStmts node.childExprs stmtTrees exprTrees t)
    (hform : node.map (fun id => (t.exprTree id).erase) (fun id => (t.stmtTree id).erase) = form) :
    s.Placed [(t.addStmt node).1] [] [.node () form] [] (t.addStmt node).2 := by
  have hlayered : (t.addStmt node).2.Layered := h.layered.addStmt h.stmts_lt h.exprs_lt
  have hext := extends_addStmt t node
  refine ⟨h.extend.trans hext, hlayered, ?_, by simp, fun p ho => ?_, fun p ho => ?_, ?_, rfl⟩
  · intro id hid
    obtain rfl := List.mem_singleton.mp hid
    simp [Shader.addStmt]
  · rw [Multiset.coe_singleton, Multiset.singleton_add]
    exact (h.ownsStmts p ho).addStmt
  · rw [Multiset.coe_nil, zero_add]
    exact (h.ownsExprs p ho).addStmt
  · rw [List.map_singleton, hlayered.grounded.stmtTree_eq, stmt_addStmt_self, Stmt.erase_node,
      StmtNode.map_map, ← hform]
    congr 2
    refine StmtNode.map_congr (fun e he => ?_) fun c hc => ?_
    · rw [Function.comp_apply,
        hext.exprTree_eq h.layered.grounded hlayered.grounded (h.exprs_lt e he)]
    · rw [Function.comp_apply,
        hext.stmtTree_eq h.layered.grounded hlayered.grounded (h.stmts_lt c hc)]

end Shader

namespace Expr

variable {ε : Type} {s : Shader}

theorem length_placeAll (es : List (Expr ε)) (s : Shader) :
    (placeAll es s).1.length = es.length := by
  induction es generalizing s with
  | nil => rfl
  | cons e es ih => exact congrArg (· + 1) (ih _)

/-- An expression is laid out by laying out its parts in order and then its node. -/
theorem place_node (tag : ε) (form : ExprNode (Expr ε)) (s : Shader) :
    ∃ node : ExprNode ExprId,
      (Expr.node tag form).place s = (placeAll form.children s).2.addExpr node ∧
        node.children = (placeAll form.children s).1 ∧ node.shape = form.shape := by
  cases form with
  | literal value => exact ⟨.literal value, rfl, rfl, rfl⟩
  | ident name => exact ⟨.ident name, rfl, rfl, rfl⟩
  | paren inner => exact ⟨.paren _, rfl, rfl, rfl⟩
  | unary op operand => exact ⟨.unary op _, rfl, rfl, rfl⟩
  | binary op lhs rhs => exact ⟨.binary op _ _, rfl, rfl, rfl⟩
  | ternary cond onTrue onFalse => exact ⟨.ternary _ _ _, rfl, rfl, rfl⟩
  | call callee args =>
      refine ⟨.call callee (placeAll args s).1, rfl, rfl, ?_⟩
      simp [ExprNode.shape, ExprNode.map, length_placeAll]
  | member base field => exact ⟨.member _ field, rfl, rfl, rfl⟩
  | index base offset => exact ⟨.index _ _, rfl, rfl, rfl⟩

theorem placed_placeAll {es : List (Expr ε)}
    (h : ∀ e ∈ es, ∀ s : Shader, s.Layered →
      s.Placed [] [(e.place s).1] [] [e.erase] (e.place s).2)
    (hs : s.Layered) :
    s.Placed [] (placeAll es s).1 [] (es.map erase) (placeAll es s).2 := by
  induction es generalizing s with
  | nil => exact Shader.Placed.nil hs
  | cons e es ih =>
      have he := h e List.mem_cons_self s hs
      exact he.append (ih (fun e' he' => h e' (List.mem_cons_of_mem e he')) he.layered)

theorem placed_place (e : Expr ε) (hs : s.Layered) :
    s.Placed [] [(e.place s).1] [] [e.erase] (e.place s).2 := by
  induction e generalizing s with
  | node tag form ih =>
      obtain ⟨node, hplace, hchildren, hshape⟩ := place_node tag form s
      have hparts := placed_placeAll (fun e he s hs => ih e he hs) hs
      rw [← hchildren] at hparts
      have hform : node.map (fun id => ((placeAll form.children s).2.exprTree id).erase) =
          form.map erase :=
        ExprNode.map_eq_map_of_shape hshape hparts.exprTrees_eq
      rw [hplace, erase_node]
      exact hparts.addExpr hform

theorem placed_placeOption (o : Option (Expr ε)) (hs : s.Layered) :
    s.Placed [] (placeOption o s).1.toList [] (o.toList.map erase) (placeOption o s).2 := by
  cases o with
  | none => exact Shader.Placed.nil hs
  | some e => exact placed_place e hs

end Expr

namespace Declarator

variable {ε : Type}

theorem filterMap_init_cons {ρ : Type} (d : Declarator ρ) (ds : List (Declarator ρ)) :
    (d :: ds).filterMap init = d.init.toList ++ ds.filterMap init := by
  cases h : d.init <;> simp [h]

theorem placed_placeAll (ds : List (Declarator (Expr ε))) {s : Shader} (hs : s.Layered) :
    s.Placed [] ((placeAll ds s).1.filterMap init) [] ((ds.filterMap init).map Expr.erase)
      (placeAll ds s).2 := by
  induction ds generalizing s with
  | nil => exact Shader.Placed.nil hs
  | cons d ds ih =>
      have hd := Expr.placed_placeOption d.init hs
      have happend := hd.append (ih hd.layered)
      rw [← List.map_append, ← filterMap_init_cons] at happend
      have hcons : (placeAll (d :: ds) s).1.filterMap init = (Expr.placeOption d.init s).1.toList ++
          (placeAll ds (Expr.placeOption d.init s).2).1.filterMap init :=
        filterMap_init_cons _ _
      rw [hcons]
      exact happend

theorem map_unit_placeAll (ds : List (Declarator (Expr ε))) (s : Shader) :
    (placeAll ds s).1.map (map fun _ => ()) = ds.map (map fun _ => ()) := by
  induction ds generalizing s with
  | nil => rfl
  | cons d ds ih =>
      have hd : (map (fun _ => ()) ⟨d.name, d.arraySize, (Expr.placeOption d.init s).1⟩ :
          Declarator Unit) = d.map fun _ => () := by
        obtain ⟨name, size, init⟩ := d
        cases init <;> rfl
      rw [List.map_cons, ← ih (Expr.placeOption d.init s).2, ← hd]
      rfl

end Declarator

namespace VarDecl

variable {ε : Type}

theorem placed_place (v : VarDecl (Expr ε)) {s : Shader} (hs : s.Layered) :
    s.Placed [] (v.place s).1.inits [] (v.inits.map Expr.erase) (v.place s).2 :=
  Declarator.placed_placeAll v.declarators hs

theorem map_unit_place (v : VarDecl (Expr ε)) (s : Shader) :
    (v.place s).1.map (fun _ => ()) = v.map fun _ => () :=
  congrArg (VarDecl.mk v.type) (Declarator.map_unit_placeAll v.declarators s)

end VarDecl

namespace Stmt

variable {ε σ : Type} {s : Shader}

theorem length_placeAll (ts : List (Stmt ε σ)) (s : Shader) :
    (placeAll ts s).1.length = ts.length := by
  induction ts generalizing s with
  | nil => rfl
  | cons t ts ih => exact congrArg (· + 1) (ih _)

theorem placed_placeAll {ts : List (Stmt ε σ)}
    (h : ∀ t ∈ ts, ∀ s : Shader, s.Layered →
      s.Placed [(t.place s).1] [] [t.erase] [] (t.place s).2)
    (hs : s.Layered) :
    s.Placed (placeAll ts s).1 [] (ts.map erase) [] (placeAll ts s).2 := by
  induction ts generalizing s with
  | nil => exact Shader.Placed.nil hs
  | cons t ts ih =>
      have ht := h t List.mem_cons_self s hs
      exact ht.append (ih (fun t' ht' => h t' (List.mem_cons_of_mem t ht')) ht.layered)

/-- A statement is laid out by laying out its parts and then its node. -/
theorem place_node (tag : σ) (form : StmtNode (Expr ε) (Stmt ε σ))
    (ih : ∀ t ∈ form.childStmts, ∀ s : Shader, s.Layered →
      s.Placed [(t.place s).1] [] [t.erase] [] (t.place s).2) (hs : s.Layered) :
    ∃ (node : StmtNode ExprId StmtId) (t : Shader),
      (Stmt.node tag form).place s = t.addStmt node ∧
        s.Placed node.childStmts node.childExprs (form.childStmts.map erase)
          (form.childExprs.map Expr.erase) t ∧ node.shape = form.shape := by
  have hexpr : ∀ (e : Expr ε) {s : Shader}, s.Layered →
      s.Placed [] [(e.place s).1] [] [e.erase] (e.place s).2 :=
    fun e _ hs => Expr.placed_place e hs
  cases form with
  | block body =>
      refine ⟨.block (placeAll body s).1, _, rfl, placed_placeAll ih hs, ?_⟩
      simp [StmtNode.shape, StmtNode.map, length_placeAll]
  | vars decl =>
      refine ⟨.vars _, _, rfl, decl.placed_place hs, ?_⟩
      exact congrArg StmtNode.vars (decl.map_unit_place s)
  | expr value => exact ⟨.expr _, _, rfl, hexpr value hs, rfl⟩
  | ifElse cond onTrue onFalse =>
      have hcond := hexpr cond hs
      have htrue := ih onTrue (by simp [StmtNode.childStmts]) _ hcond.layered
      cases onFalse with
      | none => exact ⟨.ifElse _ _ none, _, rfl, hcond.append htrue, rfl⟩
      | some onFalse =>
          have hfalse := ih onFalse (by simp [StmtNode.childStmts]) _ htrue.layered
          exact ⟨.ifElse _ _ (some _), _, rfl, (hcond.append htrue).append hfalse, rfl⟩
  | forLoop start cond step body =>
      have hstart := ih start (by simp [StmtNode.childStmts]) _ hs
      have hcond := Expr.placed_placeOption cond hstart.layered
      have hstep := Expr.placed_placeOption step hcond.layered
      have hbody := ih body (by simp [StmtNode.childStmts]) _ hstep.layered
      have hall := ((hstart.append hcond).append hstep).append hbody
      simp only [List.append_nil, List.nil_append, ← List.map_append] at hall
      refine ⟨.forLoop _ _ _ _, _, rfl, hall, ?_⟩
      cases cond <;> cases step <;> rfl
  | whileLoop cond body =>
      have hcond := hexpr cond hs
      exact ⟨.whileLoop _ _, _, rfl,
        hcond.append (ih body (by simp [StmtNode.childStmts]) _ hcond.layered), rfl⟩
  | doWhile body cond =>
      have hbody := ih body (by simp [StmtNode.childStmts]) _ hs
      exact ⟨.doWhile _ _, _, rfl, hbody.append (hexpr cond hbody.layered), rfl⟩
  | returns value =>
      refine ⟨.returns _, _, rfl, Expr.placed_placeOption value hs, ?_⟩
      cases value <;> rfl
  | breaks => exact ⟨.breaks, _, rfl, Shader.Placed.nil hs, rfl⟩
  | continues => exact ⟨.continues, _, rfl, Shader.Placed.nil hs, rfl⟩
  | discards => exact ⟨.discards, _, rfl, Shader.Placed.nil hs, rfl⟩
  | empty => exact ⟨.empty, _, rfl, Shader.Placed.nil hs, rfl⟩

theorem placed_place (t : Stmt ε σ) (hs : s.Layered) :
    s.Placed [(t.place s).1] [] [t.erase] [] (t.place s).2 := by
  induction t generalizing s with
  | node tag form ih =>
      obtain ⟨node, t, hplace, hparts, hshape⟩ := place_node tag form (fun t ht s hs => ih t ht hs) hs
      have hform : node.map (fun id => (t.exprTree id).erase) (fun id => (t.stmtTree id).erase) =
          form.map Expr.erase erase :=
        StmtNode.map_eq_map_of_shape hshape hparts.exprTrees_eq hparts.stmtTrees_eq
      rw [hplace, erase_node]
      exact hparts.addStmt hform

end Stmt

namespace Shader

variable {ε σ : Type} {s t : Shader}

/-- A shader that is laid out: nothing is pending, and its declarations are in a row. -/
structure LaidOut (s : Shader) : Prop where
  layered : s.Layered
  owned : s.Owned
  decls_lt : ∀ d ∈ s.decls, d.index < s.declNodes.size
  allLive : s.AllLive

theorem laidOut_empty (version : Option Version) : LaidOut { version := version } := by
  refine ⟨⟨?_, ?_, ?_, ?_, ?_⟩, ⟨⟨List.nodup_nil, ?_⟩, ?_, ?_⟩, by simp, fun _ hid => ?_⟩
  · simp [exprParts, expr, Arena.get?, ExprNode.children]
  · simp [stmtParts, stmt, Arena.get?, StmtNode.childStmts]
  · simp [stmt, Arena.get?, StmtNode.childExprs]
  · simp [decl, Arena.get?, Decl.inits]
  · simp [decl, Arena.get?, Decl.bodies]
  · simp [Arena.isLive]
  · simp [OwnsStmts, Forest, bodyRoots, liveStmts, Arena.liveSlots, Arena.size]
  · simp [OwnsExprs, Forest, initRoots, liveStmts, liveExprs, Arena.liveSlots, Arena.size]
  · exact absurd hid (by simp [Arena.size])

theorem decl_addDecl_of_lt (s : Shader) (node : Decl ExprId StmtId) {id : DeclId}
    (h : id.index < s.declNodes.size) : (s.addDecl node).2.decl id = s.decl id := by
  rw [decl_addDecl, if_neg (by omega)]

theorem Layered.addDecl (h : s.Layered) {node : Decl ExprId StmtId}
    (hb : ∀ b ∈ node.bodies, b.index < s.stmts.size)
    (hi : ∀ e ∈ node.inits, e.index < s.exprs.size) : (s.addDecl node).2.Layered where
  exprs := h.exprs
  stmts := h.stmts
  stmtExprs := h.stmtExprs
  inits id e he := by
    rw [decl_addDecl] at he
    split at he
    next => exact hi e he
    next => exact h.inits id e he
  bodies id b hbp := by
    rw [decl_addDecl] at hbp
    split at hbp
    next => exact hb b hbp
    next => exact h.bodies id b hbp

theorem OwnsDecls.addDecl (h : s.OwnsDecls) (hlt : ∀ d ∈ s.decls, d.index < s.declNodes.size)
    (node : Decl ExprId StmtId) : (s.addDecl node).2.OwnsDecls := by
  have hnew : (⟨s.declNodes.size⟩ : DeclId) ∉ s.decls := fun hmem => Nat.lt_irrefl _ (hlt _ hmem)
  refine ⟨?_, fun d => ?_⟩
  · exact List.nodup_append.mpr ⟨h.nodup, List.nodup_singleton _, fun a ha b hb hab =>
      hnew (List.mem_singleton.mp hb ▸ hab ▸ ha)⟩
  · change (s.declNodes.push node).isLive d.index = true ↔ d ∈ s.decls ++ [⟨s.declNodes.size⟩]
    rw [Arena.isLive_push, Bool.or_eq_true, h.isLive_iff, List.mem_append, List.mem_singleton,
      beq_iff_eq]
    cases d
    simp

/-- What a new declaration names is a root. -/
theorem roots_addDecl (s : Shader) (hlt : ∀ d ∈ s.decls, d.index < s.declNodes.size)
    (node : Decl ExprId StmtId) :
    (s.addDecl node).2.bodyRoots = s.bodyRoots + node.bodies ∧
      (s.addDecl node).2.initRoots = s.initRoots + node.inits := by
  have hdecls : ((s.addDecl node).2.decls : Multiset DeclId) =
      s.decls + {(s.addDecl node).1} := by
    rw [← Multiset.coe_singleton, Multiset.coe_add]
    rfl
  have hold : ∀ d ∈ (s.decls : Multiset DeclId), (s.addDecl node).2.decl d = s.decl d :=
    fun d hd => decl_addDecl_of_lt s node (hlt d hd)
  constructor
  · rw [bodyRoots, hdecls, Multiset.add_bind, Multiset.singleton_bind, decl_addDecl_self, bodyRoots]
    rw [Multiset.bind_congr fun d hd => by rw [hold d hd]]
  · rw [initRoots, hdecls, Multiset.add_bind, Multiset.singleton_bind, decl_addDecl_self, initRoots]
    rw [Multiset.bind_congr fun d hd => by rw [hold d hd]]

/-- Puts a declaration above the trees that were laid out. -/
theorem LaidOut.addDecl {node : Decl ExprId StmtId} {stmtTrees : List (Stmt Unit Unit)}
    {exprTrees : List (Expr Unit)} (hs : s.LaidOut)
    (h : s.Placed node.bodies node.inits stmtTrees exprTrees t) :
    (t.addDecl node).2.LaidOut ∧
      (t.addDecl node).2.declTrees.map DeclTree.erase = s.declTrees.map DeclTree.erase ++
        [node.map (fun id => (t.exprTree id).erase) (fun id => (t.stmtTree id).erase)] := by
  have hlt : ∀ d ∈ t.decls, d.index < t.declNodes.size := by
    rw [h.extend.decls_eq, h.extend.declNodes_eq]
    exact hs.decls_lt
  have howns : t.OwnsDecls := by
    refine ⟨?_, ?_⟩
    · rw [h.extend.decls_eq]
      exact hs.owned.decls.nodup
    · rw [h.extend.decls_eq, h.extend.declNodes_eq]
      exact hs.owned.decls.isLive_iff
  have hroots := roots_addDecl t hlt node
  have hexpr : (t.addDecl node).2.exprTree = t.exprTree := exprTree_congr rfl rfl
  have hstmt : (t.addDecl node).2.stmtTree = t.stmtTree := stmtTree_congr rfl rfl hexpr
  refine ⟨⟨h.layered.addDecl h.stmts_lt h.exprs_lt, ⟨howns.addDecl hlt node, ?_, ?_⟩, ?_,
    h.extend.allLive hs.allLive⟩, ?_⟩
  · refine (h.ownsStmts 0 hs.owned.stmts).of_stmts_eq rfl ?_
    rw [hroots.1]
    abel
  · refine (h.ownsExprs 0 hs.owned.exprs).of_exprs_eq rfl rfl ?_
    rw [hroots.2]
    abel
  · intro d hd
    rcases List.mem_append.mp hd with hd | hd
    · exact (hlt d hd).trans_le (by simp [Shader.addDecl])
    · rw [List.mem_singleton.mp hd]
      simp [Shader.addDecl]
  · have hsize : s.declNodes = t.declNodes := h.extend.declNodes_eq.symm
    change ((t.decls ++ [(t.addDecl node).1]).map (t.addDecl node).2.declTree).map _ = _
    rw [List.map_append, List.map_append, h.extend.decls_eq, List.map_singleton, List.map_singleton,
      declTree, decl_addDecl_self, hexpr, hstmt, DeclTree.erase, Decl.map_map]
    congr 1
    rw [List.map_map, declTrees, List.map_map]
    refine List.map_congr_left fun d hd => ?_
    have hdecl : (t.addDecl node).2.decl d = s.decl d := by
      rw [decl_addDecl_of_lt t node (hsize ▸ hs.decls_lt d hd), decl, ← hsize]
      rfl
    rw [Function.comp_apply, Function.comp_apply, declTree, hdecl, hexpr, hstmt, declTree]
    refine congrArg DeclTree.erase (Decl.map_congr (fun e he => ?_) fun b hb => ?_)
    · exact h.extend.exprTree_eq hs.layered.grounded h.layered.grounded (hs.layered.inits d e he)
    · exact h.extend.stmtTree_eq hs.layered.grounded h.layered.grounded (hs.layered.bodies d b hb)

end Shader

namespace DeclTree

variable {ε σ : Type} {s : Shader}

/-- A declaration is laid out by laying out what it holds and then its node. -/
theorem place_eq (d : DeclTree ε σ) (hs : s.Layered) :
    ∃ (node : Decl ExprId StmtId) (t : Shader), DeclTree.place d s = t.addDecl node ∧
      s.Placed node.bodies node.inits (d.bodies.map Stmt.erase) (d.inits.map Expr.erase) t ∧
      node.map (fun id => (t.exprTree id).erase) (fun id => (t.stmtTree id).erase) = d.erase := by
  cases d with
  | directive text => exact ⟨.directive text, s, rfl, .nil hs, rfl⟩
  | precision level name => exact ⟨.precision level name, s, rfl, .nil hs, rfl⟩
  | struct decl => exact ⟨.struct decl, s, rfl, .nil hs, rfl⟩
  | function decl =>
      obtain ⟨type, name, params, body⟩ := decl
      cases body with
      | none => exact ⟨.function ⟨type, name, params, none⟩, s, rfl, .nil hs, rfl⟩
      | some body =>
          have hbody := Stmt.placed_place body hs
          refine ⟨.function ⟨type, name, params, some _⟩, _, rfl, hbody, ?_⟩
          have htree := hbody.stmtTrees_eq
          rw [List.map_singleton, List.singleton_inj] at htree
          simp only [Decl.map, DeclTree.erase, Option.map_some]
          rw [htree]
  | vars decl =>
      have hdecl := decl.placed_place hs
      refine ⟨.vars _, _, rfl, hdecl, congrArg Decl.vars ?_⟩
      exact VarDecl.map_eq_map_of_shape (decl.map_unit_place s) hdecl.exprTrees_eq

/-- Laying out a declaration adds it at the end. -/
theorem laidOut_place (d : DeclTree ε σ) (hs : s.LaidOut) :
    (DeclTree.place d s).2.LaidOut ∧
      (DeclTree.place d s).2.declTrees.map erase = s.declTrees.map erase ++ [d.erase] ∧
      (DeclTree.place d s).2.version = s.version := by
  obtain ⟨node, t, hplace, hparts, htree⟩ := place_eq d hs.layered
  obtain ⟨hlaid, htrees⟩ := hs.addDecl hparts
  rw [hplace, htrees, htree]
  exact ⟨hlaid, rfl, hparts.extend.version_eq⟩

end DeclTree

namespace Shader

variable {ε σ : Type}

theorem laidOut_placeDecls (ds : List (DeclTree ε σ)) {s : Shader} (hs : s.LaidOut) :
    (placeDecls ds s).LaidOut ∧
      (placeDecls ds s).declTrees.map DeclTree.erase =
        s.declTrees.map DeclTree.erase ++ ds.map DeclTree.erase ∧
      (placeDecls ds s).version = s.version := by
  induction ds generalizing s with
  | nil => exact ⟨hs, by simp [placeDecls], rfl⟩
  | cons d ds ih =>
      obtain ⟨hlaid, htrees, hversion⟩ := DeclTree.laidOut_place d hs
      obtain ⟨hlaid', htrees', hversion'⟩ := ih hlaid
      rw [placeDecls, htrees', htrees, hversion', hversion]
      exact ⟨hlaid', by simp, rfl⟩

theorem laidOut_ofProgram (p : Program) : (ofProgram p).LaidOut :=
  (laidOut_placeDecls p.decls (laidOut_empty p.version)).1

theorem laidOut_compact (s : Shader) : s.compact.LaidOut :=
  (laidOut_placeDecls s.declTrees (laidOut_empty s.version)).1

/-- Forgetting tags that are not there changes nothing. -/
theorem map_erase_unit (ds : List (DeclTree Unit Unit)) : ds.map DeclTree.erase = ds := by
  have hexpr : (Expr.erase : Expr Unit → Expr Unit) = id := by
    funext e
    induction e with
    | node tag form ih =>
        rw [Expr.erase_node, ExprNode.map_congr ih, ExprNode.map_id]
        rfl
  have hstmt : (Stmt.erase : Stmt Unit Unit → Stmt Unit Unit) = id := by
    funext t
    induction t with
    | node tag form ih =>
        rw [Stmt.erase_node, hexpr, StmtNode.map_congr (fun _ _ => rfl) ih, StmtNode.map_id]
        rfl
  have hdecl : (DeclTree.erase : DeclTree Unit Unit → DeclTree Unit Unit) = id := by
    funext d
    rw [DeclTree.erase, hexpr, hstmt, Decl.map_id]
    rfl
  rw [hdecl, List.map_id]

/-- The shader of a program has the syntax of the program. -/
theorem toProgram_ofProgram (p : Program) : (ofProgram p).toProgram = p := by
  obtain ⟨-, htrees, hversion⟩ := laidOut_placeDecls p.decls (laidOut_empty p.version)
  rw [map_erase_unit p.decls] at htrees
  rw [toProgram, ofProgram, htrees, hversion]
  rfl

/-- A shader has the same syntax after it is made compact. -/
theorem toProgram_compact (s : Shader) : s.compact.toProgram = s.toProgram := by
  obtain ⟨-, htrees, hversion⟩ := laidOut_placeDecls s.declTrees (laidOut_empty s.version)
  rw [toProgram, compact, htrees, hversion]
  rfl

end Shader

end ShaderReducer
