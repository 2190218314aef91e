import ShaderReducer.Analysis.Uses
import ShaderReducer.Proofs.Shader.Places

/-!
# What a part of a shader mentions

A call mentions the name that is called, an identifier its name, a declaration the types that it is
made with, and a statement its own slot. A node mentions what the nodes below it do. The uses of names
in a shader are what its declarations mention.
-/

namespace ShaderReducer

/-- What can be mentioned in a shader. -/
inductive Mention where
  | call (name : String)
  | identifier (name : String)
  | typeName (name : String)
  | stmt (id : StmtId)

/-- A mention that is made by an expression. -/
def Mention.IsExpr : Mention → Prop
  | call _ | identifier _ => True
  | typeName _ | stmt _ => False

/-- What a form of expression mentions by itself. -/
def ExprNode.mentions {ρ : Type} : ExprNode ρ → List Mention
  | .call callee _ => [.call callee]
  | .ident name => [.identifier name]
  | _ => []

/-- What a form of statement mentions by itself. -/
def StmtNode.mentions {ρ σ : Type} : StmtNode ρ σ → List Mention
  | .vars decl => [.typeName decl.type.name]
  | _ => []

/-- What a form of declaration mentions by itself. -/
def Decl.mentions {ρ σ : Type} : Decl ρ σ → List Mention
  | .function decl =>
    .typeName decl.returnType.name :: decl.params.map fun param => .typeName param.type.name
  | .struct decl => decl.fields.map fun field => .typeName field.type.name
  | .vars decl => [.typeName decl.type.name]
  | .directive _ | .precision _ _ => []

@[simp] theorem ExprNode.mentions_map {ρ τ : Type} (f : ρ → τ) (e : ExprNode ρ) :
    (e.map f).mentions = e.mentions := by
  cases e <;> rfl

@[simp] theorem StmtNode.mentions_map {ρ σ ρ' σ' : Type} (f : ρ → ρ') (g : σ → σ')
    (t : StmtNode ρ σ) : (t.map f g).mentions = t.mentions := by
  cases t <;> rfl

namespace Shader

variable {s t : Shader} {m : Mention}

/-- What a node mentions by itself. -/
def mentionsAt (s : Shader) : NodeId → List Mention
  | .decl id => (s.decl id).mentions
  | .stmt id => .stmt id :: (s.stmt id).mentions
  | .expr id => (s.expr id).mentions

/-- What a node mentions, by itself or in a node below it. -/
inductive Mentions (s : Shader) (m : Mention) : NodeId → Prop
  | here {n : NodeId} (h : m ∈ s.mentionsAt n) : Mentions s m n
  | inStmt {n : NodeId} {t : StmtId} (ht : t ∈ s.stmtsIn n) (h : Mentions s m (.stmt t)) :
    Mentions s m n
  | inExpr {n : NodeId} {e : ExprId} (he : e ∈ s.exprsIn n) (h : Mentions s m (.expr e)) :
    Mentions s m n

theorem Mentions.of_exprBelow {id part : ExprId} (hbelow : s.ExprBelow id part)
    (h : s.Mentions m (.expr part)) : s.Mentions m (.expr id) := by
  induction hbelow with
  | single hpart => exact .inExpr hpart h
  | tail _ hpart ih => exact ih (.inExpr hpart h)

theorem Mentions.of_stmtBelow {id part : StmtId} (hbelow : s.StmtBelow id part)
    (h : s.Mentions m (.stmt part)) : s.Mentions m (.stmt id) := by
  induction hbelow with
  | single hpart => exact .inStmt hpart h
  | tail _ hpart ih => exact ih (.inStmt hpart h)

/-! ## Mentions and slots -/

/-- An expression mentions what the nodes in the slots below it do. -/
theorem Grounded.mentions_expr (h : s.Grounded) {id : ExprId} :
    s.Mentions m (.expr id) ↔ ∃ e ∈ s.exprSlots id, m ∈ (s.expr e).mentions := by
  induction id using h.expr_induction with
  | step id ih =>
      rw [h.exprSlots_eq]
      constructor
      · intro hm
        cases hm with
        | here hhere => exact ⟨id, List.mem_cons_self, hhere⟩
        | inStmt ht => cases ht
        | inExpr hc hm =>
            obtain ⟨e, he, hm⟩ := (ih _ hc).mp hm
            exact ⟨e, List.mem_cons_of_mem _ (List.mem_flatMap.mpr ⟨_, hc, he⟩), hm⟩
      · rintro ⟨e, he, hm⟩
        rcases List.mem_cons.mp he with rfl | he
        · exact .here hm
        · obtain ⟨c, hc, he⟩ := List.mem_flatMap.mp he
          exact .inExpr hc ((ih c hc).mpr ⟨e, he, hm⟩)

/-- A statement mentions what the statements in the slots below it do, and their expressions. -/
theorem Grounded.mentions_stmt (h : s.Grounded) {id : StmtId} :
    s.Mentions m (.stmt id) ↔ ∃ t ∈ s.stmtSlots id, m ∈ s.mentionsAt (.stmt t) ∨
      ∃ e ∈ (s.stmt t).childExprs.flatMap s.exprSlots, m ∈ (s.expr e).mentions := by
  induction id using h.stmt_induction with
  | step id ih =>
      rw [h.stmtSlots_eq]
      constructor
      · intro hm
        cases hm with
        | here hhere => exact ⟨id, List.mem_cons_self, Or.inl hhere⟩
        | inStmt ht hm =>
            obtain ⟨t, hslot, hm⟩ := (ih _ ht).mp hm
            exact ⟨t, List.mem_cons_of_mem _ (List.mem_flatMap.mpr ⟨_, ht, hslot⟩), hm⟩
        | inExpr hc hm =>
            obtain ⟨e, he, hm⟩ := h.mentions_expr.mp hm
            exact ⟨id, List.mem_cons_self, Or.inr ⟨e, List.mem_flatMap.mpr ⟨_, hc, he⟩, hm⟩⟩
      · rintro ⟨t, ht, hm⟩
        rcases List.mem_cons.mp ht with rfl | ht
        · rcases hm with hm | ⟨e, he, hm⟩
          · exact .here hm
          · obtain ⟨c, hc, he⟩ := List.mem_flatMap.mp he
            exact .inExpr hc (h.mentions_expr.mpr ⟨e, he, hm⟩)
        · obtain ⟨part, hpart, ht⟩ := List.mem_flatMap.mp ht
          exact .inStmt hpart ((ih part hpart).mpr ⟨t, ht, hm⟩)

/-- A declaration mentions what its form does, and what the nodes do that are visited in it. -/
theorem Grounded.mentions_decl (h : s.Grounded) {d : DeclId} :
    s.Mentions m (.decl d) ↔ m ∈ (s.decl d).mentions ∨
      (∃ t ∈ (s.decl d).bodies.flatMap s.stmtSlots, m ∈ s.mentionsAt (.stmt t)) ∨
      ∃ v ∈ (s.declTree d).exprVisits, m ∈ (s.expr v.2.tag).mentions := by
  have hvisits : (∃ v ∈ (s.declTree d).exprVisits, m ∈ (s.expr v.2.tag).mentions) ↔
      (∃ e ∈ (s.decl d).inits.flatMap s.exprSlots, m ∈ (s.expr e).mentions) ∨
      ∃ t ∈ (s.decl d).bodies.flatMap s.stmtSlots,
        ∃ e ∈ (s.stmt t).childExprs.flatMap s.exprSlots, m ∈ (s.expr e).mentions := by
    have hmem : ∀ e, e ∈ ((s.declTree d).exprVisits.map fun v => v.2.tag) ↔ _ := fun e =>
      (h.perm_exprVisits d).mem_iff
    simp only [List.mem_append, List.mem_map] at hmem
    constructor
    · rintro ⟨v, hv, hm⟩
      rcases (hmem v.2.tag).mp ⟨v, hv, rfl⟩ with he | he
      · exact Or.inl ⟨_, he, hm⟩
      · obtain ⟨t, ht, he⟩ := List.mem_flatMap.mp he
        exact Or.inr ⟨t, ht, _, he, hm⟩
    · rintro (⟨e, he, hm⟩ | ⟨t, ht, e, he, hm⟩)
      · obtain ⟨v, hv, rfl⟩ := (hmem e).mpr (Or.inl he)
        exact ⟨v, hv, hm⟩
      · obtain ⟨v, hv, rfl⟩ := (hmem e).mpr (Or.inr (List.mem_flatMap.mpr ⟨t, ht, he⟩))
        exact ⟨v, hv, hm⟩
  rw [hvisits]
  constructor
  · intro hm
    cases hm with
    | here hhere => exact Or.inl hhere
    | inStmt ht hm =>
        obtain ⟨t, hslot, hm⟩ := h.mentions_stmt.mp hm
        have hbody : t ∈ (s.decl d).bodies.flatMap s.stmtSlots := List.mem_flatMap.mpr ⟨_, ht, hslot⟩
        rcases hm with hm | hm
        · exact Or.inr (Or.inl ⟨t, hbody, hm⟩)
        · exact Or.inr (Or.inr (Or.inr ⟨t, hbody, hm⟩))
    | inExpr hc hm =>
        obtain ⟨e, he, hm⟩ := h.mentions_expr.mp hm
        exact Or.inr (Or.inr (Or.inl ⟨e, List.mem_flatMap.mpr ⟨_, hc, he⟩, hm⟩))
  · rintro (hm | ⟨t, ht, hm⟩ | ⟨e, he, hm⟩ | ⟨t, ht, hm⟩)
    · exact .here hm
    · obtain ⟨body, hbody, ht⟩ := List.mem_flatMap.mp ht
      exact .inStmt hbody (h.mentions_stmt.mpr ⟨t, ht, Or.inl hm⟩)
    · obtain ⟨init, hinit, he⟩ := List.mem_flatMap.mp he
      exact .inExpr hinit (h.mentions_expr.mpr ⟨e, he, hm⟩)
    · obtain ⟨body, hbody, ht⟩ := List.mem_flatMap.mp ht
      exact .inStmt hbody (h.mentions_stmt.mpr ⟨t, ht, Or.inr hm⟩)

/-! ## Mentions and uses -/

theorem Grounded.form_of_mem_exprVisits (h : s.Grounded) {d : DeclId} (hd : d ∈ s.decls)
    {v : Nat × Expr ExprId} (hv : v ∈ (s.declTree d).exprVisits) :
    v.2.form.map Expr.tag = s.expr v.2.tag := by
  have hmem : v.2 ∈ s.exprVisits.map Prod.snd := by
    refine List.mem_map_of_mem (List.mem_flatMap.mpr ⟨s.declTree d, ?_, hv⟩)
    exact List.mem_map_of_mem hd
  obtain ⟨depth, tag, form⟩ := v
  exact (h.expr_of_exprTree (h.eq_exprTree_of_mem_exprVisits hmem).symm).2.symm

/-- A declaration mentions a call or an identifier if it is that of an expression that is visited. -/
theorem Grounded.mentions_decl_of_isExpr (h : s.Grounded) {d : DeclId} (hd : d ∈ s.decls)
    (hm : m.IsExpr) :
    s.Mentions m (.decl d) ↔ ∃ v ∈ (s.declTree d).exprVisits, m ∈ v.2.form.mentions := by
  have hdecl : m ∉ (s.decl d).mentions := by
    cases m <;> cases s.decl d <;> simp [Decl.mentions, Mention.IsExpr] at hm ⊢
  have hstmt : ∀ t, m ∉ s.mentionsAt (.stmt t) := by
    intro t
    rw [mentionsAt]
    cases m <;> cases s.stmt t <;> simp [StmtNode.mentions, Mention.IsExpr] at hm ⊢
  have hform : ∀ v ∈ (s.declTree d).exprVisits,
      m ∈ v.2.form.mentions ↔ m ∈ (s.expr v.2.tag).mentions := by
    intro v hv
    rw [← h.form_of_mem_exprVisits hd hv, ExprNode.mentions_map]
  rw [h.mentions_decl]
  constructor
  · rintro (hm | ⟨t, -, hm⟩ | ⟨v, hv, hm⟩)
    · exact absurd hm hdecl
    · exact absurd hm (hstmt t)
    · exact ⟨v, hv, (hform v hv).mpr hm⟩
  · rintro ⟨v, hv, hm⟩
    exact Or.inr (Or.inr ⟨v, hv, (hform v hv).mp hm⟩)

/-- A name is called if a declaration mentions a call of it. -/
theorem Grounded.mem_called (h : s.Grounded) {name : String} :
    name ∈ (NameUses.ofShader s).called ↔ ∃ d ∈ s.decls, s.Mentions (.call name) (.decl d) := by
  have hcalled : ∀ e : Expr ExprId,
      NameUses.calledName? e = some name ↔ .call name ∈ e.form.mentions := by
    rintro ⟨tag, form⟩
    cases form <;> simp [NameUses.calledName?, Expr.form, ExprNode.mentions, eq_comm]
  have hvisited := fun d hd =>
    h.mentions_decl_of_isExpr (m := .call name) (d := d) hd trivial
  simp only [NameUses.ofShader, List.mem_filterMap, exprVisits, declTrees, List.flatMap_map,
    List.mem_flatMap, hcalled]
  constructor
  · rintro ⟨v, ⟨d, hd, hv⟩, hname⟩
    exact ⟨d, hd, (hvisited d hd).mpr ⟨v, hv, hname⟩⟩
  · rintro ⟨d, hd, hm⟩
    obtain ⟨v, hv, hname⟩ := (hvisited d hd).mp hm
    exact ⟨v, ⟨d, hd, hv⟩, hname⟩

/-- The identifiers in a function are those that it mentions. -/
theorem Grounded.mem_identifiersOf (h : s.Grounded) {d : DeclId} (hd : d ∈ s.decls)
    {f : FunctionDecl StmtId} (hf : s.decl d = .function f) {name : String} :
    name ∈ NameUses.identifiersOf (s.declTree d) ↔ s.Mentions (.identifier name) (.decl d) := by
  have hidentifier : ∀ e : Expr ExprId,
      NameUses.identifier? e = some name ↔ .identifier name ∈ e.form.mentions := by
    rintro ⟨tag, form⟩
    cases form <;> simp [NameUses.identifier?, Expr.form, ExprNode.mentions, eq_comm]
  have hidentifiers : NameUses.identifiersOf (s.declTree d) =
      (s.declTree d).exprVisits.filterMap fun v => NameUses.identifier? v.2 := by
    rw [declTree, hf]
    rfl
  have hvisited := h.mentions_decl_of_isExpr (m := .identifier name) hd trivial
  rw [hidentifiers, List.mem_filterMap, hvisited]
  exact exists_congr fun v => and_congr_right fun _ => hidentifier v.2

/-- The statements that are visited in a declaration are those that it mentions. -/
theorem Grounded.mem_stmtVisits (h : s.Grounded) {d : DeclId} {id : StmtId} :
    id ∈ ((s.declTree d).stmtVisits.map Prod.snd).map Stmt.tag ↔ s.Mentions (.stmt id) (.decl d) := by
  have hdecl : Mention.stmt id ∉ (s.decl d).mentions := by
    cases s.decl d <;> simp [Decl.mentions]
  have hexpr : ∀ e, Mention.stmt id ∉ (s.expr e).mentions := by
    intro e
    cases s.expr e <;> simp [ExprNode.mentions]
  have hstmt : ∀ t, Mention.stmt id ∈ s.mentionsAt (.stmt t) ↔ id = t := by
    intro t
    rw [mentionsAt]
    cases s.stmt t <;> simp [StmtNode.mentions]
  rw [map_tag_stmtVisits, h.mentions_decl]
  constructor
  · exact fun hid => Or.inr (Or.inl ⟨id, hid, (hstmt id).mpr rfl⟩)
  · rintro (hm | ⟨t, ht, hm⟩ | ⟨v, -, hm⟩)
    · exact absurd hm hdecl
    · exact (hstmt t).mp hm ▸ ht
    · exact absurd hm (hexpr _)

/-- The types that a declaration names are those that it mentions. -/
theorem Grounded.mem_typeNamesOf (h : s.Grounded) {d : DeclId} (hd : d ∈ s.decls) {name : String} :
    name ∈ NameUses.typeNamesOf (s.declTree d) ↔ s.Mentions (.typeName name) (.decl d) := by
  have hexpr : ∀ e, Mention.typeName name ∉ (s.expr e).mentions := by
    intro e
    cases s.expr e <;> simp [ExprNode.mentions]
  have hlocal : (∃ v ∈ (s.declTree d).stmtVisits, NameUses.localTypeName? v.2 = some name) ↔
      ∃ t ∈ (s.decl d).bodies.flatMap s.stmtSlots, .typeName name ∈ s.mentionsAt (.stmt t) := by
    have hform : ∀ v ∈ (s.declTree d).stmtVisits, NameUses.localTypeName? v.2 = some name ↔
        .typeName name ∈ s.mentionsAt (.stmt v.2.tag) := by
      intro v hv
      have hmem : v.2 ∈ s.stmtVisits.map Prod.snd := by
        refine List.mem_map_of_mem (List.mem_flatMap.mpr ⟨s.declTree d, ?_, hv⟩)
        exact List.mem_map_of_mem hd
      obtain ⟨depth, tag, form⟩ := v
      rw [mentionsAt, (h.stmt_of_stmtTree (h.eq_stmtTree_of_mem_stmtVisits hmem).symm).2,
        StmtNode.mentions_map]
      cases form <;> simp [NameUses.localTypeName?, StmtNode.mentions, eq_comm]
    rw [← map_tag_stmtVisits, List.map_map]
    constructor
    · rintro ⟨v, hv, hname⟩
      exact ⟨v.2.tag, List.mem_map.mpr ⟨v, hv, rfl⟩, (hform v hv).mp hname⟩
    · rintro ⟨t, ht, hm⟩
      obtain ⟨v, hv, rfl⟩ := List.mem_map.mp ht
      exact ⟨v, hv, (hform v hv).mpr hm⟩
  have hnames : name ∈ NameUses.typeNamesOf (s.declTree d) ↔ .typeName name ∈ (s.decl d).mentions ∨
      ∃ v ∈ (s.declTree d).stmtVisits, NameUses.localTypeName? v.2 = some name := by
    rw [declTree]
    cases s.decl d with
    | function decl =>
        simp only [Decl.map, NameUses.typeNamesOf, List.mem_append, List.mem_filterMap, Decl.mentions]
        simp
    | _ => simp [Decl.map, NameUses.typeNamesOf, Decl.mentions, DeclTree.stmtVisits, VarDecl.map, eq_comm]
  rw [hnames, hlocal, h.mentions_decl]
  constructor
  · rintro (hm | hm)
    · exact Or.inl hm
    · exact Or.inr (Or.inl hm)
  · rintro (hm | hm | ⟨v, -, hm⟩)
    · exact Or.inl hm
    · exact Or.inr hm
    · exact absurd hm (hexpr _)

end Shader

end ShaderReducer
