import ShaderReducer.Opportunity.Find
import ShaderReducer.Proofs.Analysis.Renumbered
import ShaderReducer.Proofs.Opportunity.InlinePlan

/-!
# Opportunities of shaders with other numbers

A search reads a shader through its trees, through what is in a few slots that are reached, and
through facts that do not depend on numbers. So two shaders that differ in numbers only have the same
opportunities in the same order, with the numbers in them changed. In particular a shader that is laid
out anew has the opportunities that it had.
-/

namespace ShaderReducer

/-- A change with other numbers. -/
def Change.renumber (ρ : Renumbering) : Change → Change
  | toSubExpr target child => toSubExpr (ρ.expr target) (ρ.expr child)
  | toConstant target constant => toConstant (ρ.expr target) constant
  | removeDecl decl => removeDecl (ρ.decl decl)
  | inlineField outer field => inlineField (ρ.decl outer) field
  | removeStmt block stmt => removeStmt (ρ.stmt block) (ρ.stmt stmt)
  | removeVariable stmt block name => removeVariable (ρ.stmt stmt) (block.map ρ.stmt) name
  | unwrap block target way => unwrap (ρ.stmt block) (ρ.stmt target) way

/-- An opportunity with other numbers. -/
def Opportunity.renumber (ρ : Renumbering) (o : Opportunity) : Opportunity :=
  ⟨o.depth, o.change.renumber ρ⟩

open Shader

variable {ρ : Renumbering} {s t : Shader} {a a' : Analysis}

theorem Shader.tag_mem_exprIds {e : Expr ExprId} (he : e ∈ s.exprVisits.map Prod.snd) :
    e.tag ∈ s.exprIds :=
  mem_exprIds.mpr ⟨e, he, rfl⟩

theorem Shader.tag_mem_stmtIds {u : Stmt ExprId StmtId} (hu : u ∈ s.stmtVisits.map Prod.snd) :
    u.tag ∈ s.stmtIds :=
  mem_stmtIds.mpr ⟨u, hu, rfl⟩

theorem Shader.mem_exprIds_of_mem_children {e : Expr ExprId} (he : e ∈ s.exprVisits.map Prod.snd)
    {child : ExprId} (hchild : child ∈ (e.form.map Expr.tag).children) : child ∈ s.exprIds := by
  rw [ExprNode.children_map] at hchild
  obtain ⟨part, hpart, rfl⟩ := List.mem_map.mp hchild
  exact tag_mem_exprIds (mem_exprVisits_of_mem_children he hpart)

/-! ## Operands -/

namespace SubExpr

theorem isOperation_map {τ υ : Type} (f : τ → υ) (node : ExprNode τ) :
    isOperation (node.map f) = isOperation node := by
  cases node <;> rfl

theorem keepsStorage_map (h : Renumbers ρ s t) {node : ExprNode ExprId}
    (hnode : ∀ c ∈ node.children, c ∈ s.exprIds) {child : ExprId} (hchild : child ∈ s.exprIds) :
    keepsStorage (node.map ρ.expr) (ρ.expr child) = keepsStorage node child := by
  cases node with
  | index base offset =>
      have hinj := h.expr_inj (hnode base (by simp [ExprNode.children])) hchild
      rw [ExprNode.map, keepsStorage, keepsStorage, Bool.eq_iff_iff, beq_iff_eq, beq_iff_eq, hinj]
  | _ => rfl

theorem operands_eq (h : Renumbers ρ s t) (ha : Analysis.Alike ρ s a a') {e : Expr ExprId}
    (he : e ∈ s.exprVisits.map Prod.snd) :
    operands a' (e.retag ρ.expr) = (operands a e).map ρ.expr := by
  have htag := tag_mem_exprIds he
  have hform : (e.retag ρ.expr).form.map Expr.tag = (e.form.map Expr.tag).map ρ.expr := by
    rw [Expr.form_retag, ExprNode.map_map, ExprNode.map_map]
    exact ExprNode.map_congr fun c _ => Expr.tag_retag ρ.expr c
  simp only [operands, hform, isOperation_map, ha.callables_eq, Callables.writesArguments_retag,
    Expr.tag_retag, ha.containsExpr_eq _ htag, ha.get?_eq _ htag, ha.isWritten_eq _ htag]
  split
  next =>
    cases a.types.get? e.tag with
    | none => rfl
    | some type =>
        simp only [ExprNode.children_map _ (e.form.map Expr.tag), List.filter_map]
        refine congrArg (List.map ρ.expr) (List.filter_congr fun child hchild => ?_)
        have hmem := mem_exprIds_of_mem_children he hchild
        rw [Function.comp_apply, ha.get?_eq child hmem,
          keepsStorage_map h (fun c hc => mem_exprIds_of_mem_children he hc) hmem]
  next => rfl

theorem find_eq (h : Renumbers ρ s t) (ha : Analysis.Alike ρ s a a') :
    find t a' = (find s a).map (Opportunity.renumber ρ) := by
  simp only [find, h.exprVisits_eq, List.flatMap_map, List.map_flatMap]
  refine List.flatMap_congr fun v hv => ?_
  simp only [Prod.map_snd, operands_eq h ha (List.mem_map_of_mem hv), List.map_map]
  refine List.map_congr_left fun child _ => ?_
  simp [Opportunity.renumber, Change.renumber]

end SubExpr

/-! ## Constants -/

namespace Constant

theorem isReplaceable_map {τ υ : Type} (f : τ → υ) (node : ExprNode τ) :
    isReplaceable (node.map f) = isReplaceable node := by
  cases node <;> rfl

theorem isAt_eq (h : Renumbers ρ s t) (constant : Constant) {e : Expr ExprId}
    (he : e ∈ s.exprVisits.map Prod.snd) :
    constant.isAt t (ρ.expr e.tag) = constant.isAt s e.tag := by
  have hchildren : ∀ c ∈ (s.expr e.tag).children, c ∈ s.exprIds := fun c hc =>
    mem_exprIds_of_mem_children he (h.source.expr_eq he ▸ hc)
  unfold isAt
  rw [h.expr_eq (tag_mem_exprIds he)]
  cases hexpr : s.expr e.tag with
  | call callee args =>
      rw [hexpr] at hchildren
      cases constant with
      | scalar value => rfl
      | vector constructor element =>
          rcases args with _ | ⟨arg, _ | ⟨arg', args⟩⟩
          · rfl
          · simp only [ExprNode.map, List.map_cons, List.map_nil]
            rw [h.expr_eq (hchildren arg (by simp [ExprNode.children]))]
            cases s.expr arg <;> rfl
          · rfl
  | _ => cases constant <;> rfl

theorem replacement?_eq (h : Renumbers ρ s t) (ha : Analysis.Alike ρ s a a') {e : Expr ExprId}
    (he : e ∈ s.exprVisits.map Prod.snd) :
    replacement? t a' (e.retag ρ.expr) = replacement? s a e := by
  have htag := tag_mem_exprIds he
  simp only [replacement?, Expr.form_retag, isReplaceable_map, ha.callables_eq,
    Callables.writesArguments_retag, Expr.tag_retag, ha.containsExpr_eq _ htag, ha.get?_eq _ htag,
    ha.isWritten_eq _ htag, ha.dialect_eq, isAt_eq h _ he]

theorem find_eq (h : Renumbers ρ s t) (ha : Analysis.Alike ρ s a a') :
    find t a' = (find s a).map (Opportunity.renumber ρ) := by
  simp only [find, h.exprVisits_eq, List.filterMap_map, List.map_filterMap]
  refine List.filterMap_congr fun v hv => ?_
  simp only [Function.comp_apply, Prod.map_snd, replacement?_eq h ha (List.mem_map_of_mem hv),
    Option.map_map, Expr.tag_retag]
  rfl

end Constant

/-! ## Declarations -/

namespace UnusedDecl

theorem isUnused_map (ha : Analysis.Alike ρ s a a') (d : Decl ExprId StmtId) :
    isUnused a'.uses (d.map ρ.expr ρ.stmt) = isUnused a.uses d := by
  cases d <;>
    simp [Decl.map, isUnused, NameUses.calls, NameUses.typeRefs, ha.called_eq, ha.typeNames_eq]

theorem find_eq (h : Renumbers ρ s t) (ha : Analysis.Alike ρ s a a') :
    find t a' = (find s a).map (Opportunity.renumber ρ) := by
  simp only [find, h.decls_eq, List.filter_map, List.map_map]
  have hfilter : s.decls.filter ((fun id => isUnused a'.uses (t.decl id)) ∘ ρ.decl) =
      s.decls.filter fun id => isUnused a.uses (s.decl id) :=
    List.filter_congr fun id hid => by
      rw [Function.comp_apply, h.decl_eq hid, isUnused_map ha]
  rw [hfilter]
  rfl

end UnusedDecl

/-! ## Fields -/

namespace InlineField

/-- An access with other numbers. -/
def Access.renumber (ρ : Renumbering) (access : Access) : Access :=
  ⟨ρ.expr access.member, ρ.expr access.wrapper, ρ.expr access.base, access.position⟩

/-- A plan with other numbers. -/
def Plan.renumber (ρ : Renumbering) (plan : Plan) : Plan :=
  ⟨plan.position, plan.fields, plan.constructors.map ρ.expr, plan.accesses.map (Access.renumber ρ)⟩

theorem wrapperBase?_eq (ha : Analysis.Alike ρ s a a') (outer field : String) {e : Expr ExprId}
    (he : e ∈ s.exprVisits.map Prod.snd) :
    wrapperBase? a'.types outer field (e.retag ρ.expr) =
      (wrapperBase? a.types outer field e).map (Expr.retag ρ.expr) := by
  obtain ⟨tag, form⟩ := e
  cases form with
  | member base name =>
      have hpart : base ∈ (Expr.node tag (.member base name)).form.children := List.mem_cons_self
      have hbase := tag_mem_exprIds (mem_exprVisits_of_mem_children he hpart)
      simp only [Expr.retag, wrapperBase?, Expr.tag_retag, ha.get?_eq _ hbase]
      split <;> rfl
  | _ => rw [Expr.retag_node]; rfl

theorem blocks_eq (ha : Analysis.Alike ρ s a a') (outer : StructDecl) (inner field : String)
    (position : Nat) {e : Expr ExprId} (he : e ∈ s.exprVisits.map Prod.snd) :
    blocks a'.types outer inner field position (e.retag ρ.expr) =
      blocks a.types outer inner field position e := by
  obtain ⟨tag, form⟩ := e
  cases form with
  | member base name =>
      have hpart : base ∈ (Expr.node tag (.member base name)).form.children := List.mem_cons_self
      have hbase := tag_mem_exprIds (mem_exprVisits_of_mem_children he hpart)
      simp only [Expr.retag, blocks, Expr.tag_retag, ha.get?_eq _ hbase]
  | call callee args =>
      rw [Expr.retag, Expr.retagAll_eq_map]
      simp only [blocks, List.length_map, List.getElem?_map, Option.map_map]
      cases args[position]? with
      | none => rfl
      | some arg =>
          simp only [Option.map_some, Function.comp_apply, Expr.stripParens_retag]
          obtain ⟨tag', form'⟩ := arg.stripParens
          rw [Expr.retag_node]
          cases form' <;> rfl
  | _ => rw [Expr.retag_node]; rfl

theorem throughWrapper?_eq (ha : Analysis.Alike ρ s a a') (outer field : String) {e : Expr ExprId}
    (he : e ∈ s.exprVisits.map Prod.snd) :
    throughWrapper? a'.types outer field (e.retag ρ.expr) =
      (throughWrapper? a.types outer field e).map fun row =>
        (ρ.expr row.1, ρ.expr row.2.1, ρ.expr row.2.2.1, row.2.2.2) := by
  obtain ⟨tag, form⟩ := e
  cases form with
  | member wrapper name =>
      have hpart : wrapper ∈ (Expr.node tag (.member wrapper name)).form.children :=
        List.mem_cons_self
      have hwrapper := mem_exprVisits_of_mem_children he hpart
      simp only [Expr.retag, throughWrapper?, wrapperBase?_eq ha outer field hwrapper,
        Option.map_map, Expr.tag_retag, Function.comp_def]
  | _ => rw [Expr.retag_node]; rfl

theorem constructor?_retag (f : ExprId → ExprId) (outer : String) (e : Expr ExprId) :
    constructor? outer (e.retag f) = (constructor? outer e).map f := by
  obtain ⟨tag, form⟩ := e
  rw [Expr.retag_node]
  cases form with
  | call callee args =>
      simp only [ExprNode.map, constructor?]
      split <;> rfl
  | _ => rfl

theorem findStruct?_eq (h : Renumbers ρ s t) (name : String) :
    (t.findStruct? name).map Prod.snd = (s.findStruct? name).map Prod.snd := by
  rw [findStruct?, h.structs_eq, List.find?_map, findStruct?, Option.map_map]
  rfl

theorem exprs_eq (h : Renumbers ρ s t) :
    t.exprVisits.map Prod.snd = (s.exprVisits.map Prod.snd).map (Expr.retag ρ.expr) := by
  rw [h.exprVisits_eq, List.map_map, List.map_map]
  rfl

theorem mapM_map {α β γ δ : Type} {l : List α} {f : α → β} {F : α → Option γ} {F' : β → Option δ}
    {g : γ → δ} (h : ∀ a, F' (f a) = (F a).map g) :
    (l.map f).mapM F' = (l.mapM F).map (List.map g) := by
  induction l with
  | nil => rfl
  | cons a l ih =>
      rw [List.map_cons, List.mapM_cons, List.mapM_cons, h, ih]
      cases F a with
      | none => rfl
      | some c => cases List.mapM F l <;> rfl

/-- An access through a wrapper, if the inner structure has the field. -/
def access? (inner : StructDecl) (row : ExprId × ExprId × ExprId × String) : Option Access :=
  (inner.fieldIndex? row.2.2.2).map fun position => ⟨row.1, row.2.1, row.2.2.1, position⟩

/-- The plan for a field of one structure that holds another, made from some expressions. -/
def planFrom? (types : Types) (exprs : List (Expr ExprId)) (outer inner : StructDecl)
    (field : String) (position : Nat) : Option Plan :=
  if exprs.any (blocks types outer inner.name field position) then none
  else
    ((exprs.filterMap (throughWrapper? types outer.name field)).mapM (access? inner)).bind
      fun accesses =>
      if (exprs.filter fun e => (wrapperBase? types outer.name field e).isSome).all fun e =>
          accesses.any fun access => access.wrapper == e.tag then
        some ⟨position, inner.fields, exprs.filterMap (constructor? outer.name), accesses⟩
      else none

theorem plan?_eq_bind (s : Shader) (types : Types) (d : DeclId) (field : String) :
    plan? s types d field = (s.decl d).struct?.bind fun outer =>
      if !startsWith outer.name structStart || !startsWith field fieldStart then none
      else (outer.fieldIndex? field).bind fun position =>
        outer.fields[position]?.bind fun wrapper =>
          if wrapper.arraySize.isSome || !startsWith wrapper.type.name structStart then none
          else ((s.findStruct? wrapper.type.name).map Prod.snd).bind fun inner =>
            planFrom? types (s.exprVisits.map Prod.snd) outer inner field position := by
  simp only [Option.bind_map]
  rfl

theorem access?_renumber (ρ : Renumbering) (inner : StructDecl)
    (row : ExprId × ExprId × ExprId × String) :
    access? inner (ρ.expr row.1, ρ.expr row.2.1, ρ.expr row.2.2.1, row.2.2.2) =
      (access? inner row).map (Access.renumber ρ) := by
  rw [access?, access?, Option.map_map]
  rfl

/-- The wrappers of a plan are visited. -/
theorem wrapper_mem_exprIds {types : Types} {outer field : String} {inner : StructDecl}
    {accesses : List Access}
    (h : ((s.exprVisits.map Prod.snd).filterMap (throughWrapper? types outer field)).mapM
      (access? inner) = some accesses) {access : Access} (hmem : access ∈ accesses) :
    access.wrapper ∈ s.exprIds := by
  obtain ⟨row, hrow, hmade⟩ := exists_of_forall₂ (forall₂_of_mapM h) hmem
  obtain ⟨position, -, rfl⟩ := Option.map_eq_some_iff.mp hmade
  obtain ⟨e, he, hthrough⟩ := List.mem_filterMap.mp hrow
  obtain ⟨base, rfl, -⟩ := throughWrapper?_eq_some hthrough
  exact tag_mem_exprIds (mem_exprVisits_of_mem_children he List.mem_cons_self)

theorem planFrom?_eq (h : Renumbers ρ s t) (ha : Analysis.Alike ρ s a a') (outer inner : StructDecl)
    (field : String) (position : Nat) :
    planFrom? a'.types (t.exprVisits.map Prod.snd) outer inner field position =
      (planFrom? a.types (s.exprVisits.map Prod.snd) outer inner field position).map
        (Plan.renumber ρ) := by
  have hblocks : ((s.exprVisits.map Prod.snd).map (Expr.retag ρ.expr)).any
      (blocks a'.types outer inner.name field position) =
        (s.exprVisits.map Prod.snd).any (blocks a.types outer inner.name field position) := by
    rw [List.any_map, Bool.eq_iff_iff, List.any_eq_true, List.any_eq_true]
    exact exists_congr fun e => and_congr_right fun he => by
      rw [Function.comp_apply, blocks_eq ha outer inner.name field position he]
  have hthrough : ((s.exprVisits.map Prod.snd).map (Expr.retag ρ.expr)).filterMap
      (throughWrapper? a'.types outer.name field) = ((s.exprVisits.map Prod.snd).filterMap
        (throughWrapper? a.types outer.name field)).map fun row =>
          (ρ.expr row.1, ρ.expr row.2.1, ρ.expr row.2.2.1, row.2.2.2) := by
    rw [List.filterMap_map, List.map_filterMap]
    exact List.filterMap_congr fun e he => throughWrapper?_eq ha outer.name field he
  have hwrappers : ((s.exprVisits.map Prod.snd).map (Expr.retag ρ.expr)).filter
      (fun e => (wrapperBase? a'.types outer.name field e).isSome) =
        ((s.exprVisits.map Prod.snd).filter
          fun e => (wrapperBase? a.types outer.name field e).isSome).map (Expr.retag ρ.expr) := by
    rw [List.filter_map]
    refine congrArg (List.map _) (List.filter_congr fun e he => ?_)
    rw [Function.comp_apply, wrapperBase?_eq ha outer.name field he, Option.isSome_map]
  have hconstructors : ((s.exprVisits.map Prod.snd).map (Expr.retag ρ.expr)).filterMap
      (constructor? outer.name) =
        ((s.exprVisits.map Prod.snd).filterMap (constructor? outer.name)).map ρ.expr := by
    rw [List.filterMap_map, List.map_filterMap]
    exact List.filterMap_congr fun e _ => constructor?_retag ρ.expr outer.name e
  rw [planFrom?, planFrom?, exprs_eq h, hblocks, hthrough, hwrappers, hconstructors,
    mapM_map (access?_renumber ρ inner)]
  split
  next => rfl
  next =>
  cases haccesses : ((s.exprVisits.map Prod.snd).filterMap
      (throughWrapper? a.types outer.name field)).mapM (access? inner) with
  | none => rfl
  | some accesses =>
      have hcovered : ∀ e ∈ (s.exprVisits.map Prod.snd),
          ((accesses.map (Access.renumber ρ)).any fun access =>
            access.wrapper == (e.retag ρ.expr).tag) =
              accesses.any fun access => access.wrapper == e.tag := by
        intro e he
        rw [List.any_map, Bool.eq_iff_iff, List.any_eq_true, List.any_eq_true]
        refine exists_congr fun access => and_congr_right fun hmem => ?_
        rw [Function.comp_apply, Expr.tag_retag, Access.renumber, beq_iff_eq, beq_iff_eq]
        exact h.expr_inj (wrapper_mem_exprIds haccesses hmem) (tag_mem_exprIds he)
      have hall : (((s.exprVisits.map Prod.snd).filter
          fun e => (wrapperBase? a.types outer.name field e).isSome).map (Expr.retag ρ.expr)).all
            (fun e => (accesses.map (Access.renumber ρ)).any fun access =>
              access.wrapper == e.tag) =
          ((s.exprVisits.map Prod.snd).filter
            fun e => (wrapperBase? a.types outer.name field e).isSome).all
              fun e => accesses.any fun access => access.wrapper == e.tag := by
        rw [List.all_map, Bool.eq_iff_iff, List.all_eq_true, List.all_eq_true]
        refine forall₂_congr fun e he => ?_
        rw [Function.comp_apply, hcovered e (List.mem_filter.mp he).1]
      rw [Option.map_some, Option.bind_some, Option.bind_some, hall]
      split <;> rfl

theorem plan?_eq (h : Renumbers ρ s t) (ha : Analysis.Alike ρ s a a') {d : DeclId}
    (hd : d ∈ s.decls) (field : String) :
    plan? t a'.types (ρ.decl d) field = (plan? s a.types d field).map (Plan.renumber ρ) := by
  simp only [plan?_eq_bind, h.decl_eq hd, Decl.struct?_map, findStruct?_eq h, planFrom?_eq h ha,
    Option.map_bind]
  refine congrArg (Option.bind _) (funext fun outer => ?_)
  rw [Function.comp_apply]
  split
  next => rfl
  next =>
  rw [Option.map_bind]
  refine congrArg (Option.bind _) (funext fun position => ?_)
  rw [Function.comp_apply, Option.map_bind]
  refine congrArg (Option.bind _) (funext fun wrapper => ?_)
  rw [Function.comp_apply]
  split
  next => rfl
  next =>
  rw [Option.map_bind]
  rfl

theorem find_eq (h : Renumbers ρ s t) (ha : Analysis.Alike ρ s a a') :
    find t a' = (find s a).map (Opportunity.renumber ρ) := by
  simp only [find, h.structs_eq, List.flatMap_map, List.map_flatMap]
  refine List.flatMap_congr fun d hd => ?_
  have hdecl : d.1 ∈ s.decls := by
    obtain ⟨id, hid, hstruct⟩ := List.mem_filterMap.mp hd
    obtain ⟨decl, -, rfl⟩ := Option.map_eq_some_iff.mp hstruct
    exact hid
  simp only [plan?_eq h ha hdecl, Option.isSome_map, List.map_map]
  rfl

end InlineField

/-! ## Statements -/

namespace Shader.Renumbers

theorem bodies_eq (h : Renumbers ρ s t) : t.bodies = s.bodies.map fun (d, f, body) =>
    (ρ.decl d, f.map ρ.stmt, body.retag ρ.expr ρ.stmt) := by
  rw [bodies, h.functions_eq, List.filterMap_map, bodies, List.map_filterMap]
  refine List.filterMap_congr fun ⟨d, f⟩ hf => ?_
  obtain ⟨hd, hdecl⟩ := mem_decls_of_mem_functions hf
  have htree := h.declTree_eq hd
  rw [declTree, h.decl_eq hd, declTree, hdecl] at htree
  obtain ⟨type, name, params, body⟩ := f
  cases body with
  | none => rfl
  | some body =>
      simp only [Decl.map, DeclTree.retag, Option.map_some, Decl.function.injEq,
        FunctionDecl.mk.injEq, Option.some.injEq, true_and] at htree
      simp only [Function.comp_apply, FunctionDecl.map, Option.map_some, htree]

/-- What is below a body is visited. -/
theorem mem_stmtVisits_of_bodies {row : DeclId × FunctionDecl StmtId × Stmt ExprId StmtId}
    (hrow : row ∈ s.bodies) {depth : Nat} {v : Nat × Stmt ExprId StmtId}
    (hv : v ∈ row.2.2.visits depth) : v.2 ∈ s.stmtVisits.map Prod.snd := by
  obtain ⟨⟨d, f⟩, hf, hbody⟩ := List.mem_filterMap.mp hrow
  obtain ⟨body, hf', rfl⟩ := Option.map_eq_some_iff.mp hbody
  obtain ⟨hd, hdecl⟩ := mem_decls_of_mem_functions hf
  refine mem_stmtVisits_of_mem_substmts (mem_stmtVisits_of_body hd ?_)
    (Stmt.map_snd_visits depth _ ▸ List.mem_map_of_mem hv)
  rw [declTree, Decl.bodies_map, hdecl, Decl.bodies]
  exact List.mem_map_of_mem (Option.mem_toList.mpr hf')

end Shader.Renumbers

namespace RemovableStmt

theorem isRemovable_eq (ha : Analysis.Alike ρ s a a') (returnsValue : Bool)
    {u : Stmt ExprId StmtId} (hu : u ∈ s.stmtVisits.map Prod.snd) :
    isRemovable a' returnsValue (u.retag ρ.expr ρ.stmt) = isRemovable a returnsValue u := by
  have htag := tag_mem_stmtIds hu
  simp only [isRemovable, Stmt.tag_retag, ha.containsStmt_eq _ htag, ha.isDeadIf_eq _ htag,
    Stmt.form_retag]
  cases u.form with
  | returns value => cases value <;> rfl
  | _ => rfl

theorem blockBody_retag {ε σ ε' σ' : Type} (f : ε → ε') (g : σ → σ') (u : Stmt ε σ) :
    blockBody (u.retag f g) = (blockBody u).map (Stmt.retag f g) := by
  rw [blockBody, Stmt.form_retag, blockBody]
  cases u.form <;> rfl

theorem mem_childStmts_of_mem_blockBody {ε σ : Type} {u child : Stmt ε σ}
    (h : child ∈ blockBody u) : child ∈ u.form.childStmts := by
  obtain ⟨tag, form⟩ := u
  cases form with
  | block body => exact h
  | _ => cases h

theorem find_eq (h : Renumbers ρ s t) (ha : Analysis.Alike ρ s a a') :
    find t a' = (find s a).map (Opportunity.renumber ρ) := by
  simp only [find, h.bodies_eq, List.flatMap_map, List.map_flatMap]
  refine List.flatMap_congr fun row hrow => ?_
  rw [Stmt.visits_retag, List.flatMap_map]
  refine List.flatMap_congr fun v hv => ?_
  have hblock := Renumbers.mem_stmtVisits_of_bodies hrow hv
  simp only [Prod.map_snd, blockBody_retag, List.filter_map, List.map_map]
  have hfilter : (blockBody v.2).filter
      (isRemovable a' (row.2.1.returnType.name != "void") ∘ Stmt.retag ρ.expr ρ.stmt) =
        (blockBody v.2).filter (isRemovable a (row.2.1.returnType.name != "void")) :=
    List.filter_congr fun child hchild => isRemovable_eq ha _
      (mem_stmtVisits_of_mem_childStmts hblock (mem_childStmts_of_mem_blockBody hchild))
  refine (congrArg (List.map _) hfilter).trans (List.map_congr_left fun child _ => ?_)
  simp [Opportunity.renumber, Change.renumber]

end RemovableStmt

namespace UnusedVariable

theorem localDecls_retag (f : ExprId → ExprId) (g : StmtId → StmtId) (u : Stmt ExprId StmtId) :
    localDecls (u.retag f g) =
      (localDecls u).map fun row => (row.1.retag f g, row.2.map g) := by
  obtain ⟨tag, form⟩ := u
  rw [Stmt.retag_node]
  cases form <;> simp [StmtNode.map, localDecls]

theorem mem_childStmts_of_mem_localDecls {u : Stmt ExprId StmtId}
    {row : Stmt ExprId StmtId × Option StmtId} (h : row ∈ localDecls u) :
    row.1 ∈ u.form.childStmts := by
  obtain ⟨tag, form⟩ := u
  cases form with
  | block body =>
      obtain ⟨child, hchild, rfl⟩ := List.mem_map.mp h
      exact hchild
  | forLoop start cond step body =>
      obtain rfl := List.mem_singleton.mp h
      exact List.mem_cons_self
  | _ => cases h

theorem isRemovable_eq (ha : Analysis.Alike ρ s a a') {function : DeclId}
    (hfunction : function ∈ s.decls) {stmt : StmtId} (hstmt : stmt ∈ s.stmtIds)
    (d : Declarator (Expr ExprId)) :
    isRemovable a' (ρ.decl function) (ρ.stmt stmt) (d.map (Expr.retag ρ.expr)) =
      isRemovable a function stmt d := by
  obtain ⟨name, size, init⟩ := d
  simp only [isRemovable, Declarator.map, ha.identUsesIn_eq function hfunction,
    ha.containsStmt_eq stmt hstmt, ha.callables_eq]
  cases init <;> simp

theorem find_eq (h : Renumbers ρ s t) (ha : Analysis.Alike ρ s a a') :
    find t a' = (find s a).map (Opportunity.renumber ρ) := by
  simp only [find, h.bodies_eq, List.flatMap_map, List.map_flatMap]
  refine List.flatMap_congr fun row hrow => ?_
  rw [Stmt.visits_retag, List.flatMap_map]
  refine List.flatMap_congr fun v hv => ?_
  have hparent := Renumbers.mem_stmtVisits_of_bodies hrow hv
  have hfunction : row.1 ∈ s.decls := by
    obtain ⟨⟨d, f⟩, hf, hbody⟩ := List.mem_filterMap.mp hrow
    obtain ⟨body, -, rfl⟩ := Option.map_eq_some_iff.mp hbody
    exact (mem_decls_of_mem_functions hf).1
  rw [Prod.map_snd, localDecls_retag, List.flatMap_map]
  refine List.flatMap_congr fun local' hlocal => ?_
  have hstmt := tag_mem_stmtIds
    (mem_stmtVisits_of_mem_childStmts hparent (mem_childStmts_of_mem_localDecls hlocal))
  simp only [Stmt.form_retag]
  cases local'.1.form with
  | vars decl =>
      simp only [StmtNode.map, VarDecl.map, List.filter_map, List.map_map, Stmt.tag_retag]
      have hfilter : decl.declarators.filter
          (isRemovable a' (ρ.decl row.1) (ρ.stmt local'.1.tag) ∘ Declarator.map (Expr.retag ρ.expr)) =
            decl.declarators.filter (isRemovable a row.1 local'.1.tag) :=
        List.filter_congr fun d _ => isRemovable_eq ha hfunction hstmt d
      rw [hfilter]
      rfl
  | _ => rfl

end UnusedVariable

namespace Unwrap

theorem fits_eq (h : Renumbers ρ s t) {u : Stmt ExprId StmtId}
    (hu : u ∈ s.stmtVisits.map Prod.snd) (way : UnwrapWay) :
    fits t (ρ.stmt u.tag) way = fits s u.tag way := by
  have hchildren : ∀ c ∈ (s.stmt u.tag).childStmts, c ∈ s.stmtIds := by
    intro c hc
    rw [h.source.stmt_eq hu, StmtNode.childStmts_map] at hc
    obtain ⟨child, hchild, rfl⟩ := List.mem_map.mp hc
    exact tag_mem_stmtIds (mem_stmtVisits_of_mem_childStmts hu hchild)
  unfold fits
  rw [h.stmt_eq (tag_mem_stmtIds hu)]
  cases hstmt : s.stmt u.tag with
  | block body =>
      rw [hstmt] at hchildren
      cases way with
      | block =>
          simp only [StmtNode.map, List.all_map]
          rw [Bool.eq_iff_iff, List.all_eq_true, List.all_eq_true]
          refine forall₂_congr fun c hc => ?_
          rw [Function.comp_apply, h.stmt_eq (hchildren c hc)]
          cases s.stmt c <;> rfl
      | _ => rfl
  | ifElse cond onTrue onFalse => cases way <;> simp [StmtNode.map]
  | _ => cases way <;> rfl

theorem find_eq (h : Renumbers ρ s t) (ha : Analysis.Alike ρ s a a') :
    find t a' = (find s a).map (Opportunity.renumber ρ) := by
  simp only [find, h.bodies_eq, List.flatMap_map, List.map_flatMap]
  refine List.flatMap_congr fun row hrow => ?_
  rw [Stmt.visits_retag, List.flatMap_map]
  refine List.flatMap_congr fun v hv => ?_
  have hblock := Renumbers.mem_stmtVisits_of_bodies hrow hv
  simp only [Prod.map_snd, Stmt.form_retag, Stmt.tag_retag]
  cases hform : v.2.form with
  | block body =>
      have hbody : ∀ child ∈ body, child ∈ s.stmtVisits.map Prod.snd := fun child hchild =>
        mem_stmtVisits_of_mem_childStmts hblock (by rwa [hform])
      simp only [StmtNode.map, List.filter_map, List.flatMap_map, List.map_flatMap]
      have hfilter : body.filter ((fun stmt : Stmt ExprId StmtId =>
          a'.scope.containsStmt stmt.tag && !a'.scope.isDeadIf stmt.tag) ∘
            Stmt.retag ρ.expr ρ.stmt) =
          body.filter fun stmt => a.scope.containsStmt stmt.tag && !a.scope.isDeadIf stmt.tag :=
        List.filter_congr fun child hchild => by
          have htag := tag_mem_stmtIds (hbody child hchild)
          rw [Function.comp_apply, Stmt.tag_retag, ha.containsStmt_eq _ htag,
            ha.isDeadIf_eq _ htag]
      rw [hfilter]
      refine List.flatMap_congr fun child hchild => ?_
      have hfits : fits t (ρ.stmt child.tag) = fits s child.tag :=
        funext (fits_eq h (hbody child (List.mem_filter.mp hchild).1))
      rw [Stmt.tag_retag, hfits, List.map_map]
      rfl
  | _ => rfl

end Unwrap

/-! ## All kinds -/

namespace Opportunity

theorem ofKind_eq (h : Renumbers ρ s t) (ha : Analysis.Alike ρ s a a') (kind : OpportunityKind) :
    ofKind t a' kind = (ofKind s a kind).map (renumber ρ) := by
  cases kind with
  | compoundExprToSubExpr => exact SubExpr.find_eq h ha
  | exprToConstant => exact Constant.find_eq h ha
  | removeDeclaration => exact UnusedDecl.find_eq h ha
  | inlineStructifiedField => exact InlineField.find_eq h ha
  | removeStmt => exact RemovableStmt.find_eq h ha
  | removeVariable => exact UnusedVariable.find_eq h ha
  | unwrapStmt => exact Unwrap.find_eq h ha

/-- Shaders that differ in numbers only have the same opportunities in the same order. -/
theorem find_of_renumbers (h : Renumbers ρ s t) (everywhere : Bool)
    (enabled : List OpportunityKind) :
    find t everywhere enabled = (find s everywhere enabled).map (renumber ρ) := by
  rw [find, find, List.flatMap_congr fun kind _ => ofKind_eq h (h.alike everywhere) kind,
    ← List.map_flatMap]
  -- the order looks at depths only, which are as they were
  symm
  exact List.map_mergeSort (f := renumber ρ) fun _ _ _ _ => rfl

/-- Laying a shader out anew neither loses, adds nor moves an opportunity. Where its declarations
reach no slot twice, the shader that is laid out has the same declarations with the numbers that the
nodes have there, and its opportunities are the same with these numbers. -/
theorem find_compact (hs : s.ReachesOnce) (everywhere : Bool) (enabled : List OpportunityKind) :
    s.compact.decls = s.decls.map (Renumbering.between s s.compact).decl ∧
      s.compact.declTrees = s.declTrees.map (DeclTree.retag
        (Renumbering.between s s.compact).expr (Renumbering.between s s.compact).stmt) ∧
      find s.compact everywhere enabled =
        (find s everywhere enabled).map (renumber (Renumbering.between s s.compact)) :=
  have h := renumbers_compact hs
  ⟨h.decls_eq, h.declTrees_eq, find_of_renumbers h everywhere enabled⟩

/-- A function whose nodes stand before their parts, after slots that are out of reach. -/
def looseSum : Shader where
  decls := [⟨1⟩]
  exprs := ⟨#[⟨.ident "a", false⟩, ⟨.binary .add ⟨3⟩ ⟨2⟩, true⟩, ⟨.literal (.int "1"), true⟩,
    ⟨.literal (.int "2"), true⟩]⟩
  stmts := ⟨#[⟨.empty, false⟩, ⟨.block [⟨2⟩], true⟩, ⟨.expr ⟨1⟩, true⟩]⟩
  declNodes := ⟨#[⟨.directive "", false⟩,
    ⟨.function ⟨.ofName "void", "main", [], some ⟨1⟩⟩, true⟩]⟩

/-- The sum may give way to its first operand, before and after it gets the slot behind those of its
operands. -/
theorem find_compact_looseSum :
    looseSum.ReachesOnce ∧
      ⟨3, .toSubExpr ⟨1⟩ ⟨3⟩⟩ ∈ find looseSum true OpportunityKind.all ∧
      ⟨3, .toSubExpr ⟨2⟩ ⟨0⟩⟩ ∈ find looseSum.compact true OpportunityKind.all := by
  have once : looseSum.ReachesOnce :=
    ⟨by decide, by decide, by decide, by decide, by decide⟩
  have hkind : (⟨3, .toSubExpr ⟨1⟩ ⟨3⟩⟩ : Opportunity) ∈
      ofKind looseSum (Analysis.ofShader looseSum true) .compoundExprToSubExpr := by
    decide +kernel
  have hfound : ⟨3, .toSubExpr ⟨1⟩ ⟨3⟩⟩ ∈ find looseSum true OpportunityKind.all := by
    refine List.mem_mergeSort.mpr (List.mem_flatMap.mpr ⟨.compoundExprToSubExpr, ?_, hkind⟩)
    decide
  refine ⟨once, hfound, ?_⟩
  rw [(find_compact once true OpportunityKind.all).2.2]
  refine List.mem_map.mpr ⟨_, hfound, ?_⟩
  decide +kernel

end Opportunity

end ShaderReducer
