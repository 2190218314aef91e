import ShaderReducer.Opportunity.Find
import ShaderReducer.Proofs.Opportunity.Slots
import ShaderReducer.Proofs.Opportunity.Found
import ShaderReducer.Proofs.Opportunity.InlinePlan
import ShaderReducer.Proofs.Shader.Weight
import ShaderReducer.Proofs.Typing.Admitted

/-!
# Types while a chunk is tried

All opportunities of a chunk were found with the types of the shader that the chunk is tried on, and
these are not noted anew after each change. An operand only takes the place of an operation of its
type, and a constant that of an expression of its type, so a literal keeps the type that was noted
for its slot, however often the slot has been given another node.
-/

namespace ShaderReducer

/-- The type that the form of an expression tells by itself: that of a literal, and that of a
constructor which the language names. -/
def ExprNode.ownType? {ρ : Type} : ExprNode ρ → Option Ty
  | .literal value => some (Signatures.literalType value)
  | .call callee _ => Ty.ofName? callee
  | _ => none

/-- What the types that were noted say of a change: an operand has the type of the operation, and a
constant that of the expression. The slots are among the first ones. -/
def Change.WellTyped (types : Types) (unsigned : Bool) (slots : Nat) : Change → Prop
  | .toSubExpr target child =>
    target.index < slots ∧ child.index < slots ∧ types.get? child = types.get? target
  | .toConstant target constant =>
    target.index < slots ∧ ∃ type, types.get? target = some type ∧
      Constant.ofType? unsigned type = some constant
  | .removeDecl _ | .inlineField _ _ | .removeStmt _ _ | .removeVariable _ _ _ | .unwrap _ _ _ =>
    True

namespace Shader

variable {s t : Shader} {types : Types} {slots : Nat}

/-- An expression in one of the first slots has the type noted for the slot, if it tells its type by
itself. -/
def Respects (s : Shader) (types : Types) (slots : Nat) : Prop :=
  ∀ id ∈ s.liveExprs, id.index < slots → ∀ type, (s.expr id).ownType? = some type →
    types.get? id = some type

/-- The type noted for a slot is that of its tree in some scope. -/
theorem Owned.exists_typeOf (h : s.Grounded) (ho : s.Owned) {id : ExprId} (hid : id ∈ s.liveExprs) :
    ∃ scope, (Types.ofShader s).get? id =
      (Signatures.ofShader s).typeOf scope (s.exprTree id) := by
  have hmem : s.exprTree id ∈ s.exprVisits.map Prod.snd :=
    (ho.mem_exprVisits h).mpr (by simpa using hid)
  obtain ⟨v, hv, hvisit⟩ := List.mem_map.mp hmem
  obtain ⟨scope, hscope⟩ :=
    Types.exists_scope (ho.nodup_exprVisits h) (ho.lt_size_of_mem_exprVisits h) hv
  rw [hvisit] at hscope
  refine ⟨scope, ?_⟩
  simpa using hscope _ (Expr.mem_subexprs_self _) hmem

theorem Owned.respects (h : s.Grounded) (ho : s.Owned) :
    s.Respects (Types.ofShader s) s.exprs.size := by
  intro id hid _ type htype
  obtain ⟨scope, hscope⟩ := ho.exists_typeOf h hid
  rw [hscope, h.exprTree_eq]
  cases hexpr : s.expr id with
  | literal value =>
      rw [hexpr] at htype
      exact htype
  | call callee args =>
      rw [hexpr] at htype
      rw [ExprNode.map, Signatures.typeOf, Signatures.callType, show Ty.ofName? callee = _ from htype]
  | _ => rw [hexpr] at htype; cases htype

/-! ## Changes that leave types alone -/

/-- A shader in which some expressions are gone, and the others tell the same type by themselves as
before and weigh no more. -/
structure Lightens (s t : Shader) : Prop where
  live_le : t.liveExprs ≤ s.liveExprs
  size_eq : t.exprs.size = s.exprs.size
  ownType_eq : ∀ id, (t.expr id).ownType? = (s.expr id).ownType?
  weight_le : ∀ id, t.exprWeight id ≤ s.exprWeight id

theorem Lightens.refl (s : Shader) : s.Lightens s :=
  ⟨le_rfl, rfl, fun _ => rfl, fun _ => le_rfl⟩

theorem Lightens.trans {u : Shader} (h : s.Lightens t) (h' : t.Lightens u) : s.Lightens u :=
  ⟨h'.live_le.trans h.live_le, h'.size_eq.trans h.size_eq,
    fun id => (h'.ownType_eq id).trans (h.ownType_eq id),
    fun id => (h'.weight_le id).trans (h.weight_le id)⟩

theorem Lightens.exprsWeight_le (h : s.Lightens t) : t.exprsWeight ≤ s.exprsWeight :=
  Shader.exprsWeight_le h.live_le fun id _ => h.weight_le id

theorem Respects.of_lightens (hs : s.Respects types slots) (h : s.Lightens t) :
    t.Respects types slots := by
  intro id hid hlt type htype
  rw [h.ownType_eq] at htype
  exact hs id (Multiset.mem_of_le h.live_le hid) hlt type htype

/-- Marking slots dead changes no expression. -/
theorem lightens_of_killAll {dead : List Nat} (h : t.exprs = s.exprs.killAll dead) :
    s.Lightens t := by
  have hindex : (dead.map ExprId.mk).map ExprId.index = dead := by
    rw [List.map_map]
    exact List.map_id dead
  have hforget : t.exprs = (s.forgetExprs (dead.map ExprId.mk)).exprs := by
    rw [h, forgetExprs, hindex]
  have hexpr : t.expr = s.expr := by
    rw [← expr_forgetExprs s (dead.map ExprId.mk)]
    funext id
    rw [expr, hforget, expr]
  refine ⟨?_, ?_, fun id => by rw [hexpr], fun id => by rw [exprWeight, hexpr, exprWeight]⟩
  · rw [liveExprs, hforget, ← liveExprs, liveExprs_forgetExprs]
    exact Multiset.filter_le _ _
  · rw [hforget, size_exprs_forgetExprs]

theorem lightens_of_exprs_eq (h : t.exprs = s.exprs) : s.Lightens t := by
  have hkill : t.exprs = s.exprs.killAll [] := h
  exact lightens_of_killAll hkill

/-- Putting another node into a slot changes no other expression, and weighs no more if neither the
old node nor the new one is a literal, and the new one weighs no more by itself. -/
theorem lightens_setExpr {target : ExprId} {node : ExprNode ExprId} {dead : List ExprId}
    (hnode : node.literal? = none) (hold : (s.expr target).literal? = none)
    (htype : node.ownType? = (s.expr target).ownType?)
    (hweight : (node.weight fun c => (s.expr c).literal?) ≤ s.exprWeight target) :
    s.Lightens ((s.forgetExprs dead).setExpr target node) := by
  set t := (s.forgetExprs dead).setExpr target node with ht
  have hexpr : ∀ id, t.expr id = if target = id ∧ id.index < s.exprs.size then node else
      s.expr id := by
    intro id
    rw [ht, expr_setExpr, expr_forgetExprs, size_exprs_forgetExprs]
  have hliteral : ∀ id, (t.expr id).literal? = (s.expr id).literal? := by
    intro id
    rw [hexpr]
    split
    next hid => rw [hnode, ← hid.1, hold]
    next => rfl
  refine ⟨?_, ?_, fun id => ?_, fun id => ?_⟩
  · rw [ht, liveExprs_setExpr, liveExprs_forgetExprs]
    exact Multiset.filter_le _ _
  · rw [ht, size_exprs_setExpr, size_exprs_forgetExprs]
  · rw [hexpr]
    split
    next hid => rw [htype, hid.1]
    next => rfl
  · rw [exprWeight, funext hliteral, hexpr]
    split
    next hid => exact hid.1 ▸ hweight
    next => exact le_rfl

theorem lightens_killContents (s : Shader) (d : Decl ExprId StmtId) :
    s.Lightens (s.killContents d) := by
  cases d with
  | function decl =>
      rw [killContents]
      cases decl.body with
      | none => exact .refl s
      | some body => exact lightens_of_killAll rfl
  | vars decl =>
      rw [killContents, killExprs_eq]
      exact lightens_of_killAll rfl
  | _ => exact .refl s

theorem lightens_removeDecl (s : Shader) (id : DeclId) : s.Lightens (s.removeDecl id).2 := by
  by_cases hid : id ∈ s.decls
  · have hdrop : s.Lightens (s.dropDecl id) := lightens_of_exprs_eq rfl
    have hcontents := hdrop.trans (lightens_killContents (s.dropDecl id) (s.decl id))
    rw [removeDecl_eq hid]
    exact ⟨hcontents.live_le, hcontents.size_eq, hcontents.ownType_eq, hcontents.weight_le⟩
  · rw [removeDecl, if_neg (by simpa using hid)]
    exact .refl s

theorem lightens_removeFromBlock (s : Shader) (block stmt : StmtId) :
    s.Lightens (s.removeFromBlock block stmt).2 := by
  rw [removeFromBlock]
  split
  next body _ =>
    split
    next => exact lightens_of_killAll rfl
    next => exact .refl s
  next => exact .refl s

end Shader

namespace UnusedVariable

variable {s : Shader}

theorem lightens_apply {stmt : StmtId} {block : Option StmtId} {name : String}
    (hh : holds s stmt block name = true) : s.Lightens (apply s stmt block name) := by
  obtain ⟨-, ⟨decl, removed, hd, hr⟩, -⟩ := eq_vars_of_holds hh
  have hshrink : s.Lightens (shrink s stmt decl removed name) := by
    rw [shrink, Shader.killExprs_eq]
    exact Shader.lightens_of_killAll rfl
  rw [apply_eq hd hr]
  split
  next =>
    cases block with
    | some block => exact hshrink.trans (Shader.lightens_removeFromBlock _ block stmt)
    | none => exact hshrink.trans (Shader.lightens_of_exprs_eq rfl)
  next => exact hshrink

end UnusedVariable

namespace Unwrap

variable {s : Shader}

theorem lightens_apply {block target : StmtId} {way : UnwrapWay}
    (hh : holds s block target way = true) : s.Lightens (apply s block target way) := by
  obtain ⟨body, kept, dropped, i, -, -, -, heq⟩ := exists_eq_lifted hh
  rw [heq]
  exact Shader.lightens_of_killAll rfl

end Unwrap

namespace InlineField

variable {s : Shader}

/-- A constructor keeps its name. It was no constant: the argument that gives way is a call, if it
is the only one. -/
theorem lightens_spliceConstructor (h : s.Grounded) (position : Nat) (call : ExprId) :
    s.Lightens (spliceConstructor position s call) := by
  obtain heq | ⟨callee, args, wrapped, inner, innerArgs, hcall, hw, hinner, heq⟩ :=
    spliceConstructor_cases position s call
  · rw [heq]
    exact .refl s
  have hwrapped : (s.expr wrapped).literal? = none := by
    cases hexpr : s.expr wrapped with
    | literal value =>
        have hstripped : stripped s wrapped = wrapped := (chain_of_ne h (by simp [hexpr])).2
        rw [hstripped, hexpr] at hinner
        cases hinner
    | _ => rfl
  have hweight : s.exprWeight call = 3 := by
    rw [Shader.exprWeight, hcall]
    rcases args with _ | ⟨arg, _ | ⟨_, _⟩⟩
    · cases hw
    · obtain ⟨rfl, rfl⟩ : position = 0 ∧ arg = wrapped := by
        cases position <;> simp_all
      rw [ExprNode.weight, hwrapped]
      rfl
    · rfl
  rw [heq]
  refine Shader.lightens_setExpr rfl (by rw [hcall]; rfl) (by rw [hcall]; rfl) ?_
  rw [hweight]
  exact ExprNode.weight_le_three _ _

theorem lightens_splices (h : s.Grounded) (position : Nat) (calls : List ExprId) :
    s.Lightens (calls.foldl (spliceConstructor position) s) := by
  induction calls generalizing s with
  | nil => exact .refl s
  | cons call calls ih =>
      exact (lightens_spliceConstructor h position call).trans
        (ih (grounded_spliceConstructor h position call))

theorem lightens_redirect {access : Access} (names : List String)
    (hmember : ∃ base name, s.expr access.member = .member base name) :
    s.Lightens (redirect names s access) := by
  obtain ⟨base, name, hmember⟩ := hmember
  rw [redirect_eq]
  refine Shader.lightens_setExpr rfl (by rw [hmember]; rfl) (by rw [hmember]; rfl) ?_
  rw [Shader.exprWeight, hmember]
  exact le_rfl

theorem lightens_redirects {accesses : List Access} (names : List String)
    (hmembers : ∀ a ∈ accesses, ∃ base name, s.expr a.member = .member base name) :
    s.Lightens (accesses.foldl (redirect names) s) := by
  induction accesses generalizing s with
  | nil => exact .refl s
  | cons access accesses ih =>
      refine (lightens_redirect names (hmembers access List.mem_cons_self)).trans (ih fun a ha => ?_)
      obtain ⟨base, name, hmember⟩ := hmembers a (List.mem_cons_of_mem _ ha)
      rw [redirect_eq, Shader.expr_setExpr, Shader.expr_forgetExprs]
      split
      next => exact ⟨_, _, rfl⟩
      next => exact ⟨base, name, hmember⟩

theorem expr_splices_of_member {calls : List ExprId} {position : Nat} {id base : ExprId}
    {name : String} (hid : s.expr id = .member base name) :
    (calls.foldl (spliceConstructor position) s).expr id = .member base name := by
  induction calls generalizing s with
  | nil => exact hid
  | cons call calls ih =>
      refine ih ?_
      obtain heq | ⟨callee, args, wrapped, inner, innerArgs, hcall, -, -, heq⟩ :=
        spliceConstructor_cases position s call
      · rwa [heq]
      · rw [expr_spliceConstructor_of_ne, hid]
        rintro rfl
        rw [hid] at hcall
        cases hcall

theorem lightens_apply (h : s.Grounded) (supply : NameSupply) (outerId : DeclId) (field : String) :
    s.Lightens (apply s supply outerId field).1 := by
  obtain heq | ⟨plan, outer, inner, wrapper, taken, hfits, heq⟩ :=
    apply_cases s supply outerId field
  · rw [heq]
    exact .refl s
  rw [heq]
  set fields := (renamed field taken supply inner.fields).1
  have hset := grounded_setDecl h outerId (widened outer plan.position fields)
  have hdecl : s.Lightens (s.setDecl outerId (.struct (widened outer plan.position fields))) :=
    Shader.lightens_of_exprs_eq rfl
  refine hdecl.trans ((lightens_splices hset plan.position plan.constructors).trans ?_)
  refine lightens_redirects _ fun a ha => ?_
  obtain ⟨name, hmember⟩ := (hfits.through h ha).member_eq
  exact ⟨a.wrapper, name, expr_splices_of_member hmember⟩

end InlineField

/-! ## Types during a chunk -/

namespace Opportunity

variable {s : Shader} {types : Types} {slots : Nat} {unsigned : Bool}

/-- No change takes slots of expressions away. -/
theorem size_le_apply {o : Opportunity} (hholds : o.holds s = true)
    (supply : NameSupply) : s.exprs.size ≤ (o.apply s supply).1.exprs.size := by
  obtain ⟨depth, change⟩ := o
  cases change with
  | toSubExpr target child =>
      simp only [apply]
      rw [Shader.replaceWithChild_eq]
      simp
  | toConstant target constant => exact Constant.size_le_apply s target constant
  | removeDecl decl => exact (Shader.lightens_removeDecl s decl).size_eq.ge
  | inlineField outer field => exact (InlineField.same_apply s supply outer field).2.2.ge
  | removeStmt block stmt => exact (Shader.lightens_removeFromBlock s block stmt).size_eq.ge
  | removeVariable stmt block name => exact (UnusedVariable.lightens_apply hholds).size_eq.ge
  | unwrap block target way => exact (Unwrap.lightens_apply hholds).size_eq.ge

theorem literalType_of_element? {kind : ScalarKind} {value : Literal}
    (h : Constant.element? unsigned kind = some value) :
    Signatures.literalType value = .scalar kind := by
  cases kind with
  | uint =>
      cases unsigned with
      | true => cases h; rfl
      | false => cases h
  | _ => cases h; rfl

/-- A constant tells the type that it is the constant of. -/
theorem ownType?_node {type : Ty} (hsized : type.Sized) {constant : Constant}
    (h : Constant.ofType? unsigned type = some constant) (arg : ExprId) :
    (constant.node arg).ownType? = some type := by
  cases type with
  | scalar kind =>
      obtain ⟨value, hvalue, rfl⟩ := Option.map_eq_some_iff.mp h
      exact congrArg some (literalType_of_element? hvalue)
  | vector kind width =>
      obtain ⟨value, -, rfl⟩ := Option.map_eq_some_iff.mp h
      exact Ty.ofName?_text hsized
  | _ => cases h

/-- A change whose operands and constants have the noted types keeps all expressions of the types
that were noted. -/
theorem respects_apply (h : s.Grounded) (hs : s.Respects types slots) (hslots : slots ≤ s.exprs.size)
    (htypes : ∀ id type, types.get? id = some type → type.Sized)
    {o : Opportunity} (hholds : o.holds s = true) (ho : o.change.WellTyped types unsigned slots)
    (supply : NameSupply) :
    (o.apply s supply).1.Respects types slots ∧ slots ≤ (o.apply s supply).1.exprs.size := by
  have hlightens : ∀ {t : Shader}, s.Lightens t → t.Respects types slots ∧ slots ≤ t.exprs.size :=
    fun ht => ⟨hs.of_lightens ht, ht.size_eq ▸ hslots⟩
  obtain ⟨depth, change⟩ := o
  cases change with
  | toSubExpr target child =>
      simp only [holds, SubExpr.holds, Bool.and_eq_true] at hholds
      obtain ⟨-, hchild, htype⟩ := ho
      have hlive := Shader.mem_liveExprs.mpr hholds.1.2
      simp only [apply]
      rw [Shader.replaceWithChild_eq]
      refine ⟨fun id hid hlt type htells => ?_, by simpa using hslots⟩
      rw [Shader.liveExprs_setExpr, Shader.liveExprs_forgetExprs] at hid
      rw [Shader.expr_setExpr, Shader.expr_forgetExprs] at htells
      split at htells
      next heq => rw [← heq.1, ← htype, hs child hlive hchild type htells]
      next => exact hs id (Multiset.mem_filter.mp hid).1 hlt type htells
  | toConstant target constant =>
      obtain ⟨htarget, noted, hnoted, hconstant⟩ := ho
      simp only [apply]
      have hsize := Constant.size_le_apply s target constant
      refine ⟨fun id hid hlt type htells => ?_, hslots.trans hsize⟩
      have hold : id.index < s.exprs.size := hlt.trans_le hslots
      rw [Constant.expr_apply hold] at htells
      split at htells
      next heq =>
        rw [ownType?_node (htypes _ _ hnoted) hconstant] at htells
        rw [← heq, hnoted, htells]
      next => exact hs id (Constant.mem_liveExprs_of_apply hid hold) hlt type htells
  | removeDecl decl => exact hlightens (Shader.lightens_removeDecl s decl)
  | inlineField outer field => exact hlightens (InlineField.lightens_apply h supply outer field)
  | removeStmt block stmt => exact hlightens (Shader.lightens_removeFromBlock s block stmt)
  | removeVariable stmt block name => exact hlightens (UnusedVariable.lightens_apply hholds)
  | unwrap block target way => exact hlightens (Unwrap.lightens_apply hholds)

/-- What is found is well typed where it is found. -/
theorem wellTyped_of_mem_find (h : s.Grounded) (ho : s.Owned) {everywhere : Bool}
    {kinds : List OpportunityKind} {o : Opportunity} (hfind : o ∈ find s everywhere kinds) :
    o.change.WellTyped (Types.ofShader s) s.dialect.supportsUnsigned s.exprs.size := by
  have hmem := mem_ofKind_of_mem_find hfind
  obtain ⟨depth, change⟩ := o
  cases change with
  | toSubExpr target child =>
      obtain ⟨⟨depth, e⟩, hv, hmem⟩ := List.mem_flatMap.mp hmem
      obtain ⟨child, hchild, heq⟩ := List.mem_map.mp hmem
      cases heq
      obtain ⟨hlive, htree⟩ := (ho.mem_exprVisits h).mp (List.mem_map_of_mem (f := Prod.snd) hv)
      obtain ⟨tag, form⟩ := e
      unfold SubExpr.operands at hchild
      dsimp only at hchild
      split at hchild
      next =>
        split at hchild
        next type htype =>
          obtain ⟨hpart, hcond⟩ := List.mem_filter.mp hchild
          simp only [Bool.and_eq_true, beq_iff_eq] at hcond
          have hchildLive : child ∈ s.liveExprs := by
            refine ho.exprs.mem_of_mem_parts hlive ?_
            rw [Shader.exprPartsOf, Shader.exprParts, (h.expr_of_exprTree htree.symm).2]
            exact hpart
          exact ⟨Shader.lt_size_of_mem_liveExprs hlive, Shader.lt_size_of_mem_liveExprs hchildLive,
            hcond.1.trans htype.symm⟩
        next => cases hchild
      next => cases hchild
  | toConstant target constant =>
      obtain ⟨e, constant, type, heq, he, htype, hof, -⟩ := Constant.of_mem_find hmem
      cases heq
      have hlive := ((ho.mem_exprVisits h).mp he).1
      exact ⟨Shader.lt_size_of_mem_liveExprs hlive, type, htype, hof⟩
  | _ => trivial

end Opportunity

end ShaderReducer
