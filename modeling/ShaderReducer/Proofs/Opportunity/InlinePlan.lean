import ShaderReducer.Proofs.Opportunity.InlineField
import ShaderReducer.Proofs.Shader.Structs

/-!
# What a plan for a field rests on

A plan is made from what is visited in a shader. `Fits` says what holds of that shader when there is
a plan; the changes of the plan are then made one after the other, and none of them undoes what the
next one rests on.
-/

namespace ShaderReducer

namespace InlineField

variable {s : Shader} {outerId : DeclId} {field : String} {plan : Plan}

/-! ## Making a plan -/

/-- A plan was made for a field of a structure that holds another structure. -/
structure Fits (s : Shader) (outerId : DeclId) (field : String) (plan : Plan)
    (outer inner : StructDecl) (wrapper : FieldDecl) : Prop where
  outer_eq : (s.decl outerId).struct? = some outer
  outer_start : startsWith outer.name structStart = true
  field_start : startsWith field fieldStart = true
  position_eq : outer.fieldIndex? field = some plan.position
  wrapper_eq : outer.fields[plan.position]? = some wrapper
  arraySize_eq : wrapper.arraySize = none
  inner_mem : inner ∈ s.structDecls
  inner_name : inner.name = wrapper.type.name
  fields_eq : plan.fields = inner.fields
  free : ∀ e ∈ s.exprVisits.map Prod.snd,
    blocks (Types.ofShader s) outer inner.name field plan.position e = false
  constructors_eq :
    plan.constructors = (s.exprVisits.map Prod.snd).filterMap (constructor? outer.name)
  accesses_eq : ((s.exprVisits.map Prod.snd).filterMap
      (throughWrapper? (Types.ofShader s) outer.name field)).mapM
    (fun (member, wrapper, base, name) =>
      (inner.fieldIndex? name).map fun position => (⟨member, wrapper, base, position⟩ : Access)) =
    some plan.accesses
  inner_start : startsWith inner.name structStart = true
  covered : ∀ e ∈ s.exprVisits.map Prod.snd,
    (wrapperBase? (Types.ofShader s) outer.name field e).isSome = true →
      ∃ access ∈ plan.accesses, access.wrapper = e.tag

theorem exists_fits (h : plan? s (Types.ofShader s) outerId field = some plan) :
    ∃ outer inner wrapper, Fits s outerId field plan outer inner wrapper := by
  rw [plan?] at h
  obtain ⟨outer, houter, h⟩ := Option.bind_eq_some_iff.mp h
  split at h
  next => cases h
  next hstart =>
  obtain ⟨-, -, h⟩ := Option.bind_eq_some_iff.mp h
  obtain ⟨position, hposition, h⟩ := Option.bind_eq_some_iff.mp h
  obtain ⟨wrapper, hwrapper, h⟩ := Option.bind_eq_some_iff.mp h
  split at h
  next => cases h
  next hplain =>
    obtain ⟨-, -, h⟩ := Option.bind_eq_some_iff.mp h
    obtain ⟨⟨innerId, inner⟩, hinner, h⟩ := Option.bind_eq_some_iff.mp h
    dsimp only at h
    split at h
    next => cases h
    next hfree =>
      obtain ⟨-, -, h⟩ := Option.bind_eq_some_iff.mp h
      obtain ⟨accesses, haccesses, h⟩ := Option.bind_eq_some_iff.mp h
      split at h
      next hcovered =>
        cases h
        simp only [Bool.or_eq_true, not_or, Bool.not_eq_true] at hplain hstart
        have hname : inner.name = wrapper.type.name := by simpa using List.find?_some hinner
        refine ⟨outer, inner, wrapper, houter, ?_, ?_, hposition, hwrapper, ?_, ?_, hname, rfl, ?_, rfl,
          haccesses, ?_, ?_⟩
        · simpa using hstart.1
        · simpa using hstart.2
        · simpa using hplain.1
        · exact List.mem_map.mpr ⟨_, List.mem_of_find?_eq_some hinner, rfl⟩
        · intro e he
          simpa using List.any_eq_false.mp (Bool.eq_false_of_not_eq_true hfree) e he
        · rw [hname]
          simpa using hplain.2
        · intro e he hwraps
          have hany := List.all_eq_true.mp hcovered e (List.mem_filter.mpr ⟨he, hwraps⟩)
          obtain ⟨access, ha, htag⟩ := List.any_eq_true.mp hany
          exact ⟨access, ha, by simpa using htag⟩
      next => cases h

/-! ## Constructors -/

theorem constructor?_eq_some {outer : String} {e : Expr ExprId} {id : ExprId}
    (h : constructor? outer e = some id) : ∃ args, e = .node id (.call outer args) := by
  unfold constructor? at h
  split at h
  next id' callee args =>
    split at h
    next hcallee =>
      cases h
      exact ⟨args, by rw [hcallee]⟩
    next => cases h
  next => cases h

theorem tag_constructor? {outer : String} {e : Expr ExprId} {id : ExprId}
    (h : constructor? outer e = some id) : e.tag = id := by
  obtain ⟨args, rfl⟩ := constructor?_eq_some h
  rfl

theorem sublist_filterMap_tag {α : Type} {f : α → Option ExprId} (tag : α → ExprId) (l : List α)
    (hf : ∀ a id, f a = some id → tag a = id) : (l.filterMap f).Sublist (l.map tag) := by
  induction l with
  | nil => exact .slnil
  | cons a l ih =>
      rw [List.filterMap_cons, List.map_cons]
      cases hfa : f a with
      | none => exact ih.cons _
      | some id =>
          rw [hf a id hfa]
          exact ih.cons_cons _

variable {outer inner : StructDecl} {wrapper : FieldDecl}

theorem Fits.nodup_constructors (hfits : Fits s outerId field plan outer inner wrapper)
    (h : s.Grounded) (ho : s.Owned) : plan.constructors.Nodup := by
  rw [hfits.constructors_eq]
  refine List.Nodup.sublist (sublist_filterMap_tag Expr.tag _ fun e id => tag_constructor?) ?_
  rw [List.map_map]
  exact ho.nodup_exprVisits h

/-- A constructor of a plan is a call of the outer structure. -/
theorem Fits.expr_constructor (hfits : Fits s outerId field plan outer inner wrapper)
    (h : s.Grounded) {call : ExprId} (hcall : call ∈ plan.constructors) :
    ∃ args, s.expr call = .call outer.name args := by
  rw [hfits.constructors_eq] at hcall
  obtain ⟨e, he, hconstr⟩ := List.mem_filterMap.mp hcall
  obtain ⟨args, rfl⟩ := constructor?_eq_some hconstr
  exact ⟨_, (h.expr_of_exprTree (h.eq_exprTree_of_mem_exprVisits he).symm).2⟩

/-- A constructor of a plan has a constructor of the inner structure at the position. -/
theorem Fits.splices (hfits : Fits s outerId field plan outer inner wrapper) (h : s.Grounded)
    (ho : s.Owned) {call : ExprId} (hcall : call ∈ plan.constructors) :
    call ∈ s.liveExprs ∧ Splices s outer.name inner.name plan.position call := by
  rw [hfits.constructors_eq] at hcall
  obtain ⟨e, he, hconstr⟩ := List.mem_filterMap.mp hcall
  obtain ⟨args, rfl⟩ := constructor?_eq_some hconstr
  obtain ⟨hlive, htree⟩ := (ho.mem_exprVisits h).mp he
  rw [Expr.tag] at hlive htree
  have hexpr := (h.expr_of_exprTree htree.symm).2
  have hfree := hfits.free _ he
  simp only [blocks, BEq.rfl, Bool.true_and, Bool.not_eq_false', Bool.and_eq_true] at hfree
  obtain ⟨-, hinner⟩ := hfree
  cases hw : args[plan.position]? with
  | none => simp [hw] at hinner
  | some wrapped =>
      have hwrapped := h.eq_exprTree_of_mem_children htree.symm (List.mem_of_getElem? hw)
      rw [hw, Option.map_some, hwrapped, stripParens_exprTree h] at hinner
      split at hinner
      next id callee' innerArgs hstrip =>
        obtain rfl := eq_of_beq hinner
        have hstripped := (h.expr_of_exprTree (Option.some.inj hstrip)).2
        refine ⟨hlive, args.map Expr.tag, wrapped.tag, innerArgs.map Expr.tag, hexpr, ?_, hstripped⟩
        rw [List.getElem?_map, hw]
        rfl
      next => cases hinner

/-! ## Accesses -/

theorem throughWrapper?_eq_some {types : Types} {outer : String} {e : Expr ExprId}
    {row : ExprId × ExprId × ExprId × String} (h : throughWrapper? types outer field e = some row) :
    ∃ base, e = .node row.1 (.member (.node row.2.1 (.member base field)) row.2.2.2) ∧
      base.tag = row.2.2.1 ∧ types.get? row.2.2.1 = some (.struct outer) := by
  unfold throughWrapper? at h
  split at h
  next id wrapper name =>
    obtain ⟨base, hbase, rfl⟩ := Option.map_eq_some_iff.mp h
    unfold wrapperBase? at hbase
    split at hbase
    next id' base' name' =>
      split at hbase
      next hcond =>
        cases hbase
        exact ⟨base, by rw [hcond.1]; rfl, rfl, hcond.2⟩
      next => cases hbase
    next => cases hbase
  next => cases h

/-- The rows of a list that is made row by row. -/
theorem forall₂_of_mapM {α β : Type} {f : α → Option β} {l : List α} {l' : List β}
    (h : l.mapM f = some l') : List.Forall₂ (fun a b => f a = some b) l l' := by
  induction l generalizing l' with
  | nil =>
      rw [List.mapM_nil] at h
      cases h
      exact .nil
  | cons a l ih =>
      rw [List.mapM_cons] at h
      obtain ⟨b, hb, h⟩ := Option.bind_eq_some_iff.mp h
      obtain ⟨bs, hbs, h⟩ := Option.bind_eq_some_iff.mp h
      cases h
      exact .cons hb (ih hbs)

theorem exists_of_forall₂ {α β : Type} {r : α → β → Prop} {l : List α} {l' : List β}
    (h : List.Forall₂ r l l') {b : β} (hb : b ∈ l') : ∃ a ∈ l, r a b := by
  induction h with
  | nil => cases hb
  | cons hab _ ih =>
      rcases List.mem_cons.mp hb with rfl | hb
      · exact ⟨_, List.mem_cons_self, hab⟩
      · obtain ⟨a, ha, hr⟩ := ih hb
        exact ⟨a, List.mem_cons_of_mem _ ha, hr⟩

/-- An access of a plan comes from an expression that is visited. -/
theorem Fits.exists_visit (hfits : Fits s outerId field plan outer inner wrapper)
    {access : Access} (ha : access ∈ plan.accesses) : ∃ name base,
      .node access.member (.member (.node access.wrapper (.member base field)) name) ∈
        s.exprVisits.map Prod.snd ∧ base.tag = access.base ∧
      (Types.ofShader s).get? access.base = some (.struct outer.name) ∧
      inner.fieldIndex? name = some access.position := by
  obtain ⟨row, hrow, hmade⟩ := exists_of_forall₂ (forall₂_of_mapM hfits.accesses_eq) ha
  obtain ⟨e, he, hthrough⟩ := List.mem_filterMap.mp hrow
  obtain ⟨base, rfl, htag, htype⟩ := throughWrapper?_eq_some hthrough
  obtain ⟨position, hposition, rfl⟩ := Option.map_eq_some_iff.mp hmade
  exact ⟨row.2.2.2, base, he, htag, htype, hposition⟩

theorem Fits.nodup_members (hfits : Fits s outerId field plan outer inner wrapper)
    (h : s.Grounded) (ho : s.Owned) : (plan.accesses.map Access.member).Nodup := by
  have hmembers : plan.accesses.map Access.member = ((s.exprVisits.map Prod.snd).filterMap
      (throughWrapper? (Types.ofShader s) outer.name field)).map Prod.fst := by
    have hrows := forall₂_of_mapM hfits.accesses_eq
    generalize (s.exprVisits.map Prod.snd).filterMap _ = rows at hrows
    generalize plan.accesses = accesses at hrows
    induction hrows with
    | nil => rfl
    | cons hmade _ ih =>
        obtain ⟨position, -, rfl⟩ := Option.map_eq_some_iff.mp hmade
        rw [List.map_cons, List.map_cons, ih]
  rw [hmembers, List.map_filterMap]
  refine List.Nodup.sublist (sublist_filterMap_tag Expr.tag _ fun e id he => ?_) ?_
  · obtain ⟨row, hrow, rfl⟩ := Option.map_eq_some_iff.mp he
    obtain ⟨base, rfl, -⟩ := throughWrapper?_eq_some hrow
    rfl
  · rw [List.map_map]
    exact ho.nodup_exprVisits h

/-- The slots of an access are those of a member of a member. -/
structure Through (s : Shader) (field : String) (access : Access) : Prop where
  member_eq : ∃ name, s.expr access.member = .member access.wrapper name
  wrapper_eq : s.expr access.wrapper = .member access.base field

theorem Fits.through (hfits : Fits s outerId field plan outer inner wrapper) (h : s.Grounded)
    {access : Access} (ha : access ∈ plan.accesses) : Through s field access := by
  obtain ⟨name, base, hvisit, htag, -⟩ := hfits.exists_visit ha
  have htree := (h.eq_exprTree_of_mem_exprVisits hvisit).symm
  have hwrapper := (h.eq_exprTree_of_mem_children htree (List.mem_singleton_self _)).symm
  refine ⟨⟨name, (h.expr_of_exprTree htree).2⟩, ?_⟩
  rw [← htag]
  exact (h.expr_of_exprTree hwrapper).2

theorem Fits.member_mem_liveExprs (hfits : Fits s outerId field plan outer inner wrapper)
    (h : s.Grounded) (ho : s.Owned) {access : Access} (ha : access ∈ plan.accesses) :
    access.member ∈ s.liveExprs := by
  obtain ⟨name, base, hvisit, -⟩ := hfits.exists_visit ha
  exact ((ho.mem_exprVisits h).mp hvisit).1

/-! ## Wrappers and members -/

theorem Fits.outer_mem (hfits : Fits s outerId field plan outer inner wrapper)
    (houter : outerId ∈ s.decls) : outer ∈ s.structDecls := by
  rw [Shader.structDecls_eq]
  exact List.mem_filterMap.mpr ⟨outerId, houter, hfits.outer_eq⟩

/-- Where names of structures are distinct, a field is looked up in the structure of a name. -/
theorem fieldType_of_mem (hnames : (s.structDecls.map StructDecl.name).Nodup) {decl : StructDecl}
    (hdecl : decl ∈ s.structDecls) (name : String) :
    (Signatures.ofShader s).fieldType decl.name name =
      (decl.fields.find? fun member => member.name == name).bind fun member =>
        (Signatures.ofShader s).resolve member.type member.arraySize := by
  have hfind : s.structDecls.reverse.find? (fun decl' => decl'.name == decl.name) = some decl := by
    cases hfound : s.structDecls.reverse.find? (fun decl' => decl'.name == decl.name) with
    | none =>
        have hnone := List.find?_eq_none.mp hfound decl (List.mem_reverse.mpr hdecl)
        exact absurd BEq.rfl hnone
    | some decl' =>
        have hname : decl'.name = decl.name := by simpa using List.find?_some hfound
        have hmem := List.mem_reverse.mp (List.mem_of_find?_eq_some hfound)
        rw [List.inj_on_of_nodup_map hnames hmem hdecl hname]
  have hsame : (Signatures.ofShader s).structs = s.structDecls := rfl
  rw [Signatures.fieldType, hsame, hfind, Option.bind_eq_bind, Option.bind_some]
  rfl

/-- Where names of structures are distinct, a field that is replaced has the type it is declared
with. -/
theorem Fits.fieldType_eq (hfits : Fits s outerId field plan outer inner wrapper)
    (hnames : (s.structDecls.map StructDecl.name).Nodup) (houter : outerId ∈ s.decls) :
    (Signatures.ofShader s).fieldType outer.name field =
      (Signatures.ofShader s).resolve wrapper.type none := by
  have hposition := hfits.position_eq
  rw [StructDecl.fieldIndex?] at hposition
  rw [fieldType_of_mem hnames (hfits.outer_mem houter), List.find?_eq_bind_findIdx?_getElem?,
    hposition, Option.bind_some, hfits.wrapper_eq, Option.bind_some, hfits.arraySize_eq]

/-- The structure in a field is another one than that of the field. -/
theorem Fits.inner_name_ne (hfits : Fits s outerId field plan outer inner wrapper)
    (hstructs : StructsSound s.structDecls) (houter : outerId ∈ s.decls) :
    inner.name ≠ outer.name := by
  have hmem := hfits.outer_mem houter
  rw [hfits.inner_name]
  exact hstructs.name_ne hmem (List.mem_of_getElem? hfits.wrapper_eq)

/-- No wrapper is a member of a wrapper: its type is that of the field, and not that of the
structure the field is in. -/
theorem Fits.wrapper_ne_member (hfits : Fits s outerId field plan outer inner wrapper)
    (h : s.Grounded) (ho : s.Owned) (hnames : (s.structDecls.map StructDecl.name).Nodup)
    (hne : inner.name ≠ outer.name) (houter : outerId ∈ s.decls) {a b : Access} (ha : a ∈ plan.accesses) (hb : b ∈ plan.accesses) :
    a.wrapper ≠ b.member := by
  intro heq
  obtain ⟨name, base, hvisit, htag, htype, -⟩ := hfits.exists_visit ha
  obtain ⟨name', base', hvisit', htag', htype', -⟩ := hfits.exists_visit hb
  have hwrapper := ho.mem_exprVisits_of_mem_children h hvisit (List.mem_singleton_self _)
  have hsame : (.node a.wrapper (.member base field) : Expr ExprId) =
      .node b.member (.member (.node b.wrapper (.member base' field)) name') := by
    have htree := ((ho.mem_exprVisits h).mp hwrapper).2
    have htree' := ((ho.mem_exprVisits h).mp hvisit').2
    rw [Expr.tag] at htree htree'
    rw [htree, htree', heq]
  simp only [Expr.node.injEq, ExprNode.member.injEq] at hsame
  obtain ⟨-, rfl, -⟩ := hsame
  have hbase := ho.mem_exprVisits_of_mem_children h hwrapper (List.mem_singleton_self _)
  have hbase' := ho.mem_exprVisits_of_mem_children h hbase (List.mem_singleton_self _)
  have hget := Types.get?_member (ho.nodup_exprVisits h) (ho.lt_size_of_mem_exprVisits h) hbase hbase'
  rw [Expr.tag] at htag
  rw [htag', htype', Option.bind_some, htag, htype, Signatures.memberType,
    hfits.fieldType_eq hnames houter] at hget
  refine Signatures.resolve_ne_struct _ ?_ hget.symm
  rw [← hfits.inner_name]
  exact hne

/-! ## Redirecting -/

theorem redirect_eq (names : List String) (s : Shader) (access : Access) :
    redirect names s access = (s.forgetExprs [access.wrapper]).setExpr access.member
      (.member access.base (names[access.position]?.getD "")) :=
  Shader.forgetExprs_setExpr ..

theorem redirect_same (names : List String) (s : Shader) (access : Access) :
    (redirect names s access).exprs.size = s.exprs.size ∧
      (redirect names s access).stmts = s.stmts ∧ (redirect names s access).decls = s.decls ∧
      (redirect names s access).declNodes = s.declNodes := by
  rw [redirect_eq]
  refine ⟨by simp, by simp, by simp, by simp⟩

theorem expr_redirect_of_ne {names : List String} {access : Access} {id : ExprId}
    (hne : id ≠ access.member) : (redirect names s access).expr id = s.expr id := by
  rw [redirect_eq, Shader.expr_setExpr, if_neg fun h => hne h.1.symm, Shader.expr_forgetExprs]

theorem isRank_redirect {rank : ExprId → Nat}
    (hr : IsRank ExprId.index s.exprs.size s.exprParts rank) {access : Access}
    (hbase : access.base.index < s.exprs.size ∧ rank access.base < rank access.member)
    (names : List String) :
    IsRank ExprId.index s.exprs.size (redirect names s access).exprParts rank := by
  refine ⟨hr.lt_size, fun id c hc => ?_⟩
  rw [redirect_eq, Shader.exprParts, Shader.expr_setExpr, Shader.expr_forgetExprs] at hc
  split at hc
  next hid =>
    obtain rfl : c = access.base := by simpa [ExprNode.children] using hc
    exact hid.1 ▸ hbase
  next => exact hr.falls id c hc

theorem Through.rank_lt {rank : ExprId → Nat}
    (hr : IsRank ExprId.index s.exprs.size s.exprParts rank) {access : Access}
    (hthrough : Through s field access) :
    access.base.index < s.exprs.size ∧ rank access.base < rank access.member := by
  obtain ⟨name, hmember⟩ := hthrough.member_eq
  have hwrapper := hr.falls access.member access.wrapper
    (by simp [Shader.exprParts, hmember, ExprNode.children])
  have hbase := hr.falls access.wrapper access.base
    (by simp [Shader.exprParts, hthrough.wrapper_eq, ExprNode.children])
  exact ⟨hbase.1, hbase.2.trans hwrapper.2⟩

theorem Through.grounded_redirect (h : s.Grounded) {access : Access}
    (hthrough : Through s field access) (names : List String) :
    (redirect names s access).Grounded := by
  obtain ⟨rank, hr⟩ := h.exprs
  obtain ⟨hsize, hstmts, -, hnodes⟩ := redirect_same names s access
  exact h.of_isRank (isRank_redirect hr (hthrough.rank_lt hr) names) hsize hstmts hnodes

theorem Through.ownsExprs_redirect (h : s.Grounded) (ho : s.OwnsExprs 0) {access : Access}
    (hthrough : Through s field access) (hlive : access.member ∈ s.liveExprs)
    (names : List String) : (redirect names s access).OwnsExprs 0 := by
  obtain ⟨name, hmember⟩ := hthrough.member_eq
  have hparts : s.exprPartsOf access.member = {access.wrapper} := by
    rw [Shader.exprPartsOf, Shader.exprParts, hmember]
    rfl
  have hparts' : s.exprPartsOf access.wrapper = {access.base} := by
    rw [Shader.exprPartsOf, Shader.exprParts, hthrough.wrapper_eq]
    rfl
  rw [redirect_eq]
  refine ho.contract h ?_ ?_
  · refine le_trans ?_ (ho.cons_bind_le h hlive)
    rw [hparts, Multiset.singleton_bind, h.exprSlotsOf_eq, Multiset.coe_singleton]
    exact Multiset.cons_le_cons _ (Multiset.cons_le_cons _ (Multiset.zero_le _))
  · rw [hparts, Multiset.coe_singleton, Multiset.singleton_bind, hparts', add_comm]
    rfl

/-- Redirecting accesses one after the other keeps all slots owned. -/
theorem ownsExprs_redirects {accesses : List Access} (names : List String)
    (hnodup : (accesses.map Access.member).Nodup)
    (hapart : ∀ a ∈ accesses, ∀ b ∈ accesses, a.wrapper ≠ b.member) (h : s.Grounded)
    (ho : s.OwnsExprs 0)
    (hthrough : ∀ a ∈ accesses, a.member ∈ s.liveExprs ∧ Through s field a) :
    (accesses.foldl (redirect names) s).OwnsExprs 0 := by
  induction accesses generalizing s with
  | nil => exact ho
  | cons access accesses ih =>
      obtain ⟨hlive, hself⟩ := hthrough access List.mem_cons_self
      obtain ⟨hnot, hnodup⟩ := List.nodup_cons.mp hnodup
      refine ih hnodup
        (fun a ha b hb => hapart a (List.mem_cons_of_mem _ ha) b (List.mem_cons_of_mem _ hb))
        (hself.grounded_redirect h names) (hself.ownsExprs_redirect h ho hlive names) ?_
      intro a ha
      obtain ⟨halive, haself⟩ := hthrough a (List.mem_cons_of_mem _ ha)
      have hmember : a.member ≠ access.member := fun heq =>
        hnot (heq ▸ List.mem_map_of_mem ha)
      have hwrapper := hapart a (List.mem_cons_of_mem _ ha) access List.mem_cons_self
      have hleft := hapart access List.mem_cons_self a (List.mem_cons_of_mem _ ha)
      refine ⟨?_, ⟨?_, ?_⟩⟩
      · rw [redirect_eq, Shader.liveExprs_setExpr, Shader.liveExprs_forgetExprs,
          Multiset.mem_filter]
        exact ⟨halive, by simpa using hleft.symm⟩
      · rw [expr_redirect_of_ne hmember]
        exact haself.member_eq
      · rw [expr_redirect_of_ne hwrapper]
        exact haself.wrapper_eq

/-! ## The whole change -/

/-- The structure with other fields in the place of one. -/
def widened (outer : StructDecl) (position : Nat) (fields : List FieldDecl) : StructDecl :=
  ⟨outer.name, outer.fields.take position ++ fields ++ outer.fields.drop (position + 1)⟩

/-- A shader in which the outer structure is widened by fields, and all constructors and accesses of a
plan are changed with it. -/
def inlined (s : Shader) (outerId : DeclId) (outer : StructDecl) (plan : Plan)
    (fields : List FieldDecl) : Shader :=
  plan.accesses.foldl (redirect (fields.map FieldDecl.name))
    (plan.constructors.foldl (spliceConstructor plan.position)
      (s.setDecl outerId (.struct (widened outer plan.position fields))))

/-- The names of the fields that stay. -/
def keptNames (outer : StructDecl) (position : Nat) : List String :=
  (outer.fields.take position ++ outer.fields.drop (position + 1)).map FieldDecl.name

/-- What a plan does to a shader. -/
theorem Fits.apply_eq (hfits : Fits s outerId field plan outer inner wrapper)
    (h : plan? s (Types.ofShader s) outerId field = some plan) (supply : NameSupply) :
    (apply s supply outerId field).1 = inlined s outerId outer plan
      (renamed field (keptNames outer plan.position) supply inner.fields).1 := by
  rw [apply, h, hfits.outer_eq]
  dsimp only
  rw [hfits.fields_eq]
  rfl

theorem exists_apply_eq (h : plan? s (Types.ofShader s) outerId field = some plan)
    (supply : NameSupply) : ∃ outer inner wrapper taken,
      Fits s outerId field plan outer inner wrapper ∧
      (apply s supply outerId field).1 = plan.accesses.foldl
        (redirect ((renamed field taken supply inner.fields).1.map FieldDecl.name))
        (plan.constructors.foldl (spliceConstructor plan.position)
          (s.setDecl outerId (.struct
            (widened outer plan.position (renamed field taken supply inner.fields).1)))) := by
  obtain ⟨outer, inner, wrapper, hfits⟩ := exists_fits h
  exact ⟨outer, inner, wrapper, _, hfits, hfits.apply_eq h supply⟩

/-- Only a plan changes a shader. -/
theorem apply_cases (s : Shader) (supply : NameSupply) (outerId : DeclId) (field : String) :
    (apply s supply outerId field).1 = s ∨ ∃ plan outer inner wrapper taken,
      Fits s outerId field plan outer inner wrapper ∧
      (apply s supply outerId field).1 = plan.accesses.foldl
        (redirect ((renamed field taken supply inner.fields).1.map FieldDecl.name))
        (plan.constructors.foldl (spliceConstructor plan.position)
          (s.setDecl outerId (.struct
            (widened outer plan.position (renamed field taken supply inner.fields).1)))) := by
  cases hplan : plan? s (Types.ofShader s) outerId field with
  | none =>
      refine Or.inl ?_
      rw [apply, hplan]
  | some plan => exact Or.inr ⟨plan, exists_apply_eq hplan supply⟩

theorem mem_decls_of_holds {outerId : DeclId} (h : holds s outerId field = true) :
    outerId ∈ s.decls := by
  simp only [holds, Shader.isDeclLive, Bool.and_eq_true] at h
  simpa using h.1.2

theorem exists_plan_of_holds {outerId : DeclId} (h : holds s outerId field = true) :
    ∃ plan, plan? s (Types.ofShader s) outerId field = some plan := by
  rw [holds, Bool.and_eq_true] at h
  exact Option.isSome_iff_exists.mp h.2

theorem exprTree_setDecl (s : Shader) (id : DeclId) (node : Decl ExprId StmtId) :
    (s.setDecl id node).exprTree = s.exprTree :=
  Shader.exprTree_congr rfl rfl

theorem splices_setDecl (s : Shader) (id : DeclId) (node : Decl ExprId StmtId) {call : ExprId}
    {outer inner : String} {position : Nat} (h : Splices s outer inner position call) :
    Splices (s.setDecl id node) outer inner position call := by
  obtain ⟨args, wrapped, innerArgs, hcall, hw, hinner⟩ := h
  refine ⟨args, wrapped, innerArgs, hcall, hw, ?_⟩
  rw [stripped, exprTree_setDecl]
  exact hinner

theorem grounded_setDecl (h : s.Grounded) (id : DeclId) (decl : StructDecl) :
    (s.setDecl id (.struct decl)).Grounded := by
  refine h.of_below rfl rfl (fun id c hc => Shader.exprBelow_of_mem hc)
    (fun id c hc => Shader.stmtBelow_of_mem hc) h.stmtExprs (fun d e he => ?_) fun d t ht => ?_
  · rw [Shader.decl_setDecl] at he
    split at he
    next => cases he
    next => exact h.inits d e he
  · rw [Shader.decl_setDecl] at ht
    split at ht
    next => cases ht
    next => exact h.bodies d t ht

/-- A structure in the place of another one leaves the bodies and initial values of a shader. -/
theorem roots_setDecl {id : DeclId} {outer : StructDecl} (houter : (s.decl id).struct? = some outer)
    (decl : StructDecl) : (s.setDecl id (.struct decl)).bodyRoots = s.bodyRoots ∧
      (s.setDecl id (.struct decl)).initRoots = s.initRoots := by
  have hnode := Decl.struct?_eq_some.mp houter
  exact Shader.roots_setDecl s (by rw [hnode]; rfl) (by rw [hnode]; rfl)

theorem owned_setDecl (ho : s.Owned) {id : DeclId} {outer : StructDecl}
    (houter : (s.decl id).struct? = some outer) (decl : StructDecl) :
    (s.setDecl id (.struct decl)).Owned := by
  obtain ⟨hbodies, hinits⟩ := roots_setDecl houter decl
  refine ⟨⟨ho.decls.nodup, fun d => ?_⟩, ho.stmts.of_stmts_eq rfl (by rw [hbodies]),
    ho.exprs.of_exprs_eq rfl rfl (by rw [hinits])⟩
  rw [Shader.setDecl, Arena.isLive_set]
  exact ho.decls.isLive_iff d

theorem map_type_renamed (field : String) (taken : List String) (supply : NameSupply)
    (fields : List FieldDecl) :
    (renamed field taken supply fields).1.map FieldDecl.type = fields.map FieldDecl.type := by
  induction fields generalizing taken supply with
  | nil => rfl
  | cons inner fields ih =>
      rw [renamed, List.map_cons, ih]
      rfl

/-- The structure that is widened holds what it or the inner one held. -/
theorem Fits.held_of_mem_widened (hfits : Fits s outerId field plan outer inner wrapper)
    (houter : outerId ∈ s.decls) {fields : List FieldDecl}
    (htypes : fields.map FieldDecl.type = inner.fields.map FieldDecl.type) {f : FieldDecl}
    (hf : f ∈ (widened outer plan.position fields).fields) :
    Relation.TransGen (StructDecl.Holds s.structDecls) outer.name f.type.name := by
  have houterHolds : ∀ g ∈ outer.fields, StructDecl.Holds s.structDecls outer.name g.type.name :=
    fun g hg => ⟨outer, hfits.outer_mem houter, rfl, g, hg, rfl⟩
  simp only [widened, List.mem_append] at hf
  rcases hf with (hf | hf) | hf
  · exact .single (houterHolds f (List.mem_of_mem_take hf))
  · obtain ⟨g, hg, htype⟩ := List.mem_map.mp (htypes ▸ List.mem_map_of_mem hf)
    have hwrapper := houterHolds wrapper (List.mem_of_getElem? hfits.wrapper_eq)
    rw [← hfits.inner_name] at hwrapper
    refine (Relation.TransGen.single hwrapper).tail ⟨inner, hfits.inner_mem, rfl, g, hg, ?_⟩
    rw [htype]
  · exact .single (houterHolds f (List.mem_of_mem_drop hf))

/-- The structures with another one in the place of one of them. -/
theorem exists_structDecls_setDecl (ho : s.Owned) (houter : outerId ∈ s.decls)
    (hdecl : (s.decl outerId).struct? = some outer) (wide : StructDecl) :
    ∃ front back, s.structDecls = front ++ outer :: back ∧
      (s.setDecl outerId (.struct wide)).structDecls = front ++ wide :: back := by
  obtain ⟨before, after, hdecls⟩ := List.append_of_mem houter
  have hnodup := ho.decls.nodup
  rw [hdecls, List.nodup_append, List.nodup_cons] at hnodup
  obtain ⟨-, ⟨hafter, -⟩, hapart⟩ := hnodup
  have hsize : outerId.index < s.declNodes.size :=
    Arena.lt_size_of_isLive ((ho.decls.isLive_iff outerId).mpr houter)
  have hothers : ∀ ds : List DeclId, outerId ∉ ds →
      ds.filterMap (fun d => ((s.setDecl outerId (.struct wide)).decl d).struct?) =
        ds.filterMap fun d => (s.decl d).struct? := by
    intro ds hds
    refine List.filterMap_congr fun d hd => ?_
    rw [Shader.decl_setDecl, if_neg]
    rintro ⟨rfl, -⟩
    exact hds hd
  have hbefore : outerId ∉ before := fun hmem => hapart _ hmem _ List.mem_cons_self rfl
  have hself : ((s.setDecl outerId (.struct wide)).decl outerId).struct? = some wide := by
    rw [Shader.decl_setDecl, if_pos ⟨rfl, hsize⟩]
    rfl
  refine ⟨before.filterMap fun d => (s.decl d).struct?, after.filterMap fun d => (s.decl d).struct?,
    ?_, ?_⟩
  · rw [Shader.structDecls_eq, hdecls, List.filterMap_append, List.filterMap_cons, hdecl]
  · have hsame : (s.setDecl outerId (.struct wide)).decls = before ++ outerId :: after := hdecls
    rw [Shader.structDecls_eq, hsame, List.filterMap_append, List.filterMap_cons, hself,
      hothers before hbefore, hothers after hafter]

/-- The structure that is widened still has its name, and holds what the inner one held. -/
theorem structsSound_setDecl (ho : s.Owned) (hstructs : StructsSound s.structDecls)
    (hfits : Fits s outerId field plan outer inner wrapper) (houter : outerId ∈ s.decls)
    {fields : List FieldDecl} (htypes : fields.map FieldDecl.type = inner.fields.map FieldDecl.type) :
    StructsSound (s.setDecl outerId (.struct (widened outer plan.position fields))).structDecls := by
  obtain ⟨front, back, hold, hnew⟩ := exists_structDecls_setDecl ho houter hfits.outer_eq
    (widened outer plan.position fields)
  rw [hnew]
  refine hstructs.of_holds ?_ ?_
  · rw [hold, List.map_append, List.map_append, List.map_cons, List.map_cons]
    exact List.Sublist.refl _
  · rintro name held ⟨decl, hdecl, rfl, f, hf, rfl⟩
    rcases List.mem_append.mp hdecl with hdecl | hdecl
    · exact .single ⟨decl, by simp [hold, hdecl], rfl, f, hf, rfl⟩
    · rcases List.mem_cons.mp hdecl with rfl | hdecl
      · exact hfits.held_of_mem_widened houter htypes hf
      · exact .single ⟨decl, by simp [hold, hdecl], rfl, f, hf, rfl⟩

/-! ## Shaders after the change -/

theorem foldl_spliceConstructor_same (position : Nat) (calls : List ExprId) (s : Shader) :
    (calls.foldl (spliceConstructor position) s).exprs.size = s.exprs.size ∧
      (calls.foldl (spliceConstructor position) s).stmts = s.stmts ∧
      (calls.foldl (spliceConstructor position) s).decls = s.decls ∧
      (calls.foldl (spliceConstructor position) s).declNodes = s.declNodes := by
  induction calls generalizing s with
  | nil => exact ⟨rfl, rfl, rfl, rfl⟩
  | cons call calls ih =>
      obtain ⟨hsize, hstmts, hdecls, hnodes⟩ := spliceConstructor_same position s call
      obtain ⟨hsize', hstmts', hdecls', hnodes'⟩ := ih (spliceConstructor position s call)
      exact ⟨hsize'.trans hsize, hstmts'.trans hstmts, hdecls'.trans hdecls, hnodes'.trans hnodes⟩

theorem foldl_redirect_same (names : List String) (accesses : List Access) (s : Shader) :
    (accesses.foldl (redirect names) s).exprs.size = s.exprs.size ∧
      (accesses.foldl (redirect names) s).stmts = s.stmts ∧
      (accesses.foldl (redirect names) s).decls = s.decls ∧
      (accesses.foldl (redirect names) s).declNodes = s.declNodes := by
  induction accesses generalizing s with
  | nil => exact ⟨rfl, rfl, rfl, rfl⟩
  | cons access accesses ih =>
      obtain ⟨hsize, hstmts, hdecls, hnodes⟩ := redirect_same names s access
      obtain ⟨hsize', hstmts', hdecls', hnodes'⟩ := ih (redirect names s access)
      exact ⟨hsize'.trans hsize, hstmts'.trans hstmts, hdecls'.trans hdecls, hnodes'.trans hnodes⟩

/-- Inlining a field changes the declarations in place, and adds no expressions. -/
theorem same_apply (s : Shader) (supply : NameSupply) (outerId : DeclId) (field : String) :
    (apply s supply outerId field).1.decls = s.decls ∧
      (apply s supply outerId field).1.stmts = s.stmts ∧
      (apply s supply outerId field).1.exprs.size = s.exprs.size := by
  obtain heq | ⟨plan, outer, inner, wrapper, taken, -, heq⟩ := apply_cases s supply outerId field
  · rw [heq]
    exact ⟨rfl, rfl, rfl⟩
  rw [heq]
  set fields := (renamed field taken supply inner.fields).1
  set w := s.setDecl outerId (.struct (widened outer plan.position fields))
  obtain ⟨hsize, hstmts, hdecls, -⟩ :=
    foldl_spliceConstructor_same plan.position plan.constructors w
  obtain ⟨hsize', hstmts', hdecls', -⟩ := foldl_redirect_same (fields.map FieldDecl.name)
    plan.accesses (plan.constructors.foldl (spliceConstructor plan.position) w)
  exact ⟨hdecls'.trans hdecls, hstmts'.trans hstmts, hsize'.trans hsize⟩

theorem isRank_splices (h : s.Grounded) {rank : ExprId → Nat}
    (hr : IsRank ExprId.index s.exprs.size s.exprParts rank) (position : Nat)
    (calls : List ExprId) : IsRank ExprId.index s.exprs.size
      (calls.foldl (spliceConstructor position) s).exprParts rank := by
  induction calls generalizing s with
  | nil => exact hr
  | cons call calls ih =>
      have hrank := isRank_spliceConstructor h hr position call
      rw [← (spliceConstructor_same position s call).1] at hrank ⊢
      exact ih (grounded_spliceConstructor h position call) hrank

theorem grounded_splices (h : s.Grounded) (position : Nat) (calls : List ExprId) :
    (calls.foldl (spliceConstructor position) s).Grounded := by
  induction calls generalizing s with
  | nil => exact h
  | cons call calls ih => exact ih (grounded_spliceConstructor h position call)

theorem isRank_redirects {rank : ExprId → Nat}
    (hr : IsRank ExprId.index s.exprs.size s.exprParts rank) (names : List String)
    {accesses : List Access}
    (hbase : ∀ a ∈ accesses, a.base.index < s.exprs.size ∧ rank a.base < rank a.member) :
    IsRank ExprId.index s.exprs.size (accesses.foldl (redirect names) s).exprParts rank := by
  induction accesses generalizing s with
  | nil => exact hr
  | cons access accesses ih =>
      have hrank := isRank_redirect hr (hbase access List.mem_cons_self) names
      rw [← (redirect_same names s access).1] at hrank hbase ⊢
      exact ih hrank fun a ha => hbase a (List.mem_cons_of_mem _ ha)

/-- What goes over from the parts of an expression to the expression goes over from what is inside
the parentheses of an expression. -/
theorem rises_of_stripped (h : s.Grounded) {P : ExprId → Prop}
    (hrises : ∀ id, ∀ c ∈ (s.expr id).children, P c → P id) {id : ExprId} (hid : P (stripped s id)) :
    P id := by
  induction id using h.expr_induction with
  | step id ih =>
      by_cases hparen : ∃ inner, s.expr id = .paren inner
      · obtain ⟨inner, hparen⟩ := hparen
        have hmem : inner ∈ (s.expr id).children := by simp [hparen, ExprNode.children]
        rw [(chain_paren h hparen).2] at hid
        exact hrises id inner hmem (ih inner hmem hid)
      · rwa [(chain_of_ne h fun inner hc => hparen ⟨inner, hc⟩).2] at hid

theorem rises_spliceConstructor (h : s.Grounded) {P : ExprId → Prop}
    (hrises : ∀ id, ∀ c ∈ (s.expr id).children, P c → P id) (position : Nat) (call id : ExprId) :
    ∀ c ∈ ((spliceConstructor position s call).expr id).children, P c → P id := by
  obtain heq | ⟨callee, args, wrapped, inner, innerArgs, hcall, hw, hinner, heq⟩ :=
    spliceConstructor_cases position s call
  · rw [heq]
    exact hrises id
  have hargs : ∀ c ∈ args, P c → P call := by
    intro c hc
    refine hrises call c ?_
    rw [hcall]
    exact hc
  rw [heq, Shader.expr_setExpr, Shader.expr_forgetExprs]
  split
  next hid =>
    intro c hc hP
    rw [← hid.1]
    simp only [ExprNode.children, List.mem_append] at hc
    rcases hc with (hc | hc) | hc
    · exact hargs c (List.mem_of_mem_take hc) hP
    · refine hargs wrapped (List.mem_of_getElem? hw) (rises_of_stripped h hrises ?_)
      refine hrises _ c ?_ hP
      rw [hinner]
      exact hc
    · exact hargs c (List.mem_of_mem_drop hc) hP
  next => exact hrises id

theorem rises_splices (h : s.Grounded) {P : ExprId → Prop}
    (hrises : ∀ id, ∀ c ∈ (s.expr id).children, P c → P id) (position : Nat) (calls : List ExprId)
    (id : ExprId) :
    ∀ c ∈ ((calls.foldl (spliceConstructor position) s).expr id).children, P c → P id := by
  induction calls generalizing s with
  | nil => exact hrises id
  | cons call calls ih =>
      exact ih (grounded_spliceConstructor h position call)
        (rises_spliceConstructor h hrises position call)

/-- The value that a wrapper is a member of was below the member of the wrapper. -/
theorem rises_redirects {u : Shader} {P : ExprId → Prop}
    (hrises : ∀ id, ∀ c ∈ (s.expr id).children, P c → P id)
    (hu : ∀ id, ∀ c ∈ (u.expr id).children, P c → P id) (names : List String)
    {accesses : List Access} (hthrough : ∀ a ∈ accesses, Through s field a) (id : ExprId) :
    ∀ c ∈ ((accesses.foldl (redirect names) u).expr id).children, P c → P id := by
  induction accesses generalizing u with
  | nil => exact hu id
  | cons access accesses ih =>
      refine ih (fun id => ?_) fun a ha => hthrough a (List.mem_cons_of_mem _ ha)
      obtain ⟨⟨name, hmember⟩, hwrapper⟩ := hthrough access List.mem_cons_self
      rw [redirect_eq, Shader.expr_setExpr, Shader.expr_forgetExprs]
      split
      next hid =>
        intro c hc hP
        obtain rfl := List.mem_singleton.mp hc
        have hbase : P access.wrapper :=
          hrises _ access.base (by simp [hwrapper, ExprNode.children]) hP
        exact hid.1 ▸ hrises _ access.wrapper (by simp [hmember, ExprNode.children]) hbase
      next => exact hu id

/-- Where inlining gives an expression parts, these were below it. So what goes over from parts to
expressions still does. -/
theorem Fits.rises_inlined (hfits : Fits s outerId field plan outer inner wrapper) (h : s.Grounded)
    (fields : List FieldDecl) {P : ExprId → Prop}
    (hrises : ∀ id, ∀ c ∈ (s.expr id).children, P c → P id) (id : ExprId) :
    ∀ c ∈ ((inlined s outerId outer plan fields).expr id).children, P c → P id :=
  rises_redirects hrises
    (rises_splices (grounded_setDecl h outerId (widened outer plan.position fields)) hrises
      plan.position plan.constructors)
    (fields.map FieldDecl.name) (fun _ => hfits.through h) id

/-- Inlining a field makes no cycle. The ranks of before still do: what a slot names afterwards was
below it. -/
theorem grounded_apply (h : s.Grounded) (supply : NameSupply) (outerId : DeclId) (field : String) :
    (apply s supply outerId field).1.Grounded := by
  obtain heq | ⟨plan, outer, inner, wrapper, taken, hfits, heq⟩ :=
    apply_cases s supply outerId field
  · rw [heq]
    exact h
  rw [heq]
  set fields := (renamed field taken supply inner.fields).1
  have hset := grounded_setDecl h outerId (widened outer plan.position fields)
  set t := s.setDecl outerId (.struct (widened outer plan.position fields)) with ht
  obtain ⟨rank, hr⟩ := h.exprs
  have hrank : IsRank ExprId.index t.exprs.size t.exprParts rank := hr
  have hsplices := isRank_splices hset hrank plan.position plan.constructors
  obtain ⟨hsize, hstmts, -, hnodes⟩ :=
    foldl_spliceConstructor_same plan.position plan.constructors t
  obtain ⟨hsize', hstmts', -, hnodes'⟩ := foldl_redirect_same (fields.map FieldDecl.name)
    plan.accesses (plan.constructors.foldl (spliceConstructor plan.position) t)
  have hbase : ∀ a ∈ plan.accesses, a.base.index < t.exprs.size ∧ rank a.base < rank a.member :=
    fun a ha => (hfits.through h ha).rank_lt hr
  rw [← hsize] at hsplices hbase
  have hredirects := isRank_redirects hsplices (fields.map FieldDecl.name) hbase
  rw [hsize] at hredirects
  exact hset.of_isRank hredirects (hsize'.trans hsize) (hstmts'.trans hstmts) (hnodes'.trans hnodes)

/-- Inlining a field keeps all statements owned. -/
theorem ownsStmts_apply (ho : s.OwnsStmts 0) (supply : NameSupply) (outerId : DeclId)
    (field : String) : (apply s supply outerId field).1.OwnsStmts 0 := by
  obtain heq | ⟨plan, outer, inner, wrapper, taken, hfits, heq⟩ :=
    apply_cases s supply outerId field
  · rw [heq]
    exact ho
  rw [heq]
  set fields := (renamed field taken supply inner.fields).1
  set t := s.setDecl outerId (.struct (widened outer plan.position fields)) with ht
  have hset : t.OwnsStmts 0 := ho.of_stmts_eq rfl (by rw [ht, (roots_setDecl hfits.outer_eq _).1])
  obtain ⟨-, hstmts, hdecls, hnodes⟩ :=
    foldl_spliceConstructor_same plan.position plan.constructors t
  obtain ⟨-, hstmts', hdecls', hnodes'⟩ := foldl_redirect_same (fields.map FieldDecl.name)
    plan.accesses (plan.constructors.foldl (spliceConstructor plan.position) t)
  exact hset.congr ⟨hdecls'.trans hdecls, hnodes'.trans hnodes⟩ (hstmts'.trans hstmts)

/-- Only wrappers are left by redirecting. -/
theorem mem_liveExprs_redirects (names : List String) {accesses : List Access} {u : Shader}
    {id : ExprId} : id ∈ (accesses.foldl (redirect names) u).liveExprs ↔
      id ∈ u.liveExprs ∧ ∀ a ∈ accesses, id ≠ a.wrapper := by
  induction accesses generalizing u with
  | nil => simp
  | cons access accesses ih =>
      rw [List.foldl_cons, ih, redirect_eq, Shader.liveExprs_setExpr, Shader.liveExprs_forgetExprs,
        Multiset.mem_filter, List.mem_singleton, List.forall_mem_cons, and_assoc]

/-- Inlining a field of another structure keeps all slots owned. Members but the wrappers are not
left. -/
theorem Fits.owned_inlined (hfits : Fits s outerId field plan outer inner wrapper) (h : s.Grounded)
    (ho : s.Owned) (hnames : (s.structDecls.map StructDecl.name).Nodup)
    (hne : inner.name ≠ outer.name) (houter : outerId ∈ s.decls) (fields : List FieldDecl) :
    (inlined s outerId outer plan fields).Owned ∧
      ∀ id base name, id ∈ s.liveExprs → s.expr id = .member base name →
        (∀ a ∈ plan.accesses, id ≠ a.wrapper) →
          id ∈ (inlined s outerId outer plan fields).liveExprs := by
  have hset := grounded_setDecl h outerId (widened outer plan.position fields)
  have hsetOwned := owned_setDecl ho hfits.outer_eq (widened outer plan.position fields)
  rw [inlined]
  set t := s.setDecl outerId (.struct (widened outer plan.position fields)) with ht
  obtain ⟨-, hstmts, hdecls, hnodes⟩ :=
    foldl_spliceConstructor_same plan.position plan.constructors t
  obtain ⟨howns, hmembers⟩ := owned_splices hne (hfits.nodup_constructors h ho) hset
    hsetOwned.exprs fun c hc =>
      ⟨(hfits.splices h ho hc).1, splices_setDecl s outerId _ (hfits.splices h ho hc).2⟩
  have hspliced := grounded_splices hset plan.position plan.constructors
  set u := plan.constructors.foldl (spliceConstructor plan.position) t with hu
  obtain ⟨-, hstmts', hdecls', hnodes'⟩ :=
    foldl_redirect_same (fields.map FieldDecl.name) plan.accesses u
  have hthrough : ∀ a ∈ plan.accesses, a.member ∈ u.liveExprs ∧ Through u field a := by
    intro a ha
    obtain ⟨name, hmember⟩ := (hfits.through h ha).member_eq
    have hlive := hfits.member_mem_liveExprs h ho ha
    have hwrapper : a.wrapper ∈ s.liveExprs := ho.exprs.mem_of_mem_parts hlive (by
      simp [Shader.exprPartsOf, Shader.exprParts, hmember, ExprNode.children])
    obtain ⟨hlive', hmember'⟩ := hmembers _ _ _ hlive hmember
    exact ⟨hlive', ⟨name, hmember'⟩,
      (hmembers _ _ _ hwrapper (hfits.through h ha).wrapper_eq).2⟩
  have hredirected := ownsExprs_redirects (fields.map FieldDecl.name) (hfits.nodup_members h ho)
    (fun a ha b hb => hfits.wrapper_ne_member h ho hnames hne houter ha hb) hspliced howns hthrough
  refine ⟨?_, fun id base name hid hmember hwrapper => ?_⟩
  · exact hsetOwned.of_ownsExprs (hdecls'.trans hdecls) (hnodes'.trans hnodes)
      (hstmts'.trans hstmts) hredirected
  · exact (mem_liveExprs_redirects _).mpr ⟨(hmembers id base name hid hmember).1, hwrapper⟩

/-- Inlining a field keeps all slots owned, where no structure holds itself. -/
theorem owned_apply (h : s.Grounded) (ho : s.Owned) (hstructs : StructsSound s.structDecls)
    (supply : NameSupply) {outerId : DeclId} (hholds : holds s outerId field = true) :
    (apply s supply outerId field).1.Owned ∧
      StructsSound (apply s supply outerId field).1.structDecls := by
  have houter := mem_decls_of_holds hholds
  obtain heq | ⟨plan, outer, inner, wrapper, taken, hfits, heq⟩ :=
    apply_cases s supply outerId field
  · rw [heq]
    exact ⟨ho, hstructs⟩
  have htypes := map_type_renamed field taken supply inner.fields
  set fields := (renamed field taken supply inner.fields).1
  have hsetStructs := structsSound_setDecl ho hstructs hfits houter htypes
  obtain ⟨-, -, hdecls, hnodes⟩ := foldl_spliceConstructor_same plan.position plan.constructors
    (s.setDecl outerId (.struct (widened outer plan.position fields)))
  obtain ⟨-, -, hdecls', hnodes'⟩ := foldl_redirect_same (fields.map FieldDecl.name) plan.accesses
    (plan.constructors.foldl (spliceConstructor plan.position)
      (s.setDecl outerId (.struct (widened outer plan.position fields))))
  rw [heq]
  refine ⟨?_, ?_⟩
  · exact (hfits.owned_inlined h ho hstructs.nodup (hfits.inner_name_ne hstructs houter) houter
      fields).1
  · rw [Shader.structDecls_congr (hdecls'.trans hdecls) (hnodes'.trans hnodes)]
    exact hsetStructs

end InlineField

end ShaderReducer
