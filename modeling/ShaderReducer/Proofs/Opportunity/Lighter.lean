import ShaderReducer.Proofs.Opportunity.Reached
import ShaderReducer.Proofs.Opportunity.WellTyped

/-!
# Every change makes a shader lighter

A change that still holds takes weight away, whatever other changes of its chunk were made before.
For most of them something live is gone. A constant weighs less than what it replaces, unless that is
the same constant, which the check before the change rules out; this is where types come in. A field
that gives way to the fields of a structure takes volume away.
-/

namespace ShaderReducer

namespace Shader

variable {s t : Shader}

/-! ## Statements -/

theorem stmtsWeight_congr (h : t.stmts = s.stmts) : t.stmtsWeight = s.stmtsWeight := by
  rw [stmtsWeight, stmtsWeight, liveStmts, liveStmts, h]
  refine congrArg Multiset.sum (Multiset.map_congr rfl fun id _ => ?_)
  rw [stmt, h, stmt]

theorem stmtsWeight_forgetStmts_le (s : Shader) (ids : List StmtId) :
    (s.forgetStmts ids).stmtsWeight ≤ s.stmtsWeight := by
  refine stmtsWeight_le ?_ fun id _ => by rw [stmt_forgetStmts]
  rw [liveStmts_forgetStmts]
  exact Multiset.filter_le _ _

theorem stmtsWeight_forgetStmts_lt {ids : List StmtId} {id : StmtId} (hid : id ∈ ids)
    (hlive : id ∈ s.liveStmts) : (s.forgetStmts ids).stmtsWeight < s.stmtsWeight := by
  have hgone : id ∉ (s.forgetStmts ids).liveStmts := by
    rw [liveStmts_forgetStmts, Multiset.mem_filter]
    exact fun hmem => hmem.2 hid
  refine stmtsWeight_lt ?_ (fun id _ => by rw [stmt_forgetStmts]) hlive fun hmem =>
    absurd hmem hgone
  rw [liveStmts_forgetStmts]
  exact Multiset.filter_le _ _

theorem weight_setStmt_le {target : StmtId} {node : StmtNode ExprId StmtId}
    (hnode : node.weight ≤ (s.stmt target).weight) (id : StmtId) :
    ((s.setStmt target node).stmt id).weight ≤ (s.stmt id).weight := by
  rw [stmt_setStmt]
  split
  next hid => exact hid.1 ▸ hnode
  next => exact Nat.le_refl _

theorem stmtsWeight_setStmt_le {target : StmtId} {node : StmtNode ExprId StmtId}
    (hnode : node.weight ≤ (s.stmt target).weight) :
    (s.setStmt target node).stmtsWeight ≤ s.stmtsWeight :=
  stmtsWeight_le (liveStmts_setStmt s target node).le fun id _ => weight_setStmt_le hnode id

theorem stmtsWeight_setStmt_lt {target : StmtId} {node : StmtNode ExprId StmtId}
    (hlive : target ∈ s.liveStmts) (hnode : node.weight < (s.stmt target).weight) :
    (s.setStmt target node).stmtsWeight < s.stmtsWeight := by
  refine stmtsWeight_lt (liveStmts_setStmt s target node).le
    (fun id _ => weight_setStmt_le hnode.le id) hlive fun _ => ?_
  rw [stmt_setStmt, if_pos ⟨rfl, lt_size_of_mem_liveStmts hlive⟩]
  exact hnode

theorem stmtsWeight_killStmt_le (s : Shader) (id : StmtId) :
    (s.killStmt id).stmtsWeight ≤ s.stmtsWeight :=
  stmtsWeight_forgetStmts_le (s.forgetExprs _) _

theorem stmtsWeight_killContents_le (s : Shader) (d : Decl ExprId StmtId) :
    (s.killContents d).stmtsWeight ≤ s.stmtsWeight := by
  cases d with
  | function decl =>
      rw [killContents]
      cases decl.body with
      | none => exact Nat.le_refl _
      | some body => exact stmtsWeight_killStmt_le s body
  | vars decl =>
      rw [killContents, killExprs_eq]
      exact Nat.le_refl _
  | _ => exact Nat.le_refl _

theorem stmtsWeight_removeFromBlock_le (s : Shader) (block stmt : StmtId) :
    (s.removeFromBlock block stmt).2.stmtsWeight ≤ s.stmtsWeight := by
  rw [removeFromBlock]
  split
  next body hb =>
    split
    next =>
      refine (stmtsWeight_killStmt_le _ stmt).trans (stmtsWeight_setStmt_le ?_)
      rw [hb]
      rfl
    next => exact Nat.le_refl _
  next => exact Nat.le_refl _

theorem stmtsWeight_removeFromBlock_lt {block stmt : StmtId}
    (hin : s.standsIn block stmt = true) :
    (s.removeFromBlock block stmt).2.stmtsWeight < s.stmtsWeight := by
  obtain ⟨-, hstmt, body, hb, hmem⟩ := stmt_eq_block hin
  rw [removeFromBlock_eq hb hmem]
  set u := s.setStmt block (.block (body.erase stmt)) with hu
  have hset : u.stmtsWeight ≤ s.stmtsWeight := stmtsWeight_setStmt_le (by rw [hb]; rfl)
  have hlive : stmt ∈ (u.forgetExprs (u.stmtExprSlots stmt)).liveStmts := by
    rwa [liveStmts_forgetExprs, hu, liveStmts_setStmt]
  exact (stmtsWeight_forgetStmts_lt (mem_stmtSlots_self u stmt) hlive).trans_le hset

theorem length_decls_removeDecl {id : DeclId} (hid : id ∈ s.decls) :
    (s.removeDecl id).2.decls.length < s.decls.length := by
  rw [removeDecl_eq hid]
  change ((s.dropDecl id).killContents (s.decl id)).decls.length < s.decls.length
  rw [(killContents_decls _ _).1]
  change (s.decls.erase id).length < s.decls.length
  rw [List.length_erase_of_mem hid]
  exact Nat.sub_lt (List.length_pos_of_mem hid) Nat.one_pos

theorem stmtsWeight_removeDecl_le (s : Shader) (id : DeclId) :
    (s.removeDecl id).2.stmtsWeight ≤ s.stmtsWeight := by
  by_cases hid : id ∈ s.decls
  · rw [removeDecl_eq hid]
    exact stmtsWeight_killContents_le (s.dropDecl id) (s.decl id)
  · rw [removeDecl, if_neg (by simpa using hid)]

/-! ## Expressions -/

theorem sum_exprWeight_pos {gone : Multiset ExprId} {id : ExprId} (hid : id ∈ gone) :
    s.exprWeight id ≤ (gone.map s.exprWeight).sum :=
  Multiset.single_le_sum (fun _ _ => Nat.zero_le _) _ (Multiset.mem_map_of_mem _ hid)

/-- Another node is put into a slot, and some slots are marked dead. What this weighs follows from
the node alone if the old node was no constant literal. -/
theorem exprsWeight_setExpr_le (node : ExprNode ExprId) {target : ExprId} {dead : List ExprId}
    (hle : target ::ₘ (dead : Multiset ExprId) ≤ s.liveExprs)
    (hunit : ∀ value, s.expr target = .literal value → value.isUnit = false) :
    ((s.forgetExprs dead).setExpr target node).exprsWeight +
        (s.exprWeight target + ((dead : Multiset ExprId).map s.exprWeight).sum) ≤
      s.exprsWeight + node.weight fun c => (s.expr c).literal? := by
  set t := (s.forgetExprs dead).setExpr target node with ht
  have hnodup := Multiset.nodup_of_le hle (nodup_liveExprs s)
  have htarget : target ∈ s.liveExprs := Multiset.mem_of_le hle (Multiset.mem_cons_self _ _)
  have hexpr : ∀ id, t.expr id = if target = id then node else s.expr id := by
    intro id
    rw [ht, expr_setExpr, expr_forgetExprs, size_exprs_forgetExprs]
    by_cases hid : target = id
    · rw [if_pos ⟨hid, hid ▸ lt_size_of_mem_liveExprs htarget⟩, if_pos hid]
    · rw [if_neg fun hc => hid hc.1, if_neg hid]
  have hkept : ∀ e : ExprNode ExprId, (e.weight fun c => (t.expr c).literal?) ≤
      e.weight fun c => (s.expr c).literal? := by
    intro e
    refine ExprNode.weight_le fun c _ value hvalue hvalueUnit => ?_
    rw [hexpr, if_neg]
    · exact hvalue
    · rintro rfl
      cases hc : s.expr target with
      | literal value' =>
          rw [hc] at hvalue
          cases hvalue
          exact Bool.false_ne_true ((hunit value hc).symm.trans hvalueUnit)
      | _ => rw [hc] at hvalue; cases hvalue
  have hlive : t.liveExprs + dead = s.liveExprs := by
    rw [ht, liveExprs_setExpr]
    exact liveExprs_forgetExprs_add ((Multiset.le_cons_self _ _).trans hle)
  have htargetLive : target ∈ t.liveExprs := by
    rw [ht, liveExprs_setExpr, liveExprs_forgetExprs, Multiset.mem_filter]
    exact ⟨htarget, (Multiset.nodup_cons.mp hnodup).1⟩
  have hsum := exprsWeight_add_le hlive htargetLive fun id _ hid => by
    rw [exprWeight, hexpr, if_neg hid.symm]
    exact hkept _
  refine hsum.trans (Nat.add_le_add_left ?_ _)
  rw [exprWeight, hexpr, if_pos rfl]
  exact hkept node

theorem OwnsExprs.exprsWeight_replaceWithLeaf_le (h : s.Grounded) {pending : Multiset ExprId}
    (ho : s.OwnsExprs pending) {target : ExprId} (ht : target ∈ s.liveExprs)
    (leaf : ExprNode ExprId)
    (hunit : ∀ value, s.expr target = .literal value → value.isUnit = false) :
    (s.replaceWithLeaf target leaf).exprsWeight + s.exprWeight target ≤
      s.exprsWeight + leaf.weight fun c => (s.expr c).literal? := by
  rw [replaceWithLeaf_eq, List.append_nil]
  have hle : target ::ₘ (((s.exprParts target).flatMap s.exprSlots : List ExprId) :
      Multiset ExprId) ≤ s.liveExprs := by
    rw [← Multiset.coe_bind]
    exact ho.cons_bind_le h ht
  have hsum := exprsWeight_setExpr_le leaf hle hunit
  omega

end Shader

theorem SubExpr.exprsWeight_lt {s : Shader} (h : s.Grounded) (ho : s.Owned) {target child : ExprId}
    (ht : target ∈ s.liveExprs) (hc : child ∈ s.exprParts target) :
    (s.replaceWithChild target child).exprsWeight < s.exprsWeight := by
  rw [Shader.replaceWithChild_eq]
  have hle := ho.exprs.cons_flatMap_le h ht hc
  generalize hdead : ((s.exprParts target).filter (· ≠ child)).flatMap s.exprSlots ++ [child] = dead
    at hle ⊢
  have hsum := Shader.exprsWeight_setExpr_le (s.expr child) hle fun value hvalue => by
    rw [Shader.exprParts, hvalue] at hc
    cases hc
  have hchild : s.exprWeight child ≤ ((dead : Multiset ExprId).map s.exprWeight).sum :=
    Shader.sum_exprWeight_pos (by simp [← hdead])
  have hpos : 0 < s.exprWeight target := ExprNode.weight_pos _ _
  change _ ≤ _ + s.exprWeight child at hsum
  omega

namespace Constant

variable {s : Shader} {types : Types} {slots : Nat} {unsigned : Bool}

/-- The weight of a constant, the argument of a vector included. -/
def size : Constant → Nat
  | scalar _ => 1
  | vector _ _ => 2

theorem isUnit_iff {value : Literal} :
    value.isUnit = true ↔ ∃ kind, element? true kind = some value := by
  simp only [Literal.isUnit, List.any_eq_true, beq_iff_eq]
  constructor
  · rintro ⟨kind, -, hkind⟩
    exact ⟨kind, hkind⟩
  · rintro ⟨kind, hkind⟩
    exact ⟨kind, by cases kind <;> simp, hkind⟩

/-- Two constants of a component have the same literal. -/
theorem element?_eq {kind : ScalarKind} {value : Literal} (h : element? unsigned kind = some value) :
    element? true kind = some value := by
  cases kind with
  | uint =>
      cases unsigned with
      | true => exact h
      | false => cases h
  | _ => exact h

/-- An expression that is not the constant of its type, although it has that type, weighs more than
the constant does, and is no constant literal. -/
theorem size_lt (hs : s.Respects types slots) {target : ExprId} (hlive : target ∈ s.liveExprs)
    (hlt : target.index < slots) {type : Ty} (htype : types.get? target = some type)
    {constant : Constant} (hof : ofType? unsigned type = some constant)
    (hat : constant.isAt s target = false) :
    (∀ value, s.expr target = .literal value → value.isUnit = false) ∧
      constant.size < s.exprWeight target := by
  have hown := hs target hlive hlt
  have hle : constant.size ≤ 2 := by cases constant <;> simp [size]
  rcases ExprNode.weight_cases (fun c => (s.expr c).literal?) (s.expr target) with
    ⟨value, hvalue⟩ | hthree | ⟨callee, arg, value, hcall, hvalue, hvector⟩
  · rw [hvalue] at hown
    obtain rfl : type = Signatures.literalType value :=
      Option.some.inj (htype.symm.trans (hown _ rfl))
    obtain ⟨kind, hkind⟩ : ∃ kind, Signatures.literalType value = .scalar kind := by
      cases value <;> exact ⟨_, rfl⟩
    rw [hkind] at hof
    obtain ⟨value', hvalue', rfl⟩ := Option.map_eq_some_iff.mp hof
    have hunit : value.isUnit = false := by
      by_contra hunit
      obtain ⟨kind', hkind'⟩ := isUnit_iff.mp (Bool.not_eq_false _ ▸ hunit)
      have hsame := (Opportunity.literalType_of_element? hkind').symm.trans hkind
      cases hsame
      obtain rfl : value' = value := Option.some.inj ((element?_eq hvalue').symm.trans hkind')
      simp [isAt, hvalue] at hat
    refine ⟨fun v hv => ?_, ?_⟩
    · rw [hvalue] at hv
      cases hv
      exact hunit
    · have htwo : s.exprWeight target = 2 := by
        rw [Shader.exprWeight, hvalue, ExprNode.weight, hunit]
        rfl
      rw [htwo, size]
      omega
  · refine ⟨fun v hv => ?_, ?_⟩
    · have := ExprNode.weight_literal_le (fun c => (s.expr c).literal?) v
      rw [hv] at hthree
      omega
    · rw [Shader.exprWeight, hthree]
      omega
  · rw [hcall] at hown
    unfold isVector at hvector
    split at hvector
    next kind width hname =>
      obtain rfl : type = .vector kind width := Option.some.inj (htype.symm.trans (hown _ hname))
      obtain ⟨element, helement, rfl⟩ := Option.map_eq_some_iff.mp hof
      obtain rfl : element = value :=
        Option.some.inj ((element?_eq helement).symm.trans (eq_of_beq hvector))
      have harg : s.expr arg = .literal element := ExprNode.eq_of_literal? hvalue
      simp [isAt, hcall, harg, Ty.eq_text_of_ofName? hname] at hat
    next => cases hvector

theorem exprsWeight_lt (h : s.Grounded) (ho : s.Owned) (hs : s.Respects types slots)
    {target : ExprId} (hlive : target ∈ s.liveExprs)
    (hlt : target.index < slots) {type : Ty} (htype : types.get? target = some type)
    (hsized : type.Sized) {constant : Constant} (hof : ofType? unsigned type = some constant)
    (hat : constant.isAt s target = false) :
    (apply s target constant).exprsWeight < s.exprsWeight := by
  obtain ⟨hunit, hsize⟩ := size_lt hs hlive hlt htype hof hat
  cases type with
  | scalar kind =>
      obtain ⟨value, hvalue, rfl⟩ := Option.map_eq_some_iff.mp hof
      have hleaf : (ExprNode.literal value).weight (fun c => (s.expr c).literal?) = 1 :=
        if_pos (isUnit_of_element? hvalue)
      have hsum := ho.exprs.exprsWeight_replaceWithLeaf_le h hlive (.literal value) hunit
      rw [hleaf] at hsum
      rw [apply]
      change 1 < _ at hsize
      omega
  | vector kind width =>
      obtain ⟨element, helement, rfl⟩ := Option.map_eq_some_iff.mp hof
      rw [apply_vector]
      set arg := (s.addExpr (.literal element)).1
      set t := (s.addExpr (.literal element)).2 with ht
      have hlive' : target ∈ t.liveExprs := by
        rw [ht, Shader.liveExprs_addExpr]
        exact Multiset.mem_cons_of_mem hlive
      have howns : t.OwnsExprs (arg ::ₘ 0) :=
        Shader.OwnsExprs.addExpr (by simpa [ExprNode.children] using ho.exprs)
      have htarget : t.expr target = s.expr target :=
        Shader.expr_addExpr_of_lt s _ (Shader.lt_size_of_mem_liveExprs hlive)
      have hleaf : (ExprNode.call (Ty.vector kind width).text [arg]).weight
          (fun c => (t.expr c).literal?) = 1 := by
        have harg : (t.expr arg).literal? = some element := by
          rw [ht, Shader.expr_addExpr_self]
          rfl
        have hvector : isVector (Ty.vector kind width).text element = true := by
          rw [isVector, Ty.ofName?_text hsized]
          exact beq_iff_eq.mpr (element?_eq helement)
        rw [ExprNode.weight, harg]
        exact if_pos hvector
      have hsum : (t.replaceWithLeaf target (.call (Ty.vector kind width).text [arg])).exprsWeight +
          t.exprWeight target ≤ t.exprsWeight + _ :=
        howns.exprsWeight_replaceWithLeaf_le (h.addExpr rfl) hlive' _ (htarget ▸ hunit)
      have hkept : t.exprWeight target = s.exprWeight target := h.exprWeight_addExpr _ hlive
      have htotal : t.exprsWeight = s.exprsWeight + 1 :=
        h.exprsWeight_addExpr (isUnit_of_element? helement)
      rw [hleaf] at hsum
      change 2 < _ at hsize
      omega
  | _ => cases hof

end Constant

namespace InlineField

variable {s : Shader}

theorem fieldsVolume_widened_lt (hstructs : StructsSound s.structDecls) {outerId : DeclId}
    {field : String} {plan : Plan} {outer inner : StructDecl} {wrapper : FieldDecl}
    (hfits : Fits s outerId field plan outer inner wrapper) {fields : List FieldDecl}
    (htypes : fields.map FieldDecl.type = inner.fields.map FieldDecl.type) :
    StructDecl.fieldsVolume s.structDecls (widened outer plan.position fields).fields <
      StructDecl.fieldsVolume s.structDecls outer.fields := by
  have hinner : StructDecl.fieldsVolume s.structDecls fields ≤
      StructDecl.volume s.structDecls wrapper.type.name := by
    rw [StructDecl.fieldsVolume_of_perm (List.Perm.of_eq htypes), ← hfits.inner_name]
    exact hstructs.fieldsVolume_le_volume hfits.inner_mem
  rw [StructDecl.fieldsVolume_of_perm ((perm_of_getElem? hfits.wrapper_eq).map FieldDecl.type),
    StructDecl.fieldsVolume_cons, widened, StructDecl.fieldsVolume_append,
    StructDecl.fieldsVolume_append, StructDecl.fieldsVolume_append]
  omega

theorem totalVolume_apply_lt (ho : s.Owned) (hstructs : StructsSound s.structDecls)
    (supply : NameSupply) {outerId : DeclId} {field : String}
    (hholds : holds s outerId field = true) :
    StructDecl.totalVolume (apply s supply outerId field).1.structDecls <
      StructDecl.totalVolume s.structDecls := by
  have houter := mem_decls_of_holds hholds
  rw [holds, Bool.and_eq_true] at hholds
  obtain ⟨plan, hplan⟩ := Option.isSome_iff_exists.mp hholds.2
  obtain ⟨outer, inner, wrapper, taken, hfits, heq⟩ := exists_apply_eq hplan supply
  set fields := (renamed field taken supply inner.fields).1 with hfields
  have htypes := map_type_renamed field taken supply inner.fields
  rw [← hfields] at htypes
  obtain ⟨front, back, hold, hnew⟩ := exists_structDecls_setDecl ho houter hfits.outer_eq
    (widened outer plan.position fields)
  obtain ⟨-, -, hdecls, hnodes⟩ := foldl_redirect_same (fields.map FieldDecl.name) plan.accesses
    (plan.constructors.foldl (spliceConstructor plan.position)
      (s.setDecl outerId (.struct (widened outer plan.position fields))))
  obtain ⟨-, -, hdecls', hnodes'⟩ := foldl_spliceConstructor_same plan.position plan.constructors
    (s.setDecl outerId (.struct (widened outer plan.position fields)))
  have hsound := structsSound_setDecl ho hstructs hfits houter htypes
  have hheld := fun f hf => hfits.held_of_mem_widened houter htypes (f := f) hf
  have hless := fieldsVolume_widened_lt hstructs hfits htypes
  rw [heq, Shader.structDecls_congr (hdecls.trans hdecls') (hnodes.trans hnodes'), hnew, hold]
  rw [hnew] at hsound
  rw [hold] at hstructs hheld hless
  exact hstructs.totalVolume_lt_of_replace hsound rfl hheld hless

end InlineField

namespace UnusedVariable

variable {s : Shader}

theorem stmtsWeight_apply_lt {stmt : StmtId} {block : Option StmtId} {name : String}
    (hh : holds s stmt block name = true) :
    (apply s stmt block name).stmtsWeight < s.stmtsWeight := by
  obtain ⟨hlive, ⟨decl, removed, hd, hr⟩, -⟩ := eq_vars_of_holds hh
  have hshrink : (shrink s stmt decl removed name).stmtsWeight < s.stmtsWeight := by
    rw [shrink, Shader.killExprs_eq]
    refine Shader.stmtsWeight_setStmt_lt hlive ?_
    rw [hd]
    change 1 + (decl.declarators.eraseP fun d => d.name == name).length < 1 + decl.declarators.length
    have hmem := List.mem_of_find?_eq_some hr
    rw [List.length_eraseP_of_mem hmem (by simpa using List.find?_some hr)]
    have := List.length_pos_of_mem hmem
    omega
  rw [apply_eq hd hr]
  split
  next =>
    cases block with
    | some block => exact (Shader.stmtsWeight_removeFromBlock_le _ block stmt).trans_lt hshrink
    | none =>
        refine (Shader.stmtsWeight_setStmt_le ?_).trans_lt hshrink
        exact StmtNode.weight_pos _
  next => exact hshrink

end UnusedVariable

namespace Unwrap

variable {s : Shader}

theorem stmtsWeight_apply_lt {block target : StmtId} {way : UnwrapWay}
    (hh : holds s block target way = true) :
    (apply s block target way).stmtsWeight < s.stmtsWeight := by
  obtain ⟨body, kept, dropped, i, hb, -, -, heq⟩ := exists_eq_lifted hh
  rw [holds, Bool.and_eq_true] at hh
  have hlive := (Shader.stmt_eq_block hh.1).2.1
  have htarget : target ∈ dropped.flatMap s.stmtSlots ++ [target] := by simp
  rw [heq, lifted]
  refine (Shader.stmtsWeight_setStmt_le ?_).trans_lt
    (Shader.stmtsWeight_forgetStmts_lt htarget (by rwa [Shader.liveStmts_forgetExprs]))
  rw [Shader.stmt_forgetStmts, Shader.stmt_forgetExprs, hb]
  rfl

end Unwrap

namespace Opportunity

variable {s : Shader} {types : Types} {slots : Nat} {unsigned : Bool}

/-- A change that holds takes weight away. -/
theorem weight_apply_lt (h : s.Grounded) (ho : s.Owned) (hstructs : StructsSound s.structDecls)
    (hs : s.Respects types slots) (htypes : ∀ id type, types.get? id = some type → type.Sized)
    {o : Opportunity} (hholds : o.holds s = true) (hwell : o.change.WellTyped types unsigned slots)
    (supply : NameSupply) : (o.apply s supply).1.weight < s.weight := by
  obtain ⟨howned, -⟩ := owned_apply h ho hstructs hholds supply
  have hgrounded := grounded_apply h hholds supply
  rw [howned.weight_eq hgrounded, ho.weight_eq h]
  have hsame : ∀ t : Shader, t.decls = s.decls ∧ t.declNodes = s.declNodes →
      t.decls.length = s.decls.length ∧
        StructDecl.totalVolume t.structDecls = StructDecl.totalVolume s.structDecls := by
    rintro t ⟨hdecls, hnodes⟩
    rw [Shader.structDecls_congr hdecls hnodes, hdecls]
    exact ⟨rfl, rfl⟩
  obtain ⟨depth, change⟩ := o
  cases change with
  | toSubExpr target child =>
      simp only [holds, SubExpr.holds, Bool.and_eq_true] at hholds
      have hexprs := SubExpr.exprsWeight_lt h ho (Shader.mem_liveExprs.mpr hholds.1.1)
        (List.contains_iff_mem.mp hholds.2)
      have hstmts : (s.replaceWithChild target child).stmtsWeight = s.stmtsWeight :=
        Shader.stmtsWeight_congr (by rw [Shader.replaceWithChild_eq]; rfl)
      obtain ⟨hdecls, hvolume⟩ := hsame _ (Shader.decls_replaceWithChild s target child)
      simp only [apply]
      omega
  | toConstant target constant =>
      simp only [holds, Constant.holds, Bool.and_eq_true, Bool.not_eq_true'] at hholds
      obtain ⟨hlt, type, htype, hof⟩ := hwell
      have hexprs := Constant.exprsWeight_lt h ho hs (Shader.mem_liveExprs.mpr hholds.1) hlt htype
        (htypes _ _ htype) hof hholds.2
      have hstmts := Shader.stmtsWeight_congr (Constant.stmts_apply s target constant)
      obtain ⟨hdecls, hvolume⟩ := hsame _ (Constant.decls_apply s target constant)
      simp only [apply]
      omega
  | removeDecl decl =>
      simp only [holds, Shader.isDeclLive, Bool.and_eq_true] at hholds
      have hexprs := (Shader.lightens_removeDecl s decl).exprsWeight_le
      have hstmts := Shader.stmtsWeight_removeDecl_le s decl
      have hdecls := Shader.length_decls_removeDecl (List.contains_iff_mem.mp hholds.2)
      have hvolume := hstructs.totalVolume_le_of_sublist (Shader.structDecls_removeDecl s decl)
      simp only [apply]
      omega
  | inlineField outer field =>
      have hexprs := (InlineField.lightens_apply h supply outer field).exprsWeight_le
      have hvolume := InlineField.totalVolume_apply_lt ho hstructs supply hholds
      obtain ⟨hdecls, hstmts, -⟩ := InlineField.same_apply s supply outer field
      have hstmts := Shader.stmtsWeight_congr hstmts
      simp only [apply]
      rw [hdecls]
      omega
  | removeStmt block stmt =>
      have hexprs := (Shader.lightens_removeFromBlock s block stmt).exprsWeight_le
      have hstmts := Shader.stmtsWeight_removeFromBlock_lt hholds
      obtain ⟨hdecls, hvolume⟩ := hsame _ (Shader.decls_removeFromBlock s block stmt)
      simp only [apply]
      omega
  | removeVariable stmt block name =>
      have hexprs := (UnusedVariable.lightens_apply hholds).exprsWeight_le
      have hstmts := UnusedVariable.stmtsWeight_apply_lt hholds
      obtain ⟨hdecls, hvolume⟩ := hsame _ (UnusedVariable.decls_apply s stmt block name)
      simp only [apply]
      omega
  | unwrap block target way =>
      have hexprs := (Unwrap.lightens_apply hholds).exprsWeight_le
      have hstmts := Unwrap.stmtsWeight_apply_lt hholds
      obtain ⟨hdecls, hvolume⟩ := hsame _ (Unwrap.decls_apply hholds)
      simp only [apply]
      omega

/-- A shader while the opportunities of a chunk are tried on it: all slots are owned, and the types
that were noted when the chunk was found are still those of its literals. -/
structure Reshaped (types : Types) (slots : Nat) (s : Shader) : Prop where
  grounded : s.Grounded
  owned : s.Owned
  structs : StructsSound s.structDecls
  respects : s.Respects types slots
  slots_le : slots ≤ s.exprs.size

theorem Reshaped.apply (h : Reshaped types slots s)
    (htypes : ∀ id type, types.get? id = some type → type.Sized) {o : Opportunity}
    (hholds : o.holds s = true) (hwell : o.change.WellTyped types unsigned slots)
    (supply : NameSupply) : Reshaped types slots (o.apply s supply).1 := by
  obtain ⟨howned, hstructs⟩ := owned_apply h.grounded h.owned h.structs hholds supply
  obtain ⟨hrespects, hslots⟩ :=
    respects_apply h.grounded h.respects h.slots_le htypes hholds hwell supply
  exact ⟨grounded_apply h.grounded hholds supply, howned, hstructs, hrespects, hslots⟩

/-- The opportunities of a chunk take weight away unless all of them are stale. -/
theorem Reshaped.tryAll (h : Reshaped types slots s)
    (htypes : ∀ id type, types.get? id = some type → type.Sized) {os : List Opportunity}
    (hwell : ∀ o ∈ os, o.change.WellTyped types unsigned slots) (supply : NameSupply) :
    Reshaped types slots (tryAll os s supply).2.1 ∧ (tryAll os s supply).2.1.weight ≤ s.weight ∧
      ((tryAll os s supply).1.any id = true → (tryAll os s supply).2.1.weight < s.weight) := by
  induction os generalizing s supply with
  | nil => exact ⟨h, Nat.le_refl _, fun hany => by cases hany⟩
  | cons o os ih =>
      have hos : ∀ o' ∈ os, o'.change.WellTyped types unsigned slots := fun o' ho' =>
        hwell o' (List.mem_cons_of_mem _ ho')
      by_cases hholds : o.holds s = true
      · have ho := hwell o List.mem_cons_self
        have hlt := weight_apply_lt h.grounded h.owned h.structs h.respects htypes hholds ho supply
        obtain ⟨hreshaped, hle, -⟩ := ih (h.apply htypes hholds ho supply) hos (o.apply s supply).2
        rw [Opportunity.tryAll, tryApply, if_pos hholds]
        exact ⟨hreshaped, hle.trans hlt.le, fun _ => hle.trans_lt hlt⟩
      · obtain ⟨hreshaped, hle, hany⟩ := ih h hos supply
        rw [Opportunity.tryAll, tryApply, if_neg hholds]
        exact ⟨hreshaped, hle, hany⟩

/-- A candidate weighs less than the shader that its chunk was found on, and its structures are sound
as well. -/
theorem weight_tryAll_lt (h : s.Grounded) (ho : s.Owned) (hstructs : StructsSound s.structDecls)
    {everywhere : Bool} {kinds : List OpportunityKind} {os : List Opportunity}
    (hos : ∀ o ∈ os, o ∈ find s everywhere kinds) (supply : NameSupply)
    (hany : (tryAll os s supply).1.any id = true) :
    StructsSound (tryAll os s supply).2.1.structDecls ∧
      (tryAll os s supply).2.1.weight < s.weight := by
  have hreshaped : Reshaped (Types.ofShader s) s.exprs.size s :=
    ⟨h, ho, hstructs, ho.respects h, Nat.le_refl _⟩
  obtain ⟨hafter, -, hlt⟩ := hreshaped.tryAll (fun _ _ => Types.sized)
    (fun o hmem => wellTyped_of_mem_find h ho (hos o hmem)) supply
  exact ⟨hafter.structs, hlt hany⟩

end Opportunity

end ShaderReducer
