import ShaderReducer.Proofs.Opportunity.InlineTypes

/-!
# Constructors and fields when a field is inlined

A constructor of a structure is called with one argument for each field, of the type of the field. When
a field is inlined, the inner fields take its place in the structure, and the arguments of the inner
constructor take its place in each constructor call, however deep in parentheses it was and whatever
other constructors are in its arguments. So the two still go together.

Types of arguments are those that are noted. They do not change: all that is left of an expression is
noted in the scope that it was noted in, also where a declaration is the whole body of a branch.
-/

namespace ShaderReducer

namespace Shader

variable {s : Shader}

/-! ## Constructors and fields that go together -/

/-- The types of the fields of a structure. -/
def fieldTypes (s : Shader) (decl : StructDecl) : List (Option Ty) :=
  decl.fields.map fun f => (Signatures.ofShader s).resolve f.type f.arraySize

/-- Whether a call of the constructor of a structure has one argument for each field, of its type, as
far as types are noted. -/
def aligns (s : Shader) (types : Types) : ExprNode ExprId → Bool
  | .call callee args =>
    s.structDecls.all fun decl => decl.name != callee || args.map types.get? == s.fieldTypes decl
  | _ => true

/-- Whether all arguments of a call of the constructor of a structure have types that are known. -/
def knowsArguments (s : Shader) (types : Types) : ExprNode ExprId → Bool
  | .call callee args =>
    s.structDecls.all fun decl => decl.name != callee || args.all fun arg => (types.get? arg).isSome
  | _ => true

/-- A shader whose structures are sound and have fields of distinct names, whose accesses of structures
name fields of them, and whose constructor calls have arguments for the fields. -/
structure Coherent (s : Shader) : Prop where
  structs : StructsSound s.structDecls
  fields : ∀ decl ∈ s.structDecls, (decl.fields.map FieldDecl.name).Nodup
  named : s.NamesFields
  aligned : ∀ id, s.Reaches (.expr id) → s.aligns (Types.ofShader s) (s.expr id) = true

/-- All arguments of constructors have types that are known. -/
def KnowsArguments (s : Shader) : Prop :=
  ∀ id, s.Reaches (.expr id) → s.knowsArguments (Types.ofShader s) (s.expr id) = true

theorem aligns_call {types : Types} {callee : String} {args : List ExprId} :
    s.aligns types (.call callee args) = true ↔
      ∀ decl ∈ s.structDecls, decl.name = callee → args.map types.get? = s.fieldTypes decl := by
  simp [aligns, Decidable.imp_iff_not_or]

theorem knowsArguments_call {types : Types} {callee : String} {args : List ExprId} :
    s.knowsArguments types (.call callee args) = true ↔
      ∀ decl ∈ s.structDecls, decl.name = callee → ∀ arg ∈ args, (types.get? arg).isSome = true := by
  simp [knowsArguments, Decidable.imp_iff_not_or]

theorem forall_expr_of_lt {holds : ExprNode ExprId → Bool}
    (h : ∀ i < s.exprs.size, holds (s.expr ⟨i⟩) = true) (hname : ∀ name, holds (.ident name) = true)
    (id : ExprId) : holds (s.expr id) = true := by
  by_cases hlt : id.index < s.exprs.size
  · exact h id.index hlt
  · rw [expr_of_size_le (Nat.le_of_not_lt hlt)]
    exact hname _

end Shader

namespace InlineField

variable {s u : Shader} {outerId : DeclId} {field : String} {plan : Plan} {outer inner : StructDecl}
  {wrapper : FieldDecl} {fields : List FieldDecl}

/-! ## Types of what is left -/

/-- A field is inlined in a shader, in which structures are sound and accesses name fields. -/
structure Inlines (s : Shader) (outerId : DeclId) (field : String) (plan : Plan)
    (outer inner : StructDecl) (wrapper : FieldDecl) (fields : List FieldDecl) : Prop where
  fits : Fits s outerId field plan outer inner wrapper
  renames : Renames (keptNames outer plan.position) inner.fields fields
  mem : outerId ∈ s.decls
  grounded : s.Grounded
  owned : s.Owned
  structs : StructsSound s.structDecls
  named : s.NamesFields
  grounded' : (inlined s outerId outer plan fields).Grounded
  owned' : (inlined s outerId outer plan fields).Owned
  structs' : StructsSound (inlined s outerId outer plan fields).structDecls

/-- What is noted of what is left of an expression was noted of it. -/
theorem Inlines.exprEntries_subset (hi : Inlines s outerId field plan outer inner wrapper fields)
    {scope : TypeScope} {id : ExprId}
    (hid : (inlined s outerId outer plan fields).Reaches (.expr id))
    (hnoted : (Signatures.ofShader s).exprEntries scope (s.exprTree id) ⊆
      (Signatures.ofShader s).declsEntries [] s.declTrees) :
    (inlined s outerId outer plan fields).typeAt scope id = s.typeAt scope id ∧
      (Signatures.ofShader (inlined s outerId outer plan fields)).exprEntries scope
          ((inlined s outerId outer plan fields).exprTree id) ⊆
        (Signatures.ofShader s).declsEntries [] s.declTrees := by
  have honce := hi.owned.reachesOnce hi.grounded
  have hrecast := hi.fits.recast_inlined hi.grounded hi.owned hi.mem hi.grounded'
  induction id using hi.grounded'.expr_induction with
  | step id ih =>
      have hparts : ∀ c ∈ ((inlined s outerId outer plan fields).expr id).children,
          (inlined s outerId outer plan fields).typeAt scope c = s.typeAt scope c ∧
            (Signatures.ofShader (inlined s outerId outer plan fields)).exprEntries scope
                ((inlined s outerId outer plan fields).exprTree c) ⊆
              (Signatures.ofShader s).declsEntries [] s.declTrees := by
        intro c hc
        have hlt : c.index < s.exprs.size := by
          obtain ⟨rank, hr⟩ := hi.grounded'.exprs
          rw [← (decls_inlined s outerId outer plan fields).1]
          exact (hr.falls id c hc).1
        refine ih c hc (.expr hid hc) (List.Subset.trans ?_ hnoted)
        exact Shader.exprEntries_subset_of_below hi.grounded ((hrecast.below id c hc).2 hlt)
      have htype : (inlined s outerId outer plan fields).typeAt scope id = s.typeAt scope id := by
        rw [hi.grounded'.typeAt_eq]
        refine hi.fits.formType_inlined hi.grounded hi.owned hi.structs hi.named hi.mem hi.renames
          hi.grounded' hi.owned' hi.structs'
          (hi.fits.reaches_of_inlined hi.grounded hi.owned hi.mem hi.grounded' hi.owned' hid) hid
          (fun c hc => ?_) fun c hc _ => (hparts c hc).1
        refine Types.get?_of_mem honce (hnoted ?_)
        exact Shader.exprEntries_subset_of_below hi.grounded hc (s.mem_exprEntries_self scope c)
      refine ⟨htype, ?_⟩
      intro entry hentry
      rw [Signatures.exprEntries, hi.grounded'.exprTree_eq, Expr.subexprs_node, List.map_cons,
        List.mem_cons] at hentry
      rcases hentry with rfl | hentry
      · refine hnoted ?_
        have hself := s.mem_exprEntries_self scope id
        rw [← htype, Shader.typeAt, hi.grounded'.exprTree_eq] at hself
        exact hself
      · obtain ⟨sub, hsub, rfl⟩ := List.mem_map.mp hentry
        obtain ⟨e, he, hsub⟩ := List.mem_flatMap.mp hsub
        rw [ExprNode.children_map] at he
        obtain ⟨c, hc, rfl⟩ := List.mem_map.mp he
        exact (hparts c hc).2 (List.mem_map_of_mem hsub)

/-- Inlining a field leaves all types that are noted as they are. -/
theorem Inlines.get?_eq (hi : Inlines s outerId field plan outer inner wrapper fields) {id : ExprId}
    (hid : (inlined s outerId outer plan fields).Reaches (.expr id)) :
    (Types.ofShader (inlined s outerId outer plan fields)).get? id = (Types.ofShader s).get? id := by
  obtain ⟨-, hstmt, hdecls, -⟩ := decls_inlined s outerId outer plan fields
  obtain ⟨type, hentry⟩ := Shader.exists_entry hi.grounded' hi.owned' hid
  obtain ⟨rows, hreached, hold, hnew⟩ := Shader.sameRows_decls hi.grounded hi.grounded' hstmt
    (fun name size => (hi.fits.sameType_inlined hi.owned hi.mem fields name size).symm)
    (hi.fits.decl_inlined fields) (fun d (hd : d ∈ s.decls) => hdecls ▸ hd) []
  have hsubset : (Signatures.ofShader (inlined s outerId outer plan fields)).declsEntries []
      (inlined s outerId outer plan fields).declTrees ⊆
        (Signatures.ofShader s).declsEntries [] s.declTrees := by
    rw [Shader.declTrees, hdecls, hnew]
    intro entry hentry
    obtain ⟨row, hrow, hentry⟩ := List.mem_flatMap.mp hentry
    refine (hi.exprEntries_subset (hreached row hrow) ?_).2 hentry
    rw [Shader.declTrees, hold]
    exact fun entry hentry => List.mem_flatMap.mpr ⟨row, hrow, hentry⟩
  rw [Types.get?_of_mem (hi.owned'.reachesOnce hi.grounded') hentry,
    Types.get?_of_mem (hi.owned.reachesOnce hi.grounded) (hsubset hentry)]

/-! ## Constructors -/

/-- Each constructor is spliced once, with the arguments that it and the inner one had: the calls that
are spliced before it are others, and no inner constructor is an outer one. -/
theorem expr_splices_of_mem {outer inner : String} {position : Nat} (hne : inner ≠ outer)
    {calls : List ExprId} (hnodup : calls.Nodup) (h : u.Grounded)
    (hcalls : ∀ c ∈ calls, Splices u outer inner position c) {call wrapped : ExprId}
    (hmem : call ∈ calls) (hlt : call.index < u.exprs.size) {args innerArgs : List ExprId}
    (hcall : u.expr call = .call outer args) (hwrapped : args[position]? = some wrapped)
    (hinner : u.expr (stripped u wrapped) = .call inner innerArgs) :
    (calls.foldl (spliceConstructor position) u).expr call =
      .call outer (args.take position ++ innerArgs ++ args.drop (position + 1)) := by
  induction calls generalizing u with
  | nil => cases hmem
  | cons first calls ih =>
      obtain ⟨hnot, hnodup⟩ := List.nodup_cons.mp hnodup
      have hfirst := hcalls first List.mem_cons_self
      rw [List.foldl_cons]
      by_cases heq : call = first
      · subst heq
        obtain hsame | ⟨hmem, -⟩ := expr_splices position calls (spliceConstructor position u call) call
        · obtain ⟨args', wrapped', innerArgs', hcall', hwrapped', hinner', hspliced⟩ :=
            hfirst.spliceConstructor_eq
          rw [hcall] at hcall'
          cases hcall'
          rw [hwrapped] at hwrapped'
          cases hwrapped'
          rw [hinner] at hinner'
          cases hinner'
          rw [hsame, hspliced, Shader.expr_setExpr, Shader.size_exprs_forgetExprs, if_pos ⟨rfl, hlt⟩]
        · exact absurd hmem hnot
      · have hrest : ∀ c ∈ calls, Splices (spliceConstructor position u first) outer inner position c :=
          fun c hc => hfirst.of_spliceConstructor h hne (hcalls c (List.mem_cons_of_mem _ hc))
            fun hcalls => hnot (hcalls ▸ hc)
        have hstripped := (chain_congr h (grounded_spliceConstructor h position first)
          (paren_spliceConstructor hfirst) wrapped).2
        refine ih hnodup (grounded_spliceConstructor h position first) hrest
          ((List.mem_cons.mp hmem).resolve_left heq)
          (by rwa [(spliceConstructor_same position u first).1]) ?_ ?_
        · rw [expr_spliceConstructor_of_ne heq, hcall]
        · rw [hstripped, expr_spliceConstructor_of_ne, hinner]
          rintro rfl
          obtain ⟨args', hcall'⟩ := hfirst.expr_eq
          rw [hinner] at hcall'
          cases hcall'
          exact hne rfl

theorem reaches_stripped (h : s.Grounded) {id : ExprId} (hid : s.Reaches (.expr id)) :
    s.Reaches (.expr (stripped s id)) := by
  induction id using h.expr_induction with
  | step id ih =>
      by_cases hparen : ∃ inside, s.expr id = .paren inside
      · obtain ⟨inside, hparen⟩ := hparen
        have hmem : inside ∈ (s.expr id).children := by simp [hparen, ExprNode.children]
        rw [(chain_paren h hparen).2]
        exact ih inside hmem (.expr hid hmem)
      · rwa [(chain_of_ne h fun inside hc => hparen ⟨inside, hc⟩).2]

/-- A constructor of the outer structure is called with the arguments of the inner constructor in the
place of that one. -/
theorem Inlines.expr_constructor (hi : Inlines s outerId field plan outer inner wrapper fields)
    {call : ExprId} {args : List ExprId} (hcall : s.Reaches (.expr call))
    (hargs : s.expr call = .call outer.name args) :
    ∃ wrapped innerArgs, args[plan.position]? = some wrapped ∧
      s.expr (stripped s wrapped) = .call inner.name innerArgs ∧
      (inlined s outerId outer plan fields).expr call = .call outer.name
        (args.take plan.position ++ innerArgs ++ args.drop (plan.position + 1)) := by
  have hlt := Shader.lt_size_of_mem_liveExprs (hi.owned.mem_liveExprs_of_reaches hi.grounded hcall)
  have hmem : call ∈ plan.constructors := by
    rw [hi.fits.constructors_eq]
    refine List.mem_filterMap.mpr ⟨_, hi.owned.exprTree_mem_exprVisits hi.grounded hcall, ?_⟩
    rw [hi.grounded.exprTree_eq, hargs, ExprNode.map, constructor?]
    exact if_pos rfl
  obtain ⟨-, args', wrapped, innerArgs, hargs', hwrapped, hinner⟩ :=
    hi.fits.splices hi.grounded hi.owned hmem
  rw [hargs] at hargs'
  cases hargs'
  refine ⟨wrapped, innerArgs, hwrapped, hinner, ?_⟩
  set w := s.setDecl outerId (.struct (widened outer plan.position fields)) with hw
  have hstripped : stripped w wrapped = stripped s wrapped := by
    rw [stripped, hw, exprTree_setDecl, stripped]
  have hspliced := expr_splices_of_mem (u := w) (hi.fits.inner_name_ne hi.structs hi.mem)
    (hi.fits.nodup_constructors hi.grounded hi.owned)
    (grounded_setDecl hi.grounded outerId (widened outer plan.position fields))
    (fun c hc => splices_setDecl s outerId _ (hi.fits.splices hi.grounded hi.owned hc).2) hmem
    hlt hargs hwrapped (by rw [hstripped]; exact hinner)
  obtain hsame | ⟨a, ha, rfl, -⟩ := expr_redirects (fields.map FieldDecl.name) plan.accesses
    (plan.constructors.foldl (spliceConstructor plan.position) w) call
  · exact hsame.trans hspliced
  · obtain ⟨name, hmember⟩ := (hi.fits.through hi.grounded ha).member_eq
    rw [hargs] at hmember
    cases hmember

/-! ## Fields -/

/-- The types of the inner fields take the place of that of the field. -/
theorem Inlines.fieldTypes_widened (hi : Inlines s outerId field plan outer inner wrapper fields) :
    (inlined s outerId outer plan fields).fieldTypes (widened outer plan.position fields) =
      (s.fieldTypes outer).take plan.position ++ s.fieldTypes inner ++
        (s.fieldTypes outer).drop (plan.position + 1) := by
  have hresolve : ∀ f : FieldDecl,
      (Signatures.ofShader (inlined s outerId outer plan fields)).resolve f.type f.arraySize =
        (Signatures.ofShader s).resolve f.type f.arraySize := fun f =>
    hi.fits.sameType_inlined hi.owned hi.mem fields f.type.name f.arraySize
  have hinner : fields.map (fun f => (Signatures.ofShader s).resolve f.type f.arraySize) =
      s.fieldTypes inner := by
    have hmap := congrArg (List.map fun row : TypeSpec × Option Nat =>
      (Signatures.ofShader s).resolve row.1 row.2) hi.renames.map_eq
    rwa [List.map_map, List.map_map] at hmap
  simp only [Shader.fieldTypes, widened, hresolve, List.map_append, List.map_take, List.map_drop]
  rw [hinner, Shader.fieldTypes]

theorem Inlines.fieldTypes_eq (hi : Inlines s outerId field plan outer inner wrapper fields)
    (decl : StructDecl) :
    (inlined s outerId outer plan fields).fieldTypes decl = s.fieldTypes decl :=
  List.map_congr_left fun f _ =>
    hi.fits.sameType_inlined hi.owned hi.mem fields f.type.name f.arraySize

/-- A structure is the widened one, or one that was there. -/
theorem Inlines.mem_structDecls (hi : Inlines s outerId field plan outer inner wrapper fields)
    {decl : StructDecl} (hdecl : decl ∈ (inlined s outerId outer plan fields).structDecls) :
    decl = widened outer plan.position fields ∨ decl ∈ s.structDecls ∧ decl.name ≠ outer.name := by
  have hwide := hi.fits.widened_mem hi.owned hi.mem fields
  obtain ⟨front, back, hold, hnew⟩ := hi.fits.exists_structDecls_inlined hi.owned hi.mem fields
  by_cases hname : decl.name = outer.name
  · exact Or.inl (hi.structs'.eq_of_name_eq hdecl hwide hname)
  · refine Or.inr ⟨?_, hname⟩
    rw [hnew] at hdecl
    rw [hold]
    rcases List.mem_append.mp hdecl with hdecl | hdecl
    · exact List.mem_append_left _ hdecl
    · refine List.mem_append_right _ (List.mem_cons_of_mem _ ((List.mem_cons.mp hdecl).resolve_left ?_))
      rintro rfl
      exact hname rfl

/-- The fields of the widened structure have distinct names. -/
theorem nodup_widened {position : Nat} (hnodup : (outer.fields.map FieldDecl.name).Nodup)
    (hrenames : Renames (keptNames outer position) inner.fields fields) :
    ((widened outer position fields).fields.map FieldDecl.name).Nodup := by
  have hperm : (widened outer position fields).fields.Perm
      (outer.fields.take position ++ outer.fields.drop (position + 1) ++ fields) := by
    rw [widened, List.append_assoc, List.append_assoc]
    exact List.perm_append_comm.append_left _
  have hkept : (keptNames outer position).Nodup := by
    refine hnodup.sublist (List.Sublist.map _ ?_)
    conv_rhs => rw [← List.take_append_drop position outer.fields]
    exact (List.Sublist.refl _).append (List.drop_sublist_drop_left _ (Nat.le_succ position))
  rw [(hperm.map FieldDecl.name).nodup_iff, List.map_append, List.nodup_append]
  refine ⟨hkept, hrenames.nodup, fun name hname name' hname' heq => ?_⟩
  obtain ⟨f, hf, rfl⟩ := List.mem_map.mp hname'
  exact hrenames.free f hf (heq ▸ hname)

/-! ## Arguments -/

/-- Every constructor call is that of before, or one of the widened structure. -/
theorem Inlines.call_cases (hi : Inlines s outerId field plan outer inner wrapper fields)
    {id : ExprId} (hid : (inlined s outerId outer plan fields).Reaches (.expr id)) {callee : String}
    {args : List ExprId}
    (hcall : (inlined s outerId outer plan fields).expr id = .call callee args) :
    (callee ≠ outer.name ∧ s.expr id = .call callee args) ∨
      callee = outer.name ∧ ∃ before wrapped innerArgs, s.expr id = .call outer.name before ∧
        before[plan.position]? = some wrapped ∧
        s.expr (stripped s wrapped) = .call inner.name innerArgs ∧
        args = before.take plan.position ++ innerArgs ++ before.drop (plan.position + 1) := by
  have hreached := hi.fits.reaches_of_inlined hi.grounded hi.owned hi.mem hi.grounded' hi.owned' hid
  have hbefore : ∃ before, s.expr id = .call callee before ∧
      (callee ≠ outer.name → before = args) := by
    obtain heq | ⟨args', args'', hold, hnew⟩ | ⟨a, -, -, hnew⟩ :=
      hi.fits.expr_inlined hi.grounded fields id
    · exact ⟨args, heq ▸ hcall, fun _ => rfl⟩
    · rw [hcall] at hnew
      cases hnew
      exact ⟨args', hold, fun hne => absurd rfl hne⟩
    · rw [hcall] at hnew
      cases hnew
  obtain ⟨before, hold, hsame⟩ := hbefore
  by_cases hcallee : callee = outer.name
  · subst hcallee
    obtain ⟨wrapped, innerArgs, hwrapped, hinner, hnew⟩ := hi.expr_constructor hreached hold
    rw [hcall] at hnew
    cases hnew
    exact Or.inr ⟨rfl, before, wrapped, innerArgs, hold, hwrapped, hinner, rfl⟩
  · obtain rfl := hsame hcallee
    exact Or.inl ⟨hcallee, hold⟩

/-- The arguments of a call have the types that they had. -/
theorem Inlines.map_get?_eq (hi : Inlines s outerId field plan outer inner wrapper fields)
    {id : ExprId} (hid : (inlined s outerId outer plan fields).Reaches (.expr id)) {callee : String}
    {args : List ExprId}
    (hcall : (inlined s outerId outer plan fields).expr id = .call callee args) :
    args.map (Types.ofShader (inlined s outerId outer plan fields)).get? =
      args.map (Types.ofShader s).get? := by
  refine List.map_congr_left fun c hc => hi.get?_eq (.expr hid ?_)
  rw [Shader.exprsIn, hcall]
  exact hc

/-- The inner constructor in a constructor call is reached. -/
theorem Inlines.reaches_inner (hi : Inlines s outerId field plan outer inner wrapper fields)
    {id wrapped : ExprId} {callee : String} {args : List ExprId} {position : Nat}
    (hid : s.Reaches (.expr id)) (hcall : s.expr id = .call callee args)
    (hwrapped : args[position]? = some wrapped) : s.Reaches (.expr (stripped s wrapped)) := by
  refine reaches_stripped hi.grounded (.expr hid ?_)
  rw [Shader.exprsIn, hcall]
  exact List.mem_of_getElem? hwrapped

/-- Constructor calls and structures still go together when a field is inlined. -/
theorem Inlines.coherent (hi : Inlines s outerId field plan outer inner wrapper fields)
    (hs : s.Coherent) : (inlined s outerId outer plan fields).Coherent where
  structs := hi.structs'
  fields decl hdecl := by
    obtain rfl | ⟨hdecl, -⟩ := hi.mem_structDecls hdecl
    · exact nodup_widened (hs.fields outer (hi.fits.outer_mem hi.mem)) hi.renames
    · exact hs.fields decl hdecl
  named := hi.fits.namesFields_inlined hi.grounded hi.owned hi.structs hi.named hi.mem hi.renames
    hi.grounded' hi.owned' hi.structs' fun _ => hi.get?_eq
  aligned id hid := by
    have hreached := hi.fits.reaches_of_inlined hi.grounded hi.owned hi.mem hi.grounded' hi.owned' hid
    cases hcall : (inlined s outerId outer plan fields).expr id with
    | call callee args =>
        rw [Shader.aligns_call, hi.map_get?_eq hid hcall]
        intro decl hdecl hname
        obtain ⟨hcallee, hold⟩ | ⟨rfl, before, wrapped, innerArgs, hold, hwrapped, hinner, rfl⟩ :=
          hi.call_cases hid hcall
        · obtain rfl | ⟨hdecl, -⟩ := hi.mem_structDecls hdecl
          · exact absurd hname.symm hcallee
          · rw [hi.fieldTypes_eq]
            exact Shader.aligns_call.mp (hold ▸ hs.aligned id hreached) decl hdecl hname
        · obtain rfl | ⟨-, hne⟩ := hi.mem_structDecls hdecl
          · have houter := Shader.aligns_call.mp (hold ▸ hs.aligned id hreached) outer
              (hi.fits.outer_mem hi.mem) rfl
            have hinside := Shader.aligns_call.mp
              (hinner ▸ hs.aligned _ (hi.reaches_inner hreached hold hwrapped)) inner
              hi.fits.inner_mem rfl
            rw [hi.fieldTypes_widened, ← houter, ← hinside, List.map_append, List.map_append,
              List.map_take, List.map_drop]
          · exact absurd hname hne
    | _ => rfl

/-- Types of arguments that were known still are when a field is inlined. -/
theorem Inlines.knowsArguments (hi : Inlines s outerId field plan outer inner wrapper fields)
    (hs : s.KnowsArguments) : (inlined s outerId outer plan fields).KnowsArguments := by
  intro id hid
  have hreached := hi.fits.reaches_of_inlined hi.grounded hi.owned hi.mem hi.grounded' hi.owned' hid
  cases hcall : (inlined s outerId outer plan fields).expr id with
  | call callee args =>
      rw [Shader.knowsArguments_call]
      intro decl hdecl hname arg harg
      rw [hi.get?_eq (.expr hid (by rw [Shader.exprsIn, hcall]; exact harg))]
      obtain ⟨hcallee, hold⟩ | ⟨rfl, before, wrapped, innerArgs, hold, hwrapped, hinner, rfl⟩ :=
        hi.call_cases hid hcall
      · obtain rfl | ⟨hdecl, -⟩ := hi.mem_structDecls hdecl
        · exact absurd hname.symm hcallee
        · exact Shader.knowsArguments_call.mp (hold ▸ hs id hreached) decl hdecl hname arg harg
      · have houter := Shader.knowsArguments_call.mp (hold ▸ hs id hreached) outer
          (hi.fits.outer_mem hi.mem) rfl
        have hinside := Shader.knowsArguments_call.mp
          (hinner ▸ hs _ (hi.reaches_inner hreached hold hwrapped)) inner hi.fits.inner_mem rfl
        rcases List.mem_append.mp harg with harg | harg
        · rcases List.mem_append.mp harg with harg | harg
          · exact houter arg (List.mem_of_mem_take harg)
          · exact hinside arg harg
        · exact houter arg (List.mem_of_mem_drop harg)
  | _ => rfl

/-! ## One inlining -/

/-- Where a field can be inlined, it is. -/
theorem exists_inlines (h : s.Grounded) (ho : s.Owned) (hs : s.Coherent)
    (hholds : holds s outerId field = true) (supply : NameSupply) :
    ∃ plan outer inner wrapper fields,
      Inlines s outerId field plan outer inner wrapper fields ∧
        (apply s supply outerId field).1 = inlined s outerId outer plan fields := by
  have ht := grounded_apply h supply outerId field
  obtain ⟨hto, hstructs⟩ := owned_apply h ho hs.structs supply hholds
  obtain ⟨plan, hplan⟩ := exists_plan_of_holds hholds
  obtain ⟨outer, inner, wrapper, hfits⟩ := exists_fits hplan
  have heq := hfits.apply_eq hplan supply
  rw [heq] at ht hto hstructs
  exact ⟨plan, outer, inner, wrapper, _, ⟨hfits, renames_renamed field _ supply _,
    mem_decls_of_holds hholds, h, ho, hs.structs, hs.named, ht, hto, hstructs⟩, heq⟩

/-- A field is inlined in a program whose structures do not hold themselves and have fields of distinct
names, whose accesses of structures name fields, and whose constructor calls have an argument for each
field, of its type. All of this is still so, and no type of an argument is lost. The inner fields stand
in the place of the field in the order that they have, under names of their own, and the arguments of
each inner constructor stand in the place of that one. -/
theorem coherent_apply {p : Program} {outerId : DeclId} {field : String}
    (hs : (Shader.ofProgram p).Coherent) (hholds : holds (Shader.ofProgram p) outerId field = true)
    (supply : NameSupply) :
    let s := Shader.ofProgram p
    let t := (apply s supply outerId field).1
    t.Coherent ∧ (s.KnowsArguments → t.KnowsArguments) ∧
      ∃ front outer back position wrapper inner fields,
        s.decl outerId = .struct outer ∧ outer.fieldIndex? field = some position ∧
        outer.fields[position]? = some wrapper ∧ inner ∈ s.structDecls ∧
        inner.name = wrapper.type.name ∧
        fields.map (fun f => (f.type, f.arraySize)) =
          inner.fields.map (fun f => (f.type, f.arraySize)) ∧
        s.structDecls = front ++ outer :: back ∧
        t.structDecls = front ++ ⟨outer.name, outer.fields.take position ++ fields ++
          outer.fields.drop (position + 1)⟩ :: back ∧
        ∀ id args, t.Reaches (.expr id) → t.expr id = .call outer.name args →
          ∃ before wrapped innerArgs, s.expr id = .call outer.name before ∧
            before[position]? = some wrapped ∧
            s.expr (stripped s wrapped) = .call inner.name innerArgs ∧
            args = before.take position ++ innerArgs ++ before.drop (position + 1) := by
  have hlaid := Shader.laidOut_ofProgram p
  have h := hlaid.layered.grounded
  have ho := hlaid.owned
  set s := Shader.ofProgram p
  obtain ⟨plan, outer, inner, wrapper, fields, hi, heq⟩ := exists_inlines h ho hs hholds supply
  obtain ⟨front, back, hold, hnew⟩ := hi.fits.exists_structDecls_inlined ho hi.mem fields
  dsimp only
  rw [heq]
  refine ⟨hi.coherent hs, hi.knowsArguments, front, outer, back, plan.position, wrapper, inner, fields,
    Decl.struct?_eq_some.mp hi.fits.outer_eq, hi.fits.position_eq, hi.fits.wrapper_eq,
    hi.fits.inner_mem, hi.fits.inner_name, hi.renames.map_eq, hold, hnew, fun id args hid hcall => ?_⟩
  obtain ⟨hcallee, -⟩ | ⟨-, before, wrapped, innerArgs, hbefore⟩ := hi.call_cases hid hcall
  · exact absurd rfl hcallee
  · exact ⟨before, wrapped, innerArgs, hbefore⟩

/-- A constructor call with another one in the arguments of the inner constructor, which is in
parentheses. -/
def nestedCalls : Program :=
  let number (text : String) : Expr Unit := .node () (.literal (.int text))
  let inner (arg : Expr Unit) : Expr Unit := .node () (.call "_GLF_struct_1" [arg])
  let outer (args : List (Expr Unit)) : Expr Unit := .node () (.call "_GLF_struct_2" args)
  let below : Expr Unit := .node () (.member (outer [inner (number "1"), number "2"]) "b")
  let value := outer [.node () (.paren (inner below)), number "3"]
  ⟨none, [.struct ⟨"_GLF_struct_1", [⟨.ofName "int", "b", none⟩]⟩,
    .struct ⟨"_GLF_struct_2", [⟨.ofName "_GLF_struct_1", "_f1", none⟩, ⟨.ofName "int", "b", none⟩]⟩,
    .function ⟨.ofName "void", "f", [], some (.node () (.block [.node () (.expr value)]))⟩]⟩

/-- Both calls get the arguments of the inner constructors in them, and the new field a number. -/
theorem coherent_nestedCalls : (Shader.ofProgram nestedCalls).Coherent ∧
    holds (Shader.ofProgram nestedCalls) ⟨1⟩ "_f1" = true ∧
    (Shader.ofProgram nestedCalls).KnowsArguments ∧
    let t := (apply (Shader.ofProgram nestedCalls) {} ⟨1⟩ "_f1").1
    t.Coherent ∧ t.KnowsArguments ∧
      (t.decl ⟨1⟩).struct? = some ⟨"_GLF_struct_2",
        [⟨.ofName "int", "b_0", none⟩, ⟨.ofName "int", "b", none⟩]⟩ ∧
      t.expr ⟨8⟩ = .call "_GLF_struct_2" [⟨4⟩, ⟨7⟩] ∧ t.expr ⟨3⟩ = .call "_GLF_struct_2" [⟨0⟩, ⟨2⟩] := by
  have hs : (Shader.ofProgram nestedCalls).Coherent :=
    ⟨.of_rank (fun name => if name = "_GLF_struct_2" then 2 else if name = "_GLF_struct_1" then 1 else 0)
      (by decide +kernel) (by decide +kernel), by decide +kernel,
      Shader.namesFields_of_lt (by decide +kernel),
      fun id _ => Shader.forall_expr_of_lt (by decide +kernel) (fun _ => rfl) id⟩
  have hknown : (Shader.ofProgram nestedCalls).KnowsArguments :=
    fun id _ => Shader.forall_expr_of_lt (by decide +kernel) (fun _ => rfl) id
  have hholds : holds (Shader.ofProgram nestedCalls) ⟨1⟩ "_f1" = true := by decide +kernel
  obtain ⟨hcoherent, hknows, -⟩ := coherent_apply hs hholds {}
  exact ⟨hs, hholds, hknown, hcoherent, hknows hknown, by decide +kernel, by decide +kernel,
    by decide +kernel⟩

end InlineField

end ShaderReducer
