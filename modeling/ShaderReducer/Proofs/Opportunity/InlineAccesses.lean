import ShaderReducer.Proofs.Opportunity.InlineTypes

/-!
# Accesses through an inlined field

No access is left that takes the field of a value of the outer structure, and each one that went on to
an inner field takes the field that was made from that one, of the same value. The types are those of
before: the outer structure keeps its name, but the field is gone.

Accesses are changed one after the other, each in its own slot. This is enough where the field holds
another structure. Where it holds the outer structure itself, a slot may be the wrapper of one access
and the member of another.
-/

namespace ShaderReducer

/-- The field that a name stands for, which is the first one of that name. -/
def StructDecl.field? (decl : StructDecl) (name : String) : Option FieldDecl :=
  decl.fields.find? fun f => f.name == name

theorem StructDecl.field?_eq (decl : StructDecl) (name : String) :
    decl.field? name = (decl.fieldIndex? name).bind fun i => decl.fields[i]? :=
  List.find?_eq_bind_findIdx?_getElem?

namespace InlineField

variable {s u : Shader} {outerId : DeclId} {field : String} {plan : Plan} {outer inner : StructDecl}
  {wrapper : FieldDecl} {fields : List FieldDecl}

/-! ## Slots of accesses -/

/-- Each access is changed once. -/
theorem expr_redirects_of_mem (names : List String) {accesses : List Access}
    (hnodup : (accesses.map Access.member).Nodup) {a : Access} (ha : a ∈ accesses)
    (hlt : a.member.index < u.exprs.size) :
    (accesses.foldl (redirect names) u).expr a.member =
      .member a.base (names[a.position]?.getD "") := by
  induction accesses generalizing u with
  | nil => cases ha
  | cons access accesses ih =>
      obtain ⟨hnot, hnodup⟩ := List.nodup_cons.mp hnodup
      rw [List.foldl_cons]
      rcases List.mem_cons.mp ha with rfl | ha
      · obtain hsame | ⟨b, hb, heq, -⟩ := expr_redirects names accesses (redirect names u a) a.member
        · rw [hsame, redirect_eq, Shader.expr_setExpr, Shader.size_exprs_forgetExprs, if_pos ⟨rfl, hlt⟩]
        · exact absurd (heq ▸ List.mem_map_of_mem hb) hnot
      · exact ih hnodup ha (by rwa [(redirect_same names u access).1])

/-- The member of a wrapper becomes a member of the value that the wrapper was a member of. -/
theorem Fits.expr_member_inlined (hfits : Fits s outerId field plan outer inner wrapper)
    (h : s.Grounded) (ho : s.Owned) (fields : List FieldDecl) {a : Access} (ha : a ∈ plan.accesses) :
    (inlined s outerId outer plan fields).expr a.member =
      .member a.base ((fields.map FieldDecl.name)[a.position]?.getD "") := by
  refine expr_redirects_of_mem _ (hfits.nodup_members h ho) ha ?_
  rw [(foldl_spliceConstructor_same plan.position plan.constructors _).1]
  exact Shader.lt_size_of_mem_liveExprs (hfits.member_mem_liveExprs h ho ha)

/-- Every access through the field to an inner one is an access of the plan. -/
theorem Fits.exists_access (hfits : Fits s outerId field plan outer inner wrapper) (h : s.Grounded)
    (ho : s.Owned) {id wrapperId base : ExprId} {name : String} (hreached : s.Reaches (.expr id))
    (hid : s.expr id = .member wrapperId name) (hwrapper : s.expr wrapperId = .member base field)
    (hbase : (Types.ofShader s).get? base = some (.struct outer.name)) :
    ∃ i, inner.fieldIndex? name = some i ∧ ⟨id, wrapperId, base, i⟩ ∈ plan.accesses := by
  have hthrough : throughWrapper? (Types.ofShader s) outer.name field (s.exprTree id) =
      some (id, wrapperId, base, name) := by
    rw [h.exprTree_eq, hid, ExprNode.map, throughWrapper?, wrapperBase?_exprTree h hwrapper hbase,
      Option.map_some, Shader.tag_exprTree, Shader.tag_exprTree]
  obtain ⟨a, ha, hmade⟩ := exists_of_forall₂ (forall₂_of_mapM hfits.accesses_eq).flip
    (List.mem_filterMap.mpr ⟨_, ho.exprTree_mem_exprVisits h hreached, hthrough⟩)
  obtain ⟨i, hi, rfl⟩ := Option.map_eq_some_iff.mp hmade
  exact ⟨i, hi, ha⟩

/-! ## What is left of the field -/

/-- No access of a value of the outer structure is left that takes the field. -/
theorem Fits.get?_ne_of_inlined (hfits : Fits s outerId field plan outer inner wrapper)
    (h : s.Grounded) (ho : s.Owned) (houter : outerId ∈ s.decls)
    (hapart : ∀ f ∈ fields, f.name ≠ field) (hlength : fields.length = inner.fields.length)
    (hinlined : (inlined s outerId outer plan fields).Grounded)
    (howned : (inlined s outerId outer plan fields).Owned) {id base : ExprId}
    (hid : (inlined s outerId outer plan fields).Reaches (.expr id))
    (hmember : (inlined s outerId outer plan fields).expr id = .member base field) :
    (Types.ofShader s).get? base ≠ some (.struct outer.name) := by
  intro hbase
  have hreaches := hfits.reaches_of_inlined h ho houter hinlined howned hid
  obtain heq | ⟨args, args', -, heq⟩ | ⟨a, ha, rfl, heq⟩ := hfits.expr_inlined h fields id
  · exact hfits.ne_field h ho hinlined howned hreaches hid (heq ▸ hmember) hbase rfl
  · rw [heq] at hmember
    cases hmember
  · obtain ⟨name, -, -, hposition⟩ := hfits.exists_member h ha
    have hlt := StructDecl.lt_of_fieldIndex? hposition
    rw [← hlength] at hlt
    rw [heq, List.getElem?_map, List.getElem?_eq_getElem hlt] at hmember
    exact hapart _ (List.getElem_mem hlt) (ExprNode.member.inj hmember).2

/-- Every access through the field to an inner one takes the field that was made from the inner one, of
the value that the field was taken of. -/
theorem Fits.expr_access_inlined (hfits : Fits s outerId field plan outer inner wrapper)
    (h : s.Grounded) (ho : s.Owned) (hnames : (s.structDecls.map StructDecl.name).Nodup)
    (hne : inner.name ≠ outer.name) (houter : outerId ∈ s.decls)
    (hlength : fields.length = inner.fields.length)
    (hinlined : (inlined s outerId outer plan fields).Grounded) {id wrapperId base : ExprId}
    {name : String} (hid : s.Reaches (.expr id)) (hmember : s.expr id = .member wrapperId name)
    (hwrapper : s.expr wrapperId = .member base field)
    (hbase : (Types.ofShader s).get? base = some (.struct outer.name)) :
    (inlined s outerId outer plan fields).Reaches (.expr id) ∧
      ∃ i f, inner.fieldIndex? name = some i ∧ fields[i]? = some f ∧
        (inlined s outerId outer plan fields).expr id = .member base f.name := by
  obtain ⟨i, hi, ha⟩ := hfits.exists_access h ho hid hmember hwrapper hbase
  obtain ⟨howned, hmembers⟩ := hfits.owned_inlined h ho hnames hne houter fields
  have hleft := hmembers id wrapperId name (ho.mem_liveExprs_of_reaches h hid) hmember
    fun b hb heq => hfits.wrapper_ne_member h ho hnames hne houter hb ha heq.symm
  have hlt := StructDecl.lt_of_fieldIndex? hi
  rw [← hlength] at hlt
  refine ⟨howned.reaches_of_mem_liveExprs hinlined hleft, i, fields[i], hi,
    List.getElem?_eq_getElem hlt, ?_⟩
  rw [hfits.expr_member_inlined h ho fields ha, List.getElem?_map, List.getElem?_eq_getElem hlt]
  rfl

/-- A field of a program with distinct names of structures is inlined, and holds a structure other than
its own. Then no access is left that takes the field of a value of the outer structure, and every access
to an inner field through it now takes, of the very same value, the field that stands for the inner one
in the outer structure. -/
theorem accesses_apply {p : Program} (hnames : (p.structDecls.map StructDecl.name).Nodup)
    {outerId : DeclId} {field : String} {outer : StructDecl}
    (houter : (Shader.ofProgram p).decl outerId = .struct outer)
    (hother : (outer.field? field).map (fun f => f.type.name) ≠ some outer.name)
    (hholds : holds (Shader.ofProgram p) outerId field = true) (supply : NameSupply) :
    let s := Shader.ofProgram p
    let t := (apply s supply outerId field).1
    ∃ position wrapper inner fields,
      outer.fieldIndex? field = some position ∧ outer.field? field = some wrapper ∧
      inner ∈ p.structDecls ∧ inner.name = wrapper.type.name ∧
      fields.map (fun f => (f.type, f.arraySize)) = inner.fields.map (fun f => (f.type, f.arraySize)) ∧
      t.decl outerId = .struct ⟨outer.name,
        outer.fields.take position ++ fields ++ outer.fields.drop (position + 1)⟩ ∧
      (∀ id base, t.Reaches (.expr id) → t.expr id = .member base field →
        (Types.ofShader s).get? base ≠ some (.struct outer.name)) ∧
      ∀ id wrapper base name, s.Reaches (.expr id) → s.expr id = .member wrapper name →
        s.expr wrapper = .member base field →
        (Types.ofShader s).get? base = some (.struct outer.name) →
          t.Reaches (.expr id) ∧ ∃ i f, inner.fieldIndex? name = some i ∧ fields[i]? = some f ∧
            t.expr id = .member base f.name := by
  have hlaid := Shader.laidOut_ofProgram p
  have h := hlaid.layered.grounded
  have ho := hlaid.owned
  rw [← Shader.structDecls_ofProgram] at hnames ⊢
  set s := Shader.ofProgram p
  have hmem := mem_decls_of_holds hholds
  have ht := grounded_apply h supply outerId field
  obtain ⟨plan, hplan⟩ := exists_plan_of_holds hholds
  obtain ⟨outer', inner, wrapper, hfits⟩ := exists_fits hplan
  obtain rfl : outer' = outer := by
    have heq := Decl.struct?_eq_some.mp hfits.outer_eq
    rw [houter] at heq
    cases heq
    rfl
  have hwrapper : outer'.field? field = some wrapper := by
    rw [StructDecl.field?_eq, hfits.position_eq, Option.bind_some, hfits.wrapper_eq]
  have hne : inner.name ≠ outer'.name := by
    intro hname
    rw [hwrapper, Option.map_some, ← hfits.inner_name, hname] at hother
    exact hother rfl
  have heq := hfits.apply_eq hplan supply
  have hapart : ∀ f ∈ (renamed field (keptNames outer' plan.position) supply inner.fields).1,
      f.name ≠ field := fun f hf => name_renamed_ne hfits.field_start hf
  have hrenames := renames_renamed field (keptNames outer' plan.position) supply inner.fields
  set fields := (renamed field (keptNames outer' plan.position) supply inner.fields).1
  dsimp only
  rw [heq] at ht ⊢
  have howned := (hfits.owned_inlined h ho hnames hne hmem fields).1
  refine ⟨plan.position, wrapper, inner, fields, hfits.position_eq, hwrapper, hfits.inner_mem,
    hfits.inner_name, hrenames.map_eq, ?_, fun id base hid hmember => ?_,
    fun id wrapperId base name hid hmember hwrapper hbase => ?_⟩
  · have hlive := (ho.decls.isLive_iff outerId).mpr hmem
    rw [(decls_inlined s outerId outer' plan fields).2.2.2, Shader.decl_setDecl,
      if_pos ⟨rfl, Arena.lt_size_of_isLive hlive⟩]
    rfl
  · exact hfits.get?_ne_of_inlined h ho hmem hapart hrenames.length_eq ht howned hid hmember
  · exact hfits.expr_access_inlined h ho hnames hne hmem hrenames.length_eq ht hid hmember hwrapper hbase

/-- An access to a field of a structure in another one, which has a field of the same name. -/
def takenName : Program :=
  let base : Expr Unit := .node () (.ident "s")
  let access : Expr Unit := .node () (.member (.node () (.member base "_f1")) "b")
  let body : List (Stmt Unit Unit) := [.node () (.vars ⟨.ofName "_GLF_struct_2", [⟨"s", none, none⟩]⟩),
    .node () (.expr access)]
  ⟨none, [.struct ⟨"_GLF_struct_1", [⟨.ofName "int", "b", none⟩]⟩,
    .struct ⟨"_GLF_struct_2", [⟨.ofName "_GLF_struct_1", "_f1", none⟩, ⟨.ofName "int", "b", none⟩]⟩,
    .function ⟨.ofName "void", "f", [], some (.node () (.block body))⟩]⟩

/-- The inner field gets a number, and the access names it. -/
theorem accesses_takenName : (takenName.structDecls.map StructDecl.name).Nodup ∧
    holds (Shader.ofProgram takenName) ⟨1⟩ "_f1" = true ∧
    let s := Shader.ofProgram takenName
    let t := (apply s {} ⟨1⟩ "_f1").1
    s.expr ⟨2⟩ = .member ⟨1⟩ "b" ∧ s.expr ⟨1⟩ = .member ⟨0⟩ "_f1" ∧
      (Types.ofShader s).get? ⟨0⟩ = some (.struct "_GLF_struct_2") ∧
      t.Reaches (.expr ⟨2⟩) ∧ t.expr ⟨2⟩ = .member ⟨0⟩ "b_0" ∧
      ∀ id base, t.Reaches (.expr id) → t.expr id = .member base "_f1" →
        (Types.ofShader s).get? base ≠ some (.struct "_GLF_struct_2") := by
  have hnames : (takenName.structDecls.map StructDecl.name).Nodup := by decide +kernel
  have hholds : holds (Shader.ofProgram takenName) ⟨1⟩ "_f1" = true := by decide +kernel
  have hbase : (Types.ofShader (Shader.ofProgram takenName)).get? ⟨0⟩ =
      some (.struct "_GLF_struct_2") := by decide +kernel
  have hreaches : (Shader.ofProgram takenName).Reaches (.expr ⟨2⟩) :=
    (((Shader.Reaches.decl (d := ⟨2⟩) (by decide +kernel)).stmt (t := ⟨2⟩) (by decide +kernel)).stmt
      (t := ⟨1⟩) (by decide +kernel)).expr (by decide +kernel)
  obtain ⟨position, wrapper, inner, fields, -, -, -, -, -, -, hgone, hkept⟩ :=
    accesses_apply hnames rfl (by decide +kernel) hholds {}
  exact ⟨hnames, hholds, rfl, rfl, hbase, (hkept ⟨2⟩ ⟨1⟩ ⟨0⟩ "b" hreaches rfl rfl hbase).1,
    by decide +kernel, hgone⟩

end InlineField

end ShaderReducer
