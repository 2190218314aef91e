import ShaderReducer.Proofs.Analysis.Writes
import ShaderReducer.Proofs.Opportunity.Rewrites
import ShaderReducer.Proofs.Opportunity.Unreferenced

/-!
# Changes and what is written to

What is written to is noted once, for the shader that a list of changes was found in. While the
changes are tried, nodes move from slot to slot, so the notes say less and less about the shader at
hand. What they still say is enough: no constant is put into a slot that was noted, the operand that
is put into one comes from another that was noted, and so does the value that an access to an inner
field is redirected to.
-/

namespace ShaderReducer

/-- What the notes about writes say of a change: an operand that takes the place of what is written to
is itself noted, and a constant only takes the place of what is not. The constructors that are called
by constants write to nothing. -/
def Change.SparesWritten (c : Callables) (slots : List ExprId) : Change → Prop
  | .toSubExpr target child => target ∈ slots → child ∈ slots
  | .toConstant target constant => target ∉ slots ∧ ∀ constructor element,
      constant = .vector constructor element → c.outPositions constructor = []
  | .removeDecl _ | .inlineField _ _ | .removeStmt _ _ | .removeVariable _ _ _ | .unwrap _ _ _ => True

/-- No function of a shader is named like a type or a structure. -/
def Shader.NamesApart (s : Shader) : Prop :=
  ∀ f ∈ s.functions, Ty.ofName? f.2.name = none ∧ ∀ decl ∈ s.structDecls, f.2.name ≠ decl.name

instance (s : Shader) : Decidable s.NamesApart :=
  inferInstanceAs (Decidable (∀ f ∈ s.functions, _ ∧ ∀ decl ∈ s.structDecls, _ ≠ _))

/-! ## Calls that write -/

/-- The built-in functions that write to their arguments. -/
def Builtin.writers : List String :=
  ["modf", "frexp", "uaddCarry", "usubBorrow", "umulExtended", "imulExtended"]

theorem Builtin.outPositions_of_notMem {name : String} (h : name ∉ writers) :
    outPositions name = [] := by
  simp only [writers, List.mem_cons, List.not_mem_nil, or_false, not_or] at h
  obtain ⟨hmodf, hfrexp, hadd, hsub, humul, himul⟩ := h
  simp [outPositions, hmodf, hfrexp, hadd, hsub, humul, himul]

namespace Callables

variable {s t : Shader}

theorem mem_functions {f : FunctionDecl StmtId} :
    f ∈ (ofShader s).functions ↔ ∃ d ∈ s.decls, s.decl d = .function f := by
  simp [ofShader, Shader.mem_functions]

theorem isUserFunction_iff {name : String} : (ofShader s).isUserFunction name = true ↔
    ∃ d ∈ s.decls, ∃ f, s.decl d = .function f ∧ f.name = name := by
  rw [isUserFunction, List.any_eq_true]
  constructor
  · rintro ⟨f, hf, hname⟩
    obtain ⟨d, hd, hdecl⟩ := mem_functions.mp hf
    exact ⟨d, hd, f, hdecl, by simpa using hname⟩
  · rintro ⟨d, hd, f, hdecl, hname⟩
    exact ⟨f, mem_functions.mpr ⟨d, hd, hdecl⟩, by simpa using hname⟩

/-- With fewer functions a call writes to no more, unless a built-in function comes to light. -/
theorem outPositions_subset {callee : String} (hfunctions : ∀ f ∈ (ofShader t).functions,
    f ∈ (ofShader s).functions)
    (hkept : (ofShader s).isUserFunction callee = true → (ofShader t).isUserFunction callee = true) :
    (ofShader t).outPositions callee ⊆ (ofShader s).outPositions callee := by
  have hmono : (ofShader t).isUserFunction callee = true → (ofShader s).isUserFunction callee = true := by
    intro h
    obtain ⟨f, hf, hname⟩ := List.any_eq_true.mp h
    exact List.any_eq_true.mpr ⟨f, hfunctions f hf, hname⟩
  by_cases ht : (ofShader t).isUserFunction callee = true
  · rw [outPositions, if_pos ht, outPositions, if_pos (hmono ht)]
    intro i hi
    obtain ⟨f, hf, hi⟩ := List.mem_flatMap.mp hi
    obtain ⟨hf, hname⟩ := List.mem_filter.mp hf
    exact List.mem_flatMap.mpr ⟨f, List.mem_filter.mpr ⟨hfunctions f hf, hname⟩, hi⟩
  · rw [outPositions, if_neg ht, outPositions, if_neg fun hs => ht (hkept hs)]
    exact List.Subset.refl _

/-- The constructor of a type of the language writes to nothing. -/
theorem outPositions_of_ofName? (hnames : s.NamesApart) {name : String} {type : Ty}
    (h : Ty.ofName? name = some type) : (ofShader s).outPositions name = [] := by
  have huser : ¬ (ofShader s).isUserFunction name = true := by
    intro huser
    obtain ⟨d, hd, f, hdecl, rfl⟩ := isUserFunction_iff.mp huser
    rw [(hnames (d, f) (Shader.mem_functions.mpr ⟨hd, hdecl⟩)).1] at h
    cases h
  rw [outPositions, if_neg huser]
  refine Builtin.outPositions_of_notMem fun hmem => ?_
  have hnone : ∀ other ∈ Builtin.writers, Ty.ofName? other = none := by decide
  rw [hnone name hmem] at h
  cases h

/-- The constructor of a synthetic structure writes to nothing. -/
theorem outPositions_of_struct (hnames : s.NamesApart) {decl : StructDecl}
    (hdecl : decl ∈ s.structDecls)
    (hstart : InlineField.startsWith decl.name InlineField.structStart = true) :
    (ofShader s).outPositions decl.name = [] := by
  have huser : ¬ (ofShader s).isUserFunction decl.name = true := by
    intro huser
    obtain ⟨d, hd, f, hf, hname⟩ := isUserFunction_iff.mp huser
    exact (hnames (d, f) (Shader.mem_functions.mpr ⟨hd, hf⟩)).2 decl hdecl hname
  rw [outPositions, if_neg huser]
  refine Builtin.outPositions_of_notMem fun hmem => ?_
  have hnone : ∀ other ∈ Builtin.writers,
      InlineField.startsWith other InlineField.structStart = false := by decide
  rw [hnone decl.name hmem] at hstart
  cases hstart

end Callables

/-! ## One change -/

namespace Opportunity

variable {s t : Shader} {c : Callables} {slots : List ExprId}

/-- What is found spares what is written to where it is found. -/
theorem sparesWritten_of_mem_find (h : s.Grounded) (ho : s.Owned) (hnames : s.NamesApart)
    (hs : s.Stores (Callables.ofShader s) s.writtenSlots) {everywhere : Bool}
    {kinds : List OpportunityKind} {o : Opportunity} (hfind : o ∈ find s everywhere kinds) :
    o.change.SparesWritten (Callables.ofShader s) s.writtenSlots := by
  have hmem := mem_ofKind_of_mem_find hfind
  have hmarked : ∀ id ∈ s.writtenSlots, id ∈ s.liveExprs →
      (Analysis.ofShader s everywhere).isWritten id = true := by
    intro id hid hlive
    have hindex : id.index ∈ s.writtenSlots.map ExprId.index := List.mem_map_of_mem hid
    have hlt := Shader.lt_size_of_mem_liveExprs hlive
    simp only [Analysis.isWritten, Analysis.ofShader, Marks.contains_ofList, Bool.and_eq_true]
    exact ⟨List.contains_iff_mem.mpr hindex, decide_eq_true hlt⟩
  have hbuilds := buildsVectors_of_mem_find h ho hfind
  obtain ⟨depth, change⟩ := o
  cases change with
  | toSubExpr target child =>
      obtain ⟨⟨depth, e⟩, hv, hmem⟩ := List.mem_flatMap.mp hmem
      obtain ⟨child, hchild, heq⟩ := List.mem_map.mp hmem
      cases heq
      obtain ⟨hlive, htree⟩ := (ho.mem_exprVisits h).mp (List.mem_map_of_mem (f := Prod.snd) hv)
      obtain ⟨tag, form⟩ := e
      rw [Expr.tag] at hlive htree ⊢
      intro hwritten
      simp only [SubExpr.operands, Expr.tag, hmarked tag hwritten hlive] at hchild
      split at hchild
      next =>
        split at hchild
        next =>
          have hkeeps := (List.mem_filter.mp hchild).2
          simp only [Bool.not_true, Bool.false_or, Bool.and_eq_true] at hkeeps
          refine hs.base tag hwritten child ?_
          rw [(h.expr_of_exprTree htree.symm).2]
          cases form with
          | index base i =>
              obtain rfl : base.tag = child := eq_of_beq hkeeps.2
              rfl
          | _ => exact absurd hkeeps.2 Bool.false_ne_true
        next => cases hchild
      next => cases hchild
  | toConstant target constant =>
      refine ⟨fun hwritten => ?_, fun constructor element heq => ?_⟩
      · obtain ⟨⟨depth, e⟩, hv, hmem⟩ := List.mem_filterMap.mp hmem
        obtain ⟨constant, hconstant, heq⟩ := Option.map_eq_some_iff.mp hmem
        cases heq
        have hlive := ((ho.mem_exprVisits h).mp (List.mem_map_of_mem (f := Prod.snd) hv)).1
        simp [Constant.replacement?, hmarked e.tag hwritten hlive] at hconstant
      · obtain ⟨kind, width, htype⟩ := hbuilds constructor element heq
        exact Callables.outPositions_of_ofName? hnames htype
  | _ => trivial

/-- What a change puts into a slot. -/
theorem stores_of_puts (hs : s.Stores c slots) (hsize : ∀ id ∈ slots, id.index < s.exprs.size)
    (hcalls : ∀ decl ∈ s.structDecls,
      InlineField.startsWith decl.name InlineField.structStart = true → c.outPositions decl.name = [])
    {change : Change} (hspares : change.SparesWritten c slots)
    (hdecl : ∀ d field, change = .inlineField d field → d ∈ s.decls) {id : ExprId}
    {node : ExprNode ExprId} (hput : change.Puts s id node) :
    (∀ part ∈ node.written c, part ∈ slots) ∧
      (id ∈ slots → (∀ base, node.base? = some base → base ∈ slots) ∧ node.IsPlace) := by
  cases hput with
  | operand target child =>
      exact ⟨hs.written child, fun hid => ⟨hs.base child (hspares hid), hs.place child (hspares hid)⟩⟩
  | scalar target value => exact ⟨List.forall_mem_nil _, fun hid => absurd hid hspares.1⟩
  | vector target constructor element =>
      refine ⟨?_, fun hid => absurd hid hspares.1⟩
      rw [ExprNode.written, hspares.2 constructor element rfl]
      exact List.forall_mem_nil _
  | element target constructor element =>
      exact ⟨List.forall_mem_nil _, fun hid => absurd (hsize _ hid) (Nat.lt_irrefl _)⟩
  | constructor houter hstart hcall args' =>
      refine ⟨?_, fun hid => ?_⟩
      · rw [ExprNode.written,
          hcalls _ (Shader.mem_structDecls.mpr ⟨_, hdecl _ _ rfl, houter⟩) hstart]
        exact List.forall_mem_nil _
      · have hplace := hs.place id hid
        rw [hcall] at hplace
        exact hplace.elim
  | access hmember hwrapper name' =>
      refine ⟨List.forall_mem_nil _, fun hid => ⟨fun base hbase => ?_, trivial⟩⟩
      cases hbase
      exact hs.base _ (hs.base id hid _ (by rw [hmember]; rfl)) _ (by rw [hwrapper]; rfl)

/-- A change that spares what is written to leaves places there. -/
theorem stores_apply (h : s.Grounded) (hs : s.Stores c slots)
    (hsize : ∀ id ∈ slots, id.index < s.exprs.size)
    (hcalls : ∀ decl ∈ s.structDecls,
      InlineField.startsWith decl.name InlineField.structStart = true → c.outPositions decl.name = [])
    {o : Opportunity} (hholds : o.holds s = true) (hspares : o.change.SparesWritten c slots)
    (supply : NameSupply) : (o.apply s supply).1.Stores c slots := by
  have hdecl : ∀ d field, o.change = .inlineField d field → d ∈ s.decls := by
    intro d field heq
    rw [holds, heq] at hholds
    exact InlineField.mem_decls_of_holds hholds
  have hnode : ∀ id, (∀ part ∈ ((o.apply s supply).1.expr id).written c, part ∈ slots) ∧
      (id ∈ slots → (∀ base, ((o.apply s supply).1.expr id).base? = some base → base ∈ slots) ∧
        ((o.apply s supply).1.expr id).IsPlace) := by
    intro id
    obtain hsame | hput := expr_apply h hholds supply id
    · rw [hsame]
      exact ⟨hs.written id, fun hid => ⟨hs.base id hid, hs.place id hid⟩⟩
    · exact stores_of_puts hs hsize hcalls hspares hdecl hput
  exact ⟨fun id => (hnode id).1, fun id hid => ((hnode id).2 hid).1, fun id hid => ((hnode id).2 hid).2⟩

/-! ## Chunks -/

/-- A declaration that is gone was taken away by one of the changes. -/
theorem mem_decls_tryAll {os : List Opportunity} (supply : NameSupply) {d : DeclId}
    (hd : d ∈ s.decls) :
    d ∈ (tryAll os s supply).2.1.decls ∨ ∃ o ∈ os, o.change = .removeDecl d := by
  refine tryAll_invariant
    (motive := fun t => d ∈ t.decls ∨ ∃ o ∈ os, o.change = .removeDecl d) ?_ (Or.inl hd) supply
  intro t ht o ho hholds supply
  rcases ht with ht | ht
  · obtain hsame | ⟨d', hchange, herase⟩ := decls_apply hholds supply
    · exact Or.inl (hsame ▸ ht)
    · by_cases hdd : d = d'
      · exact Or.inr ⟨o, ho, hdd ▸ hchange⟩
      · rw [herase]
        exact Or.inl ((List.mem_erase_of_ne hdd).mpr ht)
  · exact Or.inr ht

/-- A call that is left writes to no more than it did: a function that was taken away was not called,
so no built-in function of its name is called in its stead. -/
theorem outPositions_tryAll {p : Program} (hnames : (Shader.ofProgram p).NamesApart)
    {everywhere : Bool} {kinds : List OpportunityKind} {os : List Opportunity}
    (hos : ∀ o ∈ os, o ∈ find (Shader.ofProgram p) everywhere kinds) (supply : NameSupply)
    (callee : String)
    (hcalled : callee ∈ (NameUses.ofShader (tryAll os (Shader.ofProgram p) supply).2.1).called) :
    (Callables.ofShader (tryAll os (Shader.ofProgram p) supply).2.1).outPositions callee ⊆
      (Callables.ofShader (Shader.ofProgram p)).outPositions callee := by
  have hlaid := Shader.laidOut_ofProgram p
  have h := hlaid.layered.grounded
  set s := Shader.ofProgram p
  obtain ⟨ht, habridges⟩ := abridges_tryAll h
    (fun o ho => buildsVectors_of_mem_find h hlaid.owned (hos o ho)) supply
  have hgone : ∀ d ∈ s.decls, d ∈ (tryAll os s supply).2.1.decls ∨
      ∃ o ∈ os, o.change = .removeDecl d := fun d => mem_decls_tryAll supply
  set t := (tryAll os s supply).2.1
  refine Callables.outPositions_subset (fun f hf => ?_) fun huser => ?_
  · obtain ⟨d, hd, hf⟩ := Callables.mem_functions.mp hf
    exact Callables.mem_functions.mpr ⟨d, habridges.decls hd, (habridges.function_iff d f).mp hf⟩
  · obtain ⟨d, hd, f, hf, rfl⟩ := Callables.isUserFunction_iff.mp huser
    refine Callables.isUserFunction_iff.mpr
      ⟨d, (hgone d hd).resolve_right ?_, f, (habridges.function_iff d f).mpr hf, rfl⟩
    rintro ⟨o, ho, hchange⟩
    have hcuts := cutsNothing_of_mem_find h hlaid.owned (hos o ho)
    rw [hchange, Change.CutsNothing, hf] at hcuts
    obtain ⟨d', hd', hm⟩ := ht.mem_called.mp hcalled
    obtain hm | ⟨kind, width, htype⟩ | ⟨hname, -⟩ := habridges.mentions _ _ hm
    · exact hcuts.2 d' (habridges.decls hd') hm
    · rw [(hnames (d, f) (Shader.mem_functions.mpr ⟨hd, hf⟩)).1] at htype
      cases htype
    · exact hname

/-- Where all that is written to is a place, and no function is named like a type or a structure, what
is written to is a place also after any changes that were found were tried, in any order. A function
hides the built-in function of its name, which then writes to nothing. -/
theorem writesPlaces_tryAll {p : Program} (hwrites : (Shader.ofProgram p).WritesPlaces)
    (hnames : (Shader.ofProgram p).NamesApart) {everywhere : Bool} {kinds : List OpportunityKind}
    {os : List Opportunity} (hos : ∀ o ∈ os, o ∈ find (Shader.ofProgram p) everywhere kinds)
    (supply : NameSupply) : (tryAll os (Shader.ofProgram p) supply).2.1.WritesPlaces := by
  have hlaid := Shader.laidOut_ofProgram p
  have h := hlaid.layered.grounded
  have hpositions := fun callee => outPositions_tryAll hnames hos supply callee
  set s := Shader.ofProgram p
  have hstores := hlaid.stores hwrites
  have hall : (tryAll os s supply).2.1.Grounded ∧ (tryAll os s supply).2.1.Abridges s ∧
      (tryAll os s supply).2.1.Stores (Callables.ofShader s) s.writtenSlots ∧
      s.exprs.size ≤ (tryAll os s supply).2.1.exprs.size := by
    refine tryAll_invariant (motive := fun t => t.Grounded ∧ t.Abridges s ∧
      t.Stores (Callables.ofShader s) s.writtenSlots ∧ s.exprs.size ≤ t.exprs.size) ?_
      ⟨h, .refl s, hstores, le_rfl⟩ supply
    rintro t ⟨ht, habridges, hstored, hsize⟩ o ho hholds supply
    have hbuilds := buildsVectors_of_mem_find h hlaid.owned (hos o ho)
    have hspares := sparesWritten_of_mem_find h hlaid.owned hnames hstores (hos o ho)
    refine ⟨grounded_apply ht hholds supply, (abridges_apply ht hholds hbuilds supply).trans habridges,
      stores_apply ht hstored (fun id hid => ?_) ?_ hholds hspares supply,
      hsize.trans (size_le_apply hholds supply)⟩
    · exact (h.lt_size_of_mem_writtenSlots hid).trans_le hsize
    · intro decl hdecl hstart
      obtain ⟨decl', hmem, hname⟩ := habridges.exists_structDecl hdecl
      rw [← hname] at hstart ⊢
      exact Callables.outPositions_of_struct hnames hmem hstart
  obtain ⟨ht, habridges, hstored, -⟩ := hall
  set t := (tryAll os s supply).2.1
  intro v hv e he
  obtain ⟨hpart, htree⟩ := ht.mem_written hv he
  rw [htree]
  refine hstored.isPlace ht (hstored.written v.2.tag e.tag ?_)
  cases hnode : t.expr v.2.tag with
  | call callee args =>
      rw [hnode] at hpart
      obtain ⟨i, hi, harg⟩ := List.mem_filterMap.mp hpart
      refine List.mem_filterMap.mpr ⟨i, hpositions callee ?_ hi, harg⟩
      refine List.mem_filterMap.mpr ⟨v, hv, ?_⟩
      have hvisit := ht.eq_exprTree_of_mem_exprVisits (List.mem_map_of_mem (f := Prod.snd) hv)
      change NameUses.calledName? v.2 = some callee
      rw [hvisit, ht.exprTree_eq, hnode]
      rfl
  | _ => rw [hnode] at hpart; exact hpart

/-- A sum is written to a value inside two synthetic structures. -/
def nestedWrite : Program :=
  let name : Expr Unit := .node () (.ident "s")
  let place : Expr Unit := .node () (.member (.node () (.member name "_f1")) "_f0")
  let sum : Expr Unit := .node () (.binary .add (.node () (.literal (.int "2")))
    (.node () (.literal (.int "3"))))
  let decl : Stmt Unit Unit := .node () (.vars ⟨.ofName "_GLF_struct_2", [⟨"s", none, none⟩]⟩)
  let write : Stmt Unit Unit := .node () (.expr (.node () (.binary .assign place sum)))
  ⟨none, [.struct ⟨"_GLF_struct_1", [⟨.ofName "int", "_f0", none⟩]⟩,
    .struct ⟨"_GLF_struct_2", [⟨.ofName "_GLF_struct_1", "_f1", none⟩]⟩,
    .function ⟨.ofName "void", "main", [], some (.node () (.block [decl, write]))⟩]⟩

/-- The sum is replaced by a constant and the access by one to an inner field, and what is written to
is still a place. -/
theorem writesPlaces_nestedWrite : ∃ os,
    (Shader.ofProgram nestedWrite).WritesPlaces ∧ (Shader.ofProgram nestedWrite).NamesApart ∧
      (∀ o ∈ os, o ∈ find (Shader.ofProgram nestedWrite) true OpportunityKind.all) ∧
      (tryAll os (Shader.ofProgram nestedWrite) {}).1 = [true, true] ∧
      (tryAll os (Shader.ofProgram nestedWrite) {}).2.1.writtenSlots ≠ [] ∧
      (tryAll os (Shader.ofProgram nestedWrite) {}).2.1.WritesPlaces := by
  have hos : ∀ o ∈ [(⟨4, .toConstant ⟨5⟩ (.scalar (.int "1"))⟩ : Opportunity),
      ⟨0, .inlineField ⟨1⟩ "_f1"⟩],
      o ∈ find (Shader.ofProgram nestedWrite) true OpportunityKind.all := by
    intro o ho
    refine List.mem_mergeSort.mpr (List.mem_flatMap.mpr ⟨o.kind, ?_, ?_⟩)
    · cases o.kind <;> decide
    · simp only [List.mem_cons, List.not_mem_nil, or_false] at ho
      rcases ho with rfl | rfl <;> decide +kernel
  have hwrites : (Shader.ofProgram nestedWrite).WritesPlaces := by decide +kernel
  have hnames : (Shader.ofProgram nestedWrite).NamesApart := by decide +kernel
  exact ⟨_, hwrites, hnames, hos, by decide +kernel, by decide +kernel,
    writesPlaces_tryAll hwrites hnames hos {}⟩

end Opportunity

end ShaderReducer
