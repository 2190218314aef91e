import ShaderReducer.Proofs.Opportunity.InlineTypes

/-!
# Types while opportunities are tried

An opportunity is found with the types of the shader that it is found in, and tried later, when others
of the list were tried before it. This makes no difference: no change of a list gives an expression
that is left another type, also where the slot of the expression has been given another node.
-/

namespace ShaderReducer

/-- What a change needs for all types to stay. Operands and constants are of the type of what they take
the place of, and what is removed is not referred to and declares nothing. -/
def Change.SparesTypes (s : Shader) : Change → Prop
  | .toSubExpr target child => (Types.ofShader s).get? child = (Types.ofShader s).get? target
  | .toConstant target constant => ∃ type, (Types.ofShader s).get? target = some type ∧
      (constant.node ⟨s.exprs.size⟩).ownType? = some type
  | .removeDecl d => ∃ name, (s.decl d).name? = some name ∧
      (Ty.ofName? name = none → Change.CutsNothing s (.removeDecl d))
  | .removeStmt _ stmt => (s.stmt stmt).isVars = false
  | .removeVariable stmt block name => Change.CutsNothing s (.removeVariable stmt block name)
  | .inlineField _ _ | .unwrap _ _ _ => True

namespace Shader

variable {s t u : Shader}

/-- Expressions that are left have the types that are noted in another shader, where they are not
new. -/
structure KeepsTypes (s t : Shader) : Prop where
  size_le : s.exprs.size ≤ t.exprs.size
  get?_eq : ∀ id, t.Reaches (.expr id) → id.index < s.exprs.size →
    s.Reaches (.expr id) ∧ (Types.ofShader t).get? id = (Types.ofShader s).get? id

theorem KeepsTypes.refl (s : Shader) : s.KeepsTypes s :=
  ⟨le_rfl, fun _ hid _ => ⟨hid, rfl⟩⟩

theorem KeepsTypes.trans (h : s.KeepsTypes t) (h' : t.KeepsTypes u) : s.KeepsTypes u := by
  refine ⟨h.size_le.trans h'.size_le, fun id hid hlt => ?_⟩
  obtain ⟨hid', htype'⟩ := h'.get?_eq id hid (hlt.trans_le h.size_le)
  obtain ⟨hid'', htype⟩ := h.get?_eq id hid' hlt
  exact ⟨hid'', htype'.trans htype⟩

/-- Types that are told by scopes are the ones that are noted. -/
theorem Retypes.keepsTypes (h : s.Retypes t) (hsize : s.exprs.size ≤ t.exprs.size) (hs : s.Grounded)
    (hso : s.Owned) (hsp : s.LocalsPlaced) (ht : t.Grounded) (hto : t.Owned) (htp : t.LocalsPlaced) :
    s.KeepsTypes t := by
  refine ⟨hsize, fun id hid hlt => ?_⟩
  obtain ⟨d, scope, hscoped⟩ := hid.exists_scoped
  obtain ⟨scope', hscoped', htype⟩ := h d scope id hscoped hlt
  refine ⟨hscoped'.reaches, ?_⟩
  rw [hscoped.get?_eq ht hto htp, hscoped'.get?_eq hs hso hsp, htype]

/-- Accesses name fields if they were there before, and if the structures are still there that
expressions are of. -/
theorem NamesFields.of_keepsTypes (hs : s.NamesFields) (hkeeps : s.KeepsTypes t)
    (hsize : ∀ id c, c ∈ (s.expr id).children → c.index < s.exprs.size)
    (hexpr : ∀ id base field, t.Reaches (.expr id) → t.expr id = .member base field →
      ∃ id', s.Reaches (.expr id') ∧ s.expr id' = .member base field)
    (hstruct : ∀ id name, (Types.ofShader s).get? id = some (.struct name) →
      ∀ decl ∈ s.structDecls, decl.name = name → decl ∈ t.structDecls) : t.NamesFields := by
  intro id hid
  cases hform : t.expr id with
  | member base field =>
      rw [namesField_member]
      intro name hbase
      obtain ⟨id', hid', hform'⟩ := hexpr id base field hid hform
      have hpart : t.Reaches (.expr base) := .expr hid (by simp [exprsIn, hform, ExprNode.children])
      have hlt := hsize id' base (by simp [hform', ExprNode.children])
      rw [(hkeeps.get?_eq base hpart hlt).2] at hbase
      obtain ⟨decl, hdecl, hname, hfield⟩ := namesField_member.mp (hform' ▸ hs id' hid') name hbase
      exact ⟨decl, hstruct base name hbase decl hdecl hname, hname, hfield⟩
  | _ => rfl

end Shader

/-- No declaration is found to be removable as a statement. -/
theorem RemovableStmt.not_isVars_of_mem_find {s : Shader} (h : s.Grounded) (ho : s.Owned) {a : Analysis}
    {depth : Nat} {block stmt : StmtId} (hfind : ⟨depth, .removeStmt block stmt⟩ ∈ find s a) :
    (s.stmt stmt).isVars = false := by
  obtain ⟨f, hf, hmem⟩ := List.mem_flatMap.mp hfind
  obtain ⟨⟨depth, id, form⟩, hv, hmem⟩ := List.mem_flatMap.mp hmem
  obtain ⟨t, ht, heq⟩ := List.mem_map.mp hmem
  cases heq
  obtain ⟨hbody, hremovable⟩ := List.mem_filter.mp ht
  have htree := (ho.of_mem_visits h hf hv).2
  cases form with
  | block body =>
      have hpart := h.eq_stmtTree_of_mem_childStmts htree.symm hbody
      obtain ⟨tag, form⟩ := t
      rw [Stmt.tag] at hpart ⊢
      rw [(h.stmt_of_stmtTree hpart.symm).2, StmtNode.isVars_map]
      cases form with
      | vars decl =>
          rw [isRemovable, Bool.and_eq_true] at hremovable
          exact absurd hremovable.1 Bool.false_ne_true
      | _ => rfl
  | _ => cases hbody

namespace Opportunity

variable {s t : Shader}

/-- No change moves an expression to another scope or gives it another type. -/
theorem retypes_apply (hs : s.Regular) {o : Opportunity} (hholds : o.holds s = true)
    (hspares : o.change.SparesTypes s) (supply : NameSupply) :
    s.Retypes (o.apply s supply).1 ∧ s.Tames (o.apply s supply).1 := by
  have h := hs.grounded
  have hget : ∀ {d scope id}, s.Scoped d scope (.expr id) →
      (Types.ofShader s).get? id = s.typeAt scope id :=
    fun hid => hid.get?_eq h hs.owned hs.placed
  obtain ⟨depth, change⟩ := o
  cases change with
  | toSubExpr target child =>
      simp only [holds, SubExpr.holds, Bool.and_eq_true] at hholds
      have hchild : child ∈ (s.expr target).children := List.contains_iff_mem.mp hholds.2
      refine ⟨Shader.retypes_replaceWithChild h hchild fun d scope hid => ?_,
        Shader.tames_of_stmts_eq ?_⟩
      · rw [← hget hid, ← hget (.part hid hchild)]
        exact hspares
      · simp only [apply]
        rw [Shader.replaceWithChild_eq]
        rfl
  | toConstant target constant =>
      simp only [holds, Constant.holds, Bool.and_eq_true] at hholds
      obtain ⟨type, htype, hconstant⟩ := hspares
      refine ⟨Constant.retypes_apply h (Shader.mem_liveExprs.mpr hholds.1) hconstant
        fun d scope hid => (hget hid).symm.trans htype, Shader.tames_of_stmts_eq ?_⟩
      funext id
      rw [Shader.stmt, apply, Constant.stmts_apply, Shader.stmt]
  | removeDecl d =>
      obtain ⟨name, hname, hunused⟩ := hspares
      exact ⟨Shader.retypes_removeDecl h hs.owned hs.placed hname hunused,
        Shader.tames_of_stmts_eq (Shader.stmt_removeDecl s d)⟩
  | inlineField outer field =>
      refine ⟨InlineField.retypes_apply hs supply hholds, Shader.tames_of_stmts_eq ?_⟩
      funext id
      rw [Shader.stmt, apply, (InlineField.same_apply s supply outer field).2.1, Shader.stmt]
  | removeStmt block stmt =>
      exact ⟨Shader.retypes_removeFromBlock (Shader.scopeAfter_of_not_isVars hspares) block,
        Shader.tames_removeFromBlock s block stmt⟩
  | removeVariable stmt block name => exact UnusedVariable.retypes_apply h hholds hspares
  | unwrap block target way => exact Unwrap.retypes_apply hs.placed hholds

/-- A structure that an expression is of stays, unless it is widened. -/
theorem mem_structDecls_apply (hs : s.Regular) {o : Opportunity} (hholds : o.holds s = true)
    (hspares : o.change.SparesTypes s) (supply : NameSupply)
    (hinline : ¬ ∃ outer field, o.change = .inlineField outer field) {id : ExprId} {decl : StructDecl}
    (htype : (Types.ofShader s).get? id = some (.struct decl.name)) (hdecl : decl ∈ s.structDecls) :
    decl ∈ (o.apply s supply).1.structDecls := by
  have hsame : ∀ t : Shader, t.decls = s.decls ∧ t.declNodes = s.declNodes → decl ∈ t.structDecls := by
    rintro t ⟨hdecls, hnodes⟩
    rwa [Shader.structDecls_congr hdecls hnodes]
  obtain ⟨depth, change⟩ := o
  cases change with
  | toSubExpr target child => exact hsame _ (Shader.decls_replaceWithChild s target child)
  | toConstant target constant => exact hsame _ (Constant.decls_apply s target constant)
  | removeDecl gone =>
      obtain ⟨d, hd, hnode⟩ := Shader.mem_structDecls.mp hdecl
      refine Shader.mem_structDecls.mpr ⟨d, ?_, (congrFun (Shader.decl_removeDecl s gone) d).trans hnode⟩
      rw [apply, Shader.decls_removeDecl]
      refine (List.mem_erase_of_ne ?_).mpr hd
      rintro rfl
      obtain ⟨name, hname, hunused⟩ := hspares
      exact hs.grounded.avoids_of_unused (Shader.unused_of_cutsNothing hname hunused hnode) htype rfl
  | inlineField outer field => exact absurd ⟨outer, field, rfl⟩ hinline
  | removeStmt block stmt => exact hsame _ (Shader.decls_removeFromBlock s block stmt)
  | removeVariable stmt block name => exact hsame _ (UnusedVariable.decls_apply s stmt block name)
  | unwrap block target way => exact hsame _ (Unwrap.decls_apply hholds)

/-- A member that is taken of something was there before, maybe as an operand. If a field is inlined,
another member may have been taken of the same thing. -/
theorem exists_member_of_apply (h : s.Grounded) {o : Opportunity} (hholds : o.holds s = true)
    (supply : NameSupply) (hkeeps : s.KeepsTypes (o.apply s supply).1) {id base : ExprId}
    {field : String} (hid : (o.apply s supply).1.Reaches (.expr id))
    (hform : (o.apply s supply).1.expr id = .member base field) :
    ∃ id' field', s.Reaches (.expr id') ∧ s.expr id' = .member base field' ∧
      (field' = field ∨ ∃ outer inlined, o.change = .inlineField outer inlined) := by
  have hold : s.Reaches (.expr id) ∨ s.exprs.size ≤ id.index :=
    (Nat.lt_or_ge id.index s.exprs.size).imp_left fun hlt => (hkeeps.get?_eq id hid hlt).1
  obtain hsame | hput := expr_apply h hholds supply id
  · rw [hsame] at hform
    refine ⟨id, field, hold.resolve_right fun hle => ?_, hform, .inl rfl⟩
    rw [Shader.expr_of_size_le hle] at hform
    cases hform
  · rw [hform] at hput
    obtain ⟨depth, change⟩ := o
    generalize hnode : (ExprNode.member base field : ExprNode ExprId) = node at hput
    cases hput with
    | operand target child =>
        simp only [holds, SubExpr.holds, Bool.and_eq_true] at hholds
        have hlive := Shader.lt_size_of_mem_liveExprs (Shader.mem_liveExprs.mpr hholds.1.1)
        have htarget := hold.resolve_right fun hle => absurd hlive (Nat.not_lt.mpr hle)
        exact ⟨child, field, .expr htarget (List.contains_iff_mem.mp hholds.2), hnode.symm,
          .inl rfl⟩
    | @access outerId inlined name member wrapper _ hmember hwrapper _ =>
        cases hnode
        have hslot : s.Reaches (.expr id) := hold.resolve_right fun hle => by
          rw [Shader.expr_of_size_le hle] at hmember
          cases hmember
        refine ⟨wrapper, inlined, .expr hslot ?_, hwrapper, .inr ⟨outerId, inlined, rfl⟩⟩
        rw [Shader.exprsIn, hmember]
        exact List.mem_cons_self
    | _ => cases hnode

/-- All members that are taken of structures still are fields of them. -/
theorem namesFields_apply (hs : s.Regular) {o : Opportunity} (hholds : o.holds s = true)
    (hspares : o.change.SparesTypes s) (supply : NameSupply)
    (hkeeps : s.KeepsTypes (o.apply s supply).1) : (o.apply s supply).1.NamesFields := by
  by_cases hinline : ∃ outer field, o.change = .inlineField outer field
  · obtain ⟨depth, change⟩ := o
    obtain ⟨outer, field, rfl⟩ := hinline
    refine InlineField.namesFields_apply hs supply hholds fun id hid => (hkeeps.get?_eq id hid ?_).2
    have ht := grounded_apply hs.grounded hholds supply
    have hto := (owned_apply hs.grounded hs.owned hs.structs hholds supply).1
    rw [← (InlineField.same_apply s supply outer field).2.2]
    exact Shader.lt_size_of_mem_liveExprs (hto.mem_liveExprs_of_reaches ht hid)
  · obtain ⟨rank, hr⟩ := hs.grounded.exprs
    refine hs.named.of_keepsTypes hkeeps (fun id c hc => (hr.falls id c hc).1)
      (fun id base field hid hform => ?_) ?_
    · obtain ⟨id', field', hid', hform', heq⟩ :=
        exists_member_of_apply hs.grounded hholds supply hkeeps hid hform
      obtain rfl := heq.resolve_right hinline
      exact ⟨id', hid', hform'⟩
    rintro id name htype decl hdecl rfl
    exact mem_structDecls_apply hs hholds hspares supply hinline htype hdecl

/-- One change keeps all types, and all that types are kept in. -/
theorem regular_apply (hs : s.Regular) {o : Opportunity} (hholds : o.holds s = true)
    (hspares : o.change.SparesTypes s) (supply : NameSupply) :
    (o.apply s supply).1.Regular ∧ s.KeepsTypes (o.apply s supply).1 ∧
      s.Tames (o.apply s supply).1 := by
  obtain ⟨hretypes, htames⟩ := retypes_apply hs hholds hspares supply
  have ht := grounded_apply hs.grounded hholds supply
  obtain ⟨hto, hstructs⟩ := owned_apply hs.grounded hs.owned hs.structs hholds supply
  have hplaced := hs.placed.of_tames htames
  have hkeeps := hretypes.keepsTypes (size_le_apply hholds supply) hs.grounded hs.owned hs.placed ht
    hto hplaced
  exact ⟨⟨ht, hto, hstructs, hplaced, namesFields_apply hs hholds hspares supply hkeeps⟩, hkeeps,
    htames⟩

/-! ## Chunks -/

/-- A change that was found does not change types, also after others that did not were tried. -/
theorem sparesTypes_of_mem_find (h : s.Grounded) (ho : s.Owned) {everywhere : Bool}
    {kinds : List OpportunityKind} {o : Opportunity} (hfind : o ∈ find s everywhere kinds)
    (ht : t.Regular) (hkeeps : s.KeepsTypes t) (htames : s.Tames t) (habridges : t.Abridges s)
    (hholds : o.holds t = true) : o.change.SparesTypes t := by
  have htyped := wellTyped_of_mem_find h ho hfind
  have hcuts := cutsNothing_of_mem_find h ho hfind
  have hmem := mem_ofKind_of_mem_find hfind
  have hget : ∀ id, t.isExprLive id = true → id.index < s.exprs.size →
      (Types.ofShader t).get? id = (Types.ofShader s).get? id := fun id hlive hlt =>
    (hkeeps.get?_eq id ((ht.owned.isLive_iff_reaches ht.grounded (.expr id)).mp hlive) hlt).2
  obtain ⟨depth, change⟩ := o
  cases change with
  | toSubExpr target child =>
      simp only [holds, SubExpr.holds, Bool.and_eq_true] at hholds
      obtain ⟨htarget, hchild, htype⟩ := htyped
      rw [Change.SparesTypes, hget target hholds.1.1 htarget, hget child hholds.1.2 hchild, htype]
  | toConstant target constant =>
      simp only [holds, Constant.holds, Bool.and_eq_true] at hholds
      obtain ⟨htarget, type, htype, hconstant⟩ := htyped
      refine ⟨type, (hget target hholds.1 htarget).trans htype, ?_⟩
      exact ownType?_node (Types.sized htype) hconstant _
  | removeDecl d =>
      obtain ⟨name, hname⟩ := hcuts.exists_name
      refine ⟨name, habridges.name?_eq hname, fun hnone => habridges.cutsNothing ?_ hcuts⟩
      rintro d' heq name' hname' ⟨kind, width, htype⟩
      cases heq
      rw [hname] at hname'
      cases hname'
      rw [hnone] at htype
      cases htype
  | removeVariable stmt block name => exact habridges.cutsNothing (fun d hd => by cases hd) hcuts
  | removeStmt block stmt =>
      refine Bool.eq_false_of_not_eq_true fun hvars => ?_
      have hnone := RemovableStmt.not_isVars_of_mem_find h ho hmem
      rw [htames.isVars hvars] at hnone
      cases hnone
  | _ => trivial

/-- What changes of one list keep if they keep types: no change of the list changes types after others
were tried. -/
theorem tryAll_invariant_of_find (hs : s.Regular) {everywhere : Bool} {kinds : List OpportunityKind}
    {os : List Opportunity} (hos : ∀ o ∈ os, o ∈ find s everywhere kinds) {motive : Shader → Prop}
    (hstart : motive s)
    (happly : ∀ t, t.Regular → motive t → ∀ o : Opportunity, o.holds t = true →
      o.change.SparesTypes t → ∀ supply, motive (o.apply t supply).1) (supply : NameSupply) :
    motive (tryAll os s supply).2.1 := by
  have h := hs.grounded
  have ho := hs.owned
  refine (tryAll_invariant
    (motive := fun t => (t.Regular ∧ s.KeepsTypes t ∧ s.Tames t ∧ t.Abridges s) ∧ motive t) ?_
    ⟨⟨hs, .refl s, .refl s, .refl s⟩, hstart⟩ supply).2
  rintro t ⟨⟨ht, hkeeps, htames, habridges⟩, hmotive⟩ o hmem hholds supply
  have hspares := sparesTypes_of_mem_find h ho (hos o hmem) ht hkeeps htames habridges hholds
  obtain ⟨hregular, hkeeps', htames'⟩ := regular_apply ht hholds hspares supply
  have hbuilds := buildsVectors_of_mem_find h ho (hos o hmem)
  exact ⟨⟨hregular, hkeeps.trans hkeeps', htames.trans htames',
    (abridges_apply ht.grounded hholds hbuilds supply).trans habridges⟩,
    happly t ht hmotive o hholds hspares supply⟩

/-- Whatever opportunities of one list were tried, in any order: where the structures of a program are
sound, all members of structures name fields, and local declarations are in blocks and in headers of
loops, every expression that is left has the type that it had, or still has none, even if its slot was
given another node. -/
theorem get?_tryAll {p : Program} (hstructs : StructsSound p.structDecls)
    (hnamed : (Shader.ofProgram p).NamesFields) (hplaced : (Shader.ofProgram p).LocalsPlaced)
    {everywhere : Bool} {kinds : List OpportunityKind} {os : List Opportunity}
    (hos : ∀ o ∈ os, o ∈ find (Shader.ofProgram p) everywhere kinds) (supply : NameSupply) {id : ExprId}
    (hid : (tryAll os (Shader.ofProgram p) supply).2.1.Reaches (.expr id))
    (hold : id.index < (Shader.ofProgram p).exprs.size) :
    (Types.ofShader (tryAll os (Shader.ofProgram p) supply).2.1).get? id =
      (Types.ofShader (Shader.ofProgram p)).get? id := by
  have hlaid := Shader.laidOut_ofProgram p
  rw [← Shader.structDecls_ofProgram] at hstructs
  have hregular : (Shader.ofProgram p).Regular :=
    ⟨hlaid.layered.grounded, hlaid.owned, hstructs, hplaced, hnamed⟩
  have hkeeps := tryAll_invariant_of_find hregular hos (motive := (Shader.ofProgram p).KeepsTypes)
    (.refl _) (fun t ht hkeeps o hholds hspares supply =>
      hkeeps.trans (regular_apply ht hholds hspares supply).2.1) supply
  exact (hkeeps.get?_eq id hid hold).2

/-- The sum of a number and of what is taken out of two synthetic structures, one in the other. -/
def nestedSum : Program :=
  let inner : Expr Unit := .node () (.call "_GLF_struct_1" [.node () (.literal (.int "2"))])
  let outer : Expr Unit := .node () (.call "_GLF_struct_2" [inner])
  let value : Expr Unit := .node () (.member (.node () (.member outer "_f1")) "_f0")
  let sum : Expr Unit := .node () (.binary .add value (.node () (.literal (.int "3"))))
  ⟨none, [.struct ⟨"_GLF_struct_1", [⟨.ofName "int", "_f0", none⟩]⟩,
    .struct ⟨"_GLF_struct_2", [⟨.ofName "_GLF_struct_1", "_f1", none⟩]⟩,
    .function ⟨.ofName "void", "f", [], some (.node () (.block [.node () (.expr sum)]))⟩]⟩

/-- The value in the sum becomes a member of the outer structure, and takes the place of the sum. -/
theorem get?_tryAll_nestedSum : StructsSound nestedSum.structDecls ∧
    (Shader.ofProgram nestedSum).NamesFields ∧ (Shader.ofProgram nestedSum).LocalsPlaced ∧
    ∃ os, (∀ o ∈ os, o ∈ find (Shader.ofProgram nestedSum) true OpportunityKind.all) ∧
      (tryAll os (Shader.ofProgram nestedSum) {}).1 = [true, true] ∧
      let t := (tryAll os (Shader.ofProgram nestedSum) {}).2.1
      t.Reaches (.expr ⟨6⟩) ∧ 6 < (Shader.ofProgram nestedSum).exprs.size ∧
        t.expr ⟨6⟩ = .member ⟨2⟩ "_f1_f0" ∧
        (Types.ofShader t).get? ⟨6⟩ = (Types.ofShader (Shader.ofProgram nestedSum)).get? ⟨6⟩ := by
  have hstructs : StructsSound nestedSum.structDecls :=
    .of_rank (fun name => if name = "_GLF_struct_2" then 2 else if name = "_GLF_struct_1" then 1 else 0)
      (by decide +kernel) (by decide +kernel)
  have hnamed : (Shader.ofProgram nestedSum).NamesFields :=
    Shader.namesFields_of_lt (by decide +kernel)
  have hplaced : (Shader.ofProgram nestedSum).LocalsPlaced :=
    Shader.localsPlaced_of_lt (by decide +kernel)
  have hmem : ∀ o kind, o ∈ ofKind (Shader.ofProgram nestedSum)
      (Analysis.ofShader (Shader.ofProgram nestedSum) true) kind →
      o ∈ find (Shader.ofProgram nestedSum) true OpportunityKind.all := fun o kind ho => by
    refine List.mem_mergeSort.mpr (List.mem_flatMap.mpr ⟨kind, ?_, ho⟩)
    cases kind <;> decide
  have hos : ∀ o ∈ [(⟨0, .inlineField ⟨1⟩ "_f1"⟩ : Opportunity), ⟨3, .toSubExpr ⟨6⟩ ⟨4⟩⟩],
      o ∈ find (Shader.ofProgram nestedSum) true OpportunityKind.all := by
    intro o ho
    simp only [List.mem_cons, List.not_mem_nil, or_false] at ho
    rcases ho with rfl | rfl
    · exact hmem _ .inlineStructifiedField (by decide +kernel)
    · exact hmem _ .compoundExprToSubExpr (by decide +kernel)
  have hfunction := Shader.Reaches.decl
    (s := (tryAll [(⟨0, .inlineField ⟨1⟩ "_f1"⟩ : Opportunity), ⟨3, .toSubExpr ⟨6⟩ ⟨4⟩⟩]
      (Shader.ofProgram nestedSum) {}).2.1) (d := ⟨2⟩) (by decide +kernel)
  have hreaches := ((hfunction.stmt (t := ⟨1⟩) (by decide +kernel)).stmt
    (t := ⟨0⟩) (by decide +kernel)).expr (e := ⟨6⟩) (by decide +kernel)
  exact ⟨hstructs, hnamed, hplaced, _, hos, by decide +kernel, hreaches, by decide +kernel,
    by decide +kernel, get?_tryAll hstructs hnamed hplaced hos {} hreaches (by decide +kernel)⟩

end Opportunity

end ShaderReducer
