import ShaderReducer.Proofs.Opportunity.Abridged
import ShaderReducer.Proofs.Opportunity.Found

/-!
# Removals and references

A declaration is only found where nothing refers to it, and a variable where its function does not
name it. Other changes of the same list come before a removal; as they mention nothing anew but
constructors of vectors, and types that were named elsewhere, there is still no reference when the
removal is made.
-/

namespace ShaderReducer

/-- The name of a function or structure. -/
def Decl.name? {ρ σ : Type} : Decl ρ σ → Option String
  | .function decl => some decl.name
  | .struct decl => some decl.name
  | .directive _ | .precision _ _ | .vars _ => none

@[simp] theorem Decl.name?_map {ρ σ ρ' σ' : Type} (f : ρ → ρ') (g : σ → σ') (d : Decl ρ σ) :
    (d.map f g).name? = d.name? := by
  cases d <;> rfl

theorem Decl.not_namesVector {ρ σ : Type} {ds : List (Decl ρ σ)}
    (h : ∀ d ∈ ds, d.name?.bind Ty.ofName? = none) :
    ∀ d ∈ ds, ∀ name, d.name? = some name → ¬ Ty.NamesVector name := by
  rintro d hd name hname ⟨kind, width, htype⟩
  have hnone := h d hd
  rw [hname, Option.bind_some, htype] at hnone
  cases hnone

/-- Nothing in a shader refers to what a change removes. No function that is removed is called or is
the entry point; no structure is constructed or is the type of anything that is declared; and no
variable is named by the function that it is declared in. -/
def Change.CutsNothing (s : Shader) : Change → Prop
  | .removeDecl d => match s.decl d with
    | .function decl => decl.name ≠ "main" ∧
        ∀ d' ∈ s.decls, ¬ s.Mentions (.call decl.name) (.decl d')
    | .struct decl => ∀ d' ∈ s.decls, ¬ s.Mentions (.call decl.name) (.decl d') ∧
        ¬ s.Mentions (.typeName decl.name) (.decl d')
    | .directive _ | .precision _ _ | .vars _ => False
  | .removeVariable stmt _ name => ∀ d ∈ s.decls, s.Mentions (.stmt stmt) (.decl d) →
      ¬ s.Mentions (.identifier name) (.decl d)
  | .toSubExpr _ _ | .toConstant _ _ | .inlineField _ _ | .removeStmt _ _ | .unwrap _ _ _ => True

theorem Change.CutsNothing.exists_name {s : Shader} {d : DeclId}
    (h : Change.CutsNothing s (.removeDecl d)) : ∃ name, (s.decl d).name? = some name := by
  rw [CutsNothing] at h
  cases hdecl : s.decl d with
  | function decl => exact ⟨decl.name, rfl⟩
  | struct decl => exact ⟨decl.name, rfl⟩
  | _ => rw [hdecl] at h; exact h.elim

namespace Shader

variable {s t : Shader}

/-- A statement is in one declaration. -/
theorem Owned.eq_of_mentions_stmt (h : s.Grounded) (ho : s.Owned) {d d' : DeclId} (hd : d ∈ s.decls)
    (hd' : d' ∈ s.decls) {id : StmtId} (hm : s.Mentions (.stmt id) (.decl d))
    (hm' : s.Mentions (.stmt id) (.decl d')) : d = d' := by
  have hnodup : (s.stmtVisits.map fun v => v.2.tag).Nodup := by
    rw [← Multiset.coe_nodup, ho.coe_stmtVisits h]
    exact nodup_liveStmts s
  rw [stmtVisits, declTrees, List.flatMap_map, List.map_flatMap, List.nodup_flatMap] at hnodup
  by_contra hne
  have hsymm : Std.Symm (Function.onFun List.Disjoint fun d =>
      (s.declTree d).stmtVisits.map fun v => v.2.tag) := ⟨fun _ _ => List.Disjoint.symm⟩
  have hdisjoint := hnodup.2.forall hd hd' hne
  rw [← h.mem_stmtVisits, List.map_map] at hm hm'
  exact hdisjoint hm hm'

/-- Functions and structures keep their names. -/
theorem Abridges.name?_eq (h : t.Abridges s) {d : DeclId} {name : String}
    (hname : (s.decl d).name? = some name) : (t.decl d).name? = some name := by
  cases hdecl : s.decl d with
  | function decl => rw [(h.function_iff d decl).mpr hdecl, ← hdecl, hname]
  | struct decl =>
      have hstruct := h.structName_eq d
      rw [hdecl] at hstruct hname
      obtain ⟨decl', hstruct, heq⟩ := Option.map_eq_some_iff.mp hstruct
      rw [Decl.struct?_eq_some.mp hstruct, Decl.name?, heq]
      exact hname
  | _ => rw [hdecl] at hname; cases hname

/-- A shader that abridges another has no reference that the other has not. -/
theorem Abridges.cutsNothing (h : t.Abridges s) {change : Change}
    (hvector : ∀ d, change = .removeDecl d → ∀ name, (s.decl d).name? = some name →
      ¬ Ty.NamesVector name) (hcuts : change.CutsNothing s) :
    change.CutsNothing t := by
  have hmentions : ∀ m d, d ∈ t.decls → t.Mentions m (.decl d) → ¬ m.IsVectorCall →
      ∃ d' ∈ s.decls, s.Mentions m (.decl d') := by
    intro m d hd hm hother
    obtain hm | hm | ⟨-, hm⟩ := h.mentions _ m hm
    · exact ⟨d, h.decls hd, hm⟩
    · exact absurd hm hother
    · exact hm
  cases change with
  | removeDecl d =>
      rw [Change.CutsNothing] at hcuts
      split at hcuts
      next decl hdecl =>
        rw [Change.CutsNothing, (h.function_iff d decl).mpr hdecl]
        have hother := hvector d rfl decl.name (by rw [hdecl]; rfl)
        refine ⟨hcuts.1, fun d' hd' hm => ?_⟩
        obtain ⟨d'', hd'', hm⟩ := hmentions _ d' hd' hm hother
        exact hcuts.2 d'' hd'' hm
      next decl hdecl =>
        have hname := h.structName_eq d
        rw [hdecl] at hname
        obtain ⟨decl', hstruct, heq⟩ := Option.map_eq_some_iff.mp hname
        rw [Change.CutsNothing, Decl.struct?_eq_some.mp hstruct]
        dsimp only
        rw [heq]
        have hother := hvector d rfl decl.name (by rw [hdecl]; rfl)
        refine fun d' hd' => ⟨fun hm => ?_, fun hm => ?_⟩
        · obtain ⟨d'', hd'', hm⟩ := hmentions _ d' hd' hm hother
          exact (hcuts d'' hd'').1 hm
        · obtain ⟨d'', hd'', hm⟩ := hmentions _ d' hd' hm id
          exact (hcuts d'' hd'').2 hm
      next => exact hcuts.elim
      next => exact hcuts.elim
      next => exact hcuts.elim
  | removeVariable stmt block name =>
      intro d hd hstmt hname
      have hold : ∀ m : Mention, t.Mentions m (.decl d) → ¬ m.IsVectorCall → ¬ m.IsTypeName →
          s.Mentions m (.decl d) := fun m hm hcall htype =>
        (h.mentions _ m hm).resolve_right fun hc => hc.elim hcall fun hc => htype hc.1
      exact hcuts d (h.decls hd) (hold _ hstmt id id) (hold _ hname id id)
  | _ => trivial

end Shader

variable {s : Shader}

theorem NameUses.identUsesIn_of_mem {d : DeclId} (hd : d ∈ s.decls) (name : String) :
    (ofShader s).identUsesIn d name = (identifiersOf (s.declTree d)).count name := by
  have hlookup : ∀ ds : List DeclId, d ∈ ds →
      (ds.map fun id => (id, identifiersOf (s.declTree id))).lookup d =
        some (identifiersOf (s.declTree d)) := by
    intro ds hds
    induction ds with
    | nil => cases hds
    | cons d' ds ih =>
        rw [List.map_cons, List.lookup_cons]
        by_cases heq : d = d'
        · rw [heq, beq_self_eq_true]
        · rw [beq_false_of_ne heq]
          exact ih ((List.mem_cons.mp hds).resolve_left heq)
  rw [identUsesIn, ofShader]
  dsimp only
  rw [hlookup s.decls hd]

/-- A declaration that is directly in a statement of a function is in the function. -/
theorem UnusedVariable.mentions_of_mem_localDecls (h : s.Grounded) {d : DeclId}
    {decl : FunctionDecl StmtId} {body : Stmt ExprId StmtId} (hf : (d, decl, body) ∈ s.bodies)
    {v : Nat × Stmt ExprId StmtId} (hv : v ∈ body.visits 1) {t : Stmt ExprId StmtId}
    {block : Option StmtId} (ht : (t, block) ∈ localDecls v.2) :
    d ∈ s.decls ∧ s.decl d = .function decl ∧ s.Mentions (.stmt t.tag) (.decl d) := by
  obtain ⟨⟨d', decl'⟩, hdecl, hbody⟩ := List.mem_filterMap.mp hf
  obtain ⟨root, hroot, heq⟩ := Option.map_eq_some_iff.mp hbody
  cases heq
  obtain ⟨hd, hnode⟩ := Shader.mem_functions.mp hdecl
  refine ⟨hd, hnode, h.mentions_decl.mpr (Or.inr (Or.inl ⟨t.tag, ?_, List.mem_cons_self⟩))⟩
  obtain ⟨depth, id, form⟩ := v
  have hparent : .node id form ∈ (s.stmtTree root).substmts := by
    rw [← Stmt.map_snd_visits 1]
    exact List.mem_map_of_mem hv
  have hchild : t ∈ (Stmt.node id form).substmts := by
    rw [Stmt.substmts_node]
    exact List.mem_cons_of_mem _
      (List.mem_flatMap.mpr ⟨t, mem_childStmts ht, Stmt.mem_substmts_self t⟩)
  refine List.mem_flatMap.mpr ⟨root, by rw [hnode, Decl.bodies, hroot]; exact List.mem_cons_self, ?_⟩
  rw [Shader.stmtSlots_eq_map]
  exact List.mem_map_of_mem (Stmt.mem_substmts_trans hparent hchild)

namespace Opportunity

/-- Nothing refers to what is found to be removable where it is found. -/
theorem cutsNothing_of_mem_find (h : s.Grounded) (ho : s.Owned) {everywhere : Bool}
    {kinds : List OpportunityKind} {o : Opportunity} (hfind : o ∈ find s everywhere kinds) :
    o.change.CutsNothing s := by
  have hmem := mem_ofKind_of_mem_find hfind
  obtain ⟨depth, change⟩ := o
  cases change with
  | removeDecl d =>
      obtain ⟨d, hd, heq⟩ := List.mem_map.mp hmem
      cases heq
      have hunused : UnusedDecl.isUnused (NameUses.ofShader s) (s.decl d) = true :=
        (List.mem_filter.mp hd).2
      have hcall : ∀ name, (NameUses.ofShader s).calls name = 0 → ∀ d' ∈ s.decls,
          ¬ s.Mentions (.call name) (.decl d') := fun name hname d' hd' hm =>
        List.count_eq_zero.mp hname (h.mem_called.mpr ⟨d', hd', hm⟩)
      have htype : ∀ name, (NameUses.ofShader s).typeRefs name = 0 → ∀ d' ∈ s.decls,
          ¬ s.Mentions (.typeName name) (.decl d') := fun name hname d' hd' hm =>
        List.count_eq_zero.mp hname (List.mem_flatMap.mpr
          ⟨s.declTree d', List.mem_map_of_mem hd', (h.mem_typeNamesOf hd').mpr hm⟩)
      cases hdecl : s.decl d with
      | function decl =>
          simp only [UnusedDecl.isUnused, hdecl, Bool.and_eq_true, bne_iff_ne, beq_iff_eq] at hunused
          rw [Change.CutsNothing, hdecl]
          exact ⟨hunused.1, hcall _ hunused.2⟩
      | struct decl =>
          simp only [UnusedDecl.isUnused, hdecl, Bool.and_eq_true, beq_iff_eq] at hunused
          rw [Change.CutsNothing, hdecl]
          exact fun d' hd' => ⟨hcall _ hunused.1 d' hd', htype _ hunused.2 d' hd'⟩
      | _ => simp [UnusedDecl.isUnused, hdecl] at hunused
  | removeVariable stmt block name =>
      obtain ⟨⟨function, decl, body⟩, hf, hmem⟩ := List.mem_flatMap.mp hmem
      obtain ⟨⟨depth, id, form⟩, hv, hmem⟩ := List.mem_flatMap.mp hmem
      obtain ⟨⟨t, block⟩, ht, hmem⟩ := List.mem_flatMap.mp hmem
      dsimp only at hmem
      split at hmem
      next vars hvars =>
        obtain ⟨var, hvar, heq⟩ := List.mem_map.mp hmem
        cases heq
        obtain ⟨hfunction, hdecl, hin⟩ := UnusedVariable.mentions_of_mem_localDecls h hf hv ht
        have hfree := (List.mem_filter.mp hvar).2
        simp only [UnusedVariable.isRemovable, Bool.and_eq_true, beq_iff_eq] at hfree
        intro d hd hstmt hname
        obtain rfl := ho.eq_of_mentions_stmt h hd hfunction hstmt hin
        have huses : (NameUses.ofShader s).identUsesIn d var.name = 0 := hfree.1
        rw [NameUses.identUsesIn_of_mem hd, List.count_eq_zero] at huses
        exact huses ((h.mem_identifiersOf hd hdecl).mpr hname)
      next => cases hmem
  | _ => trivial

/-- Where no function or structure of a program is named like a vector type, no change that was found
in it ever removes what is referred to, whichever changes of the list were tried before, and in which
order. -/
theorem cutsNothing_of_tryAll {p : Program}
    (hnames : ∀ d ∈ p.decls, ∀ name, d.name? = some name → ¬ Ty.NamesVector name) {everywhere : Bool}
    {kinds : List OpportunityKind} {os : List Opportunity}
    (hos : ∀ o ∈ os, o ∈ find (Shader.ofProgram p) everywhere kinds) (supply : NameSupply)
    {o : Opportunity} (ho : o ∈ find (Shader.ofProgram p) everywhere kinds) :
    o.change.CutsNothing (tryAll os (Shader.ofProgram p) supply).2.1 := by
  have hlaid := Shader.laidOut_ofProgram p
  have hgrounded := hlaid.layered.grounded
  set s := Shader.ofProgram p with hs
  have hbuilds : ∀ o ∈ os, o.change.BuildsVectors := fun o ho =>
    buildsVectors_of_mem_find hgrounded hlaid.owned (hos o ho)
  refine (abridges_tryAll hgrounded hbuilds supply).2.cutsNothing (fun d hd name hname => ?_)
    (cutsNothing_of_mem_find hgrounded hlaid.owned ho)
  have hholds := holds_of_mem_find hgrounded hlaid.owned ho
  simp only [holds, hd, Shader.isDeclLive, Bool.and_eq_true, List.contains_iff_mem] at hholds
  refine hnames ((s.declTree d).erase) ?_ name ?_
  · rw [← Shader.toProgram_ofProgram p, ← hs, Shader.toProgram, Shader.declTrees, List.map_map]
    exact List.mem_map_of_mem hholds.2
  · rw [DeclTree.erase, Shader.declTree, Decl.name?_map, Decl.name?_map, hname]

/-- A function that is not called, with a vector that nothing reads. -/
def idleVector : Program :=
  let value : Expr Unit := .node () (.call "vec2" [.node () (.literal (.float "0.0"))])
  let decl : Stmt Unit Unit := .node () (.vars ⟨.ofName "vec2", [⟨"v", none, some value⟩]⟩)
  ⟨none, [.function ⟨.ofName "void", "f", [], some (.node () (.block [decl]))⟩,
    .function ⟨.ofName "void", "main", [], some (.node () (.block []))⟩]⟩

/-- The vector is replaced by another one, the variable that holds it is taken away, and the function
still is not called when its turn comes. -/
theorem cutsNothing_idleVector : ∃ os o,
    (∀ d ∈ idleVector.decls, ∀ name, d.name? = some name → ¬ Ty.NamesVector name) ∧
      (∀ o ∈ os, o ∈ find (Shader.ofProgram idleVector) false OpportunityKind.all) ∧
      o ∈ find (Shader.ofProgram idleVector) false OpportunityKind.all ∧
      o.change = .removeDecl ⟨0⟩ ∧ (tryAll os (Shader.ofProgram idleVector) {}).1 = [true, true] ∧
      o.holds (tryAll os (Shader.ofProgram idleVector) {}).2.1 = true ∧
      o.change.CutsNothing (tryAll os (Shader.ofProgram idleVector) {}).2.1 := by
  have hnames : ∀ d ∈ idleVector.decls, ∀ name, d.name? = some name → ¬ Ty.NamesVector name :=
    Decl.not_namesVector (by decide)
  have hmem : ∀ o kind, o ∈ ofKind (Shader.ofProgram idleVector)
      (Analysis.ofShader (Shader.ofProgram idleVector) false) kind →
      o ∈ find (Shader.ofProgram idleVector) false OpportunityKind.all := fun o kind ho => by
    refine List.mem_mergeSort.mpr (List.mem_flatMap.mpr ⟨kind, ?_, ho⟩)
    cases kind <;> decide
  have hos : ∀ o ∈ [(⟨3, .toConstant ⟨1⟩ (.vector "vec2" (.float "1.0"))⟩ : Opportunity),
      ⟨2, .removeVariable ⟨0⟩ (some ⟨1⟩) "v"⟩],
      o ∈ find (Shader.ofProgram idleVector) false OpportunityKind.all := by
    intro o ho
    simp only [List.mem_cons, List.not_mem_nil, or_false] at ho
    rcases ho with rfl | rfl
    · exact hmem _ .exprToConstant (by decide +kernel)
    · exact hmem _ .removeVariable (by decide +kernel)
  have ho := hmem ⟨0, .removeDecl ⟨0⟩⟩ .removeDeclaration (by decide)
  exact ⟨_, _, hnames, hos, ho, rfl, by decide, by decide,
    cutsNothing_of_tryAll hnames hos {} ho⟩

/-- A structure with the name of the entry point, and one that a precision is set for. -/
def namedMain : Program :=
  ⟨none, [.struct ⟨"main", [⟨.ofName "int", "a", none⟩]⟩,
    .struct ⟨"S", [⟨.ofName "int", "b", none⟩]⟩, .precision .high "S"]⟩

/-- The name of the entry point keeps functions only, and the setting of a precision does not count as
a use of a type: both structures may be taken away. -/
theorem removable_namedMain :
    (∀ d ∈ namedMain.decls, ∀ name, d.name? = some name → ¬ Ty.NamesVector name) ∧
      (∀ i < 2, ⟨0, .removeDecl ⟨i⟩⟩ ∈
          find (Shader.ofProgram namedMain) true [.removeDeclaration] ∧
        holds ⟨0, .removeDecl ⟨i⟩⟩ (Shader.ofProgram namedMain) = true) ∧
      ((Shader.ofProgram namedMain).decl ⟨0⟩).name? = some "main" ∧
      ((Shader.ofProgram namedMain).decl ⟨1⟩).name? = some "S" ∧
      (Shader.ofProgram namedMain).decls = [⟨0⟩, ⟨1⟩, ⟨2⟩] ∧
      (Shader.ofProgram namedMain).decl ⟨2⟩ = .precision .high "S" := by
  refine ⟨Decl.not_namesVector (by decide), fun i hi => ⟨?_, ?_⟩, by decide,
    by decide, by decide, by decide⟩
  · refine List.mem_mergeSort.mpr (List.mem_flatMap.mpr ⟨.removeDeclaration, by decide, ?_⟩)
    have hfound : ∀ i < 2, ⟨0, .removeDecl ⟨i⟩⟩ ∈ UnusedDecl.find (Shader.ofProgram namedMain)
      (Analysis.ofShader (Shader.ofProgram namedMain) true) := by decide
    exact hfound i hi
  · have hholds : ∀ i < 2, holds ⟨0, .removeDecl ⟨i⟩⟩ (Shader.ofProgram namedMain) = true := by
      decide
    exact hholds i hi

end Opportunity

end ShaderReducer
