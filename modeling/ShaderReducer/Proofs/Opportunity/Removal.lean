import ShaderReducer.Proofs.Opportunity.Recast
import ShaderReducer.Proofs.Opportunity.Unreferenced

/-!
# Types when a declaration is gone

A function or structure is taken away that nothing refers to, except that constructors of vectors may
be called that have its name. These are not looked up among the declarations. No expression has the
type of a structure that is not referred to, so no field of it is asked for either.
-/

namespace ShaderReducer

namespace Ty

/-- A type that is neither a structure nor an array of structures of a name. -/
def Avoids (name : String) : Ty → Prop
  | struct name' => name' ≠ name
  | array element _ => element.Avoids name
  | void | scalar _ | vector _ _ | matrix _ _ => True

theorem Avoids.of_isBasic {name : String} {type : Ty} (h : type.IsBasic) : type.Avoids name := by
  cases type with
  | struct name' => exact h.elim
  | array element size => exact h.elim
  | _ => trivial

theorem Closed.avoids (name : String) : Closed fun type => type.Sized ∧ type.Avoids name :=
  ⟨fun _ h => h.1, fun _ hsized hbasic => ⟨hsized, .of_isBasic hbasic⟩, fun _ _ h => h⟩

end Ty

namespace Shader

variable {s : Shader} {name : String}

/-- No name of a type that is not looked up elsewhere is that of a declaration, and no call. -/
def Unused (s : Shader) (name : String) : Prop :=
  Ty.ofName? name = none → ∀ d ∈ s.decls,
    ¬ s.Mentions (.call name) (.decl d) ∧ ¬ s.Mentions (.typeName name) (.decl d)

/-- No expression has the type of a structure that is not used. -/
theorem Grounded.avoids_of_unused (h : s.Grounded) (hunused : s.Unused name) {id : ExprId} {type : Ty}
    (hget : (Types.ofShader s).get? id = some type) : type.Avoids name := by
  refine (Types.admitted (Ty.Closed.avoids name) (fun typeName hmem size type hresolve => ?_)
    (fun e he sub hsub callee args hform hnone _ => ⟨trivial, ?_⟩) hget).2
  · obtain ⟨tree, htree, hmem⟩ := List.mem_flatMap.mp hmem
    obtain ⟨d, hd, rfl⟩ := List.mem_map.mp htree
    have hmention := (h.mem_typeNamesOf hd).mp hmem
    have hbase : ∀ base, ((Ty.ofName? typeName).or (if (Signatures.ofShader s).hasStruct typeName then
        some (.struct typeName) else none)) = some base → base.Sized ∧ base.Avoids name := by
      intro base hbase
      rcases Option.or_eq_some_iff.mp hbase with hbase | ⟨hnone, hbase⟩
      · exact ⟨(Ty.of_ofName? hbase).1, .of_isBasic (Ty.of_ofName? hbase).2⟩
      · split at hbase <;> cases hbase
        refine ⟨trivial, ?_⟩
        rintro rfl
        exact (hunused hnone d hd).2 hmention
    cases size with
    | none => exact hbase type hresolve
    | some n =>
        obtain ⟨base, hb, rfl⟩ := Option.map_eq_some_iff.mp hresolve
        exact hbase base hb
  · rintro rfl
    obtain ⟨v, hv, rfl⟩ := List.mem_map.mp he
    obtain ⟨tree, htree, hv⟩ := List.mem_flatMap.mp hv
    obtain ⟨d, hd, rfl⟩ := List.mem_map.mp htree
    obtain ⟨w, hw, rfl⟩ :=
      List.mem_map.mp (DeclTree.mem_exprVisits_of_mem_subexprs (List.mem_map_of_mem hv) hsub)
    refine (hunused hnone d hd).1 ?_
    refine (h.mentions_decl_of_isExpr (m := .call callee) hd trivial).mpr ⟨w, hw, ?_⟩
    rw [hform]
    exact List.mem_singleton_self _

/-! ## Declarations with a name -/

theorem filter_structs (s : Shader) (name : String) :
    (Signatures.ofShader s).structs.filter (fun decl => decl.name == name) =
      s.decls.filterMap fun d => (s.decl d).struct?.filter fun decl => decl.name == name := by
  rw [show (Signatures.ofShader s).structs = s.structDecls from rfl, structDecls_eq,
    List.filter_filterMap]

theorem functions_eq (s : Shader) : (Signatures.ofShader s).functions =
    s.decls.filterMap fun d => (s.decl d).function? := by
  rw [Signatures.ofShader, functions, List.map_filterMap]
  refine List.filterMap_congr fun d _ => ?_
  cases (s.decl d).function? <;> rfl

theorem filter_functions (s : Shader) (name : String) :
    (Signatures.ofShader s).functions.filter (fun f => f.name == name) =
      s.decls.filterMap fun d => (s.decl d).function?.filter fun f => f.name == name := by
  rw [functions_eq, List.filter_filterMap]

theorem filterMap_erase {α β : Type} [DecidableEq α] {f : α → Option β} {a : α} (ha : f a = none)
    (l : List α) : (l.erase a).filterMap f = l.filterMap f := by
  induction l with
  | nil => rfl
  | cons b l ih =>
      rw [List.erase_cons]
      split
      next heq =>
        obtain rfl : b = a := by simpa using heq
        rw [List.filterMap_cons, ha]
      next => rw [List.filterMap_cons, List.filterMap_cons, ih]

variable {gone : DeclId}

theorem sameStructs_removeDecl (s : Shader)
    (hgone : ∀ decl, s.decl gone = .struct decl → decl.name ≠ name) :
    Signatures.SameStructs (Signatures.ofShader (s.removeDecl gone).2) (Signatures.ofShader s) name := by
  rw [Signatures.SameStructs, filter_structs, filter_structs, decl_removeDecl, decls_removeDecl]
  refine filterMap_erase ?_ s.decls
  cases hdecl : s.decl gone with
  | struct decl => simpa [Decl.struct?] using hgone decl hdecl
  | _ => rfl

theorem sameFunctions_removeDecl (s : Shader)
    (hgone : ∀ f, s.decl gone = .function f → f.name ≠ name) :
    Signatures.SameFunctions (Signatures.ofShader (s.removeDecl gone).2) (Signatures.ofShader s)
      name := by
  rw [Signatures.SameFunctions, filter_functions, filter_functions, decl_removeDecl, decls_removeDecl]
  refine filterMap_erase ?_ s.decls
  cases hdecl : s.decl gone with
  | function f => simpa [Decl.function?] using hgone f hdecl
  | _ => rfl

theorem stmt_removeDecl (s : Shader) (id : DeclId) : (s.removeDecl id).2.stmt = s.stmt := by
  by_cases hid : id ∈ s.decls
  · have hcontents : ((s.dropDecl id).killContents (s.decl id)).stmt = (s.dropDecl id).stmt := by
      cases s.decl id with
      | function f =>
          rw [killContents]
          cases f.body with
          | none => rfl
          | some body => exact stmt_killStmt _ body
      | vars decl =>
          rw [killContents, killExprs_eq]
          rfl
      | _ => rfl
    rw [removeDecl_eq hid]
    exact hcontents
  · rw [removeDecl, if_neg (by simpa using hid)]

/-- A structure that nothing refers to is not used. -/
theorem unused_of_cutsNothing (hname : (s.decl gone).name? = some name)
    (hunused : Ty.ofName? name = none → Change.CutsNothing s (.removeDecl gone)) {decl : StructDecl}
    (hgone : s.decl gone = .struct decl) : s.Unused decl.name := by
  intro hnone
  rw [hgone] at hname
  obtain rfl := Option.some.inj hname
  have hcuts := hunused hnone
  rw [Change.CutsNothing, hgone] at hcuts
  exact hcuts

theorem mem_decls_of_removeDecl {d : DeclId} (hd : d ∈ (s.removeDecl gone).2.decls) : d ∈ s.decls := by
  rw [decls_removeDecl] at hd
  exact List.mem_of_mem_erase hd

/-- A name of a type that is left stands for what it stood for. -/
theorem sameType_removeDecl (hname : (s.decl gone).name? = some name)
    (hunused : Ty.ofName? name = none → Change.CutsNothing s (.removeDecl gone)) {d : DeclId}
    (hd : d ∈ (s.removeDecl gone).2.decls) {name' : String} (hm : s.Mentions (.typeName name') (.decl d)) :
    Signatures.SameType (Signatures.ofShader (s.removeDecl gone).2) (Signatures.ofShader s) name' := by
  refine Signatures.sameType_of_hasStruct_eq fun hnone =>
    (sameStructs_removeDecl s fun decl hgone heq => ?_).hasStruct_eq
  subst heq
  exact (unused_of_cutsNothing hname hunused hgone hnone d (mem_decls_of_removeDecl hd)).2 hm

theorem recast_removeDecl (hname : (s.decl gone).name? = some name)
    (hunused : Ty.ofName? name = none → Change.CutsNothing s (.removeDecl gone)) :
    s.Recast (s.removeDecl gone).2 := by
  refine ⟨stmt_removeDecl s gone, fun d => Or.inl (congrFun (decl_removeDecl s gone) d),
    Or.inr ⟨gone, decls_removeDecl s gone, fun scope => ?_⟩,
    fun d hd name' hm => sameType_removeDecl hname hunused hd hm, fun id c hc => ?_⟩
  · rw [declAfter]
    cases hgone : s.decl gone with
    | vars decl => rw [hgone] at hname; cases hname
    | _ => rfl
  · rw [expr_removeDecl] at hc
    exact ⟨lt_size_of_mem_exprParts hc, fun _ => exprBelow_of_mem hc⟩

/-- A call that is left has the type that it had. -/
theorem callType_removeDecl (hname : (s.decl gone).name? = some name)
    (hunused : Ty.ofName? name = none → Change.CutsNothing s (.removeDecl gone)) {d : DeclId}
    (hd : d ∈ s.decls) {callee : String} (hcall : s.Mentions (.call callee) (.decl d))
    (args : List (Option Ty)) :
    (Signatures.ofShader (s.removeDecl gone).2).callType callee args =
      (Signatures.ofShader s).callType callee args := by
  refine Signatures.callType_congr _
    (fun hnone => (sameStructs_removeDecl s fun decl hgone heq => ?_).hasStruct_eq)
    (fun hnone => sameFunctions_removeDecl s fun f hgone heq => ?_) fun f hf => ?_
  · subst heq
    exact (unused_of_cutsNothing hname hunused hgone hnone d hd).1 hcall
  · subst heq
    rw [hgone] at hname
    obtain rfl := Option.some.inj hname
    have hcuts := hunused hnone
    rw [Change.CutsNothing, hgone] at hcuts
    exact hcuts.2 d hd hcall
  · rw [functions_eq, decl_removeDecl] at hf
    obtain ⟨d', hd', hf⟩ := List.mem_filterMap.mp hf
    have hmention : ∀ m ∈ (Decl.function f : Decl ExprId StmtId).mentions,
        s.Mentions m (.decl d') := by
      intro m hm
      refine .here ?_
      rw [mentionsAt, Decl.function?_eq_some.mp hf]
      exact hm
    refine ⟨sameType_removeDecl hname hunused hd' (hmention _ List.mem_cons_self), fun p hp => ?_⟩
    exact sameType_removeDecl hname hunused hd'
      (hmention _ (List.mem_cons_of_mem _ (List.mem_map_of_mem hp)))

/-- A function or structure that is not used may be taken away. -/
theorem retypes_removeDecl (h : s.Grounded) (ho : s.Owned) (hplaced : s.LocalsPlaced)
    (hname : (s.decl gone).name? = some name)
    (hunused : Ty.ofName? name = none → Change.CutsNothing s (.removeDecl gone)) :
    s.Retypes (s.removeDecl gone).2 := by
  have hexpr := expr_removeDecl s gone
  refine (recast_removeDecl hname hunused).retypes (h.removeDecl gone)
    fun d scope id _ htid hid hparts => ?_
  have hd := mem_decls_of_removeDecl htid.mem_decls
  rw [hexpr] at hparts ⊢
  rw [h.typeAt_eq]
  refine Signatures.formType_congr (fun c hc => hparts c hc ?_) (fun _ _ => rfl)
    (fun callee args hform => ?_) fun base field hform type htypeAt => ?_
  · obtain ⟨rank, hr⟩ := h.exprs
    exact (hr.falls id c hc).1
  · refine callType_removeDecl hname hunused hd (hid.mentions (.here ?_)) _
    rw [mentionsAt, hform]
    exact List.mem_singleton_self _
  · cases type with
    | struct name' =>
        have hget : (Types.ofShader s).get? base = some (.struct name') := by
          rw [(Scoped.part hid (by simp [hform, ExprNode.children])).get?_eq h ho hplaced, htypeAt]
        refine (sameStructs_removeDecl s fun decl hgone heq => ?_).fieldType_eq
          (fun decl hmem member hmember => ?_) field
        · exact h.avoids_of_unused (unused_of_cutsNothing hname hunused hgone) hget heq.symm
        · obtain ⟨d', hd', hnode⟩ := mem_structDecls.mp hmem
          refine sameType_removeDecl hname hunused hd' (.here ?_)
          rw [mentionsAt, ← decl_removeDecl, hnode]
          exact List.mem_map_of_mem hmember
    | _ => rfl

end Shader

end ShaderReducer
