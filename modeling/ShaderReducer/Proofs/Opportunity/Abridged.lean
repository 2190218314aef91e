import ShaderReducer.Proofs.Opportunity.Reached
import ShaderReducer.Proofs.Opportunity.Rewrites
import ShaderReducer.Proofs.Opportunity.WellTyped
import ShaderReducer.Proofs.Shader.Mentions

/-!
# What changes mention

No change mentions anything anew, with two exceptions. A constant may be a vector, which calls the
constructor of a vector type; and a structure that another one is inlined in gets the fields of that
one, with the types that they were declared with.
-/

namespace ShaderReducer

/-- A name of a vector type. -/
def Ty.NamesVector (name : String) : Prop :=
  ∃ kind width, Ty.ofName? name = some (.vector kind width)

/-- A call of the constructor of a vector type. -/
def Mention.IsVectorCall : Mention → Prop
  | call name => Ty.NamesVector name
  | identifier _ | typeName _ | stmt _ => False

/-- A name of a type. -/
def Mention.IsTypeName : Mention → Prop
  | typeName _ => True
  | call _ | identifier _ | stmt _ => False

namespace Shader

variable {r s t : Shader} {m : Mention} {n : NodeId}

/-- What a node of a shader may mention after a change: what it did before, a call of a vector
constructor, and the types that the shader named anywhere. -/
def Allows (s : Shader) (m : Mention) (n : NodeId) : Prop :=
  s.Mentions m n ∨ m.IsVectorCall ∨ m.IsTypeName ∧ ∃ d ∈ s.decls, s.Mentions m (.decl d)

/-- A shader with some of the declarations of another, in which no node mentions more than it may.
Functions keep their heads, and structures their names. -/
structure Abridges (t s : Shader) : Prop where
  decls : t.decls ⊆ s.decls
  function_iff : ∀ d f, t.decl d = .function f ↔ s.decl d = .function f
  structName_eq : ∀ d,
    (t.decl d).struct?.map StructDecl.name = (s.decl d).struct?.map StructDecl.name
  mentions : ∀ n m, t.Mentions m n → s.Allows m n

theorem Abridges.refl (s : Shader) : s.Abridges s :=
  ⟨fun _ => id, fun _ _ => Iff.rfl, fun _ => rfl, fun _ _ => Or.inl⟩

theorem Abridges.trans (h : t.Abridges s) (h' : s.Abridges r) : t.Abridges r := by
  refine ⟨List.Subset.trans h.decls h'.decls, fun d f => (h.function_iff d f).trans (h'.function_iff d f),
    fun d => (h.structName_eq d).trans (h'.structName_eq d), fun n m hm => ?_⟩
  rcases h.mentions n m hm with hm | hvector | ⟨htype, d, hd, hm⟩
  · exact h'.mentions n m hm
  · exact Or.inr (Or.inl hvector)
  · rcases h'.mentions _ m hm with hm | hallowed
    · exact Or.inr (Or.inr ⟨htype, d, h'.decls hd, hm⟩)
    · exact Or.inr hallowed

theorem Abridges.exists_structDecl (h : t.Abridges s) {decl : StructDecl} (hdecl : decl ∈ t.structDecls) :
    ∃ decl' ∈ s.structDecls, decl'.name = decl.name := by
  obtain ⟨d, hd, hstruct⟩ := mem_structDecls.mp hdecl
  have hname := h.structName_eq d
  rw [hstruct] at hname
  obtain ⟨decl', hstruct', heq⟩ := Option.map_eq_some_iff.mp hname.symm
  exact ⟨decl', mem_structDecls.mpr ⟨d, h.decls hd, Decl.struct?_eq_some.mp hstruct'⟩, heq⟩

/-! ## One node -/

/-- A node of a shader mentions by itself what it may, and names nodes that may mention no more than
it. -/
structure Keeps (s t : Shader) (n : NodeId) : Prop where
  here : ∀ m ∈ t.mentionsAt n, s.Allows m n
  stmts : ∀ u ∈ t.stmtsIn n, ∀ m, s.Allows m (.stmt u) → s.Allows m n
  exprs : ∀ e ∈ t.exprsIn n, ∀ m, s.Allows m (.expr e) → s.Allows m n

theorem Allows.of_mem_stmtsIn {u : StmtId} (hu : u ∈ s.stmtsIn n) (h : s.Allows m (.stmt u)) :
    s.Allows m n :=
  h.imp_left (.inStmt hu)

theorem Allows.of_mem_exprsIn {e : ExprId} (he : e ∈ s.exprsIn n) (h : s.Allows m (.expr e)) :
    s.Allows m n :=
  h.imp_left (.inExpr he)

/-- A node that mentions and names no more than before. -/
theorem keeps_of_subset (hhere : t.mentionsAt n ⊆ s.mentionsAt n) (hstmts : t.stmtsIn n ⊆ s.stmtsIn n)
    (hexprs : t.exprsIn n ⊆ s.exprsIn n) : s.Keeps t n where
  here _ hm := Or.inl (.here (hhere hm))
  stmts _ hu _ := .of_mem_stmtsIn (hstmts hu)
  exprs _ he _ := .of_mem_exprsIn (hexprs he)

/-- Where all nodes mention by themselves what they may, they do so with all that is below them. -/
theorem allows_of_keeps (h : ∀ n, s.Keeps t n) (hm : t.Mentions m n) : s.Allows m n := by
  induction hm with
  | here hm => exact (h _).here m hm
  | inStmt hu _ ih => exact (h _).stmts _ hu m ih
  | inExpr he _ ih => exact (h _).exprs _ he m ih

theorem keeps_decl_of_eq {d : DeclId} (h : t.decl d = s.decl d) : s.Keeps t (.decl d) := by
  refine keeps_of_subset ?_ ?_ ?_
  · rw [mentionsAt, h]
    exact List.Subset.refl _
  · rw [stmtsIn, h]
    exact List.Subset.refl _
  · rw [exprsIn, h]
    exact List.Subset.refl _

theorem keeps_stmt_of_eq {id : StmtId} (h : t.stmt id = s.stmt id) : s.Keeps t (.stmt id) := by
  refine keeps_of_subset ?_ ?_ ?_
  · rw [mentionsAt, h]
    exact List.Subset.refl _
  · rw [stmtsIn, h]
    exact List.Subset.refl _
  · rw [exprsIn, h]
    exact List.Subset.refl _

theorem keeps_expr_of_eq {id : ExprId} (h : t.expr id = s.expr id) : s.Keeps t (.expr id) := by
  refine keeps_of_subset ?_ (List.Subset.refl _) ?_
  · rw [mentionsAt, h]
    exact List.Subset.refl _
  · rw [exprsIn, h]
    exact List.Subset.refl _

/-- A change of statements and expressions abridges a shader if it does so node by node. -/
theorem abridges_of_keeps (hdecls : t.decls ⊆ s.decls) (hdecl : t.decl = s.decl)
    (hstmts : ∀ id, s.Keeps t (.stmt id)) (hexprs : ∀ id, s.Keeps t (.expr id)) : t.Abridges s := by
  refine ⟨hdecls, fun d f => by rw [hdecl], fun d => by rw [hdecl], fun n m => allows_of_keeps ?_⟩
  intro n
  cases n with
  | decl d => exact keeps_decl_of_eq (by rw [hdecl])
  | stmt id => exact hstmts id
  | expr id => exact hexprs id

/-- An expression is given another node, which mentions what it may. -/
theorem keeps_setExpr {u : Shader} (hu : ∀ id, s.Keeps u (.expr id)) (ids : List ExprId)
    {target : ExprId} {node : ExprNode ExprId} (hhere : ∀ m ∈ node.mentions, s.Allows m (.expr target))
    (hparts : ∀ c ∈ node.children, ∀ m, s.Allows m (.expr c) → s.Allows m (.expr target))
    (id : ExprId) : s.Keeps ((u.forgetExprs ids).setExpr target node) (.expr id) := by
  have hnode := expr_setExpr (u.forgetExprs ids) target id node
  rw [expr_forgetExprs] at hnode
  split at hnode
  next hid =>
    refine ⟨?_, nofun, ?_⟩
    · rw [mentionsAt, hnode, ← hid.1]
      exact hhere
    · rw [exprsIn, hnode, ← hid.1]
      exact hparts
  next =>
    have hsame := hu id
    refine ⟨?_, nofun, ?_⟩
    · rw [mentionsAt, hnode]
      exact hsame.here
    · rw [exprsIn, hnode]
      exact hsame.exprs

theorem keeps_self (s : Shader) (n : NodeId) : s.Keeps s n :=
  keeps_of_subset (List.Subset.refl _) (List.Subset.refl _) (List.Subset.refl _)

theorem abridges_setExpr (ids : List ExprId) {target : ExprId} {node : ExprNode ExprId}
    (hhere : ∀ m ∈ node.mentions, s.Allows m (.expr target))
    (hparts : ∀ c ∈ node.children, ∀ m, s.Allows m (.expr c) → s.Allows m (.expr target)) :
    ((s.forgetExprs ids).setExpr target node).Abridges s :=
  abridges_of_keeps (List.Subset.refl _) rfl (fun _ => keeps_stmt_of_eq rfl)
    (keeps_setExpr (fun id => s.keeps_self (.expr id)) ids hhere hparts)

/-- A shader with the same nodes, some of which are marked dead. -/
theorem Abridges.of_eq {u : Shader} (h : u.Abridges s) (hdecls : t.decls ⊆ u.decls)
    (hdecl : t.decl = u.decl) (hstmt : t.stmt = u.stmt) (hexpr : t.expr = u.expr) : t.Abridges s :=
  (abridges_of_keeps hdecls hdecl (fun _ => keeps_stmt_of_eq (by rw [hstmt]))
    fun _ => keeps_expr_of_eq (by rw [hexpr])).trans h

/-- A statement is given another node, whose parts were below it. -/
theorem abridges_setStmt {target : StmtId} {node : StmtNode ExprId StmtId}
    (hhere : node.mentions ⊆ (s.stmt target).mentions)
    (hstmts : ∀ u ∈ node.childStmts, s.StmtBelow target u)
    (hexprs : node.childExprs ⊆ (s.stmt target).childExprs) :
    (s.setStmt target node).Abridges s := by
  refine abridges_of_keeps (List.Subset.refl _) rfl (fun id => ?_) fun _ => keeps_expr_of_eq rfl
  have hnode := stmt_setStmt s target id node
  split at hnode
  next hid =>
    obtain ⟨rfl, -⟩ := hid
    refine ⟨fun m hm => ?_, fun u hu m => ?_, fun e he m => ?_⟩
    · rw [mentionsAt, hnode] at hm
      refine Or.inl (.here (List.mem_cons.mpr ?_))
      exact (List.mem_cons.mp hm).imp_right fun hm => hhere hm
    · rw [stmtsIn, hnode] at hu
      exact Or.imp_left (Mentions.of_stmtBelow (hstmts u hu))
    · rw [exprsIn, hnode] at he
      exact .of_mem_exprsIn (hexprs he)
  next => exact keeps_stmt_of_eq hnode

theorem abridges_removeFromBlock (s : Shader) (block stmt : StmtId) :
    (s.removeFromBlock block stmt).2.Abridges s := by
  rw [removeFromBlock]
  split
  next body hb =>
    split
    next =>
      have hset : (s.setStmt block (.block (body.erase stmt))).Abridges s := by
        refine abridges_setStmt (List.nil_subset _) (fun u hu => stmtBelow_of_mem ?_)
          (List.nil_subset _)
        rw [stmtParts, hb]
        exact List.mem_of_mem_erase hu
      refine hset.of_eq (List.Subset.refl _) rfl ?_ ?_
      · rw [killStmt, stmt_forgetStmts, stmt_forgetExprs]
      · rw [killStmt, expr_forgetStmts, expr_forgetExprs]
    next => exact .refl s
  next => exact .refl s

theorem abridges_removeDecl (s : Shader) (id : DeclId) : (s.removeDecl id).2.Abridges s := by
  by_cases hid : id ∈ s.decls
  · have hdropped : (s.dropDecl id).Abridges s := (Abridges.refl s).of_eq List.erase_subset rfl rfl rfl
    have hkilled : ((s.dropDecl id).killContents (s.decl id)).Abridges (s.dropDecl id) := by
      generalize s.dropDecl id = u
      cases s.decl id with
      | function f =>
          rw [killContents]
          cases f.body with
          | none => exact .refl u
          | some body =>
              refine (Abridges.refl u).of_eq (List.Subset.refl _) rfl ?_ ?_
              · rw [Option.elim, killStmt, stmt_forgetStmts, stmt_forgetExprs]
              · rw [Option.elim, killStmt, expr_forgetStmts, expr_forgetExprs]
      | vars decl =>
          rw [killContents, killExprs_eq]
          exact (Abridges.refl u).of_eq (List.Subset.refl _) rfl rfl (expr_forgetExprs u _)
      | _ => exact .refl u
    have hnodes : ((s.dropDecl id).killContents (s.decl id)).decl = s.decl := by
      funext d
      rw [decl, (killContents_decls _ _).2]
      rfl
    have heq := removeDecl_eq hid
    refine (hkilled.trans hdropped).of_eq (by rw [heq]; exact List.Subset.refl _)
      ((decl_removeDecl s id).trans hnodes.symm) (by rw [heq]; rfl) (by rw [heq]; rfl)
  · rw [removeDecl, if_neg (by simpa using hid)]
    exact .refl s

end Shader

/-! ## Constants and variables -/

namespace Constant

variable {s : Shader}

theorem abridges_apply (target : ExprId) {constant : Constant}
    (hvector : ∀ constructor element, constant = .vector constructor element →
      (Mention.call constructor).IsVectorCall) : (apply s target constant).Abridges s := by
  cases constant with
  | scalar value =>
      rw [apply, Shader.replaceWithLeaf_eq]
      exact Shader.abridges_setExpr _ (List.forall_mem_nil _) (List.forall_mem_nil _)
  | vector constructor element =>
      set u := (s.addExpr (.literal element)).2 with hu
      set arg := (s.addExpr (.literal element)).1
      have hliteral : u.expr arg = .literal element := Shader.expr_addExpr_self s _
      have hadded : u.Abridges s := by
        refine Shader.abridges_of_keeps (List.Subset.refl _) rfl
          (fun _ => Shader.keeps_stmt_of_eq rfl) fun id => ?_
        have hnode := Shader.expr_addExpr s (.literal element) id
        rw [← hu] at hnode
        split at hnode
        next =>
          refine ⟨?_, List.forall_mem_nil _, ?_⟩
          · rw [Shader.mentionsAt, hnode]
            exact List.forall_mem_nil _
          · rw [Shader.exprsIn, hnode]
            exact List.forall_mem_nil _
        next => exact Shader.keeps_expr_of_eq hnode
      have harg : ∀ m, ¬ u.Mentions m (.expr arg) := by
        intro m hm
        cases hm with
        | here hm =>
            rw [Shader.mentionsAt, hliteral] at hm
            cases hm
        | inStmt ht => cases ht
        | inExpr he =>
            rw [Shader.exprsIn, hliteral] at he
            cases he
      rw [apply_vector, Shader.replaceWithLeaf_eq]
      refine Shader.Abridges.trans (Shader.abridges_setExpr _ ?_ ?_) hadded
      · intro m hm
        rw [List.mem_singleton.mp hm]
        exact Or.inr (Or.inl (hvector _ _ rfl))
      · intro c hc m hm
        rw [List.mem_singleton.mp hc] at hm
        exact Or.inr (hm.resolve_left (harg m))

end Constant

namespace UnusedVariable

variable {s : Shader}

theorem abridges_apply {stmt : StmtId} {block : Option StmtId} {name : String}
    (hholds : holds s stmt block name = true) : (apply s stmt block name).Abridges s := by
  obtain ⟨-, ⟨decl, removed, hd, hr⟩, -⟩ := eq_vars_of_holds hholds
  have hset : (s.setStmt stmt (.vars ⟨decl.type,
      decl.declarators.eraseP fun d => d.name == name⟩)).Abridges s := by
    refine Shader.abridges_setStmt ?_ (fun _ hu => by cases hu) fun e he => ?_
    · rw [hd]
      exact List.Subset.refl _
    · rw [hd]
      exact (inits_eraseP hr).mem_iff.mpr (List.mem_append_right _ he)
  have hshrink : (shrink s stmt decl removed name).Abridges s := by
    rw [shrink, Shader.killExprs_eq]
    exact hset.of_eq (List.Subset.refl _) rfl rfl (Shader.expr_forgetExprs _ _)
  rw [apply_eq hd hr]
  split
  next =>
    cases block with
    | some block => exact (Shader.abridges_removeFromBlock _ block stmt).trans hshrink
    | none =>
        exact (Shader.abridges_setStmt (List.nil_subset _) (fun _ hu => by cases hu)
          (List.nil_subset _)).trans hshrink
  next => exact hshrink

end UnusedVariable

namespace Unwrap

variable {s : Shader}

theorem abridges_apply {block target : StmtId} {way : UnwrapWay}
    (hholds : holds s block target way = true) : (apply s block target way).Abridges s := by
  obtain ⟨body, kept, dropped, i, hb, hi, hparts, heq⟩ := exists_eq_lifted hholds
  have hset : (s.setStmt block (.block (body.take i ++ kept ++ body.drop (i + 1)))).Abridges s :=
    Shader.abridges_setStmt (List.nil_subset _) (fun _ hu => below_of_mem_lifted hb hi hparts hu)
      (List.nil_subset _)
  rw [heq, lifted]
  refine hset.of_eq (List.Subset.refl _) rfl ?_ (Shader.expr_forgetExprs s _)
  funext id
  rw [Shader.stmt_setStmt, Shader.stmt_setStmt, Shader.stmt_forgetStmts,
    Shader.size_stmts_forgetStmts]
  rfl

end Unwrap

/-! ## Inlining -/

namespace InlineField

variable {s u : Shader}

/-- Expressions mention by themselves what they did: a constructor keeps its name, and no access
mentions anything. -/
theorem Fits.keeps_inlined {outerId : DeclId} {field : String} {plan : Plan}
    {outer inner : StructDecl} {wrapper : FieldDecl}
    (hfits : Fits s outerId field plan outer inner wrapper) (h : s.Grounded)
    (fields : List FieldDecl) (id : ExprId) :
    s.Keeps (inlined s outerId outer plan fields) (.expr id) := by
  refine ⟨fun m hm => ?_, nofun, fun c hc m => ?_⟩
  · rw [Shader.mentionsAt] at hm
    obtain hsame | ⟨args, args', hcall, hnew⟩ | ⟨a, -, -, hnew⟩ := hfits.expr_inlined h fields id
    · rw [hsame] at hm
      exact Or.inl (.here hm)
    · rw [hnew] at hm
      refine Or.inl (.here ?_)
      rw [Shader.mentionsAt, hcall]
      exact hm
    · rw [hnew] at hm
      cases hm
  · exact hfits.rises_inlined h fields (P := fun id => s.Allows m (.expr id))
      (fun _ _ hc => .of_mem_exprsIn hc) id c hc

/-- A structure that is widened names the types that it or the inner one did. -/
theorem Fits.keeps_widened {outerId : DeclId} {field : String} {plan : Plan}
    {outer inner : StructDecl} {wrapper : FieldDecl}
    (hfits : Fits s outerId field plan outer inner wrapper) {t : Shader} {fields : List FieldDecl}
    (htypes : fields.map FieldDecl.type = inner.fields.map FieldDecl.type)
    (ht : t.decl outerId = .struct (widened outer plan.position fields)) :
    s.Keeps t (.decl outerId) := by
  have houter := Decl.struct?_eq_some.mp hfits.outer_eq
  obtain ⟨innerId, hinnerId, hinner⟩ := Shader.mem_structDecls.mp hfits.inner_mem
  refine ⟨fun m hm => ?_, ?_, ?_⟩
  · rw [Shader.mentionsAt, ht] at hm
    obtain ⟨f, hf, rfl⟩ := List.mem_map.mp hm
    have hkept : f ∈ outer.fields → s.Allows (.typeName f.type.name) (.decl outerId) := by
      intro hf
      refine Or.inl (.here ?_)
      rw [Shader.mentionsAt, houter]
      exact List.mem_map_of_mem hf
    simp only [widened, List.mem_append] at hf
    rcases hf with (hf | hf) | hf
    · exact hkept (List.mem_of_mem_take hf)
    · have htype : f.type ∈ inner.fields.map FieldDecl.type := htypes ▸ List.mem_map_of_mem hf
      obtain ⟨g, hg, hgf⟩ := List.mem_map.mp htype
      refine Or.inr (Or.inr ⟨trivial, innerId, hinnerId, .here ?_⟩)
      rw [Shader.mentionsAt, hinner, ← hgf]
      exact List.mem_map_of_mem hg
    · exact hkept (List.mem_of_mem_drop hf)
  · rw [Shader.stmtsIn, ht]
    exact List.forall_mem_nil _
  · rw [Shader.exprsIn, ht]
    exact List.forall_mem_nil _

theorem abridges_apply (h : s.Grounded) (supply : NameSupply) (outerId : DeclId) (field : String) :
    (apply s supply outerId field).1.Abridges s := by
  obtain heq | ⟨plan, outer, inner, wrapper, taken, hfits, heq⟩ :=
    apply_cases s supply outerId field
  · rw [heq]
    exact .refl s
  have htypes := map_type_renamed field taken supply inner.fields
  set fields := (renamed field taken supply inner.fields).1
  set wide := widened outer plan.position fields with hwide
  set w := s.setDecl outerId (.struct wide)
  obtain ⟨-, hstmts, hdecls, hnodes⟩ :=
    foldl_spliceConstructor_same plan.position plan.constructors w
  obtain ⟨-, hstmts', hdecls', hnodes'⟩ := foldl_redirect_same (fields.map FieldDecl.name)
    plan.accesses (plan.constructors.foldl (spliceConstructor plan.position) w)
  have hexprs := hfits.keeps_inlined h fields
  rw [inlined, ← heq] at hexprs
  rw [← heq] at hstmts' hdecls' hnodes'
  set t := (apply s supply outerId field).1
  have hdecl : ∀ d, t.decl d = w.decl d := by
    intro d
    rw [Shader.decl, hnodes'.trans hnodes, Shader.decl]
  have hstruct : s.decl outerId = .struct outer := Decl.struct?_eq_some.mp hfits.outer_eq
  have hcases : ∀ d, d = outerId ∧ t.decl d = .struct wide ∨ t.decl d = s.decl d := by
    intro d
    rw [hdecl, Shader.decl_setDecl]
    split
    next hd => exact Or.inl ⟨hd.1.symm, rfl⟩
    next => exact Or.inr rfl
  refine ⟨?_, fun d f => ?_, fun d => ?_, fun n m => Shader.allows_of_keeps fun n => ?_⟩
  · rw [hdecls'.trans hdecls]
    exact List.Subset.refl _
  · rcases hcases d with ⟨rfl, hd⟩ | hd
    · rw [hd, hstruct]
      simp
    · rw [hd]
  · rcases hcases d with ⟨rfl, hd⟩ | hd
    · rw [hd, hstruct]
      rfl
    · rw [hd]
  · cases n with
    | decl d =>
        rcases hcases d with ⟨rfl, hd⟩ | hd
        · exact hfits.keeps_widened htypes hd
        · exact Shader.keeps_decl_of_eq hd
    | stmt id => exact Shader.keeps_stmt_of_eq (by
        rw [Shader.stmt, hstmts'.trans hstmts, Shader.stmt]; rfl)
    | expr id => exact hexprs id

end InlineField

/-! ## Chunks -/

/-- A constant that is a vector calls the constructor of a vector type. -/
def Change.BuildsVectors : Change → Prop
  | .toConstant _ constant => ∀ constructor element, constant = .vector constructor element →
      (Mention.call constructor).IsVectorCall
  | .toSubExpr _ _ | .removeDecl _ | .inlineField _ _ | .removeStmt _ _ | .removeVariable _ _ _
  | .unwrap _ _ _ => True

namespace Opportunity

variable {s : Shader}

theorem buildsVectors_of_mem_find (h : s.Grounded) (ho : s.Owned) {everywhere : Bool}
    {kinds : List OpportunityKind} {o : Opportunity} (hfind : o ∈ find s everywhere kinds) :
    o.change.BuildsVectors := by
  have htyped := wellTyped_of_mem_find h ho hfind
  obtain ⟨depth, change⟩ := o
  cases change with
  | toConstant target constant =>
      rintro constructor element rfl
      obtain ⟨-, type, htype, hof⟩ := htyped
      have hsized := Types.sized htype
      cases type with
      | vector kind width =>
          obtain ⟨_, -, heq⟩ := Option.map_eq_some_iff.mp hof
          cases heq
          exact ⟨kind, width, Ty.ofName?_text hsized⟩
      | scalar kind =>
          obtain ⟨_, -, heq⟩ := Option.map_eq_some_iff.mp hof
          cases heq
      | _ => cases hof
  | _ => trivial

/-- A change that holds abridges a shader. -/
theorem abridges_apply (h : s.Grounded) {o : Opportunity} (hholds : o.holds s = true)
    (hbuilds : o.change.BuildsVectors) (supply : NameSupply) :
    (o.apply s supply).1.Abridges s := by
  obtain ⟨depth, change⟩ := o
  cases change with
  | toSubExpr target child =>
      simp only [holds, SubExpr.holds, Bool.and_eq_true] at hholds
      have hpart : child ∈ s.exprsIn (.expr target) := List.contains_iff_mem.mp hholds.2
      have hallowed : ∀ m, s.Allows m (.expr child) → s.Allows m (.expr target) :=
        fun m => .of_mem_exprsIn hpart
      simp only [apply]
      rw [Shader.replaceWithChild_eq]
      refine Shader.abridges_setExpr _ (fun m hm => ?_) fun c hc m hm => ?_
      · exact hallowed m (Or.inl (.here hm))
      · exact hallowed m (hm.of_mem_exprsIn hc)
  | toConstant target constant => exact Constant.abridges_apply target hbuilds
  | removeDecl decl => exact Shader.abridges_removeDecl s decl
  | inlineField outer field => exact InlineField.abridges_apply h supply outer field
  | removeStmt block stmt => exact Shader.abridges_removeFromBlock s block stmt
  | removeVariable stmt block name => exact UnusedVariable.abridges_apply hholds
  | unwrap block target way => exact Unwrap.abridges_apply hholds

/-- What is left when a list of changes was tried abridges the shader that they were tried on. -/
theorem abridges_tryAll (h : s.Grounded) {os : List Opportunity}
    (hbuilds : ∀ o ∈ os, o.change.BuildsVectors) (supply : NameSupply) :
    (tryAll os s supply).2.1.Grounded ∧ (tryAll os s supply).2.1.Abridges s := by
  refine tryAll_invariant (motive := fun t => t.Grounded ∧ t.Abridges s) ?_ ⟨h, .refl s⟩ supply
  rintro t ⟨hgrounded, habridges⟩ o ho hholds supply
  exact ⟨grounded_apply hgrounded hholds supply,
    (abridges_apply hgrounded hholds (hbuilds o ho) supply).trans habridges⟩

end Opportunity

end ShaderReducer
