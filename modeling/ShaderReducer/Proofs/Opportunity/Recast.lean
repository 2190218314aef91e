import ShaderReducer.Proofs.Opportunity.Scopes
import ShaderReducer.Proofs.Opportunity.WellTyped

/-!
# Types when expressions and declarations change

An operand in the place of an operation, a constant in the place of an expression and a function or
structure that is gone leave all statements as they are, so what is left stands in the scopes that it
stood in. Its type is the same because the new node of a slot has the type of the old one, or because
nothing refers to the declaration that is gone.
-/

namespace ShaderReducer

namespace Signatures

variable {sig sig' : Signatures} {name : String}

/-! ## The same declarations with a name -/

/-- The structures with a name are the same. -/
def SameStructs (sig sig' : Signatures) (name : String) : Prop :=
  sig.structs.filter (fun decl => decl.name == name) =
    sig'.structs.filter fun decl => decl.name == name

/-- The functions with a name are the same. -/
def SameFunctions (sig sig' : Signatures) (name : String) : Prop :=
  sig.functions.filter (fun f => f.name == name) = sig'.functions.filter fun f => f.name == name

/-- What the name of a type stands for is the same. -/
def SameType (sig sig' : Signatures) (name : String) : Prop :=
  ∀ size, sig.resolve (.ofName name) size = sig'.resolve (.ofName name) size

theorem SameStructs.hasStruct_eq (h : SameStructs sig sig' name) :
    sig.hasStruct name = sig'.hasStruct name := by
  have hany : ∀ decls : List StructDecl, (decls.any fun decl => decl.name == name) =
      !(decls.filter fun decl => decl.name == name).isEmpty := by
    intro decls
    rw [Bool.eq_iff_iff]
    simp
  rw [hasStruct, hasStruct, hany, hany, h]

theorem sameType_of_hasStruct_eq
    (h : Ty.ofName? name = none → sig.hasStruct name = sig'.hasStruct name) :
    SameType sig sig' name := by
  intro size
  have hbase : ((Ty.ofName? name).or (if sig.hasStruct name then some (.struct name) else none)) =
      (Ty.ofName? name).or (if sig'.hasStruct name then some (.struct name) else none) := by
    cases hname : Ty.ofName? name with
    | some type => rfl
    | none => rw [h hname]
  cases size with
  | none => exact hbase
  | some n => exact congrArg (Option.map fun type => Ty.array type n) hbase

theorem SameStructs.fieldType_eq (h : SameStructs sig sig' name)
    (hfields : ∀ decl ∈ sig.structs, ∀ field ∈ decl.fields, SameType sig sig' field.type.name)
    (field : String) : sig.fieldType name field = sig'.fieldType name field := by
  have hfind : sig.structs.reverse.find? (fun decl => decl.name == name) =
      sig'.structs.reverse.find? fun decl => decl.name == name := by
    rw [← List.head?_filter, ← List.head?_filter, List.filter_reverse, List.filter_reverse, h]
  rw [fieldType, fieldType, ← hfind]
  cases hdecl : sig.structs.reverse.find? (fun decl => decl.name == name) with
  | none => rfl
  | some decl =>
      have hmem := List.mem_reverse.mp (List.mem_of_find?_eq_some hdecl)
      rw [Option.bind_eq_bind, Option.bind_eq_bind, Option.bind_some, Option.bind_some]
      refine Option.bind_congr fun member hmember => ?_
      exact hfields decl hmem member (List.mem_of_find?_eq_some hmember) member.arraySize

theorem accepts_congr {f : FunctionDecl StmtId}
    (h : ∀ p ∈ f.params, SameType sig sig' p.type.name) (args : List (Option Ty)) :
    sig.accepts f args = sig'.accepts f args := by
  have hresolve : ∀ row ∈ f.params.zip args, sig.resolve row.1.type row.1.arraySize =
      sig'.resolve row.1.type row.1.arraySize :=
    fun row hrow => h row.1 (List.of_mem_zip hrow).1 row.1.arraySize
  have hall : ∀ fits : Param × Option Ty → Bool,
      (f.params.zip args).all fits = ((f.params.zip args).map fits).all id := by
    intro fits
    rw [List.all_map]
    rfl
  rw [accepts, accepts, hall, hall]
  refine congrArg (fun fits => f.params.length == args.length && List.all fits id) ?_
  refine List.map_congr_left fun row hrow => ?_
  simp only [hresolve row hrow]

/-- A call has the same type if what it may refer to is the same. -/
theorem callType_congr {callee : String} (args : List (Option Ty))
    (hstructs : Ty.ofName? callee = none → sig.hasStruct callee = sig'.hasStruct callee)
    (hfunctions : Ty.ofName? callee = none → SameFunctions sig sig' callee)
    (htypes : ∀ f ∈ sig.functions, SameType sig sig' f.returnType.name ∧
      ∀ p ∈ f.params, SameType sig sig' p.type.name) :
    sig.callType callee args = sig'.callType callee args := by
  rw [callType, callType]
  cases hname : Ty.ofName? callee with
  | some type => rfl
  | none =>
      dsimp only
      rw [hstructs hname, ← hfunctions hname]
      set overloads := sig.functions.filter fun f => f.name == callee with hoverloads
      have hmem : ∀ f ∈ overloads, f ∈ sig.functions := fun f hf => (List.mem_filter.mp hf).1
      have hfind : overloads.find? (fun f => sig.accepts f args) =
          overloads.find? fun f => sig'.accepts f args := by
        rw [← List.head?_filter, ← List.head?_filter]
        refine congrArg List.head? (List.filter_congr fun f hf => ?_)
        exact accepts_congr (htypes f (hmem f hf)).2 args
      rw [← hfind]
      split
      next => rfl
      next =>
        split
        next => rfl
        next =>
          refine Option.bind_congr fun f hf => ?_
          exact (htypes f (hmem f (List.mem_of_find?_eq_some hf))).1 none

theorem declare_congr {ε : Type} {decl : VarDecl ε} (h : SameType sig sig' decl.type.name)
    (scope : TypeScope) : sig.declare scope decl = sig'.declare scope decl := by
  rw [declare, declare]
  refine List.foldl_ext _ _ _ fun scope d _ => ?_
  rw [show sig.resolve decl.type d.arraySize = sig'.resolve decl.type d.arraySize from h d.arraySize]

theorem paramScope_congr {ps : List Param} (h : ∀ p ∈ ps, SameType sig sig' p.type.name)
    (scope : TypeScope) : sig.paramScope scope ps = sig'.paramScope scope ps := by
  rw [paramScope, paramScope]
  refine List.foldl_ext _ _ _ fun scope p hp => ?_
  rw [show sig.resolve p.type p.arraySize = sig'.resolve p.type p.arraySize from h p hp p.arraySize]

end Signatures

namespace Shader

variable {s t : Shader} {d : DeclId} {scope : TypeScope}

/-! ## Shaders with the same statements -/

/-- A shader with the statements of another one, in which the types that are named stand for what they
stood for. Old slots name slots that were below them, and new slots name none. -/
structure Recast (s t : Shader) : Prop where
  stmt_eq : t.stmt = s.stmt
  decl_eq : ∀ d, t.decl d = s.decl d ∨ (∃ x, t.decl d = .struct x) ∧ ∃ y, s.decl d = .struct y
  decls_eq : t.decls = s.decls ∨
    ∃ d, t.decls = s.decls.erase d ∧ ∀ scope, s.declAfter scope d = scope
  sameType : ∀ d ∈ t.decls, ∀ name, s.Mentions (.typeName name) (.decl d) →
    Signatures.SameType (Signatures.ofShader t) (Signatures.ofShader s) name
  below : ∀ id, ∀ c ∈ (t.expr id).children, id.index < s.exprs.size ∧
    (c.index < s.exprs.size → s.ExprBelow id c)

theorem Recast.declAfter_eq (h : s.Recast t) (hd : d ∈ t.decls) (scope : TypeScope) :
    t.declAfter scope d = s.declAfter scope d := by
  rw [declAfter, declAfter]
  rcases h.decl_eq d with heq | ⟨⟨x, hx⟩, y, hy⟩
  · rw [heq]
    cases hdecl : s.decl d with
    | vars decl =>
        refine Signatures.declare_congr (h.sameType d hd _ (.here ?_)) scope
        rw [mentionsAt, hdecl]
        exact List.mem_singleton_self _
    | _ => rfl
  · rw [hx, hy]

theorem Recast.bodyScope_eq (h : s.Recast t) (hd : d ∈ t.decls) (scope : TypeScope) :
    t.bodyScope scope d = s.bodyScope scope d := by
  rw [bodyScope, bodyScope]
  rcases h.decl_eq d with heq | ⟨⟨x, hx⟩, y, hy⟩
  · rw [heq]
    cases hdecl : s.decl d with
    | function f =>
        refine Signatures.paramScope_congr (fun p hp => h.sameType d hd _ (.here ?_)) scope
        rw [mentionsAt, hdecl]
        exact List.mem_cons_of_mem _ (List.mem_map_of_mem hp)
    | _ => rfl
  · rw [hx, hy]

theorem Recast.scopeAfter_eq (h : s.Recast t) (hd : d ∈ t.decls) {id c : StmtId}
    (hid : s.Scoped d scope (.stmt id)) (hc : c ∈ (s.stmt id).childStmts) (scope' : TypeScope) :
    t.scopeAfter scope' c = s.scopeAfter scope' c := by
  rw [scopeAfter, scopeAfter, h.stmt_eq]
  cases hform : s.stmt c with
  | vars decl =>
      refine Signatures.declare_congr (h.sameType d hd _ (hid.mentions (.inStmt hc (.here ?_)))) scope'
      rw [mentionsAt, hform]
      exact List.mem_cons_of_mem _ (List.mem_singleton_self _)
  | _ => rfl

/-- A declaration that declares no variables may be left out of those before another one. -/
theorem exists_split_of_erase {step : TypeScope → DeclId → TypeScope} {gone : DeclId}
    (hgone : ∀ scope, step scope gone = scope) {ds before after : List DeclId}
    (h : ds.erase gone = before ++ d :: after) (scope : TypeScope) :
    ∃ before' after', ds = before' ++ d :: after' ∧
      before'.foldl step scope = before.foldl step scope := by
  induction ds generalizing before scope with
  | nil => simp at h
  | cons d' ds ih =>
      rw [List.erase_cons] at h
      split at h
      next heq =>
        obtain rfl : d' = gone := by simpa using heq
        refine ⟨d' :: before, after, by rw [h, List.cons_append], ?_⟩
        rw [List.foldl_cons, hgone]
      next =>
        cases before with
        | nil =>
            obtain ⟨rfl, -⟩ := List.cons.inj h
            exact ⟨[], ds, rfl, rfl⟩
        | cons first before =>
            obtain ⟨rfl, hrest⟩ := List.cons.inj h
            obtain ⟨before', after', rfl, hfold⟩ := ih hrest (step scope d')
            exact ⟨d' :: before', after', rfl, hfold⟩

theorem Recast.exists_split (h : s.Recast t) {before after : List DeclId}
    (hsplit : t.decls = before ++ d :: after) : ∃ before' after', s.decls = before' ++ d :: after' ∧
      before'.foldl s.declAfter [] = before.foldl t.declAfter [] := by
  have hfold : before.foldl t.declAfter [] = before.foldl s.declAfter [] := by
    refine List.foldl_ext _ _ _ fun scope d' hd' => h.declAfter_eq ?_ scope
    exact hsplit ▸ List.mem_append_left _ hd'
  rw [hfold]
  rcases h.decls_eq with heq | ⟨gone, heq, hgone⟩
  · exact ⟨before, after, heq ▸ hsplit, rfl⟩
  · exact exists_split_of_erase hgone (heq ▸ hsplit) []

theorem Scoped.of_exprBelow {id part : ExprId} (hid : s.Scoped d scope (.expr id))
    (hpart : s.ExprBelow id part) : s.Scoped d scope (.expr part) := by
  induction hpart with
  | single hc => exact .part hid hc
  | tail _ hc ih => exact .part ih hc

/-- A slot that is no new one. -/
def IsOld (s : Shader) : NodeId → Prop
  | .expr id => id.index < s.exprs.size
  | .decl _ | .stmt _ => True

/-- What is in an old slot stands where it stood. -/
theorem Recast.scoped (h : s.Recast t) {n : NodeId} (hn : t.Scoped d scope n) (hold : s.IsOld n) :
    s.Scoped d scope n := by
  have hd := hn.mem_decls
  induction hn with
  | decl hsplit =>
      obtain ⟨before', after', hsplit', hfold⟩ := h.exists_split hsplit
      rw [← hfold]
      exact .decl hsplit'
  | @body scope c _ hc ih =>
      rw [h.bodyScope_eq hd]
      refine .body (ih trivial) ?_
      rcases h.decl_eq d with heq | ⟨⟨x, hx⟩, -⟩
      · exact heq ▸ hc
      · rw [hx] at hc
        cases hc
  | @init scope e _ he ih =>
      refine .init (ih trivial) ?_
      rcases h.decl_eq d with heq | ⟨⟨x, hx⟩, -⟩
      · exact heq ▸ he
      · rw [hx] at he
        cases he
  | @stmt scope scope' id c _ hc ih =>
      have hid := ih trivial
      rw [stmtScopes_congr (congrFun h.stmt_eq id) fun c hc => h.scopeAfter_eq hd hid hc] at hc
      exact .stmt hid hc
  | @stmtExpr scope id e _ he ih =>
      have hid := ih trivial
      rw [exprScope_congr (congrFun h.stmt_eq id) fun c hc => h.scopeAfter_eq hd hid hc]
      exact .stmtExpr hid (h.stmt_eq ▸ he)
  | @part scope id e _ he ih =>
      obtain ⟨hid, hbelow⟩ := h.below id e he
      exact (ih hid).of_exprBelow (hbelow hold)

/-- The types of old slots are the same if each follows from those of the new parts. -/
theorem Recast.retypes (h : s.Recast t) (ht : t.Grounded)
    (hforms : ∀ d scope id, id.index < s.exprs.size → t.Scoped d scope (.expr id) →
      s.Scoped d scope (.expr id) →
      (∀ c ∈ (t.expr id).children, c.index < s.exprs.size → t.typeAt scope c = s.typeAt scope c) →
      (Signatures.ofShader t).formType scope (t.typeAt scope) (t.expr id) = s.typeAt scope id) :
    s.Retypes t := by
  intro d scope id hid hlt
  refine ⟨scope, h.scoped hid hlt, ?_⟩
  induction id using ht.expr_induction with
  | step id ih =>
      rw [ht.typeAt_eq]
      refine hforms d scope id hlt hid (h.scoped hid hlt) fun c hc hlt => ?_
      exact ih c hc (.part hid hc) hlt

theorem recast_of_exprs (hstmt : t.stmt = s.stmt) (hdecls : t.decls = s.decls) (hdecl : t.decl = s.decl)
    (hbelow : ∀ id, ∀ c ∈ (t.expr id).children, id.index < s.exprs.size ∧
      (c.index < s.exprs.size → s.ExprBelow id c)) : s.Recast t where
  stmt_eq := hstmt
  decl_eq d := Or.inl (congrFun hdecl d)
  decls_eq := Or.inl hdecls
  sameType _ _ _ _ _ := by rw [signatures_congr hdecls hdecl]
  below := hbelow

/-! ## Rows of expressions -/

/-- Entries of two shaders that note the same expressions in the same scopes, all of which are reached
in the second one. -/
def SameRows (s t : Shader) (entries entries' : List Signatures.Entry) : Prop :=
  ∃ rows : List (TypeScope × ExprId), (∀ row ∈ rows, t.Reaches (.expr row.2)) ∧
    entries = rows.flatMap (fun row =>
      (Signatures.ofShader s).exprEntries row.1 (s.exprTree row.2)) ∧
    entries' = rows.flatMap fun row =>
      (Signatures.ofShader t).exprEntries row.1 (t.exprTree row.2)

theorem SameRows.nil : SameRows s t [] [] :=
  ⟨[], List.forall_mem_nil _, rfl, rfl⟩

theorem SameRows.append {es es' fs fs' : List Signatures.Entry} (he : SameRows s t es es')
    (hf : SameRows s t fs fs') : SameRows s t (es ++ fs) (es' ++ fs') := by
  obtain ⟨rows, hreached, rfl, rfl⟩ := he
  obtain ⟨rows', hreached', rfl, rfl⟩ := hf
  exact ⟨rows ++ rows', List.forall_mem_append.mpr ⟨hreached, hreached'⟩, List.flatMap_append.symm,
    List.flatMap_append.symm⟩

theorem sameRows_exprs (scope : TypeScope) {es : List ExprId} (h : ∀ e ∈ es, t.Reaches (.expr e)) :
    SameRows s t ((es.map s.exprTree).flatMap ((Signatures.ofShader s).exprEntries scope))
      ((es.map t.exprTree).flatMap ((Signatures.ofShader t).exprEntries scope)) :=
  ⟨es.map fun e => (scope, e), List.forall_mem_map.mpr h, by rw [List.flatMap_map, List.flatMap_map],
    by rw [List.flatMap_map, List.flatMap_map]⟩

theorem sameRows_expr (scope : TypeScope) {e : ExprId} (h : t.Reaches (.expr e)) :
    SameRows s t ((Signatures.ofShader s).exprEntries scope (s.exprTree e))
      ((Signatures.ofShader t).exprEntries scope (t.exprTree e)) :=
  ⟨[(scope, e)], List.forall_mem_singleton.mpr h, (List.flatMap_singleton ..).symm,
    (List.flatMap_singleton ..).symm⟩

theorem sameRows_vars (scope : TypeScope) {decl : VarDecl ExprId}
    (h : ∀ e ∈ decl.inits, t.Reaches (.expr e)) :
    SameRows s t ((Signatures.ofShader s).varEntries scope (decl.map s.exprTree))
      ((Signatures.ofShader t).varEntries scope (decl.map t.exprTree)) := by
  rw [Signatures.varEntries, Signatures.varEntries, VarDecl.inits_map, VarDecl.inits_map]
  exact sameRows_exprs scope h

theorem sameRows_option (scope : TypeScope) {value : Option ExprId}
    (h : ∀ e ∈ value.toList, t.Reaches (.expr e)) :
    SameRows s t ((Signatures.ofShader s).optionEntries scope (value.map s.exprTree))
      ((Signatures.ofShader t).optionEntries scope (value.map t.exprTree)) := by
  rw [Signatures.optionEntries, Signatures.optionEntries, Option.toList_map, Option.toList_map]
  exact sameRows_exprs scope h

/-- Two passes over a statement or a declaration that note the same expressions in the same scopes, and
leave the same scope. -/
def SamePass (s t : Shader) (out out' : List Signatures.Entry × TypeScope) : Prop :=
  SameRows s t out.1 out'.1 ∧ out.2 = out'.2

theorem samePass_stmts {ts : List StmtId}
    (h : ∀ c ∈ ts, ∀ scope, SamePass s t ((Signatures.ofShader s).stmtEntries scope (s.stmtTree c))
      ((Signatures.ofShader t).stmtEntries scope (t.stmtTree c))) (scope : TypeScope) :
    SamePass s t ((Signatures.ofShader s).stmtsEntries scope (ts.map s.stmtTree))
      ((Signatures.ofShader t).stmtsEntries scope (ts.map t.stmtTree)) := by
  induction ts generalizing scope with
  | nil => exact ⟨.nil, rfl⟩
  | cons c ts ih =>
      obtain ⟨hrows, hscope⟩ := h c List.mem_cons_self scope
      obtain ⟨hrest, hscope'⟩ := ih (fun c' hc' => h c' (List.mem_cons_of_mem _ hc'))
        ((Signatures.ofShader s).stmtEntries scope (s.stmtTree c)).2
      rw [List.map_cons, List.map_cons, Signatures.stmtsEntries, Signatures.stmtsEntries]
      dsimp only
      rw [← hscope]
      exact ⟨hrows.append hrest, hscope'⟩

/-- Where the statements of two shaders are the same, and so is what the names of types stand for, the
expressions directly in statements stand in the same scopes. -/
theorem samePass_stmt (h : s.Grounded) (ht : t.Grounded) (hstmt : t.stmt = s.stmt)
    (hsame : ∀ name, Signatures.SameType (Signatures.ofShader s) (Signatures.ofShader t) name)
    {id : StmtId} (hid : t.Reaches (.stmt id)) (scope : TypeScope) :
    SamePass s t ((Signatures.ofShader s).stmtEntries scope (s.stmtTree id))
      ((Signatures.ofShader t).stmtEntries scope (t.stmtTree id)) := by
  induction id using h.stmt_induction generalizing scope with
  | step id ih =>
      have hstmts : ∀ c ∈ (s.stmt id).childStmts, ∀ scope,
          SamePass s t ((Signatures.ofShader s).stmtEntries scope (s.stmtTree c))
            ((Signatures.ofShader t).stmtEntries scope (t.stmtTree c)) := fun c hc scope =>
        ih c hc (hid.stmt (by rw [stmtsIn, hstmt]; exact hc)) scope
      have hexprs : ∀ e ∈ (s.stmt id).childExprs, t.Reaches (.expr e) := fun e he =>
        hid.expr (by rw [exprsIn, hstmt]; exact he)
      rw [h.stmtTree_eq, ht.stmtTree_eq, hstmt]
      cases hform : s.stmt id with
      | block body =>
          rw [hform] at hstmts
          rw [StmtNode.map, StmtNode.map, Signatures.stmtEntries, Signatures.stmtEntries]
          exact ⟨(samePass_stmts hstmts scope).1, rfl⟩
      | vars decl =>
          rw [hform] at hexprs
          rw [StmtNode.map, StmtNode.map, Signatures.stmtEntries, Signatures.stmtEntries,
            Signatures.declare_map, Signatures.declare_map]
          exact ⟨sameRows_vars scope hexprs, Signatures.declare_congr (hsame decl.type.name) scope⟩
      | expr value =>
          rw [hform] at hexprs
          rw [StmtNode.map, StmtNode.map, Signatures.stmtEntries, Signatures.stmtEntries]
          exact ⟨sameRows_expr scope (hexprs value (List.mem_singleton_self _)), rfl⟩
      | ifElse cond onTrue onFalse =>
          rw [hform] at hstmts hexprs
          have hcond := sameRows_expr (s := s) scope (hexprs cond (List.mem_singleton_self _))
          obtain ⟨htrue, hscope⟩ := hstmts onTrue List.mem_cons_self scope
          cases onFalse with
          | none =>
              rw [StmtNode.map, StmtNode.map, Option.map_none, Option.map_none,
                Signatures.stmtEntries, Signatures.stmtEntries]
              exact ⟨hcond.append htrue, hscope⟩
          | some onFalse =>
              obtain ⟨hfalse, hscope'⟩ := hstmts onFalse
                (List.mem_cons_of_mem _ (List.mem_singleton_self _))
                ((Signatures.ofShader s).stmtEntries scope (s.stmtTree onTrue)).2
              rw [StmtNode.map, StmtNode.map, Option.map_some, Option.map_some,
                Signatures.stmtEntries, Signatures.stmtEntries]
              dsimp only
              rw [← hscope]
              exact ⟨hcond.append (htrue.append hfalse), hscope'⟩
      | forLoop start cond step body =>
          rw [hform] at hstmts hexprs
          obtain ⟨hstart, hscope⟩ := hstmts start List.mem_cons_self scope
          have hbody := (hstmts body (List.mem_cons_of_mem _ (List.mem_singleton_self _))
            ((Signatures.ofShader s).stmtEntries scope (s.stmtTree start)).2).1
          have hcond := sameRows_option (s := s)
            ((Signatures.ofShader s).stmtEntries scope (s.stmtTree start)).2
            fun e he => hexprs e (List.mem_append_left _ he)
          have hstep := sameRows_option (s := s)
            ((Signatures.ofShader s).stmtEntries scope (s.stmtTree start)).2
            fun e he => hexprs e (List.mem_append_right _ he)
          rw [StmtNode.map, StmtNode.map, Signatures.stmtEntries, Signatures.stmtEntries]
          dsimp only
          rw [← hscope]
          exact ⟨hstart.append (hcond.append (hstep.append hbody)), rfl⟩
      | whileLoop cond body =>
          rw [hform] at hstmts hexprs
          obtain ⟨hbody, hscope⟩ := hstmts body (List.mem_singleton_self _) scope
          rw [StmtNode.map, StmtNode.map, Signatures.stmtEntries, Signatures.stmtEntries]
          exact ⟨(sameRows_expr scope (hexprs cond (List.mem_singleton_self _))).append hbody, hscope⟩
      | doWhile body cond =>
          rw [hform] at hstmts hexprs
          obtain ⟨hbody, hscope⟩ := hstmts body (List.mem_singleton_self _) scope
          rw [StmtNode.map, StmtNode.map, Signatures.stmtEntries, Signatures.stmtEntries]
          dsimp only
          rw [← hscope]
          exact ⟨hbody.append (sameRows_expr _ (hexprs cond (List.mem_singleton_self _))), rfl⟩
      | returns value =>
          rw [hform] at hexprs
          rw [StmtNode.map, StmtNode.map, Signatures.stmtEntries, Signatures.stmtEntries]
          exact ⟨sameRows_option scope hexprs, rfl⟩
      | _ =>
          rw [StmtNode.map, StmtNode.map, Signatures.stmtEntries, Signatures.stmtEntries]
          exact ⟨.nil, rfl⟩

theorem samePass_decl (h : s.Grounded) (ht : t.Grounded) (hstmt : t.stmt = s.stmt)
    (hsame : ∀ name, Signatures.SameType (Signatures.ofShader s) (Signatures.ofShader t) name)
    (hd : d ∈ t.decls)
    (hdecl : t.decl d = s.decl d ∨ (∃ x, t.decl d = .struct x) ∧ ∃ y, s.decl d = .struct y)
    (scope : TypeScope) :
    SamePass s t ((Signatures.ofShader s).declEntries scope (s.declTree d))
      ((Signatures.ofShader t).declEntries scope (t.declTree d)) := by
  have hreached := Reaches.decl hd
  rw [declTree, declTree]
  rcases hdecl with heq | ⟨⟨x, hx⟩, y, hy⟩
  · rw [heq]
    cases hform : s.decl d with
    | function f =>
        obtain ⟨type, name, params, body⟩ := f
        cases body with
        | none =>
            rw [Decl.map, Decl.map, Signatures.declEntries, Signatures.declEntries]
            exact ⟨.nil, rfl⟩
        | some body =>
            have hbody : t.Reaches (.stmt body) :=
              hreached.stmt (by rw [stmtsIn, heq, hform]; exact List.mem_singleton_self _)
            have hparams := Signatures.paramScope_congr
              (fun p (_ : p ∈ params) => hsame p.type.name) scope
            have hrows := (samePass_stmt h ht hstmt hsame hbody
              ((Signatures.ofShader s).paramScope scope params)).1
            rw [Decl.map, Decl.map, Signatures.declEntries, Signatures.declEntries]
            dsimp only [Option.map_some]
            rw [← hparams]
            exact ⟨hrows, rfl⟩
    | vars decl =>
        have hinits : ∀ e ∈ decl.inits, t.Reaches (.expr e) := fun e he =>
          hreached.expr (by rw [exprsIn, heq, hform]; exact he)
        rw [Decl.map, Decl.map, Signatures.declEntries, Signatures.declEntries,
          Signatures.declare_map, Signatures.declare_map]
        exact ⟨sameRows_vars scope hinits, Signatures.declare_congr (hsame decl.type.name) scope⟩
    | _ =>
        rw [Decl.map, Decl.map, Signatures.declEntries, Signatures.declEntries]
        exact ⟨.nil, rfl⟩
  · rw [hx, hy, Decl.map, Decl.map, Signatures.declEntries, Signatures.declEntries]
    exact ⟨.nil, rfl⟩

/-- Where two shaders differ in expressions and structures only, and the names of types stand for the
same in both, the same expressions are noted in the same scopes. -/
theorem sameRows_decls (h : s.Grounded) (ht : t.Grounded) (hstmt : t.stmt = s.stmt)
    (hsame : ∀ name, Signatures.SameType (Signatures.ofShader s) (Signatures.ofShader t) name)
    (hdecl : ∀ d, t.decl d = s.decl d ∨ (∃ x, t.decl d = .struct x) ∧ ∃ y, s.decl d = .struct y)
    {ds : List DeclId} (hds : ∀ d ∈ ds, d ∈ t.decls) (scope : TypeScope) :
    SameRows s t ((Signatures.ofShader s).declsEntries scope (ds.map s.declTree))
      ((Signatures.ofShader t).declsEntries scope (ds.map t.declTree)) := by
  induction ds generalizing scope with
  | nil => exact .nil
  | cons d ds ih =>
      obtain ⟨hrows, hscope⟩ := samePass_decl h ht hstmt hsame (hds d List.mem_cons_self) (hdecl d) scope
      rw [List.map_cons, List.map_cons, Signatures.declsEntries, Signatures.declsEntries]
      dsimp only
      rw [← hscope]
      exact hrows.append (ih (fun d' hd' => hds d' (List.mem_cons_of_mem _ hd')) _)

/-! ## Operands and constants -/

/-- An operand of the type of an operation takes its place. -/
theorem retypes_replaceWithChild (h : s.Grounded) {target child : ExprId}
    (hchild : child ∈ (s.expr target).children)
    (htype : ∀ d scope, s.Scoped d scope (.expr target) → s.typeAt scope child = s.typeAt scope target) :
    s.Retypes (s.replaceWithChild target child) := by
  have ht := h.replaceWithChild hchild
  obtain ⟨hdecls, hnodes⟩ := decls_replaceWithChild s target child
  have hdecl : (s.replaceWithChild target child).decl = s.decl := by
    funext d
    rw [decl, hnodes, decl]
  have hsig := signatures_congr hdecls hdecl
  have hexpr : ∀ id, (s.replaceWithChild target child).expr id =
      if target = id ∧ id.index < s.exprs.size then s.expr child else s.expr id := by
    intro id
    rw [replaceWithChild_eq, expr_setExpr, expr_forgetExprs, size_exprs_forgetExprs]
  have hrecast : s.Recast (s.replaceWithChild target child) := by
    refine recast_of_exprs (by rw [replaceWithChild_eq]; rfl) hdecls hdecl fun id c hc => ?_
    rw [hexpr] at hc
    split at hc
    next hid =>
      obtain rfl := hid.1
      exact ⟨hid.2, fun _ => (exprBelow_of_mem hchild).tail hc⟩
    next => exact ⟨lt_size_of_mem_exprParts hc, fun _ => exprBelow_of_mem hc⟩
  refine hrecast.retypes ht fun d scope id _ _ hid hparts => ?_
  have hsame : ∀ source, (∀ c ∈ (s.expr source).children,
        (s.replaceWithChild target child).typeAt scope c = s.typeAt scope c) →
      (Signatures.ofShader (s.replaceWithChild target child)).formType scope
        ((s.replaceWithChild target child).typeAt scope) (s.expr source) = s.typeAt scope source := by
    intro source hsource
    rw [h.typeAt_eq, hsig]
    exact Signatures.formType_congr hsource (fun _ _ => rfl) (fun _ _ _ => rfl) fun _ _ _ _ _ => rfl
  have hlt : ∀ source, ∀ c ∈ (s.expr source).children, c.index < s.exprs.size := by
    intro source c hc
    obtain ⟨rank, hr⟩ := h.exprs
    exact (hr.falls source c hc).1
  rw [hexpr] at hparts ⊢
  split at hparts
  next htarget =>
    obtain rfl := htarget.1
    rw [if_pos htarget, hsame child fun c hc => hparts c hc (hlt child c hc), htype d scope hid]
  next htarget =>
    rw [if_neg htarget]
    exact hsame id fun c hc => hparts c hc (hlt id c hc)

end Shader

theorem Signatures.formType_of_ownType? {sig : Signatures} {scope : TypeScope} {ρ : Type}
    {type? : ρ → Option Ty} {form : ExprNode ρ} {type : Ty} (h : form.ownType? = some type) :
    sig.formType scope type? form = some type := by
  cases form with
  | literal value => exact h
  | call callee args => rw [formType, callType, show Ty.ofName? callee = some type from h]
  | _ => cases h

theorem Constant.children_apply_of_size_le {s : Shader} {target id : ExprId} {constant : Constant}
    (hid : s.exprs.size ≤ id.index) (htarget : target.index < s.exprs.size) :
    ((apply s target constant).expr id).children = [] := by
  have hne : target ≠ id := by
    rintro rfl
    omega
  cases constant with
  | scalar value =>
      rw [apply, Shader.replaceWithLeaf_eq, Shader.expr_setExpr, Shader.expr_forgetExprs,
        if_neg fun hc => hne hc.1, Shader.expr_of_size_le hid]
      rfl
  | vector constructor element =>
      rw [apply_vector, Shader.replaceWithLeaf_eq, Shader.expr_setExpr, Shader.expr_forgetExprs,
        if_neg fun hc => hne hc.1, Shader.expr_addExpr]
      split
      next => rfl
      next => rw [Shader.expr_of_size_le hid]; rfl

/-- A constant of the type of an expression takes its place. -/
theorem Constant.retypes_apply {s : Shader} (h : s.Grounded) {target : ExprId}
    (hlive : target ∈ s.liveExprs) {constant : Constant} {type : Ty}
    (hconstant : (constant.node ⟨s.exprs.size⟩).ownType? = some type)
    (htype : ∀ d scope, s.Scoped d scope (.expr target) → s.typeAt scope target = some type) :
    s.Retypes (apply s target constant) := by
  have ht := grounded_apply h hlive constant
  obtain ⟨hdecls, hnodes⟩ := decls_apply s target constant
  have hdecl : (apply s target constant).decl = s.decl := by
    funext d
    rw [Shader.decl, hnodes, Shader.decl]
  have hstmt : (apply s target constant).stmt = s.stmt := by
    funext id
    rw [Shader.stmt, stmts_apply, Shader.stmt]
  have hsig := Shader.signatures_congr hdecls hdecl
  have hsize := Shader.lt_size_of_mem_liveExprs hlive
  have hlt : ∀ id, ∀ c ∈ (s.expr id).children, c.index < s.exprs.size := by
    intro id c hc
    obtain ⟨rank, hr⟩ := h.exprs
    exact (hr.falls id c hc).1
  have hrecast : s.Recast (apply s target constant) := by
    refine Shader.recast_of_exprs hstmt hdecls hdecl fun id c hc => ?_
    by_cases hid : id.index < s.exprs.size
    · rw [expr_apply hid] at hc
      refine ⟨hid, fun hold => ?_⟩
      split at hc
      next =>
        cases constant with
        | scalar value => cases hc
        | vector constructor element =>
            rw [List.mem_singleton.mp hc] at hold
            exact absurd hold (Nat.lt_irrefl _)
      next => exact Shader.exprBelow_of_mem hc
    · rw [children_apply_of_size_le (Nat.le_of_not_lt hid) hsize] at hc
      cases hc
  refine hrecast.retypes ht fun d scope id hold _ hid hparts => ?_
  rw [expr_apply hold] at hparts ⊢
  split at hparts
  next htarget =>
    subst htarget
    rw [if_pos rfl, htype d scope hid]
    exact Signatures.formType_of_ownType? hconstant
  next htarget =>
    rw [if_neg htarget, h.typeAt_eq, hsig]
    exact Signatures.formType_congr (fun c hc => hparts c hc (hlt id c hc)) (fun _ _ => rfl)
      (fun _ _ _ => rfl) fun _ _ _ _ _ => rfl

end ShaderReducer
