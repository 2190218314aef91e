import ShaderReducer.Proofs.Opportunity.Reached

/-!
# What changes put into slots of expressions

A change gives few slots of expressions another node: an operand moves to the slot of the operation,
a constant takes the place of an expression, and inlining a field gives constructors other arguments
and accesses another base. All other slots keep their nodes, and the new slot of a constant is behind
them.
-/

namespace ShaderReducer

/-- What a change may put into the slot of an expression. -/
inductive Change.Puts (s : Shader) : Change → ExprId → ExprNode ExprId → Prop
  | operand (target child : ExprId) : Puts s (.toSubExpr target child) target (s.expr child)
  | scalar (target : ExprId) (value : Literal) :
    Puts s (.toConstant target (.scalar value)) target (.literal value)
  | vector (target : ExprId) (constructor : String) (element : Literal) :
    Puts s (.toConstant target (.vector constructor element)) target
      (.call constructor [⟨s.exprs.size⟩])
  | element (target : ExprId) (constructor : String) (element : Literal) :
    Puts s (.toConstant target (.vector constructor element)) ⟨s.exprs.size⟩ (.literal element)
  | constructor {outerId : DeclId} {field : String} {outer : StructDecl} {call : ExprId}
    {args : List ExprId} (houter : s.decl outerId = .struct outer)
    (hstart : InlineField.startsWith outer.name InlineField.structStart = true)
    (hcall : s.expr call = .call outer.name args) (args' : List ExprId) :
    Puts s (.inlineField outerId field) call (.call outer.name args')
  | access {outerId : DeclId} {field name : String} {member wrapper base : ExprId}
    (hmember : s.expr member = .member wrapper name) (hwrapper : s.expr wrapper = .member base field)
    (name' : String) : Puts s (.inlineField outerId field) member (.member base name')

namespace Shader

variable {s t : Shader}

theorem expr_killStmt (s : Shader) (id : StmtId) : (s.killStmt id).expr = s.expr := by
  rw [killStmt, expr_forgetStmts, expr_forgetExprs]

theorem expr_removeFromBlock (s : Shader) (block stmt : StmtId) :
    (s.removeFromBlock block stmt).2.expr = s.expr := by
  rw [removeFromBlock]
  split
  next =>
    split
    next => exact expr_killStmt _ _
    next => rfl
  next => rfl

theorem expr_killContents (s : Shader) (d : Decl ExprId StmtId) : (s.killContents d).expr = s.expr := by
  cases d with
  | function decl =>
      rw [killContents]
      cases decl.body with
      | none => rfl
      | some body => exact expr_killStmt s body
  | vars decl =>
      rw [killContents, killExprs_eq]
      exact expr_forgetExprs s _
  | _ => rfl

theorem expr_removeDecl (s : Shader) (id : DeclId) : (s.removeDecl id).2.expr = s.expr := by
  by_cases hid : id ∈ s.decls
  · rw [removeDecl_eq hid]
    exact expr_killContents (s.dropDecl id) (s.decl id)
  · rw [removeDecl, if_neg (by simpa using hid)]

end Shader

theorem UnusedVariable.expr_apply {s : Shader} {stmt : StmtId} {block : Option StmtId} {name : String}
    (hholds : holds s stmt block name = true) : (apply s stmt block name).expr = s.expr := by
  obtain ⟨-, ⟨decl, removed, hd, hr⟩, -⟩ := eq_vars_of_holds hholds
  have hshrink : (shrink s stmt decl removed name).expr = s.expr := by
    rw [shrink, Shader.killExprs_eq]
    exact Shader.expr_forgetExprs _ _
  rw [apply_eq hd hr]
  split
  next =>
    cases block with
    | some block => exact (Shader.expr_removeFromBlock _ block stmt).trans hshrink
    | none => exact hshrink
  next => exact hshrink

theorem Unwrap.expr_apply {s : Shader} {block target : StmtId} {way : UnwrapWay}
    (hholds : holds s block target way = true) : (apply s block target way).expr = s.expr := by
  obtain ⟨body, kept, dropped, i, -, -, -, heq⟩ := exists_eq_lifted hholds
  rw [heq, lifted]
  exact Shader.expr_forgetExprs s _

namespace InlineField

variable {s : Shader}

theorem expr_splices (position : Nat) (calls : List ExprId) (s : Shader) (id : ExprId) :
    (calls.foldl (spliceConstructor position) s).expr id = s.expr id ∨
      id ∈ calls ∧ ∃ callee args args', s.expr id = .call callee args ∧
        (calls.foldl (spliceConstructor position) s).expr id = .call callee args' := by
  induction calls generalizing s with
  | nil => exact Or.inl rfl
  | cons call calls ih =>
      have hone : (spliceConstructor position s call).expr id = s.expr id ∨
          id = call ∧ ∃ callee args args', s.expr id = .call callee args ∧
            (spliceConstructor position s call).expr id = .call callee args' := by
        by_cases hid : id = call
        · obtain heq | ⟨callee, args, wrapped, inner, innerArgs, hcall, -, -, heq⟩ :=
            spliceConstructor_cases position s call
          · exact Or.inl (by rw [heq])
          · rw [heq, Shader.expr_setExpr]
            split
            next => exact Or.inr ⟨hid, callee, args, _, by rw [hid, hcall], rfl⟩
            next => exact Or.inl (congrFun (Shader.expr_forgetExprs s _) id)
        · exact Or.inl (expr_spliceConstructor_of_ne hid)
      rw [List.foldl_cons]
      obtain hrest | ⟨hmem, callee, args, args', hold, hnew⟩ := ih (spliceConstructor position s call)
      · rw [hrest]
        refine hone.imp_right ?_
        rintro ⟨rfl, hcall⟩
        exact ⟨List.mem_cons_self, hcall⟩
      · refine Or.inr ⟨List.mem_cons_of_mem _ hmem, callee, ?_⟩
        obtain hsame | ⟨-, callee', args'', _, hold', hnew'⟩ := hone
        · exact ⟨args, args', hsame ▸ hold, hnew⟩
        · rw [hnew'] at hold
          cases hold
          exact ⟨args'', args', hold', hnew⟩

theorem expr_redirects (names : List String) (accesses : List Access) (s : Shader) (id : ExprId) :
    (accesses.foldl (redirect names) s).expr id = s.expr id ∨ ∃ a ∈ accesses,
      id = a.member ∧ (accesses.foldl (redirect names) s).expr id =
        .member a.base (names[a.position]?.getD "") := by
  induction accesses generalizing s with
  | nil => exact Or.inl rfl
  | cons access accesses ih =>
      rw [List.foldl_cons]
      obtain hrest | ⟨a, ha, hrest⟩ := ih (redirect names s access)
      · rw [hrest, redirect_eq, Shader.expr_setExpr, Shader.expr_forgetExprs]
        split
        next hid => exact Or.inr ⟨access, List.mem_cons_self, hid.1.symm, rfl⟩
        next => exact Or.inl rfl
      · exact Or.inr ⟨a, List.mem_cons_of_mem _ ha, hrest⟩

variable {outerId : DeclId} {field : String} {plan : Plan} {outer inner : StructDecl}
  {wrapper : FieldDecl}

/-- A slot keeps its node, or holds a constructor of the outer structure with other arguments, or a
member of the value that the wrapper was a member of. -/
theorem Fits.expr_inlined (hfits : Fits s outerId field plan outer inner wrapper) (h : s.Grounded)
    (fields : List FieldDecl) (id : ExprId) :
    (inlined s outerId outer plan fields).expr id = s.expr id ∨
      (∃ args args', s.expr id = .call outer.name args ∧
        (inlined s outerId outer plan fields).expr id = .call outer.name args') ∨
      ∃ a ∈ plan.accesses, id = a.member ∧ (inlined s outerId outer plan fields).expr id =
        .member a.base ((fields.map FieldDecl.name)[a.position]?.getD "") := by
  rw [inlined]
  set w := s.setDecl outerId (.struct (widened outer plan.position fields)) with hw
  have hexpr : w.expr id = s.expr id := rfl
  obtain hsame | hnew := expr_redirects (fields.map FieldDecl.name) plan.accesses
    (plan.constructors.foldl (spliceConstructor plan.position) w) id
  · rw [hsame]
    obtain hsame | ⟨hmem, callee, args, args', hold, hnew⟩ :=
      expr_splices plan.position plan.constructors w id
    · exact Or.inl (hsame.trans hexpr)
    · obtain ⟨args'', hcall⟩ := hfits.expr_constructor h hmem
      rw [hexpr, hcall] at hold
      cases hold
      exact Or.inr (Or.inl ⟨args, args', hcall, hnew⟩)
  · exact Or.inr (Or.inr hnew)

theorem expr_apply (h : s.Grounded) (supply : NameSupply) (outerId : DeclId) (field : String)
    (id : ExprId) : (apply s supply outerId field).1.expr id = s.expr id ∨
      (Change.inlineField outerId field).Puts s id ((apply s supply outerId field).1.expr id) := by
  obtain heq | ⟨plan, outer, inner, wrapper, taken, hfits, heq⟩ :=
    apply_cases s supply outerId field
  · exact Or.inl (by rw [heq])
  rw [heq, ← inlined]
  obtain hsame | ⟨args, args', hcall, hnew⟩ | ⟨a, ha, rfl, hnew⟩ :=
    hfits.expr_inlined h (renamed field taken supply inner.fields).1 id
  · exact Or.inl hsame
  · rw [hnew]
    exact Or.inr (.constructor (Decl.struct?_eq_some.mp hfits.outer_eq) hfits.outer_start hcall args')
  · obtain ⟨⟨name, hmember⟩, hwrapper⟩ := hfits.through h ha
    rw [hnew]
    exact Or.inr (.access hmember hwrapper _)

end InlineField

namespace Opportunity

variable {s : Shader}

/-- A slot keeps its node unless the change puts another one into it. -/
theorem expr_apply (h : s.Grounded) {o : Opportunity} (hholds : o.holds s = true)
    (supply : NameSupply) (id : ExprId) : (o.apply s supply).1.expr id = s.expr id ∨
      o.change.Puts s id ((o.apply s supply).1.expr id) := by
  obtain ⟨depth, change⟩ := o
  cases change with
  | toSubExpr target child =>
      simp only [apply]
      rw [Shader.replaceWithChild_eq, Shader.expr_setExpr, Shader.expr_forgetExprs]
      split
      next hid => exact Or.inr (hid.1 ▸ .operand target child)
      next => exact Or.inl rfl
  | toConstant target constant =>
      simp only [apply]
      cases constant with
      | scalar value =>
          rw [Constant.apply, Shader.replaceWithLeaf_eq, Shader.expr_setExpr, Shader.expr_forgetExprs]
          split
          next hid => exact Or.inr (hid.1 ▸ .scalar target value)
          next => exact Or.inl rfl
      | vector constructor element =>
          rw [Constant.apply_vector, Shader.replaceWithLeaf_eq, Shader.expr_setExpr,
            Shader.expr_forgetExprs]
          split
          next hid => exact Or.inr (hid.1 ▸ .vector target constructor element)
          next =>
            rw [Shader.expr_addExpr]
            split
            next hid =>
              obtain ⟨i⟩ := id
              obtain rfl : i = s.exprs.size := hid
              exact Or.inr (.element target constructor element)
            next => exact Or.inl rfl
  | removeDecl decl => exact Or.inl (congrFun (Shader.expr_removeDecl s decl) id)
  | inlineField outer field => exact InlineField.expr_apply h supply outer field id
  | removeStmt block stmt => exact Or.inl (congrFun (Shader.expr_removeFromBlock s block stmt) id)
  | removeVariable stmt block name => exact Or.inl (congrFun (UnusedVariable.expr_apply hholds) id)
  | unwrap block target way => exact Or.inl (congrFun (Unwrap.expr_apply hholds) id)

/-- A change keeps all declarations but the one that it takes away. -/
theorem decls_apply {o : Opportunity} (hholds : o.holds s = true) (supply : NameSupply) :
    (o.apply s supply).1.decls = s.decls ∨
      ∃ d, o.change = .removeDecl d ∧ (o.apply s supply).1.decls = s.decls.erase d := by
  obtain ⟨depth, change⟩ := o
  cases change with
  | toSubExpr target child => exact Or.inl (Shader.decls_replaceWithChild s target child).1
  | toConstant target constant => exact Or.inl (Constant.decls_apply s target constant).1
  | removeDecl d => exact Or.inr ⟨d, rfl, Shader.decls_removeDecl s d⟩
  | inlineField outer field => exact Or.inl (InlineField.same_apply s supply outer field).1
  | removeStmt block stmt => exact Or.inl (Shader.decls_removeFromBlock s block stmt).1
  | removeVariable stmt block name =>
      exact Or.inl (UnusedVariable.decls_apply s stmt block name).1
  | unwrap block target way => exact Or.inl (Unwrap.decls_apply hholds).1

end Opportunity

end ShaderReducer
