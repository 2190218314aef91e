import ShaderReducer.Proofs.Analysis.Scope
import ShaderReducer.Proofs.Shader.Structs

/-!
# Code that cannot run

The scope of the reduction is told without the search and the marks that it is computed with: what
lies in the body of a function that no chain of calls from `main` leads to, or in the branch of a
condition that was put in to be false.

Initial values at top level run too, and are not in the body of `main`. What they call is in scope if
`main` does not come to it, though it can run.
-/

namespace ShaderReducer

namespace Shader

variable {s : Shader}

/-! ## Injected conditions -/

/-- The node of an expression, whatever parentheses stand around it. -/
inductive Bare (s : Shader) : ExprId → ExprNode ExprId → Prop
  | node {e : ExprId} (h : ∀ inner, s.expr e ≠ .paren inner) : Bare s e (s.expr e)
  | paren {e inner : ExprId} {form : ExprNode ExprId} (h : s.expr e = .paren inner)
    (hinner : Bare s inner form) : Bare s e form

/-- An expression is a component of the switch. -/
def IsSwitch (s : Shader) (component : String) (e : ExprId) : Prop :=
  ∃ base, s.Bare e (.member base component) ∧ s.Bare base (.ident "injectionSwitch")

/-- A condition was put in to be false: it is a call of the marker, or compares the components of the
switch. -/
def IsDeadGuard (s : Shader) (cond : ExprId) : Prop :=
  (∃ args, s.Bare cond (.call "_GLF_DEAD" args)) ∨
    ∃ lhs rhs, s.Bare cond (.binary .gt lhs rhs) ∧ s.IsSwitch "x" lhs ∧ s.IsSwitch "y" rhs

/-- Without its parentheses an expression is the tree of a slot, and its node is in that slot. -/
theorem Grounded.exists_stripParens (h : s.Grounded) (e : ExprId) :
    ∃ core, (s.exprTree e).stripParens = s.exprTree core ∧
      ∀ form, s.Bare e form ↔ s.expr core = form := by
  induction e using h.expr_induction with
  | step e ih =>
      by_cases hparen : ∃ inner, s.expr e = .paren inner
      · obtain ⟨inner, hinner⟩ := hparen
        obtain ⟨core, hcore, hbare⟩ := ih inner (by simp [hinner, ExprNode.children])
        refine ⟨core, ?_, fun form => (Iff.intro (fun hform => ?_) (.paren hinner)).trans (hbare form)⟩
        · rw [h.exprTree_eq, hinner]
          exact hcore
        · cases hform with
          | node hnode => exact absurd hinner (hnode inner)
          | paren hother hform =>
              cases hinner.symm.trans hother
              exact hform
      · have hnode : ∀ inner, s.expr e ≠ .paren inner := fun inner hinner => hparen ⟨inner, hinner⟩
        refine ⟨e, ?_, fun form => ⟨fun hform => ?_, fun hform => hform ▸ .node hnode⟩⟩
        · rw [h.exprTree_eq]
          cases hform : s.expr e with
          | paren inner => exact absurd hform (hnode inner)
          | _ => rfl
        · cases hform with
          | node => rfl
          | paren hinner => exact absurd hinner (hnode _)

theorem Grounded.isSwitchComponent_iff (h : s.Grounded) {component : String} {e : ExprId} :
    (s.exprTree e).isSwitchComponent component = true ↔ s.IsSwitch component e := by
  obtain ⟨core, hcore, hbare⟩ := h.exists_stripParens e
  simp only [IsSwitch, hbare]
  rw [Expr.isSwitchComponent, hcore, h.exprTree_eq]
  cases hform : s.expr core with
  | member base field =>
      obtain ⟨core', hcore', hbare'⟩ := h.exists_stripParens base
      have hname : ∀ name, s.Bare base (.ident name) ↔ s.expr core' = .ident name := fun _ => hbare' _
      simp only [ExprNode.map, hcore', h.exprTree_eq core', ExprNode.member.injEq, Bool.and_eq_true,
        beq_iff_eq]
      cases hform' : s.expr core' with
      | ident name => simp [hname, hform', injectionSwitch]
      | _ => simp [hname, hform']
  | _ => simp [ExprNode.map]

theorem Grounded.isDeadCondition_iff (h : s.Grounded) {cond : ExprId} :
    (s.exprTree cond).isDeadCondition = true ↔ s.IsDeadGuard cond := by
  obtain ⟨core, hcore, hbare⟩ := h.exists_stripParens cond
  simp only [IsDeadGuard, hbare]
  rw [Expr.isDeadCondition, hcore, h.exprTree_eq]
  cases hform : s.expr core with
  | call callee args => simp [ExprNode.map, deadMarker]
  | binary op lhs rhs =>
      cases op <;> simp [ExprNode.map, h.isSwitchComponent_iff]
  | _ => simp [ExprNode.map]

/-! ## Where code cannot run -/

/-- A statement at the top of code that cannot run: the body of a function that no chain of calls from
`main` leads to, or the branch of a condition that was put in to be false. -/
inductive Idle (s : Shader) : StmtId → Prop
  | body {d : DeclId} {f : FunctionDecl StmtId} {root : StmtId} (hd : d ∈ s.decls)
    (hdecl : s.decl d = .function f) (hbody : f.body = some root)
    (hcalls : ¬ Relation.ReflTransGen s.Calls "main" f.name) : Idle s root
  | branch {id root : StmtId} {cond : ExprId} {onFalse : Option StmtId}
    (hid : s.Reaches (.stmt id)) (hform : s.stmt id = .ifElse cond root onFalse)
    (hcond : s.IsDeadGuard cond) : Idle s root

end Shader

namespace ReductionScope

variable {s : Shader}

theorem mem_unreachableFunctions (h : s.Grounded) {d : DeclId} : d ∈ unreachableFunctions s ↔
    d ∈ s.decls ∧ ∃ f, s.decl d = .function f ∧ f.body.isSome = true ∧
      ¬ Relation.ReflTransGen s.Calls "main" f.name := by
  have hreached : ∀ name, (!(CallGraph.ofShader s).reachedFromMain.contains name) = true ↔
      ¬ Relation.ReflTransGen s.Calls "main" name := by
    intro name
    rw [← h.mem_reachedFromMain, ← List.contains_iff_mem, Bool.not_eq_true', Bool.not_eq_true]
  constructor
  · intro hd
    obtain ⟨⟨d', f⟩, hf, rfl⟩ := List.mem_map.mp hd
    obtain ⟨hf, hidle⟩ := List.mem_filter.mp hf
    obtain ⟨hd, hdecl⟩ := Shader.mem_functions.mp hf
    obtain ⟨hbody, hcalls⟩ := Bool.and_eq_true_iff.mp hidle
    exact ⟨hd, f, hdecl, hbody, (hreached f.name).mp hcalls⟩
  · rintro ⟨hd, f, hdecl, hbody, hcalls⟩
    refine List.mem_map.mpr ⟨(d, f), List.mem_filter.mpr ⟨Shader.mem_functions.mpr ⟨hd, hdecl⟩, ?_⟩, rfl⟩
    exact Bool.and_eq_true_iff.mpr ⟨hbody, (hreached f.name).mpr hcalls⟩

theorem deadBranch?_stmtTree (h : s.Grounded) {id : StmtId} {branch : Stmt ExprId StmtId} :
    (s.stmtTree id).deadBranch? = some branch ↔ ∃ cond root onFalse,
      s.stmt id = .ifElse cond root onFalse ∧ s.IsDeadGuard cond ∧ branch = s.stmtTree root := by
  rw [h.stmtTree_eq]
  cases hform : s.stmt id with
  | ifElse cond root onFalse =>
      simp only [StmtNode.map, Stmt.deadBranch?, Option.ite_none_right_eq_some, h.isDeadCondition_iff,
        Option.some.injEq, StmtNode.ifElse.injEq]
      constructor
      · rintro ⟨hcond, rfl⟩
        exact ⟨cond, root, onFalse, ⟨rfl, rfl, rfl⟩, hcond, rfl⟩
      · rintro ⟨_, _, _, ⟨rfl, rfl, rfl⟩, hcond, rfl⟩
        exact ⟨hcond, rfl⟩
  | _ => simp [StmtNode.map, Stmt.deadBranch?]

theorem mem_deadBranches (h : s.Grounded) (ho : s.Owned) {branch : Stmt ExprId StmtId} :
    branch ∈ (deadBranches s).map Prod.snd ↔ ∃ id cond root onFalse, s.Reaches (.stmt id) ∧
      s.stmt id = .ifElse cond root onFalse ∧ s.IsDeadGuard cond ∧ branch = s.stmtTree root := by
  have hvisits : ∀ id, s.Reaches (.stmt id) ↔ id ∈ s.stmtVisits.map fun v => v.2.tag := by
    intro id
    rw [← ho.isLive_iff_reaches h, Shader.isLive, ← Shader.mem_liveStmts, ← ho.coe_stmtVisits h,
      Multiset.mem_coe]
  constructor
  · intro hbranch
    obtain ⟨⟨id, branch⟩, hmem, rfl⟩ := List.mem_map.mp hbranch
    obtain ⟨⟨depth, t⟩, ht, hpair⟩ := List.mem_filterMap.mp hmem
    obtain ⟨branch', hdead, heq⟩ := Option.map_eq_some_iff.mp hpair
    cases heq
    have htree : t = s.stmtTree t.tag :=
      h.eq_stmtTree_of_mem_stmtVisits (List.mem_map_of_mem (f := Prod.snd) ht)
    rw [htree] at hdead
    obtain ⟨cond, root, onFalse, hform, hcond, rfl⟩ := (deadBranch?_stmtTree h).mp hdead
    exact ⟨t.tag, cond, root, onFalse,
      (hvisits t.tag).mpr (List.mem_map_of_mem (f := fun v => v.2.tag) ht), hform, hcond, rfl⟩
  · rintro ⟨id, cond, root, onFalse, hid, hform, hcond, rfl⟩
    obtain ⟨⟨depth, t⟩, ht, rfl⟩ := List.mem_map.mp ((hvisits id).mp hid)
    have htree : t = s.stmtTree t.tag :=
      h.eq_stmtTree_of_mem_stmtVisits (List.mem_map_of_mem (f := Prod.snd) ht)
    have hdead : t.deadBranch? = some (s.stmtTree root) := by
      rw [htree]
      exact (deadBranch?_stmtTree h).mpr ⟨cond, root, onFalse, hform, hcond, rfl⟩
    refine List.mem_map.mpr ⟨(t.tag, s.stmtTree root), List.mem_filterMap.mpr ⟨(depth, t), ht, ?_⟩, rfl⟩
    exact Option.map_eq_some_iff.mpr ⟨_, hdead, rfl⟩

theorem mem_roots (h : s.Grounded) (ho : s.Owned) {tree : Stmt ExprId StmtId} :
    tree ∈ roots s ↔ ∃ root, s.Idle root ∧ tree = s.stmtTree root := by
  rw [roots, List.mem_append, mem_deadBranches h ho]
  constructor
  · rintro (hbody | ⟨id, cond, root, onFalse, hid, hform, hcond, rfl⟩)
    · obtain ⟨d, hd, hbody⟩ := List.mem_filterMap.mp hbody
      obtain ⟨hd, f, hdecl, -, hcalls⟩ := (mem_unreachableFunctions h).mp hd
      rw [Shader.declTree, hdecl] at hbody
      obtain ⟨root, hroot, rfl⟩ := Option.map_eq_some_iff.mp hbody
      exact ⟨root, .body hd hdecl hroot hcalls, rfl⟩
    · exact ⟨root, .branch hid hform hcond, rfl⟩
  · rintro ⟨root, hroot, rfl⟩
    cases hroot with
    | @body d f _ hd hdecl hbody hcalls =>
        refine Or.inl (List.mem_filterMap.mpr ⟨d, (mem_unreachableFunctions h).mpr ?_, ?_⟩)
        · exact ⟨hd, f, hdecl, by rw [hbody]; rfl, hcalls⟩
        · rw [Shader.declTree, hdecl]
          exact Option.map_eq_some_iff.mpr ⟨root, hbody, rfl⟩
    | branch hid hform hcond => exact Or.inr ⟨_, _, root, _, hid, hform, hcond, rfl⟩

/-- A statement is in scope if it lies in code that cannot run. -/
theorem containsStmt_iff_idle (h : s.Grounded) (ho : s.Owned) {t : StmtId} :
    (ofShader s false).containsStmt t = true ↔
      ∃ root, s.Idle root ∧ s.LiesIn (.stmt root) (.stmt t) := by
  have hlies : ∀ root, s.LiesIn (.stmt root) (.stmt t) ↔ t ∈ s.stmtSlots root := by
    intro root
    simp [h.liesIn_stmt]
  simp only [containsStmt_iff h ho, mem_roots h ho, hlies]
  constructor
  · rintro ⟨_, ⟨root, hroot, rfl⟩, ht⟩
    exact ⟨root, hroot, by rwa [Shader.tag_stmtTree] at ht⟩
  · rintro ⟨root, hroot, ht⟩
    exact ⟨_, ⟨root, hroot, rfl⟩, by rwa [Shader.tag_stmtTree]⟩

/-- An expression is in scope if it lies in code that cannot run. -/
theorem containsExpr_iff_idle (h : s.Grounded) (ho : s.Owned) {e : ExprId} :
    (ofShader s false).containsExpr e = true ↔
      ∃ root, s.Idle root ∧ s.LiesIn (.stmt root) (.expr e) := by
  have hlies : ∀ root, s.LiesIn (.stmt root) (.expr e) ↔ e ∈ s.stmtExprSlots root := by
    intro root
    simp [h.liesIn_stmt]
  simp only [containsExpr_iff h ho, mem_roots h ho, hlies]
  constructor
  · rintro ⟨_, ⟨root, hroot, rfl⟩, he⟩
    exact ⟨root, hroot, by rwa [Shader.tag_stmtTree] at he⟩
  · rintro ⟨root, hroot, he⟩
    exact ⟨_, ⟨root, hroot, rfl⟩, by rwa [Shader.tag_stmtTree]⟩

/-- In scope is what lies in a function with a body that no chain of calls from `main` leads to, or in the
branch of an injected condition. -/
theorem scope_ofProgram (p : Program) :
    (∀ d, (ofShader (Shader.ofProgram p) false).isUnreachableFunction d = true ↔
      d ∈ (Shader.ofProgram p).decls ∧ ∃ f, (Shader.ofProgram p).decl d = .function f ∧
        f.body.isSome = true ∧
        ¬ Relation.ReflTransGen (Shader.ofProgram p).Calls "main" f.name) ∧
    (∀ t, (ofShader (Shader.ofProgram p) false).containsStmt t = true ↔
      ∃ root, (Shader.ofProgram p).Idle root ∧
        (Shader.ofProgram p).LiesIn (.stmt root) (.stmt t)) ∧
    ∀ e, (ofShader (Shader.ofProgram p) false).containsExpr e = true ↔
      ∃ root, (Shader.ofProgram p).Idle root ∧
        (Shader.ofProgram p).LiesIn (.stmt root) (.expr e) := by
  have hlaid := Shader.laidOut_ofProgram p
  have h := hlaid.layered.grounded
  refine ⟨fun d => ?_, fun t => containsStmt_iff_idle h hlaid.owned,
    fun e => containsExpr_iff_idle h hlaid.owned⟩
  rw [isUnreachableFunction, ofShader, List.contains_iff_mem]
  exact mem_unreachableFunctions h

end ReductionScope

/-! ## Initial values at top level -/

namespace Shader

variable {s : Shader} {name : String}

/-- A call of a name stands in the initial value of a variable at top level. -/
def CallsInitially (s : Shader) (name : String) : Prop :=
  ∃ d ∈ s.decls, ∃ decl, s.decl d = .vars decl ∧ ∃ root ∈ decl.inits,
    ∃ e args, s.LiesIn (.expr root) (.expr e) ∧ s.expr e = .call name args

/-- The names of the functions that a run comes to: `main`, what initial values at top level call, and
what these functions call in turn. -/
inductive CanRun (s : Shader) : String → Prop
  | main : CanRun s "main"
  | initial {name : String} (h : s.CallsInitially name) : CanRun s name
  | call {caller callee : String} (hcaller : CanRun s caller) (h : s.Calls caller callee) :
    CanRun s callee

/-- A function of the name has a body. Others that are called are built in or constructors. -/
def HasBody (s : Shader) (name : String) : Prop :=
  ∃ d ∈ s.decls, ∃ f, s.decl d = .function f ∧ f.name = name ∧ f.body.isSome = true

theorem mem_names_callGraph (h : s.HasBody name) : name ∈ (CallGraph.ofShader s).map Prod.fst := by
  obtain ⟨d, hd, f, hdecl, rfl, hbody⟩ := h
  obtain ⟨body, hbody⟩ := Option.isSome_iff_exists.mp hbody
  exact List.mem_map_of_mem (f := Prod.fst) (mem_callGraph.mpr ⟨d, hd, f, body, hdecl, hbody, rfl⟩)

/-- If `main` comes to all functions with a body that initial values call, it comes to all functions
with a body that can run. -/
theorem CanRun.reached (h : s.CanRun name) (hbody : s.HasBody name)
    (hinits : ∀ name, s.CallsInitially name → s.HasBody name →
      Relation.ReflTransGen s.Calls "main" name) :
    Relation.ReflTransGen s.Calls "main" name := by
  induction h with
  | main => exact .refl
  | initial hname => exact hinits _ hname hbody
  | call _ hcall ih =>
    obtain ⟨d, hd, f, hdecl, hname, body, hsome, -⟩ := id hcall
    exact (ih ⟨d, hd, f, hdecl, hname, by rw [hsome]; rfl⟩).tail hcall

theorem Grounded.callsInitially_iff (h : s.Grounded) : s.CallsInitially name ↔
    ∃ d ∈ s.decls, ∃ root ∈ (s.decl d).inits, ∃ e ∈ s.exprSlots root,
      NameUses.calledName? (s.exprTree e) = some name := by
  have hcalled : ∀ e, NameUses.calledName? (s.exprTree e) = some name ↔
      ∃ args, s.expr e = .call name args := by
    intro e
    rw [h.exprTree_eq]
    cases s.expr e <;> simp [ExprNode.map, NameUses.calledName?]
  constructor
  · rintro ⟨d, hd, decl, hdecl, root, hroot, e, args, hlies, hcall⟩
    obtain ⟨e, he, heq⟩ := h.liesIn_expr.mp hlies
    cases heq
    exact ⟨d, hd, root, by rw [hdecl]; exact hroot, e, he, (hcalled e).mpr ⟨args, hcall⟩⟩
  · rintro ⟨d, hd, root, hroot, e, he, hname⟩
    obtain ⟨args, hcall⟩ := (hcalled e).mp hname
    cases hdecl : s.decl d with
    | vars decl =>
        rw [hdecl] at hroot
        exact ⟨d, hd, decl, hdecl, root, hroot, e, args, h.liesIn_expr.mpr ⟨e, he, rfl⟩, hcall⟩
    | _ =>
        rw [hdecl] at hroot
        cases hroot

end Shader

namespace ReductionScope

/-- A statement in scope is in the branch of an injected condition or in a function that no run comes
to, if `main` comes to all functions with a body that initial values at top level call. -/
theorem cannotRun_of_containsStmt (p : Program)
    (hinits : ∀ name, (Shader.ofProgram p).CallsInitially name →
      (Shader.ofProgram p).HasBody name → Relation.ReflTransGen (Shader.ofProgram p).Calls "main" name) {t : StmtId}
    (ht : (ofShader (Shader.ofProgram p) false).containsStmt t = true) :
    (∃ id cond root onFalse, (Shader.ofProgram p).Reaches (.stmt id) ∧
      (Shader.ofProgram p).stmt id = .ifElse cond root onFalse ∧
      (Shader.ofProgram p).IsDeadGuard cond ∧
      (Shader.ofProgram p).LiesIn (.stmt root) (.stmt t)) ∨
    ∃ d ∈ (Shader.ofProgram p).decls, ∃ f body, (Shader.ofProgram p).decl d = .function f ∧
      f.body = some body ∧ (Shader.ofProgram p).LiesIn (.stmt body) (.stmt t) ∧
      ¬ (Shader.ofProgram p).CanRun f.name := by
  have hlaid := Shader.laidOut_ofProgram p
  obtain ⟨root, hroot, hlies⟩ :=
    (containsStmt_iff_idle hlaid.layered.grounded hlaid.owned).mp ht
  cases hroot with
  | @body d f _ hd hdecl hbody hcalls =>
      refine Or.inr ⟨d, hd, f, root, hdecl, hbody, hlies, fun hrun => hcalls ?_⟩
      exact hrun.reached ⟨d, hd, f, hdecl, rfl, by rw [hbody]; rfl⟩ hinits
  | @branch id _ cond onFalse hid hform hcond =>
      exact Or.inl ⟨id, cond, root, onFalse, hid, hform, hcond, hlies⟩

/-- An initial value calls a function that `main` calls too, another one calls what is built in, and
another function is not called. -/
def calledTwice : Program :=
  let call (name : String) : Expr Unit := .node () (.call name [])
  let function (name : String) (e : Expr Unit) : DeclTree Unit Unit :=
    .function ⟨.ofName "void", name, [], some (.node () (.block [.node () (.expr e)]))⟩
  ⟨none, [function "g" (.node () (.ident "a")), function "f" (call "g"), function "main" (call "g"),
    .vars ⟨.ofName "float", [⟨"x", none, some (call "g")⟩, ⟨"y", none, some (call "sin")⟩]⟩]⟩

/-- The body of the function that is not called is in scope, and no run comes to it. -/
theorem cannotRun_calledTwice :
    (∀ name, (Shader.ofProgram calledTwice).CallsInitially name →
      (Shader.ofProgram calledTwice).HasBody name →
        Relation.ReflTransGen (Shader.ofProgram calledTwice).Calls "main" name) ∧
    (Shader.ofProgram calledTwice).CallsInitially "g" ∧
    (ofShader (Shader.ofProgram calledTwice) false).containsStmt ⟨2⟩ = true ∧
    ∃ d ∈ (Shader.ofProgram calledTwice).decls, ∃ f body,
      (Shader.ofProgram calledTwice).decl d = .function f ∧ f.body = some body ∧
      (Shader.ofProgram calledTwice).LiesIn (.stmt body) (.stmt ⟨2⟩) ∧
      ¬ (Shader.ofProgram calledTwice).CanRun f.name := by
  have hlaid := Shader.laidOut_ofProgram calledTwice
  have h := hlaid.layered.grounded
  have hcalled : ∀ d ∈ (Shader.ofProgram calledTwice).decls,
      ∀ root ∈ ((Shader.ofProgram calledTwice).decl d).inits,
        ∀ e ∈ (Shader.ofProgram calledTwice).exprSlots root,
          ∀ name ∈ NameUses.calledName? ((Shader.ofProgram calledTwice).exprTree e),
            name = "sin" ∨
              name ∈ (CallGraph.ofShader (Shader.ofProgram calledTwice)).reachedFromMain := by
    decide +kernel
  have hbuiltin : "sin" ∉ (CallGraph.ofShader (Shader.ofProgram calledTwice)).map Prod.fst := by
    decide +kernel
  have hinits : ∀ name, (Shader.ofProgram calledTwice).CallsInitially name →
      (Shader.ofProgram calledTwice).HasBody name →
        Relation.ReflTransGen (Shader.ofProgram calledTwice).Calls "main" name := by
    intro name hname hbody
    obtain ⟨d, hd, root, hroot, e, he, heq⟩ := h.callsInitially_iff.mp hname
    obtain rfl | hreached := hcalled d hd root hroot e he name heq
    · exact absurd (Shader.mem_names_callGraph hbody) hbuiltin
    · exact h.mem_reachedFromMain.mp hreached
  have hinitial : ∃ d ∈ (Shader.ofProgram calledTwice).decls,
      ∃ root ∈ ((Shader.ofProgram calledTwice).decl d).inits,
        ∃ e ∈ (Shader.ofProgram calledTwice).exprSlots root,
          NameUses.calledName? ((Shader.ofProgram calledTwice).exprTree e) = some "g" := by
    decide +kernel
  have hscope : (ofShader (Shader.ofProgram calledTwice) false).containsStmt ⟨2⟩ = true := by
    decide +kernel
  refine ⟨hinits, h.callsInitially_iff.mpr hinitial, hscope, ?_⟩
  rcases cannotRun_of_containsStmt calledTwice hinits hscope with
    ⟨id, cond, root, onFalse, hid, hform, -⟩ | hidle
  · -- no statement of the shader has both statements and expressions as its parts
    have hparts : ∀ i < (Shader.ofProgram calledTwice).stmts.size,
        ((Shader.ofProgram calledTwice).stmt ⟨i⟩).childStmts = [] ∨
          ((Shader.ofProgram calledTwice).stmt ⟨i⟩).childExprs = [] := by decide +kernel
    have hlive := (hlaid.owned.isLive_iff_reaches h (.stmt id)).mpr hid
    have hnone := hparts id.index (Shader.lt_size_of_mem_liveStmts (Shader.mem_liveStmts.mpr hlive))
    rw [hform] at hnone
    obtain hnone | hnone := hnone <;> cases hnone
  · exact hidle

end ReductionScope

end ShaderReducer
