import ShaderReducer.Proofs.Opportunity.Rewrites
import ShaderReducer.Proofs.Typing.Scoped

/-!
# Scopes when statements change

Taking a statement out of a block, taking a variable out of its declaration and putting a part of a
statement in its place leave all expressions as they are. What is left stands where it stood: no
declaration is taken out with a statement or moved out of its block, and a variable that is taken out
is not named where it was in scope.
-/

namespace ShaderReducer

namespace Shader

variable {s t u : Shader} {d : DeclId} {scope scope' : TypeScope}

/-- Every expression of a shader that another one has too stands somewhere in that one, with the same
type. -/
def Retypes (s t : Shader) : Prop :=
  ∀ d scope id, t.Scoped d scope (.expr id) → id.index < s.exprs.size →
    ∃ scope', s.Scoped d scope' (.expr id) ∧ t.typeAt scope id = s.typeAt scope' id

theorem Retypes.trans (h : s.Retypes t) (h' : t.Retypes u) (hsize : s.exprs.size ≤ t.exprs.size) :
    s.Retypes u := by
  intro d scope id hid hlt
  obtain ⟨scope', hid', htype⟩ := h' d scope id hid (hlt.trans_le hsize)
  obtain ⟨scope'', hid'', htype'⟩ := h d scope' id hid' hlt
  exact ⟨scope'', hid'', htype.trans htype'⟩

/-- Statements are given other forms that declare nothing anew and hold no declaration outside of a
block. -/
def Tames (s t : Shader) : Prop :=
  ∀ id, t.stmt id = s.stmt id ∨ ((t.stmt id).bareStmts = [] ∧
    ((t.stmt id).isVars = true → (s.stmt id).isVars = true))

theorem Tames.refl (s : Shader) : s.Tames s :=
  fun _ => Or.inl rfl

theorem Tames.isVars (h : s.Tames t) {id : StmtId} (hid : (t.stmt id).isVars = true) :
    (s.stmt id).isVars = true := by
  rcases h id with heq | ⟨-, hvars⟩
  · exact heq ▸ hid
  · exact hvars hid

theorem Tames.trans (h : s.Tames t) (h' : t.Tames u) : s.Tames u := by
  intro id
  rcases h' id with heq | ⟨hbare, hvars⟩
  · rw [heq]
    exact h id
  · exact Or.inr ⟨hbare, fun hid => h.isVars (hvars hid)⟩

/-- Local declarations stay in blocks and headers of loops. -/
theorem LocalsPlaced.of_tames (hs : s.LocalsPlaced) (h : s.Tames t) : t.LocalsPlaced := by
  intro id c hc
  rcases h id with heq | ⟨hbare, -⟩
  · rw [heq] at hc
    refine Bool.eq_false_of_not_eq_true fun hvars => ?_
    have hold := h.isVars hvars
    rw [hs id c hc] at hold
    cases hold
  · rw [hbare] at hc
    cases hc

theorem tames_of_stmts_eq (h : t.stmt = s.stmt) : s.Tames t :=
  fun id => Or.inl (congrFun h id)

/-! ## Shaders with other statements -/

/-- A shader that differs from another one in its statements only. -/
structure Restated (s t : Shader) : Prop where
  size_eq : t.exprs.size = s.exprs.size
  expr_eq : t.expr = s.expr
  decls_eq : t.decls = s.decls
  decl_eq : t.decl = s.decl

theorem Restated.refl (s : Shader) : s.Restated s :=
  ⟨rfl, rfl, rfl, rfl⟩

theorem Restated.trans (h : s.Restated t) (h' : t.Restated u) : s.Restated u :=
  ⟨h'.size_eq.trans h.size_eq, h'.expr_eq.trans h.expr_eq, h'.decls_eq.trans h.decls_eq,
    h'.decl_eq.trans h.decl_eq⟩

theorem signatures_congr (hdecls : t.decls = s.decls) (hdecl : t.decl = s.decl) :
    Signatures.ofShader t = Signatures.ofShader s := by
  rw [Signatures.ofShader, Signatures.ofShader, structs, functions, structs, functions, hdecls, hdecl]

theorem Restated.signatures_eq (h : s.Restated t) : Signatures.ofShader t = Signatures.ofShader s :=
  signatures_congr h.decls_eq h.decl_eq

theorem Restated.typeAt_eq (h : s.Restated t) : t.typeAt = s.typeAt := by
  funext scope id
  rw [typeAt, typeAt, h.signatures_eq, exprTree_congr h.size_eq h.expr_eq]

theorem Restated.declAfter_eq (h : s.Restated t) : t.declAfter = s.declAfter := by
  funext scope d
  rw [declAfter, declAfter, h.decl_eq, h.signatures_eq]

theorem Restated.bodyScope_eq (h : s.Restated t) : t.bodyScope = s.bodyScope := by
  funext scope d
  rw [bodyScope, bodyScope, h.decl_eq, h.signatures_eq]

theorem Restated.scopeAfter_eq (h : s.Restated t) {id : StmtId} (hid : t.stmt id = s.stmt id)
    (scope : TypeScope) : t.scopeAfter scope id = s.scopeAfter scope id := by
  rw [scopeAfter, scopeAfter, hid, h.signatures_eq]

theorem rowScopes_congr {ts : List StmtId}
    (h : ∀ id ∈ ts, ∀ scope, t.scopeAfter scope id = s.scopeAfter scope id) (scope : TypeScope) :
    t.rowScopes scope ts = s.rowScopes scope ts := by
  induction ts generalizing scope with
  | nil => rfl
  | cons id ts ih =>
      rw [rowScopes, rowScopes, h id List.mem_cons_self,
        ih fun id' hid' => h id' (List.mem_cons_of_mem _ hid')]

theorem stmtScopes_congr {id : StmtId} (hid : t.stmt id = s.stmt id)
    (h : ∀ c ∈ (s.stmt id).childStmts, ∀ scope, t.scopeAfter scope c = s.scopeAfter scope c)
    (scope : TypeScope) : t.stmtScopes scope id = s.stmtScopes scope id := by
  rw [stmtScopes, stmtScopes, hid]
  cases hform : s.stmt id with
  | block body =>
      rw [hform] at h
      exact rowScopes_congr h scope
  | forLoop start cond step body =>
      rw [hform] at h
      simp only [h start List.mem_cons_self]
  | _ => rfl

theorem exprScope_congr {id : StmtId} (hid : t.stmt id = s.stmt id)
    (h : ∀ c ∈ (s.stmt id).childStmts, ∀ scope, t.scopeAfter scope c = s.scopeAfter scope c)
    (scope : TypeScope) : t.exprScope scope id = s.exprScope scope id := by
  rw [exprScope, exprScope, hid]
  cases hform : s.stmt id with
  | forLoop start cond step body =>
      rw [hform] at h
      exact h start List.mem_cons_self scope
  | _ => rfl

/-- A statement is emptied, or made a block of statements that stood in the scopes that they would
have in it. -/
def Rearranges (s t : Shader) (id : StmtId) : Prop :=
  t.stmt id = .empty ∨ ∃ body, t.stmt id = .block body ∧
    ∀ d scope, s.Scoped d scope (.stmt id) →
      ∀ row ∈ s.rowScopes scope body, s.Scoped d row.1 (.stmt row.2)

/-- Nodes stand where they stood if the statements leave the scopes that they left. -/
theorem Restated.scoped (h : s.Restated t)
    (hafter : ∀ id scope, t.scopeAfter scope id = s.scopeAfter scope id)
    (hstmt : ∀ id, t.stmt id = s.stmt id ∨ s.Rearranges t id) {n : NodeId}
    (hn : t.Scoped d scope n) : s.Scoped d scope n := by
  induction hn with
  | decl hsplit =>
      rw [h.declAfter_eq]
      exact .decl (h.decls_eq ▸ hsplit)
  | body _ ht ih =>
      rw [h.bodyScope_eq]
      exact .body ih (h.decl_eq ▸ ht)
  | init _ he ih => exact .init ih (h.decl_eq ▸ he)
  | @stmt scope scope' id c _ hc ih =>
      rcases hstmt id with hid | hempty | ⟨body, hblock, hrow⟩
      · rw [stmtScopes_congr hid fun c _ => hafter c] at hc
        exact .stmt ih hc
      · rw [stmtScopes, hempty] at hc
        cases hc
      · rw [stmtScopes, hblock] at hc
        dsimp only at hc
        rw [rowScopes_congr fun c _ => hafter c] at hc
        exact hrow d scope ih _ hc
  | @stmtExpr scope id e _ he ih =>
      rcases hstmt id with hid | hempty | ⟨body, hblock, -⟩
      · rw [exprScope_congr hid fun c _ => hafter c]
        exact .stmtExpr ih (hid ▸ he)
      · rw [hempty] at he
        cases he
      · rw [hblock] at he
        cases he
  | part _ he ih => exact .part ih (h.expr_eq ▸ he)

theorem Restated.retypes (h : s.Restated t)
    (hscoped : ∀ {d scope n}, t.Scoped d scope n → s.Scoped d scope n) : s.Retypes t :=
  fun _ scope _ hid _ => ⟨scope, hscoped hid, by rw [h.typeAt_eq]⟩

/-! ## Statements that are taken out -/

theorem rowScopes_erase_subset {id : StmtId} (hid : ∀ scope, s.scopeAfter scope id = scope)
    (scope : TypeScope) (ts : List StmtId) :
    s.rowScopes scope (ts.erase id) ⊆ s.rowScopes scope ts := by
  induction ts generalizing scope with
  | nil => exact List.Subset.refl _
  | cons c ts ih =>
      rw [List.erase_cons]
      split
      next heq =>
        obtain rfl : c = id := by simpa using heq
        rw [rowScopes, hid]
        exact List.subset_cons_self _ _
      next =>
        rw [rowScopes, rowScopes]
        exact List.cons_subset_cons _ (ih _)

/-- Statements that declare nothing leave the scope as it is. -/
theorem foldl_scopeAfter_of_not_isVars {ts : List StmtId} (h : ∀ c ∈ ts, (s.stmt c).isVars = false)
    (scope : TypeScope) : ts.foldl s.scopeAfter scope = scope := by
  induction ts generalizing scope with
  | nil => rfl
  | cons c ts ih =>
      rw [List.foldl_cons, scopeAfter_of_not_isVars (h c List.mem_cons_self)]
      exact ih (fun c' hc' => h c' (List.mem_cons_of_mem _ hc')) scope

/-- Statements that declare nothing stand in the same scope. -/
theorem rowScopes_of_not_isVars {ts : List StmtId} (h : ∀ c ∈ ts, (s.stmt c).isVars = false)
    (scope : TypeScope) : s.rowScopes scope ts = ts.map fun c => (scope, c) := by
  induction ts generalizing scope with
  | nil => rfl
  | cons c ts ih =>
      rw [rowScopes, scopeAfter_of_not_isVars (h c List.mem_cons_self), List.map_cons,
        ih fun c' hc' => h c' (List.mem_cons_of_mem _ hc')]

theorem removeFromBlock_cases (s : Shader) (block stmt : StmtId) :
    (s.removeFromBlock block stmt).2 = s ∨ ∃ body, s.stmt block = .block body ∧
      (s.removeFromBlock block stmt).2 =
        (s.setStmt block (.block (body.erase stmt))).killStmt stmt := by
  rw [removeFromBlock]
  split
  next body hblock =>
    split
    next => exact Or.inr ⟨body, hblock, rfl⟩
    next => exact Or.inl rfl
  next => exact Or.inl rfl

theorem stmt_killStmt (s : Shader) (id : StmtId) : (s.killStmt id).stmt = s.stmt := by
  rw [killStmt, stmt_forgetStmts, stmt_forgetExprs]

theorem restated_removeFromBlock (s : Shader) (block stmt : StmtId) :
    s.Restated (s.removeFromBlock block stmt).2 := by
  refine ⟨?_, expr_removeFromBlock s block stmt, (decls_removeFromBlock s block stmt).1, ?_⟩
  · obtain heq | ⟨body, -, heq⟩ := removeFromBlock_cases s block stmt
    · rw [heq]
    · rw [heq, killStmt]
      exact size_exprs_forgetExprs _ _
  · funext d
    rw [decl, (decls_removeFromBlock s block stmt).2, decl]

/-- Of the statements, only the block is given another form, and stays a block. -/
theorem stmt_removeFromBlock (s : Shader) (block stmt id : StmtId) :
    (s.removeFromBlock block stmt).2.stmt id = s.stmt id ∨
      ∃ body, s.stmt id = .block body ∧
        (s.removeFromBlock block stmt).2.stmt id = .block (body.erase stmt) := by
  obtain heq | ⟨body, hblock, heq⟩ := removeFromBlock_cases s block stmt
  · exact Or.inl (by rw [heq])
  · rw [heq, stmt_killStmt, stmt_setStmt]
    split
    next hid => exact Or.inr ⟨body, hid.1 ▸ hblock, rfl⟩
    next => exact Or.inl rfl

theorem tames_removeFromBlock (s : Shader) (block stmt : StmtId) :
    s.Tames (s.removeFromBlock block stmt).2 := by
  intro id
  obtain heq | ⟨body, -, heq⟩ := stmt_removeFromBlock s block stmt id
  · exact Or.inl heq
  · rw [heq]
    exact Or.inr ⟨rfl, nofun⟩

/-- A statement that leaves the scope as it is may be taken out of its block. -/
theorem retypes_removeFromBlock {stmt : StmtId} (hstmt : ∀ scope, s.scopeAfter scope stmt = scope)
    (block : StmtId) : s.Retypes (s.removeFromBlock block stmt).2 := by
  have hrestated := restated_removeFromBlock s block stmt
  have hcases := stmt_removeFromBlock s block stmt
  refine hrestated.retypes fun hn => hrestated.scoped (fun id scope => ?_) (fun id => ?_) hn
  · obtain heq | ⟨body, hblock, heq⟩ := hcases id
    · exact hrestated.scopeAfter_eq heq scope
    · rw [scopeAfter, scopeAfter, heq, hblock]
  · obtain heq | ⟨body, hblock, heq⟩ := hcases id
    · exact Or.inl heq
    · refine Or.inr (Or.inr ⟨_, heq, fun d scope hid row hrow => ?_⟩)
      refine .stmt hid ?_
      rw [stmtScopes, hblock]
      exact rowScopes_erase_subset hstmt scope body hrow

end Shader

/-! ## Variables that are taken out -/

namespace Signatures

variable {sig : Signatures} {scope scope' : TypeScope} {name : String}

theorem lookup_cons_congr (h : scope.lookup name = scope'.lookup name) (entry : String × Option Ty) :
    List.lookup name (entry :: scope) = List.lookup name (entry :: scope') := by
  rw [List.lookup_cons, List.lookup_cons, h]

theorem lookup_declare_congr {ε : Type} (h : scope.lookup name = scope'.lookup name)
    (decl : VarDecl ε) : (sig.declare scope decl).lookup name = (sig.declare scope' decl).lookup name := by
  rw [declare, declare]
  generalize decl.declarators = ds
  induction ds generalizing scope scope' with
  | nil => exact h
  | cons d ds ih => exact ih (lookup_cons_congr h _)

theorem lookup_paramScope_congr (h : scope.lookup name = scope'.lookup name) (ps : List Param) :
    (sig.paramScope scope ps).lookup name = (sig.paramScope scope' ps).lookup name := by
  rw [paramScope, paramScope]
  induction ps generalizing scope scope' with
  | nil => exact h
  | cons p ps ih =>
      refine ih ?_
      dsimp only
      split
      next => exact lookup_cons_congr h _
      next => exact h

/-- A variable that is taken out matters to its own name only. -/
theorem lookup_declare_eraseP {ε : Type} {removed : String} (hne : name ≠ removed)
    (h : scope.lookup name = scope'.lookup name) (decl : VarDecl ε) :
    (sig.declare scope ⟨decl.type, decl.declarators.eraseP fun d => d.name == removed⟩).lookup name =
      (sig.declare scope' decl).lookup name := by
  rw [declare, declare]
  dsimp only
  generalize decl.declarators = ds
  induction ds generalizing scope scope' with
  | nil => exact h
  | cons d ds ih =>
      by_cases hd : d.name = removed
      · rw [List.eraseP_cons_of_pos (by simpa using hd), List.foldl_cons]
        have hshadow : scope.lookup name =
            List.lookup name ((d.name, sig.resolve decl.type d.arraySize) :: scope') := by
          rw [List.lookup_cons, beq_false_of_ne (hd ▸ hne), h]
        exact lookup_declare_congr hshadow ⟨decl.type, ds⟩
      · rw [List.eraseP_cons_of_neg (by simpa using hd), List.foldl_cons, List.foldl_cons]
        exact ih (lookup_cons_congr h _)

end Signatures

namespace UnusedVariable

variable {s : Shader} {d : DeclId} {stmt : StmtId} {decl : VarDecl ExprId}
  {removed : Declarator ExprId} {name : String}

theorem restated_shrink (s : Shader) (stmt : StmtId) (decl : VarDecl ExprId)
    (removed : Declarator ExprId) (name : String) : s.Restated (shrink s stmt decl removed name) := by
  obtain ⟨hdecls, hnodes⟩ := decls_shrink s stmt decl removed name
  refine ⟨?_, ?_, hdecls, ?_⟩
  · rw [shrink, Shader.killExprs_eq]
    exact Shader.size_exprs_forgetExprs _ _
  · rw [shrink, Shader.killExprs_eq]
    exact Shader.expr_forgetExprs _ _
  · funext d
    rw [Shader.decl, hnodes, Shader.decl]

/-- Two scopes agree on the names that a declaration mentions. -/
def Agree (s : Shader) (d : DeclId) (scope scope' : TypeScope) : Prop :=
  ∀ n, s.Mentions (.identifier n) (.decl d) → scope.lookup n = scope'.lookup n

variable {scope scope' : TypeScope}

theorem Agree.scopeAfter (hlive : stmt ∈ s.liveStmts) (hd : s.stmt stmt = .vars decl)
    (hunused : s.Mentions (.stmt stmt) (.decl d) → ¬ s.Mentions (.identifier name) (.decl d))
    (h : Agree s d scope scope') {id : StmtId} (hid : s.Mentions (.stmt id) (.decl d)) :
    Agree s d ((shrink s stmt decl removed name).scopeAfter scope id) (s.scopeAfter scope' id) := by
  intro n hn
  have hsig := (restated_shrink s stmt decl removed name).signatures_eq
  rw [Shader.scopeAfter, Shader.scopeAfter, stmt_shrink hlive, hsig]
  by_cases heq : stmt = id
  · subst heq
    have hne : n ≠ name := fun heq => hunused hid (heq ▸ hn)
    rw [if_pos rfl, hd]
    exact Signatures.lookup_declare_eraseP hne (h n hn) decl
  · rw [if_neg heq]
    cases s.stmt id with
    | vars vars => exact Signatures.lookup_declare_congr (h n hn) vars
    | _ => exact h n hn

theorem Agree.rowScopes (hlive : stmt ∈ s.liveStmts) (hd : s.stmt stmt = .vars decl)
    (hunused : s.Mentions (.stmt stmt) (.decl d) → ¬ s.Mentions (.identifier name) (.decl d))
    (h : Agree s d scope scope') {body : List StmtId}
    (hbody : ∀ id ∈ body, s.Mentions (.stmt id) (.decl d)) {row : TypeScope × StmtId}
    (hrow : row ∈ (shrink s stmt decl removed name).rowScopes scope body) :
    ∃ scope'', (scope'', row.2) ∈ s.rowScopes scope' body ∧ Agree s d row.1 scope'' := by
  induction body generalizing scope scope' with
  | nil => cases hrow
  | cons id body ih =>
      rw [Shader.rowScopes]
      rcases List.mem_cons.mp hrow with rfl | hrow
      · exact ⟨scope', List.mem_cons_self, h⟩
      · have hafter : Agree s d ((shrink s stmt decl removed name).scopeAfter scope id)
            (s.scopeAfter scope' id) := h.scopeAfter hlive hd hunused (hbody id List.mem_cons_self)
        obtain ⟨scope'', hmem, hagree⟩ :=
          ih hafter (fun id hid => hbody id (List.mem_cons_of_mem _ hid)) hrow
        exact ⟨scope'', List.mem_cons_of_mem _ hmem, hagree⟩

/-- The parts of a statement have scopes that agree with those they had. -/
theorem Agree.stmtScopes (hlive : stmt ∈ s.liveStmts) (hd : s.stmt stmt = .vars decl)
    (hunused : s.Mentions (.stmt stmt) (.decl d) → ¬ s.Mentions (.identifier name) (.decl d))
    (h : Agree s d scope scope') {id : StmtId}
    (hparts : ∀ c ∈ (s.stmt id).childStmts, s.Mentions (.stmt c) (.decl d)) {row : TypeScope × StmtId}
    (hrow : row ∈ (shrink s stmt decl removed name).stmtScopes scope id) :
    ∃ scope'', (scope'', row.2) ∈ s.stmtScopes scope' id ∧ Agree s d row.1 scope'' := by
  rw [Shader.stmtScopes, stmt_shrink hlive] at hrow
  split at hrow
  next body hblock =>
    split at hblock
    next => cases hblock
    next =>
      rw [Shader.stmtScopes, hblock]
      rw [hblock] at hparts
      exact h.rowScopes hlive hd hunused hparts hrow
  next start cond step body hloop =>
    split at hloop
    next => cases hloop
    next =>
      rw [Shader.stmtScopes, hloop]
      rw [hloop] at hparts
      rcases List.mem_cons.mp hrow with rfl | hrow
      · exact ⟨scope', List.mem_cons_self, h⟩
      · cases List.mem_singleton.mp hrow
        exact ⟨_, List.mem_cons_of_mem _ List.mem_cons_self,
          h.scopeAfter hlive hd hunused (hparts start List.mem_cons_self)⟩
  next hblock hloop =>
    split at hrow
    next => cases hrow
    next hne =>
      rw [if_neg hne] at hblock hloop
      obtain ⟨c, hc, rfl⟩ := List.mem_map.mp hrow
      refine ⟨scope', ?_, h⟩
      rw [Shader.stmtScopes]
      split
      next body heq => exact absurd heq (hblock body)
      next start cond step body heq => exact absurd heq (hloop start cond step body)
      next => exact List.mem_map_of_mem hc

/-- The expressions of a statement have a scope that agrees with the one they had. -/
theorem Agree.exprScope (hlive : stmt ∈ s.liveStmts) (hd : s.stmt stmt = .vars decl)
    (hunused : s.Mentions (.stmt stmt) (.decl d) → ¬ s.Mentions (.identifier name) (.decl d))
    (h : Agree s d scope scope') {id : StmtId}
    (hparts : ∀ c ∈ (s.stmt id).childStmts, s.Mentions (.stmt c) (.decl d)) :
    Agree s d ((shrink s stmt decl removed name).exprScope scope id) (s.exprScope scope' id) := by
  rw [Shader.exprScope, Shader.exprScope, stmt_shrink hlive]
  by_cases heq : stmt = id
  · subst heq
    rw [if_pos rfl, hd]
    exact h
  · rw [if_neg heq]
    cases hid : s.stmt id with
    | forLoop start cond step body =>
        rw [hid] at hparts
        exact h.scopeAfter hlive hd hunused (hparts start List.mem_cons_self)
    | _ => exact h

/-- What is left of a declaration holds expressions that it held before. -/
theorem childExprs_shrink_subset (hlive : stmt ∈ s.liveStmts) (hd : s.stmt stmt = .vars decl)
    (hr : decl.declarators.find? (fun v => v.name == name) = some removed) (id : StmtId) :
    ((shrink s stmt decl removed name).stmt id).childExprs ⊆ (s.stmt id).childExprs := by
  intro e he
  rw [stmt_shrink hlive] at he
  split at he
  next heq =>
    subst heq
    rw [hd]
    exact (inits_eraseP hr).mem_iff.mpr (List.mem_append_right _ he)
  next => exact he

/-- What is left of a declaration with a variable stands where it did; the scopes differ in the name of
the variable, if at all. -/
theorem exists_scoped_of_shrink (hlive : stmt ∈ s.liveStmts) (hd : s.stmt stmt = .vars decl)
    (hr : decl.declarators.find? (fun v => v.name == name) = some removed)
    (hunused : s.Mentions (.stmt stmt) (.decl d) → ¬ s.Mentions (.identifier name) (.decl d))
    {n : NodeId} (hn : (shrink s stmt decl removed name).Scoped d scope n) :
    ∃ scope', s.Scoped d scope' n ∧ Agree s d scope scope' := by
  have hrestated := restated_shrink s stmt decl removed name
  have hmentions : ∀ {scope : TypeScope} {id : StmtId}, s.Scoped d scope (.stmt id) →
      ∀ c ∈ (s.stmt id).childStmts, s.Mentions (.stmt c) (.decl d) :=
    fun hid _ hc => hid.mentions (.inStmt hc (.here List.mem_cons_self))
  induction hn with
  | decl hsplit =>
      rw [hrestated.declAfter_eq]
      exact ⟨_, .decl (hrestated.decls_eq ▸ hsplit), fun _ _ => rfl⟩
  | @body scope t _ ht ih =>
      obtain ⟨scope', hscoped, hagree⟩ := ih
      rw [hrestated.bodyScope_eq]
      refine ⟨_, .body hscoped (hrestated.decl_eq ▸ ht), fun n hn => ?_⟩
      rw [Shader.bodyScope, Shader.bodyScope]
      cases s.decl d with
      | function f => exact Signatures.lookup_paramScope_congr (hagree n hn) f.params
      | _ => exact hagree n hn
  | init _ he ih =>
      obtain ⟨scope', hscoped, hagree⟩ := ih
      exact ⟨scope', .init hscoped (hrestated.decl_eq ▸ he), hagree⟩
  | stmt _ hrow ih =>
      obtain ⟨scope', hscoped, hagree⟩ := ih
      obtain ⟨scope'', hmem, hafter⟩ :=
        hagree.stmtScopes hlive hd hunused (hmentions hscoped) hrow
      exact ⟨scope'', .stmt hscoped hmem, hafter⟩
  | stmtExpr _ he ih =>
      obtain ⟨scope', hscoped, hagree⟩ := ih
      exact ⟨_, .stmtExpr hscoped (childExprs_shrink_subset hlive hd hr _ he),
        hagree.exprScope hlive hd hunused (hmentions hscoped)⟩
  | part _ he ih =>
      obtain ⟨scope', hscoped, hagree⟩ := ih
      exact ⟨scope', .part hscoped (hrestated.expr_eq ▸ he), hagree⟩

theorem retypes_shrink (h : s.Grounded) (hlive : stmt ∈ s.liveStmts) (hd : s.stmt stmt = .vars decl)
    (hr : decl.declarators.find? (fun v => v.name == name) = some removed)
    (hunused : ∀ d ∈ s.decls, s.Mentions (.stmt stmt) (.decl d) →
      ¬ s.Mentions (.identifier name) (.decl d)) :
    s.Retypes (shrink s stmt decl removed name) := by
  intro d scope id hid _
  have hrestated := restated_shrink s stmt decl removed name
  obtain ⟨scope', hscoped, hagree⟩ := exists_scoped_of_shrink hlive hd hr
    (hunused d (hrestated.decls_eq ▸ hid.mem_decls)) hid
  refine ⟨scope', hscoped, ?_⟩
  rw [hrestated.typeAt_eq]
  exact h.typeAt_congr fun n hn => hagree n (hscoped.mentions hn)

theorem tames_shrink (hlive : stmt ∈ s.liveStmts) (hd : s.stmt stmt = .vars decl) :
    s.Tames (shrink s stmt decl removed name) := by
  intro id
  rw [stmt_shrink hlive]
  split
  next heq => exact Or.inr ⟨rfl, fun _ => by rw [← heq, hd]; rfl⟩
  next => exact Or.inl rfl

/-- A declaration without variables may be left empty. -/
theorem retypes_setStmt_empty {type : TypeSpec} (hd : s.stmt stmt = .vars ⟨type, []⟩) :
    s.Retypes (s.setStmt stmt .empty) := by
  have hrestated : s.Restated (s.setStmt stmt .empty) := ⟨rfl, rfl, rfl, rfl⟩
  refine hrestated.retypes fun hn => hrestated.scoped (fun id scope => ?_) (fun id => ?_) hn
  · rw [Shader.scopeAfter, Shader.scopeAfter, Shader.stmt_setStmt, hrestated.signatures_eq]
    by_cases heq : stmt = id ∧ id.index < s.stmts.size
    · rw [if_pos heq, ← heq.1, hd]
      rfl
    · rw [if_neg heq]
  · rw [Shader.Rearranges, Shader.stmt_setStmt]
    split
    next => exact Or.inr (Or.inl rfl)
    next => exact Or.inl rfl

/-- Taking out a variable that its function does not name changes no type. -/
theorem retypes_apply (h : s.Grounded) {block : Option StmtId}
    (hholds : holds s stmt block name = true)
    (hunused : ∀ d ∈ s.decls, s.Mentions (.stmt stmt) (.decl d) →
      ¬ s.Mentions (.identifier name) (.decl d)) :
    s.Retypes (apply s stmt block name) ∧ s.Tames (apply s stmt block name) := by
  obtain ⟨hlive, ⟨decl, removed, hd, hr⟩, -⟩ := eq_vars_of_holds hholds
  have hshrink := retypes_shrink h hlive hd hr hunused
  have htames : s.Tames (shrink s stmt decl removed name) := tames_shrink hlive hd
  have hsize := (restated_shrink s stmt decl removed name).size_eq.ge
  rw [apply_eq hd hr]
  split
  next hempty =>
    have hleft : (shrink s stmt decl removed name).stmt stmt = .vars ⟨decl.type, []⟩ := by
      rw [stmt_shrink hlive, if_pos rfl, List.isEmpty_iff.mp hempty]
    cases block with
    | some block =>
        refine ⟨hshrink.trans (Shader.retypes_removeFromBlock (fun scope => ?_) block) hsize,
          htames.trans (Shader.tames_removeFromBlock _ block stmt)⟩
        rw [Shader.scopeAfter, hleft]
        rfl
    | none =>
        refine ⟨hshrink.trans (retypes_setStmt_empty hleft) hsize, htames.trans fun id => ?_⟩
        rw [Shader.stmt_setStmt]
        split
        next => exact Or.inr ⟨rfl, fun hvars => absurd hvars Bool.false_ne_true⟩
        next => exact Or.inl rfl
  next => exact ⟨hshrink, htames⟩

end UnusedVariable

/-! ## Statements that are unwrapped -/

namespace Unwrap

variable {s : Shader} {block target : StmtId} {way : UnwrapWay}

/-- A statement that is unwrapped declares nothing, and neither do its parts, which stand in its
scope. -/
theorem stmtScopes_target (hplaced : s.LocalsPlaced) (h : holds s block target way = true)
    (scope : TypeScope) : (s.stmt target).isVars = false ∧
      (∀ c ∈ (s.stmt target).childStmts, (s.stmt c).isVars = false) ∧
      s.stmtScopes scope target = (s.stmt target).childStmts.map fun c => (scope, c) := by
  have hbare := hplaced target
  rw [holds, Bool.and_eq_true] at h
  have hfits := h.2
  rw [Shader.stmtScopes]
  cases ht : s.stmt target with
  | ifElse cond onTrue onFalse =>
      rw [ht] at hbare
      exact ⟨rfl, hbare, rfl⟩
  | block body =>
      cases way with
      | block =>
          have hparts : ∀ c ∈ body, (s.stmt c).isVars = false := by
            simp only [fits, ht, List.all_eq_true] at hfits
            intro c hc
            have hfree := hfits c hc
            cases hform : s.stmt c with
            | vars decl => simp [hform] at hfree
            | _ => rfl
          exact ⟨rfl, hparts, Shader.rowScopes_of_not_isVars hparts scope⟩
      | _ => simp [fits, ht] at hfits
  | _ => cases way <;> simp [fits, ht] at hfits

theorem restated_apply (h : holds s block target way = true) :
    s.Restated (apply s block target way) := by
  obtain ⟨body, kept, dropped, i, -, -, -, heq⟩ := exists_eq_lifted h
  rw [heq, lifted]
  exact ⟨Shader.size_exprs_forgetExprs _ _, Shader.expr_forgetExprs _ _, rfl, rfl⟩

/-- Unwrapping a statement changes no type. -/
theorem retypes_apply (hplaced : s.LocalsPlaced) (h : holds s block target way = true) :
    s.Retypes (apply s block target way) ∧ s.Tames (apply s block target way) := by
  obtain ⟨body, kept, dropped, i, hb, hi, hparts, heq⟩ := exists_eq_lifted h
  have htarget := stmtScopes_target hplaced h
  have hkept : ∀ c ∈ kept, c ∈ (s.stmt target).childStmts := fun c hc =>
    hparts.mem_iff.mpr (List.mem_append_left _ hc)
  have hplain : ∀ c ∈ kept, (s.stmt c).isVars = false := fun c hc =>
    (htarget []).2.1 c (hkept c hc)
  have hstmt : ∀ id, (apply s block target way).stmt id =
      if block = id ∧ id.index < s.stmts.size then .block (body.take i ++ kept ++ body.drop (i + 1))
      else s.stmt id := by
    intro id
    rw [heq, lifted, Shader.stmt_setStmt, Shader.stmt_forgetStmts, Shader.size_stmts_forgetStmts,
      Shader.stmt_forgetExprs]
    rfl
  have hrestated := restated_apply h
  refine ⟨hrestated.retypes fun hn => hrestated.scoped (fun id scope => ?_) (fun id => ?_) hn,
    fun id => ?_⟩
  · rw [Shader.scopeAfter, Shader.scopeAfter, hstmt, hrestated.signatures_eq]
    by_cases hid : block = id ∧ id.index < s.stmts.size
    · rw [if_pos hid, ← hid.1, hb]
    · rw [if_neg hid]
  · rw [Shader.Rearranges, hstmt]
    split
    next hid =>
      refine Or.inr (Or.inr ⟨_, rfl, fun d scope hscoped row hrow => ?_⟩)
      obtain rfl := hid.1
      have hin : ∀ row ∈ s.rowScopes scope body, s.Scoped d row.1 (.stmt row.2) := by
        intro row hrow
        refine .stmt hscoped ?_
        rw [Shader.stmtScopes, hb]
        exact hrow
      rw [split_of_idxOf? hi, Shader.rowScopes_append, Shader.rowScopes,
        Shader.scopeAfter_of_not_isVars (htarget []).1] at hin
      rw [Shader.rowScopes_append, Shader.rowScopes_append, List.foldl_append,
        Shader.foldl_scopeAfter_of_not_isVars hplain] at hrow
      simp only [List.mem_append, List.mem_cons] at hin hrow
      rcases hrow with (hrow | hrow) | hrow
      · exact hin row (Or.inl hrow)
      · have hwhole := hin _ (Or.inr (Or.inl rfl))
        refine .stmt hwhole ?_
        rw [Shader.rowScopes_of_not_isVars hplain] at hrow
        obtain ⟨c, hc, rfl⟩ := List.mem_map.mp hrow
        rw [(htarget _).2.2]
        exact List.mem_map_of_mem (hkept c hc)
      · exact hin row (Or.inr (Or.inr hrow))
    next => exact Or.inl rfl
  · rw [hstmt]
    split
    next => exact Or.inr ⟨rfl, fun hvars => absurd hvars Bool.false_ne_true⟩
    next => exact Or.inl rfl

end Unwrap

end ShaderReducer
