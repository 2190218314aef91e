import ShaderReducer.Proofs.Shader.Mentions
import ShaderReducer.Proofs.Shader.Renumbered
import ShaderReducer.Proofs.Typing.Admitted

/-!
# Scopes of nodes

The types of all expressions are gathered from trees, with the scope carried along. `Scoped` tells the
scope that a node stands in from the slots alone: a statement of a block stands in the scope that the
statements before it leave, and all parts of an expression stand in its scope. Where declarations are
directly in blocks or in the headers of loops, these are the scopes that types are gathered with. So
the type that is noted for a slot is the type of its tree in the scope that it stands in.
-/

namespace ShaderReducer

namespace Signatures

variable {sig sig' : Signatures} {scope scope' : TypeScope}

/-- The type of a form of expression, given the types of its parts. -/
def formType {ρ : Type} (sig : Signatures) (scope : TypeScope) (type? : ρ → Option Ty) :
    ExprNode ρ → Option Ty
  | .literal value => some (literalType value)
  | .ident name => nameType scope name
  | .paren inner => type? inner
  | .unary op operand =>
    match type? operand with
    | some type => if op = .not ∧ type ≠ .scalar .bool then none else some type
    | none => none
  | .binary op lhs rhs => binaryType op (type? lhs) (type? rhs)
  | .ternary _ onTrue onFalse =>
    match type? onTrue, type? onFalse with
    | some type, some type' => if type = type' then some type else none
    | _, _ => none
  | .call callee args => sig.callType callee (args.map type?)
  | .member base field => (type? base).bind fun type => sig.memberType type field
  | .index base _ => (type? base).bind elementType

theorem typeOf_node {ε : Type} (sig : Signatures) (scope : TypeScope) (tag : ε)
    (form : ExprNode (Expr ε)) :
    sig.typeOf scope (.node tag form) = sig.formType scope (sig.typeOf scope) form := by
  cases form with
  | call callee args => rw [typeOf, typesOf_eq_map, formType]
  | _ => rfl

theorem formType_map {ρ τ : Type} (f : ρ → τ) (type? : τ → Option Ty) (form : ExprNode ρ) :
    sig.formType scope type? (form.map f) = sig.formType scope (type? ∘ f) form := by
  cases form with
  | call callee args => rw [ExprNode.map, formType, formType, List.map_map]
  | _ => rfl

/-- A form has the same type if its parts have, and if the name, the function or the field that it
refers to has. -/
theorem formType_congr {ρ : Type} {type? type?' : ρ → Option Ty} {form : ExprNode ρ}
    (hparts : ∀ c ∈ form.children, type? c = type?' c)
    (hname : ∀ name, form = .ident name → nameType scope name = nameType scope' name)
    (hcall : ∀ callee args, form = .call callee args →
      sig.callType callee (args.map type?') = sig'.callType callee (args.map type?'))
    (hmember : ∀ base field, form = .member base field → ∀ type, type?' base = some type →
      sig.memberType type field = sig'.memberType type field) :
    sig.formType scope type? form = sig'.formType scope' type?' form := by
  cases form with
  | literal value => rfl
  | ident name => exact hname name rfl
  | paren inner => exact hparts inner (by simp [ExprNode.children])
  | unary op operand => simp only [formType, hparts operand (by simp [ExprNode.children])]
  | binary op lhs rhs =>
      simp only [formType, hparts lhs (by simp [ExprNode.children]),
        hparts rhs (by simp [ExprNode.children])]
  | ternary cond onTrue onFalse =>
      simp only [formType, hparts onTrue (by simp [ExprNode.children]),
        hparts onFalse (by simp [ExprNode.children])]
  | call callee args =>
      have hargs : args.map type? = args.map type?' := List.map_congr_left hparts
      rw [formType, formType, hargs, hcall callee args rfl]
  | member base field =>
      rw [formType, formType, hparts base (by simp [ExprNode.children])]
      cases hbase : type?' base with
      | none => rfl
      | some type => exact hmember base field rfl type hbase
  | index base offset => simp only [formType, hparts base (by simp [ExprNode.children])]

theorem declare_map {ε ε' : Type} (f : ε → ε') (decl : VarDecl ε) :
    sig.declare scope (decl.map f) = sig.declare scope decl := by
  rw [declare, declare, VarDecl.map, List.foldl_map]
  rfl

end Signatures

namespace StmtNode

variable {ρ σ ρ' σ' : Type}

/-- Whether a statement is a declaration. -/
def isVars : StmtNode ρ σ → Bool
  | vars _ => true
  | _ => false

/-- The statements directly below a statement that are neither in a block nor the first part of a
loop. -/
def bareStmts : StmtNode ρ σ → List σ
  | ifElse _ onTrue onFalse => onTrue :: onFalse.toList
  | forLoop _ _ _ body | whileLoop _ body | doWhile body _ => [body]
  | block _ | vars _ | expr _ | returns _ | breaks | continues | discards | empty => []

theorem mem_childStmts_of_mem_bareStmts {form : StmtNode ρ σ} {t : σ} (h : t ∈ form.bareStmts) :
    t ∈ form.childStmts := by
  cases form with
  | forLoop start cond step body => exact List.mem_cons_of_mem start h
  | ifElse cond onTrue onFalse => exact h
  | whileLoop cond body => exact h
  | doWhile body cond => exact h
  | _ => cases h

@[simp] theorem isVars_map (f : ρ → ρ') (g : σ → σ') (t : StmtNode ρ σ) :
    (t.map f g).isVars = t.isVars := by
  cases t <;> rfl

@[simp] theorem bareStmts_map (f : ρ → ρ') (g : σ → σ') (t : StmtNode ρ σ) :
    (t.map f g).bareStmts = t.bareStmts.map g := by
  cases t with
  | ifElse cond onTrue onFalse => cases onFalse <;> rfl
  | _ => rfl

end StmtNode

namespace Shader

variable {s : Shader} {d : DeclId} {scope scope' : TypeScope}

/-- The type of the tree of a slot in a scope. -/
def typeAt (s : Shader) (scope : TypeScope) (id : ExprId) : Option Ty :=
  (Signatures.ofShader s).typeOf scope (s.exprTree id)

theorem Grounded.typeAt_eq (h : s.Grounded) (scope : TypeScope) (id : ExprId) :
    s.typeAt scope id = (Signatures.ofShader s).formType scope (s.typeAt scope) (s.expr id) := by
  rw [typeAt, h.exprTree_eq, Signatures.typeOf_node, Signatures.formType_map]
  rfl

/-- An expression has the same type in two scopes that agree on the names in it. -/
theorem Grounded.typeAt_congr (h : s.Grounded) {id : ExprId}
    (hagree : ∀ name, s.Mentions (.identifier name) (.expr id) →
      scope.lookup name = scope'.lookup name) :
    s.typeAt scope id = s.typeAt scope' id := by
  induction id using h.expr_induction with
  | step id ih =>
      rw [h.typeAt_eq, h.typeAt_eq]
      refine Signatures.formType_congr (fun c hc => ih c hc fun name hm => hagree name ?_)
        (fun name hname => ?_) (fun _ _ _ => rfl) fun _ _ _ _ _ => rfl
      · exact .inExpr hc hm
      · have hmention : s.Mentions (.identifier name) (.expr id) := by
          refine .here ?_
          rw [mentionsAt, hname]
          exact List.mem_singleton_self _
        rw [Signatures.nameType, hagree name hmention, Signatures.nameType]

end Shader

/-- The type of a slot that is noted. -/
theorem Types.get?_of_mem {s : Shader} (hs : s.ReachesOnce) {id : ExprId} {type : Option Ty}
    (hmem : (id, type) ∈ (Signatures.ofShader s).declsEntries [] s.declTrees) :
    (Types.ofShader s).get? id = type := by
  have hfst := ((Signatures.ofShader s).notes_decls s.declTrees []).map_fst
  rw [List.map_map] at hfst
  have hid : id ∈ s.exprVisits.map fun v => v.2.tag := hfst ▸ List.mem_map_of_mem hmem
  obtain ⟨v, hv, rfl⟩ := List.mem_map.mp hid
  have hnone : (Array.replicate s.exprs.size (none : Option Ty))[v.2.tag.index]? = some none := by
    rw [Array.getElem?_replicate, if_pos (hs.exprs_lt v hv)]
  rw [get?, ofShader, getElem?_foldl_note (hfst ▸ hs.exprs) hmem hnone]
  rfl

namespace Shader

variable {s : Shader} {d : DeclId} {scope scope' : TypeScope}

/-! ## Scopes -/

/-- The scope after a statement that stands in some scope. -/
def scopeAfter (s : Shader) (scope : TypeScope) (id : StmtId) : TypeScope :=
  match s.stmt id with
  | .vars decl => (Signatures.ofShader s).declare scope decl
  | _ => scope

/-- The statements of a row, each with the scope that it stands in. -/
def rowScopes (s : Shader) : TypeScope → List StmtId → List (TypeScope × StmtId)
  | _, [] => []
  | scope, t :: rest => (scope, t) :: s.rowScopes (s.scopeAfter scope t) rest

/-- The statements directly below a statement, each with the scope that it stands in. -/
def stmtScopes (s : Shader) (scope : TypeScope) (id : StmtId) : List (TypeScope × StmtId) :=
  match s.stmt id with
  | .block body => s.rowScopes scope body
  | .forLoop start _ _ body => [(scope, start), (s.scopeAfter scope start, body)]
  | node => node.childStmts.map fun t => (scope, t)

/-- The scope that the expressions directly in a statement stand in. -/
def exprScope (s : Shader) (scope : TypeScope) (id : StmtId) : TypeScope :=
  match s.stmt id with
  | .forLoop start _ _ _ => s.scopeAfter scope start
  | _ => scope

/-- The scope after a declaration at top level. -/
def declAfter (s : Shader) (scope : TypeScope) (d : DeclId) : TypeScope :=
  match s.decl d with
  | .vars decl => (Signatures.ofShader s).declare scope decl
  | _ => scope

/-- The scope that the body of a declaration stands in. -/
def bodyScope (s : Shader) (scope : TypeScope) (d : DeclId) : TypeScope :=
  match s.decl d with
  | .function f => (Signatures.ofShader s).paramScope scope f.params
  | _ => scope

/-- A node of a declaration, and the scope that it stands in. -/
inductive Scoped (s : Shader) (d : DeclId) : TypeScope → NodeId → Prop
  | decl {before after : List DeclId} (h : s.decls = before ++ d :: after) :
    Scoped s d (before.foldl s.declAfter []) (.decl d)
  | body {scope : TypeScope} {t : StmtId} (h : Scoped s d scope (.decl d))
    (ht : t ∈ (s.decl d).bodies) : Scoped s d (s.bodyScope scope d) (.stmt t)
  | init {scope : TypeScope} {e : ExprId} (h : Scoped s d scope (.decl d))
    (he : e ∈ (s.decl d).inits) : Scoped s d scope (.expr e)
  | stmt {scope scope' : TypeScope} {id t : StmtId} (h : Scoped s d scope (.stmt id))
    (ht : (scope', t) ∈ s.stmtScopes scope id) : Scoped s d scope' (.stmt t)
  | stmtExpr {scope : TypeScope} {id : StmtId} {e : ExprId} (h : Scoped s d scope (.stmt id))
    (he : e ∈ (s.stmt id).childExprs) : Scoped s d (s.exprScope scope id) (.expr e)
  | part {scope : TypeScope} {id e : ExprId} (h : Scoped s d scope (.expr id))
    (he : e ∈ (s.expr id).children) : Scoped s d scope (.expr e)

theorem map_snd_rowScopes (s : Shader) (scope : TypeScope) (ts : List StmtId) :
    (s.rowScopes scope ts).map Prod.snd = ts := by
  induction ts generalizing scope with
  | nil => rfl
  | cons t ts ih => rw [rowScopes, List.map_cons, ih]

theorem rowScopes_append (s : Shader) (scope : TypeScope) (ts ts' : List StmtId) :
    s.rowScopes scope (ts ++ ts') =
      s.rowScopes scope ts ++ s.rowScopes (ts.foldl s.scopeAfter scope) ts' := by
  induction ts generalizing scope with
  | nil => rfl
  | cons t ts ih => rw [List.cons_append, rowScopes, rowScopes, ih, List.foldl_cons, List.cons_append]

/-- A statement is given the statements directly below it, each with a scope. -/
theorem map_snd_stmtScopes (s : Shader) (scope : TypeScope) (id : StmtId) :
    (s.stmtScopes scope id).map Prod.snd = (s.stmt id).childStmts := by
  unfold stmtScopes
  split
  next hid => rw [hid]; exact map_snd_rowScopes s scope _
  next hid => rw [hid]; rfl
  next => rw [List.map_map]; exact List.map_id _

theorem mem_childStmts_of_mem_stmtScopes {id t : StmtId} (ht : (scope', t) ∈ s.stmtScopes scope id) :
    t ∈ (s.stmt id).childStmts := by
  rw [← map_snd_stmtScopes s scope id]
  exact List.mem_map_of_mem ht

theorem Scoped.mem_decls {n : NodeId} (h : s.Scoped d scope n) : d ∈ s.decls := by
  induction h with
  | decl h => rw [h]; exact List.mem_append_right _ List.mem_cons_self
  | _ => assumption

/-- A declaration mentions what its nodes do. -/
theorem Scoped.mentions {n : NodeId} (h : s.Scoped d scope n) {m : Mention}
    (hm : s.Mentions m n) : s.Mentions m (.decl d) := by
  induction h with
  | decl => exact hm
  | body _ ht ih => exact ih (.inStmt ht hm)
  | init _ he ih => exact ih (.inExpr he hm)
  | stmt _ ht ih => exact ih (.inStmt (mem_childStmts_of_mem_stmtScopes ht) hm)
  | stmtExpr _ he ih => exact ih (.inExpr he hm)
  | part _ he ih => exact ih (.inExpr he hm)

/-- What stands in a scope is reached. -/
theorem Scoped.reaches {n : NodeId} (h : s.Scoped d scope n) : s.Reaches n := by
  induction h with
  | decl h => exact .decl (h ▸ List.mem_append_right _ List.mem_cons_self)
  | body _ ht ih => exact .stmt ih ht
  | init _ he ih => exact .expr ih he
  | stmt _ ht ih => exact .stmt ih (mem_childStmts_of_mem_stmtScopes ht)
  | stmtExpr _ he ih => exact .expr ih he
  | part _ he ih => exact .expr ih he

/-- What is reached stands in a scope. -/
theorem Reaches.exists_scoped {n : NodeId} (h : s.Reaches n) : ∃ d scope, s.Scoped d scope n := by
  have hdecl : ∀ {d d' : DeclId} {scope : TypeScope}, s.Scoped d scope (.decl d') → d = d' := by
    intro d d' scope h
    cases h
    rfl
  induction h with
  | @decl d hd =>
      obtain ⟨before, after, hsplit⟩ := List.append_of_mem hd
      exact ⟨d, _, .decl hsplit⟩
  | @stmt n t _ ht ih =>
      obtain ⟨d, scope, hn⟩ := ih
      cases n with
      | decl d' =>
          obtain rfl := hdecl hn
          exact ⟨d, _, .body hn ht⟩
      | stmt id =>
          have hmem : t ∈ (s.stmtScopes scope id).map Prod.snd := by
            rw [map_snd_stmtScopes]
            exact ht
          obtain ⟨⟨scope', t⟩, hscope, rfl⟩ := List.mem_map.mp hmem
          exact ⟨d, scope', .stmt hn hscope⟩
      | expr id => cases ht
  | @expr n e _ he ih =>
      obtain ⟨d, scope, hn⟩ := ih
      cases n with
      | decl d' =>
          obtain rfl := hdecl hn
          exact ⟨d, scope, .init hn he⟩
      | stmt id => exact ⟨d, _, .stmtExpr hn he⟩
      | expr id => exact ⟨d, scope, .part hn he⟩

/-! ## Scopes and what is noted -/

/-- All local declarations are directly in blocks or in the headers of loops. -/
def LocalsPlaced (s : Shader) : Prop :=
  ∀ id, ∀ t ∈ (s.stmt id).bareStmts, (s.stmt t).isVars = false

theorem localsPlaced_of_lt
    (h : ∀ i < s.stmts.size, ∀ t ∈ (s.stmt ⟨i⟩).bareStmts, (s.stmt t).isVars = false) :
    s.LocalsPlaced := by
  intro id t ht
  by_cases hlt : id.index < s.stmts.size
  · exact h id.index hlt t ht
  · rw [stmt_of_size_le (Nat.le_of_not_lt hlt)] at ht
    cases ht

theorem scopeAfter_of_not_isVars {id : StmtId} (h : (s.stmt id).isVars = false) (scope : TypeScope) :
    s.scopeAfter scope id = scope := by
  unfold scopeAfter
  split
  next hid => rw [hid] at h; cases h
  next => rfl

/-- A statement that is no declaration leaves the scope as it was. -/
theorem LocalsPlaced.snd_stmtEntries (hplaced : s.LocalsPlaced) (h : s.Grounded) (id : StmtId)
    (scope : TypeScope) :
    ((Signatures.ofShader s).stmtEntries scope (s.stmtTree id)).2 = s.scopeAfter scope id := by
  induction id using h.stmt_induction generalizing scope with
  | step id ih =>
      have hbare : ∀ t ∈ (s.stmt id).bareStmts, t ∈ (s.stmt id).childStmts → ∀ scope,
          ((Signatures.ofShader s).stmtEntries scope (s.stmtTree t)).2 = scope :=
        fun t ht hchild scope => (ih t hchild scope).trans (scopeAfter_of_not_isVars (hplaced id t ht) scope)
      rw [h.stmtTree_eq]
      cases hid : s.stmt id with
      | vars decl =>
          rw [scopeAfter, hid, StmtNode.map, Signatures.stmtEntries, Signatures.declare_map]
      | ifElse cond onTrue onFalse =>
          rw [hid] at hbare
          rw [scopeAfter_of_not_isVars (by rw [hid]; rfl)]
          cases onFalse with
          | none =>
              exact hbare onTrue (by simp [StmtNode.bareStmts]) (by simp [StmtNode.childStmts]) scope
          | some onFalse =>
              have htrue := hbare onTrue (by simp [StmtNode.bareStmts])
                (by simp [StmtNode.childStmts]) scope
              have hfalse := hbare onFalse (by simp [StmtNode.bareStmts])
                (by simp [StmtNode.childStmts])
              exact (hfalse _).trans htrue
      | whileLoop cond body =>
          rw [hid] at hbare
          rw [scopeAfter_of_not_isVars (by rw [hid]; rfl)]
          exact hbare body (by simp [StmtNode.bareStmts]) (by simp [StmtNode.childStmts]) scope
      | doWhile body cond =>
          rw [hid] at hbare
          rw [scopeAfter_of_not_isVars (by rw [hid]; rfl)]
          exact hbare body (by simp [StmtNode.bareStmts]) (by simp [StmtNode.childStmts]) scope
      | _ =>
          rw [scopeAfter_of_not_isVars (by rw [hid]; rfl)]
          rfl

/-- What is noted in a statement of a row is noted in the row. -/
theorem LocalsPlaced.subset_stmtsEntries (hplaced : s.LocalsPlaced) (h : s.Grounded)
    {ts : List StmtId} {t : StmtId} (ht : (scope', t) ∈ s.rowScopes scope ts) :
    ((Signatures.ofShader s).stmtEntries scope' (s.stmtTree t)).1 ⊆
      ((Signatures.ofShader s).stmtsEntries scope (ts.map s.stmtTree)).1 := by
  induction ts generalizing scope with
  | nil => cases ht
  | cons t' ts ih =>
      rw [List.map_cons, Signatures.stmtsEntries]
      rcases List.mem_cons.mp ht with heq | ht
      · cases heq
        exact List.subset_append_left _ _
      · have hrest := ih ht
        rw [← hplaced.snd_stmtEntries h] at hrest
        exact List.Subset.trans hrest (List.subset_append_right _ _)

/-- What is noted in a part of a statement is noted in the statement. -/
theorem LocalsPlaced.subset_stmtEntries (hplaced : s.LocalsPlaced) (h : s.Grounded) {id t : StmtId}
    (ht : (scope', t) ∈ s.stmtScopes scope id) :
    ((Signatures.ofShader s).stmtEntries scope' (s.stmtTree t)).1 ⊆
      ((Signatures.ofShader s).stmtEntries scope (s.stmtTree id)).1 := by
  have hafter := hplaced.snd_stmtEntries h
  have hbare := hplaced id
  rw [h.stmtTree_eq id]
  unfold stmtScopes at ht
  cases hid : s.stmt id with
  | block body =>
      rw [hid] at ht
      exact hplaced.subset_stmtsEntries h ht
  | forLoop start cond step body =>
      rw [hid] at ht
      intro entry hentry
      simp only [StmtNode.map, Signatures.stmtEntries, List.mem_append]
      simp only [List.mem_cons, Prod.mk.injEq, List.not_mem_nil, or_false] at ht
      rcases ht with ⟨rfl, rfl⟩ | ⟨rfl, rfl⟩
      · exact Or.inl hentry
      · rw [hafter]
        exact Or.inr (Or.inr (Or.inr hentry))
  | ifElse cond onTrue onFalse =>
      rw [hid] at ht hbare
      obtain ⟨_, hmem, heq⟩ := List.mem_map.mp ht
      cases heq
      intro entry hentry
      cases onFalse with
      | none =>
          obtain rfl : t = onTrue := by simpa [StmtNode.childStmts] using hmem
          exact List.mem_append_right _ hentry
      | some onFalse =>
          simp only [StmtNode.map, Option.map_some, Signatures.stmtEntries, List.mem_append]
          have hcases : t = onTrue ∨ t = onFalse := by simpa [StmtNode.childStmts] using hmem
          rcases hcases with rfl | rfl
          · exact Or.inr (Or.inl hentry)
          · rw [hafter, scopeAfter_of_not_isVars (hbare onTrue (by simp [StmtNode.bareStmts]))]
            exact Or.inr (Or.inr hentry)
  | whileLoop cond body =>
      rw [hid] at ht
      obtain ⟨_, hmem, heq⟩ := List.mem_map.mp ht
      cases heq
      obtain rfl : t = body := by simpa [StmtNode.childStmts] using hmem
      exact List.subset_append_right _ _
  | doWhile body cond =>
      rw [hid] at ht
      obtain ⟨_, hmem, heq⟩ := List.mem_map.mp ht
      cases heq
      obtain rfl : t = body := by simpa [StmtNode.childStmts] using hmem
      exact List.subset_append_left _ _
  | _ =>
      rw [hid] at ht
      cases ht

theorem subset_optionEntries {sig : Signatures} {e : ExprId} {value : Option ExprId}
    (he : e ∈ value.toList) :
    sig.exprEntries scope (s.exprTree e) ⊆ sig.optionEntries scope (value.map s.exprTree) := by
  obtain rfl : value = some e := by simpa using he
  intro entry hentry
  exact List.mem_flatMap.mpr ⟨_, List.mem_singleton_self _, hentry⟩

theorem subset_varEntries {sig : Signatures} {e : ExprId} {decl : VarDecl ExprId}
    (he : e ∈ decl.inits) :
    sig.exprEntries scope (s.exprTree e) ⊆ sig.varEntries scope (decl.map s.exprTree) := by
  intro entry hentry
  refine List.mem_flatMap.mpr ⟨_, ?_, hentry⟩
  rw [VarDecl.inits_map]
  exact List.mem_map_of_mem he

/-- What is noted in an expression of a statement is noted in the statement. -/
theorem LocalsPlaced.subset_stmtEntries_expr (hplaced : s.LocalsPlaced) (h : s.Grounded) {id : StmtId}
    {e : ExprId} (he : e ∈ (s.stmt id).childExprs) (scope : TypeScope) :
    (Signatures.ofShader s).exprEntries (s.exprScope scope id) (s.exprTree e) ⊆
      ((Signatures.ofShader s).stmtEntries scope (s.stmtTree id)).1 := by
  have hafter := hplaced.snd_stmtEntries h
  have hbare := hplaced id
  rw [h.stmtTree_eq id]
  unfold exprScope
  cases hid : s.stmt id with
  | vars decl =>
      rw [hid] at he
      exact subset_varEntries he
  | expr value =>
      rw [hid] at he
      obtain rfl : e = value := by simpa [StmtNode.childExprs] using he
      exact List.Subset.refl _
  | ifElse cond onTrue onFalse =>
      rw [hid] at he
      obtain rfl : e = cond := by simpa [StmtNode.childExprs] using he
      cases onFalse with
      | none => exact List.subset_append_left _ _
      | some onFalse => exact List.subset_append_left _ _
  | forLoop start cond step body =>
      rw [hid] at he
      intro entry hentry
      simp only [StmtNode.map, Signatures.stmtEntries, List.mem_append]
      rw [hafter]
      rcases List.mem_append.mp he with he | he
      · exact Or.inr (Or.inl (subset_optionEntries he hentry))
      · exact Or.inr (Or.inr (Or.inl (subset_optionEntries he hentry)))
  | whileLoop cond body =>
      rw [hid] at he
      obtain rfl : e = cond := by simpa [StmtNode.childExprs] using he
      exact List.subset_append_left _ _
  | doWhile body cond =>
      rw [hid] at he hbare
      obtain rfl : e = cond := by simpa [StmtNode.childExprs] using he
      intro entry hentry
      simp only [StmtNode.map, Signatures.stmtEntries, List.mem_append]
      rw [hafter, scopeAfter_of_not_isVars (hbare body (by simp [StmtNode.bareStmts]))]
      exact Or.inr hentry
  | returns value =>
      rw [hid] at he
      exact subset_optionEntries he
  | _ =>
      rw [hid] at he
      cases he

theorem snd_declEntries (s : Shader) (scope : TypeScope) (d : DeclId) :
    ((Signatures.ofShader s).declEntries scope (s.declTree d)).2 = s.declAfter scope d := by
  rw [declAfter, declTree]
  cases s.decl d with
  | function f =>
      rw [Decl.map, Signatures.declEntries]
      split <;> rfl
  | vars decl => exact Signatures.declare_map _ decl
  | _ => rfl

/-- What is noted in a declaration is noted in the shader. -/
theorem subset_declsEntries (s : Shader) (scope : TypeScope) (before after : List DeclId) (d : DeclId) :
    ((Signatures.ofShader s).declEntries (before.foldl s.declAfter scope) (s.declTree d)).1 ⊆
      (Signatures.ofShader s).declsEntries scope ((before ++ d :: after).map s.declTree) := by
  induction before generalizing scope with
  | nil => exact List.subset_append_left _ _
  | cons d' before ih =>
      have hrest := ih (s.declAfter scope d')
      rw [List.foldl_cons, List.cons_append, List.map_cons, Signatures.declsEntries]
      dsimp only
      rw [snd_declEntries]
      exact List.Subset.trans hrest (List.subset_append_right _ _)

theorem subset_exprEntries (h : s.Grounded) {sig : Signatures} {id e : ExprId}
    (he : e ∈ (s.expr id).children) :
    sig.exprEntries scope (s.exprTree e) ⊆ sig.exprEntries scope (s.exprTree id) := by
  refine List.map_subset _ ?_
  rw [h.exprTree_eq id, Expr.subexprs_node, ExprNode.children_map]
  intro sub hsub
  exact List.mem_cons_of_mem _ (List.mem_flatMap.mpr ⟨_, List.mem_map_of_mem he, hsub⟩)

/-- What is noted of the expressions below an expression is noted with it. -/
theorem exprEntries_subset_of_below (h : s.Grounded) {sig : Signatures} {id c : ExprId}
    (hbelow : s.ExprBelow id c) :
    sig.exprEntries scope (s.exprTree c) ⊆ sig.exprEntries scope (s.exprTree id) := by
  induction hbelow with
  | single hc => exact subset_exprEntries h hc
  | tail _ hc ih => exact List.Subset.trans (subset_exprEntries h hc) ih

theorem mem_exprEntries_self (s : Shader) (scope : TypeScope) (id : ExprId) :
    (id, s.typeAt scope id) ∈ (Signatures.ofShader s).exprEntries scope (s.exprTree id) :=
  List.mem_map.mpr ⟨s.exprTree id, Expr.mem_subexprs_self _, by rw [tag_exprTree, typeAt]⟩

/-- What is reached is noted. -/
theorem exists_entry (h : s.Grounded) (ho : s.Owned) {id : ExprId} (hid : s.Reaches (.expr id)) :
    ∃ type, (id, type) ∈ (Signatures.ofShader s).declsEntries [] s.declTrees := by
  have hvisit := ho.exprTree_mem_exprVisits h hid
  have hmem : id ∈ ((Signatures.ofShader s).declsEntries [] s.declTrees).map Prod.fst := by
    rw [((Signatures.ofShader s).notes_decls s.declTrees []).map_fst]
    exact List.mem_map.mpr ⟨_, hvisit, tag_exprTree s id⟩
  obtain ⟨entry, hentry, rfl⟩ := List.mem_map.mp hmem
  exact ⟨entry.2, hentry⟩

/-- The entries that note what is in a node. -/
def nodeEntries (s : Shader) (scope : TypeScope) : NodeId → List Signatures.Entry
  | .decl d => ((Signatures.ofShader s).declEntries scope (s.declTree d)).1
  | .stmt id => ((Signatures.ofShader s).stmtEntries scope (s.stmtTree id)).1
  | .expr id => (Signatures.ofShader s).exprEntries scope (s.exprTree id)

/-- What is in a node is noted in the scope that the node stands in. -/
theorem Scoped.nodeEntries_subset {n : NodeId} (hn : s.Scoped d scope n) (h : s.Grounded)
    (hplaced : s.LocalsPlaced) :
    s.nodeEntries scope n ⊆ (Signatures.ofShader s).declsEntries [] s.declTrees := by
  induction hn with
  | @decl before after hsplit =>
      rw [declTrees, hsplit]
      exact subset_declsEntries s [] before after d
  | @body scope t _ ht ih =>
      refine List.Subset.trans ?_ ih
      rw [nodeEntries, nodeEntries, bodyScope, declTree]
      cases hd : s.decl d with
      | function f =>
          rw [hd] at ht
          have hbody : f.body = some t := by simpa [Decl.bodies] using ht
          rw [Decl.map, hbody]
          exact List.Subset.refl _
      | _ => rw [hd] at ht; cases ht
  | @init scope e _ he ih =>
      refine List.Subset.trans ?_ ih
      rw [nodeEntries, nodeEntries, declTree]
      cases hd : s.decl d with
      | vars decl =>
          rw [hd] at he
          exact subset_varEntries he
      | _ => rw [hd] at he; cases he
  | stmt _ ht ih => exact List.Subset.trans (hplaced.subset_stmtEntries h ht) ih
  | stmtExpr _ he ih => exact List.Subset.trans (hplaced.subset_stmtEntries_expr h he _) ih
  | part _ he ih => exact List.Subset.trans (subset_exprEntries h he) ih

/-- The type that is noted for a slot is the type of its tree in the scope that it stands in. -/
theorem Scoped.get?_eq {id : ExprId} (hid : s.Scoped d scope (.expr id)) (h : s.Grounded)
    (ho : s.Owned) (hplaced : s.LocalsPlaced) :
    (Types.ofShader s).get? id = s.typeAt scope id := by
  have hentry : (id, s.typeAt scope id) ∈
      (Signatures.ofShader s).declsEntries [] s.declTrees := by
    exact hid.nodeEntries_subset h hplaced (s.mem_exprEntries_self scope id)
  exact Types.get?_of_mem (ho.reachesOnce h) hentry

end Shader

end ShaderReducer
