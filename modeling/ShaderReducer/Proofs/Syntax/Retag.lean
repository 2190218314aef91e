import ShaderReducer.Proofs.Syntax.Tree

/-!
# Trees with other tags

`retag` puts other tags on a tree and leaves everything else alone, so it commutes with all that is
read off a tree. Two trees of one syntax differ in nothing but their tags: if one walk through both
meets tags that a function turns into each other, the second tree is the first one retagged.

The walk takes the expressions of one statement together (`Stmt.exprs`), for then it follows the
parts of a form, whatever the form.
-/

namespace ShaderReducer

namespace FunctionDecl

variable {σ τ : Type}

/-- Changes the body of a function. -/
def map (g : σ → τ) (f : FunctionDecl σ) : FunctionDecl τ :=
  ⟨f.returnType, f.name, f.params, f.body.map g⟩

end FunctionDecl

/-! ## Rows of trees -/

/-- Two rows whose members are alike in pairs, and that flatten to the same lists, are the same row
up to a change that the lists of a pair tell. -/
theorem eq_map_of_flatMap_eq₂ {α β γ δ κ : Type} {l : List α} {l' : List β} {key : α → κ}
    {key' : β → κ} {F : α → List γ} {F' : β → List γ} {G : α → List δ} {G' : β → List δ}
    {change : α → β} (hkey : l.map key = l'.map key')
    (hlenF : ∀ a b, key a = key' b → (F a).length = (F' b).length)
    (hlenG : ∀ a b, key a = key' b → (G a).length = (G' b).length)
    (hF : l.flatMap F = l'.flatMap F') (hG : l.flatMap G = l'.flatMap G')
    (hchange : ∀ a ∈ l, ∀ b, key a = key' b → F a = F' b → G a = G' b → b = change a) :
    l' = l.map change := by
  induction l generalizing l' with
  | nil => simpa using hkey.symm
  | cons a l ih =>
      cases l' with
      | nil => simp at hkey
      | cons b l' =>
          obtain ⟨hhead, htail⟩ := List.cons.inj hkey
          rw [List.flatMap_cons, List.flatMap_cons] at hF hG
          obtain ⟨hFhead, hFtail⟩ := List.append_inj hF (hlenF a b hhead)
          obtain ⟨hGhead, hGtail⟩ := List.append_inj hG (hlenG a b hhead)
          rw [List.map_cons, ← hchange a List.mem_cons_self b hhead hFhead hGhead,
            ← ih htail hFtail hGtail fun a' ha' => hchange a' (List.mem_cons_of_mem a ha')]

/-- The same of one list for each member. -/
theorem eq_map_of_flatMap_eq {α β γ κ : Type} {l : List α} {l' : List β} {key : α → κ}
    {key' : β → κ} {F : α → List γ} {F' : β → List γ} {change : α → β}
    (hkey : l.map key = l'.map key')
    (hlenF : ∀ a b, key a = key' b → (F a).length = (F' b).length)
    (hF : l.flatMap F = l'.flatMap F')
    (hchange : ∀ a ∈ l, ∀ b, key a = key' b → F a = F' b → b = change a) :
    l' = l.map change :=
  eq_map_of_flatMap_eq₂ hkey hlenF hlenF hF hF fun a ha b hab hFab _ => hchange a ha b hab hFab

/-! ## Expressions -/

namespace Expr

variable {ε τ : Type}

mutual

/-- Changes the tags. -/
def retag (f : ε → τ) : Expr ε → Expr τ
  | node tag (.literal value) => node (f tag) (.literal value)
  | node tag (.ident name) => node (f tag) (.ident name)
  | node tag (.paren inner) => node (f tag) (.paren (inner.retag f))
  | node tag (.unary op operand) => node (f tag) (.unary op (operand.retag f))
  | node tag (.binary op lhs rhs) => node (f tag) (.binary op (lhs.retag f) (rhs.retag f))
  | node tag (.ternary cond onTrue onFalse) =>
    node (f tag) (.ternary (cond.retag f) (onTrue.retag f) (onFalse.retag f))
  | node tag (.call callee args) => node (f tag) (.call callee (retagAll f args))
  | node tag (.member base field) => node (f tag) (.member (base.retag f) field)
  | node tag (.index base offset) => node (f tag) (.index (base.retag f) (offset.retag f))

/-- Changes the tags of a list of expressions. -/
def retagAll (f : ε → τ) : List (Expr ε) → List (Expr τ)
  | [] => []
  | e :: rest => e.retag f :: retagAll f rest

end

theorem retagAll_eq_map (f : ε → τ) (l : List (Expr ε)) : retagAll f l = l.map (retag f) := by
  induction l with
  | nil => rfl
  | cons e rest ih => rw [retagAll, ih, List.map_cons]

theorem retag_node (f : ε → τ) (tag : ε) (form : ExprNode (Expr ε)) :
    (node tag form).retag f = node (f tag) (form.map (retag f)) := by
  cases form <;> simp [retag, ExprNode.map, retagAll_eq_map]

@[simp] theorem tag_retag (f : ε → τ) (e : Expr ε) : (e.retag f).tag = f e.tag := by
  cases e with
  | node tag form => rw [retag_node]; rfl

@[simp] theorem form_retag (f : ε → τ) (e : Expr ε) : (e.retag f).form = e.form.map (retag f) := by
  cases e with
  | node tag form => rw [retag_node]; rfl

theorem visits_retag (f : ε → τ) (depth : Nat) (e : Expr ε) :
    (e.retag f).visits depth = (e.visits depth).map (Prod.map id (retag f)) := by
  induction e generalizing depth with
  | node tag form ih =>
      rw [retag_node, visits_node, visits_node, List.map_cons, Prod.map_apply, retag_node,
        ExprNode.children_map, List.flatMap_map, List.map_flatMap,
        List.flatMap_congr fun c hc => ih c hc (depth + 1)]
      rfl

theorem subexprs_retag (f : ε → τ) (e : Expr ε) :
    (e.retag f).subexprs = e.subexprs.map (retag f) := by
  rw [subexprs, visits_retag, List.map_map, subexprs, List.map_map]
  rfl

theorem stripParens_retag (f : ε → τ) (e : Expr ε) :
    (e.retag f).stripParens = e.stripParens.retag f := by
  induction e with
  | node tag form ih =>
      cases form with
      | paren inner => exact ih inner List.mem_cons_self
      | _ => simp [retag, stripParens]

theorem length_subexprs_of_erase_eq {e : Expr ε} {e' : Expr τ} (h : e.erase = e'.erase) :
    e.subexprs.length = e'.subexprs.length := by
  rw [← List.length_map erase, ← subexprs_erase, h, subexprs_erase, List.length_map]

/-- An expression of the same syntax is the same expression retagged. -/
theorem eq_retag {f : ε → τ} {e : Expr ε} {e' : Expr τ} (herase : e.erase = e'.erase)
    (htags : e.subexprs.map (fun x => f x.tag) = e'.subexprs.map tag) : e' = e.retag f := by
  induction e generalizing e' with
  | node tag form ih =>
      obtain ⟨tag', form'⟩ := e'
      rw [erase_node, erase_node, node.injEq] at herase
      have hform := herase.2
      rw [subexprs_node, subexprs_node, List.map_cons, List.map_cons, List.map_flatMap,
        List.map_flatMap, List.cons.injEq] at htags
      have hshape : form'.shape = form.shape := by
        rw [← ExprNode.shape_map erase form', ← hform, ExprNode.shape_map]
      have hkey : form.children.map erase = form'.children.map erase := by
        rw [← ExprNode.children_map, hform, ExprNode.children_map]
      have hchildren : form'.children = form.children.map (retag f) :=
        eq_map_of_flatMap_eq hkey (fun a b hab => by simp [length_subexprs_of_erase_eq hab])
          htags.2 fun a ha b hab htags => ih a ha hab htags
      have hmap : form'.map id = form.map (retag f) :=
        ExprNode.map_eq_map_of_shape hshape (by rw [List.map_id, hchildren])
      rw [retag_node, ← hmap, ExprNode.map_id]
      exact congrArg (node · form') htags.1.symm

end Expr

/-! ## Statements -/

namespace Stmt

variable {ε σ ε' σ' : Type}

mutual

/-- Changes the tags of expressions and of statements. -/
def retag (f : ε → ε') (g : σ → σ') : Stmt ε σ → Stmt ε' σ'
  | node tag (.block body) => node (g tag) (.block (retagAll f g body))
  | node tag (.vars decl) => node (g tag) (.vars (decl.map (Expr.retag f)))
  | node tag (.expr value) => node (g tag) (.expr (value.retag f))
  | node tag (.ifElse cond onTrue none) =>
    node (g tag) (.ifElse (cond.retag f) (onTrue.retag f g) none)
  | node tag (.ifElse cond onTrue (some onFalse)) =>
    node (g tag) (.ifElse (cond.retag f) (onTrue.retag f g) (some (onFalse.retag f g)))
  | node tag (.forLoop start cond step body) =>
    node (g tag) (.forLoop (start.retag f g) (cond.map (Expr.retag f)) (step.map (Expr.retag f))
      (body.retag f g))
  | node tag (.whileLoop cond body) => node (g tag) (.whileLoop (cond.retag f) (body.retag f g))
  | node tag (.doWhile body cond) => node (g tag) (.doWhile (body.retag f g) (cond.retag f))
  | node tag (.returns value) => node (g tag) (.returns (value.map (Expr.retag f)))
  | node tag .breaks => node (g tag) .breaks
  | node tag .continues => node (g tag) .continues
  | node tag .discards => node (g tag) .discards
  | node tag .empty => node (g tag) .empty

/-- Changes the tags of a list of statements. -/
def retagAll (f : ε → ε') (g : σ → σ') : List (Stmt ε σ) → List (Stmt ε' σ')
  | [] => []
  | s :: rest => s.retag f g :: retagAll f g rest

end

variable (f : ε → ε') (g : σ → σ')

theorem retagAll_eq_map (l : List (Stmt ε σ)) : retagAll f g l = l.map (retag f g) := by
  induction l with
  | nil => rfl
  | cons s rest ih => rw [retagAll, ih, List.map_cons]

theorem retag_node (tag : σ) (form : StmtNode (Expr ε) (Stmt ε σ)) :
    (node tag form).retag f g = node (g tag) (form.map (Expr.retag f) (retag f g)) := by
  cases form with
  | ifElse cond onTrue onFalse => cases onFalse <;> simp [retag, StmtNode.map]
  | _ => simp [retag, StmtNode.map, retagAll_eq_map]

@[simp] theorem tag_retag (s : Stmt ε σ) : (s.retag f g).tag = g s.tag := by
  cases s with
  | node tag form => rw [retag_node]; rfl

@[simp] theorem form_retag (s : Stmt ε σ) :
    (s.retag f g).form = s.form.map (Expr.retag f) (retag f g) := by
  cases s with
  | node tag form => rw [retag_node]; rfl

theorem visits_retag (depth : Nat) (s : Stmt ε σ) :
    (s.retag f g).visits depth = (s.visits depth).map (Prod.map id (retag f g)) := by
  induction s generalizing depth with
  | node tag form ih =>
      rw [retag_node, visits_node, visits_node, List.map_cons, Prod.map_apply, retag_node,
        StmtNode.childStmts_map, List.flatMap_map, List.map_flatMap,
        List.flatMap_congr fun t ht => ih t ht (depth + 1)]
      rfl

/-- Visits of retagged expressions are retagged visits. -/
theorem flatMap_visits_retag (depth : Nat) (es : List (Expr ε)) :
    (es.map (Expr.retag f)).flatMap (Expr.visits depth) =
      (es.flatMap (Expr.visits depth)).map (Prod.map id (Expr.retag f)) := by
  rw [List.flatMap_map, List.map_flatMap]
  exact List.flatMap_congr fun e _ => Expr.visits_retag f depth e

theorem exprVisits_retag (depth : Nat) (s : Stmt ε σ) :
    (s.retag f g).exprVisits depth = (s.exprVisits depth).map (Prod.map id (Expr.retag f)) := by
  induction s generalizing depth with
  | node tag form ih =>
      have hoption : ∀ o : Option (Expr ε), (o.map (Expr.retag f)).toList.flatMap
          (Expr.visits (depth + 1)) = (o.toList.flatMap (Expr.visits (depth + 1))).map
            (Prod.map id (Expr.retag f)) := by
        intro o
        rw [← flatMap_visits_retag, Option.toList_map]
      cases form with
      | block body =>
          rw [retag, exprVisits, exprVisits, retagAll_eq_map, exprVisitsAll_eq_flatMap,
            exprVisitsAll_eq_flatMap, List.flatMap_map, List.map_flatMap]
          exact List.flatMap_congr fun t ht => ih t ht (depth + 1)
      | vars decl =>
          rw [retag, exprVisits, exprVisits, VarDecl.inits_map, flatMap_visits_retag]
      | ifElse cond onTrue onFalse =>
          cases onFalse <;>
            simp_all [retag, exprVisits, StmtNode.childStmts, Expr.visits_retag]
      | _ => simp_all [retag, exprVisits, StmtNode.childStmts, Expr.visits_retag]

variable {f g}

/-- The expressions in a statement, those of one statement together. -/
def exprs (s : Stmt ε σ) : List (Expr ε) :=
  s.substmts.flatMap fun t => t.form.childExprs.flatMap Expr.subexprs

theorem exprs_node (tag : σ) (form : StmtNode (Expr ε) (Stmt ε σ)) :
    (node tag form).exprs =
      form.childExprs.flatMap Expr.subexprs ++ form.childStmts.flatMap exprs := by
  rw [exprs, substmts_node, List.flatMap_cons, List.flatMap_assoc]
  rfl

theorem length_substmts_of_erase_eq {s : Stmt ε σ} {s' : Stmt ε' σ'} (h : s.erase = s'.erase) :
    s.substmts.length = s'.substmts.length := by
  rw [← List.length_map erase, ← substmts_erase, h, substmts_erase, List.length_map]

theorem exprs_erase (s : Stmt ε σ) : s.erase.exprs = s.exprs.map Expr.erase := by
  rw [exprs, substmts_erase, List.flatMap_map, exprs, List.map_flatMap]
  refine List.flatMap_congr fun t _ => ?_
  rw [form_erase, StmtNode.childExprs_map, List.flatMap_map, List.map_flatMap]
  exact List.flatMap_congr fun e _ => Expr.subexprs_erase e

theorem length_exprs_of_erase_eq {s : Stmt ε σ} {s' : Stmt ε' σ'} (h : s.erase = s'.erase) :
    s.exprs.length = s'.exprs.length := by
  rw [← List.length_map Expr.erase, ← exprs_erase, h, exprs_erase, List.length_map]

/-- Expressions of the same syntax are the same expressions retagged. -/
theorem exprs_eq_map_retag {es : List (Expr ε)} {es' : List (Expr ε')}
    (herase : es.map Expr.erase = es'.map Expr.erase)
    (htags : (es.flatMap Expr.subexprs).map (fun x => f x.tag) =
      (es'.flatMap Expr.subexprs).map Expr.tag) : es' = es.map (Expr.retag f) := by
  rw [List.map_flatMap, List.map_flatMap] at htags
  exact eq_map_of_flatMap_eq herase
    (fun a b hab => by simp [Expr.length_subexprs_of_erase_eq hab]) htags
    fun a _ b hab htags => Expr.eq_retag hab htags

/-- A statement of the same syntax is the same statement retagged. -/
theorem eq_retag {s : Stmt ε σ} {s' : Stmt ε' σ'} (herase : s.erase = s'.erase)
    (hstmts : s.substmts.map (fun t => g t.tag) = s'.substmts.map tag)
    (hexprs : s.exprs.map (fun e => f e.tag) = s'.exprs.map Expr.tag) : s' = s.retag f g := by
  induction s generalizing s' with
  | node tag form ih =>
      obtain ⟨tag', form'⟩ := s'
      rw [erase_node, erase_node, node.injEq] at herase
      have hform := herase.2
      have hshape : form'.shape = form.shape := by
        rw [← StmtNode.shape_map Expr.erase erase form', ← hform, StmtNode.shape_map]
      have hkeyExprs : form.childExprs.map Expr.erase = form'.childExprs.map Expr.erase := by
        rw [← StmtNode.childExprs_map Expr.erase erase, hform, StmtNode.childExprs_map]
      have hkeyStmts : form.childStmts.map erase = form'.childStmts.map erase := by
        rw [← StmtNode.childStmts_map Expr.erase erase, hform, StmtNode.childStmts_map]
      rw [substmts_node, substmts_node, List.map_cons, List.map_cons, List.map_flatMap,
        List.map_flatMap, List.cons.injEq] at hstmts
      rw [exprs_node, exprs_node, List.map_append, List.map_append] at hexprs
      have hlength : ((form.childExprs.flatMap Expr.subexprs).map fun e => f e.tag).length =
          ((form'.childExprs.flatMap Expr.subexprs).map Expr.tag).length := by
        have herased : ∀ {α : Type} (es : List (Expr α)),
            (es.flatMap Expr.subexprs).length =
              ((es.map Expr.erase).flatMap Expr.subexprs).length := by
          intro α es
          rw [List.flatMap_map, List.flatMap_congr fun e _ => Expr.subexprs_erase e,
            ← List.map_flatMap, List.length_map]
        rw [List.length_map, List.length_map, herased form.childExprs, hkeyExprs, ← herased]
      obtain ⟨hown, hbelow⟩ := List.append_inj hexprs hlength
      rw [List.map_flatMap, List.map_flatMap] at hbelow
      have hchildExprs : form'.childExprs = form.childExprs.map (Expr.retag f) :=
        exprs_eq_map_retag hkeyExprs hown
      have hchildStmts : form'.childStmts = form.childStmts.map (retag f g) :=
        eq_map_of_flatMap_eq₂ hkeyStmts
          (fun a b hab => by simp [length_substmts_of_erase_eq hab])
          (fun a b hab => by simp [length_exprs_of_erase_eq hab]) hstmts.2 hbelow
          fun t ht t' htt hs he => ih t ht htt hs he
      have hmap : form'.map id id = form.map (Expr.retag f) (retag f g) :=
        StmtNode.map_eq_map_of_shape hshape (by rw [List.map_id, hchildExprs])
          (by rw [List.map_id, hchildStmts])
      rw [retag_node, ← hmap, StmtNode.map_id]
      exact congrArg (node · form') hstmts.1.symm

end Stmt

/-! ## Declarations -/

namespace DeclTree

variable {ε σ ε' σ' : Type}

/-- Changes the tags of expressions and of statements. -/
def retag (f : ε → ε') (g : σ → σ') (d : DeclTree ε σ) : DeclTree ε' σ' :=
  d.map (Expr.retag f) (Stmt.retag f g)

variable {f : ε → ε'} {g : σ → σ'}

theorem stmtVisits_retag (d : DeclTree ε σ) :
    (retag f g d).stmtVisits = d.stmtVisits.map (Prod.map id (Stmt.retag f g)) := by
  rw [stmtVisits_eq_flatMap, stmtVisits_eq_flatMap, retag, Decl.bodies_map, List.flatMap_map,
    List.map_flatMap]
  exact List.flatMap_congr fun t _ => Stmt.visits_retag f g 1 t

theorem exprVisits_retag (d : DeclTree ε σ) :
    (retag f g d).exprVisits = d.exprVisits.map (Prod.map id (Expr.retag f)) := by
  cases d with
  | function decl =>
      obtain ⟨type, name, params, body⟩ := decl
      cases body <;> simp [retag, Decl.map, exprVisits, Stmt.exprVisits_retag]
  | vars decl =>
      change (decl.map (Expr.retag f)).inits.flatMap (Expr.visits 1) = _
      rw [VarDecl.inits_map, Stmt.flatMap_visits_retag]
      rfl
  | _ => rfl

/-- The expressions of a declaration, those of one statement together. -/
def exprs (d : DeclTree ε σ) : List (Expr ε) :=
  d.inits.flatMap Expr.subexprs ++ d.bodies.flatMap Stmt.exprs

/-- The expressions of a declaration are those that are visited. -/
theorem exprs_perm (d : DeclTree ε σ) : (d.exprVisits.map Prod.snd).Perm (exprs d) := by
  have h := map_snd_exprVisits_perm d
  rwa [map_snd_stmtVisits, List.flatMap_assoc] at h

theorem exprs_erase (d : DeclTree ε σ) : exprs (erase d) = (exprs d).map Expr.erase := by
  rw [exprs, erase, Decl.inits_map, Decl.bodies_map, List.flatMap_map, List.flatMap_map, exprs,
    List.map_append, List.map_flatMap, List.map_flatMap,
    List.flatMap_congr fun e _ => Expr.subexprs_erase e,
    List.flatMap_congr fun t _ => Stmt.exprs_erase t]

theorem length_stmtVisits_of_erase_eq {d : DeclTree ε σ} {d' : DeclTree ε' σ'}
    (h : erase d = erase d') : d.stmtVisits.length = d'.stmtVisits.length := by
  rw [← List.length_map Prod.snd, ← List.length_map Stmt.erase, ← map_snd_stmtVisits_erase, h,
    map_snd_stmtVisits_erase, List.length_map, List.length_map]

theorem length_exprs_of_erase_eq {d : DeclTree ε σ} {d' : DeclTree ε' σ'} (h : erase d = erase d') :
    (exprs d).length = (exprs d').length := by
  rw [← List.length_map Expr.erase, ← exprs_erase, h, exprs_erase, List.length_map]

/-- A declaration of the same syntax is the same declaration retagged. -/
theorem eq_retag {d : DeclTree ε σ} {d' : DeclTree ε' σ'} (herase : erase d = erase d')
    (hstmts : (d.stmtVisits.map fun v => g v.2.tag) = d'.stmtVisits.map fun v => v.2.tag)
    (hexprs : ((exprs d).map fun e => f e.tag) = (exprs d').map Expr.tag) : d' = retag f g d := by
  cases d <;> cases d' <;> simp only [erase, Decl.map, reduceCtorEq, Decl.function.injEq,
    Decl.vars.injEq, FunctionDecl.mk.injEq] at herase
  case function.function decl decl' =>
    obtain ⟨type, name, params, body⟩ := decl
    obtain ⟨type', name', params', body'⟩ := decl'
    obtain ⟨rfl, rfl, rfl, hbody⟩ := herase
    cases body <;> cases body' <;> simp only [Option.map_none, Option.map_some, reduceCtorEq,
      Option.some.injEq] at hbody
    case none.none => rfl
    case some.some body body' =>
      simp only [exprs, Decl.inits, Decl.bodies, List.flatMap_nil, List.nil_append,
        Option.toList_some, List.flatMap_singleton] at hexprs
      have htags : body.substmts.map (fun t => g t.tag) = body'.substmts.map Stmt.tag := by
        simpa [stmtVisits, ← Stmt.map_snd_visits 1, Function.comp_def] using hstmts
      simp only [retag, Decl.map, Option.map_some, Stmt.eq_retag hbody htags hexprs]
  case vars.vars decl decl' =>
    simp only [exprs, Decl.inits, Decl.bodies, List.flatMap_nil, List.append_nil] at hexprs
    have hinits : decl'.inits = decl.inits.map (Expr.retag f) := by
      refine Stmt.exprs_eq_map_retag ?_ hexprs
      rw [← VarDecl.inits_map, herase, VarDecl.inits_map]
    have hshape : decl'.map (fun _ => ()) = decl.map fun _ => () := by
      have h := congrArg (VarDecl.map fun _ => ()) herase
      rw [VarDecl.map_map, VarDecl.map_map] at h
      exact h.symm
    have hmap : decl'.map id = decl.map (Expr.retag f) :=
      VarDecl.map_eq_map_of_shape hshape (by rw [List.map_id, hinits])
    rw [VarDecl.map_id] at hmap
    rw [hmap]
    rfl
  all_goals simp_all [retag, Decl.map]

/-- Declarations of the same syntax are the same declarations retagged. -/
theorem eq_map_retag {ds : List (DeclTree ε σ)} {ds' : List (DeclTree ε' σ')}
    (herase : ds.map erase = ds'.map erase)
    (hstmts : ((ds.flatMap stmtVisits).map fun v => g v.2.tag) =
      (ds'.flatMap stmtVisits).map fun v => v.2.tag)
    (hexprs : ((ds.flatMap exprs).map fun e => f e.tag) = (ds'.flatMap exprs).map Expr.tag) :
    ds' = ds.map (retag f g) := by
  rw [List.map_flatMap, List.map_flatMap] at hstmts hexprs
  exact eq_map_of_flatMap_eq₂ herase
    (fun d d' h => by simp [length_stmtVisits_of_erase_eq h])
    (fun d d' h => by simp [length_exprs_of_erase_eq h]) hstmts hexprs
    fun d _ d' h hs he => eq_retag h hs he

end DeclTree

end ShaderReducer
