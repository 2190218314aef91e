import Mathlib.Algebra.GroupWithZero.Nat
import ShaderReducer.Proofs.Syntax.Retag
import ShaderReducer.Proofs.Syntax.Tree
import ShaderReducer.Shader.Tree

/-!
# Trees without parentheses

Two trees agree if they are equal once tags and parentheses are taken away.
-/

namespace ShaderReducer

/-- Whether a form is a pair of parentheses. -/
def ExprNode.isParen {ρ : Type} : ExprNode ρ → Bool
  | paren _ => true
  | _ => false

namespace Expr

variable {ε ε' : Type}

mutual

/-- An expression without tags and parentheses. -/
def bare : Expr ε → Expr Unit
  | node _ (.literal value) => node () (.literal value)
  | node _ (.ident name) => node () (.ident name)
  | node _ (.paren inner) => inner.bare
  | node _ (.unary op operand) => node () (.unary op operand.bare)
  | node _ (.binary op lhs rhs) => node () (.binary op lhs.bare rhs.bare)
  | node _ (.ternary cond onTrue onFalse) =>
    node () (.ternary cond.bare onTrue.bare onFalse.bare)
  | node _ (.call callee args) => node () (.call callee (bareAll args))
  | node _ (.member base field) => node () (.member base.bare field)
  | node _ (.index base offset) => node () (.index base.bare offset.bare)

/-- Some expressions without tags and parentheses. -/
def bareAll : List (Expr ε) → List (Expr Unit)
  | [] => []
  | e :: rest => e.bare :: bareAll rest

end

theorem bareAll_eq_map (l : List (Expr ε)) : bareAll l = l.map bare := by
  induction l with
  | nil => rfl
  | cons e rest ih => rw [bareAll, ih, List.map_cons]

theorem bare_node (tag : ε) {form : ExprNode (Expr ε)} (h : form.isParen = false) :
    (node tag form).bare = node () (form.map bare) := by
  cases form with
  | paren inner => cases h
  | call callee args => rw [bare, bareAll_eq_map]; rfl
  | _ => rfl

theorem bare_stripParens (e : Expr ε) : e.stripParens.bare = e.bare := by
  induction e with
  | node tag form ih =>
      cases form with
      | paren inner => exact ih inner List.mem_cons_self
      | _ => rfl

/-- What is left without parentheses is no pair of them. -/
theorem isParen_stripParens (e : Expr ε) : e.stripParens.form.isParen = false := by
  induction e with
  | node tag form ih =>
      cases form with
      | paren inner => exact ih inner List.mem_cons_self
      | _ => rfl

theorem bare_erase (e : Expr ε) : e.erase.bare = e.bare := by
  induction e with
  | node tag form ih =>
      rw [erase_node]
      cases hform : form.isParen with
      | true =>
          cases form with
          | paren inner => exact ih inner List.mem_cons_self
          | _ => cases hform
      | false =>
          have hmap : (form.map erase).isParen = false := by
            cases form <;> first | rfl | cases hform
          rw [bare_node _ hform, bare_node _ hmap, ExprNode.map_map]
          exact congrArg (node ()) (ExprNode.map_congr ih)

theorem agreesAll_iff {l : List (Expr ε)} {l' : List (Expr ε')}
    (h : ∀ e ∈ l, ∀ e' : Expr ε', e.agrees e' = true ↔ e.bare = e'.bare) :
    agreesAll l l' = true ↔ l.map bare = l'.map bare := by
  induction l generalizing l' with
  | nil => cases l' <;> simp [agreesAll]
  | cons e rest ih =>
      cases l' with
      | nil => simp [agreesAll]
      | cons e' rest' =>
          rw [agreesAll, Bool.and_eq_true, h e List.mem_cons_self,
            ih fun d hd => h d (List.mem_cons_of_mem e hd), List.map_cons, List.map_cons,
            List.cons.injEq]

/-- Two expressions agree if they are the same without tags and parentheses. -/
theorem agrees_iff (e : Expr ε) (e' : Expr ε') : e.agrees e' = true ↔ e.bare = e'.bare := by
  induction e generalizing e' with
  | node tag form ih =>
      cases hform : form.isParen with
      | true =>
          cases form with
          | paren inner => exact ih inner List.mem_cons_self e'
          | _ => cases hform
      | false =>
          have hparen := isParen_stripParens e'
          rw [← bare_stripParens e']
          generalize hstrip : e'.stripParens = stripped at hparen
          obtain ⟨tag', form'⟩ := stripped
          change form'.isParen = false at hparen
          rw [bare_node _ hform, bare_node _ hparen]
          cases form <;> cases hform <;> cases form' <;> cases hparen
          all_goals
            simp only [ExprNode.children, List.mem_cons, List.not_mem_nil, or_false, forall_eq_or_imp,
              forall_eq] at ih
            simp [agrees, hstrip, ExprNode.map, ih, and_assoc]
          · exact fun _ => agreesAll_iff ih
          · exact and_comm

theorem agreesOption_iff (e : Option (Expr ε)) (e' : Option (Expr ε')) :
    agreesOption e e' = true ↔ e.map bare = e'.map bare := by
  cases e <;> cases e' <;> simp [agreesOption, agrees_iff]

theorem bare_congr_tag (tag tag' : ε) (form : ExprNode (Expr ε)) :
    (node tag form).bare = (node tag' form).bare := by
  cases form <;> rfl

/-- Without parentheses a literal is left if there is one inside them. -/
theorem bare_eq_literal_iff {e : Expr ε} {value : Literal} :
    e.bare = node () (.literal value) ↔ e.stripParens.form = .literal value := by
  have hparen := isParen_stripParens e
  rw [← bare_stripParens]
  generalize e.stripParens = stripped at hparen ⊢
  obtain ⟨tag, form⟩ := stripped
  change form.isParen = false at hparen
  rw [bare_node _ hparen]
  cases form <;> simp [ExprNode.map, Expr.form]

end Expr

namespace Declarator

variable {ε ε' : Type}

theorem agrees_iff (d : Declarator (Expr ε)) (d' : Declarator (Expr ε')) :
    d.agrees d' = true ↔ d.map Expr.bare = d'.map Expr.bare := by
  rw [agrees, Bool.and_eq_true, Bool.and_eq_true, beq_iff_eq, beq_iff_eq, Expr.agreesOption_iff,
    and_assoc]
  simp [map]

end Declarator

namespace VarDecl

variable {ε ε' : Type}

theorem agrees_iff (v : VarDecl (Expr ε)) (v' : VarDecl (Expr ε')) :
    v.agrees v' = true ↔ v.map Expr.bare = v'.map Expr.bare := by
  obtain ⟨type, ds⟩ := v
  obtain ⟨type', ds'⟩ := v'
  rw [agrees, Bool.and_eq_true, Bool.and_eq_true, beq_iff_eq, beq_iff_eq, and_assoc, map, map,
    VarDecl.mk.injEq]
  refine and_congr_right fun htype => ?_
  clear htype
  dsimp only
  induction ds generalizing ds' with
  | nil => cases ds' <;> simp
  | cons d ds ih =>
      cases ds' with
      | nil => simp
      | cons d' ds' =>
          rw [List.map_cons, List.map_cons, List.cons.injEq, ← ih ds', ← d.agrees_iff d']
          simp [and_left_comm]

end VarDecl

/-! ## Changing all expressions -/

namespace Stmt

variable {ε σ ε' : Type}

mutual

/-- Changes the initial values and the other expressions of a statement, and forgets the tags of
statements. -/
def mapExprs (init value : Expr ε → Expr ε') : Stmt ε σ → Stmt ε' Unit
  | node _ (.block body) => node () (.block (mapExprsAll init value body))
  | node _ (.vars decl) => node () (.vars (decl.map init))
  | node _ (.expr e) => node () (.expr (value e))
  | node _ (.ifElse cond onTrue none) =>
    node () (.ifElse (value cond) (onTrue.mapExprs init value) none)
  | node _ (.ifElse cond onTrue (some onFalse)) =>
    node () (.ifElse (value cond) (onTrue.mapExprs init value)
      (some (onFalse.mapExprs init value)))
  | node _ (.forLoop start cond step body) =>
    node () (.forLoop (start.mapExprs init value) (cond.map value) (step.map value)
      (body.mapExprs init value))
  | node _ (.whileLoop cond body) =>
    node () (.whileLoop (value cond) (body.mapExprs init value))
  | node _ (.doWhile body cond) => node () (.doWhile (body.mapExprs init value) (value cond))
  | node _ (.returns e) => node () (.returns (e.map value))
  | node _ .breaks => node () .breaks
  | node _ .continues => node () .continues
  | node _ .discards => node () .discards
  | node _ .empty => node () .empty

/-- Changes the expressions of some statements. -/
def mapExprsAll (init value : Expr ε → Expr ε') : List (Stmt ε σ) → List (Stmt ε' Unit)
  | [] => []
  | s :: rest => s.mapExprs init value :: mapExprsAll init value rest

end

theorem mapExprsAll_eq_map (init value : Expr ε → Expr ε') (l : List (Stmt ε σ)) :
    mapExprsAll init value l = l.map (mapExprs init value) := by
  induction l with
  | nil => rfl
  | cons s rest ih => rw [mapExprsAll, ih, List.map_cons]

theorem mapExprs_node (f : Expr ε → Expr ε') (tag : σ) (form : StmtNode (Expr ε) (Stmt ε σ)) :
    (node tag form).mapExprs f f = node () (form.map f (mapExprs f f)) := by
  cases form with
  | block body => rw [mapExprs, mapExprsAll_eq_map]; rfl
  | ifElse cond onTrue onFalse => cases onFalse <;> rfl
  | _ => rfl

theorem form_mapExprs (f : Expr ε → Expr ε') (s : Stmt ε σ) :
    (s.mapExprs f f).form = s.form.map f (mapExprs f f) := by
  obtain ⟨tag, form⟩ := s
  rw [mapExprs_node]
  rfl

/-- A statement without tags and parentheses. -/
def bare (s : Stmt ε σ) : Stmt Unit Unit :=
  s.mapExprs Expr.bare Expr.bare

/-- To forget the tags changes all expressions. -/
theorem erase_eq_mapExprs (s : Stmt ε σ) : s.erase = s.mapExprs Expr.erase Expr.erase := by
  induction s with
  | node tag form ih =>
      cases form with
      | block body =>
          rw [erase, mapExprs, eraseAll_eq_map, mapExprsAll_eq_map]
          exact congrArg (fun l => node () (.block l)) (List.map_congr_left ih)
      | ifElse cond onTrue onFalse =>
          cases onFalse <;>
            simp_all [erase, mapExprs, StmtNode.childStmts]
      | _ => simp_all [erase, mapExprs, StmtNode.childStmts]

theorem mapExprs_mapExprs {ε'' : Type} (init value : Expr ε → Expr ε') (init' value' : Expr ε' → Expr ε'')
    (s : Stmt ε σ) : (s.mapExprs init value).mapExprs init' value' =
      s.mapExprs (init' ∘ init) (value' ∘ value) := by
  induction s with
  | node tag form ih =>
      cases form with
      | block body =>
          rw [mapExprs, mapExprs, mapExprs, mapExprsAll_eq_map, mapExprsAll_eq_map,
            mapExprsAll_eq_map, List.map_map]
          exact congrArg (fun l => node () (.block l)) (List.map_congr_left ih)
      | vars decl => rw [mapExprs, mapExprs, mapExprs, VarDecl.map_map]
      | ifElse cond onTrue onFalse =>
          cases onFalse <;> simp_all [mapExprs, StmtNode.childStmts]
      | _ => simp_all [mapExprs, StmtNode.childStmts]

theorem agreesAll_iff {σ' : Type} {l : List (Stmt ε σ)} {l' : List (Stmt ε' σ')}
    (h : ∀ s ∈ l, ∀ s' : Stmt ε' σ', s.agrees s' = true ↔ s.bare = s'.bare) :
    agreesAll l l' = true ↔ l.map bare = l'.map bare := by
  induction l generalizing l' with
  | nil => cases l' <;> simp [agreesAll]
  | cons s rest ih =>
      cases l' with
      | nil => simp [agreesAll]
      | cons s' rest' =>
          rw [agreesAll, Bool.and_eq_true, h s List.mem_cons_self,
            ih fun t ht => h t (List.mem_cons_of_mem s ht), List.map_cons, List.map_cons,
            List.cons.injEq]

/-- Two statements agree if they are the same without tags and parentheses. -/
theorem agrees_iff {σ' : Type} (s : Stmt ε σ) (s' : Stmt ε' σ') :
    s.agrees s' = true ↔ s.bare = s'.bare := by
  induction s generalizing s' with
  | node tag form ih =>
      obtain ⟨tag', form'⟩ := s'
      cases form with
      | block body =>
          cases form' with
          | block body' =>
              simp only [agrees, bare, mapExprs, mapExprsAll_eq_map, node.injEq, true_and,
                StmtNode.block.injEq]
              exact agreesAll_iff ih
          | ifElse cond' onTrue' onFalse' => cases onFalse' <;> simp [agrees, bare, mapExprs]
          | _ => simp [agrees, bare, mapExprs]
      | ifElse cond onTrue onFalse =>
          simp only [StmtNode.childStmts, List.mem_cons, Option.mem_toList, forall_eq_or_imp] at ih
          cases onFalse <;> cases form' with
          | ifElse cond' onTrue' onFalse' =>
              cases onFalse' <;> simp_all [agrees, bare, mapExprs, Expr.agrees_iff, and_assoc]
          | _ => simp [agrees, bare, mapExprs]
      | _ =>
          simp only [StmtNode.childStmts, List.mem_cons, List.not_mem_nil, or_false,
            forall_eq_or_imp, forall_eq] at ih
          cases form' with
          | ifElse cond' onTrue' onFalse' => cases onFalse' <;> simp [agrees, bare, mapExprs]
          | _ =>
              simp [agrees, bare, mapExprs, VarDecl.agrees_iff, Expr.agrees_iff,
                Expr.agreesOption_iff, ih, and_assoc]
              try exact and_comm

end Stmt

namespace DeclTree

variable {ε σ ε' σ' : Type}

/-- Changes the initial values and the other expressions of a declaration, and forgets the tags of
statements. -/
def mapExprs (init value : Expr ε → Expr ε') : DeclTree ε σ → DeclTree ε' Unit
  | .directive text => .directive text
  | .precision level typeName => .precision level typeName
  | .struct decl => .struct decl
  | .function decl =>
    .function ⟨decl.returnType, decl.name, decl.params, decl.body.map (Stmt.mapExprs init value)⟩
  | .vars decl => .vars (decl.map init)

theorem mapExprs_eq_map (f : Expr ε → Expr ε') (d : DeclTree ε σ) :
    DeclTree.mapExprs f f d = Decl.map f (Stmt.mapExprs f f) d := by
  cases d <;> rfl

/-- A declaration without tags and parentheses. -/
def bare (d : DeclTree ε σ) : DeclTree Unit Unit :=
  DeclTree.mapExprs Expr.bare Expr.bare d

theorem erase_eq_mapExprs (d : DeclTree ε σ) :
    DeclTree.erase d = DeclTree.mapExprs Expr.erase Expr.erase d := by
  cases d with
  | function decl =>
      have h : (Stmt.erase : Stmt ε σ → Stmt Unit Unit) = Stmt.mapExprs Expr.erase Expr.erase :=
        funext Stmt.erase_eq_mapExprs
      rw [erase, Decl.map, h]
      rfl
  | _ => rfl

theorem mapExprs_mapExprs {ε'' : Type} (init value : Expr ε → Expr ε')
    (init' value' : Expr ε' → Expr ε'') (d : DeclTree ε σ) :
    DeclTree.mapExprs init' value' (DeclTree.mapExprs init value d) =
      DeclTree.mapExprs (init' ∘ init) (value' ∘ value) d := by
  cases d with
  | function decl =>
      simp only [mapExprs, Option.map_map]
      congr 3
      exact funext fun s => Stmt.mapExprs_mapExprs init value init' value' s
  | vars decl => rw [mapExprs, mapExprs, mapExprs, VarDecl.map_map]
  | _ => rfl

/-- To take the parentheses away does not see tags. -/
theorem bare_erase (d : DeclTree ε σ) : bare (DeclTree.erase d) = bare d := by
  have h : (Expr.bare ∘ Expr.erase : Expr ε → Expr Unit) = Expr.bare := funext Expr.bare_erase
  rw [erase_eq_mapExprs, bare, mapExprs_mapExprs, h]
  rfl

/-- Two declarations agree if they are the same without tags and parentheses. -/
theorem agrees_iff (d : DeclTree ε σ) (d' : DeclTree ε' σ') :
    DeclTree.agrees d d' = true ↔ bare d = bare d' := by
  cases d <;> cases d' <;> simp [agrees, bare, mapExprs, VarDecl.agrees_iff]
  case function.function decl decl' =>
    obtain ⟨_, _, _, body⟩ := decl
    obtain ⟨_, _, _, body'⟩ := decl'
    cases body <;> cases body' <;>
      simp [Stmt.agreesOption, Stmt.agrees_iff, Stmt.bare, and_assoc]

theorem agreesAll_iff (ds : List (DeclTree ε σ)) (ds' : List (DeclTree ε' σ')) :
    DeclTree.agreesAll ds ds' = true ↔ ds.map bare = ds'.map bare := by
  induction ds generalizing ds' with
  | nil => cases ds' <;> simp [agreesAll]
  | cons d rest ih =>
      cases ds' with
      | nil => simp [agreesAll]
      | cons d' rest' =>
          rw [agreesAll, Bool.and_eq_true, agrees_iff, ih, List.map_cons, List.map_cons,
            List.cons.injEq]

end DeclTree

/-- A program without tags and parentheses, and with the version that it has or is taken to have. -/
def Program.bare (p : Program) : Version × List (DeclTree Unit Unit) :=
  (p.dialect, p.decls.map DeclTree.bare)

theorem Shader.bare_toProgram (s : Shader) :
    s.toProgram.bare = (s.dialect, s.declTrees.map DeclTree.bare) := by
  rw [Program.bare, toProgram, List.map_map]
  exact congrArg (Prod.mk _) (List.map_congr_left fun d _ => DeclTree.bare_erase d)

/-- Two shaders agree if their programs are the same without tags and parentheses. -/
theorem Shader.agrees_iff (s t : Shader) :
    s.agrees t = true ↔ s.toProgram.bare = t.toProgram.bare := by
  rw [agrees, Bool.and_eq_true, DeclTree.agreesAll_iff, beq_iff_eq, bare_toProgram, bare_toProgram,
    Prod.mk.injEq]

/-!
## Counting members

How many members there are in syntax. Tags and parentheses do not change the number, so that syntax
that agrees has as many.
-/

/-- Whether a form is a member. -/
def ExprNode.isMember {ρ : Type} : ExprNode ρ → Bool
  | member _ _ => true
  | _ => false

namespace Expr

variable {ε : Type}

/-- The number of members in an expression. -/
def members (e : Expr ε) : Nat :=
  e.subexprs.countP fun d => d.form.isMember

theorem members_node (tag : ε) (form : ExprNode (Expr ε)) : (node tag form).members =
    (form.children.map members).sum + if form.isMember then 1 else 0 := by
  rw [members, subexprs_node, List.countP_cons, List.countP_flatMap]
  rfl

theorem members_bare (e : Expr ε) : e.bare.members = e.members := by
  induction e with
  | node tag form ih =>
      cases hparen : form.isParen with
      | true =>
          cases form with
          | paren inner =>
              rw [members_node, bare, ih inner List.mem_cons_self]
              simp [ExprNode.children, ExprNode.isMember]
          | _ => cases hparen
      | false =>
          have hmember : (form.map bare).isMember = form.isMember := by cases form <;> rfl
          rw [bare_node tag hparen, members_node, members_node, ExprNode.children_map, List.map_map,
            hmember]
          congr 2
          exact List.map_congr_left ih

theorem members_comp_bare : (members ∘ bare : Expr ε → Nat) = members :=
  funext members_bare

end Expr

namespace Stmt

variable {ε σ : Type}

/-- The number of members in a statement. -/
def members (s : Stmt ε σ) : Nat :=
  s.exprs.countP fun e => e.form.isMember

theorem members_node (tag : σ) (form : StmtNode (Expr ε) (Stmt ε σ)) : (node tag form).members =
    (form.childExprs.map Expr.members).sum + (form.childStmts.map members).sum := by
  rw [members, exprs_node, List.countP_append, List.countP_flatMap, List.countP_flatMap]
  rfl

theorem bare_node (tag : σ) (form : StmtNode (Expr ε) (Stmt ε σ)) :
    (node tag form).bare = node () (form.map Expr.bare bare) :=
  mapExprs_node Expr.bare tag form

theorem substmts_bare (s : Stmt ε σ) : s.bare.substmts = s.substmts.map bare := by
  induction s with
  | node tag form ih =>
      rw [bare_node, substmts_node, substmts_node, StmtNode.childStmts_map, List.flatMap_map,
        List.map_cons, List.map_flatMap, bare_node]
      exact congrArg _ (List.flatMap_congr ih)

theorem members_bare (s : Stmt ε σ) : s.bare.members = s.members := by
  induction s with
  | node tag form ih =>
      have hstmts : form.childStmts.map (members ∘ bare) = form.childStmts.map members :=
        List.map_congr_left ih
      rw [bare_node, members_node, members_node, StmtNode.childExprs_map, StmtNode.childStmts_map,
        List.map_map, List.map_map, hstmts, Expr.members_comp_bare]

end Stmt

namespace DeclTree

variable {ε σ : Type}

/-- The number of members in a declaration. -/
def members (d : DeclTree ε σ) : Nat :=
  (exprs d).countP fun e => e.form.isMember

theorem members_eq (d : DeclTree ε σ) : members d =
    ((Decl.inits d).map Expr.members).sum + ((Decl.bodies d).map Stmt.members).sum := by
  rw [members, exprs, List.countP_append, List.countP_flatMap, List.countP_flatMap]
  rfl

theorem bare_eq_map (d : DeclTree ε σ) : bare d = Decl.map Expr.bare Stmt.bare d :=
  mapExprs_eq_map Expr.bare d

theorem members_bare (d : DeclTree ε σ) : members (bare d) = members d := by
  have hstmts : (Stmt.members ∘ Stmt.bare : Stmt ε σ → Nat) = Stmt.members :=
    funext Stmt.members_bare
  rw [bare_eq_map, members_eq, members_eq, Decl.inits_map, Decl.bodies_map, List.map_map, List.map_map,
    hstmts, Expr.members_comp_bare]

end DeclTree

/-- The number of members in a program. -/
def Program.members (p : Program) : Nat :=
  (p.decls.map DeclTree.members).sum

theorem Program.members_of_bare_eq {p q : Program} (h : p.bare = q.bare) :
    p.members = q.members := by
  have hdecls : ∀ r : Program, r.members = (r.bare.2.map DeclTree.members).sum := by
    intro r
    rw [bare, List.map_map, members, List.map_congr_left fun d _ => (DeclTree.members_bare d).symm]
    rfl
  rw [hdecls, hdecls, h]

end ShaderReducer
