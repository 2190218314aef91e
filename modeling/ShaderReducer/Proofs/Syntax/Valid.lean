import Mathlib.Algebra.Order.Group.Nat
import ShaderReducer.Parser.Program
import ShaderReducer.Proofs.Syntax.Explicit
import ShaderReducer.Proofs.Token.Genuine

/-!
# Syntax that can be read

What the grammar asks of a tree beyond its form: names and literals are tokens, a declaration
declares something, an `if` before an `else` takes no `else` away, and a loop starts with a simple
statement. The conditions on one node do not look at the parts below it, other than through a
predicate on them, so that they can be asked of slots too.
-/

namespace ShaderReducer

/-- A text that is an identifier. -/
def IsName (text : String) : Prop :=
  IsToken .identifier text.toList

/-- An array size has 32 bits. -/
def IsArraySize (size : Option Nat) : Prop :=
  ∀ n ∈ size, n < 2 ^ 32

/-! ## Expressions -/

/-- A literal that is a token of its kind. -/
def Literal.IsGenuine : Literal → Prop
  | int text => IsToken .intLiteral text.toList
  | uint text => IsToken .uintLiteral text.toList
  | float text => IsToken .floatLiteral text.toList
  | bool _ => True

/-- A form whose literal is as told and whose names are identifiers. -/
def ExprNode.Valid {ρ : Type} (literals : Literal → Prop) : ExprNode ρ → Prop
  | literal value => literals value
  | ident name => IsName name
  | call callee _ => IsName callee
  | member _ field => IsName field
  | _ => True

theorem ExprNode.valid_map {ρ τ : Type} (literals : Literal → Prop) (f : ρ → τ) (e : ExprNode ρ) :
    (e.map f).Valid literals ↔ e.Valid literals := by
  cases e <;> rfl

namespace Expr

variable {ε ε' : Type}

/-- All forms of an expression are as told. -/
def All (forms : ExprNode (Expr ε) → Prop) (e : Expr ε) : Prop :=
  ∀ d ∈ e.subexprs, forms d.form

theorem all_node {forms : ExprNode (Expr ε) → Prop} {tag : ε} {form : ExprNode (Expr ε)} :
    All forms (node tag form) ↔ forms form ∧ ∀ c ∈ form.children, All forms c := by
  simp only [All, subexprs_node, List.mem_cons, List.mem_flatMap, forall_eq_or_imp,
    forall_exists_index, and_imp]
  exact and_congr_right fun _ => forall_comm.trans (forall_congr' fun _ => ⟨fun h hc d => h d hc,
    fun h d hc => h hc d⟩)

/-- An expression whose literals are as told and whose names are identifiers. -/
def Valid (literals : Literal → Prop) (e : Expr ε) : Prop :=
  e.All (ExprNode.Valid literals)

theorem valid_node {literals : Literal → Prop} {tag : ε} {form : ExprNode (Expr ε)} :
    Valid literals (node tag form) ↔
      form.Valid literals ∧ ∀ c ∈ form.children, Valid literals c :=
  all_node

variable {literals : Literal → Prop}

theorem Valid.mono {literals' : Literal → Prop} (h : ∀ l, literals l → literals' l) {e : Expr ε}
    (he : e.Valid literals) : e.Valid literals' := by
  intro d hd
  have := he d hd
  cases hform : d.form with
  | literal value =>
      rw [hform] at this
      exact h value this
  | _ =>
      rw [hform] at this
      exact this

theorem valid_enclosed {precedence required : Nat} {e : Expr Unit} (h : e.Valid literals) :
    (enclosed precedence required e).Valid literals := by
  rw [enclosed]
  split
  · refine valid_node.mpr ⟨trivial, ?_⟩
    rintro c (_ | ⟨_, hc⟩)
    · exact h
    · cases hc
  · exact h

theorem valid_explicitParts {form : ExprNode (Expr Unit)} :
    (explicitParts form).Valid literals ↔ form.Valid literals := by
  cases form <;> rfl

theorem mem_children_explicitParts {form : ExprNode (Expr Unit)} {c : Expr Unit}
    (h : c ∈ (explicitParts form).children) :
    ∃ c' ∈ form.children, ∃ required, c = c'.explicit required := by
  cases form with
  | literal value => cases h
  | ident name => cases h
  | call callee args =>
      obtain ⟨arg, harg, rfl⟩ := List.mem_map.mp h
      exact ⟨arg, harg, _, rfl⟩
  | _ =>
      simp only [explicitParts, ExprNode.children, List.mem_cons, List.not_mem_nil, or_false] at h
      simp only [ExprNode.children, List.mem_cons, List.not_mem_nil, or_false]
      grind

/-- The parentheses that the printer adds ask nothing of a tree. -/
theorem valid_explicit {e : Expr Unit} (h : e.Valid literals) (required : Nat) :
    (e.explicit required).Valid literals := by
  induction e generalizing required with
  | node tag form ih =>
      obtain ⟨hform, hparts⟩ := valid_node.mp h
      rw [explicit_node]
      refine valid_enclosed (valid_node.mpr ⟨valid_explicitParts.mpr hform, fun c hc => ?_⟩)
      obtain ⟨c', hc', r, rfl⟩ := mem_children_explicitParts hc
      exact ih c' hc' (hparts c' hc') r

theorem valid_erase {e : Expr ε} : e.erase.Valid literals ↔ e.Valid literals := by
  simp only [Valid, All, subexprs_erase, List.mem_map, forall_exists_index, and_imp,
    forall_apply_eq_imp_iff₂]
  refine forall_congr' fun d => imp_congr_right fun _ => ?_
  obtain ⟨tag, form⟩ := d
  rw [erase_node]
  exact ExprNode.valid_map literals erase form

/-- Parentheses ask nothing of a tree. -/
theorem valid_bare {e : Expr ε} : e.bare.Valid literals ↔ e.Valid literals := by
  induction e with
  | node tag form ih =>
      cases hparen : form.isParen with
      | true =>
          cases form with
          | paren inner =>
              rw [bare, ih inner List.mem_cons_self, valid_node]
              exact (and_iff_right trivial).trans List.forall_mem_singleton |>.symm
          | _ => cases hparen
      | false =>
          rw [bare_node tag hparen, valid_node, valid_node, ExprNode.valid_map, ExprNode.children_map,
            List.forall_mem_map]
          exact and_congr_right fun _ => forall₂_congr ih

end Expr

/-! ## Types and variables -/

/-- An entry of a layout whose key is a name and whose value is a name or an integer. -/
def LayoutItem.Valid (item : LayoutItem) : Prop :=
  IsName item.key ∧ ∀ value ∈ item.value,
    ∃ kind ∈ [TokenKind.intLiteral, .uintLiteral, .identifier], IsToken kind value.toList

/-- A qualifier that holds no empty layout. -/
def Qualifier.Valid : Qualifier → Prop
  | layout items => items ≠ [] ∧ ∀ item ∈ items, item.Valid
  | _ => True

/-- A type that can be read. -/
structure TypeSpec.Valid (spec : TypeSpec) : Prop where
  qualifiers : ∀ q ∈ spec.qualifiers, q.Valid
  name : IsName spec.name

/-- A declarator whose name and size can be read. -/
structure Declarator.Named {ρ : Type} (d : Declarator ρ) : Prop where
  name : IsName d.name
  arraySize : IsArraySize d.arraySize

/-- A declaration that declares something, all of whose names can be read. -/
structure VarDecl.Named {ρ : Type} (v : VarDecl ρ) : Prop where
  type : v.type.Valid
  nonempty : v.declarators ≠ []
  declarators : ∀ d ∈ v.declarators, d.Named

theorem VarDecl.named_map {ρ τ : Type} {f : ρ → τ} {v : VarDecl ρ} :
    (v.map f).Named ↔ v.Named := by
  constructor
  · intro h
    refine ⟨h.type, fun hnil => h.nonempty (List.map_eq_nil_iff.mpr hnil), fun d hd => ?_⟩
    have := h.declarators _ (List.mem_map_of_mem hd)
    exact ⟨this.name, this.arraySize⟩
  · intro h
    refine ⟨h.type, fun hnil => h.nonempty (List.map_eq_nil_iff.mp hnil), fun d hd => ?_⟩
    obtain ⟨d', hd', rfl⟩ := List.mem_map.mp hd
    exact ⟨(h.declarators d' hd').name, (h.declarators d' hd').arraySize⟩

/-! ## Statements -/

namespace StmtNode

variable {ρ σ ρ' σ' : Type}

/-- Whether a loop may start with a statement. -/
def isStart : StmtNode ρ σ → Bool
  | vars _ | expr _ | empty => true
  | _ => false

/-- A form that can be read, where the statements below it are as told. -/
def Valid (isStart isClosed : σ → Prop) : StmtNode ρ σ → Prop
  | vars decl => decl.Named
  | ifElse _ onTrue (some _) => isClosed onTrue
  | forLoop start _ _ _ => isStart start
  | _ => True

theorem valid_map {f : ρ → ρ'} {g : σ → σ'} {isStart isClosed : σ' → Prop} {s : StmtNode ρ σ} :
    (s.map f g).Valid isStart isClosed ↔
      s.Valid (fun t => isStart (g t)) fun t => isClosed (g t) := by
  cases s with
  | vars decl => exact VarDecl.named_map
  | ifElse cond onTrue onFalse => cases onFalse <;> rfl
  | _ => rfl

theorem Valid.imp {isStart isClosed isStart' isClosed' : σ → Prop} {s : StmtNode ρ σ}
    (h : s.Valid isStart isClosed) (hstart : ∀ t ∈ s.childStmts, isStart t → isStart' t)
    (hclosed : ∀ t ∈ s.childStmts, isClosed t → isClosed' t) : s.Valid isStart' isClosed' := by
  cases s with
  | ifElse cond onTrue onFalse =>
      cases onFalse with
      | none => trivial
      | some onFalse => exact hclosed onTrue List.mem_cons_self h
  | forLoop start cond step body => exact hstart start List.mem_cons_self h
  | _ => exact h

@[simp] theorem isStart_map (f : ρ → ρ') (g : σ → σ') (s : StmtNode ρ σ) :
    (s.map f g).isStart = s.isStart := by
  cases s <;> rfl

/-- Whether an `else` after a form would be read as part of it, if this is told for its parts. -/
def isOpenWith (isOpen : σ → Bool) : StmtNode ρ σ → Bool
  | ifElse _ _ none => true
  | ifElse _ _ (some onFalse) => isOpen onFalse
  | forLoop _ _ _ body | whileLoop _ body => isOpen body
  | _ => false

theorem isOpenWith_map {isOpen : σ' → Bool} (f : ρ → ρ') (g : σ → σ') (s : StmtNode ρ σ) :
    (s.map f g).isOpenWith isOpen = s.isOpenWith fun t => isOpen (g t) := by
  cases s with
  | ifElse cond onTrue onFalse => cases onFalse <;> rfl
  | _ => rfl

theorem isOpenWith_congr {isOpen isOpen' : σ → Bool} {s : StmtNode ρ σ}
    (h : ∀ t ∈ s.childStmts, isOpen t = isOpen' t) : s.isOpenWith isOpen = s.isOpenWith isOpen' := by
  cases s with
  | ifElse cond onTrue onFalse =>
      cases onFalse with
      | none => rfl
      | some onFalse => exact h onFalse (List.mem_cons_of_mem _ List.mem_cons_self)
  | forLoop start cond step body => exact h body (List.mem_cons_of_mem _ List.mem_cons_self)
  | whileLoop cond body => exact h body List.mem_cons_self
  | _ => rfl

end StmtNode

namespace Stmt

variable {ε σ : Type}

/-- Whether an `else` after a statement would be read as part of it. -/
def isOpen : Stmt ε σ → Bool
  | node _ (.ifElse _ _ none) => true
  | node _ (.ifElse _ _ (some onFalse)) => onFalse.isOpen
  | node _ (.forLoop _ _ _ body) => body.isOpen
  | node _ (.whileLoop _ body) => body.isOpen
  | _ => false

theorem isOpen_node (tag : σ) (form : StmtNode (Expr ε) (Stmt ε σ)) :
    (node tag form).isOpen = form.isOpenWith isOpen := by
  cases form with
  | ifElse cond onTrue onFalse => cases onFalse <;> rfl
  | _ => rfl

/-- One node that can be read, with its expressions as told. -/
def NodeValid (exprs : Expr ε → Prop) (form : StmtNode (Expr ε) (Stmt ε σ)) : Prop :=
  form.Valid (fun s => s.form.isStart = true) (fun s => s.isOpen = false) ∧
    ∀ e ∈ form.childExprs, exprs e

/-- A statement that can be read, with its expressions as told. -/
def Valid (exprs : Expr ε → Prop) (s : Stmt ε σ) : Prop :=
  ∀ t ∈ s.substmts, NodeValid exprs t.form

theorem valid_node {exprs : Expr ε → Prop} {tag : σ} {form : StmtNode (Expr ε) (Stmt ε σ)} :
    Valid exprs (node tag form) ↔
      NodeValid exprs form ∧ ∀ t ∈ form.childStmts, Valid exprs t := by
  simp only [Valid, substmts_node, List.mem_cons, List.mem_flatMap, forall_eq_or_imp,
    forall_exists_index, and_imp]
  exact and_congr_right fun _ => forall_comm.trans (forall_congr' fun _ => ⟨fun h ht d => h d ht,
    fun h d ht => h ht d⟩)

theorem Valid.form {exprs : Expr ε → Prop} {s : Stmt ε σ} (h : s.Valid exprs) :
    NodeValid exprs s.form :=
  h s s.mem_substmts_self

theorem valid_iff_form {exprs : Expr ε → Prop} {s : Stmt ε σ} :
    s.Valid exprs ↔ NodeValid exprs s.form ∧ ∀ t ∈ s.form.childStmts, t.Valid exprs := by
  obtain ⟨tag, form⟩ := s
  exact valid_node

/-! What can be read stays so where the forms of all statements stay, with other expressions. -/

section

variable {ε' σ' : Type} {f : Expr ε → Expr ε'} {g : Stmt ε σ → Stmt ε' σ'}
  (hform : ∀ s, (g s).form = s.form.map f g)
include hform

theorem isBlock_of_form (s : Stmt ε σ) : (g s).isBlock = s.isBlock := by
  have h := hform s
  obtain ⟨tag, form⟩ := s
  generalize g (node tag form) = t at h
  obtain ⟨tag', form'⟩ := t
  obtain rfl : form' = form.map f g := h
  cases form <;> rfl

theorem isOpen_of_form (s : Stmt ε σ) : (g s).isOpen = s.isOpen := by
  induction s with
  | node tag form ih =>
      have h := hform (node tag form)
      generalize g (node tag form) = t at h
      obtain ⟨tag', form'⟩ := t
      obtain rfl : form' = form.map f g := h
      rw [isOpen_node, isOpen_node, StmtNode.isOpenWith_map]
      exact StmtNode.isOpenWith_congr ih

theorem valid_of_form {exprs : Expr ε → Prop} {exprs' : Expr ε' → Prop}
    (hexprs : ∀ e, exprs' (f e) ↔ exprs e) (s : Stmt ε σ) : (g s).Valid exprs' ↔ s.Valid exprs := by
  induction s with
  | node tag form ih =>
      rw [valid_iff_form, hform, valid_node, NodeValid, NodeValid, StmtNode.valid_map,
        StmtNode.childExprs_map, StmtNode.childStmts_map]
      simp only [hform, StmtNode.isStart_map, isOpen_of_form hform, List.forall_mem_map, hexprs]
      exact and_congr_right fun _ => forall₂_congr ih

end

theorem valid_erase {literals : Literal → Prop} {s : Stmt ε σ} :
    s.erase.Valid (Expr.Valid literals) ↔ s.Valid (Expr.Valid literals) :=
  valid_of_form form_erase (fun _ => Expr.valid_erase) s

theorem valid_bare {literals : Literal → Prop} {s : Stmt ε σ} :
    s.bare.Valid (Expr.Valid literals) ↔ s.Valid (Expr.Valid literals) :=
  valid_of_form (form_mapExprs Expr.bare) (fun _ => Expr.valid_bare) s

end Stmt

/-! ## Programs -/

/-- A field that can be read. -/
structure FieldDecl.Valid (field : FieldDecl) : Prop where
  type : field.type.Valid
  name : IsName field.name
  arraySize : IsArraySize field.arraySize

/-- A structure that can be read. -/
structure StructDecl.Valid (s : StructDecl) : Prop where
  name : IsName s.name
  fields : ∀ field ∈ s.fields, field.Valid

/-- A parameter that can be read. -/
structure Param.Valid (p : Param) : Prop where
  type : p.type.Valid
  name : ∀ name ∈ p.name, IsName name
  arraySize : IsArraySize p.arraySize
  unnamed : p.name = none → p.arraySize = none

/-- A function whose names and parameters can be read. -/
structure FunctionDecl.Named {σ : Type} (f : FunctionDecl σ) : Prop where
  returnType : f.returnType.Valid
  name : IsName f.name
  params : ∀ p ∈ f.params, p.Valid
  notVoid : Parser.withoutVoid f.params = f.params

/-- A declaration that can be read, where the body of a function is as told. -/
def Decl.Valid {ρ σ : Type} (isBlock : σ → Prop) : Decl ρ σ → Prop
  | directive text => IsToken .directive text.toList
  | precision _ typeName => IsName typeName
  | struct decl => decl.Valid
  | function decl => decl.Named ∧ ∀ body ∈ decl.body, isBlock body
  | vars decl => decl.Named

theorem Decl.valid_map {ρ σ ρ' σ' : Type} {f : ρ → ρ'} {g : σ → σ'} {isBlock : σ' → Prop}
    {d : Decl ρ σ} : (d.map f g).Valid isBlock ↔ d.Valid fun t => isBlock (g t) := by
  cases d with
  | function decl =>
      refine and_congr ⟨fun h => ⟨h.1, h.2, h.3, h.4⟩, fun h => ⟨h.1, h.2, h.3, h.4⟩⟩ ?_
      simp
  | vars decl => exact VarDecl.named_map
  | _ => rfl

theorem Decl.Valid.imp {ρ σ : Type} {isBlock isBlock' : σ → Prop} {d : Decl ρ σ}
    (h : d.Valid isBlock) (hblock : ∀ t ∈ d.bodies, isBlock t → isBlock' t) : d.Valid isBlock' := by
  cases d with
  | function decl =>
      exact ⟨h.1, fun body hbody => hblock body (Option.mem_toList.mpr hbody) (h.2 body hbody)⟩
  | _ => exact h

/-- A declaration that can be read, with its expressions as told. -/
structure DeclTree.Valid {ε σ : Type} (exprs : Expr ε → Prop) (d : DeclTree ε σ) : Prop where
  form : Decl.Valid (fun s : Stmt ε σ => s.isBlock = true) d
  bodies : ∀ s ∈ Decl.bodies d, s.Valid exprs
  inits : ∀ e ∈ Decl.inits d, exprs e

theorem DeclTree.valid_map {ε σ ε' σ' : Type} {exprs : Expr ε → Prop} {exprs' : Expr ε' → Prop}
    {f : Expr ε → Expr ε'} {g : Stmt ε σ → Stmt ε' σ'} (hform : ∀ s, (g s).form = s.form.map f g)
    (hexprs : ∀ e, exprs' (f e) ↔ exprs e) {d : DeclTree ε σ} :
    DeclTree.Valid exprs' (Decl.map f g d) ↔ DeclTree.Valid exprs d := by
  have hblock : Decl.Valid (fun s : Stmt ε' σ' => s.isBlock = true) (Decl.map f g d) ↔
      Decl.Valid (fun s : Stmt ε σ => s.isBlock = true) d := by
    rw [Decl.valid_map]
    simp only [Stmt.isBlock_of_form hform]
  have hbodies : (∀ s ∈ Decl.bodies (Decl.map f g d), s.Valid exprs') ↔
      ∀ s ∈ Decl.bodies d, s.Valid exprs := by
    rw [Decl.bodies_map]
    simp only [List.forall_mem_map, Stmt.valid_of_form hform hexprs]
  have hinits : (∀ e ∈ Decl.inits (Decl.map f g d), exprs' e) ↔ ∀ e ∈ Decl.inits d, exprs e := by
    rw [Decl.inits_map]
    simp only [List.forall_mem_map, hexprs]
  exact ⟨fun h => ⟨hblock.mp h.form, hbodies.mp h.bodies, hinits.mp h.inits⟩,
    fun h => ⟨hblock.mpr h.form, hbodies.mpr h.bodies, hinits.mpr h.inits⟩⟩

theorem DeclTree.valid_erase {ε σ : Type} {literals : Literal → Prop} {d : DeclTree ε σ} :
    DeclTree.Valid (Expr.Valid literals) (DeclTree.erase d) ↔
      DeclTree.Valid (Expr.Valid literals) d :=
  DeclTree.valid_map Stmt.form_erase fun _ => Expr.valid_erase

theorem DeclTree.valid_bare {ε σ : Type} {literals : Literal → Prop} {d : DeclTree ε σ} :
    DeclTree.Valid (Expr.Valid literals) (DeclTree.bare d) ↔
      DeclTree.Valid (Expr.Valid literals) d := by
  rw [DeclTree.bare_eq_map]
  exact DeclTree.valid_map (Stmt.form_mapExprs Expr.bare) fun _ => Expr.valid_bare

/-- A version whose number has 32 bits. -/
def Version.Valid (v : Version) : Prop :=
  v.number < 2 ^ 32

/-- A program that can be read, with its expressions as told. -/
structure Program.Valid (exprs : Expr Unit → Prop) (p : Program) : Prop where
  version : ∀ v ∈ p.version, v.Valid
  decls : ∀ d ∈ p.decls, DeclTree.Valid exprs d

/-- A program can be read if it agrees with one that can. -/
theorem Program.Valid.of_bare_eq {literals : Literal → Prop} {p q : Program}
    (h : q.Valid (Expr.Valid literals)) (hbare : q.bare = p.bare) :
    p.Valid (Expr.Valid literals) := by
  obtain ⟨hdialect, hdecls⟩ := Prod.mk.inj hbare
  refine ⟨fun v hv => ?_, fun d hd => ?_⟩
  · have hp : p.dialect = v := by
      rw [dialect, hv]
      rfl
    rw [← hp, ← hdialect, dialect]
    cases hq : q.version with
    | none => exact (by decide : 110 < 2 ^ 32)
    | some v' => exact h.version v' hq
  · have hd' : DeclTree.bare d ∈ q.decls.map DeclTree.bare := hdecls ▸ List.mem_map_of_mem hd
    obtain ⟨d', hd', heq⟩ := List.mem_map.mp hd'
    rw [← DeclTree.valid_bare, ← heq, DeclTree.valid_bare]
    exact h.decls d' hd'

end ShaderReducer
