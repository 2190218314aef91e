import ShaderReducer.Analysis.Uses
import ShaderReducer.Proofs.Shader.Structs
import ShaderReducer.Proofs.Typing.Infer

/-!
# Types that occur

The types of expressions come from declarations, from the names of types and from each other. A class
of types that contains those of the language, and that no operation on values leads out of, contains
the types of all expressions if it contains those that are declared.

The first such class is that of the types whose numbers are in range: vectors and matrices have two
to four rows and columns.
-/

namespace ShaderReducer

namespace Ty

/-- Whether the numbers in a type are in range. -/
def Sized : Ty → Prop
  | vector _ width => 2 ≤ width ∧ width ≤ 4
  | matrix columns rows => (2 ≤ columns ∧ columns ≤ 4) ∧ 2 ≤ rows ∧ rows ≤ 4
  | array element _ => element.Sized
  | void | scalar _ | struct _ => True

/-- Whether a type is one of the language, and no array. -/
def IsBasic : Ty → Prop
  | struct _ | array _ _ => False
  | void | scalar _ | vector _ _ | matrix _ _ => True

theorem dimension?_eq_some {c : Char} {n : Nat} (h : dimension? c = some n) : 2 ≤ n ∧ n ≤ 4 := by
  unfold dimension? at h
  split at h
  all_goals first | cases h; omega | cases h

/-- The types that the language names. -/
theorem of_ofName? {name : String} {type : Ty} (h : ofName? name = some type) :
    type.Sized ∧ type.IsBasic := by
  obtain rfl | ⟨kind, rfl⟩ | ⟨kind, width, rfl, c, hwidth, -⟩ |
    ⟨columns, rows, rfl, ⟨c, hcolumns⟩, r, hrows⟩ := ofName?_cases h
  · exact ⟨trivial, trivial⟩
  · exact ⟨trivial, trivial⟩
  · exact ⟨dimension?_eq_some hwidth, trivial⟩
  · exact ⟨⟨dimension?_eq_some hcolumns, dimension?_eq_some hrows⟩, trivial⟩

/-- A vector type is the one that its text names. -/
theorem ofName?_text {kind : ScalarKind} {width : Nat} (h : (vector kind width).Sized) :
    ofName? (vector kind width).text = some (vector kind width) := by
  obtain ⟨hlow, hhigh⟩ := h
  have hcases : width = 2 ∨ width = 3 ∨ width = 4 := by omega
  rcases hcases with rfl | rfl | rfl <;> cases kind <;> rfl

theorem ofList_dimension? {c : Char} {n : Nat} (h : dimension? c = some n) :
    String.ofList [c] = toString n := by
  unfold dimension? at h
  split at h
  all_goals first | cases h; rfl | cases h

/-- A vector type has one name. -/
theorem eq_text_of_ofName? {name : String} {kind : ScalarKind} {width : Nat}
    (h : ofName? name = some (vector kind width)) : name = (vector kind width).text := by
  obtain heq | ⟨_, heq⟩ | ⟨_, _, heq, c, hwidth, hname⟩ | ⟨_, _, heq, -⟩ := ofName?_cases h <;>
    cases heq
  rw [text, ← ofList_dimension? hwidth, hname]

/-- A class of types that contains those of the language and the elements of its arrays. -/
structure Closed (P : Ty → Prop) : Prop where
  sized : ∀ type, P type → type.Sized
  basic : ∀ type : Ty, type.Sized → type.IsBasic → P type
  element : ∀ type size, P (.array type size) → P type

variable {P : Ty → Prop} {type l r : Ty}

theorem Closed.sizedTypes : Closed Sized :=
  ⟨fun _ h => h, fun _ h _ => h, fun _ _ h => h⟩

theorem Closed.linearProduct? (h : Closed P) (hl : P l) (hr : P r)
    (heq : l.linearProduct? r = some type) : P type := by
  have hl' := h.sized l hl
  have hr' := h.sized r hr
  unfold Ty.linearProduct? at heq
  split at heq
  all_goals first
    | cases heq
    | split at heq
      next => cases heq; exact h.basic _ (by simp only [Sized] at *; omega) trivial
      next => cases heq

theorem Closed.spread? (hl : P l) (hr : P r) (heq : l.spread? r = some type) : P type := by
  unfold Ty.spread? at heq
  split at heq
  all_goals first
    | cases heq
    | split at heq
      next => cases heq; assumption
      next => cases heq

theorem Closed.componentwise? (hl : P l) (hr : P r) (heq : l.componentwise? r = some type) :
    P type := by
  rw [Ty.componentwise?] at heq
  split at heq
  next => cases heq; exact hl
  next => exact Closed.spread? hl hr heq

theorem Closed.withComponent? (h : Closed P) {kind : ScalarKind} (hl : P l)
    (heq : l.withComponent? kind = some type) : P type := by
  have hl' := h.sized l hl
  unfold Ty.withComponent? at heq
  split at heq
  next => cases heq; exact h.basic _ trivial trivial
  next => cases heq; exact h.basic _ hl' trivial
  next => cases heq

theorem Closed.swizzle? (h : Closed P) {kind : ScalarKind} {width : Nat} {letters : List Char}
    (heq : Ty.swizzle? kind width letters = some type) : P type := by
  rw [Ty.swizzle?] at heq
  split at heq
  next => cases heq
  next hlength =>
    simp only [Bool.or_eq_true, List.isEmpty_iff, decide_eq_true_eq, not_or] at hlength
    have hpos := List.length_pos_iff.mpr hlength.1
    split at heq
    next => cases heq
    next =>
      split at heq
      next =>
        cases heq
        split
        next => exact h.basic _ trivial trivial
        next => exact h.basic _ ⟨by omega, by omega⟩ trivial
      next => cases heq

end Ty

namespace Builtin

variable {P : Ty → Prop} {type : Ty}

/-- What one of two alternatives gives is in a class if what either gives is. -/
theorem admits_ite {c : Prop} [Decidable c] {a b : Option Ty} (ha : ∀ type, a = some type → P type)
    (hb : ∀ type, b = some type → P type) (type : Ty) (h : (if c then a else b) = some type) :
    P type := by
  split at h
  next => exact ha type h
  next => exact hb type h

theorem admits_basic (h : Ty.Closed P) (type : Ty) (hsized : type.Sized) (hbasic : type.IsBasic)
    (type' : Ty) (heq : some type = some type') : P type' :=
  Option.some.inj heq ▸ h.basic type hsized hbasic

theorem admits_none (type : Ty) (heq : none = some type) : P type := by
  cases heq

theorem admits_variableType? (h : Ty.Closed P) {name : String}
    (heq : variableType? name = some type) : P type := by
  rw [variableType?] at heq
  refine admits_ite (admits_basic h (.vector .float 4) ⟨by omega, by omega⟩ trivial) ?_ type heq
  refine admits_ite (admits_basic h (.vector .float 2) ⟨by omega, by omega⟩ trivial) ?_
  refine admits_ite (admits_basic h (.scalar .bool) trivial trivial) ?_
  refine admits_ite (admits_basic h (.scalar .float) trivial trivial) ?_
  exact admits_ite (admits_basic h (.scalar .int) trivial trivial) admits_none

theorem admits_call? (h : Ty.Closed P) {name : String} {args : List (Option Ty)}
    (hargs : ∀ arg, some arg ∈ args → P arg) (heq : call? name args = some type) : P type := by
  have hfirst : ∀ arg, args.head?.join = some arg → P arg := by
    intro arg harg
    exact hargs arg (List.mem_of_head? (Option.join_eq_some_iff.mp harg))
  have hlast : ∀ arg, args.getLast?.join = some arg → P arg := by
    intro arg harg
    exact hargs arg (List.mem_of_getLast? (Option.join_eq_some_iff.mp harg))
  have hbind : ∀ kind type, args.head?.join.bind (Ty.withComponent? kind) = some type → P type := by
    intro kind type hk
    obtain ⟨arg, harg, hk⟩ := Option.bind_eq_some_iff.mp hk
    exact h.withComponent? (hfirst arg harg) hk
  rw [call?] at heq
  refine admits_ite hfirst (admits_ite hlast ?_) type heq
  refine admits_ite (admits_basic h (.scalar .float) trivial trivial) ?_
  refine admits_ite (admits_basic h (.vector .float 3) ⟨by omega, by omega⟩ trivial) ?_
  refine admits_ite (admits_basic h (.scalar .bool) trivial trivial) ?_
  refine admits_ite (hbind .bool) (admits_ite (hbind .int) (admits_ite (hbind .uint) ?_))
  refine admits_ite (hbind .float) ?_
  exact admits_ite (admits_basic h (.vector .float 4) ⟨by omega, by omega⟩ trivial) admits_none

end Builtin

/-- The types that are noted with something are in a class. -/
def AllTyped (P : Ty → Prop) {α : Type} (l : List (α × Option Ty)) : Prop :=
  ∀ entry ∈ l, ∀ type, entry.2 = some type → P type

section AllTyped

variable {P : Ty → Prop} {α : Type} {l l' : List (α × Option Ty)}

theorem AllTyped.nil : AllTyped P ([] : List (α × Option Ty)) := by
  simp [AllTyped]

theorem AllTyped.cons {a : α} {type? : Option Ty} (h : ∀ type, type? = some type → P type)
    (hl : AllTyped P l) : AllTyped P ((a, type?) :: l) := by
  intro entry hentry
  rcases List.mem_cons.mp hentry with rfl | hentry
  · exact h
  · exact hl entry hentry

theorem AllTyped.append (h : AllTyped P l) (h' : AllTyped P l') : AllTyped P (l ++ l') := by
  intro entry hentry
  rcases List.mem_append.mp hentry with hentry | hentry
  · exact h entry hentry
  · exact h' entry hentry

end AllTyped

namespace Signatures

variable {sig : Signatures} {P : Ty → Prop} {scope : TypeScope}

/-- What the name of a type stands for is in a class. -/
def Names (sig : Signatures) (P : Ty → Prop) (name : String) : Prop :=
  ∀ size type, sig.resolve (.ofName name) size = some type → P type

/-- The fields of structures in a class, and what functions return, are in the class too. -/
structure Admits (sig : Signatures) (P : Ty → Prop) : Prop where
  closed : Ty.Closed P
  field : ∀ name field type, P (.struct name) → sig.fieldType name field = some type → P type
  returned : ∀ f ∈ sig.functions, sig.Names P f.returnType.name

/-- The structures that an expression constructs are in a class. -/
def Constructs (sig : Signatures) (P : Ty → Prop) {ε : Type} (e : Expr ε) : Prop :=
  ∀ sub ∈ e.subexprs, ∀ callee args, sub.form = .call callee args → Ty.ofName? callee = none →
    sig.hasStruct callee = true → P (.struct callee)

theorem Constructs.of_mem_subexprs {ε : Type} {e sub : Expr ε} (h : sig.Constructs P e)
    (hsub : sub ∈ e.subexprs) : sig.Constructs P sub :=
  fun sub' hsub' => h sub' (Expr.mem_subexprs_trans hsub hsub')

theorem typesOf_eq_map {ε : Type} (sig : Signatures) (scope : TypeScope) (l : List (Expr ε)) :
    sig.typesOf scope l = l.map (sig.typeOf scope) := by
  induction l with
  | nil => rfl
  | cons e rest ih => rw [typesOf, ih, List.map_cons]

theorem Admits.binaryType (h : sig.Admits P) {op : BinaryOp} {l r : Option Ty} {type : Ty}
    (hl : ∀ t, l = some t → P t) (hr : ∀ t, r = some t → P t)
    (heq : Signatures.binaryType op l r = some type) : P type := by
  rw [Signatures.binaryType] at heq
  split at heq
  next => exact hr type heq
  split at heq
  next => exact hl type heq
  split at heq
  next => cases heq; exact h.closed.basic _ trivial trivial
  split at heq
  next => exact hl type heq
  obtain ⟨lt, hlt, heq⟩ := Option.bind_eq_some_iff.mp heq
  obtain ⟨rt, hrt, heq⟩ := Option.bind_eq_some_iff.mp heq
  split at heq
  next =>
    rcases Option.or_eq_some_iff.mp heq with heq | ⟨-, heq⟩
    · exact h.closed.linearProduct? (hl lt hlt) (hr rt hrt) heq
    · exact Ty.Closed.componentwise? (hl lt hlt) (hr rt hrt) heq
  next => exact Ty.Closed.componentwise? (hl lt hlt) (hr rt hrt) heq

theorem Admits.memberType (h : sig.Admits P) {base type : Ty} {field : String} (hbase : P base)
    (heq : sig.memberType base field = some type) : P type := by
  unfold Signatures.memberType at heq
  split at heq
  next => exact h.field _ _ _ hbase heq
  next => exact h.closed.swizzle? heq
  next => cases heq

theorem Admits.elementType (h : sig.Admits P) {base type : Ty} (hbase : P base)
    (heq : Signatures.elementType base = some type) : P type := by
  have hsized := h.closed.sized base hbase
  unfold Signatures.elementType at heq
  split at heq
  next => cases heq; exact h.closed.element _ _ hbase
  next => cases heq; exact h.closed.basic _ trivial trivial
  next => cases heq; exact h.closed.basic _ hsized.2 trivial
  next => cases heq

theorem Admits.callType (h : sig.Admits P) {callee : String} {args : List (Option Ty)} {type : Ty}
    (hcallee : Ty.ofName? callee = none → sig.hasStruct callee = true → P (.struct callee))
    (hargs : ∀ arg, some arg ∈ args → P arg) (heq : sig.callType callee args = some type) :
    P type := by
  rw [Signatures.callType] at heq
  split at heq
  next hname =>
    cases heq
    exact h.closed.basic _ (Ty.of_ofName? hname).1 (Ty.of_ofName? hname).2
  next hname =>
    split at heq
    next hstruct => cases heq; exact hcallee hname hstruct
    next =>
      dsimp only at heq
      split at heq
      next => exact Builtin.admits_call? h.closed hargs heq
      next =>
        obtain ⟨f, hf, heq⟩ := Option.bind_eq_some_iff.mp heq
        have hmem := (List.mem_filter.mp (List.mem_of_find?_eq_some hf)).1
        exact h.returned f hmem none type heq

/-- The type of an expression is in a class if those of the names in scope are. -/
theorem Admits.typeOf (h : sig.Admits P) (hscope : AllTyped P scope) {ε : Type} {e : Expr ε}
    (hcalls : sig.Constructs P e) {type : Ty} (heq : sig.typeOf scope e = some type) : P type := by
  induction e generalizing type with
  | node tag form ih =>
      have hparts : ∀ c ∈ form.children, ∀ t, sig.typeOf scope c = some t → P t := by
        intro c hc t ht
        refine ih c hc (hcalls.of_mem_subexprs ?_) ht
        rw [Expr.subexprs_node]
        exact List.mem_cons_of_mem _ (List.mem_flatMap.mpr ⟨c, hc, Expr.mem_subexprs_self c⟩)
      cases form with
      | literal value =>
          cases heq
          cases value <;> exact h.closed.basic _ trivial trivial
      | ident name =>
          rw [Signatures.typeOf, nameType] at heq
          split at heq
          next type? hlookup =>
            obtain ⟨before, after, hsplit, -⟩ := List.lookup_eq_some_iff.mp hlookup
            exact hscope (name, type?) (by simp [hsplit]) type heq
          next => exact Builtin.admits_variableType? h.closed heq
      | paren inner => exact hparts inner (by simp [ExprNode.children]) type heq
      | unary op operand =>
          have hoperand := hparts operand (by simp [ExprNode.children])
          rw [Signatures.typeOf] at heq
          split at heq
          next t ht =>
            split at heq
            next => cases heq
            next => cases heq; exact hoperand _ ht
          next => cases heq
      | binary op lhs rhs =>
          exact h.binaryType (hparts lhs (by simp [ExprNode.children]))
            (hparts rhs (by simp [ExprNode.children])) heq
      | ternary cond onTrue onFalse =>
          have honTrue := hparts onTrue (by simp [ExprNode.children])
          rw [Signatures.typeOf] at heq
          split at heq
          next t t' ht ht' =>
            split at heq
            next => cases heq; exact honTrue _ ht
            next => cases heq
          next => cases heq
      | call callee args =>
          refine h.callType (hcalls _ (Expr.mem_subexprs_self _) callee args rfl) ?_ heq
          intro arg harg
          rw [typesOf_eq_map] at harg
          obtain ⟨e, he, harg⟩ := List.mem_map.mp harg
          exact hparts e he arg harg
      | member base field =>
          obtain ⟨t, ht, heq⟩ := Option.bind_eq_some_iff.mp heq
          exact h.memberType (hparts base (by simp [ExprNode.children]) t ht) heq
      | index base offset =>
          obtain ⟨t, ht, heq⟩ := Option.bind_eq_some_iff.mp heq
          exact h.elementType (hparts base (by simp [ExprNode.children]) t ht) heq

theorem Admits.exprEntries (h : sig.Admits P) (hscope : AllTyped P scope) {e : Expr ExprId}
    (hcalls : sig.Constructs P e) : AllTyped P (sig.exprEntries scope e) := by
  intro entry hentry type htype
  obtain ⟨sub, hsub, rfl⟩ := List.mem_map.mp hentry
  exact h.typeOf hscope (hcalls.of_mem_subexprs hsub) htype

theorem Admits.exprsEntries (h : sig.Admits P) (hscope : AllTyped P scope)
    (es : List (Expr ExprId)) (hcalls : ∀ e ∈ es, sig.Constructs P e) :
    AllTyped P (es.flatMap (sig.exprEntries scope)) := by
  intro entry hentry
  obtain ⟨e, he, hentry⟩ := List.mem_flatMap.mp hentry
  exact h.exprEntries hscope (hcalls e he) entry hentry

theorem allTyped_declare {ε : Type} {decl : VarDecl ε} (hdecl : sig.Names P decl.type.name)
    (hscope : AllTyped P scope) : AllTyped P (sig.declare scope decl) := by
  rw [declare]
  generalize decl.declarators = ds
  induction ds generalizing scope with
  | nil => exact hscope
  | cons d ds ih => exact ih (.cons (hdecl d.arraySize) hscope)

/-- The types that the declarations in a statement name, and the structures that it constructs, are
in a class. -/
structure StmtAdmitted (sig : Signatures) (P : Ty → Prop) (t : Stmt ExprId StmtId) : Prop where
  names : ∀ sub ∈ t.substmts, ∀ name, NameUses.localTypeName? sub = some name → sig.Names P name
  constructs : ∀ sub ∈ t.substmts, ∀ e ∈ sub.form.childExprs, sig.Constructs P e

theorem StmtAdmitted.of_mem_childStmts {tag : StmtId}
    {form : StmtNode (Expr ExprId) (Stmt ExprId StmtId)} (h : sig.StmtAdmitted P (.node tag form))
    {t : Stmt ExprId StmtId} (ht : t ∈ form.childStmts) : sig.StmtAdmitted P t := by
  have hsub : ∀ sub ∈ t.substmts, sub ∈ (Stmt.node tag form).substmts := by
    intro sub hsub
    rw [Stmt.substmts_node]
    exact List.mem_cons_of_mem _ (List.mem_flatMap.mpr ⟨t, ht, hsub⟩)
  exact ⟨fun sub h' => h.names sub (hsub sub h'), fun sub h' => h.constructs sub (hsub sub h')⟩

/-- What a statement notes is in a class, and so is the scope that it leaves. -/
def Leaves (P : Ty → Prop) (left : List Entry × TypeScope) : Prop :=
  AllTyped P left.1 ∧ AllTyped P left.2

theorem leaves_stmts {ts : List (Stmt ExprId StmtId)}
    (h : ∀ t ∈ ts, ∀ scope, AllTyped P scope → Leaves P (sig.stmtEntries scope t))
    (hscope : AllTyped P scope) : Leaves P (sig.stmtsEntries scope ts) := by
  induction ts generalizing scope with
  | nil => exact ⟨.nil, hscope⟩
  | cons t ts ih =>
      obtain ⟨hentries, hafter⟩ := h t List.mem_cons_self scope hscope
      obtain ⟨hrest, hend⟩ := ih (fun t' ht' => h t' (List.mem_cons_of_mem t ht')) hafter
      exact ⟨hentries.append hrest, hend⟩

theorem Admits.leaves_stmt (h : sig.Admits P) {t : Stmt ExprId StmtId}
    (ht : sig.StmtAdmitted P t) (hscope : AllTyped P scope) :
    Leaves P (sig.stmtEntries scope t) := by
  induction t generalizing scope with
  | node tag form ih =>
      have hpart : ∀ t ∈ form.childStmts, ∀ scope, AllTyped P scope →
          Leaves P (sig.stmtEntries scope t) :=
        fun t ht' scope hscope => ih t ht' (ht.of_mem_childStmts ht') hscope
      have hself : Stmt.node tag form ∈ (Stmt.node tag form).substmts := by
        rw [Stmt.substmts_node]
        exact List.mem_cons_self
      have hexprs : ∀ e ∈ form.childExprs, ∀ scope, AllTyped P scope →
          AllTyped P (sig.exprEntries scope e) :=
        fun e he scope hscope => h.exprEntries hscope (ht.constructs _ hself e he)
      cases form with
      | block body => exact ⟨(leaves_stmts hpart hscope).1, hscope⟩
      | vars decl =>
          exact ⟨h.exprsEntries hscope _ (ht.constructs _ hself),
            allTyped_declare (ht.names _ hself _ rfl) hscope⟩
      | expr value => exact ⟨hexprs value (by simp [StmtNode.childExprs]) scope hscope, hscope⟩
      | ifElse cond onTrue onFalse =>
          have hcond := hexprs cond (by simp [StmtNode.childExprs]) scope hscope
          obtain ⟨htrue, hafter⟩ := hpart onTrue (by simp [StmtNode.childStmts]) scope hscope
          cases onFalse with
          | none => exact ⟨hcond.append htrue, hafter⟩
          | some onFalse =>
              obtain ⟨hfalse, hend⟩ := hpart onFalse (by simp [StmtNode.childStmts]) _ hafter
              exact ⟨hcond.append (htrue.append hfalse), hend⟩
      | forLoop start cond step body =>
          obtain ⟨hstart, hafter⟩ := hpart start (by simp [StmtNode.childStmts]) scope hscope
          obtain ⟨hbody, -⟩ := hpart body (by simp [StmtNode.childStmts]) _ hafter
          have hcond := h.exprsEntries hafter cond.toList fun e he =>
            ht.constructs _ hself e (List.mem_append_left _ he)
          have hstep := h.exprsEntries hafter step.toList fun e he =>
            ht.constructs _ hself e (List.mem_append_right _ he)
          exact ⟨hstart.append (hcond.append (hstep.append hbody)), hscope⟩
      | whileLoop cond body =>
          have hcond := hexprs cond (by simp [StmtNode.childExprs]) scope hscope
          obtain ⟨hbody, hafter⟩ := hpart body (by simp [StmtNode.childStmts]) scope hscope
          exact ⟨hcond.append hbody, hafter⟩
      | doWhile body cond =>
          obtain ⟨hbody, hafter⟩ := hpart body (by simp [StmtNode.childStmts]) scope hscope
          exact ⟨hbody.append (hexprs cond (by simp [StmtNode.childExprs]) _ hafter), hafter⟩
      | returns value =>
          exact ⟨h.exprsEntries hscope value.toList (ht.constructs _ hself), hscope⟩
      | breaks => exact ⟨.nil, hscope⟩
      | continues => exact ⟨.nil, hscope⟩
      | discards => exact ⟨.nil, hscope⟩
      | empty => exact ⟨.nil, hscope⟩

theorem allTyped_paramScope {ps : List Param} (hps : ∀ p ∈ ps, sig.Names P p.type.name)
    (hscope : AllTyped P scope) : AllTyped P (sig.paramScope scope ps) := by
  rw [paramScope]
  induction ps generalizing scope with
  | nil => exact hscope
  | cons p ps ih =>
      refine ih (fun q hq => hps q (List.mem_cons_of_mem p hq)) ?_
      dsimp only
      split
      next => exact .cons (hps p List.mem_cons_self p.arraySize) hscope
      next => exact hscope

/-- The types that a declaration names, and the structures that it constructs, are in a class. -/
structure DeclAdmitted (sig : Signatures) (P : Ty → Prop) (d : DeclTree ExprId StmtId) : Prop where
  names : ∀ name ∈ NameUses.typeNamesOf d, sig.Names P name
  constructs : ∀ e ∈ d.exprVisits.map Prod.snd, sig.Constructs P e

theorem DeclAdmitted.body {f : FunctionDecl (Stmt ExprId StmtId)}
    (h : sig.DeclAdmitted P (.function f)) {body : Stmt ExprId StmtId} (hbody : f.body = some body) :
    sig.StmtAdmitted P body := by
  have hvisits : (DeclTree.stmtVisits (.function f : DeclTree ExprId StmtId)).map Prod.snd =
      body.substmts := by
    simp [DeclTree.map_snd_stmtVisits, Decl.bodies, hbody]
  refine ⟨fun sub hsub name hname => h.names name ?_, fun sub hsub e he => h.constructs e ?_⟩
  · rw [← hvisits] at hsub
    obtain ⟨v, hv, rfl⟩ := List.mem_map.mp hsub
    exact List.mem_append_right _ (List.mem_filterMap.mpr ⟨v, hv, hname⟩)
  · rw [(DeclTree.map_snd_exprVisits_perm _).mem_iff, hvisits]
    refine List.mem_append_right _ (List.mem_flatMap.mpr ⟨sub, hsub, ?_⟩)
    exact List.mem_flatMap.mpr ⟨e, he, Expr.mem_subexprs_self e⟩

theorem Admits.leaves_decl (h : sig.Admits P) {d : DeclTree ExprId StmtId}
    (hd : sig.DeclAdmitted P d) (hscope : AllTyped P scope) :
    Leaves P (sig.declEntries scope d) := by
  cases d with
  | function f =>
      rw [declEntries]
      split
      next body hbody =>
        have hparams : AllTyped P (sig.paramScope scope f.params) := by
          refine allTyped_paramScope (fun p hp => hd.names _ ?_) hscope
          exact List.mem_append_left _ (List.mem_cons_of_mem _ (List.mem_map_of_mem hp))
        exact ⟨(h.leaves_stmt (hd.body hbody) hparams).1, hscope⟩
      next => exact ⟨.nil, hscope⟩
  | vars decl =>
      refine ⟨h.exprsEntries hscope _ fun e he => hd.constructs e ?_,
        allTyped_declare (hd.names _ List.mem_cons_self) hscope⟩
      rw [(DeclTree.map_snd_exprVisits_perm _).mem_iff]
      refine List.mem_append_left _ (List.mem_flatMap.mpr ⟨e, he, Expr.mem_subexprs_self e⟩)
  | _ => exact ⟨.nil, hscope⟩

theorem Admits.declsEntries (h : sig.Admits P) {ds : List (DeclTree ExprId StmtId)}
    (hds : ∀ d ∈ ds, sig.DeclAdmitted P d) (hscope : AllTyped P scope) :
    AllTyped P (sig.declsEntries scope ds) := by
  induction ds generalizing scope with
  | nil => exact .nil
  | cons d ds ih =>
      obtain ⟨hentries, hafter⟩ := h.leaves_decl (hds d List.mem_cons_self) hscope
      exact hentries.append (ih (fun d' hd' => hds d' (List.mem_cons_of_mem d hd')) hafter)

end Signatures

namespace Types

variable {P : Ty → Prop}

theorem exists_of_foldl_note {entries : List Signatures.Entry} {types : Array (Option Ty)}
    {id : ExprId} {type : Ty} (h : (entries.foldl note types)[id.index]?.join = some type) :
    types[id.index]?.join = some type ∨ ∃ entry ∈ entries, entry.2 = some type := by
  induction entries generalizing types with
  | nil => exact Or.inl h
  | cons entry entries ih =>
      rcases ih h with h | ⟨entry', hentry, htype⟩
      · obtain ⟨id', type?⟩ := entry
        cases type? with
        | none => exact Or.inl h
        | some noted =>
            rw [note, Array.getElem?_setIfInBounds] at h
            split at h
            next =>
              split at h
              next => exact Or.inr ⟨_, List.mem_cons_self, by simpa using h⟩
              next => cases h
            next => exact Or.inl h
      · exact Or.inr ⟨entry', List.mem_cons_of_mem _ hentry, htype⟩

/-- The types of all expressions of a shader are in a class if it contains those that the shader
names and the structures that it constructs. -/
theorem admitted {s : Shader} (hclosed : Ty.Closed P)
    (hnames : ∀ name ∈ s.declTrees.flatMap NameUses.typeNamesOf,
      (Signatures.ofShader s).Names P name)
    (hcalls : ∀ e ∈ s.exprVisits.map Prod.snd, (Signatures.ofShader s).Constructs P e) {id : ExprId}
    {type : Ty} (h : (ofShader s).get? id = some type) : P type := by
  have hadmits : (Signatures.ofShader s).Admits P := by
    refine ⟨hclosed, ?_, ?_⟩
    · intro name field type _ hfield
      obtain ⟨decl, hdecl, hfield⟩ := Option.bind_eq_some_iff.mp hfield
      obtain ⟨member, hmember, hfield⟩ := Option.bind_eq_some_iff.mp hfield
      have hstruct := List.mem_reverse.mp (List.mem_of_find?_eq_some hdecl)
      rw [show (Signatures.ofShader s).structs = s.structDecls from rfl,
        Shader.structDecls_eq] at hstruct
      obtain ⟨d, hd, hstruct⟩ := List.mem_filterMap.mp hstruct
      refine hnames member.type.name ?_ member.arraySize type hfield
      refine List.mem_flatMap.mpr ⟨s.declTree d, List.mem_map_of_mem hd, ?_⟩
      cases hnode : s.decl d with
      | struct decl' =>
          rw [hnode] at hstruct
          cases hstruct
          rw [Shader.declTree, hnode]
          exact List.mem_map_of_mem (List.mem_of_find?_eq_some hmember)
      | _ => rw [hnode] at hstruct; cases hstruct
    · intro f hf
      obtain ⟨⟨d, f⟩, hentry, rfl⟩ := List.mem_map.mp hf
      obtain ⟨d', hd, hfunction⟩ := List.mem_filterMap.mp hentry
      obtain ⟨f', hfunction, heq⟩ := Option.map_eq_some_iff.mp hfunction
      cases heq
      refine hnames _ (List.mem_flatMap.mpr ⟨s.declTree d, List.mem_map_of_mem hd, ?_⟩)
      cases hnode : s.decl d with
      | function f' =>
          rw [hnode] at hfunction
          cases hfunction
          rw [Shader.declTree, hnode]
          exact List.mem_append_left _ List.mem_cons_self
      | _ => rw [hnode] at hfunction; cases hfunction
  have hdecls : ∀ d ∈ s.declTrees, (Signatures.ofShader s).DeclAdmitted P d := by
    intro d hd
    refine ⟨fun name hname => hnames name (List.mem_flatMap.mpr ⟨d, hd, hname⟩), fun e he => ?_⟩
    obtain ⟨v, hv, rfl⟩ := List.mem_map.mp he
    exact hcalls _ (List.mem_map_of_mem (List.mem_flatMap.mpr ⟨d, hd, hv⟩))
  have hempty : AllTyped P ([] : TypeScope) := .nil
  have hentries := hadmits.declsEntries hdecls hempty
  rcases exists_of_foldl_note h with h | ⟨entry, hentry, htype⟩
  · rw [Array.getElem?_replicate] at h
    split at h <;> cases h
  · exact hentries entry hentry type htype

/-- The numbers in the types of expressions are in range. -/
theorem sized {s : Shader} {id : ExprId} {type : Ty} (h : (ofShader s).get? id = some type) :
    type.Sized := by
  refine admitted Ty.Closed.sizedTypes (fun name _ size type hresolve => ?_)
    (fun _ _ _ _ _ _ _ _ _ => trivial) h
  have hbase : ∀ base, ((Ty.ofName? name).or (if (Signatures.ofShader s).hasStruct name then
      some (.struct name) else none)) = some base → base.Sized := by
    intro base hbase
    rcases Option.or_eq_some_iff.mp hbase with hbase | ⟨-, hbase⟩
    · exact (Ty.of_ofName? hbase).1
    · split at hbase <;> cases hbase
      trivial
  cases size with
  | none => exact hbase type hresolve
  | some n =>
      obtain ⟨base, hb, rfl⟩ := Option.map_eq_some_iff.mp hresolve
      exact hbase base hb

end Types

end ShaderReducer
