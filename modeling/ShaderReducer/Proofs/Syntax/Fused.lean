import ShaderReducer.Proofs.Syntax.PrintedProgram

/-!
# Numbers in place of members of digits

A member of decimal digits is printed as what reads as one number. Put in the place of the member,
this number leaves the text as it is. So where the number is well formed, the text is that of a
program without such members, and is read back.
-/

namespace ShaderReducer

/-! ## Expressions -/

namespace Expr

mutual

/-- An expression with numbers in place of its members of digits. -/
def fuse : Expr Unit → Expr Unit
  | node _ (.literal value) => node () (.literal value)
  | node _ (.ident name) => node () (.ident name)
  | node _ (.paren inner) => node () (.paren inner.fuse)
  | node _ (.unary op operand) => node () (.unary op operand.fuse)
  | node _ (.binary op lhs rhs) => node () (.binary op lhs.fuse rhs.fuse)
  | node _ (.ternary cond onTrue onFalse) =>
    node () (.ternary cond.fuse onTrue.fuse onFalse.fuse)
  | node _ (.call callee args) => node () (.call callee (fuseAll args))
  | node _ (.member base field) =>
    match (ExprNode.member base field).gluedText? with
    | some text => node () (.literal (.float (String.ofList text)))
    | none => node () (.member base.fuse field)
  | node _ (.index base offset) => node () (.index base.fuse offset.fuse)

/-- Some expressions with numbers in place of their members of digits. -/
def fuseAll : List (Expr Unit) → List (Expr Unit)
  | [] => []
  | e :: rest => e.fuse :: fuseAll rest

end

theorem fuseAll_eq_map (l : List (Expr Unit)) : fuseAll l = l.map fuse := by
  induction l with
  | nil => rfl
  | cons e rest ih => rw [fuseAll, ih, List.map_cons]

variable {tag : Unit} {form : ExprNode (Expr Unit)}

theorem fuse_node_of_glued {text : List Char} (h : form.gluedText? = some text) :
    (node tag form).fuse = node () (.literal (.float (String.ofList text))) := by
  cases form with
  | member base field => rw [fuse, h]
  | _ => cases h

theorem fuse_node (h : form.gluedText? = none) :
    (node tag form).fuse = node () (form.map fuse) := by
  cases form with
  | member base field => rw [fuse, h]; rfl
  | call callee args => rw [fuse, fuseAll_eq_map]; rfl
  | _ => rfl

/-- A form is a member of digits, with the text of one number, or it is not. -/
theorem exists_of_gluedText?_eq_some {text : List Char} (h : form.gluedText? = some text) :
    ∃ tag digits field, form = .member (node tag (.literal (.int digits))) field ∧
      digits.toList.all Char.isDigit = true ∧ gluedText digits.toList field.toList = text := by
  cases form with
  | member base field =>
      obtain ⟨tag, digits, rfl, hdigits, htext⟩ := exists_of_gluedText? h
      exact ⟨tag, digits, field, rfl, hdigits, htext⟩
  | _ => cases h

theorem startsWithOperator_fuse (e : Expr Unit) :
    e.fuse.startsWithOperator = e.startsWithOperator := by
  obtain ⟨tag, form⟩ := e
  cases hglued : form.gluedText? with
  | some text =>
      rw [fuse_node_of_glued hglued]
      obtain ⟨_, _, _, rfl, -, -⟩ := exists_of_gluedText?_eq_some hglued
      rfl
  | none =>
      rw [fuse_node hglued]
      cases form <;> rfl

/-- An operator in front is no member. -/
theorem gluedText?_of_startsWithOperator {e : Expr Unit} (h : e.startsWithOperator = true) :
    e.form.gluedText? = none := by
  obtain ⟨tag, form⟩ := e
  cases form with
  | unary op operand => rfl
  | _ => cases h

/-- The place of a member asks for no more than an access. -/
def FitsFuse (required : Nat) (e : Expr Unit) : Prop :=
  required ≤ Precedence.access ∨ e.form.gluedText? = none

theorem fitsFuse_operand (op : UnaryOp) (operand : Expr Unit) :
    FitsFuse (operandPrecedence op operand) operand := by
  rw [operandPrecedence]
  cases op.isTrailing with
  | true => exact .inl (Nat.le_refl _)
  | false =>
      cases hop : operand.startsWithOperator with
      | true => exact .inr (gluedText?_of_startsWithOperator hop)
      | false => exact .inl (by decide)

/-- With numbers in place of its members of digits an expression prints as before. -/
theorem print_fuse {required : Nat} {e : Expr Unit} (h : FitsFuse required e) :
    e.fuse.print required = e.print required := by
  induction e generalizing required with
  | node tag form ih =>
      cases hglued : form.gluedText? with
      | some text =>
          have hrequired : required ≤ Precedence.access := h.resolve_right fun hnone => by
            rw [show form.gluedText? = none from hnone] at hglued
            cases hglued
          rw [fuse_node_of_glued hglued]
          obtain ⟨_, digits, field, rfl, -, rfl⟩ := exists_of_gluedText?_eq_some hglued
          have hprimary : ¬ Precedence.primary < required := Nat.not_lt.mpr (hrequired.trans (by decide))
          rw [print, print, print, enclose, enclose, enclose, if_neg hprimary,
            if_neg (Nat.not_lt.mpr hrequired), if_neg (by decide)]
          rw [← String.toList_inj, String.toList_append, String.toList_append, List.append_assoc]
          exact String.toList_ofList
      | none =>
          have hparts : formText (form.map fuse) = formText form := by
            cases form with
            | literal value => rfl
            | ident name => rfl
            | paren inner =>
                rw [ExprNode.map, formText, formText, ih inner List.mem_cons_self (.inl (by decide))]
            | unary op operand =>
                have hplace : operandPrecedence op operand.fuse = operandPrecedence op operand := by
                  rw [operandPrecedence, startsWithOperator_fuse, operandPrecedence]
                rw [ExprNode.map, formText, formText, hplace,
                  ih operand List.mem_cons_self (fitsFuse_operand op operand)]
            | binary op lhs rhs =>
                have hlhs : lhsPrecedence op ≤ Precedence.access := by cases op <;> decide
                have hrhs : rhsPrecedence op ≤ Precedence.access := by cases op <;> decide
                rw [ExprNode.map, formText, formText, ih lhs List.mem_cons_self (.inl hlhs),
                  ih rhs (List.mem_cons_of_mem _ List.mem_cons_self) (.inl hrhs)]
            | ternary cond onTrue onFalse =>
                rw [ExprNode.map, formText, formText,
                  ih cond (by simp [ExprNode.children]) (.inl (by decide)),
                  ih onTrue (by simp [ExprNode.children]) (.inl (by decide)),
                  ih onFalse (by simp [ExprNode.children]) (.inl (by decide))]
            | call callee args =>
                have hargs : args.map (print Precedence.assignment ∘ fuse) =
                    args.map (print Precedence.assignment) :=
                  List.map_congr_left fun e he => ih e he (.inl (by decide))
                rw [ExprNode.map, formText, formText, List.map_map, hargs]
            | member base field =>
                rw [ExprNode.map, formText, formText,
                  ih base List.mem_cons_self (.inl (Nat.le_refl _))]
            | index base offset =>
                rw [ExprNode.map, formText, formText,
                  ih base List.mem_cons_self (.inl (Nat.le_refl _)),
                  ih offset (List.mem_cons_of_mem _ List.mem_cons_self) (.inl (by decide))]
          rw [fuse_node hglued, print_node, print_node, ExprNode.precedence_map, hparts]

/-- Numbers that are well formed can be read. -/
theorem valid_fuse {e : Expr Unit} (h : e.Valid Literal.IsGenuine) (hbroken : ¬ e.Suffers .broken) :
    e.fuse.Valid Literal.IsGenuine := by
  induction e with
  | node tag form ih =>
      obtain ⟨hform, hparts⟩ := valid_node.mp h
      rw [suffers_node, not_or] at hbroken
      cases hglued : form.gluedText? with
      | some text =>
          rw [fuse_node_of_glued hglued]
          obtain ⟨_, digits, field, rfl, hdigits, rfl⟩ := exists_of_gluedText?_eq_some hglued
          have htoken : IsToken .intLiteral digits.toList :=
            (valid_node.mp (hparts _ List.mem_cons_self)).1
          refine valid_node.mpr ⟨?_, List.forall_mem_nil _⟩
          change IsToken .floatLiteral (String.ofList _).toList
          rw [String.toList_ofList]
          refine (isToken_or_isBroken htoken.ne_nil (List.all_eq_true.mp hdigits) hform).resolve_right
            fun hnone => hbroken.1 ?_
          rw [ExprNode.suffers, hglued]
          exact hnone.isMalformed_kindOf
      | none =>
          rw [fuse_node hglued, valid_node, ExprNode.valid_map, ExprNode.children_map,
            List.forall_mem_map]
          exact ⟨hform, fun c hc => ih c hc (hparts c hc) fun hsuffers => hbroken.2 ⟨c, hc, hsuffers⟩⟩

theorem isDecimal_fuse (e : Expr Unit) : e.fuse.form.isDecimal = e.form.isDecimal := by
  obtain ⟨tag, form⟩ := e
  cases hglued : form.gluedText? with
  | some text =>
      rw [fuse_node_of_glued hglued]
      obtain ⟨_, _, _, rfl, -, -⟩ := exists_of_gluedText?_eq_some hglued
      rfl
  | none =>
      rw [fuse_node hglued]
      exact ExprNode.isDecimal_map fuse form

/-- No member of digits is left. -/
theorem not_suffers_fuse (e : Expr Unit) : ¬ e.fuse.Suffers .glued := by
  induction e with
  | node tag form ih =>
      cases hglued : form.gluedText? with
      | some text =>
          rw [fuse_node_of_glued hglued, suffers_node]
          rintro (hform | ⟨c, hc, -⟩)
          · cases hform
          · cases hc
      | none =>
          have hform : (form.map fuse).suffers .glued = false := by
            rw [ExprNode.suffers_glued]
            cases form with
            | member base field =>
                have hplain := (ExprNode.member base field).isSome_gluedText?
                rw [hglued] at hplain
                exact base.isDecimal_fuse.trans hplain.symm
            | _ => rfl
          rw [fuse_node hglued, suffers_node, hform, ExprNode.children_map]
          rintro (hform | ⟨c, hc, hsuffers⟩)
          · cases hform
          · obtain ⟨d, hd, rfl⟩ := List.mem_map.mp hc
            exact ih d hd hsuffers

end Expr

/-! ## Programs -/

namespace Stmt

theorem valid_fuse {s : Stmt Unit Unit} (h : s.Valid (Expr.Valid Literal.IsGenuine))
    (hbroken : ¬ s.Suffers .broken) : s.Valid fun e => e.fuse.Valid Literal.IsGenuine := by
  induction s with
  | node tag form ih =>
      obtain ⟨⟨hform, hexprs⟩, hstmts⟩ := valid_node.mp h
      rw [suffers_node, not_or] at hbroken
      exact valid_node.mpr ⟨⟨hform, fun e he => Expr.valid_fuse (hexprs e he) fun hsuffers =>
        hbroken.1 ⟨e, he, hsuffers⟩⟩, fun t ht => ih t ht (hstmts t ht) fun hsuffers =>
          hbroken.2 ⟨t, ht, hsuffers⟩⟩

theorem not_suffers_fuse (s : Stmt Unit Unit) : ¬ (s.mapExprs Expr.fuse Expr.fuse).Suffers .glued := by
  induction s with
  | node tag form ih =>
      rw [mapExprs_node, suffers_node, StmtNode.childExprs_map, StmtNode.childStmts_map]
      rintro (⟨e, he, hsuffers⟩ | ⟨t, ht, hsuffers⟩)
      · obtain ⟨d, -, rfl⟩ := List.mem_map.mp he
        exact d.not_suffers_fuse hsuffers
      · obtain ⟨u, hu, rfl⟩ := List.mem_map.mp ht
        exact ih u hu hsuffers

end Stmt

namespace DeclTree

theorem valid_fuse {d : DeclTree Unit Unit} (h : DeclTree.Valid (Expr.Valid Literal.IsGenuine) d)
    (hbroken : ¬ Suffers .broken d) :
    DeclTree.Valid (Expr.Valid Literal.IsGenuine) (DeclTree.mapExprs Expr.fuse Expr.fuse d) := by
  rw [suffers_iff, not_or] at hbroken
  rw [mapExprs_eq_map, valid_map (Stmt.form_mapExprs Expr.fuse) fun _ => Iff.rfl]
  exact ⟨h.form,
    fun s hs => Stmt.valid_fuse (h.bodies s hs) fun hsuffers => hbroken.2 ⟨s, hs, hsuffers⟩,
    fun e he => Expr.valid_fuse (h.inits e he) fun hsuffers => hbroken.1 ⟨e, he, hsuffers⟩⟩

theorem not_suffers_fuse (d : DeclTree Unit Unit) :
    ¬ Suffers .glued (DeclTree.mapExprs Expr.fuse Expr.fuse d) := by
  rw [suffers_iff, mapExprs_eq_map, Decl.inits_map, Decl.bodies_map]
  rintro (⟨e, he, hsuffers⟩ | ⟨s, hs, hsuffers⟩)
  · obtain ⟨d, -, rfl⟩ := List.mem_map.mp he
    exact d.not_suffers_fuse hsuffers
  · obtain ⟨t, -, rfl⟩ := List.mem_map.mp hs
    exact t.not_suffers_fuse hsuffers

end DeclTree

namespace Program

/-- A program with numbers in place of its members of digits. -/
def fuse (p : Program) : Program :=
  ⟨p.version, p.decls.map (DeclTree.mapExprs Expr.fuse Expr.fuse)⟩

variable {p : Program}

/-- With numbers in place of its members of digits a program prints as before. -/
theorem print_fuse (p : Program) : p.fuse.print = p.print :=
  print_mapExprs (fun _ => Expr.print_fuse (.inl (by decide)))
    (fun _ => Expr.print_fuse (.inl (by decide))) p.version p.decls

/-- If no number is malformed, the program can be read. -/
theorem valid_fuse (h : p.Valid (Expr.Valid Literal.IsGenuine)) (hbroken : ¬ p.Suffers .broken) :
    p.fuse.Valid (Expr.Valid Literal.IsGenuine) := by
  refine ⟨h.version, fun d hd => ?_⟩
  obtain ⟨d, hmem, rfl⟩ := List.mem_map.mp hd
  exact DeclTree.valid_fuse (h.decls d hmem) fun hsuffers => hbroken ⟨d, hmem, hsuffers⟩

theorem not_glues_fuse (p : Program) : ¬ p.fuse.Glues := by
  rw [← suffers_glued]
  rintro ⟨d, hd, hsuffers⟩
  obtain ⟨d, -, rfl⟩ := List.mem_map.mp hd
  exact DeclTree.not_suffers_fuse d hsuffers

/-- The first directive of a program has no members. -/
theorem head?_fuse {text : String} :
    p.fuse.decls.head? = some (.directive text) ↔ p.decls.head? = some (.directive text) := by
  rw [fuse, List.head?_map, Option.map_eq_some_iff]
  constructor
  · rintro ⟨d, hd, heq⟩
    cases d <;> cases heq
    exact hd
  · exact fun h => ⟨_, h, rfl⟩

end Program

end ShaderReducer
