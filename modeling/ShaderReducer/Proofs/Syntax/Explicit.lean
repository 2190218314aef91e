import ShaderReducer.Proofs.Syntax.Bare
import ShaderReducer.Syntax.Printer

/-!
# Explicit parentheses

The printer adds parentheses that a tree does not hold. With these put into the tree, nothing is left
to add: the tree prints as the same text, and each of its parts binds as tightly as its place asks.
-/

namespace ShaderReducer

namespace Expr

/-- How tightly the operand of an operator has to bind. -/
def operandPrecedence {ε : Type} (op : UnaryOp) (operand : Expr ε) : Nat :=
  if op.isTrailing then Precedence.access
  else if operand.startsWithOperator then Precedence.primary
  else Precedence.unary

/-- An expression in parentheses, where it binds more loosely than its place asks. -/
def enclosed (precedence required : Nat) (e : Expr Unit) : Expr Unit :=
  if precedence < required then node () (.paren e) else e

mutual

/-- An expression with the parentheses that the printer adds. -/
def explicit (required : Nat) : Expr Unit → Expr Unit
  | node _ (.literal value) => enclosed Precedence.primary required (node () (.literal value))
  | node _ (.ident name) => enclosed Precedence.primary required (node () (.ident name))
  | node _ (.paren inner) =>
    enclosed Precedence.primary required (node () (.paren (inner.explicit 0)))
  | node _ (.unary op operand) =>
    enclosed op.precedence required
      (node () (.unary op (operand.explicit (operandPrecedence op operand))))
  | node _ (.binary op lhs rhs) =>
    enclosed op.precedence required
      (node () (.binary op (lhs.explicit (lhsPrecedence op)) (rhs.explicit (rhsPrecedence op))))
  | node _ (.ternary cond onTrue onFalse) =>
    enclosed Precedence.conditional required
      (node () (.ternary (cond.explicit (Precedence.conditional + 1))
        (onTrue.explicit Precedence.assignment) (onFalse.explicit Precedence.conditional)))
  | node _ (.call callee args) =>
    enclosed Precedence.access required (node () (.call callee (explicitAll args)))
  | node _ (.member base field) =>
    enclosed Precedence.access required (node () (.member (base.explicit Precedence.access) field))
  | node _ (.index base offset) =>
    enclosed Precedence.access required
      (node () (.index (base.explicit Precedence.access) (offset.explicit 0)))

/-- The arguments of a call with the parentheses that the printer adds. -/
def explicitAll : List (Expr Unit) → List (Expr Unit)
  | [] => []
  | e :: rest => e.explicit Precedence.assignment :: explicitAll rest

end

theorem explicitAll_eq_map (l : List (Expr Unit)) :
    explicitAll l = l.map (explicit Precedence.assignment) := by
  induction l with
  | nil => rfl
  | cons e rest ih => rw [explicitAll, ih, List.map_cons]

theorem printAll_eq_map (l : List (Expr Unit)) :
    printAll l = l.map (print Precedence.assignment) := by
  induction l with
  | nil => rfl
  | cons e rest ih => rw [printAll, ih, List.map_cons]

/-- No part of an expression binds more loosely than its place asks. -/
inductive Tight : Expr Unit → Prop
  | literal (value : Literal) : Tight (node () (.literal value))
  | ident (name : String) : Tight (node () (.ident name))
  | paren {inner : Expr Unit} (hinner : Tight inner) : Tight (node () (.paren inner))
  | unary {op : UnaryOp} {operand : Expr Unit} (hoperand : Tight operand)
    (h : operandPrecedence op operand ≤ operand.precedence) : Tight (node () (.unary op operand))
  | binary {op : BinaryOp} {lhs rhs : Expr Unit} (hlhs : Tight lhs) (hrhs : Tight rhs)
    (hl : lhsPrecedence op ≤ lhs.precedence) (hr : rhsPrecedence op ≤ rhs.precedence) :
    Tight (node () (.binary op lhs rhs))
  | ternary {cond onTrue onFalse : Expr Unit} (hcond : Tight cond) (honTrue : Tight onTrue)
    (honFalse : Tight onFalse) (hc : Precedence.conditional + 1 ≤ cond.precedence)
    (ht : Precedence.assignment ≤ onTrue.precedence)
    (hf : Precedence.conditional ≤ onFalse.precedence) :
    Tight (node () (.ternary cond onTrue onFalse))
  | call {callee : String} {args : List (Expr Unit)} (hargs : ∀ e ∈ args, Tight e)
    (h : ∀ e ∈ args, Precedence.assignment ≤ e.precedence) : Tight (node () (.call callee args))
  | member {base : Expr Unit} {field : String} (hbase : Tight base)
    (h : Precedence.access ≤ base.precedence) : Tight (node () (.member base field))
  | index {base offset : Expr Unit} (hbase : Tight base) (hoffset : Tight offset)
    (h : Precedence.access ≤ base.precedence) : Tight (node () (.index base offset))

/-! ## One level -/

/-- A form whose parts have the parentheses that the printer adds. -/
def explicitParts : ExprNode (Expr Unit) → ExprNode (Expr Unit)
  | .literal value => .literal value
  | .ident name => .ident name
  | .paren inner => .paren (inner.explicit 0)
  | .unary op operand => .unary op (operand.explicit (operandPrecedence op operand))
  | .binary op lhs rhs =>
    .binary op (lhs.explicit (lhsPrecedence op)) (rhs.explicit (rhsPrecedence op))
  | .ternary cond onTrue onFalse =>
    .ternary (cond.explicit (Precedence.conditional + 1)) (onTrue.explicit Precedence.assignment)
      (onFalse.explicit Precedence.conditional)
  | .call callee args => .call callee (args.map (explicit Precedence.assignment))
  | .member base field => .member (base.explicit Precedence.access) field
  | .index base offset => .index (base.explicit Precedence.access) (offset.explicit 0)

theorem explicit_node (required : Nat) (tag : Unit) (form : ExprNode (Expr Unit)) :
    (node tag form).explicit required =
      enclosed form.precedence required (node () (explicitParts form)) := by
  cases form with
  | call callee args => rw [explicit, explicitAll_eq_map]; rfl
  | _ => rfl

theorem precedence_explicitParts (form : ExprNode (Expr Unit)) :
    (explicitParts form).precedence = form.precedence := by
  cases form <;> rfl

/-- The text of a form whose own place asks for nothing. -/
def formText : ExprNode (Expr Unit) → String
  | .literal value => value.text
  | .ident name => name
  | .paren inner => "(" ++ inner.print 0 ++ ")"
  | .unary op operand =>
    if op.isTrailing then operand.print (operandPrecedence op operand) ++ op.spelling
    else op.spelling ++ operand.print (operandPrecedence op operand)
  | .binary op lhs rhs =>
    lhs.print (lhsPrecedence op) ++ separator op ++ rhs.print (rhsPrecedence op)
  | .ternary cond onTrue onFalse =>
    cond.print (Precedence.conditional + 1) ++ " ? " ++ onTrue.print Precedence.assignment ++
      " : " ++ onFalse.print Precedence.conditional
  | .call callee args =>
    callee ++ "(" ++ ", ".intercalate (args.map (print Precedence.assignment)) ++ ")"
  | .member base field => base.print Precedence.access ++ "." ++ field
  | .index base offset => base.print Precedence.access ++ "[" ++ offset.print 0 ++ "]"

theorem print_node (required : Nat) (tag : Unit) (form : ExprNode (Expr Unit)) :
    (node tag form).print required = enclose form.precedence required (formText form) := by
  cases form with
  | call callee args => rw [print, printAll_eq_map]; rfl
  | unary op operand => rw [print, formText, operandPrecedence]; cases op.isTrailing <;> rfl
  | _ => rfl

/-! ## Parentheses that are there -/

/-- Where an expression binds tightly enough, its place does not matter. -/
theorem print_of_le {required required' : Nat} {e : Expr Unit} (h : required ≤ e.precedence)
    (h' : required' ≤ e.precedence) : e.print required = e.print required' := by
  obtain ⟨tag, form⟩ := e
  change required ≤ form.precedence at h
  change required' ≤ form.precedence at h'
  rw [print_node, print_node, enclose, enclose, if_neg (Nat.not_lt.mpr h),
    if_neg (Nat.not_lt.mpr h')]

theorem le_precedence_explicit {required : Nat} (hrequired : required ≤ Precedence.primary)
    (e : Expr Unit) : required ≤ (e.explicit required).precedence := by
  obtain ⟨tag, form⟩ := e
  rw [explicit_node, enclosed]
  split
  · exact hrequired
  · next h =>
      change required ≤ (explicitParts form).precedence
      rw [precedence_explicitParts]
      exact Nat.le_of_not_lt h

theorem startsWithOperator_explicit {required : Nat} {e : Expr Unit}
    (h : e.startsWithOperator = true → Precedence.unary < required) :
    (e.explicit required).startsWithOperator = false := by
  obtain ⟨tag, form⟩ := e
  rw [explicit_node, enclosed]
  by_cases hlt : form.precedence < required
  · rw [if_pos hlt]
    rfl
  · rw [if_neg hlt]
    cases form with
    | unary op operand =>
        cases htrailing : op.isTrailing with
        | true => simp [explicitParts, startsWithOperator, htrailing]
        | false =>
            refine absurd (h (by simp [startsWithOperator, htrailing])) ?_
            simpa [ExprNode.precedence, UnaryOp.precedence, htrailing] using hlt
    | _ => rfl

theorem operandPrecedence_explicit_le (op : UnaryOp) (operand : Expr Unit) :
    operandPrecedence op (operand.explicit (operandPrecedence op operand)) ≤
      operandPrecedence op operand := by
  cases htrailing : op.isTrailing with
  | true => simp [operandPrecedence, htrailing]
  | false =>
      have h : (operand.explicit (operandPrecedence op operand)).startsWithOperator = false :=
        startsWithOperator_explicit fun hop => by
          simp [operandPrecedence, htrailing, hop, Precedence.unary, Precedence.primary]
      rw [operandPrecedence, h, operandPrecedence, htrailing]
      cases operand.startsWithOperator <;> decide

theorem le_primary_operandPrecedence (op : UnaryOp) (operand : Expr Unit) :
    operandPrecedence op operand ≤ Precedence.primary := by
  rw [operandPrecedence]
  split
  · decide
  · split <;> decide

theorem le_primary_lhsPrecedence (op : BinaryOp) : lhsPrecedence op ≤ Precedence.primary := by
  cases op <;> decide

theorem le_primary_rhsPrecedence (op : BinaryOp) : rhsPrecedence op ≤ Precedence.primary := by
  cases op <;> decide

/-- With the parentheses in it an expression prints as before. -/
theorem print_explicit {required : Nat} (hrequired : required ≤ Precedence.primary)
    (e : Expr Unit) : (e.explicit required).print required = e.print required := by
  induction e generalizing required with
  | node tag form ih =>
      have hparts : formText (explicitParts form) = formText form := by
        cases form with
        | literal value => rfl
        | ident name => rfl
        | paren inner =>
            rw [explicitParts, formText, formText, ih inner List.mem_cons_self (Nat.zero_le _)]
        | unary op operand =>
            have hle := le_precedence_explicit (le_primary_operandPrecedence op operand) operand
            rw [explicitParts, formText, formText,
              print_of_le (Nat.le_trans (operandPrecedence_explicit_le op operand) hle) hle,
              ih operand List.mem_cons_self (le_primary_operandPrecedence op operand)]
        | binary op lhs rhs =>
            rw [explicitParts, formText, formText,
              ih lhs List.mem_cons_self (le_primary_lhsPrecedence op),
              ih rhs (List.mem_cons_of_mem _ List.mem_cons_self) (le_primary_rhsPrecedence op)]
        | ternary cond onTrue onFalse =>
            rw [explicitParts, formText, formText, ih cond (by simp [ExprNode.children]) (by decide),
              ih onTrue (by simp [ExprNode.children]) (by decide),
              ih onFalse (by simp [ExprNode.children]) (by decide)]
        | call callee args =>
            have hargs : args.map (print Precedence.assignment ∘ explicit Precedence.assignment) =
                args.map (print Precedence.assignment) :=
              List.map_congr_left fun e he => ih e he (by decide)
            rw [explicitParts, formText, formText, List.map_map, hargs]
        | member base field =>
            rw [explicitParts, formText, formText, ih base List.mem_cons_self (by decide)]
        | index base offset =>
            rw [explicitParts, formText, formText, ih base List.mem_cons_self (by decide),
              ih offset (List.mem_cons_of_mem _ List.mem_cons_self) (Nat.zero_le _)]
      rw [explicit_node, print_node, enclosed, enclose]
      by_cases hlt : form.precedence < required
      · have hprimary : ¬ (ExprNode.paren (node () (explicitParts form))).precedence < required :=
          Nat.not_lt.mpr hrequired
        rw [if_pos hlt, if_pos hlt, print_node, enclose, if_neg hprimary, formText,
          print_node, enclose, if_neg (Nat.not_lt_zero _), hparts]
      · rw [if_neg hlt, if_neg hlt, print_node, enclose, precedence_explicitParts, if_neg hlt, hparts]

/-- With the parentheses in it an expression is tight. -/
theorem tight_explicit (e : Expr Unit) (required : Nat) : Tight (e.explicit required) := by
  induction e generalizing required with
  | node tag form ih =>
      have hparts : Tight (node () (explicitParts form)) := by
        cases form with
        | literal value => exact .literal value
        | ident name => exact .ident name
        | paren inner => exact .paren (ih inner List.mem_cons_self _)
        | unary op operand =>
            exact .unary (ih operand List.mem_cons_self _)
              (Nat.le_trans (operandPrecedence_explicit_le op operand)
                (le_precedence_explicit (le_primary_operandPrecedence op operand) operand))
        | binary op lhs rhs =>
            exact .binary (ih lhs (by simp [ExprNode.children]) _)
              (ih rhs (by simp [ExprNode.children]) _)
              (le_precedence_explicit (le_primary_lhsPrecedence op) lhs)
              (le_precedence_explicit (le_primary_rhsPrecedence op) rhs)
        | ternary cond onTrue onFalse =>
            exact .ternary (ih cond (by simp [ExprNode.children]) _)
              (ih onTrue (by simp [ExprNode.children]) _)
              (ih onFalse (by simp [ExprNode.children]) _)
              (le_precedence_explicit (by decide) cond) (le_precedence_explicit (by decide) onTrue)
              (le_precedence_explicit (by decide) onFalse)
        | call callee args =>
            refine .call (fun e he => ?_) (fun e he => ?_)
            · obtain ⟨arg, harg, rfl⟩ := List.mem_map.mp he
              exact ih arg harg _
            · obtain ⟨arg, harg, rfl⟩ := List.mem_map.mp he
              exact le_precedence_explicit (by decide) arg
        | member base field =>
            exact .member (ih base List.mem_cons_self _) (le_precedence_explicit (by decide) base)
        | index base offset =>
            exact .index (ih base (by simp [ExprNode.children]) _)
              (ih offset (by simp [ExprNode.children]) _) (le_precedence_explicit (by decide) base)
      rw [explicit_node, enclosed]
      split
      · exact .paren hparts
      · exact hparts

/-- Parentheses do not change what an expression is without them. -/
theorem bare_explicit (e : Expr Unit) (required : Nat) : (e.explicit required).bare = e.bare := by
  induction e generalizing required with
  | node tag form ih =>
      have hparts : (node () (explicitParts form)).bare = (node tag form).bare := by
        cases form with
        | call callee args =>
            simp only [explicitParts, bare, bareAll_eq_map, List.map_map]
            congr 2
            exact List.map_congr_left fun e he => ih e he _
        | _ => simp_all [explicitParts, bare, ExprNode.children]
      rw [explicit_node, enclosed]
      split
      · exact hparts
      · exact hparts

end Expr

/-! ## Programs -/

/-- A statement with the parentheses that the printer adds to its expressions. -/
def Stmt.explicit (s : Stmt Unit Unit) : Stmt Unit Unit :=
  s.mapExprs (Expr.explicit Precedence.assignment) (Expr.explicit 0)

/-- A declaration with the parentheses that the printer adds to its expressions. -/
def DeclTree.explicit (d : DeclTree Unit Unit) : DeclTree Unit Unit :=
  DeclTree.mapExprs (Expr.explicit Precedence.assignment) (Expr.explicit 0) d

/-- A program with the parentheses that the printer adds to its expressions. -/
def Program.explicit (p : Program) : Program :=
  ⟨p.version, p.decls.map DeclTree.explicit⟩

theorem DeclTree.bare_explicit (d : DeclTree Unit Unit) :
    DeclTree.bare (DeclTree.explicit d) = DeclTree.bare d := by
  have h : ∀ required, Expr.bare ∘ Expr.explicit required = Expr.bare := fun required =>
    funext fun e => e.bare_explicit required
  rw [DeclTree.explicit, DeclTree.bare, DeclTree.mapExprs_mapExprs, h, h]
  rfl

/-- Parentheses do not change what a program is without them. -/
theorem Program.bare_explicit (p : Program) : p.explicit.bare = p.bare := by
  rw [Program.bare, Program.bare, Program.explicit, List.map_map]
  exact congrArg (Prod.mk _) (List.map_congr_left fun d _ => d.bare_explicit)

/-!
## Texts with other expressions

Where initial values and the other expressions print as before, so do statements, declarations and
programs.
-/

section

variable {init value : Expr Unit → Expr Unit}

namespace Stmt

theorem isBlock_mapExprs (s : Stmt Unit Unit) : (s.mapExprs init value).isBlock = s.isBlock := by
  obtain ⟨tag, form⟩ := s
  cases form with
  | ifElse cond onTrue onFalse => cases onFalse <;> rfl
  | _ => rfl

theorem lead_mapExprs (depth : Nat) (s : Stmt Unit Unit) :
    (s.mapExprs init value).lead depth = s.lead depth := by
  rw [lead, isBlock_mapExprs, lead]

theorem bodyDepth_mapExprs (depth : Nat) (s : Stmt Unit Unit) :
    (s.mapExprs init value).bodyDepth depth = s.bodyDepth depth := by
  rw [bodyDepth, isBlock_mapExprs, bodyDepth]

theorem optional_map (hvalue : ∀ e, (value e).print 0 = e.print 0) (e : Option (Expr Unit)) :
    optional (e.map value) = optional e := by
  cases e with
  | none => rfl
  | some e => exact congrArg (" " ++ ·) (hvalue e)

end Stmt

theorem VarDecl.print_map
    (hinit : ∀ e, (init e).print Precedence.assignment = e.print Precedence.assignment)
    (v : VarDecl (Expr Unit)) : (v.map init).print = v.print := by
  have h : ∀ d : Declarator (Expr Unit), (d.map init).print = d.print := by
    rintro ⟨name, size, value⟩
    cases value with
    | none => rfl
    | some value =>
        exact congrArg (fun text => name ++ printArraySize size ++ (" = " ++ text)) (hinit value)
  rw [print, map, List.map_map, print]
  congr 2
  exact List.map_congr_left fun d _ => h d

variable (hinit : ∀ e, (init e).print Precedence.assignment = e.print Precedence.assignment)
  (hvalue : ∀ e, (value e).print 0 = e.print 0)
include hinit hvalue

theorem Stmt.print_mapExprs (s : Stmt Unit Unit) (depth : Nat) :
    (s.mapExprs init value).print depth = s.print depth := by
  induction s generalizing depth with
  | node tag form ih =>
      cases form with
      | block body =>
          have hrest : ∀ l : List (Stmt Unit Unit),
              (∀ s ∈ l, ∀ depth, (s.mapExprs init value).print depth = s.print depth) →
                ∀ depth, printRest depth (l.map (mapExprs init value)) = printRest depth l := by
            intro l hl depth
            induction l with
            | nil => rfl
            | cons s l ihl =>
                rw [List.map_cons, printRest, printRest, hl s List.mem_cons_self,
                  ihl fun t ht => hl t (List.mem_cons_of_mem s ht)]
          rw [mapExprs, mapExprsAll_eq_map]
          cases body with
          | nil => rfl
          | cons s l =>
              rw [List.map_cons, print, print, ih s List.mem_cons_self,
                hrest l fun t ht => ih t (List.mem_cons_of_mem s ht)]
      | vars decl => exact congrArg (· ++ ";") (decl.print_map hinit)
      | expr e => exact congrArg (· ++ ";") (hvalue e)
      | ifElse cond onTrue onFalse =>
          cases onFalse with
          | none =>
              rw [mapExprs, print, print, hvalue, lead_mapExprs, bodyDepth_mapExprs,
                ih onTrue List.mem_cons_self]
          | some onFalse =>
              rw [mapExprs, print, print, hvalue, lead_mapExprs, bodyDepth_mapExprs,
                isBlock_mapExprs, lead_mapExprs, bodyDepth_mapExprs, ih onTrue List.mem_cons_self,
                ih onFalse (by simp [StmtNode.childStmts])]
      | forLoop start cond step body =>
          rw [mapExprs, print, print, optional_map hvalue, optional_map hvalue, lead_mapExprs,
            bodyDepth_mapExprs, ih start List.mem_cons_self, ih body (by simp [StmtNode.childStmts])]
      | whileLoop cond body =>
          rw [mapExprs, print, print, hvalue, lead_mapExprs, bodyDepth_mapExprs,
            ih body List.mem_cons_self]
      | doWhile body cond =>
          rw [mapExprs, print, print, hvalue, lead_mapExprs, bodyDepth_mapExprs,
            ih body List.mem_cons_self]
      | returns e =>
          cases e with
          | none => rfl
          | some e => exact congrArg (fun text => "return " ++ text ++ ";") (hvalue e)
      | _ => rfl

theorem DeclTree.print_mapExprs (d : DeclTree Unit Unit) :
    DeclTree.print (DeclTree.mapExprs init value d) = DeclTree.print d := by
  cases d with
  | function decl =>
      obtain ⟨returnType, name, params, body⟩ := decl
      cases body with
      | none => rfl
      | some body =>
          change FunctionDecl.print ⟨returnType, name, params, some (body.mapExprs init value)⟩ = _
          rw [FunctionDecl.print]
          dsimp only
          rw [body.print_mapExprs hinit hvalue]
          rfl
  | vars decl => exact congrArg (· ++ ";") (decl.print_map hinit)
  | _ => rfl

theorem Program.print_mapExprs (version : Option Version) (ds : List (DeclTree Unit Unit)) :
    print ⟨version, ds.map (DeclTree.mapExprs init value)⟩ = print ⟨version, ds⟩ := by
  have h : (ds.map (DeclTree.mapExprs init value)).map DeclTree.print = ds.map DeclTree.print := by
    rw [List.map_map]
    exact List.map_congr_left fun d _ => d.print_mapExprs hinit hvalue
  rw [print, print, h]

end

/-- With the parentheses in it a program prints as before. -/
theorem Program.print_explicit (p : Program) : p.explicit.print = p.print :=
  print_mapExprs (Expr.print_explicit (by decide)) (Expr.print_explicit (Nat.zero_le _)) p.version
    p.decls

end ShaderReducer
