import ShaderReducer.Proofs.Parser.RoundTrip
import ShaderReducer.Proofs.Shader.Erased

/-!
# The text of an expression is read back

The printer puts parentheses where the grammar needs them, whatever parentheses the tree has of its
own: an expression of a shader whose nodes form a finite tree, printed on its own and put into a
function as its only statement, is read back as the same expression up to parentheses, and prints
as the same text.
-/

namespace ShaderReducer

namespace Expr

variable {ε : Type}

/-! ## Tags -/

theorem startsWithOperator_erase (e : Expr ε) :
    e.erase.startsWithOperator = e.startsWithOperator := by
  obtain ⟨tag, form⟩ := e
  cases form <;> rfl

mutual

/-- The text does not depend on the tags. -/
theorem print_erase (required : Nat) : ∀ e : Expr ε, e.erase.print required = e.print required
  | node _ (.literal _) => rfl
  | node _ (.ident _) => rfl
  | node _ (.paren inner) => by
    rw [erase, print, print, print_erase 0 inner]
  | node _ (.unary op operand) => by
    rw [erase, print, print, startsWithOperator_erase, print_erase _ operand, print_erase _ operand]
  | node _ (.binary op lhs rhs) => by
    rw [erase, print, print, print_erase _ lhs, print_erase _ rhs]
  | node _ (.ternary cond onTrue onFalse) => by
    rw [erase, print, print, print_erase _ cond, print_erase _ onTrue, print_erase _ onFalse]
  | node _ (.call callee args) => by
    rw [erase, print, print, printAll_eraseAll args]
  | node _ (.member base field) => by
    rw [erase, print, print, print_erase _ base]
  | node _ (.index base offset) => by
    rw [erase, print, print, print_erase _ base, print_erase _ offset]

theorem printAll_eraseAll : ∀ l : List (Expr ε), printAll (eraseAll l) = printAll l
  | [] => rfl
  | e :: rest => by
    rw [eraseAll, printAll, printAll, print_erase _ e, printAll_eraseAll rest]

end

theorem isDecimal_erase (e : Expr ε) : e.erase.form.isDecimal = e.form.isDecimal := by
  obtain ⟨tag, form⟩ := e
  rw [erase_node]
  exact ExprNode.isDecimal_map erase form

theorem isGlued_erase (e : Expr ε) : e.erase.form.isGlued = e.form.isGlued := by
  obtain ⟨tag, form⟩ := e
  cases form with
  | member base field => exact base.isDecimal_erase
  | _ => rfl

theorem glues_erase {e : Expr ε} : e.erase.Glues ↔ e.Glues := by
  simp only [Glues, subexprs_erase, List.mem_map, exists_exists_and_eq_and, isGlued_erase]

theorem text_erase (e : Expr ε) : e.erase.text = e.text := by
  rw [text, text, print_erase]

end Expr

/-! ## Texts of one line -/

/-- A text that is one line and ends with a visible character. -/
structure IsLine (text : List Char) : Prop where
  oneLine : '\n' ∉ text
  endsVisible : EndsVisible text

theorem IsLine.append {front text : List Char} (hfront : '\n' ∉ front) (h : IsLine text) :
    IsLine (front ++ text) where
  oneLine := List.not_mem_append hfront h.oneLine
  endsVisible := h.endsVisible.append_left front

theorem IsToken.isLine {kind : TokenKind} {text : List Char} (h : IsToken kind text) :
    IsLine text :=
  ⟨h.oneLine, h.endsVisible⟩

theorem isLine_symbol (sign : Symbol) : IsLine sign.spelling.toList :=
  (isToken_symbol sign).isLine

namespace IsLine

/-- Nothing is trimmed off a line that ends visibly. -/
theorem trimEnd_tidyLines {line : String} (h : IsLine line.toList) :
    Text.trimEnd (tidyLines line) = line := by
  rw [Text.trimEnd, toList_tidyLines_oneLine h.oneLine h.endsVisible]
  have hend : Text.trimEndList (line.toList ++ ['\n']) = Text.trimEndList line.toList := by
    rw [Text.trimEndList, List.reverse_append]
    rfl
  rw [hend, trimEndList_of_endsVisible h.endsVisible, String.ofList_toList]

end IsLine

namespace Expr

theorem newline_notMem_intercalate {texts : List String} (h : ∀ t ∈ texts, '\n' ∉ t.toList) :
    '\n' ∉ (", ".intercalate texts).toList := by
  induction texts with
  | nil => decide
  | cons t texts ih =>
    have ih := ih fun t' ht' => h t' (List.mem_cons_of_mem t ht')
    cases texts with
    | nil => simpa using h t List.mem_cons_self
    | cons t' texts =>
      rw [String.intercalate_cons_cons, String.toList_append, String.toList_append]
      exact List.not_mem_append (List.not_mem_append (h t List.mem_cons_self) (by decide)) ih

theorem newline_notMem_separator (op : BinaryOp) : '\n' ∉ (separator op).toList := by
  cases op <;> decide

/-- A form is one line if its parts are. -/
theorem isLine_formText {form : ExprNode (Expr Unit)} (hform : form.Valid Literal.IsGenuine)
    (hparts : ∀ c ∈ form.children, ∀ required, IsLine (c.print required).toList) :
    IsLine (formText form).toList := by
  cases form with
  | literal value =>
    cases value with
    | bool value =>
      cases value with
      | true => exact (isToken_keyword .kwTrue).isLine
      | false => exact (isToken_keyword .kwFalse).isLine
    | _ => exact IsToken.isLine hform
  | ident name => exact IsToken.isLine hform
  | paren inner =>
    have hinner := hparts inner List.mem_cons_self 0
    rw [formText, String.toList_append, String.toList_append]
    exact (isLine_symbol .rParen).append (List.not_mem_append (by decide) hinner.oneLine)
  | unary op operand =>
    have hoperand := hparts operand List.mem_cons_self (operandPrecedence op operand)
    have hop := isLine_symbol op.symbol
    rw [UnaryOp.spelling_symbol] at hop
    rw [formText]
    split
    · rw [String.toList_append]
      exact hop.append hoperand.oneLine
    · rw [String.toList_append]
      exact hoperand.append hop.oneLine
  | binary op lhs rhs =>
    have hlhs := hparts lhs List.mem_cons_self (lhsPrecedence op)
    have hrhs := hparts rhs (List.mem_cons_of_mem _ List.mem_cons_self) (rhsPrecedence op)
    rw [formText, String.toList_append, String.toList_append]
    exact hrhs.append (List.not_mem_append hlhs.oneLine (newline_notMem_separator op))
  | ternary cond onTrue onFalse =>
    have hcond := hparts cond List.mem_cons_self (Precedence.conditional + 1)
    have htrue := hparts onTrue (List.mem_cons_of_mem _ List.mem_cons_self) Precedence.assignment
    have hfalse := hparts onFalse (List.mem_cons_of_mem _ (List.mem_cons_of_mem _
      List.mem_cons_self)) Precedence.conditional
    simp only [formText, String.toList_append]
    exact hfalse.append (List.not_mem_append (List.not_mem_append (List.not_mem_append
      hcond.oneLine (by decide)) htrue.oneLine) (by decide))
  | call callee args =>
    have hargs : '\n' ∉ (", ".intercalate (args.map (print Precedence.assignment))).toList :=
      newline_notMem_intercalate (List.forall_mem_map.mpr fun arg harg =>
        (hparts arg harg _).oneLine)
    simp only [formText, String.toList_append]
    exact (isLine_symbol .rParen).append (List.not_mem_append (List.not_mem_append
      (IsToken.oneLine hform) (by decide)) hargs)
  | member base field =>
    have hbase := hparts base List.mem_cons_self Precedence.access
    rw [formText, String.toList_append, String.toList_append]
    exact (IsToken.isLine hform).append (List.not_mem_append hbase.oneLine (by decide))
  | index base offset =>
    have hbase := hparts base List.mem_cons_self Precedence.access
    have hoffset := hparts offset (List.mem_cons_of_mem _ List.mem_cons_self) 0
    simp only [formText, String.toList_append]
    exact (isLine_symbol .rBracket).append (List.not_mem_append (List.not_mem_append hbase.oneLine
      (by decide)) hoffset.oneLine)

theorem isLine_print {e : Expr Unit} (h : e.Valid Literal.IsGenuine) (required : Nat) :
    IsLine (e.print required).toList := by
  induction e generalizing required with
  | node tag form ih =>
    obtain ⟨hform, hparts⟩ := valid_node.mp h
    have hline := isLine_formText hform fun c hc => ih c hc (hparts c hc)
    rw [print_node, enclose]
    split
    · rw [String.toList_append, String.toList_append]
      exact (isLine_symbol .rParen).append (List.not_mem_append (by decide) hline.oneLine)
    · exact hline

/-- An expression on its own is printed as anywhere else. -/
theorem text_eq {e : Expr Unit} (h : e.Valid Literal.IsGenuine) : e.text = e.print 0 :=
  (isLine_print h 0).trimEnd_tidyLines

end Expr

/-! ## An expression in a function -/

/-- The text of a function up to its body. -/
def FunctionDecl.heading {σ : Type} (f : FunctionDecl σ) : String :=
  f.returnType.print ++ " " ++ f.name ++ "(" ++ ", ".intercalate (f.params.map Param.print) ++ ")"

/-- The text of a function whose body is a text and a semicolon. -/
def FunctionDecl.around {σ : Type} (f : FunctionDecl σ) (text : String) : String :=
  f.heading ++ " \x7b" ++ newline 1 ++ text ++ ";" ++ newline 0 ++ "\x7d"

/-- A function whose only statement is an expression. -/
def FunctionDecl.withExpr (f : FunctionDecl (Stmt Unit Unit)) (e : Expr Unit) :
    FunctionDecl (Stmt Unit Unit) :=
  { f with body := some (.node () (.block [.node () (.expr e)])) }

namespace FunctionDecl

variable {f : FunctionDecl (Stmt Unit Unit)} {e : Expr Unit}

theorem print_withExpr : (f.withExpr e).print = f.around (e.print 0) := by
  have hopen : " \x7b" = " " ++ "\x7b" := rfl
  simp only [withExpr, print, around, heading, Stmt.print, Stmt.printRest, hopen,
    String.append_assoc, String.empty_append]

theorem valid_withExpr (hf : f.Named) (he : e.Valid Literal.IsGenuine) :
    DeclTree.Valid (Expr.Valid Literal.IsGenuine) (.function (f.withExpr e)) where
  form := ⟨⟨hf.returnType, hf.name, hf.params, hf.notVoid⟩, by rintro body ⟨⟩; rfl⟩
  bodies := by
    intro body hbody
    obtain rfl := List.mem_singleton.mp hbody
    refine Stmt.valid_node.mpr ⟨⟨trivial, List.forall_mem_nil _⟩, fun t ht => ?_⟩
    obtain rfl := List.mem_singleton.mp ht
    exact Stmt.valid_node.mpr ⟨⟨trivial, fun d hd => List.mem_singleton.mp hd ▸ he⟩,
      List.forall_mem_nil _⟩
  inits := List.forall_mem_nil _

theorem suffers_withExpr {m : Mishap} :
    DeclTree.Suffers m (.function (f.withExpr e)) ↔ e.Suffers m := by
  simp [DeclTree.suffers_iff, Decl.inits, Decl.bodies, withExpr, Stmt.suffers_node,
    StmtNode.childExprs, StmtNode.childStmts]

/-- The text of a function with an expression in it is read back, with the parentheses that were
printed. -/
theorem parse_print_withExpr (hf : f.Named) (he : e.Valid Literal.IsGenuine) (hglues : ¬ e.Glues) :
    Program.parse (f.withExpr e).print = .ok ⟨none, [.function (f.withExpr (e.explicit 0))]⟩ := by
  have hvalid := valid_withExpr hf he
  have hprogram : Program.Valid (Expr.Valid Literal.IsGenuine) ⟨none, [.function (f.withExpr e)]⟩ :=
    ⟨(fun _ hv => nomatch hv), fun d hd => List.mem_singleton.mp hd ▸ hvalid⟩
  have hversion : ¬ Program.HidesVersion ⟨none, [.function (f.withExpr e)]⟩ := by
    rintro ⟨-, text, hhead, -⟩
    cases hhead
  have hprinted : Printed (f.withExpr e).print.toList
      (Program.pieces ⟨none, [.function (f.withExpr e)]⟩) (e.Suffers ·) := by
    have hend : ∀ c ∈ ([] : List Char).head?, c = '\n' := fun c hc => nomatch hc
    have hwhole := DeclTree.isPrinted hvalid hend Printed.nil
    rw [List.append_nil] at hwhole
    exact hwhole.congr fun m => by simp [suffers_withExpr]
  rw [Program.parse, Parser.program_back hprogram hversion
    (Parser.spelled_of_pieces (hprinted.pieces_of_not fun h => hglues (Expr.suffers_glued.mp h)))]
  rfl

end FunctionDecl

/-- An expression of a shader is read back from its own text as the only statement of a function: it
is the same up to parentheses, and it prints as the same text. -/
theorem exists_parse_exprText {s : Shader} {id : ExprId} (h : s.IsExprTree id)
    {f : FunctionDecl (Stmt Unit Unit)} (hf : f.Named) : ∃ e : Expr Unit,
      Program.parse (f.around (s.exprText id)) = .ok ⟨none, [.function (f.withExpr e)]⟩ ∧
        e.agrees (s.exprTree id) = true ∧ e.text = s.exprText id := by
  have hvalid : (s.exprTree id).erase.Valid Literal.IsGenuine :=
    Expr.valid_erase.mpr h.valid_exprTree
  have hglues : ¬ (s.exprTree id).erase.Glues := fun hglues =>
    h.not_glues_exprTree (Expr.glues_erase.mp hglues)
  have htext : s.exprText id = (s.exprTree id).erase.print 0 := by
    rw [Shader.exprText, ← Expr.text_erase, Expr.text_eq hvalid]
  refine ⟨(s.exprTree id).erase.explicit 0, ?_, ?_, ?_⟩
  · rw [htext, ← FunctionDecl.print_withExpr, FunctionDecl.parse_print_withExpr hf hvalid hglues]
  · rw [Expr.agrees_iff, Expr.bare_explicit, Expr.bare_erase]
  · rw [Expr.text, Expr.print_explicit (Nat.zero_le _)]
    exact (s.exprTree id).text_erase

/-- Two minus signs in a row and a difference in a product, without parentheses; one operand stands
twice, and a slot out of reach is below itself. -/
def nestedMinus : Shader where
  exprs := ⟨#[⟨.binary .mul ⟨1⟩ ⟨4⟩, true⟩, ⟨.binary .sub ⟨2⟩ ⟨3⟩, true⟩, ⟨.ident "a", true⟩,
    ⟨.ident "b", true⟩, ⟨.unary .neg ⟨5⟩, true⟩, ⟨.unary .neg ⟨2⟩, true⟩, ⟨.paren ⟨6⟩, true⟩]⟩

theorem exists_parse_nestedMinus :
    nestedMinus.IsExprTree ⟨0⟩ ∧ ∃ f : FunctionDecl (Stmt Unit Unit), ∃ e : Expr Unit, f.Named ∧
      Program.parse "void main() \x7b\n    (a - b) * -(-a);\n\x7d" =
        .ok ⟨none, [.function (f.withExpr e)]⟩ ∧
      e.agrees (nestedMinus.exprTree ⟨0⟩) = true ∧ e.text = "(a - b) * -(-a)" := by
  have hname : ∀ text ∈ ["a", "b", "void", "main"], IsName text := by
    simp only [List.forall_mem_cons]
    refine ⟨?_, ?_, ?_, ?_, List.forall_mem_nil _⟩
    all_goals exact ⟨⟨_, _, rfl, by decide +kernel⟩, rfl, by decide, by decide +kernel⟩
  have hfrom : ∀ c, nestedMinus.ExprFrom ⟨0⟩ c → c ∈ (List.range 6).map ExprId.mk := by
    intro c hc
    induction hc with
    | refl => decide
    | @tail b c _ hpart ih =>
      have hclosed : ∀ b ∈ (List.range 6).map ExprId.mk, ∀ c ∈ nestedMinus.exprParts b,
          c ∈ (List.range 6).map ExprId.mk := by decide
      exact hclosed b ih c hpart
  have hvalid : ∀ c ∈ (List.range 6).map ExprId.mk,
      (nestedMinus.expr c).Valid Literal.IsGenuine := by
    have ha := hname "a" (by decide)
    have hb := hname "b" (by decide)
    rintro c (_ | ⟨_, _ | ⟨_, _ | ⟨_, _ | ⟨_, _ | ⟨_, _ | ⟨_, ⟨⟩⟩⟩⟩⟩⟩⟩)
    exacts [trivial, trivial, ha, hb, trivial, trivial]
  have htree : nestedMinus.IsExprTree ⟨0⟩ := by
    refine ⟨?_, fun c hc => hvalid c (hfrom c hc), fun c base field hc heq => ?_⟩
    · have ha : nestedMinus.FiniteBelow ⟨2⟩ := .intro _ (List.forall_mem_nil _)
      have hb : nestedMinus.FiniteBelow ⟨3⟩ := .intro _ (List.forall_mem_nil _)
      have hminus : nestedMinus.FiniteBelow ⟨5⟩ := .intro _ (List.forall_mem_singleton.mpr ha)
      have hminus' : nestedMinus.FiniteBelow ⟨4⟩ := .intro _ (List.forall_mem_singleton.mpr hminus)
      have hdifference : nestedMinus.FiniteBelow ⟨1⟩ :=
        .intro _ (List.forall_mem_cons.mpr ⟨ha, List.forall_mem_singleton.mpr hb⟩)
      exact .intro _ (List.forall_mem_cons.mpr ⟨hdifference, List.forall_mem_singleton.mpr hminus'⟩)
    · have hplain : ∀ c ∈ (List.range 6).map ExprId.mk, (nestedMinus.expr c).isMember = false := by
        decide
      have := hplain c (hfrom c hc)
      rw [heq] at this
      cases this
  have hmain : (⟨.ofName "void", "main", [], none⟩ : FunctionDecl (Stmt Unit Unit)).Named :=
    ⟨⟨List.forall_mem_nil _, hname "void" (by decide)⟩, hname "main" (by decide),
      List.forall_mem_nil _, rfl⟩
  have htext : nestedMinus.exprText ⟨0⟩ = "(a - b) * -(-a)" := by decide +kernel
  obtain ⟨e, hparse, hagrees, hprint⟩ := exists_parse_exprText htree hmain
  rw [htext] at hparse hprint
  exact ⟨htree, _, e, hmain, hparse, hagrees, hprint⟩

end ShaderReducer
