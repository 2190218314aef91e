import ShaderReducer.Proofs.Syntax.Pieces
import ShaderReducer.Proofs.Syntax.Valid
import ShaderReducer.Proofs.Token.Glued

/-!
# What printed expressions are written with

The text of an expression is written with its pieces, and with what stands behind it. The one
exception is a member of digits: there the digits, the point and the field become one number.
-/

namespace ShaderReducer

open Lexer (EndsWord EndsNumber)

/-! ## Texts with glued numbers -/

/-- What can happen to digits, a point and a name in a text: they become one number, and that may be
malformed. -/
inductive Mishap where
  | glued
  | broken

/-- Whether something has happened to digits, a point and a name with a text. -/
def Mishap.befalls (text : List Char) : Mishap → Bool
  | glued => true
  | broken => (Lexer.kindOf text).isMalformed

/-- A text is written with some tokens, unless digits, a point and a name in it became one number:
then it is written with fewer points. If such a number is malformed, it is found as such. -/
structure Printed (text : List Char) (pieces : List Piece) (happens : Mishap → Prop) : Prop where
  genuine : ∀ p ∈ pieces, IsToken p.kind p.text.toList
  exists_written : ∃ found, Written text found ∧
    (happens .glued ∧ pointsIn found < pointsIn pieces ∨ ¬ happens .glued ∧ found = pieces) ∧
    (happens .broken → ∃ p ∈ found, p.kind.isMalformed = true)

namespace Printed

variable {rest : List Char} {ps : List Piece} {glued glued' : Mishap → Prop}

theorem nil : Printed [] [] fun _ => False :=
  ⟨fun _ hp => (nomatch hp), [], .nil, .inr ⟨id, rfl⟩, False.elim⟩

theorem congr (h : Printed rest ps glued) (hiff : ∀ m, glued m ↔ glued' m) :
    Printed rest ps glued' :=
  funext (fun m => propext (hiff m)) ▸ h

theorem blank {c : Char} (hc : Lexer.isSpace c = true) (h : Printed rest ps glued) :
    Printed (c :: rest) ps glued := by
  obtain ⟨found, hwritten, hfound⟩ := h.exists_written
  exact ⟨h.genuine, found, .blank hc hwritten, hfound⟩

theorem blanks {cs : List Char} (hcs : ∀ c ∈ cs, Lexer.isSpace c = true)
    (h : Printed rest ps glued) : Printed (cs ++ rest) ps glued := by
  induction cs with
  | nil => exact h
  | cons c cs ih =>
      exact (ih fun d hd => hcs d (List.mem_cons_of_mem c hd)).blank (hcs c List.mem_cons_self)

theorem space (h : Printed rest ps glued) : Printed (" ".toList ++ rest) ps glued :=
  h.blank rfl

theorem newline (depth : Nat) (h : Printed rest ps glued) :
    Printed ((ShaderReducer.newline depth).toList ++ rest) ps glued := by
  rw [ShaderReducer.newline, String.toList_ofList]
  refine h.blanks fun c hc => ?_
  obtain rfl | hc := List.mem_cons.mp hc
  · rfl
  · rw [List.eq_of_mem_replicate hc]
    rfl

/-- A token in front of a text that does not go on it. -/
theorem token {kind : TokenKind} {text : String} (htext : IsToken kind text.toList)
    (hends : ∀ d ∈ rest.head?, kind.goesOn text.toList d = false) (h : Printed rest ps glued) :
    Printed (text.toList ++ rest) (⟨kind, text⟩ :: ps) glued := by
  obtain ⟨found, hwritten, hfound⟩ := h.exists_written
  have hstep := Written.token htext hends hwritten
  rw [String.ofList_toList] at hstep
  refine ⟨List.forall_mem_cons.mpr ⟨htext, h.genuine⟩, _, hstep, hfound.1.imp
    (And.imp_right fun hlt => ?_) (And.imp_right fun heq => ?_), fun hbroken => ?_⟩
  · rw [pointsIn_cons, pointsIn_cons]
    exact Nat.add_lt_add_right hlt _
  · rw [heq]
  · obtain ⟨p, hp, hmalformed⟩ := hfound.2 hbroken
    exact ⟨p, List.mem_cons_of_mem _ hp, hmalformed⟩

/-- Digits and a field become one number. -/
theorem gluing {digits field : String} (hdigits : IsToken .intLiteral digits.toList)
    (hall : digits.toList.all Char.isDigit = true) (hfield : IsName field) (hends : EndsNumber rest)
    (h : Printed rest ps glued) : Printed (digits.toList ++ (".".toList ++ (field.toList ++ rest)))
      (⟨.intLiteral, digits⟩ :: Symbol.dot.piece :: namePiece field :: ps)
      (fun m => m.befalls (gluedText digits.toList field.toList) = true ∨ glued m) := by
  obtain ⟨found, hwritten, hfound, hbroken⟩ := h.exists_written
  have hle : pointsIn found ≤ pointsIn ps := by
    obtain ⟨-, hlt⟩ | ⟨-, rfl⟩ := hfound
    · exact Nat.le_of_lt hlt
    · exact Nat.le_refl _
  have hfew : ∀ p : Piece, p.kind ≠ .symbol .dot → pointsIn (p :: found) <
      pointsIn (⟨.intLiteral, digits⟩ :: Symbol.dot.piece :: namePiece field :: ps) := by
    intro p hp
    rw [pointsIn_cons, if_neg hp, pointsIn_cons, pointsIn_cons, pointsIn_cons]
    simp only [Symbol.piece, namePiece, reduceCtorEq, if_false, if_true]
    omega
  have hmore : ∀ p : Piece, glued .broken → ∃ q ∈ p :: found, q.kind.isMalformed = true := by
    intro p hglued
    obtain ⟨q, hq, hmalformed⟩ := hbroken hglued
    exact ⟨q, List.mem_cons_of_mem p hq, hmalformed⟩
  have hgenuine : ∀ p ∈ ⟨.intLiteral, digits⟩ :: Symbol.dot.piece :: namePiece field :: ps,
      IsToken p.kind p.text.toList :=
    List.forall_mem_cons.mpr ⟨hdigits, List.forall_mem_cons.mpr ⟨isToken_symbol .dot,
      List.forall_mem_cons.mpr ⟨hfield, h.genuine⟩⟩⟩
  have htext : digits.toList ++ (".".toList ++ (field.toList ++ rest)) =
      gluedText digits.toList field.toList ++ rest := by
    rw [gluedText, List.append_assoc]
    rfl
  rw [htext]
  obtain hnumber | hnone := isToken_or_isBroken hdigits.ne_nil (List.all_eq_true.mp hall) hfield
  · refine ⟨hgenuine, _, .token hnumber hends.word hwritten, .inl ⟨.inl rfl, hfew _ (by simp)⟩,
      fun hglued => hmore _ (hglued.resolve_left fun hmalformed => ?_)⟩
    rw [Mishap.befalls, hnumber.kindOf_eq] at hmalformed
    cases hmalformed
  · have hmalformed := hnone.isMalformed_kindOf
    refine ⟨hgenuine, _, .broken hnone hends hwritten, .inl ⟨.inl rfl, hfew _ fun hkind => ?_⟩,
      fun _ => ⟨_, List.mem_cons_self, hmalformed⟩⟩
    rw [show Lexer.kindOf _ = _ from hkind] at hmalformed
    cases hmalformed

theorem symbol (sign : Symbol) (hends : ∀ d ∈ rest.head?, sign.goesOn d = false)
    (h : Printed rest ps glued) : Printed (sign.spelling.toList ++ rest) (sign.piece :: ps) glued :=
  h.token (isToken_symbol sign) hends

/-- A symbol that nothing goes on. -/
theorem inert (sign : Symbol) (hsign : ∀ d, sign.goesOn d = false) (h : Printed rest ps glued) :
    Printed (sign.spelling.toList ++ rest) (sign.piece :: ps) glued :=
  h.symbol sign fun d _ => hsign d

theorem keyword (word : Keyword) (hends : EndsWord rest) (h : Printed rest ps glued) :
    Printed (word.spelling.toList ++ rest) (word.piece :: ps) glued :=
  h.token (isToken_keyword word) hends

theorem name {text : String} (htext : IsName text) (hends : EndsWord rest)
    (h : Printed rest ps glued) : Printed (text.toList ++ rest) (namePiece text :: ps) glued :=
  h.token htext hends

end Printed

/-! ## What stands behind -/

/-- A text goes on neither a number nor a name, and accesses nothing. -/
structure Apart (rest : List Char) : Prop where
  number : EndsNumber rest
  point : rest.head? ≠ some '.'

theorem Apart.word {rest : List Char} (h : Apart rest) : EndsWord rest :=
  h.number.word

theorem endsNumber_cons {c : Char} {rest : List Char}
    (hc : Lexer.isNumberChar c = false ∨ c = '.') : EndsNumber (c :: rest) := by
  have hplain : Lexer.isWordChar c = false ∧ c ≠ '+' ∧ c ≠ '-' := by
    obtain hc | rfl := hc
    · rw [Lexer.isNumberChar, Bool.or_eq_false_iff, Bool.or_eq_false_iff, Bool.or_eq_false_iff,
        beq_eq_false_iff_ne, beq_eq_false_iff_ne] at hc
      exact ⟨hc.1.1.1, hc.1.2, beq_eq_false_iff_ne.mp hc.2⟩
    · decide
  refine ⟨fun d hd => ?_, fun s d tail heq hs => ?_⟩
  · cases hd
    exact hplain.1
  · cases heq
    obtain rfl | rfl := hs
    · exact absurd rfl hplain.2.1
    · exact absurd rfl hplain.2.2

theorem apart_cons {c : Char} {rest : List Char} (hc : Lexer.isNumberChar c = false) :
    Apart (c :: rest) := by
  refine ⟨endsNumber_cons (.inl hc), ?_⟩
  rintro h
  cases h
  cases hc

theorem apart_space {rest : List Char} : Apart (" ".toList ++ rest) :=
  apart_cons rfl

theorem apart_symbol (sign : Symbol) {rest : List Char}
    (hsign : sign.spelling.toList.head?.any Lexer.isNumberChar = false) :
    Apart (sign.spelling.toList ++ rest) := by
  obtain ⟨c, tail, h⟩ := List.exists_cons_of_ne_nil (isToken_symbol sign).ne_nil
  rw [h] at hsign ⊢
  exact apart_cons hsign

/-- A row of texts with commas between them is written with their pieces. -/
theorem printed_commas {α : Type} {text : α → String} {pieces : α → List Piece} (glues : α → Mishap → Prop)
    {l : List α}
    (hl : ∀ a ∈ l, ∀ {rest ps glued}, Apart rest → Printed rest ps glued →
      Printed ((text a).toList ++ rest) (pieces a ++ ps) (fun m => glues a m ∨ glued m))
    {rest : List Char} {ps : List Piece} {glued : Mishap → Prop} (hrest : Apart rest)
    (h : Printed rest ps glued) :
    Printed ((", ".intercalate (l.map text)).toList ++ rest) (commaPieces (l.map pieces) ++ ps)
      (fun m => (∃ a ∈ l, glues a m) ∨ glued m) := by
  induction l with
  | nil => exact h.congr fun m => by simp
  | cons a l ih =>
      have ih := ih fun b hb => hl b (List.mem_cons_of_mem a hb)
      cases l with
      | nil =>
          have hone := hl a List.mem_cons_self hrest h
          refine Printed.congr ?_ (fun m => (by simp : glues a m ∨ glued m ↔ _))
          simpa [commaPieces] using hone
      | cons b l =>
          have htext : (", ".intercalate ((a :: b :: l).map text)).toList = (text a).toList ++
              (Symbol.comma.spelling.toList ++ (" ".toList ++
                (", ".intercalate ((b :: l).map text)).toList)) := by
            rw [List.map_cons, List.map_cons, String.intercalate_cons_cons, String.toList_append,
              String.toList_append, List.append_assoc]
            rfl
          have hone := hl a List.mem_cons_self (apart_symbol .comma rfl) (ih.space.inert .comma fun _ => rfl)
          rw [htext]
          simp only [List.map_cons, commaPieces_cons_cons, List.append_assoc, List.cons_append] at hone ⊢
          exact hone.congr fun m => by simp [or_assoc]

/-! ## Members of digits -/

/-- Whether a form is a literal of nothing but decimal digits. -/
def ExprNode.isDecimal {ρ : Type} : ExprNode ρ → Bool
  | literal (.int text) => text.toList.all Char.isDigit
  | _ => false

theorem ExprNode.isDecimal_map {ρ τ : Type} (f : ρ → τ) (e : ExprNode ρ) :
    (e.map f).isDecimal = e.isDecimal := by
  cases e with
  | literal value => cases value <;> rfl
  | _ => rfl

/-- Whether a form is a member of a literal of nothing but decimal digits. -/
def ExprNode.isGlued {ε : Type} : ExprNode (Expr ε) → Bool
  | member base _ => base.form.isDecimal
  | _ => false

/-- The text of a form that is a member of decimal digits: it reads as one number. -/
def ExprNode.gluedText? {ε : Type} : ExprNode (Expr ε) → Option (List Char)
  | member (.node _ (.literal (.int digits))) field =>
    if digits.toList.all Char.isDigit then some (gluedText digits.toList field.toList) else none
  | _ => none

theorem ExprNode.isSome_gluedText? {ε : Type} (form : ExprNode (Expr ε)) :
    form.gluedText?.isSome = form.isGlued := by
  cases form with
  | member base field =>
      obtain ⟨tag, form⟩ := base
      cases form with
      | literal value =>
          cases value with
          | int digits =>
              rw [gluedText?, isGlued, Expr.form, isDecimal]
              cases digits.toList.all Char.isDigit <;> rfl
          | _ => rfl
      | _ => rfl
  | _ => rfl

/-- Whether something happens to the text of a form. -/
def ExprNode.suffers {ε : Type} (m : Mishap) (form : ExprNode (Expr ε)) : Bool :=
  form.gluedText?.any m.befalls

theorem ExprNode.suffers_glued {ε : Type} (form : ExprNode (Expr ε)) :
    form.suffers .glued = form.isGlued := by
  rw [← isSome_gluedText?, suffers]
  cases form.gluedText? <;> rfl

namespace Expr

variable {ε : Type}

/-- Some member in an expression is one of decimal digits. -/
def Glues (e : Expr ε) : Prop :=
  ∃ d ∈ e.subexprs, d.form.isGlued = true

/-- Something happens to a member in the text of an expression. -/
def Suffers (m : Mishap) (e : Expr ε) : Prop :=
  ∃ d ∈ e.subexprs, d.form.suffers m = true

theorem suffers_glued {e : Expr ε} : e.Suffers .glued ↔ e.Glues := by
  simp only [Suffers, Glues, ExprNode.suffers_glued]

theorem suffers_node {m : Mishap} {tag : ε} {form : ExprNode (Expr ε)} :
    (node tag form).Suffers m ↔ form.suffers m = true ∨ ∃ c ∈ form.children, c.Suffers m := by
  simp only [Suffers, subexprs_node, List.mem_cons, List.mem_flatMap, exists_eq_or_imp]
  refine or_congr Iff.rfl ⟨?_, ?_⟩
  · rintro ⟨d, ⟨c, hc, hd⟩, hglued⟩
    exact ⟨c, hc, d, hd, hglued⟩
  · rintro ⟨c, hc, d, hd, hglued⟩
    exact ⟨d, ⟨c, hc, hd⟩, hglued⟩

/-! ## Expressions -/

/-- A text may stand behind an expression that is printed at a place: what accesses it stands behind
one that binds tightly enough, and that is not made of digits alone. -/
structure Follows (required : Nat) (form : ExprNode (Expr ε)) (rest : List Char) : Prop where
  number : EndsNumber rest
  point : rest.head? = some '.' → Precedence.access ≤ required ∧ form.isDecimal = false

theorem Follows.of_apart {required : Nat} {form : ExprNode (Expr ε)} {rest : List Char}
    (h : Apart rest) : Follows required form rest :=
  ⟨h.number, fun hpoint => absurd hpoint h.point⟩

theorem printed_literal {value : Literal} (hvalue : value.IsGenuine) {required : Nat}
    {rest : List Char} {ps : List Piece} {glued : Mishap → Prop}
    (hrest : Follows required (.literal value : ExprNode (Expr Unit)) rest)
    (h : Printed rest ps glued) :
    Printed (value.text.toList ++ rest) (textPiece value.text :: ps) glued := by
  cases value with
  | int text =>
      change Printed (text.toList ++ rest) (textPiece text :: ps) glued
      rw [textPiece, IsToken.kindOf_eq hvalue]
      refine h.token hvalue fun d hd => Bool.or_eq_false_iff.mpr ⟨hrest.number.word d hd, ?_⟩
      by_cases hpoint : d = '.'
      · subst hpoint
        rw [show text.toList.all Char.isDigit = false from (hrest.point hd).2, Bool.and_false]
      · rw [beq_eq_false_iff_ne.mpr hpoint, Bool.false_and]
  | uint text =>
      change Printed (text.toList ++ rest) (textPiece text :: ps) glued
      rw [textPiece, IsToken.kindOf_eq hvalue]
      exact h.token hvalue hrest.number.word
  | float text =>
      change Printed (text.toList ++ rest) (textPiece text :: ps) glued
      rw [textPiece, IsToken.kindOf_eq hvalue]
      exact h.token hvalue hrest.number.word
  | bool value =>
      cases value with
      | true =>
          have hkeyword := h.keyword .kwTrue hrest.number.word
          rwa [Keyword.piece, ← (isToken_keyword .kwTrue).kindOf_eq] at hkeyword
      | false =>
          have hkeyword := h.keyword .kwFalse hrest.number.word
          rwa [Keyword.piece, ← (isToken_keyword .kwFalse).kindOf_eq] at hkeyword

/-- The pieces of a form whose own place asks for nothing. -/
def formPieces (form : ExprNode (Expr Unit)) : List Piece :=
  (node () (explicitParts form)).pieces

theorem piecesAt_node (required : Nat) (tag : Unit) (form : ExprNode (Expr Unit)) :
    (node tag form).piecesAt required =
      if form.precedence < required then
        Symbol.lParen.piece :: (formPieces form ++ [Symbol.rParen.piece])
      else formPieces form := by
  rw [piecesAt, explicit_node, enclosed]
  split <;> rfl

/-- The text of an expression at a place is written with its pieces there. -/
def IsPrinted (e : Expr Unit) : Prop :=
  ∀ (required : Nat) {rest : List Char} {ps : List Piece} {glued : Mishap → Prop},
    Follows required e.form rest → Printed rest ps glued →
      Printed ((e.print required).toList ++ rest) (e.piecesAt required ++ ps)
        (fun m => e.Suffers m ∨ glued m)

/-- The first character of an operand: it goes on no operator before it. -/
def StartsOperand (text : List Char) : Prop :=
  ∃ c tail, text = c :: tail ∧ (Lexer.isWordChar c = true ∨ c = '.' ∨ c = '(')

theorem StartsOperand.append {text : List Char} (h : StartsOperand text) (rest : List Char) :
    StartsOperand (text ++ rest) := by
  obtain ⟨c, tail, rfl, hc⟩ := h
  exact ⟨c, tail ++ rest, rfl, hc⟩

theorem StartsOperand.goesOn {text : List Char} (h : StartsOperand text) {op : UnaryOp} :
    ∀ d ∈ text.head?, op.symbol.goesOn d = false := by
  obtain ⟨c, tail, rfl, hc⟩ := h
  rintro d hd
  cases hd
  have hne : c ≠ '+' ∧ c ≠ '-' ∧ c ≠ '=' := by
    refine ⟨?_, ?_, ?_⟩
    all_goals
      rintro rfl
      obtain hc | hc | hc := hc <;> cases hc
  cases op <;> simp [UnaryOp.symbol, Symbol.goesOn, hne]

theorem startsOperand_token {kind : TokenKind} {text : List Char} (htext : IsToken kind text)
    (hdirective : kind ≠ .directive) (hsymbol : ∀ sign, kind ≠ .symbol sign) :
    StartsOperand text := by
  obtain ⟨c, tail, rfl, hrecognise⟩ := htext.recognised
  refine ⟨c, tail, rfl, ?_⟩
  have hrecognised := Lexer.recognised_of_recognise hrecognise htext.wellFormed
  generalize tail.length = n at hrecognised
  cases hrecognised with
  | directive hc => exact absurd rfl hdirective
  | number hc hnumber => exact .inl (Lexer.isWordChar_of_isDigit hc)
  | word hc => exact .inl (Lexer.isWordChar_of_isWordStart hc)
  | point hc hrest hpoint => exact .inr (.inl hc)
  | symbol hc hhash hpoint hsign => exact absurd rfl (hsymbol _)

theorem startsOperand_literal {value : Literal} (hvalue : value.IsGenuine) :
    StartsOperand value.text.toList := by
  cases value with
  | int text => exact startsOperand_token hvalue (by simp) (by simp)
  | uint text => exact startsOperand_token hvalue (by simp) (by simp)
  | float text => exact startsOperand_token hvalue (by simp) (by simp)
  | bool value =>
      cases value with
      | true => exact startsOperand_token (isToken_keyword .kwTrue) (by simp) (by simp)
      | false => exact startsOperand_token (isToken_keyword .kwFalse) (by simp) (by simp)

theorem startsOperand_name {text : String} (htext : IsName text) : StartsOperand text.toList :=
  startsOperand_token htext (by simp) (by simp)

theorem startsOperand_print {e : Expr Unit} (hvalid : e.Valid Literal.IsGenuine) {required : Nat}
    (hrequired : Precedence.unary ≤ required)
    (hop : e.startsWithOperator = true → Precedence.unary < required) :
    StartsOperand (e.print required).toList := by
  induction e generalizing required with
  | node tag form ih =>
      obtain ⟨hform, hparts⟩ := valid_node.mp hvalid
      rw [print_node, enclose]
      by_cases hlt : form.precedence < required
      · rw [if_pos hlt, String.toList_append, String.toList_append]
        exact ⟨'(', _, rfl, .inr (.inr rfl)⟩
      rw [if_neg hlt]
      have hbase : ∀ base ∈ form.children, StartsOperand (base.print Precedence.access).toList :=
        fun base hbase => ih base hbase (hparts base hbase) (by decide) fun _ => by decide
      cases form with
      | literal value => exact startsOperand_literal hform
      | ident name => exact startsOperand_name hform
      | paren inner =>
          rw [formText, String.toList_append, String.toList_append]
          exact ⟨'(', _, rfl, .inr (.inr rfl)⟩
      | unary op operand =>
          cases htrailing : op.isTrailing with
          | true =>
              rw [formText, if_pos htrailing, String.toList_append, operandPrecedence,
                if_pos htrailing]
              exact (hbase operand List.mem_cons_self).append _
          | false =>
              refine absurd (hop (by simp [startsWithOperator, htrailing])) ?_
              simpa [ExprNode.precedence, UnaryOp.precedence, htrailing] using hlt
      | binary op lhs rhs =>
          have hop : op.precedence < Precedence.unary := by cases op <;> decide
          exact absurd (Nat.lt_of_lt_of_le hop hrequired) hlt
      | ternary cond onTrue onFalse =>
          have hternary : Precedence.conditional < Precedence.unary := by decide
          exact absurd (Nat.lt_of_lt_of_le hternary hrequired) hlt
      | call callee args =>
          rw [formText, String.toList_append, String.toList_append, String.toList_append]
          exact (((startsOperand_name hform).append _).append _).append _
      | member base field =>
          rw [formText, String.toList_append, String.toList_append]
          exact ((hbase base List.mem_cons_self).append _).append _
      | index base offset =>
          rw [formText, String.toList_append, String.toList_append, String.toList_append]
          exact (((hbase base List.mem_cons_self).append _).append _).append _

theorem goesOn_space (sign : Symbol) (rest : List Char) :
    ∀ d ∈ (" ".toList ++ rest).head?, sign.goesOn d = false := by
  rintro d hd
  cases hd
  cases sign <;> rfl

/-- What stands behind a form that binds less tightly than an access accesses nothing. -/
theorem Follows.apart {required : Nat} {form : ExprNode (Expr ε)} {rest : List Char}
    (h : Follows required form rest) (hlt : required < Precedence.access) : Apart rest :=
  ⟨h.number, fun hpoint => Nat.not_le_of_lt hlt (h.point hpoint).1⟩

theorem formPieces_leading {op : UnaryOp} (h : op.isTrailing = false) (operand : Expr Unit) :
    formPieces (.unary op operand) =
      op.symbol.piece :: operand.piecesAt (operandPrecedence op operand) :=
  pieces_leading h

theorem formPieces_trailing {op : UnaryOp} (h : op.isTrailing = true) (operand : Expr Unit) :
    formPieces (.unary op operand) =
      operand.piecesAt (operandPrecedence op operand) ++ [op.symbol.piece] :=
  pieces_trailing h

theorem formPieces_call (callee : String) (args : List (Expr Unit)) :
    formPieces (.call callee args) = namePiece callee :: Symbol.lParen.piece ::
      (commaPieces (args.map (piecesAt Precedence.assignment)) ++ [Symbol.rParen.piece]) := by
  rw [formPieces, explicitParts, pieces_call, List.map_map]
  rfl

theorem apart_trailing {op : UnaryOp} (h : op.isTrailing = true) (rest : List Char) :
    Apart (op.symbol.spelling.toList ++ rest) := by
  have hspelling : op.symbol.spelling.toList = ['+', '+'] ∨ op.symbol.spelling.toList = ['-', '-'] := by
    cases op <;> first | exact .inl rfl | exact .inr rfl | cases h
  refine ⟨⟨?_, ?_⟩, ?_⟩
  all_goals obtain hspelling | hspelling := hspelling <;> rw [hspelling]
  all_goals simp [EndsWord, Lexer.isWordChar]

variable {rest : List Char} {ps : List Piece} {glued : Mishap → Prop}

theorem printed_unary {op : UnaryOp} {operand : Expr Unit} (hvalid : operand.Valid Literal.IsGenuine)
    (hoperand : IsPrinted operand) (hrest : Follows op.precedence (.unary op operand) rest)
    (h : Printed rest ps glued) :
    Printed ((formText (.unary op operand)).toList ++ rest) (formPieces (.unary op operand) ++ ps)
      (fun m => operand.Suffers m ∨ glued m) := by
  cases htrailing : op.isTrailing with
  | true =>
      have hsign : ∀ d, op.symbol.goesOn d = false := by
        cases op <;> first | exact fun _ => rfl | cases htrailing
      have hwhole := hoperand (operandPrecedence op operand) (.of_apart (apart_trailing htrailing rest))
        (h.inert op.symbol hsign)
      rwa [formText, if_pos htrailing, formPieces_trailing htrailing, String.toList_append,
        List.append_assoc, List.append_assoc, ← UnaryOp.spelling_symbol]
  | false =>
      have hprecedence : op.precedence < Precedence.access := by
        rw [UnaryOp.precedence, htrailing, if_neg Bool.false_ne_true]
        decide
      have hstarts : StartsOperand (operand.print (operandPrecedence op operand)).toList := by
        refine startsOperand_print hvalid ?_ fun hop => ?_
        · rw [operandPrecedence, htrailing, if_neg Bool.false_ne_true]
          split <;> decide
        · rw [operandPrecedence, htrailing, if_neg Bool.false_ne_true, if_pos hop]
          decide
      have hwhole := (hoperand (operandPrecedence op operand) (.of_apart (hrest.apart hprecedence))
        h).symbol op.symbol (hstarts.append rest).goesOn
      rwa [formText, htrailing, if_neg Bool.false_ne_true, formPieces_leading htrailing,
        String.toList_append, List.append_assoc, ← UnaryOp.spelling_symbol]

theorem printed_binary {op : BinaryOp} {lhs rhs : Expr Unit} (hlhs : IsPrinted lhs)
    (hrhs : IsPrinted rhs) (hrest : Apart rest) (h : Printed rest ps glued) :
    Printed ((formText (.binary op lhs rhs)).toList ++ rest) (formPieces (.binary op lhs rhs) ++ ps)
      (fun m => lhs.Suffers m ∨ rhs.Suffers m ∨ glued m) := by
  have hspaced := (hrhs (rhsPrecedence op) (.of_apart hrest) h).space
  have hsymbol := hspaced.symbol op.symbol (goesOn_space _ _)
  have hpieces : formPieces (.binary op lhs rhs) ++ ps = lhs.piecesAt (lhsPrecedence op) ++
      (op.symbol.piece :: (rhs.piecesAt (rhsPrecedence op) ++ ps)) :=
    List.append_assoc _ _ _
  rw [hpieces, formText, separator, String.toList_append, String.toList_append, List.append_assoc,
    List.append_assoc]
  by_cases hcomma : op = .comma
  · subst hcomma
    exact hlhs _ (.of_apart (apart_symbol .comma rfl)) hsymbol
  · rw [if_neg hcomma, String.toList_append, String.toList_append, List.append_assoc,
      List.append_assoc, ← BinaryOp.spelling_symbol]
    exact hlhs _ (.of_apart apart_space) hsymbol.space

/-- A member with a text that reads as one number is one of decimal digits. -/
theorem exists_of_gluedText? {base : Expr ε} {field : String} {text : List Char}
    (h : (ExprNode.member base field).gluedText? = some text) : ∃ tag digits,
      base = node tag (.literal (.int digits)) ∧ digits.toList.all Char.isDigit = true ∧
        gluedText digits.toList field.toList = text := by
  obtain ⟨tag, form⟩ := base
  cases form with
  | literal value =>
      cases value with
      | int digits =>
          rw [ExprNode.gluedText?] at h
          split at h
          next hdigits => exact ⟨tag, digits, rfl, hdigits, Option.some.inj h⟩
          next => cases h
      | _ => cases h
  | _ => cases h

theorem printed_member {base : Expr Unit} {field : String} (hvalid : base.Valid Literal.IsGenuine)
    (hfield : IsName field) (hbase : IsPrinted base) (hrest : EndsNumber rest)
    (h : Printed rest ps glued) :
    Printed ((formText (.member base field)).toList ++ rest) (formPieces (.member base field) ++ ps)
      (fun m => ((ExprNode.member base field).suffers m = true ∨ base.Suffers m) ∨ glued m) := by
  have hpieces : formPieces (.member base field) ++ ps =
      base.piecesAt Precedence.access ++ (Symbol.dot.piece :: namePiece field :: ps) :=
    List.append_assoc _ _ _
  rw [hpieces, formText, String.toList_append, String.toList_append, List.append_assoc,
    List.append_assoc]
  cases htext : (ExprNode.member base field).gluedText? with
  | some text =>
      obtain ⟨tag, digits, rfl, hdecimal, rfl⟩ := exists_of_gluedText? htext
      have hdigits : IsToken .intLiteral digits.toList := (valid_node.mp hvalid).1
      have hwhole := h.gluing hdigits hdecimal hfield hrest
      rw [← hdigits.kindOf_eq] at hwhole
      refine hwhole.congr fun m => ?_
      rw [ExprNode.suffers, htext, suffers_node]
      simp [ExprNode.suffers, ExprNode.gluedText?, ExprNode.children]
  | none =>
      have hdecimal : base.form.isDecimal = false := by
        have hnone := (ExprNode.member base field).isSome_gluedText?
        rw [htext] at hnone
        exact hnone.symm
      have hpoint : ∀ d ∈ (field.toList ++ rest).head?, Symbol.dot.goesOn d = false := by
        obtain ⟨c, tail, htext⟩ := List.exists_cons_of_ne_nil (IsToken.ne_nil hfield)
        rintro d hd
        rw [htext] at hd
        cases hd
        exact Lexer.isDigit_of_isWordStart ((isWord_of_isToken hfield).2 c (by rw [htext]; rfl))
      have hfollows : Follows Precedence.access base.form (".".toList ++ (field.toList ++ rest)) :=
        ⟨endsNumber_cons (.inr rfl), fun _ => ⟨Nat.le_refl _, hdecimal⟩⟩
      have hwhole := hbase Precedence.access hfollows ((h.name hfield hrest.word).symbol .dot hpoint)
      refine hwhole.congr fun m => ?_
      rw [ExprNode.suffers, htext]
      simp

theorem printed_index {base offset : Expr Unit} (hbase : IsPrinted base) (hoffset : IsPrinted offset)
    (h : Printed rest ps glued) :
    Printed ((formText (.index base offset)).toList ++ rest) (formPieces (.index base offset) ++ ps)
      (fun m => base.Suffers m ∨ offset.Suffers m ∨ glued m) := by
  have hinner := hoffset 0 (.of_apart (apart_symbol .rBracket rfl)) (h.inert .rBracket fun _ => rfl)
  have hwhole := hbase Precedence.access (.of_apart (apart_symbol .lBracket rfl))
    (hinner.inert .lBracket fun _ => rfl)
  have hpieces : formPieces (.index base offset) ++ ps = base.piecesAt Precedence.access ++
      (Symbol.lBracket.piece :: (offset.piecesAt 0 ++ (Symbol.rBracket.piece :: ps))) := by
    simp only [formPieces, explicitParts, pieces_index, List.append_assoc, List.cons_append]
    rfl
  rw [hpieces, formText, String.toList_append, String.toList_append, String.toList_append,
    List.append_assoc, List.append_assoc, List.append_assoc]
  exact hwhole

theorem printed_ternary {cond onTrue onFalse : Expr Unit} (hcond : IsPrinted cond)
    (honTrue : IsPrinted onTrue) (honFalse : IsPrinted onFalse) (hrest : Apart rest)
    (h : Printed rest ps glued) :
    Printed ((formText (.ternary cond onTrue onFalse)).toList ++ rest)
      (formPieces (.ternary cond onTrue onFalse) ++ ps)
      (fun m => cond.Suffers m ∨ onTrue.Suffers m ∨ onFalse.Suffers m ∨ glued m) := by
  have hlast := honFalse Precedence.conditional (.of_apart hrest) h
  have hmiddle := honTrue Precedence.assignment (.of_apart apart_space)
    (hlast.space.inert .colon fun _ => rfl).space
  have hwhole := hcond (Precedence.conditional + 1) (.of_apart apart_space)
    (hmiddle.space.inert .question fun _ => rfl).space
  have hpieces : formPieces (.ternary cond onTrue onFalse) ++ ps =
      cond.piecesAt (Precedence.conditional + 1) ++ (Symbol.question.piece ::
        (onTrue.piecesAt Precedence.assignment ++ (Symbol.colon.piece ::
          (onFalse.piecesAt Precedence.conditional ++ ps)))) := by
    simp only [formPieces, explicitParts, pieces_ternary, List.append_assoc, List.cons_append]
    rfl
  rw [hpieces, formText]
  simp only [String.toList_append, List.append_assoc]
  exact hwhole

theorem printed_call {callee : String} {args : List (Expr Unit)} (hcallee : IsName callee)
    (hargs : ∀ e ∈ args, IsPrinted e) (h : Printed rest ps glued) :
    Printed ((formText (.call callee args)).toList ++ rest) (formPieces (.call callee args) ++ ps)
      (fun m => (∃ e ∈ args, e.Suffers m) ∨ glued m) := by
  have hrow := printed_commas (fun e m => e.Suffers m)
    (fun e he _ _ _ hrest h => hargs e he Precedence.assignment (.of_apart hrest) h)
    (apart_symbol .rParen rfl) (h.inert .rParen fun _ => rfl)
  have hwhole := (hrow.inert .lParen fun _ => rfl).name hcallee (apart_symbol .lParen rfl).word
  rw [formPieces_call, formText]
  simp only [String.toList_append, List.append_assoc, List.cons_append]
  exact hwhole

/-- The text of a form is written with its pieces, if the texts of its parts are. -/
theorem printed_formText {form : ExprNode (Expr Unit)} (hvalid : form.Valid Literal.IsGenuine)
    (hparts : ∀ c ∈ form.children, c.Valid Literal.IsGenuine) (ih : ∀ c ∈ form.children, IsPrinted c)
    (hrest : Follows form.precedence form rest) (h : Printed rest ps glued) :
    Printed ((formText form).toList ++ rest) (formPieces form ++ ps)
      (fun m => (form.suffers m = true ∨ ∃ c ∈ form.children, c.Suffers m) ∨ glued m) := by
  cases form with
  | literal value =>
      exact (printed_literal hvalid hrest h).congr fun m => by
        simp [ExprNode.suffers, ExprNode.gluedText?, ExprNode.children]
  | ident name =>
      exact (h.name hvalid hrest.number.word).congr fun m => by
        simp [ExprNode.suffers, ExprNode.gluedText?, ExprNode.children]
  | paren inner =>
      have hinner := ih inner List.mem_cons_self 0 (.of_apart (apart_symbol .rParen rfl))
        (h.inert .rParen fun _ => rfl)
      have hpieces : formPieces (.paren inner) ++ ps =
          Symbol.lParen.piece :: (inner.piecesAt 0 ++ (Symbol.rParen.piece :: ps)) :=
        congrArg (List.cons _) (List.append_assoc _ _ _)
      rw [hpieces, formText, String.toList_append, String.toList_append, List.append_assoc,
        List.append_assoc]
      exact (hinner.inert .lParen fun _ => rfl).congr fun m => by
        simp [ExprNode.suffers, ExprNode.gluedText?, ExprNode.children]
  | unary op operand =>
      exact (printed_unary (hparts operand List.mem_cons_self) (ih operand List.mem_cons_self) hrest
        h).congr fun m => by simp [ExprNode.suffers, ExprNode.gluedText?, ExprNode.children]
  | binary op lhs rhs =>
      have hop : op.precedence < Precedence.access := by cases op <;> decide
      exact (printed_binary (ih lhs (by simp [ExprNode.children])) (ih rhs (by simp [ExprNode.children]))
        (hrest.apart hop) h).congr fun m => by
          simp [ExprNode.suffers, ExprNode.gluedText?, ExprNode.children, or_assoc]
  | ternary cond onTrue onFalse =>
      have hternary : Precedence.conditional < Precedence.access := by decide
      exact (printed_ternary (ih cond (by simp [ExprNode.children]))
        (ih onTrue (by simp [ExprNode.children])) (ih onFalse (by simp [ExprNode.children]))
        (hrest.apart hternary) h).congr fun m => by
          simp [ExprNode.suffers, ExprNode.gluedText?, ExprNode.children, or_assoc]
  | call callee args =>
      exact (printed_call hvalid ih h).congr fun m => by
        simp [ExprNode.suffers, ExprNode.gluedText?, ExprNode.children]
  | member base field =>
      exact (printed_member (hparts base List.mem_cons_self) hvalid (ih base List.mem_cons_self)
        hrest.number h).congr fun m => by
          simp [ExprNode.suffers, ExprNode.gluedText?, ExprNode.children]
  | index base offset =>
      exact (printed_index (ih base (by simp [ExprNode.children]))
        (ih offset (by simp [ExprNode.children])) h).congr
        fun m => by simp [ExprNode.suffers, ExprNode.gluedText?, ExprNode.children, or_assoc]

/-- The text of an expression is written with its pieces. -/
theorem isPrinted {e : Expr Unit} (h : e.Valid Literal.IsGenuine) : IsPrinted e := by
  induction e with
  | node tag form ih =>
      obtain ⟨hform, hparts⟩ := valid_node.mp h
      have hwhole : ∀ {rest ps glued}, Follows form.precedence form rest → Printed rest ps glued →
          Printed ((formText form).toList ++ rest) (formPieces form ++ ps)
            (fun m => (node tag form).Suffers m ∨ glued m) := fun hrest h =>
        (printed_formText hform hparts (fun c hc => ih c hc (hparts c hc)) hrest h).congr
          fun m => or_congr_left suffers_node.symm
      intro required rest ps glued hrest h
      rw [print_node, piecesAt_node, enclose]
      by_cases hlt : form.precedence < required
      · rw [if_pos hlt, if_pos hlt, String.toList_append, String.toList_append, List.append_assoc,
          List.append_assoc, List.cons_append, List.append_assoc]
        exact (hwhole (.of_apart (apart_symbol .rParen rfl)) (h.inert .rParen fun _ => rfl)).inert .lParen
          fun _ => rfl
      · rw [if_neg hlt, if_neg hlt]
        refine hwhole ⟨hrest.number, fun hpoint => ?_⟩ h
        exact ⟨Nat.le_trans (hrest.point hpoint).1 (Nat.le_of_not_lt hlt), (hrest.point hpoint).2⟩

end Expr

end ShaderReducer
