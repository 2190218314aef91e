import ShaderReducer.Proofs.Opportunity.InlineTypes
import ShaderReducer.Proofs.Opportunity.Pruning
import ShaderReducer.Proofs.Parser.RoundTrip
import ShaderReducer.Proofs.Shader.Valid

/-!
# Shaders read back from their text

What a change puts into a shader can be read if the shader could be: constants are tokens, names that
are made up are names, and statements keep their roles. So all that is reached from a program that
was parsed is read back from its text, but for the few cases in which the text itself is another one.
-/

namespace ShaderReducer

/-! ## Names that are made up -/

theorem Keyword.isAlpha_spelling (word : Keyword) : ∀ c ∈ word.spelling.toList, c.isAlpha = true :=
  List.all_eq_true.mp (by cases word <;> rfl)

/-- A text that holds more than letters is no reserved word. -/
theorem Keyword.ofSpelling?_eq_none {text : String} {c : Char} (hc : c ∈ text.toList)
    (halpha : c.isAlpha = false) : ofSpelling? text = none := by
  refine List.find?_eq_none.mpr fun word _ heq => ?_
  rw [← eq_of_beq heq] at hc
  rw [word.isAlpha_spelling c hc] at halpha
  cases halpha

/-- A name goes on with characters of words, if not all of them are letters. -/
theorem IsName.append {name more : String} (hname : IsName name)
    (hmore : ∀ c ∈ more.toList, Lexer.isWordChar c = true) (mark : Char) (hmark : mark ∈ more.toList)
    (halpha : mark.isAlpha = false) : IsName (name ++ more) := by
  obtain ⟨hchars, hstart⟩ := isWord_of_isToken hname
  obtain ⟨c, tail, htext⟩ := List.exists_cons_of_ne_nil hname.ne_nil
  have happend : (name ++ more).toList = c :: (tail ++ more.toList) := by
    rw [String.toList_append, htext, List.cons_append]
  rw [IsName, happend]
  rw [htext] at hchars hstart
  refine isToken_name (hstart c rfl) (fun d hd => ?_) ?_
  · rcases List.mem_append.mp hd with hd | hd
    · exact hchars d (List.mem_cons_of_mem c hd)
    · exact hmore d hd
  · rw [← happend, String.ofList_toList]
    refine Keyword.ofSpelling?_eq_none (c := mark) ?_ halpha
    rw [String.toList_append]
    exact List.mem_append_right _ hmark

theorem isAlpha_of_isDigit {c : Char} (h : c.isDigit = true) : c.isAlpha = false := by
  refine eq_false_of_ne_true fun halpha => ?_
  simp only [Char.isDigit, Lexer.isAlpha_iff, Bool.and_eq_true, decide_eq_true_eq, ge_iff_le,
    UInt32.le_iff_toNat_le] at h halpha
  have h9 : ('9' : Char).val.toNat = 57 := rfl
  have hA : ('A' : Char).val.toNat = 65 := rfl
  have ha : ('a' : Char).val.toNat = 97 := rfl
  omega

theorem IsName.append_toString {name : String} (hname : IsName name) (n : Nat) :
    IsName (name ++ toString n) := by
  have hdigits : ∀ c ∈ (toString n).toList, c.isDigit = true := fun c => Text.isDigit_toString
  obtain ⟨c, tail, htext⟩ := List.exists_cons_of_ne_nil (Text.toString_ne_nil n)
  have hc : c ∈ (toString n).toList := by
    rw [htext]
    exact List.mem_cons_self
  exact hname.append (fun d hd => Lexer.isWordChar_of_isDigit (hdigits d hd)) c hc
    (isAlpha_of_isDigit (hdigits c hc))

namespace InlineField

variable {field : String}

theorem isName_joinedName (hfield : IsName field) {inner : FieldDecl} (hinner : IsName inner.name) :
    IsName (joinedName field inner) := by
  rw [joinedName]
  split
  next hstart =>
    obtain ⟨rest, hrest⟩ := List.isPrefixOf_iff_prefix.mp hstart
    refine hfield.append (isWord_of_isToken hinner).1 '_' ?_ rfl
    rw [← hrest]
    exact List.mem_append_left rest List.mem_cons_self
  next => exact hinner

theorem isName_numbered {preferred : String} (h : IsName preferred) (n : Nat) :
    IsName (numbered preferred n) := by
  rw [numbered]
  refine (h.append ?_ '_' List.mem_cons_self rfl).append_toString n
  exact List.forall_mem_singleton.mpr rfl

theorem isName_freeName {preferred name : String} (hpreferred : IsName preferred)
    (hname : IsName name) (taken : List String) (supply : NameSupply) (attempts : Nat) :
    IsName (freeName taken preferred name supply attempts).1 := by
  induction attempts generalizing name supply with
  | zero => exact hname
  | succ attempts ih =>
      rw [freeName]
      split
      next => exact ih (isName_numbered hpreferred supply.next) _
      next => exact hname

/-- Fields that can be read still can under the names that they are given. -/
theorem valid_renamed (hfield : IsName field) {fields : List FieldDecl}
    (hfields : ∀ f ∈ fields, f.Valid) (taken : List String) (supply : NameSupply) :
    ∀ f ∈ (renamed field taken supply fields).1, f.Valid := by
  induction fields generalizing taken supply with
  | nil => exact nofun
  | cons inner fields ih =>
      obtain ⟨hinner, hrest⟩ := List.forall_mem_cons.mp hfields
      have hjoined := isName_joinedName hfield hinner.name
      rw [renamed]
      refine List.forall_mem_cons.mpr ⟨⟨hinner.type, ?_, hinner.arraySize⟩, ih hrest _ _⟩
      exact isName_freeName hjoined hjoined _ _ _

end InlineField

/-! ## Constants -/

namespace Constant

/-- A constant that can be read. -/
def Valid : Constant → Prop
  | scalar value => value.IsGenuine
  | vector constructor element => IsName constructor ∧ element.IsGenuine

theorem isGenuine_of_element? {unsigned : Bool} {kind : ScalarKind} {value : Literal}
    (h : element? unsigned kind = some value) : value.IsGenuine := by
  cases kind with
  | int =>
      cases h
      exact isToken_of_recognise rfl rfl (by simp)
  | uint =>
      cases unsigned with
      | true =>
          cases h
          exact isToken_of_recognise rfl rfl (by simp)
      | false => cases h
  | float =>
      cases h
      exact isToken_of_recognise rfl rfl (by simp)
  | bool =>
      cases h
      trivial

theorem isName_vector (kind : ScalarKind) (width : Nat) : IsName (Ty.vector kind width).text := by
  refine IsName.append_toString ?_ width
  have hvec : ∀ letter : String, letter.toList = [] ∨ letter.toList = ['b'] ∨
      letter.toList = ['i'] ∨ letter.toList = ['u'] → IsName (letter ++ "vec") := by
    rintro letter (h | h | h | h)
    all_goals
      rw [IsName, String.toList_append, h]
      exact isToken_of_recognise rfl rfl (by simp)
  exact hvec _ (by cases kind <;> simp [Ty.vectorLetter])

/-- The constant of a type can be read. -/
theorem valid_of_ofType? {unsigned : Bool} {type : Ty} {constant : Constant}
    (h : ofType? unsigned type = some constant) : constant.Valid := by
  cases type with
  | scalar kind =>
      obtain ⟨value, hvalue, rfl⟩ := Option.map_eq_some_iff.mp h
      exact isGenuine_of_element? hvalue
  | vector kind width =>
      obtain ⟨value, hvalue, rfl⟩ := Option.map_eq_some_iff.mp h
      exact ⟨isName_vector kind width, isGenuine_of_element? hvalue⟩
  | _ => cases h

variable {s : Shader}

theorem exprsValid_apply (h : s.ExprsValid) (target : ExprId) {constant : Constant}
    (hconstant : constant.Valid) : (apply s target constant).ExprsValid := by
  cases constant with
  | scalar value =>
      rw [apply, Shader.replaceWithLeaf_eq]
      exact (h.forgetExprs _).setExpr target hconstant
  | vector constructor element =>
      have helement : (ExprNode.literal element : ExprNode ExprId).Valid Literal.IsGenuine :=
        hconstant.2
      rw [apply_vector, Shader.replaceWithLeaf_eq]
      exact ((h.addExpr helement).forgetExprs _).setExpr target hconstant.1

end Constant

/-- A change that puts in no constant but one that can be read. -/
def Change.Valid : Change → Prop
  | toConstant _ constant => constant.Valid
  | _ => True

namespace Opportunity

theorem valid_of_mem_find {s : Shader} {everywhere : Bool} {kinds : List OpportunityKind}
    {o : Opportunity} (hfind : o ∈ find s everywhere kinds) : o.change.Valid := by
  have hmem := mem_ofKind_of_mem_find hfind
  obtain ⟨depth, change⟩ := o
  cases change with
  | toConstant target constant =>
      obtain ⟨e, constant, type, heq, -, -, hof, -⟩ := Constant.of_mem_find hmem
      cases heq
      exact Constant.valid_of_ofType? hof
  | _ => trivial

end Opportunity

/-! ## Fields -/

namespace InlineField

variable {s : Shader} {outerId : DeclId} {field : String} {plan : Plan} {outer inner : StructDecl}
  {wrapper : FieldDecl}

theorem version_apply (s : Shader) (supply : NameSupply) (outerId : DeclId) (field : String) :
    (apply s supply outerId field).1.version = s.version := by
  have hsplice : ∀ (position : Nat) (calls : List ExprId) (s : Shader),
      (calls.foldl (spliceConstructor position) s).version = s.version := by
    intro position calls s
    refine List.foldlRecOn calls _ (motive := fun t : Shader => t.version = s.version) rfl ?_
    intro t ht call _
    obtain heq | ⟨_, _, _, _, _, _, _, _, heq⟩ := spliceConstructor_cases position t call
    · rwa [heq]
    · rw [heq]
      exact ht
  have hredirect : ∀ (names : List String) (accesses : List Access) (s : Shader),
      (accesses.foldl (redirect names) s).version = s.version := by
    intro names accesses s
    refine List.foldlRecOn accesses _ (motive := fun t : Shader => t.version = s.version) rfl ?_
    intro t ht access _
    rw [redirect_eq]
    exact ht
  obtain heq | ⟨plan, outer, inner, wrapper, taken, -, heq⟩ := apply_cases s supply outerId field
  · rw [heq]
  · rw [heq, hredirect, hsplice]
    rfl

/-- The structures of a plan can be read. -/
theorem Fits.valid_structs (hfits : Fits s outerId field plan outer inner wrapper) (h : s.Valid)
    (houter : outerId ∈ s.decls) : outer.Valid ∧ inner.Valid := by
  refine ⟨?_, ?_⟩
  · have hdecl := h.decls outerId houter
    rwa [Decl.struct?_eq_some.mp hfits.outer_eq] at hdecl
  · have hinner := hfits.inner_mem
    rw [Shader.structDecls_eq] at hinner
    obtain ⟨d, hd, hdecl⟩ := List.mem_filterMap.mp hinner
    have hvalid := h.decls d hd
    rwa [Decl.struct?_eq_some.mp hdecl] at hvalid

theorem length_renamed (field : String) (taken : List String) (supply : NameSupply)
    (fields : List FieldDecl) :
    (renamed field taken supply fields).1.length = fields.length := by
  have h := congrArg List.length (map_type_renamed field taken supply fields)
  rwa [List.length_map, List.length_map] at h

/-- A slot that is changed holds a constructor of the same name, or a member with one of the new
names. -/
theorem Fits.exprsValid_inlined (hfits : Fits s outerId field plan outer inner wrapper)
    (h : s.Grounded) (hexprs : s.ExprsValid) {fields : List FieldDecl}
    (hlength : fields.length = inner.fields.length) (hfields : ∀ f ∈ fields, f.Valid) :
    (inlined s outerId outer plan fields).ExprsValid := by
  intro id hid
  rw [(decls_inlined s outerId outer plan fields).1] at hid
  obtain hsame | ⟨args, args', hcall, hnew⟩ | ⟨a, ha, rfl, hnew⟩ := hfits.expr_inlined h fields id
  · rw [hsame]
    exact hexprs id hid
  · have hold := hexprs id hid
    rw [hcall] at hold
    rw [hnew]
    exact hold
  · obtain ⟨name, base, -, -, -, hposition⟩ := hfits.exists_visit ha
    rw [StructDecl.fieldIndex?, List.findIdx?_eq_some_iff_getElem] at hposition
    obtain ⟨hlt, -⟩ := hposition
    rw [← hlength] at hlt
    rw [hnew, List.getElem?_map, List.getElem?_eq_getElem hlt]
    exact (hfields _ (List.getElem_mem hlt)).name

theorem valid_apply (h : s.Valid) (supply : NameSupply) (hholds : holds s outerId field = true) :
    (apply s supply outerId field).1.Valid := by
  have hgrounded := grounded_apply h.grounded supply outerId field
  have howns := ownsStmts_apply h.ownsStmts supply outerId field
  have hversion := version_apply s supply outerId field
  have hstmts := (same_apply s supply outerId field).2.1
  obtain heq | ⟨plan, outer, inner, wrapper, taken, hfits, heq⟩ :=
    apply_cases s supply outerId field
  · rwa [heq]
  obtain ⟨houter, hinner⟩ := hfits.valid_structs h (mem_decls_of_holds hholds)
  have hfield : IsName field := by
    obtain ⟨hsplit, hname⟩ := hfits.split_fields
    rw [← hname]
    refine (houter.fields wrapper ?_).name
    rw [hsplit]
    exact List.mem_append_right _ List.mem_cons_self
  have hfields := valid_renamed hfield hinner.fields taken supply
  have hlength := length_renamed field taken supply inner.fields
  rw [← inlined] at heq
  rw [heq] at hgrounded howns hversion hstmts ⊢
  obtain ⟨-, -, hdecls, hdecl⟩ :=
    decls_inlined s outerId outer plan (renamed field taken supply inner.fields).1
  refine h.of_stmts_eq hgrounded howns hversion
    (hfits.exprsValid_inlined h.grounded h.exprs hlength hfields) hstmts fun d hd => ?_
  rw [hdecls] at hd
  rw [hdecl, Shader.decl_setDecl]
  split
  next =>
    refine ⟨houter.name, fun f hf => ?_⟩
    rcases List.mem_append.mp hf with hf | hf
    · rcases List.mem_append.mp hf with hf | hf
      · exact houter.fields f (List.mem_of_mem_take hf)
      · exact hfields f hf
    · exact houter.fields f (List.mem_of_mem_drop hf)
  next => exact h.decls d hd

end InlineField

/-! ## Statements -/

theorem Shader.Valid.removeFromBlock {s : Shader} (h : s.Valid) {block stmt : StmtId}
    (hin : s.standsIn block stmt = true) : (s.removeFromBlock block stmt).2.Valid := by
  have hsame := Shader.restated_removeFromBlock s block stmt
  refine h.of_trims (h.grounded.removeFromBlock block stmt)
    (h.ownsStmts.removeFromBlock h.grounded hin) (Shader.version_removeFromBlock s block stmt)
    (h.exprs.congr hsame.size_eq hsame.expr_eq) (fun id hid => ?_) fun d hd => ?_
  · refine ⟨(Shader.mem_liveStmts_of_removeFromBlock hin hid).1, ?_⟩
    obtain heq | ⟨body, hbody, heq⟩ := Shader.stmt_removeFromBlock s block stmt id
    · rw [heq]
      exact .same _
    · rw [heq, hbody]
      exact .block _ _
  · rw [hsame.decls_eq] at hd
    rw [hsame.decl_eq]
    exact h.decls d hd

theorem UnusedVariable.valid_apply {s : Shader} (h : s.Valid) {stmt : StmtId}
    {block : Option StmtId} {name : String} (hholds : holds s stmt block name = true) :
    (apply s stmt block name).Valid := by
  obtain ⟨hlive, ⟨decl, removed, hvars, -⟩, -⟩ := eq_vars_of_holds hholds
  obtain ⟨hdecls, hnodes⟩ := decls_apply s stmt block name
  refine h.of_trims (grounded_apply h.grounded hholds) (ownsStmts_apply h.grounded h.ownsStmts hholds)
    (version_apply s stmt block name) (h.exprs.congr (lightens_apply hholds).size_eq (expr_apply hholds))
    (fun id hid => ?_) fun d hd => ?_
  · obtain ⟨hid, hleaves⟩ := leaves_apply hholds hvars hid
    refine ⟨hid, ?_⟩
    have hnamed := h.stmts stmt hlive
    rw [Shader.StmtValid, hvars] at hnamed
    generalize (apply s stmt block name).stmt id = form at hleaves
    cases hleaves with
    | shorter hstmt hrest =>
        rw [hstmt, hvars]
        refine .vars decl ⟨hnamed.type, fun hnil => ?_, fun d hd => ?_⟩
        · rw [List.isEmpty_iff.mpr hnil] at hrest
          cases hrest
        · exact hnamed.declarators d (List.mem_of_mem_eraseP hd)
    | empty hstmt =>
        rw [hstmt, hvars]
        exact .empty decl
    | block _ _ _ hbody =>
        rw [hbody]
        exact .block _ _
    | same => exact .same _
  · rw [hdecls] at hd
    rw [Shader.decl_congr hnodes]
    exact h.decls d hd

theorem Unwrap.valid_apply {s : Shader} (h : s.Valid) {block target : StmtId} {way : UnwrapWay}
    (hholds : holds s block target way = true) : (apply s block target way).Valid := by
  have hgrounded := grounded_apply h.grounded hholds
  have howns := ownsStmts_apply h.grounded h.ownsStmts hholds
  obtain ⟨body, kept, dropped, i, hb, -, -, heq⟩ := exists_eq_lifted hholds
  rw [heq, lifted] at hgrounded howns ⊢
  refine h.of_trims hgrounded howns rfl (h.exprs.forgetExprs _) (fun id hid => ?_) h.decls
  rw [Shader.liveStmts_setStmt, Shader.liveStmts_forgetStmts, Shader.liveStmts_forgetExprs] at hid
  refine ⟨(Multiset.mem_filter.mp hid).1, ?_⟩
  rw [Shader.stmt_setStmt, Shader.stmt_forgetStmts, Shader.stmt_forgetExprs]
  split
  next hid =>
    rw [← hid.1, hb]
    exact .block _ _
  next => exact .same _

/-! ## Changes -/

namespace Opportunity

variable {s : Shader}

/-- A change that holds keeps a shader that can be read. -/
theorem valid_apply (h : s.Valid) {o : Opportunity} (ho : o.change.Valid)
    (hholds : o.holds s = true) (supply : NameSupply) : (o.apply s supply).1.Valid := by
  have hgrounded := grounded_apply h.grounded hholds supply
  have howns := ownsStmts_apply h.grounded h.ownsStmts hholds supply
  obtain ⟨depth, change⟩ := o
  cases change with
  | toSubExpr target child =>
      simp only [holds, SubExpr.holds, Bool.and_eq_true] at hholds
      have hchild := Shader.lt_size_of_mem_liveExprs (Shader.mem_liveExprs.mpr hholds.1.2)
      obtain ⟨hdecls, hnodes⟩ := Shader.decls_replaceWithChild s target child
      have hstmts := Shader.stmts_replaceWithChild s target child
      simp only [apply] at hgrounded howns ⊢
      rw [Shader.replaceWithChild_eq] at hgrounded howns hdecls hnodes hstmts ⊢
      refine h.of_stmts_eq hgrounded howns rfl
        ((h.exprs.forgetExprs _).setExpr target (h.exprs child hchild)) hstmts fun d hd => ?_
      rw [hdecls] at hd
      rw [Shader.decl_congr hnodes]
      exact h.decls d hd
  | toConstant target constant =>
      obtain ⟨hdecls, hnodes⟩ := Constant.decls_apply s target constant
      refine h.of_stmts_eq hgrounded howns (Shader.version_constant s target constant)
        (Constant.exprsValid_apply h.exprs target ho) (Constant.stmts_apply s target constant)
        fun d hd => ?_
      simp only [apply] at hd ⊢
      rw [hdecls] at hd
      rw [Shader.decl_congr hnodes]
      exact h.decls d hd
  | removeDecl decl =>
      obtain ⟨hversion, hlive⟩ := Shader.same_removeDecl s decl
      have hexprs := h.exprs.congr (Shader.lightens_removeDecl s decl).size_eq
        (Shader.expr_removeDecl s decl)
      refine h.of_trims hgrounded howns hversion hexprs
        (fun id hid => ⟨Multiset.mem_of_le hlive hid, ?_⟩) fun d hd => ?_
      · simp only [apply]
        rw [Shader.stmt_removeDecl]
        exact .same _
      · simp only [apply] at hd ⊢
        rw [Shader.decls_removeDecl] at hd
        rw [Shader.decl_removeDecl]
        exact h.decls d (List.mem_of_mem_erase hd)
  | inlineField outer field => exact InlineField.valid_apply h supply hholds
  | removeStmt block stmt => exact h.removeFromBlock hholds
  | removeVariable stmt block name => exact UnusedVariable.valid_apply h hholds
  | unwrap block target way => exact Unwrap.valid_apply h hholds

end Opportunity

/-! ## Shaders that are reached -/

namespace Reached

variable {p : Program} {s : Shader} {found : List Opportunity}

/-- All that is reached from a program that can be read can be read, and no constant is found that
cannot. -/
theorem valid (hp : p.Valid (Expr.Valid Literal.IsGenuine))
    (h : Reached (Shader.ofProgram p) s found) : s.Valid ∧ ∀ o ∈ found, o.change.Valid := by
  induction h with
  | start => exact ⟨Shader.valid_ofProgram hp, nofun⟩
  | find _ everywhere kinds ih =>
      refine ⟨ih.1, fun o ho => ?_⟩
      rcases List.mem_append.mp ho with ho | ho
      · exact ih.2 o ho
      · exact Opportunity.valid_of_mem_find ho
  | @tryApply s found _ o ho supply ih =>
      refine ⟨?_, ih.2⟩
      rw [Opportunity.tryApply]
      split
      next hholds => exact Opportunity.valid_apply ih.1 (ih.2 o ho) hholds supply
      next => exact ih.1
  | compact _ ih => exact ⟨ih.1.compact, ih.2⟩

end Reached

/-- A shader that is reached from a program that was parsed is read back from its text, unless a member
of decimal digits becomes a number in it, or its first directive is taken for its version. Whatever
is read back is printed as the same text, unless such a directive is printed in other words. -/
theorem roundTrip_of_reached {source : String} {p : Program} (hp : Program.parse source = .ok p)
    {s : Shader} {found : List Opportunity} (h : Reached (Shader.ofProgram p) s found) :
    ((∃ q, Program.parse s.print = .ok q ∧ (Shader.ofProgram q).agrees s = true) ↔
        ¬ s.toProgram.Glues ∧ ¬ s.toProgram.HidesVersion) ∧
      ∀ q, Program.parse s.print = .ok q →
        ((Shader.ofProgram q).print = s.print ↔ ¬ s.toProgram.RewordsVersion) := by
  have hvalid := (h.valid (Program.valid_of_parse hp).1).1.toProgram
  have hagrees : ∀ q, (Shader.ofProgram q).agrees s = true ↔ q.bare = s.toProgram.bare := by
    intro q
    rw [Shader.agrees_iff, Shader.toProgram_ofProgram]
  simp only [hagrees]
  refine ⟨Program.parse_print_iff hvalid, fun q hq => ?_⟩
  rw [Shader.print, Shader.toProgram_ofProgram]
  exact Program.print_of_parse_iff hvalid hq

/-- What is checked of the value of a text that is read, is true of a value. -/
theorem exists_of_any {ε α : Type} {answer : Except ε α} {check : α → Bool}
    (h : answer.toOption.any check = true) : ∃ value, answer = .ok value ∧ check value = true := by
  cases answer with
  | error failure => cases h
  | ok value => exact ⟨value, rfl, h⟩

/-- A member of an integer is printed without the space before its point, and is not read back. Without
the statement that it stands in, the shader is. Behind an empty declaration a directive is no version;
it is printed first and read as one, and then it is printed without its profile. -/
theorem roundTrip_memberAndProfile :
    (∃ p o found, Program.parse "void f() \x7b 1 .x; \x7d" = .ok p ∧
      (¬ ∃ q, Program.parse (Shader.ofProgram p).print = .ok q ∧
        (Shader.ofProgram q).agrees (Shader.ofProgram p) = true) ∧ o ∈ found ∧
      let s := (Opportunity.tryApply o (Shader.ofProgram p) {}).2.1
      Reached (Shader.ofProgram p) s found ∧ s.print = "void f() \x7b\x7d\n" ∧
        ∃ q, Program.parse s.print = .ok q ∧ (Shader.ofProgram q).agrees s = true) ∧
    ∃ p q, Program.parse ";\n#version 300 core\nvoid main() \x7b \x7d" = .ok p ∧
      Program.parse (Shader.ofProgram p).print = .ok q ∧
      (Shader.ofProgram p).toProgram.RewordsVersion ∧
      (Shader.ofProgram p).print = "#version 300 core\n\nvoid main() \x7b\x7d\n" ∧
      (Shader.ofProgram q).print = "#version 300\n\nvoid main() \x7b\x7d\n" := by
  constructor
  · have hkey : ((Program.parse "void f() \x7b 1 .x; \x7d").toOption.any fun p =>
        let s := Shader.ofProgram p
        let t := (Opportunity.tryApply ⟨2, .removeStmt ⟨1⟩ ⟨0⟩⟩ s {}).2.1
        decide (s.toProgram.Glues ∧ ¬ t.toProgram.Glues ∧ ¬ t.toProgram.HidesVersion ∧
          t.print = "void f() \x7b\x7d\n" ∧
          (⟨2, .removeStmt ⟨1⟩ ⟨0⟩⟩ : Opportunity) ∈
            Opportunity.ofKind s (Analysis.ofShader s true) .removeStmt)) = true := by decide +kernel
    obtain ⟨p, hp, hkey⟩ := exists_of_any hkey
    obtain ⟨hglues, hfree, hversion, htext, hkind⟩ := of_decide_eq_true hkey
    have hfound : (⟨2, .removeStmt ⟨1⟩ ⟨0⟩⟩ : Opportunity) ∈ [] ++
        Opportunity.find (Shader.ofProgram p) true [.removeStmt] :=
      List.mem_mergeSort.mpr (List.mem_flatMap.mpr ⟨.removeStmt, by decide, hkind⟩)
    have hreached := Reached.tryApply (.find .start true [.removeStmt]) hfound {}
    refine ⟨p, _, _, hp, fun hback => ?_, hfound, hreached, htext, ?_⟩
    · exact ((roundTrip_of_reached hp .start).1.mp hback).1 hglues
    · exact (roundTrip_of_reached hp hreached).1.mpr ⟨hfree, hversion⟩
  · have hkey : ((Program.parse ";\n#version 300 core\nvoid main() \x7b \x7d").toOption.any fun p =>
        (Program.parse (Shader.ofProgram p).print).toOption.any fun q =>
          decide ((Shader.ofProgram p).print = "#version 300 core\n\nvoid main() \x7b\x7d\n" ∧
            (Shader.ofProgram q).print = "#version 300\n\nvoid main() \x7b\x7d\n")) = true := by
      decide +kernel
    obtain ⟨p, hp, hkey⟩ := exists_of_any hkey
    obtain ⟨q, hq, hkey⟩ := exists_of_any hkey
    obtain ⟨hfirst, hsecond⟩ := of_decide_eq_true hkey
    refine ⟨p, q, hp, hq, by_contra fun hplain => ?_, hfirst, hsecond⟩
    have hsame := ((roundTrip_of_reached hp .start).2 q hq).mpr hplain
    rw [hfirst, hsecond] at hsame
    exact absurd hsame (by decide)

end ShaderReducer
