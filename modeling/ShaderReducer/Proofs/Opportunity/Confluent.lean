import ShaderReducer.Proofs.Opportunity.Pruning
import ShaderReducer.Proofs.Syntax.Bare

/-!
# Changes that prune can be tried in any order

Opportunities that prune a shader may lie inside each other in every combination, so that in one order
some are stale that are taken in another. The shader comes out the same, for every slot that stays
live holds what all of them leave in it.
-/

namespace ShaderReducer

namespace Shader

variable {s t t' : Shader} {cs : List Change}

/-! ## All changes -/

namespace PrunedBy

theorem perm {cs' : List Change} (h : s.PrunedBy cs t) (hperm : cs.Perm cs') : s.PrunedBy cs' t where
  grounded := h.grounded
  owned := h.owned
  version := h.version
  decl := h.decl
  decls := by
    rw [h.decls]
    refine List.filter_congr fun d _ => ?_
    rw [Bool.eq_iff_iff]
    simp [hperm.mem_iff]
  size_le := h.size_le
  stmts id hid := by
    rw [← pruned_perm hperm]
    exact h.stmts id hid
  exprs id hid hlt hnone := h.exprs id hid hlt fun constant hmem =>
    hnone constant (hperm.mem_iff.mp hmem)
  constants id hid constant hmem := h.constants id hid constant (hperm.mem_iff.mpr hmem)

variable {o : Opportunity} {os : List Opportunity}

/-- A change that prunes is tried, whether it is stale or not. -/
theorem tryApply (h : s.PrunedBy cs t) (hs : s.Grounded) (hos : s.Owned)
    (hcs : ∀ c ∈ o.change :: cs, c.Prunes s)
    (hone : ∀ target constant constant', .toConstant target constant ∈ o.change :: cs →
      .toConstant target constant' ∈ o.change :: cs → constant = constant') (supply : NameSupply) :
    s.PrunedBy (o.change :: cs) (o.tryApply t supply).2.1 := by
  have htry : (o.tryApply t supply).2.1 = if o.holds t then (o.apply t supply).1 else t := by
    rw [Opportunity.tryApply]
    split
    next => rfl
    next => rfl
  rw [htry]
  obtain ⟨depth, change⟩ := o
  have hprunes := hcs change List.mem_cons_self
  cases hprunes with
  | removeDecl d => exact h.removeDecl d
  | removeStmt hin => exact h.removeStmt hin
  | @removeLocal block stmt decl hin hvars name =>
      have hdeclared : s.DeclaredIn stmt (some block) := hin
      exact h.removeVariable hs hos hdeclared hvars name
  | @removeCounter loop stmt _ _ _ _ hlive hloop hvars name =>
      have hdeclared : s.DeclaredIn stmt none := ⟨loop, hlive, _, _, _, hloop⟩
      exact h.removeVariable hs hos hdeclared hvars name
  | toConstant hlt hliteral constant =>
      refine h.toConstant hliteral hlt (fun constant' hmem => ?_) fun id constant' hmem => ?_
      · exact hone _ _ _ (List.mem_cons_of_mem _ hmem) List.mem_cons_self
      · have hput := hcs _ (List.mem_cons_of_mem _ hmem)
        cases hput with
        | toConstant hlt => exact hlt

theorem tryAll (h : s.PrunedBy cs t) (hs : s.Grounded) (hos : s.Owned)
    (hcs : ∀ c ∈ (os.map Opportunity.change).reverse ++ cs, c.Prunes s)
    (hone : ∀ target constant constant',
      .toConstant target constant ∈ (os.map Opportunity.change).reverse ++ cs →
      .toConstant target constant' ∈ (os.map Opportunity.change).reverse ++ cs → constant = constant')
    (supply : NameSupply) :
    s.PrunedBy ((os.map Opportunity.change).reverse ++ cs) (Opportunity.tryAll os t supply).2.1 := by
  induction os generalizing cs t supply with
  | nil => exact h
  | cons o os ih =>
      rw [List.map_cons, List.reverse_cons, List.append_assoc, List.singleton_append] at hcs hone ⊢
      have hfirst : ∀ c ∈ o.change :: cs, c ∈ (os.map Opportunity.change).reverse ++ o.change :: cs :=
        fun c hc => List.mem_append_right _ hc
      exact ih (h.tryApply hs hos (fun c hc => hcs c (hfirst c hc))
        (fun target constant constant' hmem hmem' =>
          hone target constant constant' (hfirst _ hmem) (hfirst _ hmem')) supply) hcs hone _

/-! ## What comes out -/

section

variable (h : s.PrunedBy cs t) (h' : s.PrunedBy cs t') (hs : s.Grounded)

include h h' hs

/-- An expression that is live in both of two shaders that come from one by the same changes has the
same tree. -/
theorem erase_exprTree_eq {id : ExprId} (hlt : id.index < s.exprs.size) (hid : id ∈ t.liveExprs)
    (hid' : id ∈ t'.liveExprs) : (t.exprTree id).erase = (t'.exprTree id).erase := by
  induction id using hs.expr_induction with
  | step id ih =>
      by_cases hput : ∃ constant, .toConstant id constant ∈ cs
      · obtain ⟨constant, hmem⟩ := hput
        rw [Constant.erase_exprTree_of_isAt h.grounded (h.constants id hid constant hmem),
          Constant.erase_exprTree_of_isAt h'.grounded (h'.constants id hid' constant hmem)]
      · have hnone : ∀ constant, .toConstant id constant ∉ cs := fun constant hmem =>
          hput ⟨constant, hmem⟩
        have hsame := h.exprs id hid hlt hnone
        have hsame' := h'.exprs id hid' hlt hnone
        obtain ⟨rank, hrank⟩ := hs.exprs
        rw [h.grounded.exprTree_eq, h'.grounded.exprTree_eq, Expr.erase_node, Expr.erase_node,
          ExprNode.map_map, ExprNode.map_map, hsame, hsame']
        refine congrArg _ (ExprNode.map_congr fun part hpart => ?_)
        refine ih part hpart (hrank.falls id part hpart).1 ?_ ?_
        · refine h.owned.exprs.mem_of_mem_parts hid ?_
          rwa [exprPartsOf, exprParts, hsame]
        · refine h'.owned.exprs.mem_of_mem_parts hid' ?_
          rwa [exprPartsOf, exprParts, hsame']

theorem erase_stmtTree_eq {id : StmtId} (hid : id ∈ t.liveStmts) (hid' : id ∈ t'.liveStmts) :
    (t.stmtTree id).erase = (t'.stmtTree id).erase := by
  induction id using hs.stmt_induction with
  | step id ih =>
      obtain ⟨-, hsame⟩ := h.stmts id hid
      obtain ⟨-, hsame'⟩ := h'.stmts id hid'
      rw [h.grounded.stmtTree_eq, h'.grounded.stmtTree_eq, Stmt.erase_node, Stmt.erase_node,
        StmtNode.map_map, StmtNode.map_map, hsame, hsame']
      refine congrArg _ (StmtNode.map_congr (fun e he => ?_) fun part hpart => ?_)
      · have hlt := hs.stmtExprs id e (s.childExprs_pruned_subset cs id he)
        refine h.erase_exprTree_eq h' hs hlt ?_ ?_
        · refine h.owned.mem_liveExprs_of_mem h.grounded (h.owned.reaches_stmt h.grounded hid) ?_
          rwa [exprsIn, hsame]
        · refine h'.owned.mem_liveExprs_of_mem h'.grounded (h'.owned.reaches_stmt h'.grounded hid') ?_
          rwa [exprsIn, hsame']
      · refine ih part (s.childStmts_pruned_subset cs id hpart) ?_ ?_
        · refine h.owned.stmts.mem_of_mem_parts hid ?_
          rwa [stmtPartsOf, stmtParts, hsame]
        · refine h'.owned.stmts.mem_of_mem_parts hid' ?_
          rwa [stmtPartsOf, stmtParts, hsame']

theorem erase_declTree_eq {d : DeclId} (hd : d ∈ t.decls) (hd' : d ∈ t'.decls) :
    DeclTree.erase (t.declTree d) = DeclTree.erase (t'.declTree d) := by
  have hsame := congrFun h.decl d
  have hsame' := congrFun h'.decl d
  rw [declTree, declTree, DeclTree.erase, DeclTree.erase, Decl.map_map, Decl.map_map, hsame, hsame']
  refine Decl.map_congr (fun e he => ?_) fun body hbody => ?_
  · refine h.erase_exprTree_eq h' hs (hs.inits d e he) ?_ ?_
    · refine h.owned.mem_liveExprs_of_mem h.grounded (.decl hd) ?_
      rwa [exprsIn, hsame]
    · refine h'.owned.mem_liveExprs_of_mem h'.grounded (.decl hd') ?_
      rwa [exprsIn, hsame']
  · refine h.erase_stmtTree_eq h' hs ?_ ?_
    · refine h.owned.mem_liveStmts_of_mem h.grounded (.decl hd) ?_
      rwa [stmtsIn, hsame]
    · refine h'.owned.mem_liveStmts_of_mem h'.grounded (.decl hd') ?_
      rwa [stmtsIn, hsame']

/-- Two shaders that come from one by the same changes have the same syntax. -/
theorem toProgram_eq : t.toProgram = t'.toProgram := by
  have hdecls : t.decls = t'.decls := h.decls.trans h'.decls.symm
  rw [toProgram, toProgram, h.version, h'.version, declTrees, declTrees, List.map_map, List.map_map,
    ← hdecls]
  refine congrArg _ (List.map_congr_left fun d hd => ?_)
  exact h.erase_declTree_eq h' hs hd (hdecls ▸ hd)

end

end PrunedBy

end Shader

namespace Opportunity

variable {s : Shader}

/-- The first part of a loop that is visited. -/
theorem exists_loop_of_mem_find (hs : s.Grounded) (hos : s.Owned) {a : Analysis} {depth : Nat}
    {stmt : StmtId} {name : String}
    (hfound : ⟨depth, .removeVariable stmt none name⟩ ∈ UnusedVariable.find s a) :
    ∃ loop ∈ s.liveStmts, ∃ cond step body, s.stmt loop = .forLoop stmt cond step body := by
  obtain ⟨⟨function, decl, body⟩, hf, hmem⟩ := List.mem_flatMap.mp hfound
  obtain ⟨⟨depth', parent⟩, hv, hmem⟩ := List.mem_flatMap.mp hmem
  obtain ⟨⟨t, block⟩, ht, hmem⟩ := List.mem_flatMap.mp hmem
  obtain ⟨hlive, htree⟩ := hos.of_mem_visits hs hf hv
  obtain ⟨tag, form⟩ := t
  dsimp only [Stmt.form] at hmem
  split at hmem
  next =>
    obtain ⟨d, -, heq⟩ := List.mem_map.mp hmem
    cases heq
    obtain ⟨id, form⟩ := parent
    have hstmt := (hs.stmt_of_stmtTree htree.symm).2
    cases form with
    | block statements =>
        obtain ⟨_, -, heq⟩ := List.mem_map.mp ht
        cases heq
    | forLoop start cond step inner =>
        cases List.mem_singleton.mp ht
        exact ⟨_, hlive, _, _, _, hstmt⟩
    | _ => cases ht
  next => cases hmem

/-- The expression that a constant is found for. -/
theorem exists_of_mem_find_constant (hs : s.Grounded) (hos : s.Owned) {a : Analysis} {depth : Nat}
    {target : ExprId} {constant : Constant}
    (hfound : ⟨depth, .toConstant target constant⟩ ∈ Constant.find s a) :
    target ∈ s.liveExprs ∧ (∀ value, s.expr target ≠ .literal value) ∧
      Constant.replacement? s a (s.exprTree target) = some constant := by
  obtain ⟨⟨depth', e⟩, hv, hmem⟩ := List.mem_filterMap.mp hfound
  obtain ⟨constant', hreplacement, heq⟩ := Option.map_eq_some_iff.mp hmem
  cases heq
  obtain ⟨hlive, htree⟩ := (hos.mem_exprVisits hs).mp (List.mem_map_of_mem (f := Prod.snd) hv)
  dsimp only at hlive htree
  refine ⟨hlive, fun value hvalue => ?_, htree ▸ hreplacement⟩
  have hform : e.form = .literal value := by
    rw [htree, hs.exprTree_eq, Expr.form, hvalue]
    rfl
  rw [Constant.replacement?, hform] at hreplacement
  cases hreplacement

/-- What is found and prunes is about nodes of the shader that it was found in. -/
theorem prunes_of_mem_find (hs : s.Grounded) (hos : s.Owned) {everywhere : Bool}
    {kinds : List OpportunityKind} {o : Opportunity} (hfound : o ∈ find s everywhere kinds)
    (hkind : o.kind.prunes = true) : o.change.Prunes s := by
  have hmem := mem_ofKind_of_mem_find hfound
  have hholds := holds_of_mem_find hs hos hfound
  obtain ⟨depth, change⟩ := o
  cases change with
  | removeDecl d => exact .removeDecl d
  | removeStmt block stmt => exact .removeStmt hholds
  | removeVariable stmt block name =>
      obtain ⟨-, ⟨decl, -, hvars, -⟩, hin⟩ := UnusedVariable.eq_vars_of_holds hholds
      cases block with
      | some block => exact .removeLocal (hin block rfl) hvars name
      | none =>
          obtain ⟨loop, hlive, cond, step, body, hloop⟩ := exists_loop_of_mem_find hs hos hmem
          exact .removeCounter hlive hloop hvars name
  | toConstant target constant =>
      obtain ⟨hlive, hliteral, -⟩ := exists_of_mem_find_constant hs hos hmem
      exact .toConstant (Shader.lt_size_of_mem_liveExprs hlive) hliteral constant
  | toSubExpr target child => cases hkind
  | inlineField outer field => cases hkind
  | unwrap block target way => cases hkind

/-- One constant at most is found for an expression. -/
theorem eq_of_mem_find_constant (hs : s.Grounded) (hos : s.Owned) {everywhere : Bool}
    {kinds : List OpportunityKind} {depth depth' : Nat} {target : ExprId} {constant constant' : Constant}
    (h : ⟨depth, .toConstant target constant⟩ ∈ find s everywhere kinds)
    (h' : ⟨depth', .toConstant target constant'⟩ ∈ find s everywhere kinds) : constant = constant' := by
  obtain ⟨-, -, hreplacement⟩ := exists_of_mem_find_constant hs hos (mem_ofKind_of_mem_find h)
  obtain ⟨-, -, hreplacement'⟩ := exists_of_mem_find_constant hs hos (mem_ofKind_of_mem_find h')
  exact Option.some.inj (hreplacement.symm.trans hreplacement')

/-- The opportunities of a list prune the shader of a program, and were found there together. Tried
in any order, they give shaders that have the same syntax and the same text. -/
theorem confluent_of_prunes (p : Program) (everywhere : Bool) (kinds : List OpportunityKind)
    {os os' : List Opportunity}
    (hfound : ∀ o ∈ os, o ∈ find (Shader.ofProgram p) everywhere kinds)
    (hkind : ∀ o ∈ os, o.kind.prunes = true) (hperm : os.Perm os') (supply supply' : NameSupply) :
    let t := (tryAll os (Shader.ofProgram p) supply).2.1
    let t' := (tryAll os' (Shader.ofProgram p) supply').2.1
    t.agrees t' = true ∧ t.print = t'.print := by
  intro t t'
  set s := Shader.ofProgram p
  have hlaid : s.LaidOut := Shader.laidOut_ofProgram p
  have hs := hlaid.layered.grounded
  have hos := hlaid.owned
  have hpruned : ∀ {os'' : List Opportunity} (supply : NameSupply), os.Perm os'' →
      s.PrunedBy (os.map change) (tryAll os'' s supply).2.1 := by
    intro os'' supply hperm
    have hmem : ∀ c ∈ (os''.map change).reverse ++ [], ∃ o ∈ os, o.change = c := by
      intro c hc
      rw [List.append_nil, List.mem_reverse, List.mem_map] at hc
      obtain ⟨o, ho, rfl⟩ := hc
      exact ⟨o, hperm.mem_iff.mpr ho, rfl⟩
    refine ((Shader.prunedBy_nil hs hos).tryAll hs hos (fun c hc => ?_) ?_ supply).perm ?_
    · obtain ⟨o, ho, rfl⟩ := hmem c hc
      exact prunes_of_mem_find hs hos (hfound o ho) (hkind o ho)
    · intro target constant constant' hc hc'
      obtain ⟨⟨depth, _⟩, ho, rfl⟩ := hmem _ hc
      obtain ⟨⟨depth', _⟩, ho', rfl⟩ := hmem _ hc'
      exact eq_of_mem_find_constant hs hos (hfound _ ho) (hfound _ ho')
    · rw [List.append_nil]
      exact (List.reverse_perm _).trans (hperm.symm.map _)
  have hprogram : t.toProgram = t'.toProgram :=
    (hpruned supply (List.Perm.refl os)).toProgram_eq (hpruned supply' hperm) hs
  exact ⟨(Shader.agrees_iff t t').mpr (congrArg Program.bare hprogram),
    congrArg Program.print hprogram⟩

/-- A function whose body holds a declaration and a block in a block. -/
def nestedBlocks : Program :=
  let sum : Expr Unit := .node () (.binary .add (.node () (.literal (.int "1")))
    (.node () (.literal (.int "2"))))
  ⟨none, [.function ⟨.ofName "void", "f", [], some (.node () (.block [
    .node () (.vars ⟨.ofName "int", [⟨"a", none, some sum⟩]⟩),
    .node () (.block [.node () (.expr sum)])]))⟩]⟩

/-- What prunes the nested blocks, from the outside to the inside. -/
def nestedPruning : List Opportunity :=
  [⟨0, .removeDecl ⟨0⟩⟩, ⟨2, .removeStmt ⟨3⟩ ⟨2⟩⟩, ⟨3, .removeStmt ⟨2⟩ ⟨1⟩⟩,
    ⟨2, .removeVariable ⟨0⟩ (some ⟨3⟩) "a"⟩, ⟨3, .toConstant ⟨2⟩ (.scalar (.int "1"))⟩,
    ⟨4, .toConstant ⟨5⟩ (.scalar (.int "1"))⟩]

/-- If the function goes first, all that is in it is stale; if it goes last, all changes are made. -/
theorem confluent_nestedBlocks :
    (∀ o ∈ nestedPruning, o ∈ find (Shader.ofProgram nestedBlocks) true OpportunityKind.all) ∧
      (tryAll nestedPruning (Shader.ofProgram nestedBlocks) {}).1 =
        [true, false, false, false, false, false] ∧
      (tryAll nestedPruning.reverse (Shader.ofProgram nestedBlocks) {}).1 =
        [true, true, true, true, true, true] ∧
      (tryAll nestedPruning (Shader.ofProgram nestedBlocks) {}).2.1.print =
        (tryAll nestedPruning.reverse (Shader.ofProgram nestedBlocks) {}).2.1.print := by
  have hfound : ∀ o ∈ nestedPruning,
      o ∈ find (Shader.ofProgram nestedBlocks) true OpportunityKind.all := by
    have hkinds : ∀ o ∈ nestedPruning, o ∈ ofKind (Shader.ofProgram nestedBlocks)
        (Analysis.ofShader (Shader.ofProgram nestedBlocks) true) o.kind := by
      decide +kernel
    intro o ho
    refine List.mem_mergeSort.mpr (List.mem_flatMap.mpr ⟨o.kind, ?_, hkinds o ho⟩)
    exact List.mem_filter.mpr ⟨o.kind.mem_all, List.contains_iff_mem.mpr o.kind.mem_all⟩
  have hkind : ∀ o ∈ nestedPruning, o.kind.prunes = true := by
    decide
  exact ⟨hfound, by decide +kernel, by decide +kernel, (confluent_of_prunes nestedBlocks true
    OpportunityKind.all hfound hkind (List.reverse_perm nestedPruning).symm {} {}).2⟩

end Opportunity

end ShaderReducer
