import ShaderReducer.Proofs.Analysis.Scope
import ShaderReducer.Proofs.Opportunity.Found
import ShaderReducer.Proofs.Opportunity.Pruning
import ShaderReducer.Proofs.Opportunity.Scopes
import ShaderReducer.Proofs.Opportunity.Unreferenced

/-!
# Values that are returned

A statement that is taken out of a block goes with all that is below it, and nothing else goes. Of
the statements that return a value, those below it are gone and the others are as they were, in the
same order. The search does not offer such a statement itself where the function has a value to
return, but it does not look below the statements that it offers.
-/

namespace ShaderReducer

/-- Whether a statement returns a value. -/
def StmtNode.returnsValue {ρ σ : Type} : StmtNode ρ σ → Bool
  | returns (some _) => true
  | _ => false

namespace Stmt

variable {ε σ : Type}

/-- The statements below a statement, and the statement itself, that return a value, in order. -/
def valueReturns (t : Stmt ε σ) : List (Stmt ε σ) :=
  t.substmts.filter fun u => u.form.returnsValue

theorem valueReturns_node (tag : σ) (form : StmtNode (Expr ε) (Stmt ε σ)) :
    (node tag form).valueReturns =
      (if form.returnsValue then [node tag form] else []) ++
        form.childStmts.flatMap valueReturns := by
  rw [valueReturns, substmts_node, List.filter_cons, List.filter_flatMap, Stmt.form]
  cases form.returnsValue <;> rfl

end Stmt

namespace Shader

variable {s t : Shader} {block stmt id : StmtId}

/-- The statements of a declaration that return a value, in order. -/
def valueReturns (s : Shader) (d : DeclId) : List (Stmt ExprId StmtId) :=
  ((s.declTree d).stmtVisits.map Prod.snd).filter fun u => u.form.returnsValue

theorem valueReturns_eq (s : Shader) (d : DeclId) :
    s.valueReturns d = (s.decl d).bodies.flatMap fun id => (s.stmtTree id).valueReturns := by
  rw [valueReturns, DeclTree.map_snd_stmtVisits, declTree, Decl.bodies_map, List.flatMap_map,
    List.filter_flatMap]
  rfl

/-- The slots below a statement are its own and those of the statements below it. -/
theorem Grounded.mem_stmtSlots_iff (h : s.Grounded) {u : StmtId} :
    u ∈ s.stmtSlots id ↔ u = id ∨ s.StmtBelow id u := by
  constructor
  · intro hu
    induction id using h.stmt_induction with
    | step id ih =>
        rw [h.stmtSlots_eq] at hu
        rcases List.mem_cons.mp hu with hu | hu
        · exact Or.inl hu
        · obtain ⟨part, hpart, hu⟩ := List.mem_flatMap.mp hu
          refine Or.inr ?_
          rcases ih part hpart hu with rfl | hbelow
          · exact stmtBelow_of_mem hpart
          · exact .head hpart hbelow
  · rintro (rfl | hbelow)
    · exact mem_stmtSlots_self s u
    · induction hbelow with
      | single hpart => exact h.mem_stmtSlots_of_mem_parts hpart
      | tail _ hpart ih => exact h.stmtSlots_trans ih (h.mem_stmtSlots_of_mem_parts hpart)

/-- A slot below a statement is named by a node that is below it too, unless it is the statement. -/
theorem Owned.eq_of_mem_stmtSlots (h : s.Grounded) (ho : s.Owned) (hstmt : s.Reaches (.stmt stmt))
    {n : NodeId} (hn : s.Reaches n) (hout : ∀ id, n = .stmt id → id ∉ s.stmtSlots stmt)
    (hid : id ∈ s.stmtsIn n) (hmem : id ∈ s.stmtSlots stmt) : id = stmt := by
  rcases h.mem_stmtSlots_iff.mp hmem with heq | hbelow
  · exact heq
  · obtain ⟨parent, hparent, hpart⟩ := Relation.TransGen.tail'_iff.mp hbelow
    have hslot : parent ∈ s.stmtSlots stmt :=
      h.mem_stmtSlots_iff.mpr ((Relation.reflTransGen_iff_eq_or_transGen.mp hparent))
    have heq := ho.parent_unique h hn (h.reaches_stmtSlots hstmt hslot) hid hpart
    exact absurd hslot (hout parent heq)

/-- What is named by a node that is not taken out is not taken out either, but for the statement
that its block names. -/
theorem Owned.not_mem_stmtSlots (h : s.Grounded) (ho : s.Owned) (hin : s.standsIn block stmt = true)
    {n : NodeId} (hn : s.Reaches n) (hout : ∀ id, n = .stmt id → id ∉ s.stmtSlots stmt)
    (hid : id ∈ s.stmtsIn n) (hne : n = .stmt block → id ≠ stmt) : id ∉ s.stmtSlots stmt := by
  obtain ⟨hblock, hstmt, body, hbody, hmem⟩ := standsIn_iff.mp hin
  intro hslot
  obtain rfl := ho.eq_of_mem_stmtSlots h (ho.reaches_stmt h hstmt) hn hout hid hslot
  refine hne (ho.parent_unique h hn (ho.reaches_stmt h hblock) hid ?_) rfl
  rw [stmtsIn, hbody]
  exact hmem

/-- All that is below a statement goes with it. -/
theorem filter_valueReturns_self (s : Shader) (stmt : StmtId) :
    (s.stmtTree stmt).valueReturns.filter (fun u => u.tag ∉ s.stmtSlots stmt) = [] := by
  refine List.filter_eq_nil_iff.mpr fun u hu => ?_
  have hslot : u.tag ∈ s.stmtSlots stmt := by
    rw [stmtSlots_eq_map]
    exact List.mem_map_of_mem (List.mem_of_mem_filter hu)
  simpa using hslot

/-- A statement that is not taken out keeps the values that it returns, but for those below the one
that is. -/
theorem Owned.valueReturns_stmtTree (h : s.Grounded) (ho : s.Owned)
    (hin : s.standsIn block stmt = true) (hid : s.Reaches (.stmt id))
    (hout : id ∉ s.stmtSlots stmt) :
    ((s.removeFromBlock block stmt).2.stmtTree id).valueReturns =
      (s.stmtTree id).valueReturns.filter fun u => u.tag ∉ s.stmtSlots stmt := by
  obtain ⟨hblock, -, body, hbody, hmem⟩ := standsIn_iff.mp hin
  have hrestated := restated_removeFromBlock s block stmt
  have hg := h.removeFromBlock block stmt
  have htree := exprTree_congr hrestated.size_eq hrestated.expr_eq
  have hnode := stmt_removeFromBlock_eq hblock hbody hmem
  generalize (s.removeFromBlock block stmt).2 = t at hrestated hg htree hnode ⊢
  induction id using h.stmt_induction with
  | step id ih =>
      have hparts : ∀ part ∈ (s.stmt id).childStmts, (block = id → part ≠ stmt) →
          (t.stmtTree part).valueReturns =
            (s.stmtTree part).valueReturns.filter fun u => u.tag ∉ s.stmtSlots stmt := by
        intro part hpart hne
        refine ih part hpart (.stmt hid hpart) ?_
        refine ho.not_mem_stmtSlots h hin hid (fun id' heq => ?_) hpart fun heq => ?_
        · cases heq
          exact hout
        · cases heq
          exact hne rfl
      rw [hg.stmtTree_eq, h.stmtTree_eq, Stmt.valueReturns_node, Stmt.valueReturns_node, hnode,
        List.filter_append, List.filter_flatMap, StmtNode.childStmts_map, StmtNode.childStmts_map,
        List.flatMap_map, List.flatMap_map, htree]
      by_cases hid' : block = id
      · -- the block: a statement is erased, and all values below that one are filtered out
        subst hid'
        obtain ⟨before, after, -, hsplit, herase⟩ := List.exists_erase_eq hmem
        have hnodup := ho.nodup_body hblock hbody
        rw [hsplit, List.nodup_middle, List.nodup_cons] at hnodup
        have hkept : ∀ part ∈ before ++ after, (t.stmtTree part).valueReturns =
            (s.stmtTree part).valueReturns.filter fun u => u.tag ∉ s.stmtSlots stmt := by
          intro part hpart
          refine hparts part ?_ fun _ heq => hnodup.1 (heq ▸ hpart)
          rw [hbody, StmtNode.childStmts, hsplit]
          exact List.perm_middle.mem_iff.mpr (List.mem_cons_of_mem _ hpart)
        rw [if_pos rfl, hbody, StmtNode.childStmts, StmtNode.childStmts, herase,
          List.flatMap_congr hkept, hsplit, List.flatMap_append, List.flatMap_append,
          List.flatMap_cons, filter_valueReturns_self]
        rfl
      · rw [if_neg hid']
        congr 1
        · cases hform : s.stmt id with
          | returns value =>
              cases value with
              | none => rfl
              | some value => simp [StmtNode.map, StmtNode.returnsValue, Stmt.tag, hout]
          | _ => rfl
        · exact List.flatMap_congr fun part hpart => hparts part hpart fun heq => absurd heq hid'

/-- Of the values that a function returns, those below a statement that is taken out are gone. -/
theorem Owned.valueReturns_removeFromBlock (h : s.Grounded) (ho : s.Owned)
    (hin : s.standsIn block stmt = true) {d : DeclId} (hd : d ∈ s.decls) :
    (s.removeFromBlock block stmt).2.valueReturns d =
      (s.valueReturns d).filter fun u => u.tag ∉ s.stmtSlots stmt := by
  rw [valueReturns_eq, valueReturns_eq, (restated_removeFromBlock s block stmt).decl_eq,
    List.filter_flatMap]
  refine List.flatMap_congr fun body hbody => ?_
  exact ho.valueReturns_stmtTree h hin (.stmt (.decl hd) hbody)
    (ho.not_mem_stmtSlots h hin (.decl hd) nofun hbody nofun)

/-- A statement that a declaration returns a value by is the tree of its slot, which is in the
declaration. -/
theorem Grounded.of_mem_valueReturns (h : s.Grounded) {d : DeclId} (hd : d ∈ s.decls)
    {u : Stmt ExprId StmtId} (hu : u ∈ s.valueReturns d) :
    u = s.stmtTree u.tag ∧ s.Mentions (.stmt u.tag) (.decl d) ∧ u.form.returnsValue = true := by
  obtain ⟨hvisit, hreturns⟩ := List.mem_filter.mp hu
  refine ⟨h.eq_stmtTree_of_mem_stmtVisits ?_, h.mem_stmtVisits.mp (List.mem_map_of_mem hvisit),
    hreturns⟩
  rw [stmtVisits, declTrees, List.flatMap_map, List.map_flatMap]
  exact List.mem_flatMap.mpr ⟨d, hd, hvisit⟩

end Shader

namespace RemovableStmt

variable {s : Shader} {a : Analysis} {block stmt : StmtId}

/-- What is found in a function with a value to return does not return one. -/
theorem tag_ne_of_mem_valueReturns (h : s.Grounded) (ho : s.Owned) {o : Opportunity}
    (hfind : o ∈ find s a) (hchange : o.change = .removeStmt block stmt) {d : DeclId}
    {f : FunctionDecl StmtId} (hf : (d, f) ∈ s.functions) (hvalue : f.returnType.name ≠ "void")
    {u : Stmt ExprId StmtId} (hu : u ∈ s.valueReturns d) : u.tag ≠ stmt := by
  obtain ⟨⟨d', f', body⟩, hbodies, hmem⟩ := List.mem_flatMap.mp hfind
  obtain ⟨⟨depth, parent⟩, hv, hmem⟩ := List.mem_flatMap.mp hmem
  obtain ⟨t, ht, rfl⟩ := List.mem_map.mp hmem
  cases hchange
  obtain ⟨hchild, hremovable⟩ := List.mem_filter.mp ht
  have hlocal : (t, some parent.tag) ∈ UnusedVariable.localDecls parent := by
    obtain ⟨tag, form⟩ := parent
    cases form with
    | block statements => exact List.mem_map_of_mem hchild
    | _ => cases hchild
  obtain ⟨hd', hfunction', hin'⟩ := UnusedVariable.mentions_of_mem_localDecls h hbodies hv hlocal
  obtain ⟨-, htree', -⟩ := ho.of_mem_localDecls h hbodies hv hlocal
  obtain ⟨hd, hfunction⟩ := Shader.mem_functions.mp hf
  obtain ⟨htree, hin, hreturns⟩ := h.of_mem_valueReturns hd hu
  intro htag
  rw [htag] at htree hin
  obtain rfl := ho.eq_of_mentions_stmt h hd hd' hin hin'
  cases hfunction.symm.trans hfunction'
  rw [htree.trans htree'.symm] at hreturns
  simp only [isRemovable, Bool.and_eq_true] at hremovable
  obtain ⟨tag, form⟩ := t
  cases form with
  | returns value =>
      cases value with
      | some value => simp [Stmt.form, hvalue] at hremovable
      | none => cases hreturns
  | _ => cases hreturns

end RemovableStmt

namespace Opportunity

/-- A statement that is found to be removable in the shader of a program leaves a function with a
value to return exactly the values that it returned before if, and only if, it has none of them
below it. -/
theorem valueReturns_tryApply_iff {p : Program} {everywhere : Bool} {kinds : List OpportunityKind}
    {o : Opportunity} (hfind : o ∈ find (Shader.ofProgram p) everywhere kinds) {block stmt : StmtId}
    (hchange : o.change = .removeStmt block stmt) (supply : NameSupply) {d : DeclId}
    {f : FunctionDecl StmtId} (hf : (d, f) ∈ (Shader.ofProgram p).functions)
    (hvalue : f.returnType.name ≠ "void") :
    (o.tryApply (Shader.ofProgram p) supply).2.1.valueReturns d =
        (Shader.ofProgram p).valueReturns d ↔
      ∀ u ∈ (Shader.ofProgram p).valueReturns d, ¬ (Shader.ofProgram p).StmtBelow stmt u.tag := by
  have hlaid := Shader.laidOut_ofProgram p
  have h := hlaid.layered.grounded
  have hholds := holds_of_mem_find h hlaid.owned hfind
  have hkind := mem_ofKind_of_mem_find hfind
  obtain ⟨depth, change⟩ := o
  cases hchange
  have hself : ∀ u ∈ (Shader.ofProgram p).valueReturns d, u.tag ≠ stmt := fun u =>
    RemovableStmt.tag_ne_of_mem_valueReturns h hlaid.owned hkind rfl hf hvalue
  rw [tryApply, if_pos hholds, apply,
    hlaid.owned.valueReturns_removeFromBlock h hholds (Shader.mem_functions.mp hf).1,
    List.filter_eq_self]
  refine forall₂_congr fun u hu => ?_
  rw [decide_eq_true_iff, h.mem_stmtSlots_iff, not_or]
  exact and_iff_right (hself u hu)

/-- A function that returns a value at its end, after a call of itself. -/
def callsItself : Program :=
  let call : Stmt Unit Unit := .node () (.expr (.node () (.call "f" [])))
  let value : Stmt Unit Unit := .node () (.returns (some (.node () (.literal (.float "2.0")))))
  ⟨none, [.function ⟨.ofName "float", "f", [], some (.node () (.block [call, value]))⟩]⟩

/-- The call goes, and the value is returned as before. -/
theorem valueReturns_callsItself :
    ∃ o ∈ find (Shader.ofProgram callsItself) true [.removeStmt], o.change = .removeStmt ⟨2⟩ ⟨0⟩ ∧
      ∃ f, (⟨0⟩, f) ∈ (Shader.ofProgram callsItself).functions ∧ f.returnType.name ≠ "void" ∧
        ((Shader.ofProgram callsItself).valueReturns ⟨0⟩).length = 1 ∧
        (o.tryApply (Shader.ofProgram callsItself) {}).2.1.valueReturns ⟨0⟩ =
          (Shader.ofProgram callsItself).valueReturns ⟨0⟩ := by
  have hfind : ⟨2, .removeStmt ⟨2⟩ ⟨0⟩⟩ ∈ find (Shader.ofProgram callsItself) true [.removeStmt] :=
    List.mem_mergeSort.mpr (List.mem_flatMap.mpr ⟨.removeStmt, by decide, by decide +kernel⟩)
  have hf : (⟨0⟩, ⟨.ofName "float", "f", [], some ⟨2⟩⟩) ∈
      (Shader.ofProgram callsItself).functions := by
    decide +kernel
  refine ⟨_, hfind, rfl, _, hf, by decide, by decide +kernel, ?_⟩
  refine (valueReturns_tryApply_iff hfind rfl {} hf (by decide)).mpr fun u _ hbelow => ?_
  obtain ⟨part, hpart, -⟩ := Relation.TransGen.head'_iff.mp hbelow
  have hparts : (Shader.ofProgram callsItself).stmtParts ⟨0⟩ = [] := by decide +kernel
  rw [hparts] at hpart
  cases hpart

end Opportunity

end ShaderReducer
