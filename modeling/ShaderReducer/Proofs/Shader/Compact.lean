import ShaderReducer.Proofs.Shader.Places
import ShaderReducer.Proofs.Syntax.Bare

/-!
# Compact shaders

Trees are laid out by their forms alone, so a shader that is laid out from syntax is laid out again
as it stands: every node comes back to the slot that it had. Any shader is compact after one layout.

Layout only adds slots, and those that are added are live.
-/

namespace ShaderReducer

/-! ## Layout by forms -/

namespace Expr

variable {ε : Type}

theorem placeAll_map_erase {es : List (Expr ε)} (h : ∀ e ∈ es, e.erase.place = e.place) :
    placeAll (es.map erase) = placeAll es := by
  induction es with
  | nil => rfl
  | cons e es ih =>
      rw [List.map_cons, placeAll, placeAll, h e List.mem_cons_self,
        ih fun e' he' => h e' (List.mem_cons_of_mem e he')]

theorem place_erase (e : Expr ε) : e.erase.place = e.place := by
  induction e with
  | node tag form ih =>
      cases form with
      | call callee args =>
          have hargs : placeAll (args.map erase) = placeAll args := placeAll_map_erase ih
          rw [erase, eraseAll_eq_map, place, place, hargs]
      | _ => simp_all [erase, place, ExprNode.children]

theorem placeOption_map_erase (o : Option (Expr ε)) :
    placeOption (o.map erase) = placeOption o := by
  cases o with
  | none => rfl
  | some e => rw [Option.map_some, placeOption, placeOption, place_erase]

end Expr

namespace Declarator

variable {ε : Type}

theorem placeAll_map_erase (ds : List (Declarator (Expr ε))) :
    placeAll (ds.map (map Expr.erase)) = placeAll ds := by
  induction ds with
  | nil => rfl
  | cons d ds ih =>
      rw [List.map_cons, placeAll, placeAll, ih, map, Expr.placeOption_map_erase]

end Declarator

theorem VarDecl.place_map_erase {ε : Type} (v : VarDecl (Expr ε)) :
    (v.map Expr.erase).place = v.place := by
  rw [place, place, map, Declarator.placeAll_map_erase]

namespace Stmt

variable {ε σ : Type}

theorem placeAll_map_erase {ts : List (Stmt ε σ)} (h : ∀ t ∈ ts, t.erase.place = t.place) :
    placeAll (ts.map erase) = placeAll ts := by
  induction ts with
  | nil => rfl
  | cons t ts ih =>
      rw [List.map_cons, placeAll, placeAll, h t List.mem_cons_self,
        ih fun t' ht' => h t' (List.mem_cons_of_mem t ht')]

theorem place_erase (t : Stmt ε σ) : t.erase.place = t.place := by
  induction t with
  | node tag form ih =>
      cases form with
      | block body =>
          have hbody : placeAll (body.map erase) = placeAll body := placeAll_map_erase ih
          rw [erase, eraseAll_eq_map, place, place, hbody]
      | ifElse cond onTrue onFalse =>
          cases onFalse <;> simp_all [erase, place, StmtNode.childStmts, Expr.place_erase]
      | _ =>
          simp_all [erase, place, StmtNode.childStmts, Expr.place_erase, VarDecl.place_map_erase,
            Expr.placeOption_map_erase]

end Stmt

theorem DeclTree.place_erase {ε σ : Type} (d : DeclTree ε σ) :
    DeclTree.place d.erase = DeclTree.place d := by
  cases d with
  | function decl =>
      obtain ⟨type, name, params, body⟩ := decl
      cases body with
      | none => rfl
      | some body => simp only [erase, Decl.map, Option.map_some, place, Stmt.place_erase]
  | vars decl => simp only [erase, Decl.map, place, VarDecl.place_map_erase]
  | _ => rfl

namespace Shader

theorem placeDecls_map_erase {ε σ : Type} (ds : List (DeclTree ε σ)) (s : Shader) :
    placeDecls (ds.map DeclTree.erase) s = placeDecls ds s := by
  induction ds generalizing s with
  | nil => rfl
  | cons d ds ih => rw [List.map_cons, placeDecls, placeDecls, ih, DeclTree.place_erase]

/-- Laying a shader out anew is laying its syntax out. -/
theorem compact_eq (s : Shader) : s.compact = ofProgram s.toProgram :=
  (placeDecls_map_erase s.declTrees { version := s.version }).symm

/-- The shader of a program is compact. -/
theorem compact_of_program (p : Program) : (ofProgram p).compact = ofProgram p := by
  rw [compact_eq, toProgram_ofProgram]

end Shader

/-! ## No slot is left over -/

/-- A property of shaders that no new slot takes away. -/
structure KeptByLayout (motive : Shader → Prop) : Prop where
  addExpr : ∀ s node, motive s → motive (s.addExpr node).2
  addStmt : ∀ s node, motive s → motive (s.addStmt node).2
  addDecl : ∀ s node, motive s → motive (s.addDecl node).2

namespace KeptByLayout

variable {ε σ : Type} {motive : Shader → Prop} {s : Shader}

theorem placeExprs {es : List (Expr ε)}
    (hes : ∀ e ∈ es, ∀ s, motive s → motive (e.place s).2) (hs : motive s) :
    motive (Expr.placeAll es s).2 := by
  induction es generalizing s with
  | nil => exact hs
  | cons e es ih =>
      exact ih (fun e' he' => hes e' (List.mem_cons_of_mem e he')) (hes e List.mem_cons_self s hs)

theorem placeExpr (h : KeptByLayout motive) (e : Expr ε) (hs : motive s) :
    motive (e.place s).2 := by
  induction e generalizing s with
  | node tag form ih =>
      obtain ⟨node, hplace, -⟩ := Expr.place_node tag form s
      rw [hplace]
      exact h.addExpr _ _ (placeExprs (fun e he s hs => ih e he hs) hs)

theorem placeOption (h : KeptByLayout motive) (o : Option (Expr ε)) (hs : motive s) :
    motive (Expr.placeOption o s).2 := by
  cases o with
  | none => exact hs
  | some e => exact h.placeExpr e hs

theorem placeVars (h : KeptByLayout motive) (v : VarDecl (Expr ε)) (hs : motive s) :
    motive (v.place s).2 := by
  obtain ⟨type, ds⟩ := v
  change motive (Declarator.placeAll ds s).2
  induction ds generalizing s with
  | nil => exact hs
  | cons d ds ih => exact ih (h.placeOption d.init hs)

theorem placeStmts {ts : List (Stmt ε σ)}
    (hts : ∀ t ∈ ts, ∀ s, motive s → motive (t.place s).2) (hs : motive s) :
    motive (Stmt.placeAll ts s).2 := by
  induction ts generalizing s with
  | nil => exact hs
  | cons t ts ih =>
      exact ih (fun t' ht' => hts t' (List.mem_cons_of_mem t ht')) (hts t List.mem_cons_self s hs)

theorem placeStmt (h : KeptByLayout motive) (t : Stmt ε σ) (hs : motive s) :
    motive (t.place s).2 := by
  induction t generalizing s with
  | node tag form ih =>
      have hpart : ∀ t ∈ form.childStmts, ∀ s, motive s → motive (t.place s).2 :=
        fun t ht s hs => ih t ht hs
      cases form with
      | block body => exact h.addStmt _ _ (placeStmts hpart hs)
      | vars decl => exact h.addStmt _ _ (h.placeVars decl hs)
      | expr value => exact h.addStmt _ _ (h.placeExpr value hs)
      | ifElse cond onTrue onFalse =>
          have htrue := hpart onTrue (by simp [StmtNode.childStmts]) _ (h.placeExpr cond hs)
          cases onFalse with
          | none => exact h.addStmt _ _ htrue
          | some onFalse =>
              exact h.addStmt _ _ (hpart onFalse (by simp [StmtNode.childStmts]) _ htrue)
      | forLoop start cond step body =>
          have hstart := hpart start (by simp [StmtNode.childStmts]) _ hs
          have hheader := h.placeOption step (h.placeOption cond hstart)
          exact h.addStmt _ _ (hpart body (by simp [StmtNode.childStmts]) _ hheader)
      | whileLoop cond body =>
          exact h.addStmt _ _
            (hpart body (by simp [StmtNode.childStmts]) _ (h.placeExpr cond hs))
      | doWhile body cond =>
          exact h.addStmt _ _
            (h.placeExpr cond (hpart body (by simp [StmtNode.childStmts]) _ hs))
      | returns value => exact h.addStmt _ _ (h.placeOption value hs)
      | _ => exact h.addStmt _ _ hs

theorem placeDecl (h : KeptByLayout motive) (d : DeclTree ε σ) (hs : motive s) :
    motive (DeclTree.place d s).2 := by
  cases d with
  | function decl =>
      obtain ⟨type, name, params, body⟩ := decl
      cases body with
      | none => exact h.addDecl _ _ hs
      | some body => exact h.addDecl _ _ (h.placeStmt body hs)
  | vars decl => exact h.addDecl _ _ (h.placeVars decl hs)
  | _ => exact h.addDecl _ _ hs

theorem placeDecls (h : KeptByLayout motive) (ds : List (DeclTree ε σ)) (hs : motive s) :
    motive (Shader.placeDecls ds s) := by
  induction ds generalizing s with
  | nil => exact hs
  | cons d ds ih => exact ih (h.placeDecl d hs)

end KeptByLayout

namespace Shader

/-- Whether the number of a node is that of a slot. -/
def HasSlot (s : Shader) : NodeId → Prop
  | .decl id => id.index < s.declNodes.size
  | .stmt id => id.index < s.stmts.size
  | .expr id => id.index < s.exprs.size

/-- Every slot is live. -/
def Filled (s : Shader) : Prop :=
  ∀ n, s.HasSlot n → s.isLive n = true

theorem isLive_push_of_lt {α : Type} {a : Arena α} {node : α} {i : Nat}
    (h : ∀ j, j < a.size → a.isLive j = true) (hi : i < (a.push node).size) :
    (a.push node).isLive i = true := by
  rw [Arena.size_push] at hi
  rw [Arena.isLive_push, Bool.or_eq_true, beq_iff_eq]
  exact (Nat.lt_succ_iff_lt_or_eq.mp hi).imp (h i) id

theorem keptByLayout_filled : KeptByLayout Filled where
  addExpr s node h n hn := by
    cases n with
    | decl id => exact h (.decl id) hn
    | stmt id => exact h (.stmt id) hn
    | expr id => exact isLive_push_of_lt (fun j hj => h (.expr ⟨j⟩) hj) hn
  addStmt s node h n hn := by
    cases n with
    | decl id => exact h (.decl id) hn
    | stmt id => exact isLive_push_of_lt (fun j hj => h (.stmt ⟨j⟩) hj) hn
    | expr id => exact h (.expr id) hn
  addDecl s node h n hn := by
    cases n with
    | decl id => exact isLive_push_of_lt (fun j hj => h (.decl ⟨j⟩) hj) hn
    | stmt id => exact h (.stmt id) hn
    | expr id => exact h (.expr id) hn

/-- A shader that is laid out anew has live slots only. -/
theorem filled_compact (s : Shader) : s.compact.Filled := by
  refine keptByLayout_filled.placeDecls s.declTrees fun n hn => ?_
  cases n <;> exact absurd hn (Nat.not_lt_zero _)

/-- A compact shader has the same syntax and the same text, it has no slot that is dead or out of
reach, and it is not changed by another layout. -/
theorem compact_projection (s : Shader) :
    s.compact.agrees s = true ∧ s.compact.print = s.print ∧
      (∀ n, s.compact.HasSlot n → s.compact.isLive n = true ∧ s.compact.Reaches n) ∧
      s.compact.compact = s.compact := by
  have hlaid := laidOut_compact s
  have hprogram := toProgram_compact s
  refine ⟨?_, congrArg Program.print hprogram, fun n hn => ?_, ?_⟩
  · rw [agrees_iff, hprogram]
  · have hlive := filled_compact s n hn
    exact ⟨hlive, (hlaid.owned.isLive_iff_reaches hlaid.layered.grounded n).mp hlive⟩
  · rw [compact_eq s, compact_of_program]

end Shader

end ShaderReducer
