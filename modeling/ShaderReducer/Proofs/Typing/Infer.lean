import ShaderReducer.Analysis.Writes
import ShaderReducer.Proofs.Syntax.Tree
import ShaderReducer.Typing.Infer

/-!
# The types that are noted

The types of all expressions are gathered in one pass that carries the scope along. Each expression
is noted once, together with all that is below it in the same scope, so where no two expressions
share a slot the type of an expression can be told from the types of its parts.
-/

namespace ShaderReducer

/-- The types that the language names, each with the dimensions in its name. -/
theorem Ty.ofName?_cases {name : String} {type : Ty} (h : Ty.ofName? name = some type) :
    type = .void ∨ (∃ kind, type = .scalar kind) ∨
    (∃ kind width, type = .vector kind width ∧
      ∃ c, dimension? c = some width ∧ name = vectorLetter kind ++ "vec" ++ String.ofList [c]) ∨
    ∃ columns rows, type = .matrix columns rows ∧
      (∃ c, dimension? c = some columns) ∧ ∃ c, dimension? c = some rows := by
  have hvector : ∀ (start : List Char) (c : Char) (kind : ScalarKind), name.toList = start ++ [c] →
      String.ofList start = vectorLetter kind ++ "vec" →
      (dimension? c).map (vector kind) = some type → ∃ kind width, type = .vector kind width ∧
        ∃ c, dimension? c = some width ∧ name = vectorLetter kind ++ "vec" ++ String.ofList [c] := by
    intro start c kind hname hstart h
    obtain ⟨width, hwidth, rfl⟩ := Option.map_eq_some_iff.mp h
    refine ⟨kind, width, rfl, c, hwidth, ?_⟩
    rw [← hstart, ← String.ofList_append, ← hname, String.ofList_toList]
  unfold ofName? at h
  split at h
  case h_1 => exact .inl (Option.some.inj h).symm
  case h_6 c hname => exact .inr (.inr (.inl (hvector ['v', 'e', 'c'] c .float hname rfl h)))
  case h_7 c hname => exact .inr (.inr (.inl (hvector ['b', 'v', 'e', 'c'] c .bool hname rfl h)))
  case h_8 c hname => exact .inr (.inr (.inl (hvector ['i', 'v', 'e', 'c'] c .int hname rfl h)))
  case h_9 c hname => exact .inr (.inr (.inl (hvector ['u', 'v', 'e', 'c'] c .uint hname rfl h)))
  case h_10 c _ =>
    obtain ⟨n, hn, rfl⟩ := Option.map_eq_some_iff.mp h
    exact .inr (.inr (.inr ⟨n, n, rfl, ⟨c, hn⟩, c, hn⟩))
  case h_11 c r _ =>
    obtain ⟨columns, hcolumns, h⟩ := Option.bind_eq_some_iff.mp h
    obtain ⟨rows, hrows, rfl⟩ := Option.map_eq_some_iff.mp h
    exact .inr (.inr (.inr ⟨columns, rows, rfl, ⟨c, hcolumns⟩, r, hrows⟩))
  case h_12 => cases h
  all_goals exact .inr (.inl ⟨_, (Option.some.inj h).symm⟩)

theorem Ty.ofName?_ne_struct (name struct : String) : Ty.ofName? name ≠ some (.struct struct) := by
  intro h
  obtain h | ⟨_, h⟩ | ⟨_, _, h, -⟩ | ⟨_, _, h, -⟩ := ofName?_cases h <;> cases h

theorem Signatures.resolve_ne_struct (sig : Signatures) {spec : TypeSpec} {name : String}
    (hne : spec.name ≠ name) : sig.resolve spec none ≠ some (.struct name) := by
  rw [Signatures.resolve]
  cases hname : Ty.ofName? spec.name with
  | some type =>
      rw [Option.some_or]
      exact hname ▸ Ty.ofName?_ne_struct spec.name name
  | none =>
      rw [Option.none_or]
      split
      next => simpa using hne
      next => simp

namespace Signatures

variable {sig : Signatures}

/-- Entries that note the expressions of a list, each under some scope together with all below it. -/
def Notes (sig : Signatures) (entries : List Entry) (visited : List (Expr ExprId)) : Prop :=
  ∃ rows : List (TypeScope × Expr ExprId),
    entries = rows.flatMap (fun row => sig.exprEntries row.1 row.2) ∧
      visited = rows.flatMap fun row => row.2.subexprs

theorem Notes.nil : sig.Notes [] [] := ⟨[], rfl, rfl⟩

theorem Notes.append {entries entries' : List Entry} {visited visited' : List (Expr ExprId)}
    (h : sig.Notes entries visited) (h' : sig.Notes entries' visited') :
    sig.Notes (entries ++ entries') (visited ++ visited') := by
  obtain ⟨rows, rfl, rfl⟩ := h
  obtain ⟨rows', rfl, rfl⟩ := h'
  exact ⟨rows ++ rows', by simp, by simp⟩

theorem notes_expr (scope : TypeScope) (depth : Nat) (e : Expr ExprId) :
    sig.Notes (sig.exprEntries scope e) ((e.visits depth).map Prod.snd) :=
  ⟨[(scope, e)], by simp, by simp [Expr.map_snd_visits]⟩

theorem notes_exprs (scope : TypeScope) (depth : Nat) (es : List (Expr ExprId)) :
    sig.Notes (es.flatMap (sig.exprEntries scope))
      ((es.flatMap (Expr.visits depth)).map Prod.snd) := by
  induction es with
  | nil => exact .nil
  | cons e es ih =>
      rw [List.flatMap_cons, List.flatMap_cons, List.map_append]
      exact (notes_expr scope depth e).append ih

theorem notes_stmts {ts : List (Stmt ExprId StmtId)} {depth : Nat}
    (h : ∀ t ∈ ts, ∀ scope depth, sig.Notes (sig.stmtEntries scope t).1
      ((t.exprVisits depth).map Prod.snd))
    (scope : TypeScope) :
    sig.Notes (sig.stmtsEntries scope ts).1 ((Stmt.exprVisitsAll depth ts).map Prod.snd) := by
  induction ts generalizing scope with
  | nil => exact .nil
  | cons t ts ih =>
      rw [Stmt.exprVisitsAll, List.map_append]
      exact (h t List.mem_cons_self scope depth).append
        (ih (fun t' ht' => h t' (List.mem_cons_of_mem t ht')) _)

/-- The entries of a statement note the expressions in it, in the order they are visited in. -/
theorem notes_stmt (t : Stmt ExprId StmtId) (scope : TypeScope) (depth : Nat) :
    sig.Notes (sig.stmtEntries scope t).1 ((t.exprVisits depth).map Prod.snd) := by
  induction t generalizing scope depth with
  | node tag form ih =>
      cases form with
      | block body => exact notes_stmts ih scope
      | vars decl => exact notes_exprs scope (depth + 1) decl.inits
      | expr value => exact notes_expr scope (depth + 1) value
      | ifElse cond onTrue onFalse =>
          have htrue := ih onTrue (by simp [StmtNode.childStmts]) scope (depth + 1)
          cases onFalse with
          | none =>
              rw [Stmt.exprVisits, List.map_append]
              exact (notes_expr scope (depth + 1) cond).append htrue
          | some onFalse =>
              have hfalse := ih onFalse (by simp [StmtNode.childStmts])
                (sig.stmtEntries scope onTrue).2 (depth + 1)
              rw [Stmt.exprVisits, List.map_append, List.map_append]
              exact (notes_expr scope (depth + 1) cond).append (htrue.append hfalse)
      | forLoop start cond step body =>
          have hstart := ih start (by simp [StmtNode.childStmts]) scope (depth + 1)
          have hbody := ih body (by simp [StmtNode.childStmts]) (sig.stmtEntries scope start).2
            (depth + 1)
          rw [Stmt.exprVisits, List.map_append, List.map_append, List.map_append]
          exact hstart.append ((notes_exprs _ _ cond.toList).append
            ((notes_exprs _ _ step.toList).append hbody))
      | whileLoop cond body =>
          rw [Stmt.exprVisits, List.map_append]
          exact (notes_expr scope (depth + 1) cond).append
            (ih body (by simp [StmtNode.childStmts]) scope (depth + 1))
      | doWhile body cond =>
          rw [Stmt.exprVisits, List.map_append]
          exact (ih body (by simp [StmtNode.childStmts]) scope (depth + 1)).append
            (notes_expr _ (depth + 1) cond)
      | returns value => exact notes_exprs scope (depth + 1) value.toList
      | breaks => exact .nil
      | continues => exact .nil
      | discards => exact .nil
      | empty => exact .nil

theorem notes_decl (d : DeclTree ExprId StmtId) (scope : TypeScope) :
    sig.Notes (sig.declEntries scope d).1 (d.exprVisits.map Prod.snd) := by
  cases d with
  | function decl =>
      obtain ⟨type, name, params, body⟩ := decl
      cases body with
      | none => exact .nil
      | some body =>
          simp only [DeclTree.exprVisits, Option.toList_some, List.flatMap_cons, List.flatMap_nil,
            List.append_nil]
          exact notes_stmt body _ 1
  | vars decl => exact notes_exprs scope 1 decl.inits
  | _ => exact .nil

theorem notes_decls (ds : List (DeclTree ExprId StmtId)) (scope : TypeScope) :
    sig.Notes (sig.declsEntries scope ds) ((ds.flatMap DeclTree.exprVisits).map Prod.snd) := by
  induction ds generalizing scope with
  | nil => exact .nil
  | cons d ds ih =>
      rw [List.flatMap_cons, List.map_append]
      exact (notes_decl d scope).append (ih _)

theorem Notes.map_fst {entries : List Entry} {visited : List (Expr ExprId)}
    (h : sig.Notes entries visited) : entries.map Prod.fst = visited.map Expr.tag := by
  obtain ⟨rows, rfl, rfl⟩ := h
  rw [List.map_flatMap, List.map_flatMap]
  exact List.flatMap_congr fun row _ => by simp [exprEntries]

/-- What is visited is noted with all below it under one scope. -/
theorem Notes.exists_scope {entries : List Entry} {visited : List (Expr ExprId)}
    (h : sig.Notes entries visited) {e : Expr ExprId} (he : e ∈ visited) :
    ∃ scope, ∀ sub ∈ e.subexprs, (sub.tag, sig.typeOf scope sub) ∈ entries := by
  obtain ⟨rows, rfl, rfl⟩ := h
  obtain ⟨row, hrow, he⟩ := List.mem_flatMap.mp he
  refine ⟨row.1, fun sub hsub => List.mem_flatMap.mpr ⟨row, hrow, ?_⟩⟩
  exact List.mem_map.mpr ⟨sub, Expr.mem_subexprs_trans he hsub, rfl⟩

end Signatures

namespace Types

theorem getElem?_note_of_ne {types : Array (Option Ty)} {entry : Signatures.Entry} {id : ExprId}
    (h : entry.1 ≠ id) : (note types entry)[id.index]? = types[id.index]? := by
  obtain ⟨id', type⟩ := entry
  have hne : id'.index ≠ id.index := by
    intro hindex
    cases id
    cases id'
    exact h (congrArg ExprId.mk hindex)
  cases type with
  | none => rfl
  | some type => rw [note, Array.getElem?_setIfInBounds_ne hne]

theorem getElem?_foldl_note_of_notMem {entries : List Signatures.Entry} {id : ExprId}
    (h : id ∉ entries.map Prod.fst) (types : Array (Option Ty)) :
    (entries.foldl note types)[id.index]? = types[id.index]? := by
  induction entries generalizing types with
  | nil => rfl
  | cons entry entries ih =>
      rw [List.map_cons, List.mem_cons, not_or] at h
      rw [List.foldl_cons, ih h.2, getElem?_note_of_ne fun heq => h.1 heq.symm]

/-- The type of a slot that one entry is about. -/
theorem getElem?_foldl_note {entries : List Signatures.Entry}
    (hnodup : (entries.map Prod.fst).Nodup) {id : ExprId} {type : Option Ty}
    (hmem : (id, type) ∈ entries) {types : Array (Option Ty)}
    (hnone : types[id.index]? = some none) :
    (entries.foldl note types)[id.index]? = some type := by
  induction entries generalizing types with
  | nil => cases hmem
  | cons entry entries ih =>
      rw [List.map_cons, List.nodup_cons] at hnodup
      rw [List.foldl_cons]
      rcases List.mem_cons.mp hmem with rfl | hmem
      · rw [getElem?_foldl_note_of_notMem hnodup.1]
        cases type with
        | none => exact hnone
        | some type =>
            have hlt : id.index < types.size := by
              by_contra hle
              rw [Array.getElem?_eq_none (by omega)] at hnone
              cases hnone
            rw [note, Array.getElem?_setIfInBounds_self_of_lt hlt]
      · refine ih hnodup.2 hmem ?_
        rw [getElem?_note_of_ne ?_, hnone]
        rintro rfl
        exact hnodup.1 (List.mem_map.mpr ⟨_, hmem, rfl⟩)

/-- The type of an expression that is visited, and of all below it, follows from one scope. -/
theorem exists_scope {s : Shader} (hnodup : (s.exprVisits.map fun v => v.2.tag).Nodup)
    (hlt : ∀ v ∈ s.exprVisits, v.2.tag.index < s.exprs.size) {v : Nat × Expr ExprId}
    (hv : v ∈ s.exprVisits) :
    ∃ scope, ∀ sub ∈ v.2.subexprs, sub ∈ s.exprVisits.map Prod.snd →
      (ofShader s).get? sub.tag = (Signatures.ofShader s).typeOf scope sub := by
  have hnotes := (Signatures.ofShader s).notes_decls s.declTrees []
  obtain ⟨scope, hscope⟩ := hnotes.exists_scope (List.mem_map_of_mem hv)
  refine ⟨scope, fun sub hsub hvisit => ?_⟩
  obtain ⟨w, hw, rfl⟩ := List.mem_map.mp hvisit
  have hfst := hnotes.map_fst
  rw [List.map_map] at hfst
  have hnone : (Array.replicate s.exprs.size (none : Option Ty))[w.2.tag.index]? = some none := by
    rw [Array.getElem?_replicate, if_pos (hlt w hw)]
  have hget := getElem?_foldl_note (hfst ▸ hnodup) (hscope w.2 hsub) hnone
  rw [get?, ofShader, hget]
  rfl

/-- The type of a member of a value follows from that of the value. -/
theorem get?_member {s : Shader} (hnodup : (s.exprVisits.map fun v => v.2.tag).Nodup)
    (hlt : ∀ v ∈ s.exprVisits, v.2.tag.index < s.exprs.size) {id : ExprId} {base : Expr ExprId}
    {field : String} (hv : .node id (.member base field) ∈ s.exprVisits.map Prod.snd)
    (hb : base ∈ s.exprVisits.map Prod.snd) :
    (ofShader s).get? id =
      ((ofShader s).get? base.tag).bind fun type =>
        (Signatures.ofShader s).memberType type field := by
  obtain ⟨v, hvisit, heq⟩ := List.mem_map.mp hv
  obtain ⟨scope, hscope⟩ := exists_scope hnodup hlt hvisit
  rw [heq] at hscope
  have hself := hscope _ (Expr.mem_subexprs_self _) hv
  have hbase := hscope base (by simp [Expr.subexprs_node, ExprNode.children,
    Expr.mem_subexprs_self]) hb
  rw [Expr.tag] at hself
  rw [hself, hbase]
  rfl

end Types

end ShaderReducer
