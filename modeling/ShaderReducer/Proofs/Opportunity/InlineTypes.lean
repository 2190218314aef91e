import ShaderReducer.Proofs.Opportunity.InlinePlan
import ShaderReducer.Proofs.Opportunity.Recast
import ShaderReducer.Proofs.Opportunity.Removal
import ShaderReducer.Proofs.Text.Number

/-!
# Names of inlined fields

The fields of an inner structure are given names that no field of the outer one has and no two of them
share. So all names that were looked up in the outer structure are found as before, save that of the
field which is gone, and a new name leads to the inner field that it was made for.
-/

namespace ShaderReducer

namespace InlineField

/-! ## Names that are not taken -/

/-- A name with a number. -/
def numbered (preferred : String) (n : Nat) : String :=
  preferred ++ "_" ++ toString n

theorem numbered_injective (preferred : String) : Function.Injective (numbered preferred) := by
  intro m n h
  have hlists := congrArg String.toList h
  simp only [numbered, String.toList_append] at hlists
  exact Text.toString_injective (String.toList_inj.mp (List.append_cancel_left hlists))

theorem numbered_ne (preferred : String) (n : Nat) : numbered preferred n ≠ preferred := by
  intro h
  have hlength := congrArg (fun name => name.toList.length) h
  simp [numbered] at hlength

/-- A name is found that is not taken, if there are more attempts than names that may be in the way.
Each attempt that fails rules out one of these, as the names with later numbers are others. -/
theorem freeName_notMem {taken rivals : List String} {preferred name : String} {supply : NameSupply}
    {attempts : Nat} (hlength : rivals.length < attempts) (hname : name ∈ taken → name ∈ rivals)
    (hlater : ∀ n, supply.next ≤ n → numbered preferred n ∈ taken → numbered preferred n ∈ rivals)
    (hne : ∀ n, supply.next ≤ n → numbered preferred n ≠ name) :
    (freeName taken preferred name supply attempts).1 ∉ taken := by
  induction attempts generalizing rivals name supply with
  | zero => exact absurd hlength (Nat.not_lt_zero _)
  | succ attempts ih =>
      rw [freeName]
      split
      next htaken =>
        have hrival := hname (List.contains_iff_mem.mp htaken)
        have hstill : ∀ n, supply.next ≤ n → numbered preferred n ∈ taken →
            numbered preferred n ∈ rivals.erase name := fun n hn hmem =>
          (List.mem_erase_of_ne (hne n hn)).mpr (hlater n hn hmem)
        have hfewer : (rivals.erase name).length < attempts := by
          have hpos := List.length_pos_of_mem hrival
          rw [List.length_erase_of_mem hrival]
          omega
        refine ih hfewer (hstill _ le_rfl) (fun n hn => ?_) fun n hn heq => ?_
        · exact hstill n ((Nat.le_succ _).trans hn)
        · have hsame : n = supply.next := numbered_injective preferred heq
          exact absurd hn (by rw [hsame]; exact Nat.not_succ_le_self _)
      next htaken => exact fun hmem => htaken (List.contains_iff_mem.mpr hmem)

variable {field : String} {taken : List String} {supply : NameSupply} {fields : List FieldDecl}

theorem name_renamed_notMem {f : FieldDecl} (hf : f ∈ (renamed field taken supply fields).1) :
    f.name ∉ taken := by
  induction fields generalizing taken supply with
  | nil => cases hf
  | cons inner fields ih =>
      rw [renamed] at hf
      rcases List.mem_cons.mp hf with rfl | hf
      · exact freeName_notMem (Nat.lt_succ_self _) id (fun _ _ => id) fun n _ => numbered_ne _ n
      · exact fun hmem => ih hf (List.mem_cons_of_mem _ hmem)

theorem nodup_renamed (field : String) (taken : List String) (supply : NameSupply)
    (fields : List FieldDecl) :
    ((renamed field taken supply fields).1.map FieldDecl.name).Nodup := by
  induction fields generalizing taken supply with
  | nil => exact List.nodup_nil
  | cons inner fields ih =>
      rw [renamed, List.map_cons, List.nodup_cons]
      refine ⟨fun hmem => ?_, ih _ _⟩
      obtain ⟨f, hf, hname⟩ := List.mem_map.mp hmem
      exact name_renamed_notMem hf (hname ▸ List.mem_cons_self)

/-- A field stays what it was but for its name. -/
theorem getElem?_renamed (field : String) (taken : List String) (supply : NameSupply)
    (fields : List FieldDecl) (i : Nat) :
    (renamed field taken supply fields).1[i]?.map (fun f => (f.type, f.arraySize)) =
      fields[i]?.map fun f => (f.type, f.arraySize) := by
  induction fields generalizing taken supply i with
  | nil => rfl
  | cons inner fields ih =>
      rw [renamed]
      cases i with
      | zero => rfl
      | succ i => exact ih _ _ i

/-- A name that is found is the first one, or one with a number. -/
theorem freeName_eq (taken : List String) (preferred name : String) (supply : NameSupply)
    (attempts : Nat) : (freeName taken preferred name supply attempts).1 = name ∨
      ∃ n, (freeName taken preferred name supply attempts).1 = numbered preferred n := by
  induction attempts generalizing name supply with
  | zero => exact Or.inl rfl
  | succ attempts ih =>
      rw [freeName]
      split
      next =>
        obtain heq | hnumbered := ih (numbered preferred supply.next) ⟨supply.next + 1⟩
        · exact Or.inr ⟨supply.next, heq⟩
        · exact Or.inr hnumbered
      next => exact Or.inl rfl

theorem startsWith_fieldStart {name : String} :
    startsWith name fieldStart = true ↔ ∃ rest, name.toList = '_' :: 'f' :: rest := by
  rw [startsWith, Text.startsWith, List.isPrefixOf_iff_prefix]
  exact exists_congr fun rest => eq_comm

/-- What starts as the names of synthetic fields do still does so without a number. -/
theorem startsWith_of_numbered {preferred : String} {n : Nat}
    (h : startsWith (numbered preferred n) fieldStart = true) :
    startsWith preferred fieldStart = true := by
  rw [startsWith_fieldStart] at h ⊢
  obtain ⟨rest, h⟩ := h
  rw [numbered, String.toList_append, String.toList_append, List.append_assoc] at h
  generalize preferred.toList = cs at h ⊢
  cases cs with
  | nil =>
      have hdigits : (toString n).toList = 'f' :: rest := (List.cons.inj h).2
      have hdigit : 'f'.isDigit = true := Text.isDigit_toString (hdigits ▸ List.mem_cons_self)
      cases hdigit
  | cons c cs =>
      obtain ⟨rfl, htail⟩ := List.cons.inj h
      cases cs with
      | nil => cases (List.cons.inj htail).1
      | cons c cs =>
          obtain ⟨rfl, -⟩ := List.cons.inj htail
          exact ⟨cs, rfl⟩

/-- No field gets the name of the field that it stands for. -/
theorem name_renamed_ne (hstart : startsWith field fieldStart = true) {f : FieldDecl}
    (hf : f ∈ (renamed field taken supply fields).1) : f.name ≠ field := by
  induction fields generalizing taken supply with
  | nil => cases hf
  | cons inner fields ih =>
      rw [renamed] at hf
      rcases List.mem_cons.mp hf with rfl | hf
      · intro hname
        have hform := freeName_eq taken (joinedName field inner) (joinedName field inner) supply
          (taken.length + 1)
        dsimp only at hname
        rw [hname] at hform
        by_cases hinner : startsWith inner.name fieldStart = true
        · -- A joined name is longer than the one that it starts with.
          obtain ⟨rest, hrest⟩ := startsWith_fieldStart.mp hinner
          rw [joinedName, if_pos hinner] at hform
          rcases hform with heq | ⟨n, heq⟩
          · have hlength := congrArg (fun name => name.toList.length) heq
            simp [hrest] at hlength
          · have hlength := congrArg (fun name => name.toList.length) heq
            simp [numbered, hrest] at hlength
        · rw [joinedName, if_neg hinner] at hform
          rcases hform with heq | ⟨n, heq⟩
          · exact hinner (heq ▸ hstart)
          · exact hinner (startsWith_of_numbered (heq ▸ hstart))
      · exact ih hf

/-! ## Fields of the widened structure -/

variable {s t : Shader} {outerId : DeclId} {plan : Plan} {outer inner : StructDecl}
  {wrapper : FieldDecl}

theorem Fits.split_fields (hfits : Fits s outerId field plan outer inner wrapper) :
    outer.fields = outer.fields.take plan.position ++ wrapper :: outer.fields.drop (plan.position + 1) ∧
      wrapper.name = field := by
  obtain ⟨hlt, hget⟩ := List.getElem?_eq_some_iff.mp hfits.wrapper_eq
  refine ⟨by rw [← hget, List.getElem_cons_drop, List.take_append_drop], ?_⟩
  have hposition := hfits.position_eq
  rw [StructDecl.fieldIndex?, List.findIdx?_eq_some_iff_getElem] at hposition
  obtain ⟨hlt', hname, -⟩ := hposition
  rw [← hget]
  exact eq_of_beq hname

/-- Another field of the outer structure stays. -/
theorem Fits.mem_widened (hfits : Fits s outerId field plan outer inner wrapper)
    {fields : List FieldDecl} {f : FieldDecl} (hf : f ∈ outer.fields) (hne : f.name ≠ field) :
    f ∈ (widened outer plan.position fields).fields := by
  obtain ⟨hsplit, hwrapper⟩ := hfits.split_fields
  rw [hsplit] at hf
  rcases List.mem_append.mp hf with hf | hf
  · exact List.mem_append_left _ (List.mem_append_left _ hf)
  · refine List.mem_append_right _ ((List.mem_cons.mp hf).resolve_left ?_)
    rintro rfl
    exact hne hwrapper

/-- Another field of the outer structure is found as before. -/
theorem Fits.find?_widened_of_ne (hfits : Fits s outerId field plan outer inner wrapper)
    {fields : List FieldDecl} {name : String} (hne : name ≠ field)
    (hfree : ∀ f ∈ fields, f.name ∉ keptNames outer plan.position)
    (hnamed : ∃ f ∈ outer.fields, f.name = name) :
    (widened outer plan.position fields).fields.find? (fun f => f.name == name) =
      outer.fields.find? fun f => f.name == name := by
  obtain ⟨hsplit, hwrapper⟩ := hfits.split_fields
  have hkept : name ∈ keptNames outer plan.position := by
    obtain ⟨f, hf, rfl⟩ := hnamed
    rw [hsplit] at hf
    refine List.mem_map_of_mem ?_
    rcases List.mem_append.mp hf with hf | hf
    · exact List.mem_append_left _ hf
    · refine List.mem_append_right _ ((List.mem_cons.mp hf).resolve_left ?_)
      rintro rfl
      exact hne hwrapper
  have hnew : fields.find? (fun f => f.name == name) = none := by
    refine List.find?_eq_none.mpr fun f hf heq => hfree f hf ?_
    rwa [eq_of_beq heq]
  have hgone : ¬ (wrapper.name == name) = true := fun heq => hne ((eq_of_beq heq).symm.trans hwrapper)
  conv_rhs => rw [hsplit]
  rw [widened]
  simp only [List.find?_append, hnew, Option.or_none]
  rw [List.find?_cons_of_neg (p := fun f : FieldDecl => f.name == name) hgone]

/-- A new field is found under its name. -/
theorem find?_widened_of_mem {fields : List FieldDecl} (hnodup : (fields.map FieldDecl.name).Nodup)
    (position : Nat) {f : FieldDecl} (hf : f ∈ fields) (hfree : f.name ∉ keptNames outer position) :
    (widened outer position fields).fields.find? (fun g => g.name == f.name) = some f := by
  have hbefore : (outer.fields.take position).find? (fun g => g.name == f.name) = none := by
    refine List.find?_eq_none.mpr fun g hg heq => hfree ?_
    rw [← eq_of_beq heq]
    exact List.mem_map_of_mem (List.mem_append_left _ hg)
  rw [widened]
  simp only [List.find?_append, hbefore, find?_key_of_nodup hnodup hf, Option.none_or, Option.some_or]

end InlineField

/-!
## Types when a field is inlined

The outer structure keeps its name, so constructors of it have the type that they had, and the types
that name it stand for what they stood for. A member of a wrapper had the type of the inner field; the
member that it becomes has the type of the field that was made from that one. The wrapper, for which
there is no field any more, is not left.
-/

namespace InlineField

variable {s u : Shader} {outerId : DeclId} {field : String} {plan : Plan} {outer inner : StructDecl}
  {wrapper : FieldDecl} {fields : List FieldDecl}

/-- Fields under names that are not taken, no two of which are the same. -/
structure Renames (taken : List String) (fields fields' : List FieldDecl) : Prop where
  free : ∀ f ∈ fields', f.name ∉ taken
  nodup : (fields'.map FieldDecl.name).Nodup
  same : ∀ i : Nat, fields'[i]?.map (fun f => (f.type, f.arraySize)) =
    fields[i]?.map fun f => (f.type, f.arraySize)

theorem renames_renamed (field : String) (taken : List String) (supply : NameSupply)
    (fields : List FieldDecl) : Renames taken fields (renamed field taken supply fields).1 :=
  ⟨fun _ => name_renamed_notMem, nodup_renamed field taken supply fields,
    getElem?_renamed field taken supply fields⟩

/-- The fields are declared as they were, in the order that they had. -/
theorem Renames.map_eq {taken : List String} {fields fields' : List FieldDecl}
    (h : Renames taken fields fields') :
    fields'.map (fun f => (f.type, f.arraySize)) = fields.map fun f => (f.type, f.arraySize) :=
  List.ext_getElem? fun i => by rw [List.getElem?_map, List.getElem?_map, h.same]

theorem Renames.length_eq {taken : List String} {fields fields' : List FieldDecl}
    (h : Renames taken fields fields') : fields'.length = fields.length := by
  have hlengths := congrArg List.length h.map_eq
  rwa [List.length_map, List.length_map] at hlengths

/-! ## The shader with the field inlined -/

theorem decls_inlined (s : Shader) (outerId : DeclId) (outer : StructDecl) (plan : Plan)
    (fields : List FieldDecl) : (inlined s outerId outer plan fields).exprs.size = s.exprs.size ∧
      (inlined s outerId outer plan fields).stmt = s.stmt ∧
      (inlined s outerId outer plan fields).decls = s.decls ∧
      (inlined s outerId outer plan fields).decl =
        (s.setDecl outerId (.struct (widened outer plan.position fields))).decl := by
  set w := s.setDecl outerId (.struct (widened outer plan.position fields))
  obtain ⟨hsize, hstmts, hdecls, hnodes⟩ :=
    foldl_spliceConstructor_same plan.position plan.constructors w
  obtain ⟨hsize', hstmts', hdecls', hnodes'⟩ := foldl_redirect_same (fields.map FieldDecl.name)
    plan.accesses (plan.constructors.foldl (spliceConstructor plan.position) w)
  refine ⟨hsize'.trans hsize, ?_, hdecls'.trans hdecls, ?_⟩
  · funext id
    rw [Shader.stmt, inlined, hstmts'.trans hstmts]
    rfl
  · funext d
    rw [Shader.decl, inlined, hnodes'.trans hnodes, Shader.decl]

/-- The widened structure stands where the outer one stood. -/
theorem Fits.exists_structDecls_inlined (hfits : Fits s outerId field plan outer inner wrapper)
    (ho : s.Owned) (houter : outerId ∈ s.decls) (fields : List FieldDecl) :
    ∃ front back, s.structDecls = front ++ outer :: back ∧
      (inlined s outerId outer plan fields).structDecls =
        front ++ widened outer plan.position fields :: back := by
  obtain ⟨front, back, hold, hnew⟩ := exists_structDecls_setDecl ho houter hfits.outer_eq
    (widened outer plan.position fields)
  obtain ⟨-, -, hdecls, hdecl⟩ := decls_inlined s outerId outer plan fields
  refine ⟨front, back, hold, ?_⟩
  rw [← hnew, Shader.structDecls_eq, Shader.structDecls_eq, hdecls, hdecl]
  rfl

theorem Fits.widened_mem (hfits : Fits s outerId field plan outer inner wrapper) (ho : s.Owned)
    (houter : outerId ∈ s.decls) (fields : List FieldDecl) :
    widened outer plan.position fields ∈ (inlined s outerId outer plan fields).structDecls := by
  obtain ⟨front, back, -, hnew⟩ := hfits.exists_structDecls_inlined ho houter fields
  rw [hnew]
  exact List.mem_append_right _ List.mem_cons_self

theorem Fits.mem_structDecls_inlined (hfits : Fits s outerId field plan outer inner wrapper)
    (ho : s.Owned) (houter : outerId ∈ s.decls) (fields : List FieldDecl) {decl : StructDecl}
    (hdecl : decl ∈ s.structDecls) (hne : decl.name ≠ outer.name) :
    decl ∈ (inlined s outerId outer plan fields).structDecls := by
  obtain ⟨front, back, hold, hnew⟩ := hfits.exists_structDecls_inlined ho houter fields
  rw [hold] at hdecl
  rw [hnew]
  rcases List.mem_append.mp hdecl with hdecl | hdecl
  · exact List.mem_append_left _ hdecl
  · refine List.mem_append_right _ (List.mem_cons_of_mem _ ((List.mem_cons.mp hdecl).resolve_left ?_))
    rintro rfl
    exact hne rfl

theorem Fits.decl_inlined (hfits : Fits s outerId field plan outer inner wrapper)
    (fields : List FieldDecl) (d : DeclId) :
    (inlined s outerId outer plan fields).decl d = s.decl d ∨
      (∃ x, (inlined s outerId outer plan fields).decl d = .struct x) ∧ ∃ y, s.decl d = .struct y := by
  rw [(decls_inlined s outerId outer plan fields).2.2.2, Shader.decl_setDecl]
  split
  next hd => exact Or.inr ⟨⟨_, rfl⟩, outer, hd.1 ▸ Decl.struct?_eq_some.mp hfits.outer_eq⟩
  next => exact Or.inl rfl

theorem Fits.hasStruct_inlined (hfits : Fits s outerId field plan outer inner wrapper) (ho : s.Owned)
    (houter : outerId ∈ s.decls) (fields : List FieldDecl) (name : String) :
    (Signatures.ofShader (inlined s outerId outer plan fields)).hasStruct name =
      (Signatures.ofShader s).hasStruct name := by
  obtain ⟨front, back, hold, hnew⟩ := hfits.exists_structDecls_inlined ho houter fields
  have hany : ∀ t : Shader, (Signatures.ofShader t).hasStruct name =
      t.structDecls.any fun decl => decl.name == name := fun _ => rfl
  rw [hany, hany, hold, hnew, List.any_append, List.any_append, List.any_cons, List.any_cons]
  rfl

theorem Fits.sameType_inlined (hfits : Fits s outerId field plan outer inner wrapper) (ho : s.Owned)
    (houter : outerId ∈ s.decls) (fields : List FieldDecl) (name : String) :
    Signatures.SameType (Signatures.ofShader (inlined s outerId outer plan fields))
      (Signatures.ofShader s) name :=
  Signatures.sameType_of_hasStruct_eq fun _ => hfits.hasStruct_inlined ho houter fields name

/-- Structures of other names are left alone. -/
theorem Fits.sameStructs_inlined (hfits : Fits s outerId field plan outer inner wrapper)
    (ho : s.Owned) (houter : outerId ∈ s.decls) (fields : List FieldDecl) {name : String}
    (hne : name ≠ outer.name) :
    Signatures.SameStructs (Signatures.ofShader (inlined s outerId outer plan fields))
      (Signatures.ofShader s) name := by
  obtain ⟨front, back, hold, hnew⟩ := hfits.exists_structDecls_inlined ho houter fields
  have hfilter : ∀ t : Shader, (Signatures.ofShader t).structs = t.structDecls := fun _ => rfl
  have hskip : ∀ decl : StructDecl, decl.name = outer.name →
      (decl :: back).filter (fun decl => decl.name == name) =
        back.filter fun decl => decl.name == name := fun decl hname =>
    List.filter_cons_of_neg fun heq => hne ((eq_of_beq heq).symm.trans hname)
  rw [Signatures.SameStructs, hfilter, hfilter, hold, hnew, List.filter_append, List.filter_append,
    hskip outer rfl, hskip (widened outer plan.position fields) rfl]

theorem Fits.functions_inlined (hfits : Fits s outerId field plan outer inner wrapper)
    (fields : List FieldDecl) :
    (Signatures.ofShader (inlined s outerId outer plan fields)).functions =
      (Signatures.ofShader s).functions := by
  rw [Shader.functions_eq, Shader.functions_eq, (decls_inlined s outerId outer plan fields).2.2.1]
  refine List.filterMap_congr fun d _ => ?_
  rcases hfits.decl_inlined fields d with heq | ⟨⟨x, hx⟩, y, hy⟩
  · rw [heq]
  · rw [hx, hy]
    rfl

/-! ## Wrappers -/

/-- A member that takes the field of a value of the outer structure is a wrapper. -/
theorem wrapperBase?_exprTree (h : s.Grounded) {types : Types} {outer : String} {id base : ExprId}
    (hid : s.expr id = .member base field) (hbase : types.get? base = some (.struct outer)) :
    wrapperBase? types outer field (s.exprTree id) = some (s.exprTree base) := by
  rw [h.exprTree_eq, hid, ExprNode.map, wrapperBase?, Shader.tag_exprTree]
  exact if_pos ⟨rfl, hbase⟩

/-- Every member that the field is taken of is a wrapper of the plan. -/
theorem Fits.exists_wrapper (hfits : Fits s outerId field plan outer inner wrapper) (h : s.Grounded)
    (ho : s.Owned) {id base : ExprId} (hreached : s.Reaches (.expr id))
    (hid : s.expr id = .member base field)
    (hbase : (Types.ofShader s).get? base = some (.struct outer.name)) :
    ∃ a ∈ plan.accesses, a.wrapper = id := by
  have hwraps := wrapperBase?_exprTree h hid hbase
  obtain ⟨a, ha, heq⟩ := hfits.covered _ (ho.exprTree_mem_exprVisits h hreached) (by rw [hwraps]; rfl)
  exact ⟨a, ha, heq.trans (Shader.tag_exprTree s id)⟩

/-- An expression that is left is no member that the field is taken of. -/
theorem Fits.ne_field (hfits : Fits s outerId field plan outer inner wrapper) (h : s.Grounded)
    (ho : s.Owned) (hinlined : (inlined s outerId outer plan fields).Grounded)
    (howned : (inlined s outerId outer plan fields).Owned) {id base : ExprId} {name : String}
    (hreaches : s.Reaches (.expr id)) (hleft : (inlined s outerId outer plan fields).Reaches (.expr id))
    (hid : s.expr id = .member base name)
    (hbase : (Types.ofShader s).get? base = some (.struct outer.name)) : name ≠ field := by
  rintro rfl
  obtain ⟨a, ha, rfl⟩ := hfits.exists_wrapper h ho hreaches hid hbase
  have hlive' := howned.mem_liveExprs_of_reaches hinlined hleft
  exact ((mem_liveExprs_redirects _).mp hlive').2 a ha rfl

/-! ## Fields -/

/-- A field of the outer structure that stays has the type that it had. -/
theorem Fits.fieldType_outer (hfits : Fits s outerId field plan outer inner wrapper) (ho : s.Owned)
    (hstructs : StructsSound s.structDecls)
    (hstructs' : StructsSound (inlined s outerId outer plan fields).structDecls)
    (houter : outerId ∈ s.decls) (hrenames : Renames (keptNames outer plan.position) inner.fields fields)
    {name : String} (hne : name ≠ field) (hnamed : ∃ f ∈ outer.fields, f.name = name) :
    (Signatures.ofShader (inlined s outerId outer plan fields)).fieldType outer.name name =
      (Signatures.ofShader s).fieldType outer.name name := by
  have hlookup := fieldType_of_mem hstructs'.nodup (hfits.widened_mem ho houter fields) name
  rw [hfits.find?_widened_of_ne hne hrenames.free hnamed] at hlookup
  refine hlookup.trans ?_
  rw [fieldType_of_mem hstructs.nodup (hfits.outer_mem houter)]
  refine Option.bind_congr fun f _ => ?_
  exact hfits.sameType_inlined ho houter fields f.type.name f.arraySize

/-- A field that was made from an inner one is a field of the outer structure now, of its type. -/
theorem Fits.fieldType_new (hfits : Fits s outerId field plan outer inner wrapper) (ho : s.Owned)
    (hstructs : StructsSound s.structDecls)
    (hstructs' : StructsSound (inlined s outerId outer plan fields).structDecls)
    (houter : outerId ∈ s.decls) (hrenames : Renames (keptNames outer plan.position) inner.fields fields)
    {name : String} {position : Nat} (hname : inner.fieldIndex? name = some position) :
    ∃ f ∈ fields, fields[position]? = some f ∧
      (Signatures.ofShader (inlined s outerId outer plan fields)).fieldType outer.name f.name =
        (Signatures.ofShader s).fieldType inner.name name := by
  obtain ⟨front, back, -, hnew⟩ := hfits.exists_structDecls_inlined ho houter fields
  have hwide : widened outer plan.position fields ∈
      (inlined s outerId outer plan fields).structDecls := by simp [hnew]
  have hfound : inner.fields.find? (fun g => g.name == name) = inner.fields[position]? := by
    rw [List.find?_eq_bind_findIdx?_getElem?, show inner.fields.findIdx? _ = some position from hname]
    rfl
  have hlt := StructDecl.lt_of_fieldIndex? hname
  have hsame := hrenames.same position
  rw [List.getElem?_eq_getElem hlt, Option.map_some] at hsame
  obtain ⟨f, hf, heq⟩ := Option.map_eq_some_iff.mp hsame
  obtain ⟨htype, hsize⟩ := Prod.mk.inj heq
  have hmem := List.mem_of_getElem? hf
  have hlookup := fieldType_of_mem hstructs'.nodup hwide f.name
  rw [find?_widened_of_mem hrenames.nodup plan.position hmem (hrenames.free f hmem), Option.bind_some,
    htype, hsize] at hlookup
  refine ⟨f, hmem, hf, hlookup.trans ?_⟩
  rw [fieldType_of_mem hstructs.nodup hfits.inner_mem, hfound, List.getElem?_eq_getElem hlt, Option.bind_some]
  exact hfits.sameType_inlined ho houter fields _ _

end InlineField

/-! ## Accesses that name fields -/

namespace Shader

/-- Whether a member that is taken of a structure is a field of it, as far as types are noted. -/
def namesField (s : Shader) (types : Types) : ExprNode ExprId → Bool
  | .member base field => match types.get? base with
    | some (.struct name) =>
      s.structDecls.any fun decl => decl.name == name && decl.fields.any fun f => f.name == field
    | _ => true
  | _ => true

/-- All members that are taken of structures are fields of them. -/
def NamesFields (s : Shader) : Prop :=
  ∀ id, s.Reaches (.expr id) → s.namesField (Types.ofShader s) (s.expr id) = true

theorem namesFields_of_lt {s : Shader}
    (h : ∀ i < s.exprs.size, s.namesField (Types.ofShader s) (s.expr ⟨i⟩) = true) : s.NamesFields := by
  intro id _
  by_cases hlt : id.index < s.exprs.size
  · exact h id.index hlt
  · rw [expr_of_size_le (Nat.le_of_not_lt hlt)]
    rfl

/-- A shader whose slots are owned and whose structures are sound, with local declarations in blocks
and in headers of loops, and with accesses of structures that name fields of them. -/
structure Regular (s : Shader) : Prop where
  grounded : s.Grounded
  owned : s.Owned
  structs : StructsSound s.structDecls
  placed : s.LocalsPlaced
  named : s.NamesFields

theorem namesField_member {s : Shader} {types : Types} {base : ExprId} {field : String} :
    s.namesField types (.member base field) = true ↔
      ∀ name, types.get? base = some (.struct name) →
        ∃ decl ∈ s.structDecls, decl.name = name ∧ ∃ f ∈ decl.fields, f.name = field := by
  rw [namesField]
  constructor
  · intro h name hbase
    rw [hbase] at h
    simpa using h
  · intro h
    split
    next name hbase => simpa using h name hbase
    next => rfl

end Shader

/-! ## Types -/

namespace InlineField

variable {s : Shader} {outerId : DeclId} {field : String} {plan : Plan} {outer inner : StructDecl}
  {wrapper : FieldDecl} {fields : List FieldDecl}

/-- A call of the constructor of a structure has the type of the structure. -/
theorem callType_of_hasStruct {sig : Signatures} {callee : String} (hname : Ty.ofName? callee = none)
    (hstruct : sig.hasStruct callee = true) (args : List (Option Ty)) :
    sig.callType callee args = some (.struct callee) := by
  rw [Signatures.callType, hname]
  exact if_pos hstruct

theorem hasStruct_of_mem {decl : StructDecl} (hdecl : decl ∈ s.structDecls) :
    (Signatures.ofShader s).hasStruct decl.name = true :=
  List.any_eq_true.mpr ⟨decl, hdecl, BEq.rfl⟩

/-- Names of synthetic structures are not those of types that the language names. -/
theorem ofName?_of_startsWith {name : String} (h : startsWith name structStart = true) :
    Ty.ofName? name = none := by
  have hhead : name.toList.head? = some '_' := by
    obtain ⟨rest, hrest⟩ := List.isPrefixOf_iff_prefix.mp h
    rw [← hrest]
    rfl
  unfold Ty.ofName?
  split
  case h_12 => rfl
  all_goals
    next heq =>
      rw [heq] at hhead
      cases hhead

theorem Fits.recast_inlined (hfits : Fits s outerId field plan outer inner wrapper) (h : s.Grounded)
    (ho : s.Owned) (houter : outerId ∈ s.decls)
    (hinlined : (inlined s outerId outer plan fields).Grounded) :
    s.Recast (inlined s outerId outer plan fields) where
  stmt_eq := (decls_inlined s outerId outer plan fields).2.1
  decl_eq := hfits.decl_inlined fields
  decls_eq := Or.inl (decls_inlined s outerId outer plan fields).2.2.1
  sameType _ _ name _ := hfits.sameType_inlined ho houter fields name
  below id c hc := by
    have hlt := Shader.lt_size_of_mem_exprParts hc
    rw [(decls_inlined s outerId outer plan fields).1] at hlt
    refine ⟨hlt, fun _ => ?_⟩
    have hrises := hfits.rises_inlined h fields
      (P := fun id => Relation.ReflTransGen (fun a b => b ∈ s.exprParts a) id c)
      (fun _ _ hd => .head hd) id c hc .refl
    rcases Relation.reflTransGen_iff_eq_or_transGen.mp hrises with rfl | hbelow
    · obtain ⟨rank, hr⟩ := hinlined.exprs
      exact absurd (hr.falls c c hc).2 (Nat.lt_irrefl _)
    · exact hbelow

/-- What is reached once a field is inlined was reached. -/
theorem Fits.reaches_of_inlined (hfits : Fits s outerId field plan outer inner wrapper)
    (h : s.Grounded) (ho : s.Owned) (houter : outerId ∈ s.decls)
    (hinlined : (inlined s outerId outer plan fields).Grounded)
    (howned : (inlined s outerId outer plan fields).Owned) {id : ExprId}
    (hid : (inlined s outerId outer plan fields).Reaches (.expr id)) : s.Reaches (.expr id) := by
  obtain ⟨d, scope, hscoped⟩ := hid.exists_scoped
  have hlt := Shader.lt_size_of_mem_liveExprs (howned.mem_liveExprs_of_reaches hinlined hid)
  rw [(decls_inlined s outerId outer plan fields).1] at hlt
  exact ((hfits.recast_inlined h ho houter hinlined).scoped hscoped hlt).reaches

/-- What an access of a plan is: a member of a wrapper, for a field of the inner structure. -/
theorem Fits.exists_member (hfits : Fits s outerId field plan outer inner wrapper) (h : s.Grounded)
    {a : Access} (ha : a ∈ plan.accesses) : ∃ name, s.expr a.member = .member a.wrapper name ∧
      (Types.ofShader s).get? a.base = some (.struct outer.name) ∧
      inner.fieldIndex? name = some a.position := by
  obtain ⟨name, base, hvisit, -, htype, hposition⟩ := hfits.exists_visit ha
  exact ⟨name, (h.expr_of_exprTree (h.eq_exprTree_of_mem_exprVisits hvisit).symm).2, htype, hposition⟩

/-- A member of a wrapper has the type of the inner field. -/
theorem Fits.typeAt_member (hfits : Fits s outerId field plan outer inner wrapper) (h : s.Grounded)
    (hstructs : StructsSound s.structDecls) (houter : outerId ∈ s.decls) {a : Access}
    (ha : a ∈ plan.accesses) {scope : TypeScope} {name : String}
    (hmember : s.expr a.member = .member a.wrapper name)
    (hbase : s.typeAt scope a.base = some (.struct outer.name)) :
    s.typeAt scope a.member = (Signatures.ofShader s).fieldType inner.name name := by
  have hresolve : (Signatures.ofShader s).resolve wrapper.type none = some (.struct inner.name) := by
    have hhas := hasStruct_of_mem hfits.inner_mem
    have hnone := ofName?_of_startsWith hfits.inner_start
    rw [Signatures.resolve, ← hfits.inner_name, hnone, hhas]
    rfl
  have hwrapper : s.typeAt scope a.wrapper = some (.struct inner.name) := by
    rw [h.typeAt_eq, (hfits.through h ha).wrapper_eq, Signatures.formType, hbase, Option.bind_some,
      Signatures.memberType, hfits.fieldType_eq hstructs.nodup houter, hresolve]
  rw [h.typeAt_eq, hmember, Signatures.formType, hwrapper]
  rfl

/-- Inlining a field changes no type, if no access names a field that is not there: the type of an
expression is the same if those of its parts are, in a scope that the expressions below it are noted
in. -/
theorem Fits.formType_inlined (hfits : Fits s outerId field plan outer inner wrapper) (h : s.Grounded)
    (ho : s.Owned) (hsound : StructsSound s.structDecls) (hnamed : s.NamesFields)
    (houter : outerId ∈ s.decls)
    (hrenames : Renames (keptNames outer plan.position) inner.fields fields)
    (hinlined : (inlined s outerId outer plan fields).Grounded)
    (howned : (inlined s outerId outer plan fields).Owned)
    (hstructs : StructsSound (inlined s outerId outer plan fields).structDecls) {scope : TypeScope}
    {id : ExprId} (hid : s.Reaches (.expr id))
    (hid' : (inlined s outerId outer plan fields).Reaches (.expr id))
    (hnoted : ∀ c, s.ExprBelow id c → (Types.ofShader s).get? c = s.typeAt scope c)
    (hparts : ∀ c ∈ ((inlined s outerId outer plan fields).expr id).children,
      c.index < s.exprs.size →
        (inlined s outerId outer plan fields).typeAt scope c = s.typeAt scope c) :
    (Signatures.ofShader (inlined s outerId outer plan fields)).formType scope
      ((inlined s outerId outer plan fields).typeAt scope)
      ((inlined s outerId outer plan fields).expr id) = s.typeAt scope id := by
  have hsame := hfits.sameType_inlined ho houter fields
  have houterMem := hfits.outer_mem houter
  have houterNone := ofName?_of_startsWith hfits.outer_start
  have hlt : ∀ id, ∀ c ∈ (s.expr id).children, c.index < s.exprs.size := by
    intro id c hc
    obtain ⟨rank, hr⟩ := h.exprs
    exact (hr.falls id c hc).1
  obtain heq | ⟨args, args', hcall, heq⟩ | ⟨a, ha, rfl, heq⟩ := hfits.expr_inlined h fields id
  · rw [heq] at hparts ⊢
    rw [h.typeAt_eq]
    refine Signatures.formType_congr (fun c hc => hparts c hc (hlt id c hc)) (fun _ _ => rfl)
      (fun callee args hform => ?_) fun base name hform type htype => ?_
    · refine Signatures.callType_congr _
        (fun _ => hfits.hasStruct_inlined ho houter fields callee) (fun _ => ?_)
        fun f hf => ⟨hsame _, fun p hp => hsame _⟩
      rw [Signatures.SameFunctions, hfits.functions_inlined fields]
    · cases type with
      | struct name' =>
          have hbase : (Types.ofShader s).get? base = some (.struct name') := by
            rw [hnoted base (Shader.exprBelow_of_mem (by
              simp [Shader.exprParts, hform, ExprNode.children])), htype]
          by_cases hname : name' = outer.name
          · subst hname
            have hne := hfits.ne_field h ho hinlined howned hid hid' hform hbase
            obtain ⟨decl, hdecl, hdeclName, hfield⟩ :=
              Shader.namesField_member.mp (hform ▸ hnamed id hid) _ hbase
            obtain rfl := hsound.eq_of_name_eq hdecl houterMem hdeclName
            exact hfits.fieldType_outer ho hsound hstructs houter hrenames hne hfield
          · exact (hfits.sameStructs_inlined ho houter fields hname).fieldType_eq
              (fun _ _ member _ => hsame member.type.name) name
      | _ => rfl
  · have hhas := hasStruct_of_mem houterMem
    have hhas' := hhas
    rw [← hfits.hasStruct_inlined ho houter fields] at hhas'
    rw [heq, h.typeAt_eq, hcall, Signatures.formType, Signatures.formType,
      callType_of_hasStruct houterNone hhas, callType_of_hasStruct houterNone hhas']
  · obtain ⟨name, hmember, htype, hposition⟩ := hfits.exists_member h ha
    obtain ⟨f, hf, hget, hfieldType⟩ :=
      hfits.fieldType_new ho hsound hstructs houter hrenames hposition
    have hwrapperEq := (hfits.through h ha).wrapper_eq
    have hbelow : s.ExprBelow a.member a.base := by
      have hwrapper : s.ExprBelow a.member a.wrapper :=
        Shader.exprBelow_of_mem (by simp [Shader.exprParts, hmember, ExprNode.children])
      exact hwrapper.tail (by simp [Shader.exprParts, hwrapperEq, ExprNode.children])
    have hbase : s.typeAt scope a.base = some (.struct outer.name) := by
      rw [← htype, hnoted a.base hbelow]
    have hbase' := hparts a.base (by simp [heq, ExprNode.children])
      (hlt a.wrapper a.base (by simp [hwrapperEq, ExprNode.children]))
    rw [hfits.typeAt_member h hsound houter ha hmember hbase, ← hfieldType, heq,
      Signatures.formType, hbase', hbase, List.getElem?_map, hget]
    rfl

theorem Fits.retypes_inlined (hfits : Fits s outerId field plan outer inner wrapper) (hs : s.Regular)
    (houter : outerId ∈ s.decls)
    (hrenames : Renames (keptNames outer plan.position) inner.fields fields)
    (hinlined : (inlined s outerId outer plan fields).Grounded)
    (howned : (inlined s outerId outer plan fields).Owned)
    (hstructs : StructsSound (inlined s outerId outer plan fields).structDecls) :
    s.Retypes (inlined s outerId outer plan fields) := by
  refine (hfits.recast_inlined hs.grounded hs.owned houter hinlined).retypes hinlined
    fun d scope id _ hid' hid hparts => ?_
  refine hfits.formType_inlined hs.grounded hs.owned hs.structs hs.named houter hrenames hinlined howned
    hstructs hid.reaches hid'.reaches (fun c hc => ?_) hparts
  exact (hid.of_exprBelow hc).get?_eq hs.grounded hs.owned hs.placed

/-- After a field was inlined, all members that are taken of structures still are fields of them. -/
theorem Fits.namesFields_inlined (hfits : Fits s outerId field plan outer inner wrapper)
    (h : s.Grounded) (ho : s.Owned) (hsound : StructsSound s.structDecls) (hnamed : s.NamesFields)
    (houter : outerId ∈ s.decls)
    (hrenames : Renames (keptNames outer plan.position) inner.fields fields)
    (hinlined : (inlined s outerId outer plan fields).Grounded)
    (howned : (inlined s outerId outer plan fields).Owned)
    (hstructs : StructsSound (inlined s outerId outer plan fields).structDecls)
    (htypes : ∀ id, (inlined s outerId outer plan fields).Reaches (.expr id) →
      (Types.ofShader (inlined s outerId outer plan fields)).get? id = (Types.ofShader s).get? id) :
    (inlined s outerId outer plan fields).NamesFields := by
  intro id hid'
  have hid := hfits.reaches_of_inlined h ho houter hinlined howned hid'
  have hwide := hfits.widened_mem ho houter fields
  obtain heq | ⟨args, args', hcall, heq⟩ | ⟨a, ha, rfl, heq⟩ :=
    hfits.expr_inlined h fields id
  · cases hform : s.expr id with
    | member base name =>
        rw [heq, hform, Shader.namesField_member]
        intro name' hbase
        rw [htypes base (.expr hid' (by simp [Shader.exprsIn, heq, hform, ExprNode.children]))] at hbase
        obtain ⟨decl, hdecl, rfl, f, hf, rfl⟩ :=
          Shader.namesField_member.mp (hform ▸ hnamed id hid) _ hbase
        by_cases hname : decl.name = outer.name
        · obtain rfl := hsound.eq_of_name_eq hdecl (hfits.outer_mem houter) hname
          have hne := hfits.ne_field h ho hinlined howned hid hid' hform hbase
          exact ⟨_, hwide, rfl, f, hfits.mem_widened hf hne, rfl⟩
        · exact ⟨decl, hfits.mem_structDecls_inlined ho houter fields hdecl hname, rfl, f, hf, rfl⟩
    | _ => rw [heq, hform]; rfl
  · rw [heq]
    rfl
  · rw [heq, Shader.namesField_member]
    intro name' hbase
    obtain ⟨name, -, htype, hposition⟩ := hfits.exists_member h ha
    obtain ⟨f, hf, hget, -⟩ :=
      hfits.fieldType_new ho hsound hstructs houter hrenames hposition
    rw [htypes a.base (.expr hid' (by simp [Shader.exprsIn, heq, ExprNode.children])), htype] at hbase
    cases hbase
    refine ⟨_, hwide, rfl, f, List.mem_append_left _ (List.mem_append_right _ hf), ?_⟩
    rw [List.getElem?_map, hget]
    rfl

/-- A shader is left alone, or a field is inlined in it. -/
theorem apply_eq_or_inlined (s : Shader) (supply : NameSupply) (outerId : DeclId) (field : String) :
    (apply s supply outerId field).1 = s ∨ ∃ plan outer inner wrapper fields,
      Fits s outerId field plan outer inner wrapper ∧
      Renames (keptNames outer plan.position) inner.fields fields ∧
      (apply s supply outerId field).1 = inlined s outerId outer plan fields := by
  cases hplan : plan? s (Types.ofShader s) outerId field with
  | none => exact Or.inl (by rw [apply, hplan])
  | some plan =>
      obtain ⟨outer, inner, wrapper, hfits⟩ := exists_fits hplan
      exact Or.inr ⟨plan, outer, inner, wrapper, _, hfits, renames_renamed field _ supply _,
        hfits.apply_eq hplan supply⟩

theorem retypes_apply (hs : s.Regular) (supply : NameSupply) (hholds : holds s outerId field = true) :
    s.Retypes (apply s supply outerId field).1 := by
  have ht := grounded_apply hs.grounded supply outerId field
  obtain ⟨hto, hstructs⟩ := owned_apply hs.grounded hs.owned hs.structs supply hholds
  obtain heq | ⟨plan, outer, inner, wrapper, fields, hfits, hrenames, heq⟩ :=
    apply_eq_or_inlined s supply outerId field
  · rw [heq]
    exact fun _ scope _ hid _ => ⟨scope, hid, rfl⟩
  · rw [heq] at ht hto hstructs ⊢
    exact hfits.retypes_inlined hs (mem_decls_of_holds hholds) hrenames ht hto hstructs

theorem namesFields_apply (hs : s.Regular) (supply : NameSupply)
    (hholds : holds s outerId field = true)
    (htypes : ∀ id, (apply s supply outerId field).1.Reaches (.expr id) →
      (Types.ofShader (apply s supply outerId field).1).get? id = (Types.ofShader s).get? id) :
    (apply s supply outerId field).1.NamesFields := by
  have ht := grounded_apply hs.grounded supply outerId field
  obtain ⟨hto, hstructs⟩ := owned_apply hs.grounded hs.owned hs.structs supply hholds
  obtain heq | ⟨plan, outer, inner, wrapper, fields, hfits, hrenames, heq⟩ :=
    apply_eq_or_inlined s supply outerId field
  · rw [heq]
    exact hs.named
  · rw [heq] at ht hto hstructs htypes ⊢
    exact hfits.namesFields_inlined hs.grounded hs.owned hs.structs hs.named (mem_decls_of_holds hholds) hrenames ht hto hstructs htypes

end InlineField

end ShaderReducer
