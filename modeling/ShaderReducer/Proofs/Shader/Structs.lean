import Mathlib.Algebra.Order.BigOperators.Group.List
import Mathlib.Algebra.Order.Group.Nat
import Mathlib.Logic.Relation
import ShaderReducer.Proofs.Shader.Placed

/-!
# Structures in structures

The structures of a shader, and which of them hold which. The reduction of structures relies on
distinct names and on no structure holding itself; neither is lost by a change.
-/

namespace ShaderReducer

/-- A structure holds another if it has a field of its type. -/
def StructDecl.Holds (decls : List StructDecl) (outer inner : String) : Prop :=
  ∃ decl ∈ decls, decl.name = outer ∧ ∃ field ∈ decl.fields, field.type.name = inner

/-- Structures with distinct names, none of which holds itself, directly or through others. -/
structure StructsSound (decls : List StructDecl) : Prop where
  nodup : (decls.map StructDecl.name).Nodup
  acyclic : ∀ name, ¬ Relation.TransGen (StructDecl.Holds decls) name name

namespace StructsSound

variable {decls decls' : List StructDecl}

/-- The structures are still sound if they have fewer names and hold no more than before. -/
theorem of_holds (h : StructsSound decls)
    (hnames : (decls'.map StructDecl.name).Sublist (decls.map StructDecl.name))
    (hholds : ∀ outer inner, StructDecl.Holds decls' outer inner →
      Relation.TransGen (StructDecl.Holds decls) outer inner) : StructsSound decls' where
  nodup := h.nodup.sublist hnames
  acyclic name hcycle := h.acyclic name (Relation.TransGen.closed hholds _ _ hcycle)

/-- Structures are sound if each comes after those it holds, in some ranking of names. -/
theorem of_rank (rank : String → Nat) (hnodup : (decls.map StructDecl.name).Nodup)
    (hfalls : ∀ decl ∈ decls, ∀ field ∈ decl.fields, rank field.type.name < rank decl.name) :
    StructsSound decls := by
  refine ⟨hnodup, fun name hcycle => ?_⟩
  have hlt : ∀ outer inner, Relation.TransGen (StructDecl.Holds decls) outer inner →
      rank inner < rank outer := by
    intro outer inner h
    induction h with
    | single h =>
        obtain ⟨decl, hdecl, rfl, field, hfield, rfl⟩ := h
        exact hfalls decl hdecl field hfield
    | tail _ h ih =>
        obtain ⟨decl, hdecl, rfl, field, hfield, rfl⟩ := h
        exact (hfalls decl hdecl field hfield).trans ih
  exact Nat.lt_irrefl _ (hlt name name hcycle)

theorem sublist (h : StructsSound decls) (hsub : decls'.Sublist decls) : StructsSound decls' := by
  refine h.of_holds (hsub.map _) fun outer inner hh => Relation.TransGen.single ?_
  obtain ⟨decl, hdecl, hname, hfield⟩ := hh
  exact ⟨decl, hsub.subset hdecl, hname, hfield⟩

/-- A field is not of the type of its own structure. -/
theorem name_ne (h : StructsSound decls) {decl : StructDecl} (hdecl : decl ∈ decls)
    {field : FieldDecl} (hfield : field ∈ decl.fields) : field.type.name ≠ decl.name := by
  intro hname
  exact h.acyclic decl.name (.single ⟨decl, hdecl, rfl, field, hfield, hname⟩)

/-- A structure is told by its name. -/
theorem eq_of_name_eq (h : StructsSound decls) {a b : StructDecl} (ha : a ∈ decls) (hb : b ∈ decls)
    (hname : a.name = b.name) : a = b :=
  List.inj_on_of_nodup_map h.nodup ha hb hname

end StructsSound

theorem StructDecl.lt_of_fieldIndex? {decl : StructDecl} {name : String} {i : Nat}
    (h : decl.fieldIndex? name = some i) : i < decl.fields.length :=
  (List.findIdx?_eq_some_iff_getElem.mp h).1

theorem Decl.struct?_eq_some {ρ σ : Type} {d : Decl ρ σ} {decl : StructDecl} :
    d.struct? = some decl ↔ d = .struct decl := by
  cases d <;> simp [Decl.struct?]

theorem Decl.function?_eq_some {ρ σ : Type} {d : Decl ρ σ} {decl : FunctionDecl σ} :
    d.function? = some decl ↔ d = .function decl := by
  cases d <;> simp [Decl.function?]

/-- The structures of a program. -/
def Program.structDecls (p : Program) : List StructDecl :=
  p.decls.filterMap Decl.struct?

namespace Shader

/-- The structures of a shader. -/
def structDecls (s : Shader) : List StructDecl :=
  s.structs.map Prod.snd

theorem structDecls_eq (s : Shader) :
    s.structDecls = s.decls.filterMap fun d => (s.decl d).struct? := by
  rw [structDecls, structs, List.map_filterMap]
  refine List.filterMap_congr fun d _ => ?_
  cases (s.decl d).struct? <;> rfl

theorem mem_structDecls {s : Shader} {decl : StructDecl} :
    decl ∈ s.structDecls ↔ ∃ d ∈ s.decls, s.decl d = .struct decl := by
  rw [structDecls_eq, List.mem_filterMap]
  exact exists_congr fun d => and_congr_right fun _ => Decl.struct?_eq_some

theorem mem_functions {s : Shader} {d : DeclId} {f : FunctionDecl StmtId} :
    (d, f) ∈ s.functions ↔ d ∈ s.decls ∧ s.decl d = .function f := by
  simp [functions, List.mem_filterMap, Option.map_eq_some_iff, Decl.function?_eq_some]

theorem structDecls_toProgram (s : Shader) : s.toProgram.structDecls = s.structDecls := by
  rw [structDecls_eq, Program.structDecls, toProgram, declTrees, List.map_map, List.filterMap_map]
  refine List.filterMap_congr fun d _ => ?_
  rw [Function.comp_apply, Function.comp_apply, declTree, DeclTree.erase]
  cases s.decl d <;> rfl

theorem structDecls_ofProgram (p : Program) : (ofProgram p).structDecls = p.structDecls := by
  rw [← structDecls_toProgram, toProgram_ofProgram]

theorem structDecls_compact (s : Shader) : s.compact.structDecls = s.structDecls := by
  rw [← structDecls_toProgram, toProgram_compact, structDecls_toProgram]

theorem structDecls_congr {s t : Shader} (hdecls : t.decls = s.decls)
    (hnodes : t.declNodes = s.declNodes) : t.structDecls = s.structDecls := by
  have hdecl : t.decl = s.decl := by
    funext d
    rw [decl, hnodes, decl]
  rw [structDecls_eq, structDecls_eq, hdecls, hdecl]

/-- Taking a declaration away takes away a structure at most. -/
theorem structDecls_removeDecl (s : Shader) (id : DeclId) :
    (s.removeDecl id).2.structDecls.Sublist s.structDecls := by
  rw [structDecls_eq, structDecls_eq, decl_removeDecl, decls_removeDecl]
  exact List.erase_sublist.filterMap _

end Shader

/-!
## The volume of structures

Putting the fields of an inner structure in the place of a field makes the outer structure longer,
but not larger in the end: the field that held the inner structure is gone. The volume of a structure
counts its fields, and for a field that holds a structure also the fields in there, however deep.
Where no structure holds itself this is a number, and inlining a field makes it less.
-/

namespace StructDecl

/-- The number of fields of the structures with a name, those of inner structures included, down to
some depth. -/
def volumeWithin (decls : List StructDecl) : Nat → String → Nat
  | 0, _ => 0
  | depth + 1, name =>
    ((decls.filter fun decl => decl.name == name).map fun decl =>
      (decl.fields.map fun field => 1 + volumeWithin decls depth field.type.name).sum).sum

/-- The number of fields of the structures with a name, those of inner structures included. No way
down is longer than there are structures. -/
def volume (decls : List StructDecl) (name : String) : Nat :=
  volumeWithin decls (decls.length + 1) name

/-- The volume of some fields. -/
def fieldsVolume (decls : List StructDecl) (fields : List FieldDecl) : Nat :=
  (fields.map fun field => 1 + volume decls field.type.name).sum

/-- The volume of the fields of those among some structures that have a name. -/
def namedVolume (decls among : List StructDecl) (name : String) : Nat :=
  ((among.filter fun decl => decl.name == name).map fun decl =>
    fieldsVolume decls decl.fields).sum

/-- The volume of all structures together. -/
def totalVolume (decls : List StructDecl) : Nat :=
  (decls.map fun decl => volume decls decl.name).sum

variable {decls decls' : List StructDecl}

theorem namedVolume_append (front back : List StructDecl) (name : String) :
    namedVolume decls (front ++ back) name =
      namedVolume decls front name + namedVolume decls back name := by
  rw [namedVolume, List.filter_append, List.map_append, List.sum_append]
  rfl

theorem namedVolume_cons (decl : StructDecl) (rest : List StructDecl) (name : String) :
    namedVolume decls (decl :: rest) name =
      (if decl.name = name then fieldsVolume decls decl.fields else 0) +
        namedVolume decls rest name := by
  rw [namedVolume, List.filter_cons]
  by_cases hname : decl.name = name
  · rw [if_pos (beq_iff_eq.mpr hname), if_pos hname]
    rfl
  · rw [if_neg (by simpa using hname), if_neg hname, Nat.zero_add]
    rfl

theorem fieldsVolume_le {fields : List FieldDecl}
    (h : ∀ field ∈ fields, volume decls' field.type.name ≤ volume decls field.type.name) :
    fieldsVolume decls' fields ≤ fieldsVolume decls fields :=
  List.sum_le_sum fun field hfield => Nat.add_le_add_left (h field hfield) 1

/-- What the fields are called, and in what order they stand, does not matter. -/
theorem fieldsVolume_of_perm {fields fields' : List FieldDecl}
    (h : (fields.map FieldDecl.type).Perm (fields'.map FieldDecl.type)) :
    fieldsVolume decls fields = fieldsVolume decls fields' := by
  have hsum := (h.map fun type => 1 + volume decls type.name).sum_eq
  rw [List.map_map, List.map_map] at hsum
  exact hsum

theorem fieldsVolume_append (fields fields' : List FieldDecl) :
    fieldsVolume decls (fields ++ fields') =
      fieldsVolume decls fields + fieldsVolume decls fields' := by
  rw [fieldsVolume, List.map_append, List.sum_append]
  rfl

theorem fieldsVolume_cons (field : FieldDecl) (fields : List FieldDecl) :
    fieldsVolume decls (field :: fields) =
      1 + volume decls field.type.name + fieldsVolume decls fields :=
  rfl

theorem namedVolume_le {among : List StructDecl} {name : String}
    (h : ∀ decl ∈ among, decl.name = name →
      fieldsVolume decls' decl.fields ≤ fieldsVolume decls decl.fields) :
    namedVolume decls' among name ≤ namedVolume decls among name := by
  refine List.sum_le_sum fun decl hdecl => ?_
  obtain ⟨hdecl, hname⟩ := List.mem_filter.mp hdecl
  exact h decl hdecl (eq_of_beq hname)

theorem volumeWithin_of_notMem {name : String} (h : ∀ decl ∈ decls, decl.name ≠ name) (depth : Nat) :
    volumeWithin decls depth name = 0 := by
  cases depth with
  | zero => rfl
  | succ depth =>
      have hnone : decls.filter (fun decl => decl.name == name) = [] :=
        List.filter_eq_nil_iff.mpr fun decl hdecl => by simpa using h decl hdecl
      rw [volumeWithin, hnone]
      rfl

end StructDecl

namespace StructsSound

open StructDecl

variable {decls decls' : List StructDecl}

open Classical in
/-- The number of structures that a structure holds, directly or through others. -/
noncomputable def height (decls : List StructDecl) (name : String) : Nat :=
  ((decls.map StructDecl.name).filter fun inner =>
    Relation.TransGen (StructDecl.Holds decls) name inner).length

theorem height_le (decls : List StructDecl) (name : String) : height decls name ≤ decls.length := by
  rw [height]
  exact (List.length_filter_le _ _).trans_eq (List.length_map _)

/-- What a structure holds is lower: it holds less, because it does not hold itself. -/
theorem height_lt (h : StructsSound decls) {outer : String} {inner : StructDecl}
    (hinner : inner ∈ decls) (hholds : Relation.TransGen (StructDecl.Holds decls) outer inner.name) :
    height decls inner.name < height decls outer := by
  classical
  have hsub : ((decls.map StructDecl.name).filter fun name =>
      Relation.TransGen (StructDecl.Holds decls) inner.name name).Sublist
        (((decls.map StructDecl.name).filter fun name =>
          Relation.TransGen (StructDecl.Holds decls) outer name).filter (· ≠ inner.name)) := by
    rw [List.filter_filter]
    refine List.monotone_filter_right _ fun name hname => ?_
    rw [decide_eq_true_eq] at hname
    simp only [Bool.and_eq_true, decide_eq_true_eq]
    refine ⟨?_, hholds.trans hname⟩
    rintro rfl
    exact h.acyclic _ hname
  have hmem : inner.name ∈ (decls.map StructDecl.name).filter fun name =>
      Relation.TransGen (StructDecl.Holds decls) outer name :=
    List.mem_filter.mpr ⟨List.mem_map_of_mem hinner, by simpa using hholds⟩
  refine hsub.length_le.trans_lt ?_
  rw [height]
  exact List.length_filter_lt_length_iff_exists.mpr ⟨inner.name, hmem, by simp⟩

/-- A property of all names follows for a name from the structures that it holds. -/
theorem name_induction (h : StructsSound decls) {motive : String → Prop}
    (step : ∀ name, (∀ inner ∈ decls, Relation.TransGen (StructDecl.Holds decls) name inner.name →
      motive inner.name) → motive name) (name : String) : motive name := by
  induction hn : height decls name using Nat.strongRecOn generalizing name with
  | _ n ih =>
      refine step name fun inner hinner hholds => ih _ ?_ _ rfl
      rw [← hn]
      exact h.height_lt hinner hholds

/-- Looking deeper than a structure is high finds nothing more. -/
theorem volumeWithin_eq (h : StructsSound decls) {depth depth' : Nat} {name : String}
    (hd : height decls name < depth) (hd' : height decls name < depth') :
    volumeWithin decls depth name = volumeWithin decls depth' name := by
  induction depth generalizing depth' name with
  | zero => omega
  | succ depth ih =>
      obtain ⟨depth', rfl⟩ := Nat.exists_eq_succ_of_ne_zero (by omega : depth' ≠ 0)
      rw [volumeWithin, volumeWithin]
      refine congrArg List.sum (List.map_congr_left fun decl hdecl => ?_)
      obtain ⟨hdecl, hname⟩ := List.mem_filter.mp hdecl
      refine congrArg List.sum (List.map_congr_left fun field hfield => ?_)
      by_cases hinner : ∃ inner ∈ decls, inner.name = field.type.name
      · obtain ⟨inner, hmem, hinner⟩ := hinner
        have hholds : StructDecl.Holds decls name inner.name :=
          ⟨decl, hdecl, eq_of_beq hname, field, hfield, hinner.symm⟩
        have hlt := h.height_lt hmem (.single hholds)
        have heq : volumeWithin decls depth inner.name = volumeWithin decls depth' inner.name :=
          ih (by omega) (by omega)
        rw [← hinner, heq]
      · have hnone : ∀ inner ∈ decls, inner.name ≠ field.type.name := fun inner hmem heq =>
          hinner ⟨inner, hmem, heq⟩
        rw [volumeWithin_of_notMem hnone, volumeWithin_of_notMem hnone]

/-- The volume of a structure is that of its fields. -/
theorem volume_eq (h : StructsSound decls) (name : String) :
    volume decls name = namedVolume decls decls name := by
  have hdeeper : volume decls name = volumeWithin decls (decls.length + 2) name :=
    h.volumeWithin_eq (Nat.lt_succ_of_le (height_le decls name))
      (Nat.lt_succ_of_lt (Nat.lt_succ_of_le (height_le decls name)))
  rw [hdeeper]
  rfl

theorem fieldsVolume_le_volume (h : StructsSound decls) {decl : StructDecl} (hdecl : decl ∈ decls) :
    fieldsVolume decls decl.fields ≤ volume decls decl.name := by
  rw [h.volume_eq]
  refine List.single_le_sum (fun _ _ => Nat.zero_le _) _ ?_
  exact List.mem_map_of_mem (List.mem_filter.mpr ⟨hdecl, BEq.rfl⟩)

/-- The volume of a field is not larger than before if that is so for structures with its name. -/
theorem volume_field_le {field : FieldDecl}
    (hnames : ∀ decl ∈ decls', ∃ old ∈ decls, old.name = decl.name)
    (h : ∀ inner ∈ decls, inner.name = field.type.name →
      volume decls' inner.name ≤ volume decls inner.name) :
    volume decls' field.type.name ≤ volume decls field.type.name := by
  by_cases hinner : ∃ inner ∈ decls, inner.name = field.type.name
  · obtain ⟨inner, hmem, hinner⟩ := hinner
    exact hinner ▸ h inner hmem hinner
  · have hnone : ∀ decl ∈ decls', decl.name ≠ field.type.name := by
      intro decl hdecl hname
      obtain ⟨old, hold, holdName⟩ := hnames decl hdecl
      exact hinner ⟨old, hold, holdName.trans hname⟩
    rw [volume, volumeWithin_of_notMem hnone]
    exact Nat.zero_le _

/-- With fewer structures no volume is larger. -/
theorem volume_le_of_sublist (h : StructsSound decls) (hsub : decls'.Sublist decls) (name : String) :
    volume decls' name ≤ volume decls name := by
  induction name using h.name_induction with
  | step name ih =>
      have hbelow : namedVolume decls' decls' name ≤ namedVolume decls decls' name := by
        refine namedVolume_le fun decl hdecl hname => fieldsVolume_le fun field hfield => ?_
        refine volume_field_le (fun old hold => ⟨old, hsub.subset hold, rfl⟩) ?_
        intro inner hinner heq
        exact ih inner hinner (.single ⟨decl, hsub.subset hdecl, hname, field, hfield, heq.symm⟩)
      rw [h.volume_eq, (h.sublist hsub).volume_eq]
      refine hbelow.trans ?_
      exact List.Sublist.sum_le_sum ((hsub.filter _).map _) fun _ _ => Nat.zero_le _

theorem totalVolume_le_of_sublist (h : StructsSound decls) (hsub : decls'.Sublist decls) :
    totalVolume decls' ≤ totalVolume decls := by
  refine (List.sum_le_sum fun decl _ => h.volume_le_of_sublist hsub decl.name).trans ?_
  exact List.Sublist.sum_le_sum (hsub.map _) fun _ _ => Nat.zero_le _

/-! ## A structure with other fields -/

variable {front back : List StructDecl} {outer wide : StructDecl}

theorem exists_name_of_replace (hname : wide.name = outer.name) :
    ∀ decl ∈ front ++ wide :: back, ∃ old ∈ front ++ outer :: back, old.name = decl.name := by
  intro decl hdecl
  rcases List.mem_append.mp hdecl with hdecl | hdecl
  · exact ⟨decl, by simp [hdecl], rfl⟩
  · rcases List.mem_cons.mp hdecl with rfl | hdecl
    · exact ⟨outer, by simp, hname.symm⟩
    · exact ⟨decl, by simp [hdecl], rfl⟩

/-- A structure gets fields of less volume, and holds nothing that it did not hold before. Then no
volume is larger than before. -/
theorem volume_le_of_replace (h : StructsSound (front ++ outer :: back))
    (h' : StructsSound (front ++ wide :: back)) (hname : wide.name = outer.name)
    (hheld : ∀ field ∈ wide.fields,
      Relation.TransGen (StructDecl.Holds (front ++ outer :: back)) outer.name field.type.name)
    (hless : fieldsVolume (front ++ outer :: back) wide.fields ≤
      fieldsVolume (front ++ outer :: back) outer.fields) (name : String) :
    volume (front ++ wide :: back) name ≤ volume (front ++ outer :: back) name := by
  induction name using h.name_induction with
  | step name ih =>
      have hfields : ∀ fields : List FieldDecl, (∀ field ∈ fields,
          Relation.TransGen (StructDecl.Holds (front ++ outer :: back)) name field.type.name) →
          fieldsVolume (front ++ wide :: back) fields ≤
            fieldsVolume (front ++ outer :: back) fields := by
        intro fields hbelow
        refine fieldsVolume_le fun field hfield => ?_
        refine volume_field_le (exists_name_of_replace hname) fun inner hinner heq => ?_
        exact ih inner hinner (heq ▸ hbelow field hfield)
      have hothers : ∀ others : List StructDecl, (∀ decl ∈ others, decl ∈ front ++ outer :: back) →
          namedVolume (front ++ wide :: back) others name ≤
            namedVolume (front ++ outer :: back) others name := by
        intro others hsub
        refine namedVolume_le fun decl hdecl hdeclName => hfields _ fun field hfield => ?_
        exact .single ⟨decl, hsub decl hdecl, hdeclName, field, hfield, rfl⟩
      rw [h.volume_eq, h'.volume_eq, namedVolume_append, namedVolume_append, namedVolume_cons,
        namedVolume_cons, hname]
      refine Nat.add_le_add (hothers front fun decl hdecl => by simp [hdecl])
        (Nat.add_le_add ?_ (hothers back fun decl hdecl => by simp [hdecl]))
      split
      next hcond => exact (hfields wide.fields (hcond ▸ hheld)).trans hless
      next => exact Nat.le_refl _

/-- If the fields have less volume than before, so have all structures together. -/
theorem totalVolume_lt_of_replace (h : StructsSound (front ++ outer :: back))
    (h' : StructsSound (front ++ wide :: back)) (hname : wide.name = outer.name)
    (hheld : ∀ field ∈ wide.fields,
      Relation.TransGen (StructDecl.Holds (front ++ outer :: back)) outer.name field.type.name)
    (hless : fieldsVolume (front ++ outer :: back) wide.fields <
      fieldsVolume (front ++ outer :: back) outer.fields) :
    totalVolume (front ++ wide :: back) < totalVolume (front ++ outer :: back) := by
  have hle := h.volume_le_of_replace h' hname hheld hless.le
  have hfields : ∀ fields, fieldsVolume (front ++ wide :: back) fields ≤
      fieldsVolume (front ++ outer :: back) fields :=
    fun fields => fieldsVolume_le fun field _ => hle field.type.name
  have hlt : volume (front ++ wide :: back) outer.name <
      volume (front ++ outer :: back) outer.name := by
    rw [h.volume_eq, h'.volume_eq, namedVolume_append, namedVolume_append, namedVolume_cons,
      namedVolume_cons, if_pos hname, if_pos rfl]
    have hnamed : ∀ among, namedVolume (front ++ wide :: back) among outer.name ≤
        namedVolume (front ++ outer :: back) among outer.name :=
      fun among => namedVolume_le fun decl _ _ => hfields decl.fields
    have hfront := hnamed front
    have hback := hnamed back
    have hwide := (hfields wide.fields).trans_lt hless
    omega
  have hsum : ∀ others : List StructDecl,
      (others.map fun decl => volume (front ++ wide :: back) decl.name).sum ≤
        (others.map fun decl => volume (front ++ outer :: back) decl.name).sum :=
    fun others => List.sum_le_sum fun decl _ => hle decl.name
  have hfront := hsum front
  have hback := hsum back
  simp only [totalVolume, List.map_append, List.map_cons, List.sum_append, List.sum_cons, hname]
  omega

end StructsSound

end ShaderReducer
