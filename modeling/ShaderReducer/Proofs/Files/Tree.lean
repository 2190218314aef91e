import ShaderReducer.Files.Disk
import ShaderReducer.Files.Path

/-!
# Paths and trees of files

A file is named by what its path ends with, and a change to it is a change to the tree of all files.
-/

namespace ShaderReducer

/-!
## The names that paths end with

What a path ends with does not depend on the directory that it is joined to. A text without slashes
that is added to a path is added to the name that it ends with.
-/

namespace Text

variable {sep : Char}

theorem splitOn_cons_self (rest : List Char) :
    splitOn sep (sep :: rest) = [] :: splitOn sep rest := by
  cases hrest : splitOn sep rest with
  | nil => exact absurd hrest (splitOn_ne_nil sep rest)
  | cons piece pieces =>
      rw [splitOn, hrest]
      exact if_pos rfl

theorem splitOn_cons_of_ne {c : Char} (hc : c ≠ sep) {rest piece : List Char}
    {pieces : List (List Char)} (hrest : splitOn sep rest = piece :: pieces) :
    splitOn sep (c :: rest) = (c :: piece) :: pieces := by
  rw [splitOn, hrest]
  exact if_neg hc

/-- Of the pieces of a text that goes on without separators, the last one goes on. -/
theorem exists_splitOn_append {b : List Char} (hb : sep ∉ b) (a : List Char) :
    ∃ front piece, splitOn sep a = front ++ [piece] ∧ splitOn sep (a ++ b) = front ++ [piece ++ b] := by
  have hone : splitOn sep b = [b] := by
    induction b with
    | nil => rfl
    | cons c b ih =>
        rw [List.mem_cons, not_or] at hb
        exact splitOn_cons_of_ne (Ne.symm hb.1) (ih hb.2)
  induction a with
  | nil => exact ⟨[], [], rfl, hone⟩
  | cons c a ih =>
      obtain ⟨front, piece, ha, hab⟩ := ih
      rw [List.cons_append]
      by_cases hc : c = sep
      · subst hc
        rw [splitOn_cons_self, splitOn_cons_self, ha, hab]
        exact ⟨[] :: front, piece, rfl, rfl⟩
      · cases front with
        | nil =>
            rw [splitOn_cons_of_ne hc ha, splitOn_cons_of_ne hc hab]
            exact ⟨[], c :: piece, rfl, rfl⟩
        | cons first front =>
            rw [splitOn_cons_of_ne hc ha, splitOn_cons_of_ne hc hab]
            exact ⟨(c :: first) :: front, piece, rfl, rfl⟩

/-- A separator ends a piece. -/
theorem splitOn_append_sep (a b : List Char) :
    splitOn sep (a ++ sep :: b) = splitOn sep a ++ splitOn sep b := by
  induction a with
  | nil => exact splitOn_cons_self b
  | cons c a ih =>
      rw [List.cons_append]
      by_cases hc : c = sep
      · subst hc
        rw [splitOn_cons_self, splitOn_cons_self, ih, List.cons_append]
      · cases ha : splitOn sep a with
        | nil => exact absurd ha (splitOn_ne_nil sep a)
        | cons piece pieces =>
            rw [ha, List.cons_append] at ih
            rw [splitOn_cons_of_ne hc ha, splitOn_cons_of_ne hc ih, List.cons_append]

end Text

namespace Path

variable {p : Path} {name name' : String}

/-- The last of the segments of a path. -/
def EndsIn (p : Path) (name : String) : Prop :=
  ∃ front, p.segments = front ++ [name]

theorem exists_endsIn (p : Path) : ∃ name, p.EndsIn name := by
  have hne : p.segments ≠ [] := by
    rw [segments, Ne, List.map_eq_nil_iff]
    exact Text.splitOn_ne_nil '/' p.text.toList
  exact ⟨_, _, (List.dropLast_concat_getLast hne).symm⟩

theorem EndsIn.unique (h : p.EndsIn name) (h' : p.EndsIn name') : name = name' := by
  obtain ⟨front, h⟩ := h
  obtain ⟨front', h'⟩ := h'
  exact List.singleton_inj.mp (List.append_inj_right' (h.symm.trans h') rfl)

/-- A text without slashes goes on with the name. -/
theorem EndsIn.append {text : String} (h : (⟨text⟩ : Path).EndsIn name) (rest : String)
    (hrest : '/' ∉ rest.toList) : (⟨text ++ rest⟩ : Path).EndsIn (name ++ rest) := by
  obtain ⟨front, piece, htext, happend⟩ := Text.exists_splitOn_append hrest text.toList
  have hname : name = String.ofList piece := by
    refine h.unique ⟨front.map String.ofList, ?_⟩
    rw [segments, htext, List.map_append, List.map_singleton]
  refine ⟨front.map String.ofList, ?_⟩
  rw [segments, String.toList_append, happend, List.map_append, List.map_singleton,
    String.ofList_append, String.ofList_toList, hname]

/-- After a slash the name begins anew. -/
theorem EndsIn.of_slash (h : (⟨name'⟩ : Path).EndsIn name) {text : String} (front : List Char)
    (htext : text.toList = front ++ '/' :: name'.toList) : (⟨text⟩ : Path).EndsIn name := by
  obtain ⟨before, h⟩ := h
  refine ⟨(Text.splitOn '/' front).map String.ofList ++ before, ?_⟩
  rw [segments] at h
  rw [segments, htext, Text.splitOn_append_sep, List.map_append, h, List.append_assoc]

/-- In a directory a path ends with the same name. -/
theorem EndsIn.join (h : (⟨name'⟩ : Path).EndsIn name) (dir : Path) :
    (dir.join name').EndsIn name := by
  rw [Path.join]
  split
  next => exact h
  next =>
    split
    next hdir =>
      obtain hempty | hslash := (Bool.or_eq_true _ _).mp hdir
      · rw [String.isEmpty_iff.mp hempty, String.empty_append]
        exact h
      · obtain ⟨front, hfront⟩ := List.getLast?_eq_some_iff.mp (beq_iff_eq.mp hslash)
        refine h.of_slash front ?_
        rw [String.toList_append, hfront, List.append_assoc, List.singleton_append]
    next =>
      refine h.of_slash dir.text.toList ?_
      rw [String.toList_append, String.toList_append, List.append_assoc]
      rfl

end Path

/-!
## What a change does to a tree of files

A file that is written, removed or given another name leaves the directories of a tree as they are,
and so the way to all other files. What is at a location counts only where there is a way to it:
everything that the location is in is a directory.
-/

namespace FileTree

variable {t t' : FileTree} {location other : Location}

theorem get?_nil (t : FileTree) : t.get? [] = some .directory := rfl

theorem ne_nil_of_get? (h : t.get? location ≠ some .directory) : location ≠ [] := by
  rintro rfl
  exact h (get?_nil t)

/-! ## Entries that are left out and moved -/

section

variable {entries : List (Location × Entry)} {gone key : Location} {place : Location → Location}

theorem lookup_filter_map (hkey : key ≠ gone)
    (hplace : ∀ k, k ≠ gone → (place k = other ↔ k = key)) :
    ((entries.filter fun e => e.1 ≠ gone).map fun e => (place e.1, e.2)).lookup other =
      entries.lookup key := by
  induction entries with
  | nil => rfl
  | cons e entries ih =>
      obtain ⟨k, entry⟩ := e
      rw [List.lookup_cons]
      by_cases hgone : k = gone
      · have hne : (key == k) = false := beq_false_of_ne fun h => hkey (h.trans hgone)
        rw [List.filter_cons_of_neg (by simpa using hgone), hne]
        exact ih
      · rw [List.filter_cons_of_pos (by simpa using hgone), List.map_cons, List.lookup_cons]
        by_cases hk : k = key
        · rw [(hplace k hgone).mpr hk, hk, BEq.rfl, BEq.rfl]
        · have hother : place k ≠ other := fun h => hk ((hplace k hgone).mp h)
          rw [beq_false_of_ne (Ne.symm hk), beq_false_of_ne (Ne.symm hother)]
          exact ih

theorem lookup_filter_map_eq_none (hplace : ∀ k, k ≠ gone → place k ≠ other) :
    ((entries.filter fun e => e.1 ≠ gone).map fun e => (place e.1, e.2)).lookup other = none := by
  rw [List.lookup_eq_none_iff]
  intro e he
  obtain ⟨⟨k, entry⟩, hmem, rfl⟩ := List.mem_map.mp he
  have hne := hplace k (by simpa using (List.mem_filter.mp hmem).2)
  simpa using Ne.symm hne

end

/-- What is removed is not there any more, and all others stay. -/
theorem get?_erase (t : FileTree) (hlocation : location ≠ []) :
    (t.erase location).get? other = if other = location then none else t.get? other := by
  have hfilter : t.erase location =
      ⟨(t.entries.filter fun e => e.1 ≠ location).map fun e => (id e.1, e.2)⟩ := by
    simp [erase]
  rw [hfilter, get?, get?]
  by_cases hroot : other = []
  · have hne : other ≠ location := fun h => hlocation (h.symm.trans hroot)
    rw [if_pos hroot, if_pos hroot, if_neg hne]
  · rw [if_neg hroot, if_neg hroot]
    split
    next h =>
      exact lookup_filter_map_eq_none fun k hk heq => hk (heq.trans h)
    next h => exact lookup_filter_map h fun k _ => Iff.rfl

section

variable {source target : Location}

/-- Where a location goes with one that is moved. -/
private def carry (source target location : Location) : Location :=
  if source.isPrefixOf location then target ++ location.drop source.length else location

private theorem move_eq (hne : source ≠ target) (t : FileTree) :
    t.move source target = ⟨(t.entries.filter fun e => e.1 ≠ target).map fun e =>
      (carry source target e.1, e.2)⟩ := by
  rw [move, if_neg hne]
  rfl

/-- What has another name now is found by this name. -/
theorem get?_move_target (hsource : ¬ source <+: target) (htarget : ¬ target <+: source) :
    (t.move source target).get? target = t.get? source := by
  have hne : source ≠ target := by
    rintro rfl
    exact hsource List.prefix_rfl
  have hroot : source ≠ [] := by
    rintro rfl
    exact hsource List.nil_prefix
  have hroot' : target ≠ [] := by
    rintro rfl
    exact htarget List.nil_prefix
  rw [move_eq hne, get?, if_neg hroot', get?, if_neg hroot]
  refine lookup_filter_map hne fun k hk => ?_
  rw [carry]
  split
  next hprefix =>
    obtain ⟨below, rfl⟩ := List.isPrefixOf_iff_prefix.mp hprefix
    rw [List.drop_left]
    rw [List.append_right_eq_self, List.append_right_eq_self]
  next hprefix =>
    refine ⟨fun h => absurd h hk, ?_⟩
    rintro rfl
    exact absurd (List.isPrefixOf_iff_prefix.mpr List.prefix_rfl) hprefix

/-- It is not found by its old name. -/
theorem get?_move_source (hsource : ¬ source <+: target) (htarget : ¬ target <+: source) :
    (t.move source target).get? source = none := by
  have hne : source ≠ target := by
    rintro rfl
    exact hsource List.prefix_rfl
  have hroot : source ≠ [] := by
    rintro rfl
    exact hsource List.nil_prefix
  rw [move_eq hne, get?, if_neg hroot]
  refine lookup_filter_map_eq_none fun k _ => ?_
  rw [carry]
  split
  next => exact fun h => htarget ⟨_, h⟩
  next hprefix =>
    rintro rfl
    exact hprefix (List.isPrefixOf_iff_prefix.mpr List.prefix_rfl)

/-- What is not at or below one of the two names stays. -/
theorem get?_move_of_outside (hne : source ≠ target) (hsource : ¬ source <+: other)
    (htarget : ¬ target <+: other) : (t.move source target).get? other = t.get? other := by
  rw [move_eq hne, get?, get?]
  split
  next => rfl
  next hroot =>
    have hother : other ≠ target := by
      rintro rfl
      exact htarget List.prefix_rfl
    refine lookup_filter_map hother fun k _ => ?_
    rw [carry]
    split
    next hprefix =>
      constructor
      · rintro rfl
        exact absurd (List.prefix_append ..) htarget
      · rintro rfl
        exact absurd (List.isPrefixOf_iff_prefix.mp hprefix) hsource
    next => exact Iff.rfl

end

/-! ## Directories -/

/-- A directory that is there, with everything that it is in. -/
def Stands (t : FileTree) (location : Location) : Prop :=
  ∀ above, above <+: location → t.get? above = some .directory

/-- Everything that a location is in is a directory. -/
def HasWay (t : FileTree) (location : Location) : Prop :=
  ∀ above, above <+: location → above ≠ location → t.get? above = some .directory

/-- Two trees have the same directories. -/
def SameDirectories (t t' : FileTree) : Prop :=
  ∀ location, t.Stands location ↔ t'.Stands location

theorem Stands.get? (h : t.Stands location) : t.get? location = some .directory :=
  h location List.prefix_rfl

theorem Stands.hasWay (h : t.Stands location) : t.HasWay location :=
  fun above habove _ => h above habove

theorem Stands.dropLast (h : t.Stands location) : t.Stands location.dropLast :=
  fun above habove => h above (habove.trans (List.dropLast_prefix location))

theorem HasWay.stands (h : t.HasWay location) (hget : t.get? location = some .directory) :
    t.Stands location := by
  intro above habove
  by_cases heq : above = location
  · rw [heq, hget]
  · exact h above habove heq

theorem Stands.hasWay_append (h : t.Stands location) (name : String) :
    t.HasWay (location ++ [name]) := by
  intro above habove hne
  obtain heq | habove := List.prefix_concat_iff.mp habove
  · exact absurd heq hne
  · exact h above habove

/-- There is no way through what is no directory. -/
theorem HasWay.not_prefix (h : t.HasWay location) (hother : t.get? other ≠ some .directory)
    (hne : location ≠ other) : ¬ other <+: location :=
  fun habove => hother (h other habove (Ne.symm hne))

theorem SameDirectories.symm (h : SameDirectories t t') : SameDirectories t' t :=
  fun location => (h location).symm

/-- Trees that differ only below what is no directory in either of them have the same directories. -/
theorem SameDirectories.of_forall
    (h : ∀ location, t'.get? location = t.get? location ∨
      ∃ above, above <+: location ∧ t.get? above ≠ some .directory ∧
        t'.get? above ≠ some .directory) : SameDirectories t t' := by
  intro location
  constructor
  · intro hstands above habove
    obtain heq | ⟨file, hfile, hnot, -⟩ := h above
    · rw [heq, hstands above habove]
    · exact absurd (hstands file (hfile.trans habove)) hnot
  · intro hstands above habove
    obtain heq | ⟨file, hfile, -, hnot⟩ := h above
    · rw [← heq, hstands above habove]
    · exact absurd (hstands file (hfile.trans habove)) hnot

end FileTree

end ShaderReducer
