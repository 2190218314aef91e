import Mathlib.Data.List.Infix
import ShaderReducer.Proofs.Files.Tree

/-!
# What work on a disk leaves behind

Work on a disk makes one change after the other. A crash may come between any two of them, so what
it may leave behind is the disk at each of these moments. Files are looked at by their paths: what
is written to one path is read there, and paths that end with other names read what they read
before.
-/

namespace ShaderReducer

namespace Disk

/-! ## Moments -/

/-- The disk after some more changes, the last one first. -/
def replay (d : Disk) (news : List FileChange) : Disk :=
  news.foldr (fun change d => d.commit change) d

/-- The disk after each of the changes that lead from one disk to another, the last one first, and
before any of them. -/
def moments (d d' : Disk) : List Disk :=
  (d'.changes.take (d'.changes.length - d.changes.length)).tails.map d.replay

theorem replay_append (d : Disk) (news before : List FileChange) :
    d.replay (news ++ before) = (d.replay before).replay news :=
  List.foldr_append

theorem changes_replay (d : Disk) (news : List FileChange) :
    (d.replay news).changes = news ++ d.changes := by
  induction news with
  | nil => rfl
  | cons change news ih =>
      change change :: (d.replay news).changes = _
      rw [ih, List.cons_append]

theorem mem_moments_replay {d e : Disk} {news : List FileChange} :
    e ∈ d.moments (d.replay news) ↔ ∃ before, before <:+ news ∧ e = d.replay before := by
  have htake : (news ++ d.changes).take ((news ++ d.changes).length - d.changes.length) = news := by
    rw [List.length_append, Nat.add_sub_cancel, List.take_left]
  rw [moments, changes_replay, htake, List.mem_map]
  constructor
  · rintro ⟨before, hbefore, rfl⟩
    exact ⟨before, (List.mem_tails _ _).mp hbefore, rfl⟩
  · rintro ⟨before, hbefore, rfl⟩
    exact ⟨before, (List.mem_tails _ _).mpr hbefore, rfl⟩

/-- Changes lead from one disk to another, and at each moment something holds. -/
def Along (holds : Disk → Prop) (d d' : Disk) : Prop :=
  ∃ news, d' = d.replay news ∧ ∀ before, before <:+ news → holds (d.replay before)

section

variable {holds holds' : Disk → Prop} {d d' d'' e : Disk}

theorem Along.refl (h : holds d) : Along holds d d := by
  refine ⟨[], rfl, fun before hbefore => ?_⟩
  rw [List.suffix_nil.mp hbefore]
  exact h

theorem Along.trans (h : Along holds d d') (h' : Along holds d' d'') : Along holds d d'' := by
  obtain ⟨news, rfl, hnews⟩ := h
  obtain ⟨news', rfl, hnews'⟩ := h'
  refine ⟨news' ++ news, (replay_append d news' news).symm, fun before hbefore => ?_⟩
  obtain hshort | ⟨more, rfl⟩ := List.suffix_or_suffix_of_suffix hbefore (List.suffix_append news' news)
  · exact hnews before hshort
  · rw [replay_append]
    exact hnews' more (List.suffix_append_self_iff.mp hbefore)

theorem Along.commit {change : FileChange} (h : holds d) (h' : holds (d.commit change)) :
    Along holds d (d.commit change) := by
  refine ⟨[change], rfl, fun before hbefore => ?_⟩
  obtain rfl | hbefore := List.suffix_cons_iff.mp hbefore
  · exact h'
  · rw [List.suffix_nil.mp hbefore]
    exact h

theorem Along.mono (h : Along holds d d') (himp : ∀ e, holds e → holds' e) : Along holds' d d' := by
  obtain ⟨news, rfl, hnews⟩ := h
  exact ⟨news, rfl, fun before hbefore => himp _ (hnews before hbefore)⟩

theorem Along.last (h : Along holds d d') : holds d' := by
  obtain ⟨news, rfl, hnews⟩ := h
  exact hnews news List.suffix_rfl

/-- What holds at each moment holds at those before one of them. -/
theorem Along.until (h : Along holds d d') (he : e ∈ d.moments d') : Along holds d e := by
  obtain ⟨news, rfl, hnews⟩ := h
  obtain ⟨before, hbefore, rfl⟩ := mem_moments_replay.mp he
  exact ⟨before, rfl, fun more hmore => hnews more (hmore.trans hbefore)⟩

/-- At each moment something has held so far. -/
theorem Along.so_far (h : Along holds d d') : Along (Along holds d) d d' := by
  obtain ⟨news, rfl, hnews⟩ := h
  exact ⟨news, rfl, fun before hbefore =>
    ⟨before, rfl, fun more hmore => hnews more (hmore.trans hbefore)⟩⟩

theorem Along.of_mem_moments (h : Along holds d d') (he : e ∈ d.moments d') : holds e :=
  (h.until he).last

end

/-! ## The way to a file -/

variable {d d' : Disk} {p q : Path} {name name' : String} {location : Location}
  {bytes : List UInt8}

/-- The working directory is there. -/
def Home (d : Disk) : Prop :=
  d.tree.Stands d.workingDirectory

/-- The root is always there. -/
theorem home_of_workingDirectory (h : d.workingDirectory = []) : d.Home := by
  intro above habove
  rw [h] at habove
  rw [List.prefix_nil.mp habove]
  rfl

/-- A name that leads from a directory to something in it. -/
def LeadsOn (name : String) : Prop :=
  Path.staysPut name = false ∧ name ≠ ".."

theorem enter_eq_ok {t : FileTree} {segment : String} {location' : Location}
    (h : enter t location segment = .ok location') :
    t.get? location = some .directory ∧
      (location' = location ∨ location' = location.dropLast ∨ location' = location ++ [segment]) := by
  unfold enter at h
  split at h
  next => cases h
  next => cases h
  next hget =>
    refine ⟨hget, ?_⟩
    split at h
    next =>
      cases h
      exact .inl rfl
    next =>
      split at h
      next =>
        cases h
        exact .inr (.inl rfl)
      next =>
        split at h
        next => cases h
        next =>
          cases h
          exact .inr (.inr rfl)

theorem eq_append_of_enter {t : FileTree} {location' : Location} (hon : LeadsOn name)
    (h : enter t location name = .ok location') : location' = location ++ [name] := by
  have hget := (enter_eq_ok h).1
  obtain ⟨hput, hup⟩ := hon
  simp only [enter, hget, hput, beq_false_of_ne hup, Bool.false_eq_true, if_false] at h
  split at h
  next => cases h
  next =>
    cases h
    rfl

theorem hasWay_of_enter {t : FileTree} {segment : String} {location' : Location}
    (hway : t.HasWay location) (h : enter t location segment = .ok location') :
    t.HasWay location' := by
  obtain ⟨hget, rfl | rfl | rfl⟩ := enter_eq_ok h
  · exact hway
  · exact (hway.stands hget).dropLast.hasWay
  · exact (hway.stands hget).hasWay_append segment

theorem hasWay_of_foldlM {t : FileTree} {segments : List String} {location' : Location}
    (hway : t.HasWay location) (h : segments.foldlM (enter t) location = .ok location') :
    t.HasWay location' := by
  induction segments generalizing location with
  | nil =>
      cases h
      exact hway
  | cons segment segments ih =>
      rw [List.foldlM_cons] at h
      cases henter : enter t location segment with
      | error fault =>
          rw [henter] at h
          cases h
      | ok next =>
          rw [henter] at h
          exact ih (hasWay_of_enter hway henter) h

/-- Only the directories count for where segments lead to. -/
theorem foldlM_enter_congr {t t' : FileTree} (hsame : t.SameDirectories t')
    {segments : List String} {location' : Location} (hway : t.HasWay location)
    (h : segments.foldlM (enter t) location = .ok location') :
    segments.foldlM (enter t') location = .ok location' := by
  induction segments generalizing location with
  | nil => exact h
  | cons segment segments ih =>
      rw [List.foldlM_cons] at h ⊢
      cases henter : enter t location segment with
      | error fault =>
          rw [henter] at h
          cases h
      | ok next =>
          have hget := (enter_eq_ok henter).1
          have hget' := ((hsame location).mp (hway.stands hget)).get?
          have henter' : enter t' location segment = .ok next := by
            rw [enter, hget] at henter
            rw [enter, hget', ← henter]
          rw [henter] at h
          rw [henter']
          exact ih (hasWay_of_enter hway henter) h

theorem hasWay_start (h : d.Home) (p : Path) :
    d.tree.HasWay (if p.isAbsolute then [] else d.workingDirectory) := by
  split
  · intro above habove hne
    exact absurd (List.prefix_nil.mp habove) hne
  · exact FileTree.Stands.hasWay h

/-- A path leads somewhere if it is neither empty nor too long and its segments lead there. -/
theorem locate_eq_ok_iff : d.locate p = .ok location ↔
    (¬ p.text.isEmpty = true ∧ ¬ p.text.toList.contains '\x00' = true ∧
      ¬ longestPath < p.text.utf8ByteSize) ∧
    p.segments.foldlM (enter d.tree) (if p.isAbsolute then [] else d.workingDirectory) =
      .ok location := by
  unfold locate
  split
  next h => exact ⟨nofun, fun hall => absurd h hall.1.1⟩
  next hempty =>
    split
    next h => exact ⟨nofun, fun hall => absurd h hall.1.2.1⟩
    next hzero =>
      split
      next h => exact ⟨nofun, fun hall => absurd h hall.1.2.2⟩
      next hlong => exact ⟨fun h => ⟨⟨hempty, hzero, hlong⟩, h⟩, fun h => h.2⟩

theorem hasWay_of_locate (hhome : d.Home) (h : d.locate p = .ok location) :
    d.tree.HasWay location :=
  hasWay_of_foldlM (hasWay_start hhome p) (locate_eq_ok_iff.mp h).2

/-- A path leads to something with the name that it ends with. -/
theorem exists_of_locate (hname : p.EndsIn name) (hon : LeadsOn name)
    (h : d.locate p = .ok location) : ∃ above, location = above ++ [name] := by
  obtain ⟨front, hsegments⟩ := hname
  have h := (locate_eq_ok_iff.mp h).2
  rw [hsegments, List.foldlM_append] at h
  generalize List.foldlM (enter d.tree) _ front = before at h
  cases before with
  | error fault => cases h
  | ok above =>
      change (enter d.tree above name >>= pure) = _ at h
      cases henter : enter d.tree above name with
      | error fault =>
          rw [henter] at h
          cases h
      | ok location' =>
          rw [henter] at h
          cases h
          exact ⟨above, eq_append_of_enter hon henter⟩

/-! ## Files and their bytes -/

/-- The bytes that are read from a path, if it leads to a file. -/
def bytes? (d : Disk) (p : Path) : Option (List UInt8) :=
  (d.read p).toOption

theorem bytes?_eq_some_iff : d.bytes? p = some bytes ↔
    ∃ location runs, d.locate p = .ok location ∧
      d.tree.get? location = some (.file bytes runs) := by
  rw [bytes?, read, entry]
  cases hlocate : d.locate p with
  | error fault => exact ⟨nofun, nofun⟩
  | ok location =>
      cases hget : d.tree.get? location with
      | none => simp [bind, Except.bind, hget, Except.toOption]
      | some e =>
          cases e with
          | directory => simp [bind, Except.bind, hget, pure, Except.pure, Except.toOption]
          | file content runs =>
              simp only [bind, Except.bind, hget, pure, Except.pure, Except.toOption]
              constructor
              · intro h
                cases h
                exact ⟨location, runs, rfl, hget⟩
              · rintro ⟨location', runs', hlocate', hget'⟩
                cases hlocate'
                rw [hget] at hget'
                cases hget'
                rfl

theorem read_eq_ok_iff : d.read p = .ok bytes ↔ d.bytes? p = some bytes := by
  rw [bytes?]
  cases d.read p with
  | error fault => exact ⟨nofun, nofun⟩
  | ok content => exact ⟨congrArg Except.toOption, fun h => congrArg Except.ok (Option.some.inj h)⟩

/-- Where there are only directories nothing is read. -/
theorem bytes?_eq_none (h : ∀ e ∈ d.tree.entries, e.2 = .directory) (p : Path) :
    d.bytes? p = none := by
  refine Option.eq_none_iff_forall_ne_some.mpr fun bytes hbytes => ?_
  obtain ⟨location, runs, -, hget⟩ := bytes?_eq_some_iff.mp hbytes
  rw [FileTree.get?] at hget
  split at hget
  next => cases hget
  next =>
    obtain ⟨before, after, hentries, -⟩ := List.lookup_eq_some_iff.mp hget
    have hmem : (location, Entry.file bytes runs) ∈ d.tree.entries :=
      hentries ▸ List.mem_append_right _ List.mem_cons_self
    cases h _ hmem

/-- Two disks have the same directories, and the same files but for those at some locations. -/
structure DiffersAt (d d' : Disk) (touched : List Location) : Prop where
  working : d'.workingDirectory = d.workingDirectory
  directories : d.tree.SameDirectories d'.tree
  elsewhere : ∀ location, d.tree.HasWay location → location ∉ touched →
    d'.tree.get? location = d.tree.get? location

theorem DiffersAt.home {touched : List Location} (h : d.DiffersAt d' touched) (hhome : d.Home) :
    d'.Home := by
  rw [Home, h.working]
  exact (h.directories _).mp hhome

/-- Where paths lead to does not change. -/
theorem DiffersAt.locate_eq_ok_iff {touched : List Location} (h : d.DiffersAt d' touched)
    (hhome : d.Home) : d'.locate p = .ok location ↔ d.locate p = .ok location := by
  rw [Disk.locate_eq_ok_iff, Disk.locate_eq_ok_iff, h.working]
  refine and_congr_right fun _ => ?_
  constructor
  · refine foldlM_enter_congr h.directories.symm ?_
    have hstart := hasWay_start (h.home hhome) p
    rwa [h.working] at hstart
  · exact foldlM_enter_congr h.directories (hasWay_start hhome p)

/-- A path that leads elsewhere reads the same. -/
theorem DiffersAt.bytes?_eq {touched : List Location} (h : d.DiffersAt d' touched)
    (hhome : d.Home) (hp : ∀ location, d.locate p = .ok location → location ∉ touched) :
    d'.bytes? p = d.bytes? p := by
  refine Option.ext fun bytes => ?_
  rw [bytes?_eq_some_iff, bytes?_eq_some_iff]
  refine exists_congr fun location => exists_congr fun runs => ?_
  rw [h.locate_eq_ok_iff hhome]
  refine and_congr_right fun hlocate => ?_
  rw [h.elsewhere location (hasWay_of_locate hhome hlocate) (hp location hlocate)]

/-! ## Operations on files -/

theorem differsAt_write (bytes : List UInt8) (h : d.tree.get? location ≠ some .directory) :
    d.DiffersAt (d.commit (.write location bytes)) [location] := by
  have hget : ∀ other, (d.commit (.write location bytes)).tree.get? other =
      if other = location then some (.file bytes (d.tree.runs location)) else d.tree.get? other :=
    fun other => FileTree.get?_set d.tree location other _ (FileTree.ne_nil_of_get? h)
  refine ⟨rfl, .of_forall fun other => ?_, fun other _ hother => ?_⟩
  · by_cases hother : other = location
    · subst hother
      refine .inr ⟨other, List.prefix_rfl, h, ?_⟩
      rw [hget, if_pos rfl]
      nofun
    · rw [hget, if_neg hother]
      exact .inl rfl
  · rw [hget, if_neg (List.ne_of_not_mem_cons hother)]

theorem differsAt_remove (h : d.tree.get? location ≠ some .directory) :
    d.DiffersAt (d.commit (.remove location)) [location] := by
  have hget : ∀ other, (d.commit (.remove location)).tree.get? other =
      if other = location then none else d.tree.get? other :=
    fun other => FileTree.get?_erase d.tree (FileTree.ne_nil_of_get? h)
  refine ⟨rfl, .of_forall fun other => ?_, fun other _ hother => ?_⟩
  · by_cases hother : other = location
    · subst hother
      refine .inr ⟨other, List.prefix_rfl, h, ?_⟩
      rw [hget, if_pos rfl]
      nofun
    · rw [hget, if_neg hother]
      exact .inl rfl
  · rw [hget, if_neg (List.ne_of_not_mem_cons hother)]

/-- A file gets another name. What may stand below the two names is not reached. -/
theorem differsAt_rename {source target : Location} {runs : Bool} (hne : source ≠ target)
    (hsource : d.tree.HasWay source) (htarget : d.tree.HasWay target)
    (hfile : d.tree.get? source = some (.file bytes runs))
    (h : d.tree.get? target ≠ some .directory) :
    d.DiffersAt (d.commit (.rename source target)) [source, target] ∧
      (d.commit (.rename source target)).tree.get? target = some (.file bytes runs) ∧
      (d.commit (.rename source target)).tree.get? source = none := by
  have hfile' : d.tree.get? source ≠ some .directory := by
    rw [hfile]
    nofun
  have hbelow : ¬ source <+: target := htarget.not_prefix hfile' (Ne.symm hne)
  have habove : ¬ target <+: source := hsource.not_prefix h hne
  have htree : (d.commit (.rename source target)).tree = d.tree.move source target := by
    change (if (d.tree.get? source).isSome then d.tree.move source target else d.tree) = _
    rw [hfile]
    rfl
  have hmoved := FileTree.get?_move_target (t := d.tree) hbelow habove
  have hgone := FileTree.get?_move_source (t := d.tree) hbelow habove
  rw [htree, hmoved, hgone, hfile]
  refine ⟨⟨rfl, .of_forall fun other => ?_, fun other hway hother => ?_⟩, rfl, rfl⟩
  · rw [htree]
    by_cases hunder : source <+: other
    · refine .inr ⟨source, hunder, hfile', ?_⟩
      rw [hgone]
      nofun
    · by_cases hunder' : target <+: other
      · refine .inr ⟨target, hunder', h, ?_⟩
        rw [hmoved, hfile]
        nofun
      · exact .inl (FileTree.get?_move_of_outside hne hunder hunder')
  · obtain ⟨hother, hother'⟩ : other ≠ source ∧ other ≠ target := by simpa using hother
    rw [htree]
    exact FileTree.get?_move_of_outside hne (hway.not_prefix hfile' hother)
      (hway.not_prefix h hother')

/-- One change, after which paths that end with other names read what they read before. -/
structure Changes (d d' : Disk) (names : List String) : Prop where
  commit : ∃ change, d' = d.commit change
  home : d'.Home
  others : ∀ (q : Path) name, q.EndsIn name → LeadsOn name → name ∉ names → d'.bytes? q = d.bytes? q

theorem ne_of_locate (hname : p.EndsIn name) (hon : LeadsOn name) (hname' : q.EndsIn name')
    (hon' : LeadsOn name') (hne : name ≠ name') {location' : Location}
    (h : d.locate p = .ok location) (h' : d.locate q = .ok location') : location ≠ location' := by
  obtain ⟨above, rfl⟩ := exists_of_locate hname hon h
  obtain ⟨above', rfl⟩ := exists_of_locate hname' hon' h'
  intro heq
  exact hne (List.singleton_inj.mp (List.append_inj_right' heq rfl))

/-- One operation changes what is at one location, or at two. -/
theorem DiffersAt.changes {touched : List Location} {names : List String}
    (h : d.DiffersAt d' touched) (hhome : d.Home) {change : FileChange} (hd' : d' = d.commit change)
    (hnames : ∀ (q : Path) name, q.EndsIn name → LeadsOn name → name ∉ names →
      ∀ location, d.locate q = .ok location → location ∉ touched) : d.Changes d' names :=
  ⟨⟨change, hd'⟩, h.home hhome, fun q name hname hon hne =>
    h.bytes?_eq hhome (hnames q name hname hon hne)⟩

theorem exists_of_write (h : d.write p bytes = .ok d') :
    ∃ location, d.locate p = .ok location ∧ d.tree.get? location ≠ some .directory ∧
      d' = d.commit (.write location bytes) := by
  rw [write] at h
  cases hlocate : d.locate p with
  | error fault =>
      rw [hlocate] at h
      cases h
  | ok location =>
      simp only [hlocate, bind, Except.bind] at h
      split at h
      next => cases h
      next hfile =>
        cases h
        exact ⟨location, rfl, hfile, rfl⟩

theorem exists_of_remove (h : d.remove p = .ok d') :
    ∃ location, d.locate p = .ok location ∧ d.tree.get? location ≠ some .directory ∧
      d' = d.commit (.remove location) := by
  rw [remove] at h
  cases hlocate : d.locate p with
  | error fault =>
      rw [hlocate] at h
      cases h
  | ok location =>
      simp only [hlocate, bind, Except.bind] at h
      split at h
      next hfile =>
        cases h
        refine ⟨location, rfl, fun hdirectory => ?_, rfl⟩
        rw [hfile] at hdirectory
        cases hdirectory
      next => cases h
      next => cases h

/-- A file can be removed. -/
theorem exists_remove (hbytes : d.bytes? p = some bytes) : ∃ d', d.remove p = .ok d' := by
  obtain ⟨location, runs, hlocate, hfile⟩ := bytes?_eq_some_iff.mp hbytes
  rw [remove, hlocate]
  exact ⟨d.commit (.remove location), by simp [bind, Except.bind, hfile, pure, Except.pure]⟩

theorem exists_of_rename (hbytes : d.bytes? p = some bytes) (h : d.rename p q = .ok d') :
    ∃ source target runs, d.locate p = .ok source ∧ d.locate q = .ok target ∧
      d.tree.get? source = some (.file bytes runs) ∧ d.tree.get? target ≠ some .directory ∧
      d' = d.commit (.rename source target) := by
  obtain ⟨source, runs, hlocate, hfile⟩ := bytes?_eq_some_iff.mp hbytes
  rw [rename, hlocate] at h
  cases hlocate' : d.locate q with
  | error fault =>
      rw [hlocate'] at h
      cases h
  | ok target =>
      rw [hlocate'] at h
      simp only [bind, Except.bind, hfile] at h
      split at h
      next hnone => cases hnone
      next => cases h
      next htarget =>
        cases h
        exact ⟨source, target, runs, hlocate, rfl, hfile, fun hget => htarget hget, rfl⟩
      next hdirectory _ => cases hdirectory
      next hdirectory _ => cases hdirectory

/-- What is written to a path is read there. -/
theorem changes_write (hhome : d.Home) (hname : p.EndsIn name) (hon : LeadsOn name)
    (h : d.write p bytes = .ok d') : d.Changes d' [name] ∧ d'.bytes? p = some bytes := by
  obtain ⟨location, hlocate, hfile, rfl⟩ := exists_of_write h
  have hdiffers := differsAt_write bytes hfile
  constructor
  · refine hdiffers.changes hhome rfl fun q name' hname' hon' hne other hlocate' => ?_
    rw [List.mem_singleton] at hne ⊢
    exact ne_of_locate hname' hon' hname hon hne hlocate' hlocate
  · refine bytes?_eq_some_iff.mpr ⟨location, d.tree.runs location,
      (hdiffers.locate_eq_ok_iff hhome).mpr hlocate, ?_⟩
    exact (FileTree.get?_set d.tree location location _ (FileTree.ne_nil_of_get? hfile)).trans
      (if_pos rfl)

/-- What is removed is not read any more. -/
theorem changes_remove (hhome : d.Home) (hname : p.EndsIn name) (hon : LeadsOn name)
    (h : d.remove p = .ok d') : d.Changes d' [name] ∧ d'.bytes? p = none := by
  obtain ⟨location, hlocate, hfile, rfl⟩ := exists_of_remove h
  have hdiffers := differsAt_remove hfile
  constructor
  · refine hdiffers.changes hhome rfl fun q name' hname' hon' hne other hlocate' => ?_
    rw [List.mem_singleton] at hne ⊢
    exact ne_of_locate hname' hon' hname hon hne hlocate' hlocate
  · refine Option.eq_none_iff_forall_ne_some.mpr fun bytes hbytes => ?_
    obtain ⟨location', runs, hlocate', hget⟩ := bytes?_eq_some_iff.mp hbytes
    rw [hdiffers.locate_eq_ok_iff hhome, hlocate] at hlocate'
    cases hlocate'
    have hgone : (d.commit (.remove location)).tree.get? location = none :=
      (FileTree.get?_erase d.tree (FileTree.ne_nil_of_get? hfile)).trans (if_pos rfl)
    rw [hgone] at hget
    cases hget

/-- What gets another name is read by this name, and not any more by the old one. -/
theorem changes_rename (hhome : d.Home) (hname : p.EndsIn name) (hon : LeadsOn name)
    (hname' : q.EndsIn name') (hon' : LeadsOn name') (hne : name ≠ name')
    (hbytes : d.bytes? p = some bytes) (h : d.rename p q = .ok d') :
    d.Changes d' [name, name'] ∧ d'.bytes? q = some bytes ∧ d'.bytes? p = none := by
  obtain ⟨source, target, runs, hlocate, hlocate', hfile, htarget, rfl⟩ := exists_of_rename hbytes h
  have hne' : source ≠ target := ne_of_locate hname hon hname' hon' hne hlocate hlocate'
  obtain ⟨hdiffers, hmoved, hgone⟩ := differsAt_rename hne' (hasWay_of_locate hhome hlocate)
    (hasWay_of_locate hhome hlocate') hfile htarget
  refine ⟨hdiffers.changes hhome rfl fun q' other hother hon'' hnot location hlocate'' => ?_, ?_, ?_⟩
  · obtain ⟨hnot, hnot'⟩ : other ≠ name ∧ other ≠ name' := by simpa using hnot
    rw [List.mem_cons, List.mem_singleton, not_or]
    exact ⟨ne_of_locate hother hon'' hname hon hnot hlocate'' hlocate,
      ne_of_locate hother hon'' hname' hon' hnot' hlocate'' hlocate'⟩
  · exact bytes?_eq_some_iff.mpr
      ⟨target, runs, (hdiffers.locate_eq_ok_iff hhome).mpr hlocate', hmoved⟩
  · refine Option.eq_none_iff_forall_ne_some.mpr fun bytes' hbytes' => ?_
    obtain ⟨location, runs', hlocate'', hget⟩ := bytes?_eq_some_iff.mp hbytes'
    rw [hdiffers.locate_eq_ok_iff hhome, hlocate] at hlocate''
    cases hlocate''
    rw [hgone] at hget
    cases hget

end Disk

end ShaderReducer
