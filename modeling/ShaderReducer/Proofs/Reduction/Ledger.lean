import ShaderReducer.Proofs.Files.Disk
import ShaderReducer.Proofs.Reduction.Ending
import ShaderReducer.Proofs.Reduction.Marker

/-!
# What is in the files of a ledger

The files of a ledger have different names, unless shaders have the extension of the bindings. So
each of them can be looked at for itself: a write changes one of them, and the marker is replaced in
one change.
-/

namespace ShaderReducer

/-! ## Work that may be cut off -/

section

variable {ε τ α β : Type} {disk : τ → Disk} {holds holds' : Disk → Prop} {s : τ}

/-- At each moment of some work, something holds of the disk, and if the work succeeds, something
holds of what it gives. -/
structure Keeps (disk : τ → Disk) (holds : Disk → Prop) (work : ExceptT ε (StateM τ) α) (s : τ)
    (post : α → τ → Prop) : Prop where
  along : (disk s).Along holds (disk (work.run s).2)
  post : ∀ a s', work.run s = (.ok a, s') → post a s'

variable {work : ExceptT ε (StateM τ) α} {post post' : α → τ → Prop}

theorem Keeps.mono (h : Keeps disk holds work s post) (hholds : ∀ d, holds d → holds' d)
    (hpost : ∀ a s', post a s' → post' a s') : Keeps disk holds' work s post' :=
  ⟨h.along.mono hholds, fun a s' hrun => hpost a s' (h.post a s' hrun)⟩

theorem Keeps.with_run (h : Keeps disk holds work s post) :
    Keeps disk holds work s fun a s' => work.run s = (.ok a, s') ∧ post a s' :=
  ⟨h.along, fun a s' hrun => ⟨hrun, h.post a s' hrun⟩⟩

/-- What holds at each moment holds at the end. -/
theorem Keeps.at_end (h : Keeps disk holds work s post) :
    Keeps disk holds work s fun a s' => holds (disk s') ∧ post a s' := by
  refine ⟨h.along, fun a s' hrun => ⟨?_, h.post a s' hrun⟩⟩
  have hlast := h.along.last
  rwa [hrun] at hlast

/-- What holds at each moment has held so far. -/
theorem Keeps.so_far (h : Keeps disk holds work s post) :
    Keeps disk ((disk s).Along holds) work s
      fun a s' => (disk s).Along holds (disk s') ∧ post a s' :=
  (Keeps.mk h.along.so_far h.post).at_end

theorem keeps_pure {a : α} (h : holds (disk s)) (hpost : post a s) :
    Keeps disk holds (pure a : ExceptT ε (StateM τ) α) s post := by
  refine ⟨.refl h, fun a' s' hrun => ?_⟩
  cases hrun
  exact hpost

theorem keeps_bind {next : α → ExceptT ε (StateM τ) β} {post' : β → τ → Prop}
    (h : Keeps disk holds work s post)
    (hnext : ∀ a s', post a s' → Keeps disk holds (next a) s' post') :
    Keeps disk holds (work >>= next) s post' := by
  constructor
  · have halong := h.along
    rw [run_bind_stateful]
    cases hrun : work.run s with
    | mk result s' =>
        rw [hrun] at halong
        cases result with
        | error error => exact halong
        | ok a => exact halong.trans (hnext a s' (h.post a s' hrun)).along
  · intro b s'' hrun
    obtain ⟨a, s', hrun, hnextrun⟩ := exists_of_bind_eq_ok hrun
    exact (hnext a s' (h.post a s' hrun)).post b s'' hnextrun

/-- Work on the disk keeps the memory of the judge. -/
theorem keeps_onDisk {σ : Type} {work : DiskM ε α} {w : World σ} {post : α → Disk → Prop}
    (h : Keeps id holds work w.disk post) :
    Keeps World.disk holds (World.onDisk work) w fun a w' => post a w'.disk :=
  ⟨h.along, fun a w' hrun => h.post a w'.disk (Reduction.run_of_onDisk hrun)⟩

theorem Disk.run_perform (operation : Disk → Except FileFault Disk) (error : FileFault → ε)
    (d : Disk) :
    (Disk.perform operation error).run d = match operation d with
      | .ok d' => (.ok (), d')
      | .error fault => (.error (error fault), d) := by
  rw [Disk.perform, run_bind_stateful]
  change (match operation d with
    | .ok d => set d
    | .error fault => throw (error fault) : DiskM ε Unit).run d = _
  cases operation d <;> rfl

/-- An operation makes one change, or fails and makes none. -/
theorem keeps_perform {operation : Disk → Except FileFault Disk} {error : FileFault → ε} {d : Disk}
    {post : Unit → Disk → Prop} (h : holds d)
    (hoperation : ∀ d', operation d = .ok d' → (∃ change, d' = d.commit change) ∧ holds d' ∧
      post () d') : Keeps id holds (Disk.perform operation error) d post := by
  have hrun := Disk.run_perform operation error d
  cases hresult : operation d with
  | error fault =>
      rw [hresult] at hrun
      refine ⟨by rw [hrun]; exact .refl h, fun a s' hrun' => ?_⟩
      rw [hrun] at hrun'
      cases hrun'
  | ok d' =>
      rw [hresult] at hrun
      obtain ⟨⟨change, rfl⟩, hd', hpost⟩ := hoperation d' hresult
      refine ⟨by rw [hrun]; exact .commit h hd', fun a s' hrun' => ?_⟩
      rw [hrun] at hrun'
      cases hrun'
      exact hpost

end

namespace Ledger

/-! ## Files -/

/-- The files of a ledger: the shaders and the bindings of the steps and of the end, the marker, and
the marker until it is complete. -/
inductive File where
  | shader (step : Option Nat)
  | bindings (step : Option Nat)
  | marker
  | draft
  deriving DecidableEq

/-- The tag of a step, or that of the end. -/
def tag : Option Nat → String
  | some step => toString step
  | none => "final"

/-- The path of a file. -/
def path (l : Ledger) : File → Path
  | .shader step => l.named (tag step) l.extension
  | .bindings step => l.named (tag step) "json"
  | .marker => l.markerPath
  | .draft => l.draftMarkerPath

/-- The name of a file, where the stem ends with a name. -/
def fileName (l : Ledger) (stem : String) : File → String
  | .shader step => stem ++ "_" ++ tag step ++ "." ++ l.extension
  | .bindings step => stem ++ "_" ++ tag step ++ "." ++ "json"
  | .marker => markerName
  | .draft => "." ++ markerName ++ ".tmp"

variable {l : Ledger} {stem : String}

/-- A tag begins with a digit, or with the first letter of the end. -/
theorem exists_toList_tag (step : Option Nat) :
    ∃ c rest, (tag step).toList = c :: rest ∧ c ≠ 'I' := by
  cases step with
  | none => exact ⟨'f', ['i', 'n', 'a', 'l'], by decide, by decide⟩
  | some n =>
      cases hdigits : (toString n).toList with
      | nil => exact absurd hdigits (Text.toString_ne_nil n)
      | cons c rest =>
          have hc : c.isDigit = true := Text.isDigit_toString (hdigits ▸ List.mem_cons_self)
          refine ⟨c, rest, hdigits, ?_⟩
          rintro rfl
          cases hc

theorem notMem_tag {c : Char} (hc : c.isDigit = false) (hfinal : c ∉ "final".toList)
    (step : Option Nat) : c ∉ (tag step).toList := by
  cases step with
  | none => exact hfinal
  | some n =>
      intro hmem
      rw [Text.isDigit_toString hmem] at hc
      cases hc

theorem tag_injective : Function.Injective tag := by
  have hfinal : ∀ n : Nat, toString n ≠ "final" := by
    intro n h
    have hmem : 'f' ∈ (toString n).toList := by
      rw [h]
      decide
    cases Text.isDigit_toString hmem
  intro step step' h
  cases step with
  | none =>
      cases step' with
      | none => rfl
      | some n => exact absurd h.symm (hfinal n)
  | some n =>
      cases step' with
      | none => exact absurd h (hfinal n)
      | some n' => exact congrArg some (Text.toString_injective h)

theorem toList_named (step : Option Nat) (extension : String) :
    (stem ++ "_" ++ tag step ++ "." ++ extension).toList =
      stem.toList ++ '_' :: ((tag step).toList ++ '.' :: extension.toList) := by
  simp

/-- From a name with a tag both the tag and the extension can be read. -/
theorem eq_of_named {step step' : Option Nat} {extension extension' : String}
    (h : stem ++ "_" ++ tag step ++ "." ++ extension =
      stem ++ "_" ++ tag step' ++ "." ++ extension') :
    step = step' ∧ extension = extension' := by
  have hbefore : ∀ (s : Option Nat) (rest : List Char),
      ((tag s).toList ++ '.' :: rest).takeWhile (· != '.') = (tag s).toList := by
    intro s rest
    have hdot : ∀ c ∈ (tag s).toList, (c != '.') = true := by
      intro c hc
      rw [bne_iff_ne]
      rintro rfl
      exact notMem_tag (by decide) (by decide) s hc
    rw [List.takeWhile_append_of_pos hdot, List.takeWhile_cons_of_neg (by decide), List.append_nil]
  have hlists := congrArg String.toList h
  rw [toList_named, toList_named] at hlists
  have hlists := (List.cons.inj (List.append_cancel_left hlists)).2
  have htag := congrArg (List.takeWhile (· != '.')) hlists
  rw [hbefore, hbefore] at htag
  rw [htag] at hlists
  exact ⟨tag_injective (String.toList_inj.mp htag),
    String.toList_inj.mp (List.cons.inj (List.append_cancel_left hlists)).2⟩

/-- No marker has a name with a tag: what follows a low line in it is no tag. -/
theorem named_ne {name : String} (step : Option Nat) (extension : String)
    (hname : ∀ i < name.toList.length, name.toList[i]? = some '_' → name.toList[i + 1]? = some 'I') :
    stem ++ "_" ++ tag step ++ "." ++ extension ≠ name := by
  rintro rfl
  obtain ⟨c, rest, htag, hc⟩ := exists_toList_tag step
  rw [toList_named, htag, List.cons_append] at hname
  have hlow := hname stem.toList.length (by simp) (by simp)
  rw [List.getElem?_append_right (Nat.le_add_right _ 1), Nat.add_sub_cancel_left] at hlow
  exact hc (Option.some.inj hlow)

theorem fileName_injective (hjson : l.extension ≠ "json") :
    Function.Injective (l.fileName stem) := by
  have hmarker : ∀ i < markerName.toList.length, markerName.toList[i]? = some '_' →
      markerName.toList[i + 1]? = some 'I' := by decide
  have hdraft : ∀ i < ("." ++ markerName ++ ".tmp").toList.length,
      ("." ++ markerName ++ ".tmp").toList[i]? = some '_' →
        ("." ++ markerName ++ ".tmp").toList[i + 1]? = some 'I' := by decide
  have hne : markerName ≠ "." ++ markerName ++ ".tmp" := by decide
  intro f f' h
  cases f with
  | shader step =>
      cases f' with
      | shader step' => rw [(eq_of_named h).1]
      | bindings step' => exact absurd (eq_of_named h).2 hjson
      | marker => exact absurd h (named_ne step l.extension hmarker)
      | draft => exact absurd h (named_ne step l.extension hdraft)
  | bindings step =>
      cases f' with
      | shader step' => exact absurd (eq_of_named h).2.symm hjson
      | bindings step' => rw [(eq_of_named h).1]
      | marker => exact absurd h (named_ne step "json" hmarker)
      | draft => exact absurd h (named_ne step "json" hdraft)
  | marker =>
      cases f' with
      | shader step' => exact absurd h.symm (named_ne step' l.extension hmarker)
      | bindings step' => exact absurd h.symm (named_ne step' "json" hmarker)
      | marker => rfl
      | draft => exact absurd h hne
  | draft =>
      cases f' with
      | shader step' => exact absurd h.symm (named_ne step' l.extension hdraft)
      | bindings step' => exact absurd h.symm (named_ne step' "json" hdraft)
      | marker => exact absurd h.symm hne
      | draft => rfl

/-- The path of a file ends with its name. -/
theorem endsIn_path (hslash : '/' ∉ l.extension.toList) (hstem : (⟨l.stem⟩ : Path).EndsIn stem)
    (f : File) : (l.path f).EndsIn (l.fileName stem f) := by
  have hnamed : ∀ (step : Option Nat) (extension : String), '/' ∉ extension.toList →
      (l.named (tag step) extension).EndsIn (stem ++ "_" ++ tag step ++ "." ++ extension) := by
    intro step extension hextension
    have htag : '/' ∉ (tag step).toList := notMem_tag (by decide) (by decide) step
    have hall := (((hstem.append "_" (by decide)).append (tag step) htag).append "."
      (by decide)).append extension hextension
    exact hall.join l.dir
  have hplain : ∀ name : String, '/' ∉ name.toList → (l.dir.join name).EndsIn name := by
    intro name hname
    have hempty : (⟨""⟩ : Path).EndsIn "" := ⟨[], by decide⟩
    have hone := hempty.append name hname
    rw [String.empty_append] at hone
    exact hone.join l.dir
  cases f with
  | shader step => exact hnamed step l.extension hslash
  | bindings step => exact hnamed step "json" (by decide)
  | marker => exact hplain markerName (by decide)
  | draft => exact hplain ("." ++ markerName ++ ".tmp") (by decide)

theorem leadsOn_fileName (f : File) : Disk.LeadsOn (l.fileName stem f) := by
  have hlow : ∀ name : String, '_' ∈ name.toList → Disk.LeadsOn name := by
    intro name hname
    have hne : ∀ other : String, '_' ∉ other.toList → name ≠ other := by
      rintro other hother rfl
      exact hother hname
    refine ⟨?_, hne ".." (by decide)⟩
    rw [Path.staysPut, beq_false_of_ne (hne "" (by decide)), beq_false_of_ne (hne "." (by decide)),
      Bool.false_or]
  have hnamed : ∀ (step : Option Nat) (extension : String),
      '_' ∈ (stem ++ "_" ++ tag step ++ "." ++ extension).toList := by
    intro step extension
    rw [toList_named]
    exact List.mem_append_right _ List.mem_cons_self
  cases f with
  | shader step => exact hlow _ (hnamed step l.extension)
  | bindings step => exact hlow _ (hnamed step "json")
  | marker => exact hlow markerName (by decide)
  | draft => exact hlow ("." ++ markerName ++ ".tmp") (by decide)

/-! ## What the files hold -/

/-- What each file of a ledger holds, if it is there. -/
def sight (l : Ledger) (d : Disk) (f : File) : Option (List UInt8) :=
  d.bytes? (l.path f)

/-- After changes to some of its files, all other files of a ledger hold what they held. -/
structure AlikeBut (l : Ledger) (files : List File) (d e : Disk) : Prop where
  home : e.Home
  others : ∀ f, f ∉ files → l.sight e f = l.sight d f

/-- The files of a step, or those of the end, hold the texts of a state. -/
def HoldsState (l : Ledger) (d : Disk) (step : Option Nat) (state : ReductionState) : Prop :=
  l.sight d (.shader step) = some (Utf8.encode state.source) ∧
    l.sight d (.bindings step) = some (Utf8.encode state.bindings.text)

/-- The marker is there and holds the text of a marker. -/
def HoldsMarker (l : Ledger) (d : Disk) (marker : Marker) : Prop :=
  l.sight d .marker = some (Utf8.encode marker.text)

section

variable {d e e' : Disk} {files files' : List File}

theorem AlikeBut.refl (hhome : d.Home) : l.AlikeBut files d d :=
  ⟨hhome, fun _ _ => rfl⟩

theorem AlikeBut.trans (h : l.AlikeBut files d e) (h' : l.AlikeBut files' e e') :
    l.AlikeBut (files ++ files') d e' := by
  refine ⟨h'.home, fun f hf => ?_⟩
  rw [List.mem_append, not_or] at hf
  rw [h'.others f hf.2, h.others f hf.1]

theorem HoldsState.congr {step : Option Nat} {state : ReductionState} (h : l.HoldsState d step state)
    (he : l.AlikeBut files d e) (hshader : .shader step ∉ files)
    (hbindings : .bindings step ∉ files) : l.HoldsState e step state :=
  ⟨(he.others _ hshader).trans h.1, (he.others _ hbindings).trans h.2⟩

end

section

variable {d : Disk} (hjson : l.extension ≠ "json") (hslash : '/' ∉ l.extension.toList)

include hjson hslash

/-- Changes to some files leave all others as they are. -/
theorem alikeBut_of_changes {e : Disk} (hstem : (⟨l.stem⟩ : Path).EndsIn stem) (files : List File)
    (h : d.Changes e (files.map (l.fileName stem))) : l.AlikeBut files d e := by
  refine ⟨h.home, fun f hf => ?_⟩
  refine h.others (l.path f) _ (endsIn_path hslash hstem f) (leadsOn_fileName f) fun hmem => hf ?_
  obtain ⟨f', hf', heq⟩ := List.mem_map.mp hmem
  rwa [← fileName_injective hjson heq]

/-- A text that is written to a file is what the file holds. -/
theorem keeps_writeText (hhome : d.Home) (f : File) (text : String) :
    Keeps id (l.AlikeBut [f] d) (writeText (l.path f) text) d
      fun _ e => l.AlikeBut [f] d e ∧ l.sight e f = some (Utf8.encode text) := by
  obtain ⟨stem, hstem⟩ := (⟨l.stem⟩ : Path).exists_endsIn
  refine keeps_perform (.refl hhome) fun e he => ?_
  obtain ⟨hchanges, hbytes⟩ := Disk.changes_write hhome (endsIn_path hslash hstem f)
    (leadsOn_fileName f) he
  have halike := alikeBut_of_changes hjson hslash hstem [f] hchanges
  exact ⟨hchanges.commit, halike, halike, hbytes⟩

/-- While a state is written, only its own files change. -/
theorem keeps_writeState (hhome : d.Home) (step : Option Nat) (state : ReductionState) :
    Keeps id (l.AlikeBut [.shader step, .bindings step] d)
      (writeState (l.path (.shader step)) (l.path (.bindings step)) state) d
      fun _ e => l.AlikeBut [.shader step, .bindings step] d e ∧ l.HoldsState e step state := by
  have hfirst := keeps_writeText hjson hslash hhome (.shader step) state.source
  have hhalf : ∀ e, l.AlikeBut [.shader step] d e →
      l.AlikeBut [.shader step, .bindings step] d e := by
    intro e he
    exact ⟨he.home, fun f hf => he.others f fun hmem => hf (List.mem_cons.mpr
      (.inl (List.mem_singleton.mp hmem)))⟩
  refine keeps_bind (hfirst.mono hhalf fun _ _ h => h) ?_
  rintro _ e ⟨he, hsource⟩
  have hsecond := keeps_writeText hjson hslash he.home (.bindings step) state.bindings.text
  refine hsecond.mono (fun e' he' => he.trans he') ?_
  rintro _ e' ⟨he', htext⟩
  refine ⟨he.trans he', ?_, htext⟩
  rw [he'.others (.shader step) (by simp), hsource]

/-- The marker is replaced in one change. Up to it only the draft changes, and after it the marker
is the new one. -/
theorem keeps_writeMarker (hhome : d.Home) (marker : Marker) {holds : Disk → Prop}
    (hbefore : ∀ e, d.Along (l.AlikeBut [.draft] d) e → holds e)
    (hafter : ∀ e, l.AlikeBut [.draft, .marker] d e → l.HoldsMarker e marker → holds e) :
    Keeps id holds (l.writeMarker marker) d
      fun _ e => l.AlikeBut [.draft, .marker] d e ∧ l.HoldsMarker e marker := by
  obtain ⟨stem, hstem⟩ := (⟨l.stem⟩ : Path).exists_endsIn
  have hfirst := keeps_writeText hjson hslash hhome .draft marker.text
  refine keeps_bind (hfirst.so_far.mono hbefore fun _ _ h => h) ?_
  rintro _ e ⟨halong, he, hdraft⟩
  have hne : l.fileName stem .draft ≠ l.fileName stem .marker := fun h =>
    File.noConfusion (fileName_injective hjson h)
  refine keeps_perform (hbefore e halong) fun e' he' => ?_
  obtain ⟨hchanges, hmoved, -⟩ := Disk.changes_rename he.home (endsIn_path hslash hstem .draft)
    (leadsOn_fileName .draft) (endsIn_path hslash hstem .marker) (leadsOn_fileName .marker) hne
    hdraft he'
  have hrenamed := he.trans (alikeBut_of_changes hjson hslash hstem [.draft, .marker] hchanges)
  have halike : l.AlikeBut [.draft, .marker] d e' :=
    ⟨hrenamed.home, fun f hf => hrenamed.others f (by simpa using hf)⟩
  exact ⟨hchanges.commit, hafter e' halike hmoved, halike, hmoved⟩

omit hjson hslash in
theorem run_removeMarker (l : Ledger) (d : Disk) :
    l.removeMarker.run d = match d.remove l.markerPath with
      | .ok e => (.ok (), e)
      | .error .notFound => (.ok (), d)
      | .error _ => (.error (.inaccessible l.markerPath), d) := by
  rw [removeMarker, run_bind_stateful]
  change (match d.remove l.markerPath with
    | .ok d => set d
    | .error .notFound => return
    | .error _ => throw (.inaccessible l.markerPath) : DiskM ReductionError Unit).run d = _
  split <;> rfl

/-- The marker is removed in one change. -/
theorem keeps_removeMarker (hhome : d.Home) :
    Keeps id
      (fun e => l.AlikeBut [.marker] d e ∧
        (l.sight e .marker = l.sight d .marker ∨ l.sight e .marker = none))
      l.removeMarker d
      fun _ e => l.AlikeBut [.marker] d e ∧ l.sight e .marker = none := by
  obtain ⟨stem, hstem⟩ := (⟨l.stem⟩ : Path).exists_endsIn
  have hrun := l.run_removeMarker d
  have hsame : l.AlikeBut [.marker] d d ∧
      (l.sight d .marker = l.sight d .marker ∨ l.sight d .marker = none) :=
    ⟨.refl hhome, .inl rfl⟩
  cases hremove : d.remove l.markerPath with
  | ok e =>
      rw [hremove] at hrun
      obtain ⟨hchanges, hgone⟩ := Disk.changes_remove hhome (endsIn_path hslash hstem .marker)
        (leadsOn_fileName .marker) hremove
      obtain ⟨change, rfl⟩ := hchanges.commit
      have halike := alikeBut_of_changes hjson hslash hstem [.marker] hchanges
      constructor
      · rw [hrun]
        exact .commit hsame ⟨halike, .inr hgone⟩
      · intro _ e hrun'
        rw [hrun] at hrun'
        cases hrun'
        exact ⟨halike, hgone⟩
  | error fault =>
      have hnone : l.sight d .marker = none := by
        refine Option.eq_none_iff_forall_ne_some.mpr fun bytes hbytes => ?_
        obtain ⟨e, he⟩ := Disk.exists_remove hbytes
        cases hremove.symm.trans he
      rw [hremove] at hrun
      constructor
      · have hkept : (l.removeMarker.run d).2 = d := by
          rw [hrun]
          cases fault <;> rfl
        rw [hkept]
        exact .refl hsame
      · intro _ e hrun'
        rw [hrun] at hrun'
        cases fault <;> cases hrun'
        exact ⟨.refl hhome, hnone⟩

end

end Ledger

end ShaderReducer
