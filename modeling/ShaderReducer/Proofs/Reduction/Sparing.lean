import ShaderReducer.Proofs.Reduction.Ending
import ShaderReducer.Proofs.Reduction.Ledger
import ShaderReducer.Proofs.Text.Utf8

/-!
# Work that spares the files of a ledger

A search leaves the files of a ledger alone if its judge does. What is read from a ledger changes
nothing, and the marker that is read is the one that is there.
-/

namespace ShaderReducer

variable {σ : Type}

/-! ## Judges -/

/-- A judge leaves the files of a ledger alone, and the working directory. -/
def Judge.Spares (judge : Judge σ) (l : Ledger) : Prop :=
  ∀ candidate (w : World σ), w.disk.Home →
    w.disk.Along (l.AlikeBut [] w.disk) ((judge candidate).run w).2.disk

theorem Judge.spares_ofMemory (decide : ReductionState → σ → Except JudgeError Bool × σ)
    (l : Ledger) : (Judge.ofMemory decide).Spares l :=
  fun _ _ hhome => .refl (.refl hhome)

theorem Ledger.along_alike {l : Ledger} {d d' d'' : Disk} (h : d.Along (l.AlikeBut [] d) d')
    (h' : d'.Along (l.AlikeBut [] d') d'') : d.Along (l.AlikeBut [] d) d'' :=
  h.trans (h'.mono fun _ he => h.last.trans he)

namespace Search

variable {q : Search σ} {p : Position σ} {l : Ledger}

theorem world_judged (q : Search σ) (candidate : ReductionState) (w : World σ) :
    (q.judged candidate w).2 = w ∨ (q.judged candidate w).2 = ((q.judge candidate).run w).2 := by
  rw [judged]
  split
  next => exact .inl rfl
  next =>
    generalize (q.judge candidate).run w = result
    obtain ⟨verdict, w'⟩ := result
    dsimp only
    split
    next => exact .inr rfl
    next => exact .inr rfl
    next => split <;> exact .inr rfl

/-- What a search tries last is tried where nothing is left, or where it ends. -/
theorem exists_last (q : Search σ) (p : Position σ) :
    ∃ p', q.Passes p p' ∧
      ((q.runFrom p).2 = p'.effort ∨ (q.runFrom p).2 = (q.trial p').2) := by
  obtain ⟨p', hpasses, hends⟩ := q.exists_ends p
  refine ⟨p', hpasses, ?_⟩
  generalize q.runFrom p = result at hends
  cases hends with
  | dry => exact .inl rfl
  | accepted => exact .inr rfl
  | failed => exact .inr rfl

section

variable (hjudge : q.judge.Spares l)

include hjudge

theorem along_trial (hhome : p.effort.world.disk.Home) :
    p.effort.world.disk.Along (l.AlikeBut [] p.effort.world.disk) (q.trial p).2.world.disk := by
  rw [trial, tryChunk]
  dsimp only
  split
  next =>
    obtain hworld | hworld := q.world_judged
      ⟨(Opportunity.tryAll (q.chunk p) q.accepted.shader (q.drawn p).names).2.1,
        q.accepted.bindings⟩ (q.drawn p).world
    · rw [hworld]
      exact .refl (.refl hhome)
    · rw [hworld]
      exact hjudge _ (q.drawn p).world hhome
  next => exact .refl (.refl hhome)

theorem along_passes {p' : Position σ} (h : q.Passes p p') (hhome : p.effort.world.disk.Home) :
    p.effort.world.disk.Along (l.AlikeBut [] p.effort.world.disk) p'.effort.world.disk := by
  induction h with
  | refl => exact .refl (.refl hhome)
  | tail _ hnext ih =>
      refine Ledger.along_alike ih ?_
      have htrial := along_trial hjudge ih.last.home
      cases hnext with
      | stale => exact htrial
      | halved => exact htrial
      | dropped => exact htrial

/-- A search leaves the files of a ledger alone. -/
theorem along_runFrom (hhome : p.effort.world.disk.Home) :
    p.effort.world.disk.Along (l.AlikeBut [] p.effort.world.disk) (q.runFrom p).2.world.disk := by
  obtain ⟨p', hpasses, hlast | hlast⟩ := q.exists_last p
  · rw [hlast]
    exact along_passes hjudge hpasses hhome
  · have hbefore := along_passes hjudge hpasses hhome
    rw [hlast]
    exact Ledger.along_alike hbefore (along_trial hjudge hbefore.last.home)

end

end Search

/-! ## Reading -/

section

variable {ε α β : Type}

/-- Work that leaves the disk as it is. -/
def ReadsOnly (work : DiskM ε α) : Prop :=
  ∀ d, (work.run d).2 = d

theorem readsOnly_pure (a : α) : ReadsOnly (pure a : DiskM ε α) :=
  fun _ => rfl

theorem readsOnly_throw (error : ε) : ReadsOnly (throw error : DiskM ε α) :=
  fun _ => rfl

theorem readsOnly_bind {work : DiskM ε α} {next : α → DiskM ε β} (h : ReadsOnly work)
    (hnext : ∀ a, ReadsOnly (next a)) : ReadsOnly (work >>= next) := by
  intro d
  have hd := h d
  rw [run_bind_stateful]
  cases hrun : work.run d with
  | mk result d' =>
      rw [hrun] at hd
      cases result with
      | error error => exact hd
      | ok a => exact (hnext a d').trans hd

theorem readsOnly_query (look : Disk → Except FileFault α) (error : FileFault → ε) :
    ReadsOnly (Disk.query look error) := by
  refine readsOnly_bind (fun _ => rfl) fun d => ?_
  split
  next => exact readsOnly_pure _
  next => exact readsOnly_throw _

theorem run_onDisk_of_readsOnly {work : DiskM ε α} (h : ReadsOnly work) (w : World σ) :
    (World.onDisk work : WorldM ε σ α).run w = ((work.run w.disk).1, w) := by
  change ((work.run w.disk).1, { w with disk := (work.run w.disk).2 }) = _
  rw [h w.disk]

end

theorem readsOnly_readText (p : Path) : ReadsOnly (ReductionState.readText p) := by
  refine readsOnly_bind (readsOnly_query _ _) fun bytes => ?_
  split
  next => exact readsOnly_pure _
  next => exact readsOnly_throw _

theorem readsOnly_loadShader (p : Path) : ReadsOnly (ReductionState.loadShader p) := by
  refine readsOnly_bind (readsOnly_readText p) fun text => ?_
  split
  next => exact readsOnly_pure _
  next => exact readsOnly_throw _

theorem readsOnly_loadBindings (p : Path) : ReadsOnly (ReductionState.loadBindings p) := by
  refine readsOnly_bind (fun _ => rfl) fun d => ?_
  split
  next => exact readsOnly_pure _
  next =>
    refine readsOnly_bind (readsOnly_readText p) fun text => ?_
    split
    next => exact readsOnly_pure _
    next => exact readsOnly_throw _

namespace Ledger

variable {l : Ledger}

theorem readsOnly_loadSnapshot (l : Ledger) (step : Nat) : ReadsOnly (l.loadSnapshot step) := by
  refine readsOnly_bind (readsOnly_loadShader _) fun shader => ?_
  exact readsOnly_bind (readsOnly_loadBindings _) fun bindings => readsOnly_pure _

theorem readsOnly_readMarker (l : Ledger) : ReadsOnly l.readMarker := by
  refine readsOnly_bind (fun _ => rfl) fun d => ?_
  split
  next => exact readsOnly_throw _
  next =>
    refine readsOnly_bind (readsOnly_readText _) fun text => ?_
    split
    next => exact readsOnly_pure _
    next => exact readsOnly_throw _

/-- The marker that is read is the one that is there. -/
theorem exists_of_readMarker {d d' : Disk} {marker : Marker}
    (h : l.readMarker.run d = (.ok marker, d')) :
    ∃ bytes text, l.sight d .marker = some bytes ∧ Utf8.decode? bytes = some text ∧
      Marker.parse? text = some marker := by
  obtain ⟨d₁, d₂, hget, h⟩ := exists_of_bind_eq_ok h
  cases hget
  split at h
  next => cases h
  next =>
    obtain ⟨text, d₃, hread, h⟩ := exists_of_bind_eq_ok h
    obtain ⟨bytes, d₄, hquery, hread⟩ := exists_of_bind_eq_ok hread
    obtain ⟨d₅, d₆, hget, hquery⟩ := exists_of_bind_eq_ok hquery
    cases hget
    split at hquery
    next bytes' hbytes =>
      cases hquery
      split at hread
      next text' hdecode =>
        cases hread
        split at h
        next marker' hparse =>
          cases h
          exact ⟨bytes, text, Disk.read_eq_ok_iff.mp hbytes, hdecode, hparse⟩
        next => cases h
      next => cases hread
    next => cases hquery

/-- A text is read from the bytes that it has. -/
theorem run_readText {d : Disk} {path : Path} {bytes : List UInt8} {text : String}
    (hbytes : d.bytes? path = some bytes) (hdecode : Utf8.decode? bytes = some text) :
    (ReductionState.readText path).run d = (.ok text, d) := by
  have hget : (get : DiskM ReductionError Disk).run d = (.ok d, d) := rfl
  have hread : d.read path = .ok bytes := Disk.read_eq_ok_iff.mpr hbytes
  have hquery : (Disk.query (·.read path) fun _ => ReductionError.inaccessible path).run d =
      (.ok bytes, d) := by
    rw [Disk.query, run_bind_stateful, hget]
    dsimp only
    rw [hread]
    rfl
  rw [ReductionState.readText, run_bind_stateful, hquery]
  dsimp only
  rw [hdecode]
  rfl

theorem readMarker_eq {d : Disk} {bytes : List UInt8} {text : String} {marker : Marker}
    (hbytes : l.sight d .marker = some bytes) (hdecode : Utf8.decode? bytes = some text)
    (hparse : Marker.parse? text = some marker) : l.readMarker.run d = (.ok marker, d) := by
  have hget : (get : DiskM ReductionError Disk).run d = (.ok d, d) := rfl
  have hread : d.read l.markerPath = .ok bytes := Disk.read_eq_ok_iff.mpr hbytes
  have htext : (ReductionState.readText l.markerPath).run d = (.ok text, d) :=
    run_readText hbytes hdecode
  rw [readMarker, run_bind_stateful, hget]
  dsimp only
  rw [hread]
  dsimp only
  rw [run_bind_stateful, htext]
  dsimp only
  rw [hparse]
  rfl

/-- A marker that was written is read. -/
theorem HoldsMarker.readMarker_eq {d : Disk} {marker : Marker} (h : l.HoldsMarker d marker)
    (hstep : marker.step < 2 ^ 32) : l.readMarker.run d = (.ok marker, d) :=
  Ledger.readMarker_eq h (Utf8.decode?_encode _) (Marker.parse?_text hstep)

/-- What is read of a marker depends on its file only. -/
theorem readMarker_congr {d d' e : Disk} {marker : Marker}
    (h : l.readMarker.run d = (.ok marker, d')) (hsame : l.sight e .marker = l.sight d .marker) :
    l.readMarker.run e = (.ok marker, e) := by
  obtain ⟨bytes, text, hbytes, hdecode, hparse⟩ := exists_of_readMarker h
  exact readMarker_eq (hsame.trans hbytes) hdecode hparse

theorem eq_of_readMarker {d d' : Disk} {marker marker' : Marker}
    (hholds : l.HoldsMarker d marker) (h : l.readMarker.run d = (.ok marker', d')) :
    marker' = marker := by
  obtain ⟨bytes, text, hsight, hdecode, hparse⟩ := exists_of_readMarker h
  cases hholds.symm.trans hsight
  rw [Utf8.decode?_encode] at hdecode
  cases hdecode
  exact Marker.eq_of_parse?_text hparse

end Ledger

end ShaderReducer
