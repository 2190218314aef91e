import ShaderReducer.Proofs.Reduction.Sparing

/-!
# Runs that may crash

The marker of a ledger names a step whose snapshot is complete, at every moment of a run: a snapshot
is written before the marker names it, and it is not written again while the marker does. The marker
is removed after the final files are complete. So a run that was cut off at any moment leaves files
that a later run can go on from, or a result.
-/

namespace ShaderReducer

namespace Reduction

variable {σ : Type} {r : Reduction σ} {start p p' : Progress} {w₀ w w' : World σ}

/-! ## Accepted states -/

/-- A run has accepted a state as the one with a number: it began with it, or a search from the
state before found it. -/
inductive Accepts (r : Reduction σ) (start : Progress) (w₀ : World σ) : Nat → ReductionState → Prop
  | start : Accepts r start w₀ start.step start.accepted
  | next {p : Progress} {w : World σ} {candidate : ReductionState}
      (hsteps : r.Steps (start, w₀) (p, w))
      (hfound : ((r.search p).runFrom (r.firstPosition p w)).1 = .accepted candidate) :
      Accepts r start w₀ (p.step + 1) ⟨candidate.shader.compact, candidate.bindings⟩

/-- Steps are counted. -/
theorem Steps.step_le (h : r.Steps (p, w) (p', w')) :
    p.step ≤ p'.step ∧ (p'.step = p.step → (p', w') = (p, w)) := by
  generalize hend : (p', w') = last at h
  induction h generalizing p' w' with
  | refl =>
      cases hend
      exact ⟨Nat.le_refl _, fun _ => rfl⟩
  | @tail before last hsteps hstep ih =>
      obtain ⟨q, v⟩ := before
      obtain ⟨hle, -⟩ := ih rfl
      subst hend
      obtain ⟨_, -, -, hnext⟩ := exists_of_advance hstep
      dsimp only at hnext
      exact ⟨by omega, fun heq => by omega⟩

/-- A run comes to one state only with each number. -/
theorem Steps.unique {q : Progress} {v : World σ} (h : r.Steps (start, w₀) (p, w))
    (h' : r.Steps (start, w₀) (q, v)) (hstep : p.step = q.step) : (p, w) = (q, v) := by
  have hunique : Relator.RightUnique fun a b : Progress × World σ =>
      (r.advance a.1).run a.2 = (.ok (some b.1), b.2) := by
    intro a b c hb hc
    obtain ⟨hresult, hworld⟩ := Prod.mk.inj (hb.symm.trans hc)
    exact Prod.ext (Option.some.inj (Except.ok.inj hresult)) hworld
  obtain hsteps | hsteps := Relation.ReflTransGen.total_of_right_unique hunique h h'
  · exact ((Steps.step_le hsteps).2 hstep.symm).symm
  · exact (Steps.step_le hsteps).2 hstep

theorem accepts_iff {k : Nat} {state : ReductionState} : r.Accepts start w₀ k state ↔
    (k = start.step ∧ state = start.accepted) ∨
    ∃ p w candidate, r.Steps (start, w₀) (p, w) ∧
      ((r.search p).runFrom (r.firstPosition p w)).1 = .accepted candidate ∧ k = p.step + 1 ∧
      state = ⟨candidate.shader.compact, candidate.bindings⟩ := by
  constructor
  · intro h
    cases h with
    | start => exact .inl ⟨rfl, rfl⟩
    | @next p w candidate hsteps hfound => exact .inr ⟨p, w, candidate, hsteps, hfound, rfl, rfl⟩
  · rintro (⟨rfl, rfl⟩ | ⟨p, w, candidate, hsteps, hfound, rfl, rfl⟩)
    · exact .start
    · exact .next hsteps hfound

/-- Only one state is accepted with each number. -/
theorem Accepts.unique {k : Nat} {state state' : ReductionState} (h : r.Accepts start w₀ k state)
    (h' : r.Accepts start w₀ k state') : state = state' := by
  rw [accepts_iff] at h h'
  obtain ⟨hk, rfl⟩ | ⟨p, w, candidate, hsteps, hfound, hk, rfl⟩ := h
  · obtain ⟨-, rfl⟩ | ⟨p, w, candidate, hsteps, -, hk', -⟩ := h'
    · rfl
    · have hle : start.step ≤ p.step := (Steps.step_le hsteps).1
      omega
  · obtain ⟨hk', -⟩ | ⟨p', w', candidate', hsteps', hfound', hk', rfl⟩ := h'
    · have hle : start.step ≤ p.step := (Steps.step_le hsteps).1
      omega
    · cases hsteps.unique hsteps' (by omega)
      rw [hfound] at hfound'
      cases hfound'
      rfl

/-- What a run has come to was accepted. -/
theorem Steps.accepts (h : r.Steps (start, w₀) (p, w)) : r.Accepts start w₀ p.step p.accepted := by
  obtain heq | ⟨⟨q, v⟩, hsteps, hlast⟩ := Relation.ReflTransGen.cases_tail h
  · cases heq
    exact .start
  · obtain ⟨candidate, hfound, haccepted, hstep⟩ := exists_of_advance hlast
    dsimp only at hstep haccepted
    rw [hstep, haccepted]
    exact .next hsteps hfound

end Reduction

/-! ## Files that a run can go on from -/

namespace Ledger

variable {l : Ledger} {seed : UInt64} {accepted : Nat → ReductionState → Prop}
  {held : ReductionState → Prop} {d e : Disk} {k : Nat}

/-- The marker names a step and the seed, and the snapshot of the step is complete. -/
def NamesStep (l : Ledger) (seed : UInt64) (accepted : Nat → ReductionState → Prop) (d : Disk)
    (k : Nat) : Prop :=
  l.HoldsMarker d ⟨k, seed⟩ ∧ ∃ state, accepted k state ∧ l.HoldsState d (some k) state

/-- The marker names a step whose snapshot is complete, or it is gone and the final files are
complete. -/
def IsSafe (l : Ledger) (seed : UInt64) (accepted : Nat → ReductionState → Prop)
    (held : ReductionState → Prop) (d : Disk) : Prop :=
  d.Home ∧ ((∃ k, l.NamesStep seed accepted d k) ∨
    (l.sight d .marker = none ∧ ∃ state, held state ∧ l.HoldsState d none state))

/-- There is no marker. -/
def Unmarked (l : Ledger) (d : Disk) : Prop :=
  d.Home ∧ l.sight d .marker = none

/-- Changes to other files do not matter. -/
theorem NamesStep.congr {files : List File} (h : l.NamesStep seed accepted d k)
    (he : l.AlikeBut files d e) (hmarker : .marker ∉ files) (hshader : .shader (some k) ∉ files)
    (hbindings : .bindings (some k) ∉ files) : l.NamesStep seed accepted e k := by
  obtain ⟨hholds, state, haccepted, hstate⟩ := h
  exact ⟨(he.others _ hmarker).trans hholds, state, haccepted, hstate.congr he hshader hbindings⟩

theorem NamesStep.safe (h : l.NamesStep seed accepted d k) (hhome : d.Home) :
    l.IsSafe seed accepted held d :=
  ⟨hhome, .inl ⟨k, h⟩⟩

section

variable (hjson : l.extension ≠ "json") (hslash : '/' ∉ l.extension.toList)

include hjson hslash

/-- The first snapshot is written before there is a marker. -/
theorem keeps_firstStep (hunmarked : l.Unmarked d) {state : ReductionState}
    (hstate : accepted 0 state) :
    Keeps id (fun e => d.Along l.Unmarked e ∨ l.IsSafe seed accepted held e) (do
      l.writeSnapshot 0 state
      l.writeMarker ⟨0, seed⟩) d
      fun _ e => e.Home ∧ l.NamesStep seed accepted e 0 := by
  have hunmarked' : ∀ files, File.marker ∉ files → ∀ d e, l.Unmarked d → l.AlikeBut files d e →
      l.Unmarked e := fun files hfiles d e hd he =>
    ⟨he.home, (he.others _ hfiles).trans hd.2⟩
  have hsnapshot := (keeps_writeState hjson hslash hunmarked.1 (some 0) state).mono
    (fun e he => hunmarked' _ (by simp) d e hunmarked he) fun _ _ h => h
  refine keeps_bind (hsnapshot.so_far.mono (fun e he => .inl he) fun _ _ h => h) ?_
  rintro _ e ⟨hbefore, he, hheld⟩
  have hnew : ∀ e', l.AlikeBut [.draft, .marker] e e' → l.HoldsMarker e' ⟨0, seed⟩ →
      l.NamesStep seed accepted e' 0 := fun e' he' hmarker =>
    ⟨hmarker, state, hstate, hheld.congr he' (by simp) (by simp)⟩
  refine (keeps_writeMarker hjson hslash he.home ⟨0, seed⟩ ?_ ?_).mono (fun _ h => h)
    fun _ e' h => ⟨h.1.home, hnew e' h.1 h.2⟩
  · intro e' halong
    exact .inl (hbefore.trans (halong.mono fun e'' => hunmarked' _ (by simp) e e'' hbefore.last))
  · exact fun e' he' hmarker => .inr ((hnew e' he' hmarker).safe he'.home)

/-- The next snapshot is written while the marker names the step before, and then the marker names
its step. -/
theorem keeps_nextStep (hhome : d.Home) (hnames : l.NamesStep seed accepted d k)
    {state : ReductionState} (hstate : accepted (k + 1) state) :
    Keeps id (l.IsSafe seed accepted held) (do
      l.writeSnapshot (k + 1) state
      l.writeMarker ⟨k + 1, seed⟩) d
      fun _ e => e.Home ∧ l.NamesStep seed accepted e (k + 1) := by
  have hother : ∀ e, l.AlikeBut [.shader (some (k + 1)), .bindings (some (k + 1))] d e →
      l.NamesStep seed accepted e k := fun e he =>
    hnames.congr he (by simp) (by simp) (by simp)
  have hsnapshot := keeps_writeState hjson hslash hhome (some (k + 1)) state
  refine keeps_bind (hsnapshot.mono (fun e he => (hother e he).safe he.home) fun _ _ h => h) ?_
  rintro _ e ⟨he, hheld⟩
  have hnew : ∀ e', l.AlikeBut [.draft, .marker] e e' → l.HoldsMarker e' ⟨k + 1, seed⟩ →
      l.NamesStep seed accepted e' (k + 1) := fun e' he' hmarker =>
    ⟨hmarker, state, hstate, hheld.congr he' (by simp) (by simp)⟩
  refine (keeps_writeMarker hjson hslash he.home ⟨k + 1, seed⟩ ?_ ?_).mono (fun _ h => h)
    fun _ e' h => ⟨h.1.home, hnew e' h.1 h.2⟩
  · intro e' halong
    exact ((hother e he).congr halong.last (by simp) (by simp) (by simp)).safe halong.last.home
  · exact fun e' he' hmarker => (hnew e' he' hmarker).safe he'.home

/-- The final files are written while the marker is there, and then the marker is removed. -/
theorem keeps_finish (hhome : d.Home) (hnames : l.NamesStep seed accepted d k)
    {state : ReductionState} (hstate : held state) :
    Keeps id (l.IsSafe seed accepted held) (do
      l.writeFinal state
      l.removeMarker) d fun _ _ => True := by
  have hfinal := keeps_writeState hjson hslash hhome none state
  have hother : ∀ e, l.AlikeBut [.shader none, .bindings none] d e →
      l.NamesStep seed accepted e k := fun e he =>
    hnames.congr he (by simp) (by simp) (by simp)
  refine keeps_bind (hfinal.mono (fun e he => (hother e he).safe he.home) fun _ _ h => h) ?_
  rintro _ e ⟨he, hheld⟩
  refine (keeps_removeMarker hjson hslash he.home).mono ?_ fun _ _ _ => trivial
  rintro e' ⟨he', hmarker | hmarker⟩
  · obtain ⟨hholds, state', haccepted, hstate'⟩ := hother e he
    exact NamesStep.safe ⟨hmarker.trans hholds, state', haccepted,
      hstate'.congr he' (by simp) (by simp)⟩ he'.home
  · exact ⟨he'.home, .inr ⟨hmarker, state, hstate, hheld.congr he' (by simp) (by simp)⟩⟩

end

end Ledger

/-! ## Runs -/

/-- Two parts of work on the disk are two parts of work on the world. -/
theorem World.onDisk_bind {ε σ α β : Type} (work : DiskM ε α) (next : α → DiskM ε β) :
    (World.onDisk (work >>= next) : WorldM ε σ β) =
      World.onDisk work >>= fun a => World.onDisk (next a) := by
  funext w
  change (World.onDisk (work >>= next) : WorldM ε σ β).run w =
    (World.onDisk work >>= fun a => World.onDisk (next a) : WorldM ε σ β).run w
  rw [Reduction.run_onDisk, run_bind_stateful, run_bind_stateful, Reduction.run_onDisk]
  cases work.run w.disk with
  | mk result d => cases result <;> rfl

namespace Reduction

variable {σ : Type} {r : Reduction σ} {start p : Progress} {w₀ w : World σ}
  {accepted : Nat → ReductionState → Prop} {held : ReductionState → Prop}

section

variable (hjson : r.ledger.extension ≠ "json") (hslash : '/' ∉ r.ledger.extension.toList)
  (hjudge : r.judge.Spares r.ledger)

include hjson hslash hjudge

/-- One step of a run. -/
theorem keeps_advance (hhome : w.disk.Home)
    (hnames : r.ledger.NamesStep r.seed accepted w.disk p.step)
    (hnext : ∀ candidate, ((r.search p).runFrom (r.firstPosition p w)).1 = .accepted candidate →
      accepted (p.step + 1) ⟨candidate.shader.compact, candidate.bindings⟩) :
    Keeps World.disk (r.ledger.IsSafe r.seed accepted held) (r.advance p) w
      fun result w' => w'.disk.Home ∧ r.ledger.NamesStep r.seed accepted w'.disk
        ((result.map Progress.step).getD p.step) := by
  have hsearch : w.disk.Along (r.ledger.AlikeBut [] w.disk)
      ((r.search p).runFrom (r.firstPosition p w)).2.world.disk :=
    Search.along_runFrom (q := r.search p) (p := r.firstPosition p w) hjudge hhome
  have hspared : ∀ e, r.ledger.AlikeBut [] w.disk e →
      r.ledger.NamesStep r.seed accepted e p.step := fun e he =>
    hnames.congr he (by simp) (by simp) (by simp)
  have hsafe : w.disk.Along (r.ledger.IsSafe r.seed accepted held)
      ((r.search p).runFrom (r.firstPosition p w)).2.world.disk :=
    hsearch.mono fun e he => (hspared e he).safe he.home
  have hend := hspared _ hsearch.last
  have hendhome := hsearch.last.home
  generalize hrun : (r.search p).runFrom (r.firstPosition p w) = found at *
  obtain ⟨finding, effort⟩ := found
  have hadvance := r.advance_eq p w
  rw [hrun] at hadvance
  cases finding with
  | dry =>
      refine ⟨by rw [hadvance]; exact hsafe, fun result w' h => ?_⟩
      rw [hadvance] at h
      cases h
      exact ⟨hendhome, hend⟩
  | failed error =>
      refine ⟨by rw [hadvance]; exact hsafe, fun result w' h => ?_⟩
      rw [hadvance] at h
      cases h
  | accepted candidate =>
      have hstep : Keeps id (r.ledger.IsSafe r.seed accepted held) _ effort.world.disk _ :=
        Ledger.keeps_nextStep hjson hslash hendhome hend (hnext candidate rfl)
      let next : Progress := ⟨⟨candidate.shader.compact, candidate.bindings⟩, p.step + 1,
        p.taken + 1, effort.source, effort.names⟩
      have hblock : Keeps World.disk (r.ledger.IsSafe r.seed accepted held) _ effort.world
          fun result w' => w'.disk.Home ∧ r.ledger.NamesStep r.seed accepted w'.disk
            ((Option.map Progress.step result).getD p.step) :=
        keeps_bind (keeps_onDisk hstep) fun _ w' h => keeps_pure (a := some next) (h.2.safe h.1) h
      rw [World.onDisk_bind, bind_assoc] at hblock
      constructor
      · rw [hadvance]
        exact hsafe.trans hblock.along
      · intro result w' h
        rw [hadvance] at h
        exact hblock.post result w' h

/-- Any number of steps, up to the end of a run. -/
theorem keeps_reduce (hsteps : r.Steps (start, w₀) (p, w)) (hhome : w.disk.Home)
    (hnames : r.ledger.NamesStep r.seed accepted w.disk p.step)
    (haccepted : ∀ k state, start.step < k → r.Accepts start w₀ k state → accepted k state)
    (hheld : ∀ k state, r.Accepts start w₀ k state → held state) (more : Nat) :
    Keeps World.disk (r.ledger.IsSafe r.seed accepted held) (r.reduce more p) w
      fun _ _ => True := by
  induction more generalizing p w with
  | zero => exact keeps_pure (hnames.safe hhome) trivial
  | succ more ih =>
      rw [reduce]
      have hle := (Steps.step_le hsteps).1
      have hadvance : Keeps World.disk (r.ledger.IsSafe r.seed accepted held) (r.advance p) w _ :=
        keeps_advance hjson hslash hjudge hhome hnames fun candidate hfound =>
          haccepted _ _ (by omega) (.next hsteps hfound)
      refine keeps_bind hadvance.with_run ?_
      rintro result w' ⟨hrun, hhome', hnames'⟩
      cases result with
      | none =>
          have hfinish : Keeps id (r.ledger.IsSafe r.seed accepted held) _ w'.disk _ :=
            Ledger.keeps_finish hjson hslash hhome' hnames' (hheld _ _ hsteps.accepts)
          have hblock : Keeps World.disk (r.ledger.IsSafe r.seed accepted held) _ w'
              fun _ _ => True :=
            keeps_bind (keeps_onDisk hfinish.at_end) fun _ _ h =>
              keeps_pure (a := (⟨.exhausted, p.step, p.accepted⟩ : Outcome)) h.1 trivial
          rw [World.onDisk_bind, bind_assoc] at hblock
          exact hblock
      | some p' =>
          dsimp only
          split
          next => exact keeps_pure (hnames'.safe hhome') trivial
          next => exact ih (.tail hsteps hrun) hhome' hnames'

theorem keeps_go (hhome : w₀.disk.Home)
    (hnames : r.ledger.NamesStep r.seed accepted w₀.disk start.step)
    (haccepted : ∀ k state, start.step < k → r.Accepts start w₀ k state → accepted k state)
    (hheld : ∀ k state, r.Accepts start w₀ k state → held state) :
    Keeps World.disk (r.ledger.IsSafe r.seed accepted held) (r.go start) w₀ fun _ _ => True := by
  rw [go]
  split
  next => exact keeps_pure (hnames.safe hhome) trivial
  next => exact keeps_reduce hjson hslash hjudge .refl hhome hnames haccepted hheld _

end

/-! ## Runs after runs -/

/-- Where a run that goes on with a reduction begins, if the marker and its snapshot are read. -/
def resumption (config : Config) (l : Ledger) (judge : Judge σ) (d : Disk) :
    Option (Reduction σ × Progress) :=
  match l.readMarker.run d with
  | (.ok marker, d) =>
    match (l.loadSnapshot marker.step).run d with
    | (.ok accepted, _) => some (⟨config, l, judge, marker.seed⟩, {
        accepted := accepted
        step := marker.step
        source := RandomSource.ofSeed (Seed.derive marker.seed marker.step.toUInt64) })
    | _ => none
  | _ => none

/-- A run that goes on with a reduction changes nothing before it begins. -/
theorem resume_cases (config : Config) (l : Ledger) (judge : Judge σ) (w : World σ) :
    ((resume config l judge).run w).2 = w ∨
      ∃ r start, resumption config l judge w.disk = some (r, start) ∧
        (resume config l judge).run w = (r.go start).run w := by
  rw [resume]
  split
  next => exact .inl rfl
  next =>
    change ((World.onDisk l.readMarker >>= _ : WorldM ReductionError σ Outcome).run w).2 = w ∨
      ∃ r start, _ ∧ (World.onDisk l.readMarker >>= _ : WorldM ReductionError σ Outcome).run w = _
    rw [run_bind_stateful, run_onDisk_of_readsOnly l.readsOnly_readMarker, resumption]
    have hdisk := l.readsOnly_readMarker w.disk
    cases hmarker : l.readMarker.run w.disk with
    | mk result d =>
        rw [hmarker] at hdisk
        subst hdisk
        cases result with
        | error error => exact .inl rfl
        | ok marker =>
            dsimp only
            rw [run_bind_stateful,
              run_onDisk_of_readsOnly (l.readsOnly_loadSnapshot marker.step)]
            cases hloaded : (l.loadSnapshot marker.step).run w.disk with
            | mk result d =>
                cases result with
                | error error => exact .inl rfl
                | ok accepted => exact .inr ⟨_, _, rfl, rfl⟩

/-- It begins at the step that the marker names, with its seed. -/
theorem exists_of_resumption {config : Config} {l : Ledger} {judge : Judge σ} {d : Disk}
    (h : resumption config l judge d = some (r, start)) :
    ∃ marker d', l.readMarker.run d = (.ok marker, d') ∧ r.ledger = l ∧ r.judge = judge ∧
      r.seed = marker.seed ∧ start.step = marker.step := by
  rw [resumption] at h
  split at h
  next marker d' hmarker =>
    split at h
    next =>
      cases h
      exact ⟨marker, d', hmarker, rfl, rfl, rfl, rfl⟩
    next => cases h
  next => cases h

/-- What a run that starts a reduction writes first. -/
def opening (config : Config) (l : Ledger) (initial : ReductionState) : DiskM ReductionError Unit := do
  l.writeSnapshot 0 (freshStart config initial).accepted
  l.writeMarker ⟨0, config.seed⟩

/-- The world after that. -/
def opened (config : Config) (l : Ledger) (initial : ReductionState) (w : World σ) : World σ :=
  { w with disk := ((opening config l initial).run w.disk).2 }

/-- What runs on a ledger have come to: the states that were accepted, each with its number, and
those that some run began with or accepted. -/
structure Record where
  accepted : Nat → ReductionState → Prop
  held : ReductionState → Prop

/-- What a run that starts a reduction comes to. -/
def Record.fresh (config : Config) (l : Ledger) (judge : Judge σ) (initial : ReductionState)
    (w : World σ) : Record :=
  let r : Reduction σ := ⟨config, l, judge, config.seed⟩
  let start := freshStart config initial
  ⟨r.Accepts start (opened config l initial w),
    fun state => ∃ k, r.Accepts start (opened config l initial w) k state⟩

/-- What a run that goes on with a reduction comes to. The states up to the one that the marker
names stay accepted; those after it are the ones that this run accepts. -/
def Record.resume (before : Record) (config : Config) (l : Ledger) (judge : Judge σ)
    (w : World σ) : Record :=
  match resumption config l judge w.disk with
  | none => before
  | some (r, start) =>
    ⟨fun k state => (k ≤ start.step ∧ before.accepted k state) ∨
        (start.step < k ∧ r.Accepts start w k state),
      fun state => before.held state ∨ ∃ k, r.Accepts start w k state⟩

/-- A reduction is started on a disk, cut off at any moment, gone on with, cut off again, and so on,
each time with a judge that leaves the files of the ledger alone. -/
inductive Chronicle (config : Config) (l : Ledger) (initial : ReductionState) (d₀ : Disk) :
    Record → Disk → Prop
  | fresh {σ : Type} (judge : Judge σ) (memory : σ) (hjudge : judge.Spares l) {d : Disk}
      (hd : d ∈ d₀.moments ((fresh config l judge initial).run ⟨memory, d₀⟩).2.disk) :
      Chronicle config l initial d₀ (.fresh config l judge initial ⟨memory, d₀⟩) d
  | resume {σ : Type} {before : Record} {d : Disk} (hbefore : Chronicle config l initial d₀ before d)
      (later : Config) (judge : Judge σ) (memory : σ) (hjudge : judge.Spares l) {d' : Disk}
      (hd' : d' ∈ d.moments ((resume later l judge).run ⟨memory, d⟩).2.disk) :
      Chronicle config l initial d₀ (before.resume later l judge ⟨memory, d⟩) d'

section

variable {config : Config} {l : Ledger} {judge : Judge σ} {initial : ReductionState} {d₀ d : Disk}
  {record : Record} (hjson : l.extension ≠ "json") (hslash : '/' ∉ l.extension.toList)

include hjson hslash

/-- Up to the first marker there is none, and from it on the files are safe. -/
theorem along_fresh (config : Config) (initial : ReductionState) (w : World σ)
    (hjudge : judge.Spares l) (hunmarked : l.Unmarked w.disk) :
    w.disk.Along
      (fun e => w.disk.Along l.Unmarked e ∨ l.IsSafe config.seed
        (Record.fresh config l judge initial w).accepted
        (Record.fresh config l judge initial w).held e)
      ((fresh config l judge initial).run w).2.disk := by
  let r : Reduction σ := ⟨config, l, judge, config.seed⟩
  let start := freshStart config initial
  let holds : Disk → Prop := fun e => w.disk.Along l.Unmarked e ∨ l.IsSafe config.seed
    (Record.fresh config l judge initial w).accepted (Record.fresh config l judge initial w).held e
  rw [fresh]
  split
  next => exact .refl (.inl (.refl hunmarked))
  next =>
    have hopening : Keeps id holds (opening config l initial) w.disk _ :=
      Ledger.keeps_firstStep hjson hslash hunmarked .start
    have hgo : ∀ w', w' = opened config l initial w → w'.disk.Home →
        l.NamesStep config.seed (Record.fresh config l judge initial w).accepted w'.disk 0 →
        Keeps World.disk holds (r.go start) w' fun _ _ => True := by
      rintro w' rfl hhome hnames
      have hsafe : Keeps World.disk (r.ledger.IsSafe r.seed
          (Record.fresh config l judge initial w).accepted
          (Record.fresh config l judge initial w).held) (r.go start) _ _ :=
        keeps_go hjson hslash hjudge hhome hnames (fun _ _ _ h => h) fun k _ h => ⟨k, h⟩
      exact hsafe.mono (fun _ he => .inr he) fun _ _ h => h
    have hrun := keeps_bind (keeps_onDisk hopening).with_run fun _ w' h =>
      hgo w' (congrArg Prod.snd (h.1.symm.trans (run_onDisk _ w))) h.2.1 h.2.2
    rw [opening, World.onDisk_bind, bind_assoc] at hrun
    exact hrun.along

omit hjson hslash in
theorem resumption_eq_none (judge : Judge σ) (later : Config) (h : l.sight d .marker = none) :
    resumption later l judge d = none := by
  rw [Option.eq_none_iff_forall_ne_some]
  rintro ⟨r, start⟩ hsome
  obtain ⟨marker, d', hread, -⟩ := exists_of_resumption hsome
  obtain ⟨bytes, text, hbytes, -⟩ := Ledger.exists_of_readMarker hread
  rw [h] at hbytes
  cases hbytes

/-- Where the marker names a step, the files stay safe while a reduction is gone on with. -/
theorem along_resume_of_namesStep (hjudge : judge.Spares l) (later : Config) {seed : UInt64} {k : Nat}
    (hhome : w.disk.Home) (hnames : l.NamesStep seed record.accepted w.disk k) :
    w.disk.Along
      (l.IsSafe seed (record.resume later l judge w).accepted (record.resume later l judge w).held)
      ((resume later l judge).run w).2.disk := by
  cases hresumption : resumption later l judge w.disk with
  | none =>
      have hrecord : record.resume later l judge w = record := by
        rw [Record.resume, hresumption]
      rw [hrecord]
      obtain hsame | ⟨r, start, hsome, -⟩ := resume_cases later l judge w
      · rw [hsame]
        exact .refl (hnames.safe hhome)
      · cases hresumption.symm.trans hsome
  | some begun =>
      obtain ⟨r, start⟩ := begun
      obtain ⟨marker, d', hread, rfl, rfl, hseed, hstep⟩ := exists_of_resumption hresumption
      have hmarker := Ledger.eq_of_readMarker hnames.1 hread
      subst hmarker
      dsimp only at hseed hstep
      have hrecord : record.resume later r.ledger r.judge w =
          ⟨fun k state => (k ≤ start.step ∧ record.accepted k state) ∨
            (start.step < k ∧ r.Accepts start w k state),
          fun state => record.held state ∨ ∃ k, r.Accepts start w k state⟩ := by
        rw [Record.resume, hresumption]
      rw [hrecord]
      obtain ⟨hholds, state, haccepted, hstate⟩ := hnames
      have hnames' : r.ledger.NamesStep r.seed (fun k state =>
          (k ≤ start.step ∧ record.accepted k state) ∨
            (start.step < k ∧ r.Accepts start w k state)) w.disk start.step := by
        rw [hseed, hstep]
        exact ⟨hholds, state, .inl ⟨Nat.le_refl _, haccepted⟩, hstate⟩
      rw [← hseed]
      obtain hsame | ⟨r', start', hsome, hrun⟩ := resume_cases later r.ledger r.judge w
      · rw [hsame]
        exact .refl (hnames'.safe hhome)
      · cases hresumption.symm.trans hsome
        rw [hrun]
        exact (keeps_go hjson hslash hjudge hhome hnames' (fun k state hk h => .inr ⟨hk, h⟩)
          (fun k state h => .inr ⟨k, h⟩)).along

/-- Going on with a reduction keeps what holds since its start. -/
theorem along_resume (hjudge : judge.Spares l) (later : Config) {seed : UInt64}
    (h : d₀.Along l.Unmarked w.disk ∨ l.IsSafe seed record.accepted record.held w.disk) :
    w.disk.Along
      (fun e => d₀.Along l.Unmarked e ∨ l.IsSafe seed (record.resume later l judge w).accepted
        (record.resume later l judge w).held e)
      ((resume later l judge).run w).2.disk := by
  have hnone : l.sight w.disk .marker = none → w.disk.Along
      (fun e => d₀.Along l.Unmarked e ∨ l.IsSafe seed (record.resume later l judge w).accepted
        (record.resume later l judge w).held e)
      ((resume later l judge).run w).2.disk := by
    intro hmarker
    have hresumption := resumption_eq_none judge later hmarker
    have hrecord : record.resume later l judge w = record := by
      rw [Record.resume, hresumption]
    rw [hrecord]
    obtain hsame | ⟨r, start, hsome, -⟩ := resume_cases later l judge w
    · rw [hsame]
      exact .refl h
    · cases hresumption.symm.trans hsome
  obtain halong | ⟨hhome, ⟨k, hnames⟩ | ⟨hmarker, -⟩⟩ := h
  · exact hnone halong.last.2
  · exact (along_resume_of_namesStep hjson hslash hjudge later hhome hnames).mono fun _ he => .inr he
  · exact hnone hmarker

/-- What holds of a disk that the runs of a reduction leave behind. -/
theorem Chronicle.invariant (hunmarked : l.Unmarked d₀) (h : Chronicle config l initial d₀ record d) :
    (∃ news, d = d₀.replay news) ∧
      (d₀.Along l.Unmarked d ∨ l.IsSafe config.seed record.accepted record.held d) := by
  induction h with
  | fresh judge memory hjudge hd =>
      have halong :=
        (along_fresh hjson hslash config initial ⟨memory, d₀⟩ hjudge hunmarked).until hd
      have hlast := halong.last
      obtain ⟨news, hnews, -⟩ := halong
      exact ⟨⟨news, hnews⟩, hlast⟩
  | resume _ later judge memory hjudge hd ih =>
      obtain ⟨⟨before, hbefore⟩, hinvariant⟩ := ih
      have halong := (along_resume (w := ⟨memory, _⟩) hjson hslash hjudge later hinvariant).until hd
      have hlast := halong.last
      obtain ⟨news, hnews, -⟩ := halong
      refine ⟨⟨news ++ before, ?_⟩, hlast⟩
      rw [hnews, hbefore, Disk.replay_append]

omit hjson hslash

theorem Chronicle.accepted_unique (h : Chronicle config l initial d₀ record d) {k : Nat}
    {state state' : ReductionState} (hstate : record.accepted k state)
    (hstate' : record.accepted k state') : state = state' := by
  induction h with
  | fresh judge memory => exact Accepts.unique hstate hstate'
  | @resume _ before d hbefore later judge memory _ _ _ ih =>
      rw [Record.resume] at hstate hstate'
      cases hresumption : resumption later l judge d with
      | none =>
          rw [hresumption] at hstate hstate'
          exact ih hstate hstate'
      | some begun =>
          rw [hresumption] at hstate hstate'
          obtain ⟨hk, hstate⟩ | ⟨hk, hstate⟩ := hstate
          · obtain ⟨-, hstate'⟩ | ⟨hk', -⟩ := hstate'
            · exact ih hstate hstate'
            · exact absurd hk (Nat.not_le.mpr hk')
          · obtain ⟨hk', -⟩ | ⟨-, hstate'⟩ := hstate'
            · exact absurd hk' (Nat.not_le.mpr hk)
            · exact hstate.unique hstate'

theorem Chronicle.accepted_zero (h : Chronicle config l initial d₀ record d) :
    record.accepted 0 (initialState config initial).1 := by
  induction h with
  | fresh judge memory => exact Accepts.start
  | @resume _ before d hbefore later judge memory _ _ _ ih =>
      rw [Record.resume]
      cases resumption later l judge d with
      | none => exact ih
      | some begun => exact .inl ⟨Nat.zero_le _, ih⟩

end

/-- A reduction may crash at any moment, and so may every run that goes on with it. If the marker is
there, it holds a step and the seed of the reduction, and the snapshot of this step is complete: it
is the text of the state that was accepted as the one with this number, which is the initial state
for the number zero. Once there has been a marker, there is one, or both final files are complete. -/
theorem complete_of_crash {config : Config} {l : Ledger} {initial : ReductionState} {d₀ d : Disk}
    {record : Record} (hjson : l.extension ≠ "json") (hslash : '/' ∉ l.extension.toList)
    (hhome : d₀.Home) (hnew : d₀.bytes? l.markerPath = none)
    (h : Chronicle config l initial d₀ record d) :
    (∃ news, d = d₀.replay news) ∧
    (∀ state, record.accepted 0 state ↔ state = (initialState config initial).1) ∧
    (∀ bytes, d.bytes? l.markerPath = some bytes → ∃ k state,
      bytes = Utf8.encode (Marker.text ⟨k, config.seed⟩) ∧
      (∀ state', record.accepted k state' ↔ state' = state) ∧
      d.bytes? (l.shaderPath k) = some (Utf8.encode state.source) ∧
      d.bytes? (l.bindingsPath k) = some (Utf8.encode state.bindings.text)) ∧
    (∀ e ∈ d₀.moments d, e.bytes? l.markerPath ≠ none → d.bytes? l.markerPath ≠ none ∨
      ∃ state, record.held state ∧
        d.bytes? l.finalShaderPath = some (Utf8.encode state.source) ∧
        d.bytes? l.finalBindingsPath = some (Utf8.encode state.bindings.text)) := by
  obtain ⟨hnews, hinvariant⟩ := h.invariant hjson hslash ⟨hhome, hnew⟩
  refine ⟨hnews, fun state => ?_, fun bytes hbytes => ?_, fun e he hmarked => ?_⟩
  · constructor
    · exact fun hstate => h.accepted_unique hstate h.accepted_zero
    · rintro rfl
      exact h.accepted_zero
  · obtain halong | ⟨-, ⟨k, hmarker, state, hstate, hsource, htext⟩ | ⟨hmarker, -⟩⟩ := hinvariant
    · cases halong.last.2.symm.trans hbytes
    · refine ⟨k, state, Option.some.inj (hbytes.symm.trans hmarker), fun state' => ?_, hsource,
        htext⟩
      constructor
      · exact fun hstate' => h.accepted_unique hstate' hstate
      · rintro rfl
        exact hstate
    · cases hmarker.symm.trans hbytes
  · obtain halong | ⟨-, ⟨k, hmarker, -⟩ | ⟨-, state, hheld, hsource, htext⟩⟩ := hinvariant
    · exact absurd (halong.of_mem_moments he).2 hmarked
    · refine .inl fun hnone => ?_
      cases hmarker.symm.trans hnone
    · exact .inr ⟨state, hheld, hsource, htext⟩

/-- A ledger in a directory. -/
def outLedger : Ledger := ⟨⟨"out"⟩, "shader", "frag"⟩

/-- A run that removes the function. -/
def withoutFunction : WorldM ReductionError Unit Outcome :=
  fresh pairwise outLedger Judge.always ⟨Shader.ofProgram directiveAndFunction, {}⟩

/-- A moment of that run and one of the run that goes on from it: the first comes when the shader of
the first step is written and the marker still names the initial state, the second when the marker
names the first step. -/
def crashes (d d' : Disk) : Bool :=
  (d.bytes? (outLedger.shaderPath 1)).isSome &&
    d.bytes? outLedger.markerPath == some (Utf8.encode (Marker.text ⟨0, pairwise.seed⟩)) &&
    d'.bytes? outLedger.markerPath == some (Utf8.encode (Marker.text ⟨1, pairwise.seed⟩))

/-- A run crashes in the middle of its first step. The run that goes on with it takes this step
anew and crashes too. Then the snapshot of the first step is complete. -/
theorem complete_withoutFunction :
    ∃ d ∈ emptyDirectory.disk.moments (withoutFunction.run emptyDirectory).2.disk,
      ∃ d' ∈ d.moments ((resume pairwise outLedger Judge.always).run ⟨(), d⟩).2.disk,
        crashes d d' = true ∧ ∃ state : ReductionState,
          d'.bytes? (outLedger.shaderPath 1) = some (Utf8.encode state.source) ∧
          d'.bytes? (outLedger.bindingsPath 1) = some (Utf8.encode state.bindings.text) := by
  have hcrashes : (emptyDirectory.disk.moments (withoutFunction.run emptyDirectory).2.disk)[5]?.any
      (fun d => (d.moments ((resume pairwise outLedger Judge.always).run ⟨(), d⟩).2.disk)[2]?.any
        (crashes d)) = true := by
    decide +kernel
  obtain ⟨d, hd, hcrashes⟩ := (Option.any_eq_true _ _).mp hcrashes
  obtain ⟨d', hd', hcrashes⟩ := (Option.any_eq_true _ _).mp hcrashes
  have hd := List.mem_of_getElem? hd
  have hd' := List.mem_of_getElem? hd'
  have hbytes : d'.bytes? outLedger.markerPath =
      some (Utf8.encode (Marker.text ⟨1, pairwise.seed⟩)) := by
    rw [crashes, Bool.and_eq_true, beq_iff_eq] at hcrashes
    exact hcrashes.2
  have hhome : emptyDirectory.disk.Home := Disk.home_of_workingDirectory rfl
  have hnew : emptyDirectory.disk.bytes? outLedger.markerPath = none := by
    decide +kernel
  have hspares : (Judge.always (σ := Unit)).Spares outLedger := Judge.spares_ofMemory _ _
  have hrun : withoutFunction.run emptyDirectory = (fresh pairwise outLedger Judge.always
      ⟨Shader.ofProgram directiveAndFunction, {}⟩).run ⟨(), emptyDirectory.disk⟩ := rfl
  have hfresh := hd
  rw [hrun] at hfresh
  have hchronicle := (Chronicle.fresh Judge.always () hspares hfresh).resume pairwise Judge.always
    () hspares hd'
  obtain ⟨-, -, hcomplete, -⟩ := complete_of_crash (by decide) (by decide) hhome hnew hchronicle
  obtain ⟨k, state, htext, -, hsource, hbindings⟩ := hcomplete _ hbytes
  obtain rfl : k = 1 := by
    have hsame : Marker.text ⟨k, pairwise.seed⟩ = Marker.text ⟨1, pairwise.seed⟩ := by
      rw [← Option.some_inj, ← Utf8.decode?_encode, ← Utf8.decode?_encode, htext]
    have hread : Marker.parse? (Marker.text ⟨k, pairwise.seed⟩) = some ⟨1, pairwise.seed⟩ := by
      rw [hsame]
      exact Marker.parse?_text (by decide)
    exact (congrArg Marker.step (Marker.eq_of_parse?_text hread)).symm
  exact ⟨d, hd, d', hd', hcrashes, state, hsource, hbindings⟩

end Reduction

end ShaderReducer
