import ShaderReducer.Proofs.Reduction.Sparing

/-!
# What a run writes

A judge that remembers its calls gives the same verdicts, so a run with it takes the same course. Its
memory tells which candidates were accepted: a search adds the one that it finds, and nothing else.

The work of a run on the files of its ledger is a row of operations, with calls of the judge between
them. From the row it can be read which files are written, in which order, and what they hold in the
end, as long as the judge leaves these files alone.
-/

namespace ShaderReducer

variable {σ : Type}

/-- The world of a judge, without the calls that it remembers. -/
def World.forget (w : World (σ × List Judge.Call)) : World σ :=
  ⟨w.memory.1, w.disk⟩

namespace Judge

/-- The candidate of a call, if it was accepted. -/
def Call.accepted? (call : Call) : Option ReductionState :=
  match call.verdict with
  | .ok true => some call.candidate
  | _ => none

/-- The candidates that were accepted, the first one first. -/
def accepted (calls : List Call) : List ReductionState :=
  calls.reverse.filterMap Call.accepted?

@[simp] theorem accepted_nil : accepted [] = [] := rfl

theorem accepted_cons (call : Call) (calls : List Call) :
    accepted (call :: calls) = accepted calls ++ call.accepted?.toList := by
  rw [accepted, List.reverse_cons, List.filterMap_append, accepted]
  cases h : call.accepted? <;> simp [h]

theorem run_recorded (judge : Judge σ) (candidate : ReductionState)
    (w : World (σ × List Call)) :
    (judge.recorded candidate).run w =
      (((judge candidate).run w.forget).1,
        ⟨(((judge candidate).run w.forget).2.memory,
            ⟨candidate, ((judge candidate).run w.forget).1⟩ :: w.memory.2),
          ((judge candidate).run w.forget).2.disk⟩) :=
  rfl

/-- Being watched does not change what a judge does to the disk. -/
theorem Spares.recorded {judge : Judge σ} {l : Ledger} (h : judge.Spares l) :
    judge.recorded.Spares l :=
  fun candidate w hhome => h candidate w.forget hhome

end Judge

/-! ## The same course -/

/-- Work in the world of a watched judge comes to the same as work in that of the judge. -/
def Mirrors {ε α : Type} (watched : WorldM ε (σ × List Judge.Call) α) (work : WorldM ε σ α) : Prop :=
  ∀ w, work.run w.forget = ((watched.run w).1, (watched.run w).2.forget)

section

variable {ε α β : Type} {watched : WorldM ε (σ × List Judge.Call) α} {work : WorldM ε σ α}

theorem mirrors_pure (a : α) :
    Mirrors (pure a : WorldM ε (σ × List Judge.Call) α) (pure a : WorldM ε σ α) :=
  fun _ => rfl

theorem mirrors_throw (error : ε) :
    Mirrors (throw error : WorldM ε (σ × List Judge.Call) α) (throw error : WorldM ε σ α) :=
  fun _ => rfl

theorem mirrors_onDisk (work : DiskM ε α) :
    Mirrors (World.onDisk work : WorldM ε (σ × List Judge.Call) α) (World.onDisk work) :=
  fun _ => rfl

theorem mirrors_bind {next : α → WorldM ε (σ × List Judge.Call) β} {next' : α → WorldM ε σ β}
    (h : Mirrors watched work) (hnext : ∀ a, Mirrors (next a) (next' a)) :
    Mirrors (watched >>= next) (work >>= next') := by
  intro w
  rw [run_bind_stateful, run_bind_stateful, h w]
  cases watched.run w with
  | mk result w' =>
      cases result with
      | error error => rfl
      | ok a => exact hnext a w'

theorem mirrors_ite {condition : Bool} {watched' : WorldM ε (σ × List Judge.Call) α}
    {work' : WorldM ε σ α} (h : Mirrors watched work) (h' : Mirrors watched' work') :
    Mirrors (if condition then watched else watched') (if condition then work else work') := by
  cases condition with
  | false => exact h'
  | true => exact h

end

/-- What is used up, without the calls that a judge remembers. -/
def Effort.forget (effort : Effort (σ × List Judge.Call)) : Effort σ :=
  ⟨effort.source, effort.names, effort.world.forget⟩

/-- The candidate that a chunk gives, if it is accepted. -/
def Trial.candidate? : Trial → Option ReductionState
  | .accepted candidate => some candidate
  | .stale | .rejected | .failed _ => none

/-- The candidate that a search finds. -/
def Finding.candidate? : Finding → Option ReductionState
  | .accepted candidate => some candidate
  | .dry | .failed _ => none

namespace Search

/-- The search with a judge that is watched. -/
def watched (q : Search σ) : Search (σ × List Judge.Call) :=
  ⟨q.config, q.judge.recorded, q.accepted, q.step⟩

/-- A position, without the calls that a judge remembers. -/
def Position.forget (p : Position (σ × List Judge.Call)) : Position σ :=
  ⟨p.size, p.remaining, p.effort.forget⟩

theorem judged_forget (q : Search σ) (candidate : ReductionState)
    (w : World (σ × List Judge.Call)) :
    q.judged candidate w.forget =
      ((q.watched.judged candidate w).1, (q.watched.judged candidate w).2.forget) := by
  rw [judged, judged]
  cases candidate.shader.candidateFault? with
  | some fault => rfl
  | none =>
      dsimp only [watched]
      rw [Judge.run_recorded]
      obtain ⟨verdict, w'⟩ := (q.judge candidate).run w.forget
      cases verdict with
      | ok verdict => cases verdict <;> rfl
      | error e => cases q.config.onJudgeError <;> rfl

theorem tryChunk_forget (q : Search σ) (chunk : List Opportunity)
    (effort : Effort (σ × List Judge.Call)) :
    q.tryChunk chunk effort.forget =
      ((q.watched.tryChunk chunk effort).1, (q.watched.tryChunk chunk effort).2.forget) := by
  rw [tryChunk, tryChunk]
  dsimp only [watched, Effort.forget]
  split
  next => rw [judged_forget]; rfl
  next => rfl

theorem trial_forget (q : Search σ) (p : Position (σ × List Judge.Call)) :
    q.trial p.forget = ((q.watched.trial p).1, (q.watched.trial p).2.forget) :=
  q.tryChunk_forget (q.watched.chunk p) (q.watched.drawn p)

theorem fst_trial_forget (q : Search σ) (p : Position (σ × List Judge.Call)) :
    (q.trial p.forget).1 = (q.watched.trial p).1 :=
  congrArg Prod.fst (q.trial_forget p)

theorem snd_trial_forget (q : Search σ) (p : Position (σ × List Judge.Call)) :
    (q.trial p.forget).2 = (q.watched.trial p).2.forget :=
  congrArg Prod.snd (q.trial_forget p)

theorem Next.forget {q : Search σ} {p p' : Position (σ × List Judge.Call)}
    (h : q.watched.Next p p') : q.Next p.forget p'.forget := by
  cases h with
  | stale hleft htrial =>
      have hnext := Next.stale (p := p.forget) hleft ((q.fst_trial_forget p).trans htrial)
      rw [snd_trial_forget] at hnext
      exact hnext
  | halved hleft htrial hsize =>
      have hnext := Next.halved (p := p.forget) hleft ((q.fst_trial_forget p).trans htrial) hsize
      rw [snd_trial_forget] at hnext
      exact hnext
  | dropped hleft htrial hsize =>
      have hnext := Next.dropped (p := p.forget) hleft ((q.fst_trial_forget p).trans htrial) hsize
      rw [snd_trial_forget] at hnext
      exact hnext

theorem Ends.forget {q : Search σ} {p : Position (σ × List Judge.Call)}
    {result : Finding × Effort (σ × List Judge.Call)} (h : q.watched.Ends p result) :
    q.Ends p.forget (result.1, result.2.forget) := by
  cases h with
  | dry hleft => exact .dry hleft
  | accepted hleft htrial =>
      rw [← snd_trial_forget]
      exact .accepted hleft ((q.fst_trial_forget p).trans htrial)
  | failed hleft htrial =>
      rw [← snd_trial_forget]
      exact .failed hleft ((q.fst_trial_forget p).trans htrial)

/-- A search takes the same course with a judge that is watched. -/
theorem runFrom_forget (q : Search σ) (p : Position (σ × List Judge.Call)) :
    q.runFrom p.forget = ((q.watched.runFrom p).1, (q.watched.runFrom p).2.forget) := by
  obtain ⟨p', hpasses, hends⟩ := q.watched.exists_ends p
  have hpasses' : q.Passes p.forget p'.forget :=
    hpasses.lift Position.forget fun _ _ => Next.forget
  rw [runFrom_of_passes hpasses']
  exact hends.forget.runFrom_eq

/-! ## What is remembered -/

theorem accepted_judged (q : Search σ) (candidate : ReductionState)
    (w : World (σ × List Judge.Call)) :
    Judge.accepted (q.watched.judged candidate w).2.memory.2 =
      Judge.accepted w.memory.2 ++ (q.watched.judged candidate w).1.candidate?.toList := by
  rw [judged]
  cases candidate.shader.candidateFault? with
  | some fault => exact (List.append_nil _).symm
  | none =>
      dsimp only [watched]
      rw [Judge.run_recorded]
      obtain ⟨verdict, w'⟩ := (q.judge candidate).run w.forget
      cases verdict with
      | ok verdict => cases verdict <;> exact Judge.accepted_cons _ _
      | error e => cases q.config.onJudgeError <;> exact Judge.accepted_cons _ _

theorem accepted_trial (q : Search σ) (p : Position (σ × List Judge.Call)) :
    Judge.accepted (q.watched.trial p).2.world.memory.2 =
      Judge.accepted p.effort.world.memory.2 ++ (q.watched.trial p).1.candidate?.toList := by
  rw [trial, tryChunk]
  dsimp only
  split
  next => exact q.accepted_judged _ _
  next => exact (List.append_nil _).symm

theorem accepted_next {q : Search σ} {p p' : Position (σ × List Judge.Call)}
    (h : q.watched.Next p p') :
    Judge.accepted p'.effort.world.memory.2 = Judge.accepted p.effort.world.memory.2 := by
  have hnone : (q.watched.trial p).1.candidate? = none →
      Judge.accepted (q.watched.trial p).2.world.memory.2 =
        Judge.accepted p.effort.world.memory.2 := by
    intro hcandidate
    rw [accepted_trial, hcandidate, Option.toList_none, List.append_nil]
  cases h with
  | stale _ hresult => exact hnone (by rw [hresult]; rfl)
  | halved _ hresult _ => exact hnone (by rw [hresult]; rfl)
  | dropped _ hresult _ => exact hnone (by rw [hresult]; rfl)

theorem accepted_passes {q : Search σ} {p p' : Position (σ × List Judge.Call)}
    (h : q.watched.Passes p p') :
    Judge.accepted p'.effort.world.memory.2 = Judge.accepted p.effort.world.memory.2 := by
  induction h with
  | refl => rfl
  | tail _ hnext ih => exact (accepted_next hnext).trans ih

/-- The judge has accepted the candidate that a search finds, and no other in this search. -/
theorem accepted_runFrom (q : Search σ) (p : Position (σ × List Judge.Call)) :
    Judge.accepted (q.watched.runFrom p).2.world.memory.2 =
      Judge.accepted p.effort.world.memory.2 ++ (q.watched.runFrom p).1.candidate?.toList := by
  obtain ⟨p', hpasses, hends⟩ := q.watched.exists_ends p
  rw [← accepted_passes hpasses]
  generalize q.watched.runFrom p = result at hends
  have htrial := q.accepted_trial p'
  cases hends with
  | dry => exact (List.append_nil _).symm
  | accepted _ hresult => rwa [hresult] at htrial
  | failed _ hresult => rwa [hresult] at htrial

end Search

namespace Reduction

/-- The reduction with a judge that is watched. -/
def watched (r : Reduction σ) : Reduction (σ × List Judge.Call) :=
  ⟨r.config, r.ledger, r.judge.recorded, r.seed⟩

theorem mirrors_advance (r : Reduction σ) (p : Progress) :
    Mirrors (r.watched.advance p) (r.advance p) := by
  intro w
  have hsearch : (r.search p).runFrom (r.firstPosition p w.forget) = _ :=
    (r.search p).runFrom_forget (r.watched.firstPosition p w)
  rw [advance_eq, advance_eq, hsearch, show (r.search p).watched = r.watched.search p from rfl]
  obtain ⟨finding, effort⟩ := (r.watched.search p).runFrom (r.watched.firstPosition p w)
  cases finding with
  | dry => rfl
  | failed error => rfl
  | accepted candidate =>
      exact mirrors_bind (mirrors_onDisk _)
        (fun _ => mirrors_bind (mirrors_onDisk _) fun _ => mirrors_pure _) effort.world

theorem mirrors_finish (r : Reduction σ) (p : Progress) :
    Mirrors (r.watched.finish p) (r.finish p) :=
  mirrors_bind (mirrors_onDisk _) fun _ => mirrors_bind (mirrors_onDisk _) fun _ => mirrors_pure _

theorem mirrors_reduce (r : Reduction σ) (more : Nat) (p : Progress) :
    Mirrors (r.watched.reduce more p) (r.reduce more p) := by
  induction more generalizing p with
  | zero => exact mirrors_pure _
  | succ more ih =>
      rw [reduce, reduce]
      refine mirrors_bind (r.mirrors_advance p) fun result => ?_
      cases result with
      | none => exact r.mirrors_finish p
      | some p' => exact mirrors_ite (mirrors_pure _) (ih p')

theorem mirrors_go (r : Reduction σ) (p : Progress) : Mirrors (r.watched.go p) (r.go p) :=
  mirrors_ite (mirrors_pure _) (r.mirrors_reduce _ p)

/-- A reduction that is started takes the same course with a judge that is watched. -/
theorem mirrors_fresh (config : Config) (l : Ledger) (judge : Judge σ) (initial : ReductionState) :
    Mirrors (fresh config l judge.recorded initial) (fresh config l judge initial) := by
  rw [fresh, fresh]
  split
  next => exact mirrors_throw _
  next =>
    refine mirrors_bind (mirrors_onDisk _) fun _ => ?_
    exact mirrors_bind (mirrors_onDisk _) fun _ => mirrors_go ⟨config, l, judge, config.seed⟩ _

/-- So does one that is gone on with. -/
theorem mirrors_resume (config : Config) (l : Ledger) (judge : Judge σ) :
    Mirrors (resume config l judge.recorded) (resume config l judge) := by
  rw [resume, resume]
  split
  next => exact mirrors_throw _
  next =>
    refine mirrors_bind (mirrors_onDisk _) fun marker => ?_
    exact mirrors_bind (mirrors_onDisk _) fun _ => mirrors_go ⟨config, l, judge, marker.seed⟩ _

end Reduction

namespace Ledger

/-- An operation on the files of a ledger: a file is written, the marker is replaced by way of its
draft, or the marker is removed. -/
inductive Operation where
  | write (f : File) (text : String)
  | mark (marker : Marker)
  | unmark

namespace Operation

/-- Does an operation on a disk. -/
def run (l : Ledger) : Operation → Disk → Except FileFault Disk
  | write f text, d => d.write (l.path f) (Utf8.encode text)
  | mark marker, d => do
    let d ← d.write l.draftMarkerPath (Utf8.encode marker.text)
    d.rename l.draftMarkerPath l.markerPath
  | unmark, d => d.remove l.markerPath

/-- Does operations in a row. -/
def runAll (l : Ledger) (ops : List Operation) (d : Disk) : Except FileFault Disk :=
  ops.foldlM (fun d op => op.run l d) d

/-- What the files hold after an operation. -/
def effect : Operation → (File → Option (List UInt8)) → File → Option (List UInt8)
  | write f text, held => Function.update held f (some (Utf8.encode text))
  | mark marker, held =>
    Function.update (Function.update held .draft none) .marker (some (Utf8.encode marker.text))
  | unmark, held => Function.update held .marker none

/-- What the files hold after operations in a row. -/
def effects (ops : List Operation) (held : File → Option (List UInt8)) :
    File → Option (List UInt8) :=
  ops.foldl (fun held op => op.effect held) held

/-- The operations that write a state to the files of a step, or to those of the end. -/
def ofState (step : Option Nat) (state : ReductionState) : List Operation :=
  [.write (.shader step) state.source, .write (.bindings step) state.bindings.text]

/-- The operations for the state that is accepted as a step. -/
def ofStep (seed : UInt64) (step : Nat) (state : ReductionState) : List Operation :=
  ofState (some step) state ++ [.mark ⟨step, seed⟩]

/-- The operations for states that are accepted one after the other, the first as a step with some
number. -/
def ofSteps (seed : UInt64) (step : Nat) : List ReductionState → List Operation
  | [] => []
  | state :: rest => ofStep seed step state ++ ofSteps seed (step + 1) rest

/-- The operations at the end of a run that is exhausted. -/
def ofEnd (state : ReductionState) : List Operation :=
  ofState none state ++ [.unmark]

theorem effects_append (ops ops' : List Operation) (held : File → Option (List UInt8)) :
    effects (ops ++ ops') held = effects ops' (effects ops held) :=
  List.foldl_append

theorem ofSteps_concat (seed : UInt64) (step : Nat) (states : List ReductionState)
    (state : ReductionState) :
    ofSteps seed step (states ++ [state]) =
      ofSteps seed step states ++ ofStep seed (step + states.length) state := by
  induction states generalizing step with
  | nil => exact List.append_nil _
  | cons first states ih =>
      rw [List.cons_append, ofSteps, ih, ofSteps, List.length_cons, Nat.add_right_comm,
        Nat.add_assoc step, List.append_assoc]

end Operation

variable {l : Ledger} {d d' : Disk}

theorem AlikeBut.sight_eq {f : File} (h : l.AlikeBut [f] d d') :
    l.sight d' = Function.update (l.sight d) f (l.sight d' f) := by
  funext g
  by_cases hg : g = f
  · rw [hg, Function.update_self]
  · rw [Function.update_of_ne hg, h.others g (by simpa using hg)]

section

variable (hjson : l.extension ≠ "json") (hslash : '/' ∉ l.extension.toList)

include hjson hslash

theorem sight_write (hhome : d.Home) {f : File} {text : String}
    (h : d.write (l.path f) (Utf8.encode text) = .ok d') :
    d'.Home ∧ l.sight d' = Function.update (l.sight d) f (some (Utf8.encode text)) := by
  obtain ⟨stem, hstem⟩ := (⟨l.stem⟩ : Path).exists_endsIn
  obtain ⟨hchanges, hbytes⟩ := Disk.changes_write hhome (endsIn_path hslash hstem f)
    (leadsOn_fileName f) h
  have halike := alikeBut_of_changes hjson hslash hstem [f] hchanges
  refine ⟨halike.home, ?_⟩
  rw [halike.sight_eq]
  exact congrArg _ hbytes

/-- What the files hold after an operation. -/
theorem sight_run (hhome : d.Home) {op : Operation} (h : op.run l d = .ok d') :
    d'.Home ∧ l.sight d' = op.effect (l.sight d) := by
  obtain ⟨stem, hstem⟩ := (⟨l.stem⟩ : Path).exists_endsIn
  cases op with
  | write f text => exact sight_write hjson hslash hhome h
  | mark marker =>
      rw [Operation.run] at h
      obtain ⟨e, he, hrename⟩ : ∃ e,
          d.write (l.path .draft) (Utf8.encode marker.text) = .ok e ∧
          e.rename (l.path .draft) (l.path .marker) = .ok d' := by
        cases hwrite : d.write l.draftMarkerPath (Utf8.encode marker.text) with
        | error fault =>
            rw [hwrite] at h
            cases h
        | ok e =>
            rw [hwrite] at h
            exact ⟨e, hwrite, h⟩
      obtain ⟨hhome', hsight⟩ := sight_write hjson hslash hhome he
      have hne : l.fileName stem .draft ≠ l.fileName stem .marker := fun heq =>
        File.noConfusion (fileName_injective hjson heq)
      have hdraft : l.sight e .draft = some (Utf8.encode marker.text) := by
        rw [hsight, Function.update_self]
      obtain ⟨hchanges, hmoved, hgone⟩ := Disk.changes_rename hhome'
        (endsIn_path hslash hstem .draft) (leadsOn_fileName .draft)
        (endsIn_path hslash hstem .marker) (leadsOn_fileName .marker) hne hdraft hrename
      have halike := alikeBut_of_changes hjson hslash hstem [.draft, .marker] hchanges
      refine ⟨halike.home, ?_⟩
      funext f
      rw [Operation.effect]
      by_cases hmarker : f = .marker
      · rw [hmarker, Function.update_self]
        exact hmoved
      by_cases hisdraft : f = .draft
      · rw [hisdraft, Function.update_of_ne File.noConfusion, Function.update_self]
        exact hgone
      rw [Function.update_of_ne hmarker, Function.update_of_ne hisdraft,
        halike.others f (by simp [hmarker, hisdraft]), hsight, Function.update_of_ne hisdraft]
  | unmark =>
      obtain ⟨hchanges, hgone⟩ := Disk.changes_remove hhome (endsIn_path hslash hstem .marker)
        (leadsOn_fileName .marker) h
      have halike := alikeBut_of_changes hjson hslash hstem [.marker] hchanges
      refine ⟨halike.home, ?_⟩
      rw [halike.sight_eq]
      exact congrArg _ hgone

end

/-! ## Operations between calls of the judge -/

/-- In a world operations are done in a row, and the judge is called any number of times before and
after each of them. -/
inductive Performs (l : Ledger) (judge : Judge σ) : World σ → List Operation → World σ → Prop
  | refl (w : World σ) : Performs l judge w [] w
  | call {w w' : World σ} {ops : List Operation} (h : Performs l judge w ops w')
      (candidate : ReductionState) : Performs l judge w ops ((judge candidate).run w').2
  | operation {w w' : World σ} {ops : List Operation} {op : Operation} {d : Disk}
      (h : Performs l judge w ops w') (hop : op.run l w'.disk = .ok d) :
      Performs l judge w (ops ++ [op]) { w' with disk := d }

namespace Performs

variable {judge : Judge σ} {w w' w'' : World σ} {ops ops' : List Operation}

theorem trans (h : Performs l judge w ops w') (h' : Performs l judge w' ops' w'') :
    Performs l judge w (ops ++ ops') w'' := by
  induction h' with
  | refl => rwa [List.append_nil]
  | call _ candidate ih => exact ih.call candidate
  | operation _ hop ih =>
      rw [← List.append_assoc]
      exact ih.operation hop

/-- What a watched judge does is what the judge does. -/
theorem forget {w w' : World (σ × List Judge.Call)} (h : Performs l judge.recorded w ops w') :
    Performs l judge w.forget ops w'.forget := by
  induction h with
  | refl => exact .refl _
  | call _ candidate ih => exact ih.call candidate
  | operation _ hop ih => exact ih.operation hop

/-- What the files hold in the end. -/
theorem sight_eq (hjson : l.extension ≠ "json") (hslash : '/' ∉ l.extension.toList)
    (hjudge : judge.Spares l) (h : Performs l judge w ops w') (hhome : w.disk.Home) :
    w'.disk.Home ∧ l.sight w'.disk = Operation.effects ops (l.sight w.disk) := by
  induction h with
  | refl => exact ⟨hhome, rfl⟩
  | call _ candidate ih =>
      obtain ⟨hhome', hsight⟩ := ih
      have halike := (hjudge candidate _ hhome').last
      refine ⟨halike.home, ?_⟩
      rw [← hsight]
      funext f
      exact halike.others f List.not_mem_nil
  | operation _ hop ih =>
      obtain ⟨hhome', hsight⟩ := ih
      obtain ⟨hhome'', hsight'⟩ := sight_run hjson hslash hhome' hop
      refine ⟨hhome'', ?_⟩
      rw [Operation.effects_append, ← hsight]
      exact hsight'

end Performs

/-! ## Work on files -/

/-- Work that does operations in a row on a disk if it succeeds, and fails only where a file is not
accessible. -/
structure Writes {α : Type} (l : Ledger) (work : DiskM ReductionError α) (ops : List Operation)
    (d : Disk) : Prop where
  run_ok : ∀ a d', work.run d = (.ok a, d') → Operation.runAll l ops d = .ok d'
  run_error : ∀ e d', work.run d = (.error e, d') → ∃ p, e = .inaccessible p

section

variable {α β : Type} {work : DiskM ReductionError α} {ops ops' : List Operation}

theorem writes_bind {next : α → DiskM ReductionError β} (h : l.Writes work ops d)
    (hnext : ∀ a d', work.run d = (.ok a, d') → l.Writes (next a) ops' d') :
    l.Writes (work >>= next) (ops ++ ops') d := by
  constructor
  · intro b d'' hrun
    obtain ⟨a, d', hwork, hrest⟩ := exists_of_bind_eq_ok hrun
    rw [Operation.runAll, List.foldlM_append]
    have hfirst : ops.foldlM (fun d op => op.run l d) d = .ok d' := h.run_ok a d' hwork
    rw [hfirst]
    exact (hnext a d' hwork).run_ok b d'' hrest
  · intro e d'' hrun
    rw [run_bind_stateful] at hrun
    cases hwork : work.run d with
    | mk result d' =>
        rw [hwork] at hrun
        cases result with
        | error error =>
            cases hrun
            exact h.run_error e d'' hwork
        | ok a => exact (hnext a d' hwork).run_error e d'' hrun

theorem of_perform {operation : Disk → Except FileFault Disk} {p : Path}
    {result : Except ReductionError Unit}
    (h : (Disk.perform operation fun _ => ReductionError.inaccessible p).run d = (result, d')) :
    (result = .ok () ∧ operation d = .ok d') ∨ result = .error (.inaccessible p) := by
  rw [Disk.run_perform] at h
  split at h
  next heq =>
    cases h
    exact .inl ⟨rfl, heq⟩
  next =>
    cases h
    exact .inr rfl

theorem runAll_singleton (op : Operation) (d : Disk) : Operation.runAll l [op] d = op.run l d := by
  rw [Operation.runAll, List.foldlM_cons]
  cases op.run l d <;> rfl

theorem writes_perform (op : Operation) (p : Path) (d : Disk) :
    l.Writes (Disk.perform (op.run l) fun _ => .inaccessible p) [op] d := by
  refine ⟨fun a d' h => ?_, fun e d' h => ?_⟩
  · obtain ⟨-, hop⟩ | hresult := of_perform h
    · rw [runAll_singleton, hop]
    · cases hresult
  · obtain ⟨hresult, -⟩ | hresult := of_perform h
    · cases hresult
    · cases hresult
      exact ⟨p, rfl⟩

theorem writes_writeState (l : Ledger) (step : Option Nat) (state : ReductionState) (d : Disk) :
    l.Writes (writeState (l.path (.shader step)) (l.path (.bindings step)) state)
      (Operation.ofState step state) d :=
  writes_bind (writes_perform (.write (.shader step) state.source) _ d) fun _ d' _ =>
    writes_perform (.write (.bindings step) state.bindings.text) _ d'

theorem writes_writeMarker (l : Ledger) (marker : Marker) (d : Disk) :
    l.Writes (l.writeMarker marker) [.mark marker] d := by
  refine ⟨fun a d' h => ?_, fun e d' h => ?_⟩
  · obtain ⟨_, e, hwrite, hrename⟩ := exists_of_bind_eq_ok h
    obtain ⟨-, hwrite⟩ | hresult := of_perform hwrite
    · obtain ⟨-, hrename⟩ | hresult := of_perform hrename
      · rw [runAll_singleton, Operation.run, hwrite]
        exact hrename
      · cases hresult
    · cases hresult
  · rw [writeMarker, run_bind_stateful] at h
    split at h
    next =>
      obtain ⟨hresult, -⟩ | hresult := of_perform h
      · cases hresult
      · cases hresult
        exact ⟨_, rfl⟩
    next hwrite =>
      cases h
      obtain ⟨hresult, -⟩ | hresult := of_perform hwrite
      · cases hresult
      · cases hresult
        exact ⟨_, rfl⟩

/-- A marker that is there is removed. -/
theorem writes_removeMarker {bytes : List UInt8} (hmarker : l.sight d .marker = some bytes) :
    l.Writes l.removeMarker [.unmark] d := by
  obtain ⟨e, hremove⟩ := Disk.exists_remove hmarker
  have hrun := l.run_removeMarker d
  rw [show d.remove l.markerPath = .ok e from hremove] at hrun
  refine ⟨fun a d' h => ?_, fun e d' h => ?_⟩
  · cases hrun.symm.trans h
    rw [runAll_singleton]
    exact hremove
  · cases hrun.symm.trans h

theorem Performs.of_runAll {judge : Judge σ} {w w' : World σ} (h : Performs l judge w ops w')
    (hops : Operation.runAll l ops' w'.disk = .ok d) :
    Performs l judge w (ops ++ ops') { w' with disk := d } := by
  induction ops' generalizing ops w' with
  | nil =>
      cases hops
      rwa [List.append_nil]
  | cons op ops' ih =>
      rw [Operation.runAll, List.foldlM_cons] at hops
      cases hop : op.run l w'.disk with
      | error fault =>
          rw [hop] at hops
          cases hops
      | ok e =>
          rw [hop] at hops
          have hrest := ih (h.operation hop) hops
          rwa [List.append_assoc] at hrest

/-- Work on files that succeeds in a world does its operations. -/
theorem Writes.performs {w w' : World σ} {a : α} (h : l.Writes work ops w.disk) (judge : Judge σ)
    (hrun : (World.onDisk work).run w = (.ok a, w')) : Performs l judge w ops w' := by
  have hdisk := h.run_ok a w'.disk (Reduction.run_of_onDisk hrun)
  have hworld : w' = { w with disk := w'.disk } := by
    rw [← show ((World.onDisk work).run w).2 = w' from congrArg Prod.snd hrun]
    rfl
  rw [hworld]
  exact (Performs.refl w).of_runAll hdisk

theorem Writes.inaccessible {w w' : World σ} {e : ReductionError} (h : l.Writes work ops w.disk)
    (hrun : (World.onDisk work).run w = (.error e, w')) : ∃ p, e = .inaccessible p := by
  change ((work.run w.disk).1, { w with disk := (work.run w.disk).2 }) = _ at hrun
  obtain ⟨hresult, -⟩ := Prod.mk.inj hrun
  exact h.run_error e (work.run w.disk).2 (Prod.ext hresult rfl)

end

end Ledger

end ShaderReducer
