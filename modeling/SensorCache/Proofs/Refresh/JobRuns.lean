import SensorCache.Proofs.Refresh.KnownLocks

/-!
# Runs of jobs

The run of a job, step by step: it takes the lock or gives way, starts the update of one target
after the other, waits, goes on, and ends (`JobRun`). At each stage of a run it is known which
updates have succeeded and which are still to come, and at its end that the job gave back what it
held of the lock (`JobRun.atStage`). What a job does in a turn is a part of such a run
(`JobRun.ends_updateAll`).
-/

namespace SensorCache

open Disk Time

variable {σ : Type} {fine : Disk → Prop} {times : LockTimes} {l : UpdateLock} {d e m : Disk}
  {may : Conduct}

/-- The updates of a job that have come to an end, with their results. -/
abbrev UpdateNotes (σ : Type) : Type := List (Target σ × Except RefreshError Nat)

namespace UpdateNotes

def targets (ns : UpdateNotes σ) : List (Target σ) := ns.map Prod.fst

def AllOk (ns : UpdateNotes σ) : Prop := ∀ r ∈ ns, ∃ n, r.2 = .ok n

end UpdateNotes

/-- How far the run of a job is. -/
inductive JobStage (σ : Type) where
  /-- It did not get the lock. -/
  | refused
  /-- It has the targets `rest` still to update. -/
  | between (rest : List (Target σ))
  /-- It is in the update of `t`, of which `course` is left. -/
  | within (t : Target σ) (course : Course σ (Except RefreshError Nat)) (rest : List (Target σ))
  /-- The update of `t` waits. -/
  | waiting (t : Target σ) (b : BlockedUpdate σ)
  | completed
  /-- It was found interrupted before the next target. -/
  | interrupted
  /-- The last update ended with an error. -/
  | failed
  | crashed
  /-- It was taken down while an update waited. -/
  | killed

/-- A job's turn is over. -/
def JobStage.Rests : JobStage σ → Prop
  | .between _ => False
  | .within .. => False
  | _ => True

/-- How a job ends when the update of `t` ends with an error. -/
def RefreshOutcome.ofError (t : Target σ) : RefreshError → RefreshOutcome
  | .cancelled => .cancelled
  | x => .aborted t.name x.message

/-- The guard of an acquisition. -/
def Holding.guard (k : Holding) : LockGuard := ⟨k.generation⟩

namespace Scheduler

variable {s s₁ s' : Scheduler σ} {id : Nat} {ts rest : List (Target σ)} {k : Holding}
  {held : Option Holding} {stage : JobStage σ} {ns : UpdateNotes σ} {t : Target σ}
  {c : Course σ (Except RefreshError Nat)} {o : RefreshOutcome} {g : LockGuard}

/-- The scheduler's keeper knows its lock file among neighbours, and the updates of targets do no more
about the lock than these. The task `kept` is in its place. -/
abbrev Sound (fine : Disk → Prop) (times : LockTimes) (l : UpdateLock) (kept : Option (JobTask σ))
    (s : Scheduler σ) (d : Disk) : Prop :=
  s.Well (Neighbourly fine times.theirs False l.path) (Keeper.KnowsLock fine times l none) False kept
    d

/-- A job waits for its first turn. -/
structure Awaits (fine : Disk → Prop) (times : LockTimes) (l : UpdateLock) (id : Nat)
    (ts : List (Target σ)) (s : Scheduler σ) (d : Disk) : Prop where
  sound : s.Sound fine times l (some ⟨id, .queued ts⟩) d
  handle : ∃ j, s.keeper.job? id = some j ∧ j.state = .idle

/-! ## Runs -/

/-- `JobRun … held stage ns s d`: the job `id` for the targets `ts` has come to `stage` when the
scheduler is `s` and the disk `d`. The acquisition that it began with, if it got the lock, is `held`,
and `ns` are its updates until then. Between its turns the scheduler makes other moves, and others
change the disk. -/
inductive JobRun (may : Conduct) (fine : Disk → Prop) (times : LockTimes) (l : UpdateLock)
    (id : Nat) (ts : List (Target σ)) :
    Option Holding → JobStage σ → UpdateNotes σ → Scheduler σ → Disk → Prop where
  | skips {s s₁ : Scheduler σ} {d e : Disk} : s.Awaits fine times l id ts d →
    (s.keep Keeper.acquire).Ends may d (.ok none, s₁) e →
    JobRun may fine times l id ts none .refused [] (s₁.giveWay id .skipped) e
  | locks {s s₁ : Scheduler σ} {d e : Disk} {x : OsError} : s.Awaits fine times l id ts d →
    (s.keep Keeper.acquire).Ends may d (.error x, s₁) e →
    JobRun may fine times l id ts none .refused []
      (s₁.giveWay id (.aborted UpdateLock.fileName x.message)) e
  | begins {s s₁ : Scheduler σ} {d e : Disk} {k : Holding} : s.Awaits fine times l id ts d →
    (s.keep Keeper.acquire).Ends may d (.ok (some k.guard), s₁) e →
    s₁.keeper.ownership.holding = some k → e.FileOf l.path k.created →
    JobRun may fine times l id ts (some k) (.between ts) [] (s₁.begun id) e
  | enters {k : Holding} {t : Target σ} {rest : List (Target σ)} {ns : UpdateNotes σ}
      {s : Scheduler σ} {d : Disk} :
    JobRun may fine times l id ts (some k) (.between (t :: rest)) ns s d → s.interrupted id = false →
    JobRun may fine times l id ts (some k) (.within t (t.update s.limits) rest) ns s d
  | succeeds {k : Holding} {t : Target σ} {c : Course σ (Except RefreshError Nat)}
      {rest : List (Target σ)} {ns : UpdateNotes σ} {n : Nat} {s s₁ : Scheduler σ} {d e : Disk} :
    JobRun may fine times l id ts (some k) (.within t c rest) ns s d →
    (s.play id c).Ends may d (.ended (.ok n), s₁) e →
    JobRun may fine times l id ts (some k) (.between rest) (ns ++ [(t, .ok n)]) s₁ e
  | waits {k : Holding} {t : Target σ} {c : Course σ (Except RefreshError Nat)}
      {rest : List (Target σ)} {ns : UpdateNotes σ} {s s₁ : Scheduler σ} {d e : Disk}
      {limit : Option Span} {heeds : Bool} {ready : Scene σ → Bool}
      {next : Woken → Course σ (Except RefreshError Nat)} {b : BlockedUpdate σ} :
    JobRun may fine times l id ts (some k) (.within t c rest) ns s d →
    (s.play id c).Ends may d (.blocked limit heeds ready next, s₁) e →
    b = ⟨k.guard, t.name, ns.length, rest, limit.map (s₁.keeper.elapsed + ·), heeds, ready, next⟩ →
    JobRun may fine times l id ts (some k) (.waiting t b) ns (s₁.setPhase id (.blocked b)) e
  | resumes {k : Holding} {t : Target σ} {b : BlockedUpdate σ} {ns : UpdateNotes σ}
      {s : Scheduler σ} {d : Disk} {w : Woken} :
    JobRun may fine times l id ts (some k) (.waiting t b) ns s d → s.wake? id b = some w →
    JobRun may fine times l id ts (some k) (.within t (b.next w) b.rest) ns s d
  | completes {k : Holding} {ns : UpdateNotes σ} {s s' : Scheduler σ} {d e : Disk} :
    JobRun may fine times l id ts (some k) (.between []) ns s d →
    (s.finish id k.guard (.completed ns.length)).Ends may d s' e →
    JobRun may fine times l id ts (some k) .completed ns s' e
  | stops {k : Holding} {t : Target σ} {rest : List (Target σ)} {ns : UpdateNotes σ}
      {s s' : Scheduler σ} {d e : Disk} :
    JobRun may fine times l id ts (some k) (.between (t :: rest)) ns s d → s.interrupted id = true →
    (s.finish id k.guard .cancelled).Ends may d s' e →
    JobRun may fine times l id ts (some k) .interrupted ns s' e
  | fails {k : Holding} {t : Target σ} {c : Course σ (Except RefreshError Nat)}
      {rest : List (Target σ)} {ns : UpdateNotes σ} {x : RefreshError} {s s₁ s' : Scheduler σ}
      {d m e : Disk} :
    JobRun may fine times l id ts (some k) (.within t c rest) ns s d →
    (s.play id c).Ends may d (.ended (.error x), s₁) m →
    (s₁.finish id k.guard (.ofError t x)).Ends may m s' e →
    JobRun may fine times l id ts (some k) .failed (ns ++ [(t, .error x)]) s' e
  | crashes {k : Holding} {t : Target σ} {c : Course σ (Except RefreshError Nat)}
      {rest : List (Target σ)} {ns : UpdateNotes σ} {s s₁ s' : Scheduler σ} {d m e : Disk} :
    JobRun may fine times l id ts (some k) (.within t c rest) ns s d →
    (s.play id c).Ends may d (.crashed, s₁) m →
    (s₁.breakOff id k.guard .panicked).Ends may m s' e →
    JobRun may fine times l id ts (some k) .crashed ns s' e
  | killed {k : Holding} {t : Target σ} {b : BlockedUpdate σ} {ns : UpdateNotes σ}
      {s s' : Scheduler σ} {d e : Disk} :
    JobRun may fine times l id ts (some k) (.waiting t b) ns s d → (s.kill id).Ends may d s' e →
    JobRun may fine times l id ts (some k) .killed ns s' e
  | bystands {k : Holding} {t : Target σ} {b : BlockedUpdate σ} {ns : UpdateNotes σ}
      {s s' : Scheduler σ} {d e : Disk} {m : Move} :
    JobRun may fine times l id ts (some k) (.waiting t b) ns s d → ¬m.IsAbout id →
    (s.move m).Ends may d s' e → JobRun may fine times l id ts (some k) (.waiting t b) ns s' e
  | others {held : Option Holding} {stage : JobStage σ} {ns : UpdateNotes σ} {s : Scheduler σ}
      {d e : Disk} :
    JobRun may fine times l id ts held stage ns s d →
    Neighbourly fine times.theirs False l.path d e →
    JobRun may fine times l id ts held stage ns s e

/-! ## What is known at each stage -/

/-- The job runs: its task is in the phase `p`, and it has `rest` still to update after the targets of
`ns`, whose updates all succeeded. -/
structure Going (fine : Disk → Prop) (times : LockTimes) (l : UpdateLock) (id : Nat)
    (ts : List (Target σ)) (p : JobPhase σ) (rest : List (Target σ)) (ns : UpdateNotes σ)
    (s : Scheduler σ) (d : Disk) : Prop where
  sound : s.Sound fine times l (some ⟨id, p⟩) d
  split : ts = ns.targets ++ rest
  oks : ns.AllOk
  tame : ∀ t ∈ rest, t.UpdateKeeps (Neighbourly fine times.theirs False l.path)

/-- The job is over. Its keeper knows the lock, and holds nothing of what the job had of it. -/
structure Ended (fine : Disk → Prop) (times : LockTimes) (l : UpdateLock) (id : Nat)
    (held : Option Holding) (x : JobEnd) (s : Scheduler σ) (d : Disk) : Prop where
  ended : s.end? id = some x
  knows : s.keeper.KnowsLock fine times l none d
  released : ∀ k ∈ held, ∀ j, s.keeper.ownership.holding = some j → j.generation ≠ k.generation

/-- The job has an outcome, and is idle and finished. -/
structure Done (fine : Disk → Prop) (times : LockTimes) (l : UpdateLock) (id : Nat)
    (held : Option Holding) (o : RefreshOutcome) (s : Scheduler σ) (d : Disk) : Prop where
  ended : Ended fine times l id held (.outcome o) s d
  idle : ∃ j, s.keeper.job? id = some j ∧ j.state = .idle ∧ j.finished = true

/-- What is known of a job at a stage of its run. -/
def AtStage (fine : Disk → Prop) (times : LockTimes) (l : UpdateLock) (id : Nat)
    (ts : List (Target σ)) :
    Option Holding → JobStage σ → UpdateNotes σ → Scheduler σ → Disk → Prop
  | held, .refused, ns, s, d => held = none ∧ ns = [] ∧
    ∃ o, Done fine times l id held o s d ∧
      (o = .skipped ∨ ∃ x : OsError, o = .aborted UpdateLock.fileName x.message)
  | held, .between rest, ns, s, d => held.isSome ∧ ∃ p, Going fine times l id ts p rest ns s d
  | held, .within t c rest, ns, s, d => held.isSome ∧
    (∃ p, Going fine times l id ts p (t :: rest) ns s d) ∧
    c.Keeps (Neighbourly fine times.theirs False l.path)
  | held, .waiting t b, ns, s, d => ∃ k, held = some k ∧
    Going fine times l id ts (.blocked b) (t :: b.rest) ns s d ∧
    (b.guard = k.guard ∧ b.cache = t.name ∧ b.updated = ns.length) ∧
    ∀ w, (b.next w).Keeps (Neighbourly fine times.theirs False l.path)
  | held, .completed, ns, s, d => ns.targets = ts ∧ ns.AllOk ∧ held.isSome ∧
    Done fine times l id held (.completed ns.length) s d
  | held, .interrupted, ns, s, d => (∃ t rest, ts = ns.targets ++ t :: rest) ∧ ns.AllOk ∧
    held.isSome ∧ Done fine times l id held .cancelled s d
  | held, .failed, ns, s, d => ∃ (oks : UpdateNotes σ) (t : Target σ) (x : RefreshError)
    (rest : List (Target σ)), ns = oks ++ [(t, .error x)] ∧ oks.AllOk ∧
    ts = oks.targets ++ t :: rest ∧ held.isSome ∧ Done fine times l id held (.ofError t x) s d
  | held, .crashed, _, s, d => Ended fine times l id held .panicked s d
  | held, .killed, _, s, d => Ended fine times l id held .killed s d

/-! ## What a step makes of it -/

/-- What every move of a scheduler among neighbours keeps. -/
theorem steady_sound (hw : Neighbourhood may l fine times False) :
    Keeper.Steady may (Neighbourly fine times.theirs False l.path)
      (Neighbourly fine times.theirs False l.path) False (Keeper.KnowsLock fine times l none) :=
  Keeper.steady_knowsLock none hw nofun fun h => h

theorem end?_setPhase_over {u : JobTask σ} (hu : s.task? id = some u) (x : JobEnd) :
    (s.setPhase id (.over x)).end? id = some x := by
  unfold end?
  rw [task?_setPhase, hu, Option.map_some, if_pos (id_of_task? hu)]
  rfl

theorem kill_of_blocked {b : BlockedUpdate σ} (hb : s.task? id = some ⟨id, .blocked b⟩) :
    s.kill id = s.breakOff id b.guard .killed := by
  unfold kill
  rw [hb]
  rfl

/-- Who has given back what is held under a guard holds nothing under it. -/
theorem leads_giveBack_released (s : Scheduler σ) (g : LockGuard) (d : Disk) :
    (s.giveBack g).Leads may d fun s' _ =>
      ∀ j, s'.keeper.ownership.holding = some j → j.generation ≠ g.generation := by
  refine Routine.Leads.bind (P := fun x _ =>
    ∀ j, x.2.keeper.ownership.holding = some j → j.generation ≠ g.generation) ?_
    fun x m hx => Routine.leads_pure hx
  refine Routine.Leads.bind (P := fun x _ =>
    ∀ j, x.2.ownership.holding = some j → j.generation ≠ g.generation) ?_
    fun x m hx => Routine.leads_pure hx
  rintro ⟨r, k⟩ e h
  obtain ⟨o, hrelease, rfl⟩ := Keeper.ends_owning h
  exact (UpdateLock.leads_release _ _ _ _ _ _ hrelease).2

namespace Going

variable {p : JobPhase σ}

theorem neighbourly (hw : Neighbourhood may l fine times False)
    (hg : Going fine times l id ts p rest ns s d)
    (hr : Neighbourly fine times.theirs False l.path d e) : Going fine times l id ts p rest ns s e :=
  { hg with sound := hg.sound.waits (steady_sound hw) hr }

theorem ends_play (hw : Neighbourhood may l fine times False)
    (hg : Going fine times l id ts p rest ns s d)
    (hc : c.Keeps (Neighbourly fine times.theirs False l.path))
    {r : CourseStop σ (Except RefreshError Nat)} (hx : (s.play id c).Ends may d (r, s') e) :
    Going fine times l id ts p rest ns s' e ∧
      r.Keeps (Neighbourly fine times.theirs False l.path) := by
  obtain ⟨hs', hr⟩ := hg.sound.leads_play (steady_sound hw) hc _ _ hx
  exact ⟨{ hg with sound := hs' }, hr⟩

/-- After another update that succeeded. -/
theorem succeeds (hg : Going fine times l id ts p (t :: rest) ns s d) (n : Nat) :
    Going fine times l id ts p rest (ns ++ [(t, .ok n)]) s d := by
  refine ⟨hg.sound, ?_, ?_, fun u hu => hg.tame u (.tail _ hu)⟩
  · rw [hg.split]
    simp [UpdateNotes.targets]
  · intro r hr
    rcases List.mem_append.mp hr with hr | hr
    · exact hg.oks r hr
    · obtain rfl := List.mem_singleton.mp hr
      exact ⟨n, rfl⟩

/-- While the update waits the job is found in it. -/
theorem waits (hg : Going fine times l id ts p (t :: rest) ns s d) {b : BlockedUpdate σ}
    (hrest : b.rest = rest)
    (hnext : ∀ w, (b.next w).Keeps (Neighbourly fine times.theirs False l.path)) :
    Going fine times l id ts (.blocked b) (t :: b.rest) ns (s.setPhase id (.blocked b)) d := by
  have hb : (JobPhase.blocked b).UpdatesKeep (Neighbourly fine times.theirs False l.path) := by
    refine ⟨fun u hu => hg.tame u (.tail _ ?_), hnext⟩
    rwa [← hrest]
  rw [hrest]
  exact { hg with sound := hg.sound.rephase hb }

/-- The job gives back what it has of the lock. -/
theorem ends_giveBack (hw : Neighbourhood may l fine times False)
    (hg : Going fine times l id ts p rest ns s d) {f : JobHandle → JobHandle}
    (hx : ((s.updateJob id f).giveBack k.guard).Ends may d s' e) (hf : ∀ j, (f j).id = j.id) :
    Going fine times l id ts p rest ns s' e ∧
      ∀ i ∈ some k, ∀ j, s'.keeper.ownership.holding = some j → j.generation ≠ i.generation := by
  have hI : Keeper.Steady may _ _ _ _ := steady_sound hw
  have hmarked := hg.sound.updateJob hI id hf
  refine ⟨{ hg with sound := hmarked.leads_giveBack hI _ _ hx }, ?_⟩
  rintro i ⟨⟩
  exact leads_giveBack_released _ _ _ _ _ hx

/-- Whatever the outcome, the lock is given back and the job is idle. -/
theorem ends_finish (hw : Neighbourhood may l fine times False)
    (hg : Going fine times l id ts p rest ns s d)
    (hx : (s.finish id k.guard o).Ends may d s' e) : Done fine times l id (some k) o s' e := by
  obtain ⟨s₁, m, hgive, hend⟩ := Routine.ends_seq.mp hx
  obtain ⟨rfl, rfl⟩ := Routine.ends_pure.mp hend
  obtain ⟨hgiven, hreleased⟩ := hg.ends_giveBack hw hgive fun _ => rfl
  have htask := hgiven.sound.task _ rfl
  obtain ⟨j, hj⟩ := Keeper.mem_ids_iff.mp (hgiven.sound.handle _ rfl)
  have hidle := hgiven.sound.updateJob (steady_sound hw) id
    (f := fun j => ((j.setState .lockReleased).finish).setState .idle) fun _ => rfl
  refine ⟨⟨end?_setPhase_over htask _, hidle.keeper, hreleased⟩,
    ((j.setState .lockReleased).finish).setState .idle, ?_, rfl, rfl⟩
  show (s₁.keeper.updateJob id _).job? id = _
  rw [Keeper.job?_updateJob s₁.keeper id, hj]
  · rfl
  · intro i
    rfl

/-- So it is when the job does not come to its end. -/
theorem ends_breakOff (hw : Neighbourhood may l fine times False)
    (hg : Going fine times l id ts p rest ns s d) {x : JobEnd}
    (hx : (s.breakOff id k.guard x).Ends may d s' e) : Ended fine times l id (some k) x s' e := by
  obtain ⟨s₁, m, hgive, hend⟩ := Routine.ends_seq.mp hx
  obtain ⟨rfl, rfl⟩ := Routine.ends_pure.mp hend
  obtain ⟨hgiven, hreleased⟩ := hg.ends_giveBack hw hgive fun _ => rfl
  exact ⟨end?_setPhase_over (hgiven.sound.task _ rfl) x, hgiven.sound.keeper, hreleased⟩

end Going

theorem Ended.neighbourly (hw : Neighbourhood may l fine times False) {x : JobEnd}
    (hx : Ended fine times l id held x s d)
    (hr : Neighbourly fine times.theirs False l.path d e) : Ended fine times l id held x s e :=
  { hx with knows := (steady_sound hw).waits hr hx.knows }

theorem Done.neighbourly (hw : Neighbourhood may l fine times False)
    (hd : Done fine times l id held o s d)
    (hr : Neighbourly fine times.theirs False l.path d e) : Done fine times l id held o s e :=
  ⟨hd.ended.neighbourly hw hr, hd.idle⟩

namespace Awaits

/-- A job without the lock is over at once, and as idle as it was. -/
theorem gives_way (hw : Neighbourhood may l fine times False) (ha : s.Awaits fine times l id ts d)
    {r : Except OsError (Option LockGuard)} (hx : (s.keep Keeper.acquire).Ends may d (r, s₁) e)
    (o : RefreshOutcome) : Done fine times l id none o (s₁.giveWay id o) e := by
  have hI : Keeper.Steady may _ _ _ _ := steady_sound hw
  obtain ⟨q, rfl, hs₁, hstates, -⟩ := ha.sound.leads_acquire hI _ _ hx
  obtain ⟨j, hj, hidle⟩ := ha.handle
  obtain ⟨j', hj'⟩ := Keeper.mem_ids_iff.mp (hs₁.handle _ rfl)
  have hidle' : j'.state = .idle := by
    rw [Keeper.state_of_states hstates hj hj', hidle]
  have hfinished := hs₁.updateJob hI id (f := JobHandle.finish) fun _ => rfl
  refine ⟨⟨end?_setPhase_over (hs₁.task _ rfl) _, hfinished.keeper, fun _ hk => (nomatch hk)⟩,
    j'.finish, ?_, hidle', rfl⟩
  show (q.updateJob id JobHandle.finish).job? id = _
  rw [Keeper.job?_updateJob, hj']
  · rfl
  · intro i
    rfl

/-- A job with the lock is in its turn. -/
theorem begins (hw : Neighbourhood may l fine times False) (ha : s.Awaits fine times l id ts d)
    {r : Except OsError (Option LockGuard)} (hx : (s.keep Keeper.acquire).Ends may d (r, s₁) e) :
    Going fine times l id ts (.queued ts) ts [] (s₁.begun id) e := by
  have hI : Keeper.Steady may _ _ _ _ := steady_sound hw
  obtain ⟨q, rfl, hs₁, -⟩ := ha.sound.leads_acquire hI _ _ hx
  have hts := ha.sound.phases _ (mem_of_task? (ha.sound.task _ rfl))
  exact ⟨hs₁.begun hI id, rfl, fun _ hr => (nomatch hr), hts⟩

end Awaits

/-- What is known of a job stays while others change the disk. -/
theorem AtStage.neighbourly (hw : Neighbourhood may l fine times False)
    (ha : AtStage fine times l id ts held stage ns s d)
    (hr : Neighbourly fine times.theirs False l.path d e) :
    AtStage fine times l id ts held stage ns s e := by
  cases stage with
  | refused =>
    obtain ⟨hheld, hns, o, hdone, ho⟩ := ha
    exact ⟨hheld, hns, o, hdone.neighbourly hw hr, ho⟩
  | between rest =>
    obtain ⟨hheld, p, hg⟩ := ha
    exact ⟨hheld, p, hg.neighbourly hw hr⟩
  | within t c rest =>
    obtain ⟨hheld, ⟨p, hg⟩, hc⟩ := ha
    exact ⟨hheld, ⟨p, hg.neighbourly hw hr⟩, hc⟩
  | waiting t b =>
    obtain ⟨k, hk, hg, hb⟩ := ha
    exact ⟨k, hk, hg.neighbourly hw hr, hb⟩
  | completed =>
    obtain ⟨hts, hoks, hheld, hdone⟩ := ha
    exact ⟨hts, hoks, hheld, hdone.neighbourly hw hr⟩
  | interrupted =>
    obtain ⟨hts, hoks, hheld, hdone⟩ := ha
    exact ⟨hts, hoks, hheld, hdone.neighbourly hw hr⟩
  | failed =>
    obtain ⟨oks, t, x, rest, hns, hoks, hts, hheld, hdone⟩ := ha
    exact ⟨oks, t, x, rest, hns, hoks, hts, hheld, hdone.neighbourly hw hr⟩
  | crashed => exact Ended.neighbourly hw ha hr
  | killed => exact Ended.neighbourly hw ha hr

/-- At every stage of a run what is known of that stage holds. -/
theorem JobRun.atStage (hw : Neighbourhood may l fine times False)
    (hrun : JobRun may fine times l id ts held stage ns s d) :
    AtStage fine times l id ts held stage ns s d := by
  induction hrun with
  | skips ha hx => exact ⟨rfl, rfl, _, ha.gives_way hw hx _, .inl rfl⟩
  | locks ha hx => exact ⟨rfl, rfl, _, ha.gives_way hw hx _, .inr ⟨_, rfl⟩⟩
  | begins ha hx _ _ => exact ⟨rfl, _, ha.begins hw hx⟩
  | enters _ _ ih =>
    obtain ⟨hheld, p, hg⟩ := ih
    exact ⟨hheld, ⟨p, hg⟩, hg.tame _ (.head _) _⟩
  | succeeds _ hx ih =>
    obtain ⟨hheld, ⟨p, hg⟩, hc⟩ := ih
    exact ⟨hheld, p, (hg.ends_play hw hc hx).1.succeeds _⟩
  | waits _ hx hb ih =>
    obtain ⟨-, ⟨p, hg⟩, hc⟩ := ih
    obtain ⟨hg', hnext⟩ := hg.ends_play hw hc hx
    subst hb
    refine ⟨_, rfl, hg'.waits rfl ?_, ⟨rfl, rfl, rfl⟩, hnext⟩
    exact hnext
  | resumes _ _ ih =>
    obtain ⟨k, hk, hg, -, hnext⟩ := ih
    exact ⟨rfl, ⟨_, hg⟩, hnext _⟩
  | completes _ hx ih =>
    obtain ⟨-, p, hg⟩ := ih
    have hts := hg.split
    rw [List.append_nil] at hts
    exact ⟨hts.symm, hg.oks, rfl, hg.ends_finish hw hx⟩
  | stops _ _ hx ih =>
    obtain ⟨-, p, hg⟩ := ih
    exact ⟨⟨_, _, hg.split⟩, hg.oks, rfl, hg.ends_finish hw hx⟩
  | fails _ hplay hx ih =>
    obtain ⟨-, ⟨p, hg⟩, hc⟩ := ih
    exact ⟨_, _, _, _, rfl, hg.oks, hg.split, rfl, (hg.ends_play hw hc hplay).1.ends_finish hw hx⟩
  | crashes _ hplay hx ih =>
    obtain ⟨-, ⟨p, hg⟩, hc⟩ := ih
    exact (hg.ends_play hw hc hplay).1.ends_breakOff hw hx
  | killed _ hx ih =>
    obtain ⟨k, hk, hg, ⟨hguard, -, -⟩, -⟩ := ih
    cases hk
    rw [kill_of_blocked (hg.sound.task _ rfl), hguard] at hx
    exact hg.ends_breakOff hw hx
  | bystands _ hm hx ih =>
    obtain ⟨k, hk, hg, hb⟩ := ih
    refine ⟨k, hk, { hg with sound := ?_ }, hb⟩
    refine hg.sound.leads_move (steady_sound hw) nofun ?_ _ _ hx
    rintro t ⟨⟩
    exact hm
  | others _ hr ih => exact ih.neighbourly hw hr

/-! ## Turns make up a run -/

/-- The run that a job has got on to at the end of a turn. -/
def RunsOn (may : Conduct) (fine : Disk → Prop) (times : LockTimes) (l : UpdateLock) (id : Nat)
    (ts : List (Target σ)) (held : Option Holding) (s : Scheduler σ) (d : Disk) : Prop :=
  ∃ stage ns, stage.Rests ∧ JobRun may fine times l id ts held stage ns s d

theorem JobRun.ends_afterUpdate (hrun : JobRun may fine times l id ts (some k) (.within t c rest) ns s d)
    {r : CourseStop σ (Except RefreshError Nat)} (hplay : (s.play id c).Ends may d (r, s₁) m)
    {next : Scheduler σ → Routine (Scheduler σ)}
    (hnext : ∀ {n}, JobRun may fine times l id ts (some k) (.between rest) (ns ++ [(t, .ok n)]) s₁ m →
      (next s₁).Ends may m s' e → RunsOn may fine times l id ts (some k) s' e)
    (hx : (s₁.afterUpdate id k.guard t.name ns.length rest r next).Ends may m s' e) :
    RunsOn may fine times l id ts (some k) s' e := by
  unfold afterUpdate at hx
  split at hx
  · exact hnext (hrun.succeeds hplay) hx
  · exact ⟨.failed, _, trivial, hrun.fails hplay hx⟩
  · next x hne =>
    refine ⟨.failed, _, trivial, hrun.fails (x := x) hplay ?_⟩
    have ho : RefreshOutcome.ofError t x = .aborted t.name x.message := by
      unfold RefreshOutcome.ofError
      split
      · exact absurd rfl hne
      · rfl
    rwa [ho]
  · exact ⟨.crashed, _, trivial, hrun.crashes hplay hx⟩
  · obtain ⟨rfl, rfl⟩ := Routine.ends_done.mp hx
    exact ⟨.waiting t _, _, trivial, hrun.waits hplay rfl⟩

theorem JobRun.ends_updateAll (hrun : JobRun may fine times l id ts (some k) (.between rest) ns s d)
    (hx : (updateAll id k.guard rest ns.length s).Ends may d s' e) :
    RunsOn may fine times l id ts (some k) s' e := by
  induction rest generalizing ns s d with
  | nil => exact ⟨.completed, ns, trivial, hrun.completes hx⟩
  | cons t rest ih =>
    unfold updateAll at hx
    split at hx
    · next hint => exact ⟨.interrupted, ns, trivial, hrun.stops hint hx⟩
    · next hint =>
      obtain ⟨⟨r, s₁⟩, m, hplay, hafter⟩ := Routine.ends_seq.mp hx
      have hwithin := hrun.enters (Bool.eq_false_iff.mpr hint)
      refine hwithin.ends_afterUpdate hplay (fun hbetween hgoes => ih hbetween ?_) hafter
      rwa [List.length_append]

theorem Awaits.ends_begin (hw : Neighbourhood may l fine times False)
    (ha : s.Awaits fine times l id ts d) (hx : (s.begin id ts).Ends may d s' e) :
    ∃ held, RunsOn may fine times l id ts held s' e := by
  obtain ⟨⟨r, s₁⟩, m, hkeep, hrest⟩ := Routine.ends_seq.mp hx
  rcases r with x | _ | g
  · obtain ⟨rfl, rfl⟩ := Routine.ends_pure.mp hrest
    exact ⟨none, .refused, [], trivial, .locks ha hkeep⟩
  · obtain ⟨rfl, rfl⟩ := Routine.ends_pure.mp hrest
    exact ⟨none, .refused, [], trivial, .skips ha hkeep⟩
  · obtain ⟨q, rfl, -, -, hgot⟩ := ha.sound.leads_acquire (steady_sound hw) _ _ hkeep
    obtain ⟨k₁, m₁, hk₁, htry⟩ := hgot g rfl
    obtain ⟨t, hheld, hfile⟩ := (hk₁.ends_tryAcquire hw nofun htry).2 g rfl
    exact ⟨some ⟨g.generation, t⟩, (JobRun.begins ha hkeep hheld hfile).ends_updateAll hrest⟩

end Scheduler

end SensorCache
