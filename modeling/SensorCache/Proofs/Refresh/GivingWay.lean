import SensorCache.Proofs.Refresh.JobOutcomes
import SensorCache.Proofs.Refresh.Shutdown

/-!
# Giving way to a lock

Who does not get the lock leaves a check to come, so that the lock that stood in the way is looked at
again (`giving_way_leaves_check`). There are three ways to give way: the lock is young, it is gone
when it is looked at, or it is removed and somebody else's is there before the second try
(`Keeper.Outrun`). In the last case no check is left: another process that makes its lock just then,
and dies, keeps every later refresh away until someone looks at the lock (`outrun_without_check`).
-/

namespace SensorCache

open Disk Time

variable {σ : Type} {may : Conduct} {d e d₀ d₁ : Disk}

/-! ## What is kept by anything -/

/-- Any two disks. -/
abbrev Disk.Whatever (_ _ : Disk) : Prop := True

theorem Routine.keeps_whatever {α : Type} (r : Routine α) : r.Keeps Whatever := by
  induction r with
  | done a => trivial
  | step o next ih => exact ⟨fun _ => trivial, ih⟩

theorem Course.keeps_whatever {α : Type} (c : Course σ α) : c.Keeps Whatever := by
  induction c with
  | ends a => trivial
  | crashes => trivial
  | looks next ih => exact ih
  | puts s next ih => exact ih
  | performs o next ih => exact ⟨fun _ => trivial, ih⟩
  | waits limit heeds ready next ih => exact ih

namespace Keeper

variable {k k' : Keeper} {r : MonitorReport}

/-- Among processes that do what they like no more need be kept than what lasts anyway. -/
theorem steady_whatever (hmay : may.Within Whatever) :
    Steady may Whatever Whatever False fun _ _ => True where
  within := hmay
  updates _ := trivial
  refl _ := trivial
  trans _ _ := trivial
  look _ _ := trivial
  tries _ _ := trivial
  releases _ _ := trivial
  releasesHeld _ _ := trivial
  arms _ _ := trivial
  marks _ _ := trivial
  stops _ := trivial
  passes _ _ := trivial

theorem SameChecks.refl (k : Keeper) : SameChecks k k := ⟨rfl, rfl, rfl, rfl, rfl, rfl⟩

theorem SameChecks.trans {k'' : Keeper} (h : SameChecks k k') (h' : SameChecks k' k'') :
    SameChecks k k'' :=
  ⟨h'.settings.trans h.settings, h'.checks.trans h.checks, h'.pending.trans h.pending,
    h'.requests.trans h.requests, h'.elapsed.trans h.elapsed, h'.stopped.trans h.stopped⟩

theorem sameChecks_updateJob (k : Keeper) (id : Nat) (f : JobHandle → JobHandle) :
    SameChecks k (k.updateJob id f) := ⟨rfl, rfl, rfl, rfl, rfl, rfl⟩

theorem sameChecks_of_tryAcquire {x : Except OsError (Option LockGuard)}
    (h : k.tryAcquire.Ends may d (x, k') e) : SameChecks k k' := by
  obtain ⟨o, -, rfl⟩ := ends_owning h
  exact ⟨rfl, rfl, rfl, rfl, rfl, rfl⟩

/-- A check that is to come: a single one is live, it is the pending one, and it is due within the
delay. -/
def Armed (k : Keeper) : Prop := k.monitor.Sole k.elapsed

theorem armed_ensureArmed (hk : k.Watched) (hstopped : k.stopped = false) : k.ensureArmed.Armed :=
  Monitor.sole_ensureArmed hk.sound (hk.stopped.trans hstopped)

/-- The keeper removed a lock that was in its way, and found another there when it tried again. -/
def Outrun (may : Conduct) (k : Keeper) (d : Disk) (k' : Keeper) (e : Disk) : Prop :=
  ∃ r k₁ m k₂ n, k.tryAcquire.Ends may d (.ok none, k₁) m ∧ k₁.check.Ends may m (r, k₂) n ∧
    r.lockRemoved = true ∧ k₂.tryAcquire.Ends may n (.ok none, k') e

theorem Outrun.sameChecks (h : Outrun may k d k' e) : SameChecks k k' := by
  obtain ⟨r, k₁, m, k₂, n, hfirst, hcheck, -, hsecond⟩ := h
  exact (sameChecks_of_tryAcquire hfirst).trans
    ((sameChecks_of_check hcheck).1.trans (sameChecks_of_tryAcquire hsecond))

/-- Who does not get the lock is armed, or was outrun. -/
theorem ends_acquire_none (hk : k.Watched) (hstopped : k.stopped = false)
    (h : k.acquire.Ends may d (.ok none, k') e) : k'.Armed ∨ Outrun may k d k' e := by
  obtain ⟨⟨x, k₁⟩, m, hfirst, hrest⟩ := Routine.ends_seq.mp h
  rcases x with err | _ | g
  · obtain ⟨heq, -⟩ := Routine.ends_pure.mp hrest
    cases heq
  · obtain ⟨⟨r, k₂⟩, n, hcheck, hrest⟩ := Routine.ends_seq.mp hrest
    dsimp only at hrest
    split at hrest
    · next hremoved => exact .inr ⟨r, k₁, m, k₂, n, hfirst, hcheck, hremoved, hrest⟩
    · obtain ⟨heq, rfl⟩ := Routine.ends_pure.mp hrest
      cases heq
      have hsame := (sameChecks_of_tryAcquire hfirst).trans (sameChecks_of_check hcheck).1
      exact .inl (armed_ensureArmed (hsame.watched hk) (hsame.stopped.trans hstopped))
  · obtain ⟨heq, -⟩ := Routine.ends_pure.mp hrest
    cases heq

/-- Who finds that a lock stays is armed. -/
theorem ends_recover_false (hk : k.Watched) (hstopped : k.stopped = false)
    (h : k.recover.Ends may d (false, k') e) : k'.Armed := by
  obtain ⟨⟨r, k₁⟩, m, hcheck, hrest⟩ := Routine.ends_seq.mp h
  have hsame := (sameChecks_of_check hcheck).1
  dsimp only at hrest
  split at hrest
  · obtain ⟨heq, -⟩ := Routine.ends_pure.mp hrest
    cases heq
  · obtain ⟨locked, n, -, hend⟩ := Routine.ends_seq.mp hrest
    split at hend
    · obtain ⟨heq, rfl⟩ := Routine.ends_pure.mp hend
      cases heq
      exact armed_ensureArmed (hsame.watched hk) (hsame.stopped.trans hstopped)
    · obtain ⟨heq, -⟩ := Routine.ends_pure.mp hend
      cases heq

end Keeper

namespace Scheduler

variable {s s' s₀ : Scheduler σ} {id : Nat} {g : LockGuard}

/-! ## How a job comes to be skipped -/

/-- The job gave way to another. -/
def Skipped (s : Scheduler σ) (id : Nat) : Prop := s.end? id = some (.outcome .skipped)

theorem not_skipped_setPhase (s : Scheduler σ) (id : Nat) {p : JobPhase σ}
    (hp : p ≠ .over (.outcome .skipped)) : ¬(s.setPhase id p).Skipped id := by
  intro h
  obtain ⟨t, ht, hend⟩ := Option.bind_eq_some_iff.mp h
  rw [task?_setPhase] at ht
  obtain ⟨u, hu, rfl⟩ := Option.map_eq_some_iff.mp ht
  rw [if_pos (id_of_task? hu)] at hend
  unfold JobTask.end? at hend
  dsimp only at hend
  split at hend
  · cases hend
    exact hp rfl
  · cases hend

/-- However the turn ends, the job was not skipped. -/
abbrev Engages (may : Conduct) (id : Nat) (r : Routine (Scheduler σ)) (d : Disk) : Prop :=
  r.Leads may d fun s' _ => ¬s'.Skipped id

theorem engages_finish (s : Scheduler σ) (g : LockGuard) {o : RefreshOutcome} (ho : o ≠ .skipped)
    (d : Disk) : Engages may id (s.finish id g o) d := by
  refine (Routine.leads_any _ d).bind fun s₁ m _ => Routine.leads_pure ?_
  refine not_skipped_setPhase _ id fun h => ho ?_
  cases h
  rfl

theorem engages_breakOff (s : Scheduler σ) (g : LockGuard) {x : JobEnd} (hx : x ≠ .outcome .skipped)
    (d : Disk) : Engages may id (s.breakOff id g x) d := by
  refine (Routine.leads_any _ d).bind fun s₁ m _ => Routine.leads_pure ?_
  refine not_skipped_setPhase _ id fun h => hx ?_
  cases h
  rfl

theorem engages_afterUpdate {cache : String} {updated : Nat} {rest : List (Target σ)}
    {r : CourseStop σ (Except RefreshError Nat)} {next : Scheduler σ → Routine (Scheduler σ)}
    (hnext : Engages may id (next s) d) :
    Engages may id (s.afterUpdate id g cache updated rest r next) d := by
  unfold afterUpdate
  split
  · exact hnext
  · exact engages_finish s g (by simp) d
  · exact engages_finish s g (by simp) d
  · exact engages_breakOff s g (by simp) d
  · exact Routine.leads_pure (not_skipped_setPhase s id (by simp))

/-- A job that has the lock does not end as one that gave way. -/
theorem engages_updateAll (g : LockGuard) (ts : List (Target σ)) (updated : Nat) (s : Scheduler σ)
    (d : Disk) : Engages may id (updateAll id g ts updated s) d := by
  induction ts generalizing updated s d with
  | nil => exact engages_finish s g (by simp) d
  | cons t rest ih =>
    unfold updateAll
    split
    · exact engages_finish s g (by simp) d
    · exact (Routine.leads_any _ d).bind fun x m _ => engages_afterUpdate (ih _ x.2 m)

theorem engages_resume (s : Scheduler σ) (b : BlockedUpdate σ) (w : Woken) (d : Disk) :
    Engages may id (s.resume id b w) d :=
  (Routine.leads_any _ d).bind fun x m _ =>
    engages_afterUpdate (engages_updateAll b.guard b.rest _ x.2 m)

/-- A job is skipped by a turn in which it does not get the lock. -/
theorem exists_acquire_of_skipped (hs : ¬s.Skipped id) (h : (s.jobTurn id).Ends may d s' e)
    (hskipped : s'.Skipped id) :
    ∃ k, s.keeper.acquire.Ends may d (.ok none, k) e ∧ s'.keeper = k.updateJob id JobHandle.finish := by
  unfold jobTurn at h
  split at h
  · next ts _ =>
    obtain ⟨⟨r, s₁⟩, m, hkeep, hrest⟩ := Routine.ends_seq.mp h
    obtain ⟨⟨r', k⟩, n, hacquire, hend⟩ := Routine.ends_seq.mp hkeep
    obtain ⟨heq, rfl⟩ := Routine.ends_pure.mp hend
    cases heq
    rcases r with err | _ | g
    · obtain ⟨rfl, rfl⟩ := Routine.ends_pure.mp hrest
      exact absurd hskipped (not_skipped_setPhase _ id (by simp))
    · obtain ⟨rfl, rfl⟩ := Routine.ends_pure.mp hrest
      exact ⟨k, hacquire, rfl⟩
    · exact absurd hskipped (engages_updateAll g ts 0 _ m _ _ hrest)
  · split at h
    · exact absurd hskipped (engages_resume s _ _ d _ _ h)
    · obtain ⟨rfl, rfl⟩ := Routine.ends_pure.mp h
      exact absurd hskipped hs
  · obtain ⟨rfl, rfl⟩ := Routine.ends_pure.mp h
    exact absurd hskipped hs

/-! ## All that gives way -/

/-- What a scheduler comes to after it was started with a keeper of its own, among processes that do
what they like. -/
def Reached (may : Conduct) (l : UpdateLock) (monitor : MonitorSettings) (requests : Bool) (own : σ)
    (settings : ScheduleSettings) (jitter : Span) (zone : Zone) (targets : List (Target σ))
    (s : Scheduler σ) (d : Disk) : Prop :=
  ∃ d₀ s₀ d₁, (start (.new l monitor requests) own settings jitter zone targets).Ends may d₀ s₀ d₁ ∧
    Story may Whatever (fun _ => True) s₀ d₁ s d

variable {l : UpdateLock} {monitor : MonitorSettings} {requests : Bool} {own : σ}
  {settings : ScheduleSettings} {jitter : Span} {zone : Zone} {targets : List (Target σ)}

theorem Reached.watched (hmay : may.Within Whatever)
    (h : Reached may l monitor requests own settings jitter zone targets s d) : s.keeper.Watched := by
  obtain ⟨d₀, s₀, d₁, hstart, hstory⟩ := h
  have hI := (Keeper.steady_whatever hmay).and_lasting (Keeper.lasting_tended monitor.maxLockAge)
  have hk₀ : (Keeper.new l monitor requests).Tended monitor.maxLockAge :=
    ⟨Keeper.watched_new l monitor requests, rfl⟩
  have hwell := leads_start hI ⟨trivial, hk₀⟩ rfl (fun t _ => t.requiresUpdate.keeps_whatever)
    (fun t _ limits => (t.update limits).keeps_whatever) _ _ hstart
  exact (hstory.well hI (fun _ _ hf => hf.elim) hwell).keeper.2.watched

/-- **Giving way leaves a check.** A job that ends skipped before a shutdown, and an update that is
not forced because of a lock, leave a single check that is to come within the delay. The one case in
which a job does not is that it was outrun: then the checks are as they were before its turn. -/
theorem giving_way_leaves_check (hmay : may.Within Whatever)
    (h : Reached may l monitor requests own settings jitter zone targets s d)
    (hstopped : s.keeper.stopped = false) :
    (∀ id s' e, ¬s.Skipped id → (s.jobTurn id).Ends may d s' e → s'.Skipped id →
      s'.keeper.Armed ∨
        (∃ k, Keeper.Outrun may s.keeper d k e ∧ s'.keeper = k.updateJob id JobHandle.finish) ∧
          Keeper.SameChecks s.keeper s'.keeper) ∧
    (∀ s' e, s.forceUpdate.Ends may d (false, s') e → s'.keeper.Armed) := by
  have hwatched := h.watched hmay
  refine ⟨fun id s' e hs hturn hskipped => ?_, fun s' e hforce => ?_⟩
  · obtain ⟨k, hacquire, hk⟩ := exists_acquire_of_skipped hs hturn hskipped
    rcases Keeper.ends_acquire_none hwatched hstopped hacquire with harmed | hout
    · refine .inl ?_
      rw [hk]
      exact harmed
    · refine .inr ⟨⟨k, hout, hk⟩, ?_⟩
      rw [hk]
      exact hout.sameChecks.trans (Keeper.sameChecks_updateJob k id _)
  · obtain ⟨locked, m, -, hrest⟩ := Routine.ends_seq.mp hforce
    split at hrest
    · obtain ⟨⟨gone, s₁⟩, n, hkeep, hrest⟩ := Routine.ends_seq.mp hrest
      obtain ⟨⟨gone', k⟩, n', hrecover, hend⟩ := Routine.ends_seq.mp hkeep
      obtain ⟨heq, rfl⟩ := Routine.ends_pure.mp hend
      cases heq
      cases gone
      · obtain ⟨heq, rfl⟩ := Routine.ends_pure.mp hrest
        cases heq
        exact Keeper.ends_recover_false hwatched hstopped hrecover
      · obtain ⟨s₂, o, -, hend⟩ := Routine.ends_seq.mp hrest
        obtain ⟨heq, -⟩ := Routine.ends_pure.mp hend
        cases heq
    · obtain ⟨s₁, n, -, hend⟩ := Routine.ends_seq.mp hrest
      obtain ⟨heq, -⟩ := Routine.ends_pure.mp hend
      cases heq

end Scheduler

/-! ## A rival -/

/-- Does a routine while others change the disk `before` each of its operations. -/
def Routine.runAfter {α : Type} (before : Op → Disk → Disk) (r : Routine α) (d : Disk) : α × Disk :=
  r.runBy (fun o d => (before o d).perform o) d

theorem Routine.ends_runAfter {α : Type} (before : Op → Disk → Disk) (r : Routine α) (d : Disk) :
    r.Ends (fun o d x e => (before o d).perform o = (x, e)) d (r.runAfter before d).1
      (r.runAfter before d).2 :=
  r.ends_runBy _ d

namespace Rehearsal

/-- Who is about to make a file finds that a rival has just made it. -/
def rival (o : Op) (d : Disk) : Disk :=
  match o with
  | .create p => (d.perform (.create p)).2
  | _ => d

def rivalled : Conduct := fun o d x e => (rival o d).perform o = (x, e)

theorem within_rivalled : rivalled.Within Whatever := fun h => ⟨_, trivial, .inl h⟩

/-- Without targets, with a keeper of its own. -/
abbrev RivalledReaches : Scheduler Rehearsal → Disk → Prop :=
  Scheduler.Reached rivalled lockKeeper.lock {} true .empty {} .zero .utc []

/-- There is no lock yet. -/
def opened : Scheduler Rehearsal × Disk :=
  (Scheduler.start lockKeeper .empty {} .zero .utc []).runAfter rival (.empty ⟨0⟩)

theorem reaches_opened (d : Disk) : RivalledReaches opened.1 d :=
  ⟨_, _, _, Routine.ends_runAfter rival _ _, .others (.refl _ _) trivial⟩

/-- A job is asked for while the disk is like this. -/
def askedOn (d : Disk) : Scheduler Rehearsal × Disk := opened.1.runNow.runAfter rival d

theorem reaches_askedOn (d : Disk) : RivalledReaches (askedOn d).1 (askedOn d).2 := by
  obtain ⟨d₀, s₀, d₁, hstart, hstory⟩ := reaches_opened d
  exact ⟨d₀, s₀, d₁, hstart, hstory.move (x := .event .run) trivial (Routine.ends_runAfter rival _ _)⟩

/-- The job gives way to a lock that has just been made, and so does who forces an update. -/
theorem giving_way_leaves_check_locked : ∃ s d s' s'' e f, RivalledReaches s d ∧
    s.keeper.stopped = false ∧ (s.jobTurn 1).Ends rivalled d s' e ∧ s'.Skipped 1 ∧
    s'.keeper.Armed ∧ s.forceUpdate.Ends rivalled d (false, s'') f ∧ s''.keeper.Armed := by
  have hreached := reaches_askedOn Keeper.locked
  obtain ⟨hskips, hforces⟩ := Scheduler.giving_way_leaves_check within_rivalled hreached rfl
  have hturn := Routine.ends_runAfter rival ((askedOn Keeper.locked).1.jobTurn 1)
    (askedOn Keeper.locked).2
  have hforce := Routine.ends_runAfter rival (askedOn Keeper.locked).1.forceUpdate
    (askedOn Keeper.locked).2
  have hskipped : (((askedOn Keeper.locked).1.jobTurn 1).runAfter rival
      (askedOn Keeper.locked).2).1.Skipped 1 := by
    unfold Scheduler.Skipped
    decide +kernel
  refine ⟨_, _, _, _, _, _, hreached, rfl, hturn, hskipped, ?_, hforce, hforces _ _ hforce⟩
  rcases hskips 1 _ _ (by unfold Scheduler.Skipped; decide +kernel) hturn hskipped with
    harmed | ⟨-, hsame⟩
  · exact harmed
  · -- A check was pending after the turn, and none before.
    exact absurd hsame.pending (by decide +kernel)

/-- A job meets a lock that nobody gave back. -/
def outrun : Scheduler Rehearsal × Disk :=
  ((askedOn abandoned).1.jobTurn 1).runAfter rival (askedOn abandoned).2

/-- It has removed that lock, and a rival's has taken its place. No check is left. -/
theorem outrun_without_check :
    RivalledReaches (askedOn abandoned).1 (askedOn abandoned).2 ∧
    ¬(askedOn abandoned).1.Skipped 1 ∧
    ((askedOn abandoned).1.jobTurn 1).Ends rivalled (askedOn abandoned).2 outrun.1 outrun.2 ∧
    outrun.1.Skipped 1 ∧ outrun.1.keeper.stopped = false ∧
    outrun.1.keeper.monitor.checks.live = [] ∧ outrun.2.Present lockKeeper.lock.path := by
  refine ⟨reaches_askedOn abandoned, ?_, Routine.ends_runAfter rival _ _, ?_, ?_, ?_, ?_⟩
  · unfold Scheduler.Skipped
    decide +kernel
  · unfold Scheduler.Skipped
    decide +kernel
  · decide +kernel
  · decide +kernel
  · decide +kernel

end Rehearsal

end SensorCache
