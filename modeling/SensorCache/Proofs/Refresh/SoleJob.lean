import SensorCache.Proofs.Cache.Ownership
import SensorCache.Proofs.Refresh.Prompt
import SensorCache.Refresh.Scheduler

/-!
# A job that nobody is in the way of

A scheduler may have one job, a lock that is free, and targets whose updates need not wait. Then the
job comes to its end in its first turn: it takes the lock, updates its targets in order up to the
first that fails (`Plays`), and gives the lock back (`run_begin`).
-/

namespace SensorCache

open Disk Time

/-! ## The lock when it is free, and when it is held -/

namespace UpdateLock

variable {l : UpdateLock} {d e m : Disk} {p : Place} {t : Instant}

theorem run_isLocked_of_missing (h : d.Missing l.path) : l.isLocked.run d = (false, d) := by
  rw [isLocked, Routine.run_bind, run_look, h]
  rfl

/-- A lock that is free is taken, if its directory is there. -/
theorem run_tryAcquire_free (o : Ownership) (henter : d.enter l.path.parent = .ok p)
    (hcreate : d.perform (.create l.path) = (.ok t, e)) :
    (l.tryAcquire o).run d = ((.ok (some (o.acquired t).guard), o.acquired t), e) := by
  have hdir : (Disk.ensureDirectory l.path.parent).outcome.run d = (.ok (), d) :=
    run_ensureDirectory henter
  have hnew : (Disk.createNew l.path).outcome.run d = (.ok t, e) := hcreate
  simp only [tryAcquire, Routine.run_bind, hdir, hnew, Routine.run_pure]

/-- Who took the lock gives it back. -/
theorem run_release_acquired (o : Ownership) (hlock : d.FileOf l.path t)
    (hremove : d.perform (.remove l.path) = (.ok (), e)) :
    (l.release (o.acquired t) (o.acquired t).guard).run d =
      ((.ok true, (o.acquired t).cleared), e) := by
  obtain ⟨c, hc⟩ := hlock
  have hheld : (o.acquired t).heldBy (o.acquired t).guard = some ⟨o.generations + 1, t⟩ := by
    simp [Ownership.heldBy, Ownership.acquired, Ownership.guard]
  have hgone : l.remove.run d = (.ok true, e) := by
    rw [remove, Attempt.run_bind_ok (run_unlink hremove)]
    rfl
  have hgive : (l.giveBack (some ⟨o.generations + 1, t⟩)).run d = (.ok true, e) := by
    rw [giveBack, run_removeUnchanged, hc]
    exact (if_pos rfl).trans hgone
  rw [run_release, hheld, hgive]
  rfl

end UpdateLock

namespace Scheduler

variable {σ : Type} {s u : Scheduler σ} {id n : Nat} {d e m : Disk} {g : LockGuard}
  {calls : CallLimits} {P : RefreshOutcome → Prop} {ts : List (Target σ)} {t : Instant}

/-! ## Updates in order -/

/-- The job is the only one, was not asked to stop, and the executor is free for it. -/
structure Sole (s : Scheduler σ) (id : Nat) : Prop where
  job : ∃ j, s.keeper.jobs = [j] ∧ j.id = id ∧ j.interrupted = false
  idle : s.executor.busy = false

/-- From `s` to `u` only jobs, the executor and what the targets keep may have changed. -/
def Worked (s u : Scheduler σ) : Prop :=
  ∃ js x o, u = { s with keeper := { s.keeper with jobs := js }, executor := x, own := o }

theorem Worked.refl (s : Scheduler σ) : Worked s s := ⟨_, _, _, rfl⟩

theorem Worked.trans {v : Scheduler σ} (h : Worked s u) (k : Worked u v) : Worked s v := by
  obtain ⟨_, _, _, rfl⟩ := h
  obtain ⟨_, _, _, rfl⟩ := k
  exact ⟨_, _, _, rfl⟩

theorem Worked.limits_eq (h : Worked s u) : u.limits = s.limits := by
  obtain ⟨_, _, _, rfl⟩ := h
  rfl

theorem Sole.updateJob (hs : s.Sole id) {f : JobHandle → JobHandle} (hid : ∀ j, (f j).id = j.id)
    (hf : ∀ j, (f j).interrupted = j.interrupted) (i : Nat) : (s.updateJob i f).Sole id := by
  obtain ⟨j, hj, hji, hrunning⟩ := hs.job
  refine ⟨⟨if j.id = i then f j else j, ?_, ?_, ?_⟩, hs.idle⟩
  · show s.keeper.jobs.map _ = _
    rw [hj]
    rfl
  · split
    · exact (hid j).trans hji
    · exact hji
  · split
    · exact (hf j).trans hrunning
    · exact hrunning

theorem Sole.not_interrupted (hs : s.Sole id) : s.interrupted id = false := by
  obtain ⟨j, hj, rfl, hrunning⟩ := hs.job
  simp [interrupted, Keeper.job?, hj, hrunning]

/-- An update that need not wait comes to its end. -/
theorem run_play (hs : s.Sole id) {Q : Except RefreshError Nat → Prop}
    {c : Course σ (Except RefreshError Nat)}
    (h : ∀ x : Scene σ, x.Free → ∃ z, Q z ∧ c.Prompt x d z e) :
    ∃ z u, Q z ∧ u.Sole id ∧ Worked s u ∧ (s.play id c).run d = ((.ended z, u), e) := by
  obtain ⟨j, hj, rfl, hrunning⟩ := hs.job
  have hjob : s.keeper.job? j.id = some j := by simp [Keeper.job?, hj]
  obtain ⟨z, hz, x, hx, -, hcomes⟩ := h (s.scene j) ⟨hrunning, hs.idle⟩
  refine ⟨z, s.withScene x, hz, ⟨?_, hx.idle⟩, ⟨_, _, _, rfl⟩, ?_⟩
  · refine ⟨if j.id = x.job.id then x.job else j, ?_, ?_, ?_⟩
    · show s.keeper.jobs.map _ = _
      rw [hj]
      rfl
    · split
      · next h => exact h.symm
      · rfl
    · split
      · exact hx.running
      · exact hrunning
  · rw [play, hjob]
    show ((c.proceed (s.scene j)).bind _).run d = _
    rw [show (c.proceed (s.scene j)).bind _ = (c.proceed (s.scene j) >>= _) from rfl,
      Routine.run_bind, show (c.proceed (s.scene j)).run d = _ from hcomes]
    rfl

/-- Updating the targets in order, after `n` others, leads from the disk `d` to `e` with an outcome
of which `P` holds: none of the updates has to wait, and the first that fails is the last. -/
inductive Plays (limits : CallLimits) (P : RefreshOutcome → Prop) :
    List (Target σ) → Nat → Disk → Disk → Prop where
  | done {n : Nat} {d : Disk} : P (.completed n) → Plays limits P [] n d d
  | next {t : Target σ} {ts : List (Target σ)} {n : Nat} {d m e : Disk} :
    (∀ x : Scene σ, x.Free → ∃ k, (t.update limits).Prompt x d (.ok k) m) →
      Plays limits P ts (n + 1) m e → Plays limits P (t :: ts) n d e
  | fails {t : Target σ} {ts : List (Target σ)} {n : Nat} {d e : Disk} :
    (∀ x : Scene σ, x.Free → ∃ y, y ≠ RefreshError.cancelled ∧
      (t.update limits).Prompt x d (.error y) e) →
      (∀ message, P (.aborted t.name message)) → Plays limits P (t :: ts) n d e

theorem run_updateAll (hs : s.Sole id) (h : Plays s.limits P ts n d e) :
    ∃ o u, P o ∧ u.Sole id ∧ Worked s u ∧
      (updateAll id g ts n s).run d = (u.finish id g o).run e := by
  generalize hlimits : s.limits = calls at h
  induction h generalizing s with
  | done hP => exact ⟨_, s, hP, hs, .refl s, rfl⟩
  | @next t ts n d m e hupdate _ ih =>
    obtain ⟨z, u, ⟨k, rfl⟩, hu, hworked, hplay⟩ :=
      run_play (Q := fun z => ∃ k, z = .ok k) (c := t.update calls) hs fun x hx => by
        obtain ⟨k, hk⟩ := hupdate x hx
        exact ⟨_, ⟨k, rfl⟩, hk⟩
    obtain ⟨o, v, ho, hv, hrest, hrun⟩ := ih hu (hworked.limits_eq.trans hlimits)
    refine ⟨o, v, ho, hv, hworked.trans hrest, ?_⟩
    rw [updateAll, if_neg (by rw [hs.not_interrupted]; decide), hlimits, Routine.run_bind, hplay]
    exact hrun
  | @fails t ts n d e hupdate hP =>
    obtain ⟨z, u, ⟨y, hy, rfl⟩, hu, hworked, hplay⟩ :=
      run_play (Q := fun z => ∃ y, y ≠ RefreshError.cancelled ∧ z = .error y)
        (c := t.update calls) hs fun x hx => by
          obtain ⟨y, hy, hprompt⟩ := hupdate x hx
          exact ⟨_, ⟨y, hy, rfl⟩, hprompt⟩
    refine ⟨_, u, hP y.message, hu, hworked, ?_⟩
    rw [updateAll, if_neg (by rw [hs.not_interrupted]; decide), hlimits, Routine.run_bind, hplay]
    cases y with
    | cancelled => exact absurd rfl hy
    | source | cache => rfl

/-! ## The whole job -/

theorem run_keep {α : Type} {r : Keeper → Routine (α × Keeper)} {a : α} {k : Keeper}
    (h : (r s.keeper).run d = ((a, k), e)) : (s.keep r).run d = ((a, { s with keeper := k }), e) := by
  rw [keep, Routine.run_bind, h]
  rfl

/-- A job that has the lock gives it back when it is over. -/
theorem run_finish (id : Nat) {o : Ownership} (hown : s.keeper.ownership = o.acquired t)
    (hlock : d.FileOf s.keeper.lock.path t)
    (hremove : d.perform (.remove s.keeper.lock.path) = (.ok (), e)) (r : RefreshOutcome) :
    ∃ js, (s.finish id (o.acquired t).guard r).run d =
      (({ s with keeper := { s.keeper with jobs := js, ownership := (o.acquired t).cleared } } :
        Scheduler σ).setPhase id (.over (.outcome r)), e) := by
  let v := s.updateJob id fun j => j.setState (finalState r)
  have hlocked : (v.keeper.lock.release (o.acquired t) (o.acquired t).guard).run d =
      ((.ok true, (o.acquired t).cleared), e) := UpdateLock.run_release_acquired o hlock hremove
  have hrelease : (v.keeper.release (o.acquired t).guard).run d =
      ((.ok true, { v.keeper with ownership := (o.acquired t).cleared }), e) := by
    rw [Keeper.release, Routine.run_bind, show v.keeper.ownership = o.acquired t from hown, hlocked]
    rfl
  have hkeep := run_keep (s := v) (r := fun k => k.release (o.acquired t).guard) hrelease
  have hback : (v.giveBack (o.acquired t).guard).run d =
      ({ v with keeper := { v.keeper with ownership := (o.acquired t).cleared } }, e) := by
    rw [giveBack, Routine.run_bind, hkeep]
    rfl
  refine ⟨(v.updateJob id fun j => ((j.setState .lockReleased).finish).setState .idle).keeper.jobs,
    ?_⟩
  rw [finish, Routine.run_bind, hback]
  rfl

/-- The turn of a job that finds the lock free and need not wait for any update. -/
theorem run_begin {l : Place} {f : Disk} (hs : s.Sole id)
    (henter : d.enter s.keeper.lock.path.parent = .ok l)
    (hcreate : d.perform (.create s.keeper.lock.path) = (.ok t, m))
    (hplays : Plays s.limits P ts 0 m e) (hlock : e.FileOf s.keeper.lock.path t)
    (hremove : e.perform (.remove s.keeper.lock.path) = (.ok (), f)) :
    ∃ r js x o, P r ∧ (s.begin id ts).run d = (({ s with
      keeper := { s.keeper with
        jobs := js, ownership := (s.keeper.ownership.acquired t).cleared,
        monitor := s.keeper.monitor.arm s.keeper.elapsed id }
      executor := x, own := o } : Scheduler σ).setPhase id (.over (.outcome r)), f) := by
  have htry := UpdateLock.run_tryAcquire_free s.keeper.ownership henter hcreate
  have hacquire : (s.keeper.acquire).run d =
      ((.ok (some (s.keeper.ownership.acquired t).guard),
        { s.keeper with ownership := s.keeper.ownership.acquired t }), m) := by
    have hkeeper : (s.keeper.tryAcquire).run d =
        ((.ok (some (s.keeper.ownership.acquired t).guard),
          { s.keeper with ownership := s.keeper.ownership.acquired t }), m) := by
      rw [Keeper.tryAcquire, Routine.run_bind, htry]
      rfl
    rw [Keeper.acquire, Routine.run_bind, hkeeper]
    rfl
  -- The state in which the job begins to update its targets.
  let v : Scheduler σ := { s with
    keeper := { s.keeper with ownership := s.keeper.ownership.acquired t } }
  let w := v.updateJob id fun j => j.setState .lockAcquired
  let w' : Scheduler σ := { w with keeper := w.keeper.arm id }
  have hsole : (w'.updateJob id fun j => j.setState .running).Sole id := by
    have hw : w.Sole id := Sole.updateJob (s := v) (f := fun j => j.setState .lockAcquired)
      ⟨hs.job, hs.idle⟩ (fun _ => rfl) (fun _ => rfl) id
    exact Sole.updateJob (s := w') (f := fun j => j.setState .running) ⟨hw.job, hw.idle⟩
      (fun _ => rfl) (fun _ => rfl) id
  obtain ⟨r, u, hr, hu, ⟨js, x, o, rfl⟩, hupdates⟩ :=
    run_updateAll (g := (s.keeper.ownership.acquired t).guard) hsole hplays
  let u : Scheduler σ := { (w'.updateJob id fun j => j.setState .running) with
    keeper := { (w'.updateJob id fun j => j.setState .running).keeper with jobs := js }
    executor := x, own := o }
  have hacquired : u.keeper.ownership = s.keeper.ownership.acquired t := rfl
  obtain ⟨js', hfinish⟩ := run_finish id hacquired hlock hremove r
  refine ⟨r, js', x, o, hr, ?_⟩
  rw [begin, Routine.run_bind, run_keep hacquire]
  exact hupdates.trans hfinish

end Scheduler

end SensorCache
