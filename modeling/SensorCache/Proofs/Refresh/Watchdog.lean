import SensorCache.Proofs.Cache.Ownership
import SensorCache.Proofs.Refresh.Checks
import SensorCache.Proofs.Refresh.Keeping
import SensorCache.Refresh.Scheduler

/-!
# The watchdog never goes quiet

Jobs arm the monitor, others see to it that it is armed, it is disarmed, checks fire, jobs look at
the lock themselves, the time passes, and all the while lock files come and go (`Keeper.Story`). At
every point of every story one check at most is live, and it is the pending one; a firing that
leaves a lock behind leaves a check behind, too (`Keeper.armed_once`).
-/

namespace SensorCache

open Disk Time

variable {may : Conduct} {d e : Disk}

/-! ## What a check sees when it is alone -/

theorem Routine.ends_alone {α : Type} {r : Routine α} {a : α} :
    r.Ends (.among Eq) d a e ↔ r.run d = (a, e) := by
  induction r generalizing d with
  | done b =>
    rw [ends_done, run_done, Prod.mk.injEq]
    exact and_congr eq_comm eq_comm
  | step o next ih =>
    rw [ends_step]
    constructor
    · rintro ⟨x, m, ⟨_, rfl, hp⟩, hnext⟩
      have hrun := ih x |>.mp hnext
      rw [run, hp]
      exact hrun
    · intro hrun
      refine ⟨(d.perform o).1, (d.perform o).2, ⟨d, rfl, rfl⟩, ?_⟩
      exact (ih _).mpr hrun

namespace UpdateLock

variable {l : UpdateLock}

theorem run_isLocked (l : UpdateLock) (d : Disk) :
    l.isLocked.run d = (decide (d.Present l.path), d) := by
  rw [isLocked, Routine.run_bind, run_look]
  cases hview : d.view l.path with
  | ok n =>
    have hpresent : d.Present l.path := ⟨n, hview⟩
    simp [hpresent, Except.toOption]
  | error x =>
    have habsent : ¬d.Present l.path := by
      rintro ⟨n, hn⟩
      rw [hview] at hn
      cases hn
    simp [habsent, Except.toOption]

theorem run_ageAt (l : UpdateLock) (now : Instant) (d : Disk) :
    (l.ageAt now).run d = ((d.view l.path).toOption.map fun n => now.since n.modified, d) := by
  rw [ageAt, Routine.run_bind, run_look]
  rfl

/-- A removal tells truly whether a lock that was there is gone. -/
theorem present_of_run_remove (hd : d.Present l.path) {x : Except OsError Bool}
    (h : l.remove.run d = (x, e)) :
    x = .ok true ∧ ¬e.Present l.path ∨ x ≠ .ok true ∧ e.Present l.path := by
  rcases hp : d.perform (.remove l.path) with ⟨y, m⟩
  rw [remove, Attempt.run_bind_ok (run_unlink hp)] at h
  cases y with
  | ok u =>
    cases h
    exact .inl ⟨rfl, (remove_of_ok hp).2⟩
  | error y =>
    have hm : m = d := remove_of_error hp
    subst hm
    right
    cases y <;> cases h <;> exact ⟨by simp, hd⟩

end UpdateLock

/-- A check that nobody interferes with tells truly whether there was a lock and whether it is
gone. -/
theorem Monitor.report_of_run {m : Monitor} {l : UpdateLock} {o o' : Ownership}
    {job : Option JobHandle} {now : Instant} {r : MonitorReport}
    (h : (m.checkAt l o job now).run d = ((r, o'), e)) :
    (r.lockPresent = true ↔ d.Present l.path) ∧
      (r.lockRemoved = true ↔ d.Present l.path ∧ ¬e.Present l.path) := by
  unfold checkAt at h
  rw [Routine.run_bind, UpdateLock.run_isLocked] at h
  by_cases hd : d.Present l.path
  · simp only [hd, decide_true, if_true, Routine.run_bind, UpdateLock.run_ageAt] at h
    have hclock : Disk.now.run d = (d.clock, d) := rfl
    rw [hclock] at h
    have hkept : ∀ {b : Bool}, ((⟨true, b, false⟩, o), d) = ((r, o'), e) →
        (r.lockPresent = true ↔ d.Present l.path) ∧
          (r.lockRemoved = true ↔ d.Present l.path ∧ ¬e.Present l.path) := by
      intro b heq
      cases heq
      simp [hd]
    dsimp only at h
    split at h
    · split at h
      · rcases hx : l.remove.run d with ⟨x, m⟩
        rw [Routine.run_bind, UpdateLock.run_forceRelease, hx] at h
        rcases UpdateLock.present_of_run_remove hd hx with ⟨rfl, hgone⟩ | ⟨hfailed, hstays⟩
        · cases h
          simp [hd, hgone]
        · cases x with
          | ok b =>
            cases h
            simpa [hd, hstays] using hfailed
          | error y =>
            cases h
            simp [hd, hstays]
      · exact hkept h
    · exact hkept h
  · simp only [hd, decide_false, Bool.false_eq_true, if_false] at h
    cases h
    simp [hd]

namespace Keeper

variable {k k' : Keeper} {lock : UpdateLock} {settings : MonitorSettings} {requests : Bool}
  {i : Nat} {r : MonitorReport} {o : Ownership} {now : Instant}

/-! ## Firings -/

/-- After a report: who is set to asks for a refresh in the place of one whose lock was removed. -/
def askedAfter (k : Keeper) (r : MonitorReport) : Keeper :=
  if r.lockRemoved && k.requestsRefresh then { k with trigger := k.trigger.request } else k

/-- After a report: a lock that is still there will be looked at again. -/
def armedAfter (k : Keeper) (r : MonitorReport) : Keeper :=
  if r.lockPresent && !r.lockRemoved && !k.stopped then
    { k with monitor := k.monitor.reschedule k.elapsed }
  else k

/-- A check that can still come to run may fire with a report. -/
def Fires (may : Conduct) (i : Nat) (r : MonitorReport) (k : Keeper) (d : Disk) (k' : Keeper)
    (e : Disk) : Prop :=
  k.monitor.checks.isLive i = true ∧ ∃ k₁,
    (Keeper.check { k with monitor := k.monitor.begin i }).Ends may d (r, k₁) e ∧
      k' = (k₁.askedAfter r).armedAfter r

/-- A check whose time has come fires, if it was not cancelled. -/
theorem ends_fire_iff : (k.fire i).Ends may d k' e ↔
    (∃ r, Fires may i r k d k' e) ∨ k.monitor.checks.isLive i = false ∧ k' = k ∧ e = d := by
  have hafter (k₁ : Keeper) (r : MonitorReport) :
      (if r.lockPresent && !r.lockRemoved && !k₁.stopped then
        (pure { k₁ with monitor := k₁.monitor.reschedule k₁.elapsed } : Routine Keeper)
      else pure k₁) = pure (k₁.armedAfter r) := (apply_ite pure _ _ _).symm
  unfold fire
  cases hlive : k.monitor.checks.isLive i with
  | false =>
    simp only [Bool.not_false, if_true, Routine.ends_pure, Fires, hlive, Bool.false_eq_true,
      false_and, exists_false, false_or, true_and]
  | true =>
    simp only [Bool.not_true, Bool.false_eq_true, if_false, Routine.ends_seq, Prod.exists, Fires,
      hlive, true_and, reduceCtorEq, false_and, or_false]
    refine exists_congr fun r => ?_
    constructor
    · rintro ⟨k₁, m, hcheck, hend⟩
      obtain ⟨rfl, rfl⟩ := Routine.ends_pure.mp (hafter (k₁.askedAfter r) r ▸ hend)
      exact ⟨k₁, hcheck, rfl⟩
    · rintro ⟨k₁, hcheck, rfl⟩
      refine ⟨k₁, e, hcheck, ?_⟩
      exact (hafter (k₁.askedAfter r) r).symm ▸ Routine.ends_pure.mpr ⟨rfl, rfl⟩

/-- The keeper has the same checks, and the same that decides on further ones. -/
structure SameChecks (k k' : Keeper) : Prop where
  settings : k'.monitor.settings = k.monitor.settings
  checks : k'.monitor.checks = k.monitor.checks
  pending : k'.monitor.pending = k.monitor.pending
  requests : k'.requestsRefresh = k.requestsRefresh
  elapsed : k'.elapsed = k.elapsed
  stopped : k'.stopped = k.stopped

theorem SameChecks.watched (h : SameChecks k k') (hk : k.Watched) : k'.Watched := by
  obtain ⟨hsettings, hchecks, hpending, -, helapsed, hstopped⟩ := h
  obtain ⟨⟨hnumbered, hpend, hdue, hstop⟩, hsame⟩ := hk
  constructor
  · rw [helapsed]
    constructor
    · rwa [hchecks]
    · rwa [hchecks, hpending]
    · rwa [hchecks, hsettings]
    · rwa [hchecks]
  · rwa [hchecks, hstopped]

theorem sameChecks_reported (k : Keeper) (r : MonitorReport) (o : Ownership) :
    SameChecks k (k.reported r o) ∧ (k.reported r o).trigger = k.trigger := by
  have hrecord : (k.monitor.record r).settings = k.monitor.settings ∧
      (k.monitor.record r).checks = k.monitor.checks ∧
      (k.monitor.record r).pending = k.monitor.pending := by
    unfold Monitor.record
    split <;> exact ⟨rfl, rfl, rfl⟩
  obtain ⟨hsettings, hchecks, hpending⟩ := hrecord
  unfold reported
  dsimp only
  split
  · split <;> exact ⟨⟨hsettings, hchecks, hpending, rfl, rfl, rfl⟩, rfl⟩
  · exact ⟨⟨hsettings, hchecks, hpending, rfl, rfl, rfl⟩, rfl⟩

/-- Looking at the lock schedules no check and cancels none. -/
theorem sameChecks_of_checkAt (h : (k.checkAt now).Ends may d (r, k') e) :
    SameChecks k k' ∧ k'.trigger = k.trigger := by
  obtain ⟨⟨r', o⟩, m, -, hend⟩ := Routine.ends_seq.mp h
  obtain ⟨heq, rfl⟩ := Routine.ends_pure.mp hend
  cases heq
  exact sameChecks_reported k r o

theorem sameChecks_of_check (h : k.check.Ends may d (r, k') e) :
    SameChecks k k' ∧ k'.trigger = k.trigger := by
  obtain ⟨now, m, -, hcheck⟩ := Routine.ends_seq.mp h
  exact sameChecks_of_checkAt hcheck

theorem sameChecks_askedAfter (k : Keeper) (r : MonitorReport) :
    SameChecks k (k.askedAfter r) := by
  unfold askedAfter
  split <;> exact ⟨rfl, rfl, rfl, rfl, rfl, rfl⟩

theorem requests_request (t : Trigger) : t.request.requests = t.requests + 1 := by
  unfold Trigger.request
  split <;> rfl

theorem requests_askedAfter (k : Keeper) (r : MonitorReport) :
    (k.askedAfter r).trigger.requests =
      k.trigger.requests + if r.lockRemoved && k.requestsRefresh then 1 else 0 := by
  unfold askedAfter
  split
  · exact requests_request k.trigger
  · rfl

theorem trigger_armedAfter (k : Keeper) (r : MonitorReport) :
    (k.armedAfter r).trigger = k.trigger := by
  unfold armedAfter
  split <;> rfl

theorem Watched.armedAfter (h : k.Watched) (r : MonitorReport) : (k.armedAfter r).Watched := by
  unfold Keeper.armedAfter
  split
  · exact h.reschedule
  · exact h

/-- What a firing has come to, up to the check that may follow: no check is live, and a refresh is
asked for if a lock was removed. -/
structure Fired (k : Keeper) (r : MonitorReport) (k₁ : Keeper) : Prop where
  watched : k₁.Watched
  live : k₁.monitor.checks.live = []
  stopped : k₁.stopped = false
  elapsed : k₁.elapsed = k.elapsed
  settings : k₁.monitor.settings = k.monitor.settings
  requests : k₁.requestsRefresh = k.requestsRefresh
  asked : k₁.trigger.requests =
    k.trigger.requests + if r.lockRemoved && k.requestsRefresh then 1 else 0

theorem Fires.fired (hk : k.Watched) (h : Fires may i r k d k' e) :
    ∃ k₁, Fired k r k₁ ∧ k' = k₁.armedAfter r := by
  obtain ⟨hlive, k₁, hcheck, rfl⟩ := h
  obtain ⟨hsame, htrigger⟩ := sameChecks_of_check hcheck
  have hasked := sameChecks_askedAfter k₁ r
  have hstopped : k.stopped = false := by
    rw [← Bool.not_eq_true]
    intro hstopped
    obtain ⟨t, ht, -⟩ := Delayed.exists_of_isLive hlive
    rw [hk.live_of_stopped hstopped] at ht
    cases ht
  refine ⟨k₁.askedAfter r, ⟨hasked.watched (hsame.watched (hk.begin hlive)), ?_, ?_, ?_, ?_, ?_, ?_⟩,
    rfl⟩
  · rw [hasked.checks, hsame.checks]
    exact Monitor.live_begin hk.sound hlive
  · rw [hasked.stopped, hsame.stopped]
    exact hstopped
  · rw [hasked.elapsed, hsame.elapsed]
  · rw [hasked.settings, hsame.settings]
    rfl
  · rw [hasked.requests, hsame.requests]
  · rw [requests_askedAfter, htrigger, hsame.requests]

/-! ## Stories -/

/-- What may happen to a keeper's checks, and meanwhile to the disk. -/
inductive Step : Keeper → Disk → Keeper → Disk → Prop where
  | arm {k : Keeper} {d : Disk} (job : Nat) : Step k d (k.arm job) d
  | ensureArmed {k : Keeper} {d : Disk} : Step k d k.ensureArmed d
  | disarm {k : Keeper} {d : Disk} : Step k d k.disarm d
  /-- The scheduler shuts down. -/
  | stop {k : Keeper} {d : Disk} : Step k d k.stop.disarm d
  | pass {k : Keeper} {d : Disk} (t : Span) : Step k d { k with elapsed := k.elapsed + t } d
  /-- A check has its time, whatever others do meanwhile. -/
  | fire {may : Conduct} {k k' : Keeper} {d e : Disk} {i : Nat} :
    (k.fire i).Ends may d k' e → Step k d k' e
  /-- A job looks at the lock. -/
  | look {may : Conduct} {k k' : Keeper} {d e : Disk} {now : Instant} {r : MonitorReport} :
    (k.checkAt now).Ends may d (r, k') e → Step k d k' e
  /-- Lock files come and go, and all else of the keeper changes. -/
  | others {k k' : Keeper} {d e : Disk} : SameChecks k k' → Step k d k' e

/-- What a keeper may come to. -/
inductive Story (lock : UpdateLock) (settings : MonitorSettings) (requests : Bool) :
    Keeper → Disk → Prop where
  | begins (d : Disk) : Story lock settings requests (new lock settings requests) d
  | goes {k k' : Keeper} {d e : Disk} : Story lock settings requests k d → Step k d k' e →
    Story lock settings requests k' e

theorem Step.watched (h : Step k d k' e) (hk : k.Watched) : k'.Watched := by
  cases h with
  | arm job => exact hk.arm job
  | ensureArmed => exact hk.ensureArmed
  | disarm => exact hk.disarm
  | stop => exact hk.stop.disarm
  | pass t => exact hk.passes t
  | fire h =>
    rcases ends_fire_iff.mp h with ⟨r, hfires⟩ | ⟨-, rfl, -⟩
    · obtain ⟨k₁, hfired, rfl⟩ := hfires.fired hk
      exact hfired.watched.armedAfter r
    · exact hk
  | look h => exact (sameChecks_of_checkAt h).1.watched hk
  | others h => exact h.watched hk

theorem armedAfter_eq (k : Keeper) (r : MonitorReport) :
    (k.armedAfter r).monitor.settings = k.monitor.settings ∧
      (k.armedAfter r).requestsRefresh = k.requestsRefresh ∧ (k.armedAfter r).elapsed = k.elapsed := by
  unfold armedAfter
  split
  · exact ⟨(cancelPending_eq k.monitor).1, rfl, rfl⟩
  · exact ⟨rfl, rfl, rfl⟩

theorem Step.same_settings (h : Step k d k' e) (hk : k.Watched) :
    k'.monitor.settings = k.monitor.settings ∧ k'.requestsRefresh = k.requestsRefresh := by
  cases h with
  | arm job => exact ⟨(alike_arm k job).same.settings, rfl⟩
  | ensureArmed => exact ⟨(alike_ensureArmed k).same.settings, rfl⟩
  | disarm => exact ⟨(cancelPending_eq k.monitor).1, rfl⟩
  | stop => exact ⟨(cancelPending_eq k.monitor.stop).1, rfl⟩
  | pass t => exact ⟨rfl, rfl⟩
  | fire h =>
    rcases ends_fire_iff.mp h with ⟨r, hfires⟩ | ⟨-, rfl, -⟩
    · obtain ⟨k₁, hfired, rfl⟩ := hfires.fired hk
      obtain ⟨hsettings, hrequests, -⟩ := armedAfter_eq k₁ r
      exact ⟨hsettings.trans hfired.settings, hrequests.trans hfired.requests⟩
    · exact ⟨rfl, rfl⟩
  | look h =>
    have hsame := (sameChecks_of_checkAt h).1
    exact ⟨hsame.settings, hsame.requests⟩
  | others h => exact ⟨h.settings, h.requests⟩

/-- What holds throughout a story. -/
theorem Story.watched (h : Story lock settings requests k d) :
    k.Watched ∧ k.monitor.settings = settings ∧ k.requestsRefresh = requests := by
  induction h with
  | begins d => exact ⟨watched_new lock settings requests, rfl, rfl⟩
  | goes _ hstep ih =>
    obtain ⟨hk, hsettings, hrequests⟩ := ih
    obtain ⟨hsettings', hrequests'⟩ := hstep.same_settings hk
    exact ⟨hstep.watched hk, hsettings'.trans hsettings, hrequests'.trans hrequests⟩

/-- **The watchdog is armed once.** At every point of every story at most one check is live, which
is the pending one, and after a shutdown none is. Before it, arming leaves a single check that is due
within the delay. A check that has its time does nothing if it is not live, and else makes a report
(`Fires`): if that found the lock and did not remove it, a single check is left again, and else none.
A refresh is asked for, if the keeper is set to, when a lock was removed and only then. -/
theorem armed_once (h : Story lock settings requests k d) :
    (k.monitor.checks.live.length ≤ 1 ∧
      ∀ t ∈ k.monitor.checks.live, k.monitor.pending = some t.id) ∧
    k.monitor.settings = settings ∧
    (k.stopped = false → (∀ job, (k.arm job).monitor.Sole k.elapsed) ∧
      k.ensureArmed.monitor.Sole k.elapsed) ∧
    (∀ may i k' e, (k.fire i).Ends may d k' e ↔
      (∃ r, Fires may i r k d k' e) ∨ k.monitor.checks.isLive i = false ∧ k' = k ∧ e = d) ∧
    (∀ may i r k' e, Fires may i r k d k' e →
      (r.lockPresent = true ∧ r.lockRemoved = false → k'.monitor.Sole k.elapsed) ∧
      (r.lockPresent = false ∨ r.lockRemoved = true → k'.monitor.checks.live = []) ∧
      k'.trigger.requests =
        k.trigger.requests + if r.lockRemoved && requests then 1 else 0) ∧
    (∀ i r k' e, Fires (.among Eq) i r k d k' e →
      (r.lockPresent = true ↔ d.Present k.lock.path) ∧
      (r.lockRemoved = true ↔ d.Present k.lock.path ∧ ¬e.Present k.lock.path)) ∧
    k.disarm.monitor.checks.live = [] ∧ k.stop.disarm.monitor.checks.live = [] ∧
    (k.stopped = true → k.monitor.checks.live = []) := by
  obtain ⟨hk, hsettings, rfl⟩ := h.watched
  refine ⟨⟨hk.sound.length_live, hk.sound.pending⟩, hsettings, fun hstopped => ?_,
    fun may i k' e => ends_fire_iff, ?_, ?_, Monitor.live_cancelPending hk.sound,
    Monitor.live_cancelPending hk.stop.sound, hk.live_of_stopped⟩
  · exact ⟨sole_arm hk hstopped, Monitor.sole_ensureArmed hk.sound (hk.stopped.trans hstopped)⟩
  · intro may i r k' e hfires
    obtain ⟨k₁, hfired, rfl⟩ := hfires.fired hk
    refine ⟨fun ⟨hpresent, hremoved⟩ => ?_, fun hnone => ?_, ?_⟩
    · have harmed : k₁.armedAfter r = { k₁ with monitor := k₁.monitor.reschedule k₁.elapsed } := by
        unfold armedAfter
        rw [hpresent, hremoved, hfired.stopped]
        rfl
      rw [harmed, ← hfired.elapsed]
      exact Monitor.sole_reschedule hfired.watched.sound
        (hfired.watched.stopped.trans hfired.stopped)
    · have harmed : k₁.armedAfter r = k₁ := by
        unfold armedAfter
        rcases hnone with hnone | hnone <;> rw [hnone] <;> simp
      rw [harmed]
      exact hfired.live
    · rw [trigger_armedAfter]
      exact hfired.asked
  · intro i r k' e hfires
    obtain ⟨-, k₁, hcheck, rfl⟩ := hfires
    obtain ⟨now, m, hnow, hcheckAt⟩ := Routine.ends_seq.mp hcheck
    obtain ⟨⟨r', o⟩, n, hx, hend⟩ := Routine.ends_seq.mp hcheckAt
    obtain ⟨heq, rfl⟩ := Routine.ends_pure.mp hend
    cases heq
    have hm := Routine.ends_alone.mp hnow
    cases hm
    exact Monitor.report_of_run (Routine.ends_alone.mp hx)

/-- Somebody else's lock, in whose way a job came half a day ago. -/
def onGuard : Keeper :=
  { (new ⟨⟨"cache.lock"⟩⟩ {} true).ensureArmed with elapsed := .zero + .ofSeconds 43200 }

def locked : Disk := ⟨[(["cache.lock"], .file .empty ⟨0⟩)], [], ⟨0⟩⟩

/-- The check whose time has come finds the lock, which is not too old by the clock, and leaves
another. -/
theorem armed_once_onGuard :
    ∃ r k' e, (onGuard.fire 0).Ends (.among Eq) locked k' e ∧
      Fires (.among Eq) 0 r onGuard locked k' e ∧ r.lockPresent = true ∧
      r.lockRemoved = false ∧ k'.monitor.Sole onGuard.elapsed ∧ k'.monitor.pending = some 1 ∧
      k'.trigger.requests = 0 := by
  have hstory : Story ⟨⟨"cache.lock"⟩⟩ {} true onGuard locked :=
    ((Story.begins locked).goes .ensureArmed).goes (.pass (.ofSeconds 43200))
  obtain ⟨-, -, -, hends, hfires, -⟩ := armed_once hstory
  have hfire : Fires (.among Eq) 0 ⟨true, false, false⟩ onGuard locked
      { onGuard with monitor := (onGuard.monitor.begin 0).reschedule onGuard.elapsed } locked :=
    ⟨by decide, { onGuard with monitor := onGuard.monitor.begin 0 },
      Routine.ends_alone.mpr rfl, rfl⟩
  obtain ⟨hsole, -, hrequests⟩ := hfires _ _ _ _ _ hfire
  exact ⟨_, _, _, (hends _ _ _ _).mpr (.inl ⟨_, hfire⟩), hfire, rfl, rfl, hsole ⟨rfl, rfl⟩, by decide,
    hrequests⟩

end Keeper
end SensorCache
