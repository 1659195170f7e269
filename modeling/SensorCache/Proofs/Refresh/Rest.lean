import SensorCache.Proofs.Disk.Elsewhere
import SensorCache.Proofs.Refresh.SoleJob
import SensorCache.Proofs.Time.Firings
import SensorCache.Refresh.Simulation

/-!
# Schedulers at rest

When all jobs are over, the lock is given back and nobody has asked for a refresh, a scheduler has
nothing to do but to let its loop begin to listen, or stop (`AtRest`). Letting it settle or shutting
it down then changes neither what became of the jobs nor any file.
-/

namespace SensorCache

open Disk Time

/-! ## Checks to come -/

namespace Delayed

variable {x : Delayed} {i : Nat} {t : Span}

theorem next_of_foldl {ts : List DelayedTask} {a : Option (Nat × Span)} {c : Nat × Span}
    (h : ts.foldl sooner a = some c) : a = some c ∨ ∃ t ∈ ts, t.next? = some c.2 := by
  induction ts generalizing a with
  | nil => exact .inl h
  | cons t ts ih =>
    rcases ih h with hc | ⟨u, hu, hnext⟩
    · -- What is the sooner of two is one of them.
      unfold sooner at hc
      split at hc
      · next hd =>
        cases hc
        exact .inr ⟨t, List.mem_cons_self, hd⟩
      · next hd =>
        split at hc
        · cases hc
          exact .inr ⟨t, List.mem_cons_self, hd⟩
        · exact .inl hc
      · exact .inl hc
    · exact .inr ⟨u, List.mem_cons_of_mem t hu, hnext⟩

/-- What happens next happens to one of the tasks. -/
theorem exists_of_next? {c : Nat × Span} (h : x.next? = some c) :
    ∃ t ∈ x.tasks, t.next? = some c.2 := (next_of_foldl h).resolve_left (nomatch ·)

/-- Nothing happens to any task up to `now`. -/
def After (x : Delayed) (now : Span) : Prop := ∀ t ∈ x.tasks, ∀ due, t.next? = some due → ¬due ≤ now

theorem next_of_cancel {t : DelayedTask} {due : Span} (h : t.cancel.next? = some due) :
    t.next? = some due := by
  unfold DelayedTask.cancel at h
  split at h
  · cases h
  · exact h

theorem After.cancel (h : x.After t) (i : Nat) : (x.cancel i).After t := by
  intro u hu due hdue
  obtain ⟨v, hv, rfl⟩ := List.mem_map.mp hu
  split at hdue
  · exact h v hv due (next_of_cancel hdue)
  · exact h v hv due hdue

theorem After.stop (h : x.After t) : x.stop.After t := by
  intro u hu due hdue
  obtain ⟨v, hv, rfl⟩ := List.mem_map.mp hu
  exact h v hv due (next_of_cancel hdue)

theorem after_schedule_new {due length : Span} (h : ¬due ≤ t) :
    (Delayed.new.schedule none due length).After t := by
  intro u hu d hd
  obtain rfl := List.mem_singleton.mp hu
  cases hd
  exact h

end Delayed

namespace Scheduler

variable {σ : Type} {s u : Scheduler σ} {d : Disk}

/-! ## Nothing to do -/

/-- All jobs are over, nothing is held or asked for, and what is to come lies ahead. -/
structure AtRest (s : Scheduler σ) : Prop where
  ended : ∀ t ∈ s.tasks, t.end?.isSome = true
  free : s.keeper.ownership.holding = none
  calm : s.keeper.trigger.pending = false
  checks : s.keeper.monitor.checks.After s.keeper.elapsed
  waits : ∀ m due, s.loop = .listening m due → ¬due ≤ s.keeper.elapsed

/-- Who is at rest gives a turn to its loop at most. -/
theorem AtRest.turn (h : s.AtRest) : s.turn? = none ∨ s.turn? = some .loop := by
  have hjobs : s.tasks.find? s.jobReady = none := by
    rw [List.find?_eq_none]
    intro t ht
    have hover := h.ended t ht
    unfold JobTask.end? at hover
    unfold jobReady
    split at hover <;> simp_all
  have hcheck : s.dueCheck? = none := by
    unfold dueCheck? Keeper.dueCheck?
    cases hn : s.keeper.monitor.checks.next? with
    | none => rfl
    | some c =>
      obtain ⟨t, ht, hdue⟩ := Delayed.exists_of_next? hn
      simp [h.checks t ht c.2 hdue]
  unfold turn?
  rw [hjobs, hcheck]
  dsimp only
  split
  · exact .inr rfl
  · exact .inl rfl

theorem AtRest.listen (h : s.AtRest) {z : Zone} {t : TimeOfDay} {m : Moment}
    (hnext : nextFiring? z d.clock.toMoment t s.jitter = some m) :
    ∃ u, (s.listen m).run d = (u, d) ∧ u.AtRest ∧ u.tasks = s.tasks := by
  refine ⟨_, rfl, ⟨h.ended, h.free, h.calm, h.checks, ?_⟩, rfl⟩
  intro n due hdue
  cases hdue
  exact not_due_of_nextFiring? hnext s.keeper.elapsed

/-- The turn of the loop leaves all as it is, files too. -/
theorem AtRest.run_loopTurn (h : s.AtRest) (d : Disk) :
    ∃ u, s.loopTurn.run d = (u, d) ∧ u.AtRest ∧ u.tasks = s.tasks := by
  cases hl : s.loop with
  | stopped =>
    refine ⟨s, ?_, h, rfl⟩
    rw [loopTurn, hl]
    rfl
  | starting =>
    have hturn : s.loopTurn.run d = (s.listenAfter d.clock.toMoment).run d := by
      rw [loopTurn, hl]
      rfl
    rw [hturn, listenAfter]
    cases hn : nextFiring? s.zone d.clock.toMoment s.settings.updateTime s.jitter with
    | some m => exact h.listen hn
    | none => exact ⟨_, rfl, ⟨h.ended, h.free, h.calm, h.checks, nofun⟩, rfl⟩
  | listening m due =>
    cases hstopped : s.keeper.stopped with
    | true =>
      refine ⟨{ s with loop := .stopped }, ?_, ⟨h.ended, h.free, h.calm, h.checks, nofun⟩, rfl⟩
      rw [loopTurn, hl]
      dsimp only
      rw [if_pos hstopped]
      rfl
    | false =>
      refine ⟨s, ?_, h, rfl⟩
      have hanswer : s.keeper.trigger.answer? = none := by simp [Trigger.answer?, h.calm]
      rw [loopTurn, hl]
      dsimp only
      rw [if_neg (by simp [hstopped]), hanswer]
      dsimp only
      rw [if_neg (h.waits m due hl)]
      rfl

theorem AtRest.stop (h : s.AtRest) : s.stop.AtRest := by
  refine ⟨h.ended, h.free, h.calm, ?_, h.waits⟩
  show (s.keeper.monitor.stop.disarm).checks.After s.keeper.elapsed
  unfold Monitor.disarm Monitor.cancelPending
  split
  · exact h.checks.stop.cancel _
  · exact h.checks.stop

/-- There is no lock to give back. -/
theorem AtRest.run_releaseLeft (h : s.AtRest) (d : Disk) :
    ∃ u, s.releaseLeft.run d = (u, d) ∧ u.tasks = s.tasks := by
  refine ⟨{ s with keeper := { s.keeper with ownership := s.keeper.ownership.cleared } }, ?_, rfl⟩
  have hgive : (s.keeper.lock.giveBack s.keeper.ownership.holding).outcome.run d =
      (.ok false, d) := by
    rw [h.free]
    rfl
  have hkeeper : s.keeper.releaseIfHeld.run d =
      ((.ok false, { s.keeper with ownership := s.keeper.ownership.cleared }), d) := by
    rw [Keeper.releaseIfHeld, UpdateLock.releaseIfHeld, Routine.run_bind, Routine.run_bind, hgive]
    rfl
  rw [releaseLeft, Routine.run_bind, run_keep (r := Keeper.releaseIfHeld) hkeeper]
  rfl

end Scheduler

/-! ## Letting it settle -/

namespace Simulation

variable {σ : Type} {x : Simulation σ} {n : Nat}

/-- From `x` to `y` no job came or went on, and no file changed. -/
structure Rested (x y : Simulation σ) : Prop where
  tasks : y.scheduler.tasks = x.scheduler.tasks
  disk : Elsewhere [] x.disk y.disk

theorem Rested.trans {y z : Simulation σ} (h : Rested x y) (k : Rested y z) : Rested x z :=
  ⟨k.tasks.trans h.tasks, h.disk.trans k.disk⟩

theorem Rested.end?_eq {y : Simulation σ} (h : Rested x y) (id : Nat) :
    y.scheduler.end? id = x.scheduler.end? id := by
  unfold Scheduler.end? Scheduler.task?
  rw [h.tasks]

theorem rested_step {e : SchedulerEvent} {u : Scheduler σ}
    (h : (x.scheduler.step e).run x.disk = (u, x.disk)) (htasks : u.tasks = x.scheduler.tasks) :
    (x.step e).scheduler = u ∧ Rested x (x.step e) := by
  have hstep : x.step e = ⟨u, x.disk.tick ⟨1000⟩⟩ := by
    unfold step
    rw [h]
  rw [hstep]
  exact ⟨rfl, htasks, .tick [] x.disk ⟨1000⟩⟩

theorem rested_settle (n : Nat) (h : x.scheduler.AtRest) :
    (x.settle n).scheduler.AtRest ∧ Rested x (x.settle n) := by
  induction n generalizing x with
  | zero => exact ⟨h, rfl, .refl [] x.disk⟩
  | succ n ih =>
    unfold settle
    rcases h.turn with hturn | hturn
    · rw [hturn]
      exact ⟨h, rfl, .refl [] x.disk⟩
    · rw [hturn]
      obtain ⟨u, hrun, hrest, htasks⟩ := h.run_loopTurn x.disk
      obtain ⟨hu, hstep⟩ := rested_step (e := .loop) hrun htasks
      obtain ⟨hend, hrested⟩ := ih (x := x.step .loop) (hu ▸ hrest)
      exact ⟨hend, hstep.trans hrested⟩

/-- Nobody is waited for. -/
theorem rested_shutdown (turns : Nat) (h : x.scheduler.AtRest) : Rested x (x.shutdown turns).2 := by
  obtain ⟨hu, hstop⟩ := rested_step (x := x) (e := .stop) (u := x.scheduler.stop) rfl rfl
  obtain ⟨hend, hsettle⟩ := rested_settle turns (x := x.step .stop) (hu ▸ h.stop)
  have hidle : ((x.step .stop).settle turns).scheduler.running.isEmpty = true := by
    rw [List.isEmpty_iff, Scheduler.running, List.filter_eq_nil_iff]
    intro t ht hnone
    rw [Option.isNone_iff_eq_none] at hnone
    have hover := hend.ended t ht
    rw [hnone] at hover
    cases hover
  have hawait : awaitStop turns 100 0 ((x.step .stop).settle turns) =
      (0, (x.step .stop).settle turns) := by
    rw [awaitStop, if_pos hidle]
  obtain ⟨u, hrun, htasks⟩ := hend.run_releaseLeft ((x.step .stop).settle turns).disk
  have hshutdown : (x.shutdown turns).2 = ((x.step .stop).settle turns).step .releaseLeft := by
    rw [shutdown, hawait]
  rw [hshutdown]
  exact (hstop.trans hsettle).trans (rested_step (e := .releaseLeft) hrun htasks).2

/-- A job that comes to its end in its first turn is not waited for any longer. -/
theorem runJob_of_over {id : Nat} {j : JobEnd} {u : Scheduler σ} {e : Disk}
    (hturn : x.scheduler.turn? = some (.job id))
    (hrun : (x.scheduler.jobTurn id).run x.disk = (u, e)) (hu : u.AtRest)
    (hend : u.end? id = some j) (hn : 0 < n) :
    (runJob n n id x).scheduler.AtRest ∧ (runJob n n id x).scheduler.end? id = some j ∧
      Elsewhere [] e (runJob n n id x).disk := by
  obtain ⟨n, rfl⟩ := Nat.exists_eq_add_of_le' hn
  have hstep : x.step (.job id) = ⟨u, e.tick ⟨1000⟩⟩ := by
    have hrun' : (x.scheduler.step (.job id)).run x.disk = (u, e) := hrun
    unfold step
    rw [hrun']
  obtain ⟨hrest, hrested⟩ := rested_settle n (x := ⟨u, e.tick ⟨1000⟩⟩) hu
  have hover : (settle n ⟨u, e.tick ⟨1000⟩⟩).scheduler.end? id = some j :=
    (hrested.end?_eq id).trans hend
  have hrunJob : runJob (n + 1) (n + 1) id x = settle n ⟨u, e.tick ⟨1000⟩⟩ := by
    rw [runJob, settle, hturn]
    dsimp only
    rw [hstep, hover]
  rw [hrunJob]
  exact ⟨hrest, hover, (Elsewhere.tick [] e ⟨1000⟩).trans hrested.disk⟩

end Simulation

end SensorCache
