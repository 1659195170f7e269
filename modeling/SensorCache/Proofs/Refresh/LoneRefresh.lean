import SensorCache.CommandLine.Simulated
import SensorCache.Proofs.Refresh.Rest

/-!
# One refresh from its start to its end

A scheduler that starts when the lock is free, and is asked for a refresh at once, has that one job.
If no update has to wait, the job is over after its first turn, the scheduler is at rest then, and
the report is that of the job's outcome.
-/

namespace SensorCache

open Disk Time

variable {σ : Type} {d e f m : Disk} {t : Instant} {P : RefreshOutcome → Prop}

namespace Scheduler

variable {k : Keeper} {own : σ} {settings : ScheduleSettings} {jitter : Span} {zone : Zone}
  {targets : List (Target σ)}

/-- A scheduler that was told of a lock that is free and has only one job, which has not begun. -/
def launched (k : Keeper) (own : σ) (settings : ScheduleSettings) (jitter : Span) (zone : Zone)
    (targets : List (Target σ)) (now : Instant) : Scheduler σ :=
  ⟨k.addJob 1 now, .new, own, settings, jitter, zone, targets, [⟨1, .queued targets⟩], .starting,
    none⟩

theorem run_start_of_missing (k : Keeper) (own : σ) (jitter : Span) (zone : Zone)
    (targets : List (Target σ)) (hfree : d.Missing k.lock.path)
    (h : settings.updateOnStartup = false) :
    (start k own settings jitter zone targets).run d =
      (⟨k, .new, own, settings, jitter, zone, targets, [], .starting, none⟩, d) := by
  rw [start, Routine.run_bind, UpdateLock.run_isLocked_of_missing hfree, h]
  rfl

theorem sole_launched {lock : UpdateLock} {monitor : MonitorSettings} (now : Instant) :
    (launched (.new lock monitor true) own settings jitter zone targets now).Sole 1 :=
  ⟨⟨.new 1 now, rfl, rfl, rfl⟩, rfl⟩

/-- The only job of a scheduler is over after its first turn, and all is at rest. -/
theorem run_jobTurn_launched (own : σ) (jitter : Span) (zone : Zone) (now : Instant)
    {lock : UpdateLock} {monitor : MonitorSettings} {l : Place} (hdelay : 0 < monitor.delay.nanos)
    (henter : d.enter lock.path.parent = .ok l)
    (hcreate : d.perform (.create lock.path) = (.ok t, m))
    (hplays : Plays ⟨settings.callTimeout, settings.streamingTimeout⟩ P targets 0 m e)
    (hlock : e.FileOf lock.path t) (hremove : e.perform (.remove lock.path) = (.ok (), f)) :
    ∃ r u, P r ∧
      ((launched (.new lock monitor true) own settings jitter zone targets now).jobTurn 1).run d =
        (u, f) ∧ u.AtRest ∧ u.end? 1 = some (.outcome r) := by
  obtain ⟨r, js, x, o, hr, hbegin⟩ :=
    run_begin (s := launched (.new lock monitor true) own settings jitter zone targets now)
      (sole_launched now) henter hcreate hplays hlock hremove
  refine ⟨r, _, hr, hbegin, ⟨fun _ hmem => ?_, rfl, rfl, ?_, nofun⟩, rfl⟩
  · obtain rfl := List.mem_singleton.mp hmem
    rfl
  · refine Delayed.after_schedule_new fun hdue => ?_
    have hle : 0 + monitor.delay.nanos ≤ 0 := hdue
    omega

end Scheduler

/-- The report of a refresh is made from the outcome of its only job. -/
theorem Stage.finish_launched (jitter : Span) (zone : Zone) (now : Instant)
    {settings : ScheduleSettings} {targets : List (Target Unit)} {lock : UpdateLock}
    {monitor : MonitorSettings} {l : Place} {turns : Nat} (hturns : 0 < turns)
    (hdelay : 0 < monitor.delay.nanos) (henter : d.enter lock.path.parent = .ok l)
    (hcreate : d.perform (.create lock.path) = (.ok t, m))
    (hplays : Scheduler.Plays ⟨settings.callTimeout, settings.streamingTimeout⟩ P targets 0 m e)
    (hlock : e.FileOf lock.path t) (hremove : e.perform (.remove lock.path) = (.ok (), f)) :
    ∃ r y, P r ∧ Stage.finish turns (.refreshing
      (.launched (.new lock monitor true) () settings jitter zone targets now)) d =
        ((JobEnd.outcome r).report, y) ∧ Elsewhere [] f y := by
  obtain ⟨r, u, hr, hturn, hrest, hend⟩ :=
    Scheduler.run_jobTurn_launched () jitter zone now hdelay henter hcreate hplays hlock hremove
  let x : Simulation Unit :=
    ⟨.launched (.new lock monitor true) () settings jitter zone targets now, d⟩
  obtain ⟨hover, hreport, hdisk⟩ := Simulation.runJob_of_over (x := x) rfl hturn hrest hend hturns
  have hdown := Simulation.rested_shutdown turns hover
  refine ⟨r, ((Simulation.runJob turns turns 1 x).shutdown turns).2.disk, hr, ?_,
    hdisk.trans hdown.disk⟩
  show ((((Simulation.runJob turns turns 1 x).scheduler.end? 1).getD .killed).report, _) = _
  rw [hreport]
  rfl

end SensorCache
