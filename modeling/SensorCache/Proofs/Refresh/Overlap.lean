import SensorCache.Proofs.Refresh.Turns
import SensorCache.Refresh.Rehearsal

/-!
# Jobs that overlap

Two jobs of a scheduler are both in an update only if a check removed the lock of one of them while
it ran, and a check removes a lock only if it is older than the settings allow
(`running_jobs_apart`). This holds in every state that a scheduler can reach by its own turns, by
checks at any times and while others do what they like to the disk, except to the lock file
(`Reaches`). A turn is not interrupted by those of other tasks here; what these may do to the lock
between two of its operations is told in `JobRace`.

A lock's age does not tell whether its job gets on. So the update of a job that takes longer than a
lock may become old is joined by another (`long_update_is_joined`).
-/

namespace SensorCache

open Disk Time

variable {σ : Type} {fine : Disk → Prop} {k₀ : Keeper} {d e d₀ : Disk} {may : Conduct}

/-- What may happen to a scheduler: its own events, and a check of the lock as if it were some
time. -/
inductive Move where
  | event (e : SchedulerEvent)
  | checkAt (now : Instant)

namespace Scheduler

variable {s s' : Scheduler σ} {n : Nat} {robbed : List Nat}

def move (s : Scheduler σ) : Move → Routine (Scheduler σ)
  | .event e => s.step e
  | .checkAt now => do return (← s.keep fun k => k.checkAt now).2

/-- What is left of a lock is given back only when no job is in an update any more. -/
def Allows (s : Scheduler σ) : Move → Prop
  | .event .releaseLeft => s.runningIds = []
  | _ => True

/-- The times at which a move may look at the lock. -/
def looksAt (fine : Disk → Prop) (k₀ : Keeper) (d : Disk) : Move → Instant → Prop
  | .event _ => Clock fine k₀ d
  | .checkAt now => fun t => t = now

/-- The jobs that were robbed of their lock by the time that `s` has become `s'`: when another
removal is counted, those that ran. -/
def robbedAfter (s s' : Scheduler σ) (robbed : List Nat) : List Nat :=
  if s'.keeper.monitor.recovered = s.keeper.monitor.recovered then robbed
  else robbed ++ s.runningIds

/-! ## One move -/

theorem Verdict.robbedAfter_eq {now : Instant} {n' : Nat} {robbed' : List Nat}
    (h : s.Verdict k₀ d now n robbed n' robbed') (hs : s.Guarded fine k₀ n robbed d)
    (hs' : s'.Guarded fine k₀ n' robbed' e) : s.robbedAfter s' robbed = robbed' := by
  unfold robbedAfter
  rw [hs.tidy.counted, hs'.tidy.counted]
  cases h with
  | left => exact if_pos rfl
  | removed _ => exact if_neg (Nat.succ_ne_self n)

theorem Guarded.ends_move (hl : LockGround k₀.lock fine)
    (hmay : may.Within (Calm fine k₀.lock.path)) (hs : s.Guarded fine k₀ n robbed d) {m : Move}
    (hm : s.Allows m) (h : (s.move m).Ends may d s' e) :
    Moved fine k₀ n robbed s d (looksAt fine k₀ d m) s' e := by
  cases m with
  | checkAt now =>
    obtain ⟨⟨r, s₁⟩, m, hkeep, hend⟩ := Routine.ends_seq.mp h
    obtain ⟨rfl, rfl⟩ := Routine.ends_pure.mp hend
    obtain ⟨⟨r', k⟩, m', hcheck, hend⟩ := Routine.ends_seq.mp hkeep
    obtain ⟨heq, rfl⟩ := Routine.ends_pure.mp hend
    cases heq
    obtain ⟨hminds, -⟩ := Keeper.ends_checkAt (hs.sameLock ▸ hl) (hs.sameLock ▸ hmay) hs.stays hcheck
    obtain ⟨n', robbed', hverdict, hs'⟩ := hs.verdict hminds
    exact ⟨now, n', robbed', rfl, hverdict, hs'⟩
  | event x =>
    cases x with
    | job id => exact hs.ends_jobTurn hl hmay h
    | loop => exact hs.ends_loopTurn hl hmay h
    | check id => exact hs.ends_fire hl hmay h
    | force =>
      obtain ⟨⟨b, s₁⟩, m, hforce, hend⟩ := Routine.ends_seq.mp h
      obtain ⟨rfl, rfl⟩ := Routine.ends_pure.mp hend
      exact hs.ends_forceUpdate hl hmay hforce
    | request =>
      obtain ⟨rfl, rfl⟩ := Routine.ends_pure.mp h
      have halike : Alike s s.request := ⟨⟨⟨rfl, rfl⟩, rfl, rfl⟩, rfl, rfl⟩
      exact (halike.guarded (.refl e) hs).moved s e
    | run => exact (hs.ends_spawn hmay hs.tidy.targets h).moved s d
    | kill id => exact (hs.ends_kill hl hmay h).moved s d
    | stop =>
      obtain ⟨rfl, rfl⟩ := Routine.ends_pure.mp h
      have hcancel := Keeper.cancelPending_eq s.keeper.monitor.stop
      have halike : Alike s s.stop := ⟨⟨⟨rfl, hcancel.1⟩, rfl, hcancel.2⟩, rfl, rfl⟩
      exact (halike.guarded (.refl e) hs).moved s e
    | releaseLeft => exact (hs.ends_releaseLeft hl hmay hm h).moved s d
    | pass t =>
      obtain ⟨rfl, rfl⟩ := Routine.ends_pure.mp h
      have halike : Alike s (s.passTo (s.keeper.elapsed + t)) :=
        ⟨⟨⟨rfl, rfl⟩, rfl, rfl⟩, rfl, rfl⟩
      exact (halike.guarded (.refl e) hs).moved s e

/-! ## Starting -/

theorem ends_staleOf {l : UpdateLock} (hmay : may.Within (Calm fine l.path))
    {ts stale : List (Target σ)} (hts : ∀ t ∈ ts, t.LeavesLock fine l)
    (h : (staleOf ts).Ends may d stale e) :
    Calm fine l.path d e ∧ ∀ t ∈ stale, t.LeavesLock fine l := by
  induction ts generalizing d stale with
  | nil =>
    obtain ⟨rfl, rfl⟩ := Routine.ends_pure.mp h
    exact ⟨.refl e, fun _ ht => nomatch ht⟩
  | cons t r ih =>
    obtain ⟨b, m, hb, hrest⟩ := Routine.ends_seq.mp h
    obtain ⟨rest, m', hr, hend⟩ := Routine.ends_seq.mp hrest
    obtain ⟨rfl, rfl⟩ := Routine.ends_pure.mp hend
    have hcheck := (hts t (.head _)).check.ends hmay .refl .trans hb
    obtain ⟨hcalm, hrest⟩ := ih (fun u hu => hts u (.tail _ hu)) hr
    refine ⟨hcheck.trans hcalm, ?_⟩
    split
    · intro u hu
      rcases List.mem_cons.mp hu with rfl | hu
      · exact hts u (.head _)
      · exact hrest u hu
    · exact hrest

/-- A scheduler without jobs. -/
theorem guarded_of_no_tasks (hsame : Keeper.SameLock k₀ s.keeper)
    (hts : ∀ t ∈ s.targets, t.LeavesLock fine k₀.lock) (htasks : s.tasks = []) (hd : fine d) :
    s.Guarded fine k₀ s.keeper.monitor.recovered [] d := by
  have hnone : ∀ {i g : Nat}, ¬s.Runs i g := by
    rintro i g ⟨t, ht, -⟩
    rw [htasks] at ht
    cases ht
  refine ⟨⟨hsame, rfl, hts, ?_, ?_⟩, hd, ?_⟩
  · rw [htasks]
    exact fun _ ht => nomatch ht
  · rw [htasks]
    rfl
  · exact ⟨fun hi => absurd hi hnone, fun hi => absurd hi hnone, fun hi => absurd hi hnone,
      fun hi => absurd hi hnone, fun hi => absurd hi hnone⟩

/-- A scheduler starts without jobs that run. -/
theorem guarded_start (hl : LockGround k₀.lock fine) (hmay : may.Within (Calm fine k₀.lock.path))
    (hd : fine d) {own : σ} {settings : ScheduleSettings} {jitter : Span} {zone : Zone}
    {targets : List (Target σ)} (hts : ∀ t ∈ targets, t.LeavesLock fine k₀.lock)
    (h : (start k₀ own settings jitter zone targets).Ends may d s e) :
    ∃ n, s.Guarded fine k₀ n [] e := by
  obtain ⟨locked, m, hlocked, hrest⟩ := Routine.ends_seq.mp h
  have hm := (UpdateLock.ends_isLocked hmay hd hlocked hd).1
  let s₀ : Scheduler σ := ⟨k₀, .new, own, settings, jitter, zone, targets, [], .starting, none⟩
  have hidle : s₀.Guarded fine k₀ k₀.monitor.recovered [] m :=
    guarded_of_no_tasks (s := s₀) (.refl k₀) hts rfl hm
  have hlook : ∀ {f : Scheduler σ → Routine (Scheduler σ)},
      (if locked then (do f (← (do return (← s₀.keep Keeper.recover).2)))
        else pure s₀ >>= f).Ends may m s e →
      ∃ s₁ m₁ n, s₁.Guarded fine k₀ n [] m₁ ∧ (f s₁).Ends may m₁ s e := by
    intro f h
    split at h
    · obtain ⟨s₁, m₁, hrecover, hf⟩ := Routine.ends_seq.mp h
      obtain ⟨⟨b, s₂⟩, m₂, hkeep, hend⟩ := Routine.ends_seq.mp hrecover
      obtain ⟨rfl, rfl⟩ := Routine.ends_pure.mp hend
      obtain ⟨⟨b', k⟩, m₃, hlooked, hend⟩ := Routine.ends_seq.mp hkeep
      obtain ⟨heq, rfl⟩ := Routine.ends_pure.mp hend
      cases heq
      obtain ⟨now, -, hminds⟩ := Keeper.ends_recover hl hmay hm hlooked
      obtain ⟨n', robbed', hverdict, hs'⟩ := hidle.verdict hminds
      -- No job ran, so none was robbed.
      cases hverdict with
      | left => exact ⟨_, _, _, hs', hf⟩
      | removed _ => exact ⟨_, _, _, hs', hf⟩
    · exact ⟨s₀, m, _, hidle, h⟩
  -- What is left is to start a job for the targets that need it.
  obtain ⟨s₁, m₁, n, hs₁, hjobs⟩ := hlook hrest
  split at hjobs
  · obtain ⟨stale, m', hstale, hend⟩ := Routine.ends_seq.mp hjobs
    obtain ⟨hcalm, hts'⟩ := ends_staleOf hmay hts hstale
    split at hend
    · obtain ⟨rfl, rfl⟩ := Routine.ends_pure.mp hend
      exact ⟨n, hs₁.calm hcalm⟩
    · exact ⟨n, (hs₁.calm hcalm).ends_spawn hmay hts' hend⟩
  · obtain ⟨rfl, rfl⟩ := Routine.ends_pure.mp hjobs
    exact ⟨n, hs₁⟩

/-! ## All moves -/

/-- `Reaches … d₀ s d robbed`: a scheduler that was started on the disk `d₀` may have come to `s` on
the disk `d`, with the jobs `robbed` robbed of their lock on the way. Between its moves others may
do anything that leaves the lock alone. -/
inductive Reaches (may : Conduct) (fine : Disk → Prop) (k₀ : Keeper) (own : σ)
    (settings : ScheduleSettings) (jitter : Span) (zone : Zone) (targets : List (Target σ))
    (d₀ : Disk) : Scheduler σ → Disk → List Nat → Prop where
  | start {s : Scheduler σ} {d : Disk} :
    (start k₀ own settings jitter zone targets).Ends may d₀ s d →
      Reaches may fine k₀ own settings jitter zone targets d₀ s d []
  | move {s s' : Scheduler σ} {d e : Disk} {robbed : List Nat} {m : Move} :
    Reaches may fine k₀ own settings jitter zone targets d₀ s d robbed → s.Allows m →
      (s.move m).Ends may d s' e →
      Reaches may fine k₀ own settings jitter zone targets d₀ s' e (s.robbedAfter s' robbed)
  | others {s : Scheduler σ} {d e : Disk} {robbed : List Nat} :
    Reaches may fine k₀ own settings jitter zone targets d₀ s d robbed →
      Calm fine k₀.lock.path d e →
      Reaches may fine k₀ own settings jitter zone targets d₀ s e robbed

variable {own : σ} {settings : ScheduleSettings} {jitter : Span} {zone : Zone}
  {targets : List (Target σ)}

/-- In all that it comes to a scheduler keeps its jobs apart, up to those that were robbed. -/
theorem Reaches.guarded (hl : LockGround k₀.lock fine) (hmay : may.Within (Calm fine k₀.lock.path))
    (hts : ∀ t ∈ targets, t.LeavesLock fine k₀.lock) (hd : fine d₀)
    (h : Reaches may fine k₀ own settings jitter zone targets d₀ s d robbed) :
    ∃ n, s.Guarded fine k₀ n robbed d := by
  induction h with
  | start hstart => exact guarded_start hl hmay hd hts hstart
  | others _ hcalm ih =>
    obtain ⟨n, hs⟩ := ih
    exact ⟨n, hs.calm hcalm⟩
  | move _ hm hends ih =>
    obtain ⟨n, hs⟩ := ih
    obtain ⟨now, n', robbed', -, hverdict, hs'⟩ := hs.ends_move hl hmay hm hends
    rw [hverdict.robbedAfter_eq hs hs']
    exact ⟨n', hs'⟩

/-- Two jobs are both in an update only if one was robbed of its lock, and the lock of one that was
not is there. A move that counts a removal looked at the lock when it was too old. A job that begins
while another runs that was not robbed is over without having done anything. -/
theorem running_jobs_apart (hl : LockGround k₀.lock fine)
    (hmay : may.Within (Calm fine k₀.lock.path)) (hts : ∀ t ∈ targets, t.LeavesLock fine k₀.lock)
    (hd : fine d₀) (h : Reaches may fine k₀ own settings jitter zone targets d₀ s d robbed) :
    (∀ i ∈ s.runningIds, ∀ j ∈ s.runningIds, i ∉ robbed → j ∉ robbed → i = j) ∧
      (∀ i ∈ s.runningIds, i ∉ robbed → d.Present k₀.lock.path) ∧
      ∀ {m : Move} {s' : Scheduler σ} {e : Disk}, s.Allows m → (s.move m).Ends may d s' e →
        (s'.keeper.monitor.recovered ≠ s.keeper.monitor.recovered →
          ∃ now, looksAt fine k₀ d m now ∧ k₀.monitor.Expired k₀.lock d now) ∧
        ∀ {id : Nat} {ts : List (Target σ)}, m = .event (.job id) →
          (s.task? id).map JobTask.phase = some (.queued ts) →
          (∀ i ∈ s.runningIds, i ∈ s.robbedAfter s' robbed) ∨ s.GaveWay s' id := by
  obtain ⟨n, hs⟩ := h.guarded hl hmay hts hd
  refine ⟨?_, ?_, fun {m s' e} hm hends => ⟨fun hcounted => ?_, fun {id ts} hid hqueued => ?_⟩⟩
  · intro i hi j hj hir hjr
    obtain ⟨g, hg⟩ := mem_runningIds_iff.mp hi
    obtain ⟨g', hg'⟩ := mem_runningIds_iff.mp hj
    exact hs.exclusive.alone hg hg' hir hjr
  · intro i hi hir
    obtain ⟨g, hg⟩ := mem_runningIds_iff.mp hi
    exact hs.exclusive.present hg hir
  · obtain ⟨now, n', robbed', hlooks, hverdict, hs'⟩ := hs.ends_move hl hmay hm hends
    rw [hs'.tidy.counted, hs.tidy.counted] at hcounted
    cases hverdict with
    | left => exact absurd rfl hcounted
    | removed hexpired => exact ⟨now, hlooks, hexpired⟩
  · subst hid
    have hbegin : (s.begin id ts).Ends may d s' e := by
      have hturn : (s.jobTurn id).Ends may d s' e := hends
      unfold jobTurn at hturn
      rwa [hqueued] at hturn
    obtain ⟨t, ht, -, hphase⟩ := phase_eq_some hqueued
    have hts' := hs.tidy.phases t ht
    rw [hphase] at hts'
    obtain ⟨now, n', robbed', -, hverdict, hs', hcases⟩ := hs.ends_begin hl hmay hts' hbegin
    rwa [hverdict.robbedAfter_eq hs hs']

/-! ## An update that takes long -/

/-- Lets a scheduler make moves while nobody else does anything. -/
def moves (x : Scheduler σ × Disk) (ms : List Move) : Scheduler σ × Disk :=
  ms.foldl (fun x m => (x.1.move m).run x.2) x

theorem Reaches.moves (hmay : ∀ o d, may o d (d.perform o).1 (d.perform o).2) {ms : List Move}
    (hms : ∀ m ∈ ms, m ≠ .event .releaseLeft)
    (h : Reaches may fine k₀ own settings jitter zone targets d₀ s d robbed) :
    ∃ robbed', Reaches may fine k₀ own settings jitter zone targets d₀
      (Scheduler.moves (s, d) ms).1 (Scheduler.moves (s, d) ms).2 robbed' := by
  induction ms generalizing s d robbed with
  | nil => exact ⟨robbed, h⟩
  | cons m ms ih =>
    have hallows : s.Allows m := by
      unfold Allows
      split
      · exact absurd rfl (hms _ (.head _))
      · trivial
    have hends := Routine.ends_run hmay (s.move m) d
    exact ih (fun x hx => hms x (.tail _ hx)) (h.move hallows hends)

end Scheduler

namespace Rehearsal

theorem keeps_play {R : Disk → Disk → Prop} (hrefl : ∀ d, R d d) (limits : CallLimits)
    (b : Behaviour) : (play limits b).Keeps R := by
  cases b with
  | ends r => trivial
  | crashes => trivial
  | pauses t => exact fun _ => trivial
  | sticks => exact fun _ => trivial
  | interrupts => exact (Course.keeps_modify _).bind fun _ => trivial
  | tells => exact (Course.keeps_modify _).bind fun _ => trivial
  | heeds forSource =>
    cases forSource with
    | false => exact Course.Keeps.bind (c := Course.wait _ _) (fun _ => trivial) fun _ => trivial
    | true =>
      refine (Course.keeps_markNow hrefl _).bind fun _ => ?_
      refine Course.Keeps.bind (c := Course.wait _ _) (fun _ => trivial) fun _ => ?_
      exact (Course.keeps_modify _).bind fun _ => trivial

/-- Scripted targets have nothing to do with the disk. -/
theorem leavesLock_target (fine : Disk → Prop) (l : UpdateLock) (name : String) (stale : Bool)
    (behaviours : List Behaviour) : (target name stale behaviours).LeavesLock fine l :=
  ⟨trivial, fun limits _ => keeps_play .refl limits _⟩

/-- A target whose update takes a day. -/
def dayLong : Target Rehearsal := target "units" true [.pauses (.ofSeconds 86400)]

def lockKeeper : Keeper := .new ⟨⟨"cache.lock"⟩⟩ {} true

/-- Others leave the lock file alone. -/
abbrev careful : Conduct := .among (Calm (fun _ => True) lockKeeper.lock.path)

/-- What a scheduler with the default settings may come to when the update of its only target takes
a day. -/
abbrev DayLongReaches : Scheduler Rehearsal → Disk → List Nat → Prop :=
  Scheduler.Reaches careful (fun _ => True) lockKeeper .empty {} .zero .utc [dayLong] (.empty ⟨0⟩)

/-- The job from the start of the scheduler waits in its update. -/
def firstHours : Scheduler Rehearsal × Disk :=
  Scheduler.moves ((Scheduler.start lockKeeper .empty {} .zero .utc [dayLong]).run (.empty ⟨0⟩))
    [.event .loop, .event (.job 1)]

/-- After thirteen hours a check removes its lock and asks for another job. -/
def afternoon : Scheduler Rehearsal × Disk :=
  Scheduler.moves (firstHours.1, firstHours.2.tick (.ofSeconds 46800))
    [.event (.pass (.ofSeconds 46800)), .event (.check 0), .event .loop, .event (.job 2)]

theorem reaches_afternoon : ∃ robbed, DayLongReaches afternoon.1 afternoon.2 robbed := by
  have hperform : ∀ o d, careful o d (d.perform o).1 (d.perform o).2 :=
    fun o d => ⟨d, .refl d, rfl⟩
  have hstart : DayLongReaches _ _ [] := .start (Routine.ends_run hperform _ _)
  obtain ⟨robbed, hmorning⟩ : ∃ robbed, DayLongReaches firstHours.1 firstHours.2 robbed :=
    hstart.moves hperform (by simp)
  have htick : DayLongReaches firstHours.1 (firstHours.2.tick (.ofSeconds 46800)) robbed :=
    .others hmorning fun _ => ⟨trivial, fun _ hn => view_tick hn _⟩
  exact htick.moves hperform (by simp)

/-- The job whose lock was removed goes on, and so does the other that was asked for. -/
theorem long_update_is_joined :
    ∃ s d robbed, DayLongReaches s d robbed ∧ 1 ∈ s.runningIds ∧ 2 ∈ s.runningIds := by
  obtain ⟨robbed, h⟩ := reaches_afternoon
  have hrunning : afternoon.1.runningIds = [1, 2] := by decide +kernel
  refine ⟨_, _, robbed, h, ?_, ?_⟩ <;> rw [hrunning] <;> decide

/-- One of the two was robbed of its lock. -/
theorem running_jobs_apart_dayLong : ∃ s d robbed, DayLongReaches s d robbed ∧
    s.runningIds = [1, 2] ∧ (1 ∈ robbed ∨ 2 ∈ robbed) := by
  obtain ⟨robbed, h⟩ := reaches_afternoon
  have hrunning : afternoon.1.runningIds = [1, 2] := by decide +kernel
  have hts : ∀ t ∈ [dayLong], t.LeavesLock (fun _ => True) lockKeeper.lock := by
    intro t ht
    obtain rfl := List.mem_singleton.mp ht
    exact leavesLock_target _ _ _ _ _
  obtain ⟨hapart, -⟩ := Scheduler.running_jobs_apart (lockGround_always lockKeeper.lock)
    (Conduct.within_among _) hts trivial h
  refine ⟨_, _, robbed, h, hrunning, ?_⟩
  by_cases h₁ : 1 ∈ robbed
  · exact .inl h₁
  · by_cases h₂ : 2 ∈ robbed
    · exact .inr h₂
    · rw [hrunning] at hapart
      cases hapart 1 (by decide) 2 (by decide) h₁ h₂

end Rehearsal

end SensorCache
