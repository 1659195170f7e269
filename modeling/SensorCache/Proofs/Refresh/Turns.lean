import SensorCache.Proofs.Refresh.Exclusion

/-!
# Turns keep jobs apart

Every turn of a scheduler keeps its jobs apart, up to those that were robbed of their lock
(`Guarded`). A turn looks at the lock at most once to see whether it is too old; if it removes it,
all jobs that were in an update then count as robbed (`Verdict`). A job that begins gets the lock
only when all others were robbed, and else is over without having done anything
(`Guarded.ends_begin`).
-/

namespace SensorCache

open Disk Time

variable {σ : Type} {fine : Disk → Prop} {k₀ : Keeper} {d e : Disk} {may : Conduct}

namespace Scheduler

variable {s s' : Scheduler σ} {id n : Nat} {g : LockGuard} {robbed : List Nat}

/-! ## Updates -/

/-- An update that leaves the lock alone does so as far as it comes, and in what is left of it. -/
theorem ends_play {p : Path} (hmay : may.Within (Calm fine p))
    {c : Course σ (Except RefreshError Nat)} (hc : c.Keeps (Calm fine p))
    {r : CourseStop σ (Except RefreshError Nat)} (h : (s.play id c).Ends may d (r, s') e) :
    Alike s s' ∧ Calm fine p d e ∧ r.Keeps (Calm fine p) := by
  unfold play at h
  split at h
  · obtain ⟨heq, rfl⟩ := Routine.ends_pure.mp h
    cases heq
    exact ⟨.refl s, .refl e, trivial⟩
  · obtain ⟨⟨r', c'⟩, m, hproceed, hend⟩ := Routine.ends_seq.mp h
    obtain ⟨heq, rfl⟩ := Routine.ends_pure.mp hend
    cases heq
    obtain ⟨hcalm, hr⟩ := hc.ends_proceed hmay .refl .trans hproceed
    exact ⟨alike_withScene s c', hcalm, hr⟩

namespace InTurn

theorem ends_finish (hl : LockGround k₀.lock fine) (hmay : may.Within (Calm fine k₀.lock.path))
    (hs : s.InTurn fine k₀ n robbed id g d) {o : RefreshOutcome}
    (h : (s.finish id g o).Ends may d s' e) : s'.Guarded fine k₀ n robbed e := by
  obtain ⟨s₁, m, hgive, hend⟩ := Routine.ends_seq.mp h
  obtain ⟨rfl, rfl⟩ := Routine.ends_pure.mp hend
  have hs₁ := (alike_updateJob s id fun j => j.setState (finalState o)).inTurn (.refl d) hs
  have hover := hs₁.ends_giveBack hl hmay hgive (.outcome o)
  exact ((alike_updateJob s₁ id _).setPhase id _).guarded (.refl e) hover

theorem ends_breakOff (hl : LockGround k₀.lock fine) (hmay : may.Within (Calm fine k₀.lock.path))
    (hs : s.InTurn fine k₀ n robbed id g d) {x : JobEnd}
    (h : (s.breakOff id g x).Ends may d s' e) : s'.Guarded fine k₀ n robbed e := by
  obtain ⟨s₁, m, hgive, hend⟩ := Routine.ends_seq.mp h
  obtain ⟨rfl, rfl⟩ := Routine.ends_pure.mp hend
  have hs₁ := (alike_updateJob s id JobHandle.endWaiting).inTurn (.refl d) hs
  exact hs₁.ends_giveBack hl hmay hgive x

/-- After an update the job waits, or is over, or goes on with what keeps jobs apart. -/
theorem ends_afterUpdate (hl : LockGround k₀.lock fine)
    (hmay : may.Within (Calm fine k₀.lock.path)) (hs : s.InTurn fine k₀ n robbed id g d)
    {cache : String} {updated : Nat} {rest : List (Target σ)}
    (hrest : ∀ t ∈ rest, t.LeavesLock fine k₀.lock) {r : CourseStop σ (Except RefreshError Nat)}
    (hr : r.Keeps (Calm fine k₀.lock.path)) {next : Scheduler σ → Routine (Scheduler σ)}
    (hnext : (next s).Ends may d s' e → s'.Guarded fine k₀ n robbed e)
    (h : (s.afterUpdate id g cache updated rest r next).Ends may d s' e) :
    s'.Guarded fine k₀ n robbed e := by
  unfold afterUpdate at h
  split at h
  · exact hnext h
  · exact hs.ends_finish hl hmay h
  · exact hs.ends_finish hl hmay h
  · exact hs.ends_breakOff hl hmay h
  · obtain ⟨rfl, rfl⟩ := Routine.ends_done.mp h
    exact hs.waits ⟨hrest, hr⟩ rfl

theorem ends_updateAll (hl : LockGround k₀.lock fine) (hmay : may.Within (Calm fine k₀.lock.path))
    {ts : List (Target σ)} (hts : ∀ t ∈ ts, t.LeavesLock fine k₀.lock) {updated : Nat}
    (hs : s.InTurn fine k₀ n robbed id g d) (h : (updateAll id g ts updated s).Ends may d s' e) :
    s'.Guarded fine k₀ n robbed e := by
  induction ts generalizing updated s d with
  | nil => exact hs.ends_finish hl hmay h
  | cons t rest ih =>
    unfold updateAll at h
    split at h
    · exact hs.ends_finish hl hmay h
    · obtain ⟨⟨r, s₁⟩, m, hplay, hafter⟩ := Routine.ends_seq.mp h
      have hrest : ∀ t ∈ rest, t.LeavesLock fine k₀.lock := fun t ht => hts t (.tail _ ht)
      obtain ⟨halike, hcalm, hr⟩ := ends_play hmay ((hts t (.head _)).update s.limits) hplay
      have hs₁ := halike.inTurn hcalm hs
      exact hs₁.ends_afterUpdate hl hmay hrest hr (ih hrest hs₁) hafter

end InTurn

/-! ## Looking at the lock -/

/-- What a look at the lock at `now` comes to: it is left alone, or it was too old and is removed,
which is counted; then all jobs that run are robbed. -/
inductive Verdict (k₀ : Keeper) (s : Scheduler σ) (d : Disk) (now : Instant) (n : Nat)
    (robbed : List Nat) : Nat → List Nat → Prop where
  | left : Verdict k₀ s d now n robbed n robbed
  | removed (h : k₀.monitor.Expired k₀.lock d now) :
    Verdict k₀ s d now n robbed (n + 1) (robbed ++ s.runningIds)

/-- The scheduler made a move, in which it looked at the lock at one of the times `looks` at
most. -/
def Moved (fine : Disk → Prop) (k₀ : Keeper) (n : Nat) (robbed : List Nat) (s : Scheduler σ)
    (d : Disk) (looks : Instant → Prop) (s' : Scheduler σ) (e : Disk) : Prop :=
  ∃ now n' robbed', looks now ∧ s.Verdict k₀ d now n robbed n' robbed' ∧
    s'.Guarded fine k₀ n' robbed' e

/-- The times at which the scheduler itself may look at the lock. -/
abbrev Clock (fine : Disk → Prop) (k₀ : Keeper) (d : Disk) : Instant → Prop :=
  Keeper.ClockAfter fine k₀.lock.path d

/-- A move without a look at the lock. -/
theorem Guarded.moved (s : Scheduler σ) (d : Disk) (hs : s'.Guarded fine k₀ n robbed e) :
    Moved fine k₀ n robbed s d (Clock fine k₀ d) s' e :=
  ⟨_, n, robbed, Keeper.clockAfter_clock _ d, .left, hs⟩

theorem Moved.andThen {s₁ : Scheduler σ} {m : Disk} {looks : Instant → Prop}
    (h : Moved fine k₀ n robbed s d looks s₁ m)
    (hnext : ∀ {n' robbed'}, s₁.Guarded fine k₀ n' robbed' m → s'.Guarded fine k₀ n' robbed' e) :
    Moved fine k₀ n robbed s d looks s' e :=
  have ⟨now, n', robbed', hlooks, hverdict, hs₁⟩ := h
  ⟨now, n', robbed', hlooks, hverdict, hnext hs₁⟩

theorem Verdict.before {m : Disk} {now : Instant} {n' : Nat} {robbed' : List Nat} (hd : fine d)
    (hc : Calm fine k₀.lock.path d m) (h : s.Verdict k₀ m now n robbed n' robbed') :
    s.Verdict k₀ d now n robbed n' robbed' := by
  cases h with
  | left => exact .left
  | removed hexpired => exact .removed fun x hx => hexpired x ((hc hd).2 x hx)

/-- Before the move the lock was left alone. -/
theorem Moved.before {m : Disk} (hd : fine d) (hc : Calm fine k₀.lock.path d m)
    (h : Moved fine k₀ n robbed s m (Clock fine k₀ m) s' e) :
    Moved fine k₀ n robbed s d (Clock fine k₀ d) s' e :=
  have ⟨now, n', robbed', hclock, hverdict, hs'⟩ := h
  ⟨now, n', robbed', hclock.before hc, hverdict.before hd hc, hs'⟩

theorem Alike.moved {s₁ : Scheduler σ} {looks : Instant → Prop} (h : Alike s s₁)
    (hm : Moved fine k₀ n robbed s₁ d looks s' e) : Moved fine k₀ n robbed s d looks s' e := by
  obtain ⟨now, n', robbed', hlooks, hverdict, hs'⟩ := hm
  refine ⟨now, n', robbed', hlooks, ?_, hs'⟩
  cases hverdict with
  | left => exact .left
  | removed hexpired =>
    unfold runningIds
    rw [h.tasks]
    exact .removed hexpired

theorem Guarded.sameLock (hs : s.Guarded fine k₀ n robbed d) : s.keeper.lock = k₀.lock :=
  hs.tidy.same.lock

theorem Guarded.calm (hs : s.Guarded fine k₀ n robbed d) (hc : Calm fine k₀.lock.path d e) :
    s.Guarded fine k₀ n robbed e := (Alike.refl s).guarded hc hs

/-- A keeper that minds the lock gives a verdict on it. -/
theorem Guarded.verdict (hs : s.Guarded fine k₀ n robbed d) {now : Instant} {k : Keeper}
    (h : Keeper.Minds fine now s.keeper d k e) :
    ∃ n' robbed', s.Verdict k₀ d now n robbed n' robbed' ∧
      ({ s with keeper := k } : Scheduler σ).Guarded fine k₀ n' robbed' e := by
  have htidy : ∀ {n'}, k.monitor.recovered = n' →
      ({ s with keeper := k } : Scheduler σ).Tidy fine k₀ n' := fun hn =>
    ⟨hs.tidy.same.trans h.same, hn, hs.tidy.targets, hs.tidy.phases, hs.tidy.ids⟩
  have hcount := hs.tidy.counted
  rcases h.removed with ⟨hr, hexpired⟩ | ⟨hr, hcalm⟩
  · -- From now on all that run count as robbed, so nothing has to hold of the lock.
    refine ⟨n + 1, robbed ++ s.runningIds, .removed ?_, htidy (by omega), h.stays, ?_⟩
    · intro x hx
      rw [← hs.tidy.same.settings]
      exact hexpired x (by rwa [hs.sameLock])
    · have hgen : k.ownership.generations = s.keeper.ownership.generations := by
        rcases h.ownership with ho | ho <;> rw [ho]
        rfl
      exact hs.exclusive.of_robbed hgen
        (fun hi => List.mem_append_right _ (mem_runningIds_iff.mpr ⟨_, hi⟩)) e
  · rw [hs.sameLock] at hcalm
    exact ⟨n, robbed, .left, htidy (by omega), h.stays,
      (hs.exclusive.calm hs.stays hcalm).ownership h.ownership⟩

theorem Guarded.minds (hs : s.Guarded fine k₀ n robbed d) {k : Keeper}
    (h : ∃ now, Keeper.ClockAfter fine s.keeper.lock.path d now ∧
      Keeper.Minds fine now s.keeper d k e) :
    Moved fine k₀ n robbed s d (Clock fine k₀ d) { s with keeper := k } e :=
  have ⟨now, hclock, hminds⟩ := h
  have ⟨n', robbed', hverdict, hs'⟩ := hs.verdict hminds
  ⟨now, n', robbed', (hs.sameLock ▸ hclock : Keeper.ClockAfter fine k₀.lock.path d now), hverdict, hs'⟩

/-! ## Turns of jobs -/

/-- The job did not get the lock, and nothing has happened but that it is over. -/
def GaveWay (s s' : Scheduler σ) (id : Nat) : Prop :=
  ∃ k o, (o = .skipped ∨ ∃ x, o = .aborted UpdateLock.fileName x) ∧
    s' = ({ s with keeper := k } : Scheduler σ).giveWay id o

theorem Guarded.giveWay (hs : s.Guarded fine k₀ n robbed d) (id : Nat) (o : RefreshOutcome) :
    (s.giveWay id o).Guarded fine k₀ n robbed d :=
  ((alike_updateJob s id JobHandle.finish).guarded (.refl d) hs).over id _

/-- The job that gets the lock is in its turn with a guard of its own, and all others that run were
robbed. -/
theorem Guarded.gets {k : Keeper} (hs : s.Guarded fine k₀ n robbed d)
    (h : Keeper.Gets fine s.keeper d g k e) (id : Nat) :
    ({ s with keeper := k } : Scheduler σ).InTurn fine k₀ n robbed id g e ∧
      ∀ i ∈ s.runningIds, i ∈ robbed := by
  have habsent : ¬d.Present k₀.lock.path := by
    rw [← hs.sameLock]
    exact h.absent
  have hpresent : e.Present k₀.lock.path := by
    rw [← hs.sameLock]
    exact h.present
  obtain ⟨t, ht⟩ := h.ownership
  refine ⟨⟨⟨hs.tidy.same.trans h.same, h.recovered.trans hs.tidy.counted, hs.tidy.targets,
    hs.tidy.phases, hs.tidy.ids⟩, h.stays, ?_⟩, fun i hi => ?_⟩
  · have hgets := hs.exclusive.acquire habsent id t hpresent
    rw [← h.guard, ← ht] at hgets
    exact hgets
  · obtain ⟨j, hj⟩ := mem_runningIds_iff.mp hi
    by_cases hir : i ∈ robbed
    · exact hir
    · exact absurd (hs.exclusive.present hj hir) habsent

/-- A job that begins goes on only if all others that run were robbed; else it gives way. -/
theorem Guarded.ends_begin (hl : LockGround k₀.lock fine)
    (hmay : may.Within (Calm fine k₀.lock.path)) (hs : s.Guarded fine k₀ n robbed d)
    {ts : List (Target σ)} (hts : ∀ t ∈ ts, t.LeavesLock fine k₀.lock)
    (h : (s.begin id ts).Ends may d s' e) :
    ∃ now n' robbed', Clock fine k₀ d now ∧ s.Verdict k₀ d now n robbed n' robbed' ∧
      s'.Guarded fine k₀ n' robbed' e ∧
      ((∀ i ∈ s.runningIds, i ∈ robbed') ∨ s.GaveWay s' id) := by
  obtain ⟨⟨r, s₁⟩, m, hkeep, hrest⟩ := Routine.ends_seq.mp h
  obtain ⟨⟨r', k⟩, m, hacquire, hend⟩ := Routine.ends_seq.mp hkeep
  obtain ⟨heq, rfl⟩ := Routine.ends_pure.mp hend
  cases heq
  obtain ⟨now, hclock, hcases⟩ := Keeper.ends_acquire (hs.sameLock ▸ hl) (hs.sameLock ▸ hmay)
    hs.stays hacquire
  have hclock' : Clock fine k₀ d now :=
    (hs.sameLock ▸ hclock : Keeper.ClockAfter fine k₀.lock.path d now)
  rcases hcases with ⟨k₁, m₁, g, hminds, rfl, hgets⟩ | ⟨hr, hminds⟩
  · -- The lock was got where none was, so nobody runs who was not robbed.
    obtain ⟨n', robbed', hverdict, hs₁⟩ := hs.verdict hminds
    obtain ⟨hturn, hothers⟩ := hs₁.gets hgets id
    refine ⟨now, n', robbed', hclock', hverdict, ?_, .inl hothers⟩
    have hacquired := alike_updateJob { s with keeper := k } id fun j => j.setState .lockAcquired
    have hrunning := (hacquired.trans (alike_arm _ id)).trans
      (alike_updateJob _ id fun j => j.setState .running)
    exact (hrunning.inTurn (.refl m) hturn).ends_updateAll hl hmay hts hrest
  · -- Without the lock the job is over, with or without an error.
    obtain ⟨n', robbed', hverdict, hs₁⟩ := hs.verdict hminds
    rcases r with x | _ | g
    · obtain ⟨rfl, rfl⟩ := Routine.ends_pure.mp hrest
      exact ⟨now, n', robbed', hclock', hverdict, hs₁.giveWay id _,
        .inr ⟨k, _, .inr ⟨_, rfl⟩, rfl⟩⟩
    · obtain ⟨rfl, rfl⟩ := Routine.ends_pure.mp hrest
      exact ⟨now, n', robbed', hclock', hverdict, hs₁.giveWay id _, .inr ⟨k, _, .inl rfl, rfl⟩⟩
    · exact absurd rfl (hr g)

/-- A job that goes on after a wait has the guard it had. -/
theorem Guarded.ends_resume (hl : LockGround k₀.lock fine)
    (hmay : may.Within (Calm fine k₀.lock.path)) (hs : s.Guarded fine k₀ n robbed d)
    {b : BlockedUpdate σ} (hb : (JobPhase.blocked b).LeavesLock fine k₀.lock)
    (hrun : s.Runs id b.guard.generation) {w : Woken} (h : (s.resume id b w).Ends may d s' e) :
    s'.Guarded fine k₀ n robbed e := by
  have hturn := hs.inTurn hrun
  obtain ⟨⟨r, s₁⟩, m, hplay, hafter⟩ := Routine.ends_seq.mp h
  obtain ⟨halike, hcalm, hr⟩ := ends_play hmay (hb.2 w) hplay
  have hs₁ := halike.inTurn hcalm hturn
  exact hs₁.ends_afterUpdate hl hmay hb.1 hr (hs₁.ends_updateAll hl hmay hb.1) hafter

/-- A task is found by its id. -/
theorem phase_eq_some {p : JobPhase σ} (h : (s.task? id).map JobTask.phase = some p) :
    ∃ t ∈ s.tasks, t.id = id ∧ t.phase = p := by
  obtain ⟨t, ht, hp⟩ := Option.map_eq_some_iff.mp h
  have hid : (t.id == id) = true := List.find?_some (p := fun t : JobTask σ => t.id == id) ht
  exact ⟨t, List.mem_of_find?_eq_some ht, beq_iff_eq.mp hid, hp⟩

theorem Guarded.ends_jobTurn (hl : LockGround k₀.lock fine)
    (hmay : may.Within (Calm fine k₀.lock.path)) (hs : s.Guarded fine k₀ n robbed d)
    (h : (s.jobTurn id).Ends may d s' e) :
    Moved fine k₀ n robbed s d (Clock fine k₀ d) s' e := by
  unfold jobTurn at h
  split at h
  · next ts hp =>
    obtain ⟨t, ht, -, hphase⟩ := phase_eq_some hp
    have hts := hs.tidy.phases t ht
    rw [hphase] at hts
    obtain ⟨now, n', robbed', hclock, hverdict, hs', -⟩ := hs.ends_begin hl hmay hts h
    exact ⟨now, n', robbed', hclock, hverdict, hs'⟩
  · next b hp =>
    obtain ⟨t, ht, hid, hphase⟩ := phase_eq_some hp
    have hb := hs.tidy.phases t ht
    rw [hphase] at hb
    split at h
    · exact (hs.ends_resume hl hmay hb ⟨t, ht, hid, b, hphase, rfl⟩ h).moved s d
    · obtain ⟨rfl, rfl⟩ := Routine.ends_pure.mp h
      exact hs.moved _ e
  · obtain ⟨rfl, rfl⟩ := Routine.ends_pure.mp h
    exact hs.moved _ e

/-- A job that is taken down gives back what it has. -/
theorem Guarded.ends_kill (hl : LockGround k₀.lock fine)
    (hmay : may.Within (Calm fine k₀.lock.path)) (hs : s.Guarded fine k₀ n robbed d)
    (h : (s.kill id).Ends may d s' e) : s'.Guarded fine k₀ n robbed e := by
  unfold kill at h
  split at h
  · obtain ⟨rfl, rfl⟩ := Routine.ends_pure.mp h
    exact hs.over id .killed
  · next b hp =>
    obtain ⟨t, ht, hid, hphase⟩ := phase_eq_some hp
    exact (hs.inTurn ⟨t, ht, hid, b, hphase, rfl⟩).ends_breakOff hl hmay h
  · obtain ⟨rfl, rfl⟩ := Routine.ends_pure.mp h
    exact hs

/-! ## Starting jobs -/

/-- A new job has the next number, and nothing to do with the lock yet. -/
theorem Guarded.ends_spawn (hmay : may.Within (Calm fine k₀.lock.path))
    (hs : s.Guarded fine k₀ n robbed d) {ts : List (Target σ)}
    (hts : ∀ t ∈ ts, t.LeavesLock fine k₀.lock) (h : (s.spawn ts).Ends may d s' e) :
    s'.Guarded fine k₀ n robbed e := by
  obtain ⟨now, m, hnow, hend⟩ := Routine.ends_seq.mp h
  obtain ⟨rfl, rfl⟩ := Routine.ends_pure.mp hend
  have hs' := hs.calm (Disk.ends_now hmay hnow).1
  refine ⟨⟨⟨hs.tidy.same.lock, hs.tidy.same.settings⟩, hs.tidy.counted, hs.tidy.targets, ?_, ?_⟩,
    hs'.stays, ?_⟩
  · intro t ht
    rcases List.mem_append.mp ht with ht | ht
    · exact hs.tidy.phases t ht
    · obtain rfl := List.mem_singleton.mp ht
      exact hts
  · show (s.tasks ++ _).map JobTask.id = List.range' 1 (s.tasks ++ _).length
    rw [List.map_append, hs.tidy.ids, List.length_append, List.length_singleton,
      List.range'_1_concat, Nat.add_comm 1]
    rfl
  · refine hs'.exclusive.mono fun hi => ?_
    obtain ⟨t, ht, hid, b, hb, hg⟩ := hi
    rcases List.mem_append.mp ht with ht | ht
    · exact ⟨t, ht, hid, b, hb, hg⟩
    · obtain rfl := List.mem_singleton.mp ht
      cases hb

theorem Guarded.ends_forceUpdate (hl : LockGround k₀.lock fine)
    (hmay : may.Within (Calm fine k₀.lock.path)) (hs : s.Guarded fine k₀ n robbed d) {b : Bool}
    (h : s.forceUpdate.Ends may d (b, s') e) :
    Moved fine k₀ n robbed s d (Clock fine k₀ d) s' e := by
  -- Whatever was seen of the lock, the job that is started has yet to take it.
  have hrun : ∀ {s₁ : Scheduler σ} {m : Disk} {n' robbed'}, s₁.Guarded fine k₀ n' robbed' m →
      (do return (true, ← s₁.runNow) : Routine (Bool × Scheduler σ)).Ends may m (b, s') e →
      s'.Guarded fine k₀ n' robbed' e := by
    intro s₁ m n' robbed' hs₁ h
    obtain ⟨s₂, m', hspawn, hend⟩ := Routine.ends_seq.mp h
    obtain ⟨heq, rfl⟩ := Routine.ends_pure.mp hend
    cases heq
    exact hs₁.ends_spawn hmay hs₁.tidy.targets hspawn
  obtain ⟨locked, m, hlocked, hrest⟩ := Routine.ends_seq.mp h
  have hcalm : Calm fine k₀.lock.path d m := by
    rw [← hs.sameLock]
    exact UpdateLock.ends_isLocked (hs.sameLock ▸ hmay) hs.stays hlocked
  have hs₁ := hs.calm hcalm
  split at hrest
  · obtain ⟨⟨r, s₂⟩, m', hkeep, hrest⟩ := Routine.ends_seq.mp hrest
    obtain ⟨⟨r', k⟩, m', hrecover, hend⟩ := Routine.ends_seq.mp hkeep
    obtain ⟨heq, rfl⟩ := Routine.ends_pure.mp hend
    cases heq
    have hmoved := hs₁.minds (Keeper.ends_recover (hs.sameLock ▸ hl) (hs.sameLock ▸ hmay)
      hs₁.stays hrecover)
    refine (hmoved.before hs.stays hcalm).andThen fun hs₂ => ?_
    split at hrest
    · next heq =>
      cases heq
      exact hrun hs₂ hrest
    · next heq =>
      cases heq
      obtain ⟨heq, rfl⟩ := Routine.ends_pure.mp hrest
      cases heq
      exact hs₂
  · exact (hrun hs₁ hrest).moved s d

/-! ## The loop and the checks -/

theorem ends_listen {p : Path} (hmay : may.Within (Calm fine p)) {next : Moment}
    (h : (s.listen next).Ends may d s' e) : Alike s s' ∧ Calm fine p d e := by
  obtain ⟨now, m, hnow, hend⟩ := Routine.ends_seq.mp h
  obtain ⟨rfl, rfl⟩ := Routine.ends_pure.mp hend
  exact ⟨⟨.refl _, rfl, rfl⟩, (Disk.ends_now (l := ⟨p⟩) hmay hnow).1⟩

theorem ends_listenAfter {p : Path} (hmay : may.Within (Calm fine p)) {start : Moment}
    (h : (s.listenAfter start).Ends may d s' e) : Alike s s' ∧ Calm fine p d e := by
  unfold listenAfter at h
  split at h
  · exact ends_listen hmay h
  · obtain ⟨rfl, rfl⟩ := Routine.ends_pure.mp h
    exact ⟨⟨.refl _, rfl, rfl⟩, .refl _⟩

theorem Guarded.ends_loopTurn (hl : LockGround k₀.lock fine)
    (hmay : may.Within (Calm fine k₀.lock.path)) (hs : s.Guarded fine k₀ n robbed d)
    (h : s.loopTurn.Ends may d s' e) : Moved fine k₀ n robbed s d (Clock fine k₀ d) s' e := by
  unfold loopTurn at h
  split at h
  · obtain ⟨rfl, rfl⟩ := Routine.ends_pure.mp h
    exact hs.moved _ e
  · obtain ⟨now, m, hnow, hlisten⟩ := Routine.ends_seq.mp h
    obtain ⟨halike, hcalm⟩ := ends_listenAfter hmay hlisten
    exact (halike.guarded ((Disk.ends_now hmay hnow).1.trans hcalm) hs).moved s d
  · split at h
    · obtain ⟨rfl, rfl⟩ := Routine.ends_pure.mp h
      have hstopped : Alike s { s with loop := .stopped } := ⟨.refl _, rfl, rfl⟩
      exact (hstopped.guarded (.refl e) hs).moved s e
    · split at h
      · next t ht =>
        obtain ⟨⟨b, s₁⟩, m, hforce, hlisten⟩ := Routine.ends_seq.mp h
        obtain ⟨halike, hcalm⟩ := ends_listen hmay hlisten
        have hasked : Alike s { s with keeper := { s.keeper with trigger := t } } :=
          ⟨⟨⟨rfl, rfl⟩, rfl, rfl⟩, rfl, rfl⟩
        have hmoved := (hasked.guarded (.refl d) hs).ends_forceUpdate hl hmay hforce
        exact (hasked.moved hmoved).andThen fun hs₁ => halike.guarded hcalm hs₁
      · split at h
        · obtain ⟨s₁, m, hspawn, hrest⟩ := Routine.ends_seq.mp h
          obtain ⟨now, m', hnow, hlisten⟩ := Routine.ends_seq.mp hrest
          obtain ⟨halike, hcalm⟩ := ends_listenAfter hmay hlisten
          have hs₁ := hs.ends_spawn hmay hs.tidy.targets hspawn
          exact (halike.guarded ((Disk.ends_now hmay hnow).1.trans hcalm) hs₁).moved s d
        · obtain ⟨rfl, rfl⟩ := Routine.ends_pure.mp h
          exact hs.moved _ e

theorem Guarded.ends_fire (hl : LockGround k₀.lock fine)
    (hmay : may.Within (Calm fine k₀.lock.path)) (hs : s.Guarded fine k₀ n robbed d) {check : Nat}
    (h : (s.fire check).Ends may d s' e) :
    Moved fine k₀ n robbed s d (Clock fine k₀ d) s' e := by
  obtain ⟨k, m, hfire, hend⟩ := Routine.ends_seq.mp h
  obtain ⟨rfl, rfl⟩ := Routine.ends_pure.mp hend
  exact hs.minds (Keeper.ends_fire (hs.sameLock ▸ hl) (hs.sameLock ▸ hmay) hs.stays hfire)

/-- What the process still holds when no job runs may be given back. -/
theorem Guarded.ends_releaseLeft (hl : LockGround k₀.lock fine)
    (hmay : may.Within (Calm fine k₀.lock.path)) (hs : s.Guarded fine k₀ n robbed d)
    (hnone : s.runningIds = []) (h : s.releaseLeft.Ends may d s' e) :
    s'.Guarded fine k₀ n robbed e := by
  obtain ⟨⟨r, s₁⟩, m, hkeep, hend⟩ := Routine.ends_seq.mp h
  obtain ⟨rfl, rfl⟩ := Routine.ends_pure.mp hend
  obtain ⟨⟨r', k⟩, m', hrelease, hend⟩ := Routine.ends_seq.mp hkeep
  obtain ⟨heq, rfl⟩ := Routine.ends_pure.mp hend
  cases heq
  obtain ⟨hsame, hcount, hfine, ho⟩ := Keeper.ends_releaseIfHeld (hs.sameLock ▸ hl)
    (hs.sameLock ▸ hmay) hs.stays hrelease
  refine ⟨⟨hs.tidy.same.trans hsame, hcount.trans hs.tidy.counted, hs.tidy.targets,
    hs.tidy.phases, hs.tidy.ids⟩, hfine, ?_⟩
  have hgen : k.ownership.generations = s.keeper.ownership.generations := by
    rw [ho]
    rfl
  refine hs.exclusive.of_robbed hgen (fun {i g} hi => ?_) e
  have hmem := mem_runningIds_iff.mpr ⟨g, hi⟩
  rw [hnone] at hmem
  cases hmem

end Scheduler

end SensorCache
