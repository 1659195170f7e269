import SensorCache.Proofs.Refresh.KnownLocks

/-!
# Schedulers that have shut down

Once a scheduler has shut down (`Scheduler.Quiet`), none of its jobs is in an update, all that have
yet to begin are interrupted, and it holds no lock. It stays so whatever is asked of it and whatever
the disk answers (`Quiet.leads_move`): the only turn of a job takes the lock, if it gets it, and gives
it back, and no update is any part of that (`begin_of_interrupts`).
-/

namespace SensorCache

open Disk Time

variable {σ : Type} {may : Conduct} {d e : Disk}

/-! ## Keepers that hold nothing -/

namespace UpdateLock

/-- Either the lock was got, or nothing more is known of it than before. -/
theorem leads_tryAcquire (l : UpdateLock) (o : Ownership) (d : Disk) :
    (l.tryAcquire o).Leads may d fun x _ =>
      (∃ t, x = (.ok (some (o.acquired t).guard), o.acquired t)) ∨
        x.2 = o ∧ ∀ g, x.1 ≠ .ok (some g) := by
  refine (Routine.leads_any _ _).bind fun x m _ => ?_
  split
  · exact Routine.leads_pure (.inr ⟨rfl, by simp⟩)
  · refine (Routine.leads_any _ _).bind fun y m _ => ?_
    split
    · exact Routine.leads_pure (.inl ⟨_, rfl⟩)
    · exact Routine.leads_pure (.inr ⟨rfl, by simp⟩)
    · exact Routine.leads_pure (.inr ⟨rfl, by simp⟩)

end UpdateLock

namespace Keeper

variable {k k' : Keeper} {id i : Nat} {now : Instant}

/-- After a try to take the lock: what is held, if anything is, is held under the guard that was
got. -/
def HoldsJust (r : Except OsError (Option LockGuard)) (k : Keeper) : Prop :=
  match r with
  | .ok (some g) => (k.ownership.heldBy g).isSome
  | _ => k.ownership.holding = none

theorem holdsJust_none {r : Except OsError (Option LockGuard)} (hr : ∀ g, r ≠ .ok (some g)) :
    HoldsJust r k ↔ k.ownership.holding = none := by
  unfold HoldsJust
  split
  · next g => exact absurd rfl (hr g)
  · exact .rfl

/-- What trying to take the lock leaves as it was. -/
structure Tried (k : Keeper) (r : Except OsError (Option LockGuard)) (k' : Keeper) : Prop where
  ids : k'.ids = k.ids
  interrupts : ∀ id, k.Interrupts id → k'.Interrupts id
  stopped : k'.stopped = k.stopped
  holds : HoldsJust r k'

theorem leads_tryAcquire (hfree : k.ownership.holding = none) (d : Disk) :
    k.tryAcquire.Leads may d fun x _ => Tried k x.1 x.2 := by
  rintro ⟨r, k'⟩ e h
  obtain ⟨o, hx, rfl⟩ := ends_owning h
  refine ⟨rfl, fun _ h => h, rfl, ?_⟩
  rcases UpdateLock.leads_tryAcquire _ _ _ _ _ hx with ⟨t, heq⟩ | ⟨heq, hr⟩
  · cases heq
    simp [HoldsJust, Ownership.heldBy, Ownership.acquired, Ownership.guard]
  · rw [holdsJust_none hr, show o = k.ownership from heq]
    exact hfree

/-- So does taking it, with a look at what is in the way. -/
theorem leads_acquire_free (hfree : k.ownership.holding = none) (d : Disk) :
    k.acquire.Leads may d fun x _ => Tried k x.1 x.2 := by
  rintro x e h
  rcases leads_acquire may.glances_any k d x e h with
    hfirst | ⟨k₁, m, k₂, n, hfirst, hlooks, hsecond⟩
  · exact leads_tryAcquire hfree d x e hfirst
  · have htried := leads_tryAcquire hfree d _ _ hfirst
    have hlooked := hlooks.looked
    have hfree₂ : k₂.ownership.holding = none := hlooked.holding htried.holds
    have hints : ∀ id, k.Interrupts id → k₂.Interrupts id :=
      fun id hid => hlooked.interrupts id (htried.interrupts id hid)
    rcases hsecond with hsecond | ⟨rfl, -⟩
    · have htried₂ := leads_tryAcquire hfree₂ n x e hsecond
      exact ⟨htried₂.ids.trans (hlooked.ids.trans htried.ids),
        fun id hid => htried₂.interrupts id (hints id hid),
        htried₂.stopped.trans (hlooked.stopped.trans htried.stopped), htried₂.holds⟩
    · exact ⟨hlooked.ids.trans htried.ids, hints, hlooked.stopped.trans htried.stopped, hfree₂⟩

/-- A guard for all that is held leaves nothing held. -/
theorem leads_release_free {g : LockGuard} (hheld : (k.ownership.heldBy g).isSome) (d : Disk) :
    (k.release g).Leads may d fun x _ => ∃ o, x.2 = { k with ownership := o } ∧ o.holding = none := by
  rintro ⟨r, k'⟩ e h
  obtain ⟨o, hx, rfl⟩ := ends_owning h
  refine ⟨o, rfl, ?_⟩
  obtain ⟨ho, -⟩ := UpdateLock.leads_release _ _ _ _ _ _ hx
  rw [show o = _ from ho, if_pos hheld]
  rfl

/-- A job that is added to a keeper that has stopped is interrupted from the start. -/
theorem interrupts_addJob (hstopped : k.stopped = true) (hnew : ∀ i ∈ k.ids, i < id) :
    (k.addJob id now).Interrupts id := by
  have hnone : k.jobs.find? (fun j => j.id == id) = none := by
    rw [List.find?_eq_none]
    intro j hj hid
    have hlt := hnew j.id (List.mem_map_of_mem hj)
    rw [beq_iff_eq.mp hid] at hlt
    exact Nat.lt_irrefl _ hlt
  show ((k.jobs ++ _).find? _).any _ = true
  rw [List.find?_append, hnone, if_pos hstopped]
  simp [JobHandle.new, JobHandle.interrupt]

theorem Interrupts.addJob (h : k.Interrupts i) : (k.addJob id now).Interrupts i := by
  unfold Interrupts job? at h ⊢
  rw [Option.any_eq_true] at h
  obtain ⟨j, hj, hint⟩ := h
  show ((k.jobs ++ _).find? _).any _ = true
  rw [List.find?_append, hj]
  exact hint

end Keeper

/-! ## Jobs that update nothing -/

namespace Scheduler

variable {s s' : Scheduler σ} {id i : Nat} {g : LockGuard} {own : σ} {x : Executor}

/-- The only turn of a job that is to update nothing: it takes the lock, if it gets it, and gives it
back with an outcome. -/
def passBy (s : Scheduler σ) (id : Nat) (o : RefreshOutcome) : Routine (Scheduler σ) := do
  match ← s.keep Keeper.acquire with
  | (.ok (some g), s) => (s.begun id).finish id g o
  | (.ok none, s) => return s.giveWay id .skipped
  | (.error e, s) => return s.giveWay id (.aborted UpdateLock.fileName e.message)

theorem leads_keep_acquire (hfree : s.keeper.ownership.holding = none) (d : Disk) :
    (s.keep Keeper.acquire).Leads may d fun x _ =>
      ∃ k, x.2 = { s with keeper := k } ∧ Keeper.Tried s.keeper x.1 k :=
  (Keeper.leads_acquire_free hfree d).bind fun _ _ hk => Routine.leads_pure ⟨_, rfl, hk⟩

theorem interrupts_begun (h : s.keeper.Interrupts i) (id : Nat) : (s.begun id).keeper.Interrupts i :=
  (Keeper.Interrupts.updateJob h id (f := fun j => j.setState .lockAcquired) (fun _ => rfl)
    fun _ h => h).updateJob id (fun _ => rfl) fun _ h => h

/-- A job that was interrupted before it began updates nothing. -/
theorem begin_of_interrupts (h : s.keeper.Interrupts id) (hfree : s.keeper.ownership.holding = none)
    (ts : List (Target σ)) :
    s.begin id ts = s.passBy id (if ts.isEmpty then .completed 0 else .cancelled) := by
  refine Routine.bind_congr_of_ends ?_
  rintro ⟨r, s₁⟩ d e hends
  obtain ⟨k, hk, htried⟩ := leads_keep_acquire hfree d _ _ hends
  obtain rfl : s₁ = { s with keeper := k } := hk
  rcases r with y | _ | g
  · rfl
  · rfl
  · have hbegun := interrupts_begun (s := { s with keeper := k }) (htried.interrupts id h) id
    show updateAll id g ts 0 _ = _
    cases ts with
    | nil => rfl
    | cons t rest =>
      unfold updateAll
      exact if_pos hbegun

/-! ## What a shutdown leaves -/

/-- A scheduler that has shut down: its loop has ended, it holds no lock, and its jobs are over or
will find that they are interrupted. What its targets keep and its executor are `own` and `x`. -/
structure Quiet (own : σ) (x : Executor) (s : Scheduler σ) : Prop where
  own : s.own = own
  executor : s.executor = x
  loop : s.loop = .stopped
  stopped : s.keeper.stopped = true
  free : s.keeper.ownership.holding = none
  phases : ∀ t ∈ s.tasks, (∃ ts, t.phase = .queued ts) ∧ s.keeper.Interrupts t.id ∨
    ∃ y, t.phase = .over y
  ids : ∀ i ∈ s.keeper.ids, i ≤ s.tasks.length

namespace Quiet

theorem keeps (hq : s.Quiet own x) {k : Keeper} (hids : k.ids = s.keeper.ids)
    (hints : ∀ id, s.keeper.Interrupts id → k.Interrupts id) (hstopped : k.stopped = s.keeper.stopped)
    (hfree : k.ownership.holding = none) : ({ s with keeper := k } : Scheduler σ).Quiet own x := by
  refine { hq with
    stopped := hstopped.trans hq.stopped
    free := hfree
    phases := fun t ht => ?_
    ids := fun i hi => hq.ids i (hids ▸ hi) }
  exact (hq.phases t ht).imp_left fun h => ⟨h.1, hints _ h.2⟩

theorem looks (hq : s.Quiet own x) {k : Keeper} (h : Keeper.Looked s.keeper k) :
    ({ s with keeper := k } : Scheduler σ).Quiet own x :=
  hq.keeps h.ids h.interrupts h.stopped (h.holding hq.free)

theorem setPhase (hq : s.Quiet own x) (i : Nat) (y : JobEnd) :
    (s.setPhase i (.over y)).Quiet own x := by
  refine { hq with phases := fun t ht => ?_, ids := fun j hj => ?_ }
  · obtain ⟨u, hu, rfl⟩ := List.mem_map.mp ht
    split
    · exact .inr ⟨y, rfl⟩
    · exact hq.phases u hu
  · show j ≤ (s.tasks.map _).length
    rw [List.length_map]
    exact hq.ids j hj

theorem updateJob (hq : s.Quiet own x) (i : Nat) {f : JobHandle → JobHandle}
    (hf : ∀ j, (f j).id = j.id) (hkept : ∀ j, j.interrupted = true → (f j).interrupted = true) :
    (s.updateJob i f).Quiet own x :=
  hq.keeps (Keeper.ids_updateJob s.keeper i hf) (fun _ h => h.updateJob i hf hkept) rfl hq.free

theorem giveWay (hq : s.Quiet own x) (i : Nat) (o : RefreshOutcome) : (s.giveWay i o).Quiet own x :=
  (hq.updateJob i (f := JobHandle.finish) (fun _ => rfl) fun _ h => h).setPhase i _

theorem begun (hq : s.Quiet own x) (i : Nat) : (s.begun i).Quiet own x := by
  have hacquired := hq.updateJob i (f := fun j => j.setState .lockAcquired) (fun _ => rfl)
    fun _ h => h
  have harmed : ({ s.updateJob i fun j => j.setState .lockAcquired with
      keeper := (s.updateJob i fun j => j.setState .lockAcquired).keeper.arm i } :
      Scheduler σ).Quiet own x := hacquired.keeps rfl (fun _ h => h) rfl hq.free
  exact harmed.updateJob i (f := fun j => j.setState .running) (fun _ => rfl) fun _ h => h

/-- Whoever is quiet but for a lock that is held under a guard is quiet when it is given back. -/
theorem leads_finish (hq : ({ s with keeper := { s.keeper with ownership := .none } } :
      Scheduler σ).Quiet own x) (hheld : (s.keeper.ownership.heldBy g).isSome) (i : Nat)
    (o : RefreshOutcome) (d : Disk) : (s.finish i g o).Leads may d fun s' _ => s'.Quiet own x := by
  have hset := hq.updateJob i (f := fun j => j.setState (finalState o)) (fun _ => rfl) fun _ h => h
  refine Routine.Leads.bind (P := fun s₁ _ => s₁.Quiet own x) ?_ fun s₁ m hs₁ => ?_
  · refine Routine.Leads.bind (P := fun x₁ _ => x₁.2.Quiet own x) ?_ fun _ _ h => Routine.leads_pure h
    refine (Keeper.leads_release_free (k := (s.updateJob i fun j => j.setState
      (finalState o)).keeper) hheld d).bind ?_
    rintro ⟨r, k⟩ m ⟨o', rfl, ho'⟩
    exact Routine.leads_pure (hset.keeps rfl (fun _ h => h) rfl ho')
  · have hidle := hs₁.updateJob i
      (f := fun j => ((j.setState .lockReleased).finish).setState .idle) (fun _ => rfl) fun _ h => h
    exact Routine.leads_pure (hidle.setPhase i _)

theorem leads_passBy (hq : s.Quiet own x) (i : Nat) (o : RefreshOutcome) (d : Disk) :
    (s.passBy i o).Leads may d fun s' _ => s'.Quiet own x := by
  refine (leads_keep_acquire hq.free d).bind ?_
  rintro ⟨r, s₁⟩ m ⟨k, hk, htried⟩
  obtain rfl : s₁ = { s with keeper := k } := hk
  rcases r with y | _ | g
  · exact Routine.leads_pure
      ((hq.keeps htried.ids htried.interrupts htried.stopped htried.holds).giveWay i _)
  · exact Routine.leads_pure
      ((hq.keeps htried.ids htried.interrupts htried.stopped htried.holds).giveWay i _)
  · have hfree : ({ s with keeper := { k with ownership := .none } } : Scheduler σ).Quiet own x :=
      hq.keeps htried.ids htried.interrupts htried.stopped rfl
    exact leads_finish (s := ({ s with keeper := k } : Scheduler σ).begun i) (hfree.begun i)
      htried.holds i o m

/-- A job that has yet to begin will update nothing. -/
theorem jobTurn_eq (hq : s.Quiet own x) {ts : List (Target σ)}
    (hp : (s.task? i).map JobTask.phase = some (.queued ts)) :
    s.jobTurn i = s.passBy i (if ts.isEmpty then .completed 0 else .cancelled) := by
  obtain ⟨t, ht, rfl, hphase⟩ := phase_eq_some hp
  have hint : s.keeper.Interrupts t.id := by
    rcases hq.phases t ht with ⟨-, hint⟩ | ⟨y, hover⟩
    · exact hint
    · rw [hphase] at hover
      cases hover
  unfold jobTurn
  rw [hp]
  exact begin_of_interrupts hint hq.free ts

theorem not_blocked (hq : s.Quiet own x) {b : BlockedUpdate σ} :
    (s.task? i).map JobTask.phase ≠ some (.blocked b) := by
  intro hp
  obtain ⟨t, ht, -, hphase⟩ := phase_eq_some hp
  rcases hq.phases t ht with ⟨⟨ts, hts⟩, -⟩ | ⟨y, hover⟩
  · rw [hphase] at hts
    cases hts
  · rw [hphase] at hover
    cases hover

theorem leads_jobTurn (hq : s.Quiet own x) (i : Nat) (d : Disk) :
    (s.jobTurn i).Leads may d fun s' _ => s'.Quiet own x := by
  rcases hp : (s.task? i).map JobTask.phase with _ | ts | b | y
  · unfold jobTurn
    rw [hp]
    exact Routine.leads_pure hq
  · rw [hq.jobTurn_eq hp]
    exact hq.leads_passBy i _ d
  · exact absurd hp hq.not_blocked
  · unfold jobTurn
    rw [hp]
    exact Routine.leads_pure hq

theorem leads_kill (hq : s.Quiet own x) (i : Nat) (d : Disk) :
    (s.kill i).Leads may d fun s' _ => s'.Quiet own x := by
  unfold kill
  split
  · exact Routine.leads_pure (hq.setPhase i _)
  · next b hp => exact absurd hp hq.not_blocked
  · exact Routine.leads_pure hq

/-- A new job is interrupted, and nothing else changes. -/
theorem leads_spawn (hq : s.Quiet own x) (ts : List (Target σ)) (d : Disk) :
    (s.spawn ts).Leads may d fun s' _ => s'.Quiet own x := by
  refine (Keeper.leads_now may.glances_any).bind fun now m _ => Routine.leads_pure ?_
  have hids : ∀ i ∈ s.keeper.ids, i < s.tasks.length + 1 :=
    fun i hi => Nat.lt_succ_of_le (hq.ids i hi)
  refine { hq with phases := fun t ht => ?_, ids := fun j hj => ?_ }
  · rcases List.mem_append.mp ht with ht | ht
    · exact (hq.phases t ht).imp_left fun h => ⟨h.1, h.2.addJob⟩
    · obtain rfl := List.mem_singleton.mp ht
      exact .inl ⟨⟨ts, rfl⟩, Keeper.interrupts_addJob hq.stopped hids⟩
  · show j ≤ (s.tasks ++ _).length
    rw [List.length_append, List.length_singleton]
    rw [show Keeper.ids _ = _ from Keeper.ids_addJob s.keeper _ now] at hj
    rcases List.mem_append.mp hj with hj | hj
    · exact Nat.le_succ_of_le (hq.ids j hj)
    · exact Nat.le_of_eq (List.mem_singleton.mp hj)

theorem leads_forceUpdate (hq : s.Quiet own x) (d : Disk) :
    s.forceUpdate.Leads may d fun y _ => y.2.Quiet own x := by
  have hrun : ∀ {s₁ : Scheduler σ} {m : Disk}, s₁.Quiet own x →
      (do return (true, ← s₁.runNow) : Routine (Bool × Scheduler σ)).Leads may m
        fun y _ => y.2.Quiet own x :=
    fun hs₁ => (hs₁.leads_spawn _ _).bind fun s₂ m hs₂ => Routine.leads_pure hs₂
  refine (Keeper.leads_isLocked may.glances_any _).bind fun locked m _ => ?_
  split
  · refine Routine.Leads.bind (P := fun y _ => y.2.Quiet own x) ?_ ?_
    · exact (Keeper.leads_recover may.glances_any s.keeper m).bind
        fun y n hy => Routine.leads_pure (hq.looks hy.looked)
    · rintro ⟨gone, s₂⟩ n hs₂
      cases gone
      · exact Routine.leads_pure hs₂
      · exact hrun hs₂
  · exact hrun hq

theorem stop (hq : s.Quiet own x) : s.stop.Quiet own x := by
  have hjobs : s.stop.keeper.jobs = s.keeper.jobs.map JobHandle.interrupt := rfl
  refine hq.keeps (k := s.stop.keeper) (Keeper.ids_stop s.keeper) (fun id hid => ?_)
    hq.stopped.symm hq.free
  have hmapped := hid.map (f := JobHandle.interrupt) (fun _ => rfl) fun _ _ => rfl
  unfold Keeper.Interrupts Keeper.job? at hmapped ⊢
  rw [hjobs]
  exact hmapped

theorem leads_releaseLeft (hq : s.Quiet own x) (d : Disk) :
    s.releaseLeft.Leads may d fun s' _ => s'.Quiet own x := by
  refine Routine.Leads.bind (P := fun y _ => y.2.Quiet own x) ?_ fun _ _ h => Routine.leads_pure h
  refine Routine.Leads.bind (P := fun y _ => y.2.ownership.holding = none ∧
    ∃ o, y.2 = { s.keeper with ownership := o }) ?_ fun y m hy => ?_
  · rintro ⟨r, k⟩ e h
    obtain ⟨o, hheld, rfl⟩ := Keeper.ends_owning h
    obtain ⟨y, m, -, hend⟩ := Routine.ends_seq.mp hheld
    obtain ⟨heq, rfl⟩ := Routine.ends_pure.mp hend
    cases heq
    exact ⟨rfl, _, rfl⟩
  · obtain ⟨r, k⟩ := y
    obtain ⟨hfree, o, rfl⟩ := hy
    exact Routine.leads_pure (hq.keeps rfl (fun _ h => h) rfl hfree)

/-- Whatever happens then, the scheduler stays quiet. -/
theorem leads_move (hq : s.Quiet own x) (y : Move) (d : Disk) :
    (s.move y).Leads may d fun s' _ => s'.Quiet own x := by
  cases y with
  | checkAt now =>
    refine Routine.Leads.bind (P := fun y _ => y.2.Quiet own x) ?_ fun _ _ h => Routine.leads_pure h
    refine Routine.Leads.bind (P := fun y _ => Keeper.Looked s.keeper y.2) ?_
      fun y m hy => Routine.leads_pure (hq.looks hy)
    rintro ⟨r, k⟩ e h
    have hlook : Keeper.LookStep may (fun _ _ => True) False (s.keeper, d) (k, e) :=
      .looks False.elim h
    exact hlook.looked
  | event y =>
    cases y with
    | job i => exact hq.leads_jobTurn i d
    | loop =>
      show s.loopTurn.Leads may d _
      unfold loopTurn
      rw [hq.loop]
      exact Routine.leads_pure hq
    | check i =>
      exact (Keeper.leads_fire may.glances_any s.keeper i d).bind
        fun k m hk => Routine.leads_pure (hq.looks hk.looked)
    | force => exact (hq.leads_forceUpdate d).bind fun y m hy => Routine.leads_pure hy
    | request => exact Routine.leads_pure (hq.keeps rfl (fun _ h => h) rfl hq.free)
    | run => exact hq.leads_spawn _ d
    | kill i => exact hq.leads_kill i d
    | stop => exact Routine.leads_pure hq.stop
    | releaseLeft => exact hq.leads_releaseLeft d
    | pass t => exact Routine.leads_pure (hq.keeps rfl (fun _ h => h) rfl hq.free)

end Quiet

end Scheduler

end SensorCache
