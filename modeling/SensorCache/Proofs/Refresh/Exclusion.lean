import SensorCache.Proofs.Refresh.Courses
import SensorCache.Proofs.Refresh.Keeping
import SensorCache.Refresh.Scheduler

/-!
# Jobs exclude each other

A job that waits in an update has the lock, and while the lock file is there no other job gets past
its first turn. The file goes only when the job gives it back or when a check removes it for its
age; then the job goes on without it, robbed of its lock, and another may start (`Exclusive`). What
the guard of a robbed job does later does not touch the lock of the other, since it is of an earlier
generation.
-/

namespace SensorCache

open Disk Time

variable {σ : Type} {fine : Disk → Prop} {l : UpdateLock} {d e : Disk} {may : Conduct}

/-! ## Who holds the lock -/

/-- Of the jobs that run, each with the generation of its guard, at most one was not robbed of its
lock. Its lock file is there, and if the process holds an acquisition, it is the job's. -/
structure Exclusive (runs : Nat → Nat → Prop) (robbed : List Nat) (o : Ownership) (p : Path)
    (d : Disk) : Prop where
  known {i g : Nat} : runs i g → g ≤ o.generations
  distinct {i j g : Nat} : runs i g → runs j g → i = j
  alone {i j g h : Nat} : runs i g → runs j h → i ∉ robbed → j ∉ robbed → i = j
  present {i g : Nat} : runs i g → i ∉ robbed → d.Present p
  held {i g : Nat} : runs i g → i ∉ robbed → ∀ k ∈ o.holding, k.generation = g

namespace Exclusive

variable {runs runs' : Nat → Nat → Prop} {robbed : List Nat} {o o' : Ownership} {p : Path}

/-- Fewer jobs. -/
theorem mono (h : Exclusive runs robbed o p d) (hsub : ∀ {i g}, runs' i g → runs i g) :
    Exclusive runs' robbed o p d where
  known hi := h.known (hsub hi)
  distinct hi hj := h.distinct (hsub hi) (hsub hj)
  alone hi hj := h.alone (hsub hi) (hsub hj)
  present hi := h.present (hsub hi)
  held hi := h.held (hsub hi)

theorem calm (h : Exclusive runs robbed o p d) (hd : fine d) (hc : Calm fine p d e) :
    Exclusive runs robbed o p e :=
  { h with present := fun hi hr => hc.present hd (h.present hi hr) }

/-- When every job was robbed nothing is left to tell but the generations. -/
theorem of_robbed (h : Exclusive runs robbed o p d) (ho : o'.generations = o.generations)
    {robbed' : List Nat} (hr : ∀ {i g}, runs i g → i ∈ robbed') (e : Disk) :
    Exclusive runs robbed' o' p e where
  known hi := ho ▸ h.known hi
  distinct := h.distinct
  alone hi _ hr' := absurd (hr hi) hr'
  present hi hr' := absurd (hr hi) hr'
  held hi hr' := absurd (hr hi) hr'

/-- An ownership that only forgot what it held. -/
theorem ownership (h : Exclusive runs robbed o p d) (ho : o' = o ∨ o' = o.cleared) :
    Exclusive runs robbed o' p d := by
  rcases ho with rfl | rfl
  · exact h
  · exact { h with held := fun _ _ k hk => nomatch hk }

/-- A job gets a lock that is not there: so all others were robbed. -/
theorem acquire (h : Exclusive runs robbed o p d) (habsent : ¬d.Present p) (id : Nat) (t : Instant)
    (he : e.Present p) :
    Exclusive (fun i g => runs i g ∨ (i = id ∧ g = o.generations + 1)) robbed (o.acquired t) p e := by
  -- Who was not robbed has the lock file there, and it is not.
  have hr : ∀ {i g}, runs i g → i ∈ robbed := by
    intro i g hi
    by_cases hir : i ∈ robbed
    · exact hir
    · exact absurd (h.present hi hir) habsent
  constructor
  · rintro i g (hi | ⟨-, rfl⟩)
    · exact Nat.le_succ_of_le (h.known hi)
    · exact Nat.le_refl _
  · rintro i j g (hi | ⟨rfl, rfl⟩) (hj | ⟨rfl, hg⟩)
    · exact h.distinct hi hj
    · have hle := h.known hi
      omega
    · have hle := h.known hj
      omega
    · rfl
  · rintro i j g k (hi | ⟨rfl, -⟩) (hj | ⟨rfl, -⟩) hir hjr
    · exact absurd (hr hi) hir
    · exact absurd (hr hi) hir
    · exact absurd (hr hj) hjr
    · rfl
  · exact fun _ _ => he
  · rintro i g (hi | ⟨-, rfl⟩) hir k hk
    · exact absurd (hr hi) hir
    · cases hk
      rfl

/-- A job gives back what it holds: if that was the lock, no other has it. -/
theorem release (h : Exclusive runs robbed o p d) {id g : Nat} (hid : runs id g) {k : Holding}
    (hk : o.holding = some k) (hg : k.generation = g) (e : Disk) :
    Exclusive (fun i j => runs i j ∧ i ≠ id) robbed o.cleared p e := by
  have hothers : Exclusive (fun i j => runs i j ∧ i ≠ id) robbed o p d := h.mono fun hi => hi.1
  refine hothers.of_robbed (show o.cleared.generations = o.generations from rfl) (fun {i j} hi => ?_) e
  by_cases hir : i ∈ robbed
  · exact hir
  · -- Not robbed, it would hold what was given back, and so be the same job.
    have hj : k.generation = j := h.held hi.1 hir k hk
    exact absurd (h.distinct hi.1 (hj ▸ hg ▸ hid)) hi.2

end Exclusive

/-! ## Targets and jobs that leave the lock alone -/

/-- The target leaves the lock alone, whatever it does. -/
structure Target.LeavesLock (fine : Disk → Prop) (l : UpdateLock) (t : Target σ) : Prop where
  check : t.requiresUpdate.Keeps (Calm fine l.path)
  update (limits : CallLimits) : (t.update limits).Keeps (Calm fine l.path)

/-- So does a job in all that it has still to do. -/
def JobPhase.LeavesLock (fine : Disk → Prop) (l : UpdateLock) : JobPhase σ → Prop
  | .queued ts => ∀ t ∈ ts, t.LeavesLock fine l
  | .blocked b => (∀ t ∈ b.rest, t.LeavesLock fine l) ∧ ∀ w, (b.next w).Keeps (Calm fine l.path)
  | .over _ => True

/-- The job is in an update. -/
def JobTask.isRunning (t : JobTask σ) : Bool :=
  match t.phase with
  | .blocked _ => true
  | _ => false

namespace Scheduler

variable {s s' s'' : Scheduler σ} {k₀ : Keeper} {id n : Nat} {g : LockGuard} {robbed : List Nat}

/-- The job `i` is in an update, with a guard of generation `g`. -/
def Runs (s : Scheduler σ) (i g : Nat) : Prop :=
  ∃ t ∈ s.tasks, t.id = i ∧ ∃ b, t.phase = .blocked b ∧ b.guard.generation = g

/-- The jobs that are in an update. -/
def runningIds (s : Scheduler σ) : List Nat := (s.tasks.filter JobTask.isRunning).map JobTask.id

theorem mem_runningIds_iff {i : Nat} : i ∈ s.runningIds ↔ ∃ g, s.Runs i g := by
  constructor
  · intro hi
    obtain ⟨t, ht, rfl⟩ := List.mem_map.mp hi
    obtain ⟨ht, hrun⟩ := List.mem_filter.mp ht
    unfold JobTask.isRunning at hrun
    split at hrun
    · next b hb => exact ⟨b.guard.generation, t, ht, rfl, b, hb, rfl⟩
    · cases hrun
  · rintro ⟨g, t, ht, rfl, b, hb, -⟩
    refine List.mem_map.mpr ⟨t, List.mem_filter.mpr ⟨ht, ?_⟩, rfl⟩
    simp [JobTask.isRunning, hb]

/-- The scheduler began with the keeper `k₀` and counts `n` removals, its jobs are numbered, and
they leave the lock alone. -/
structure Tidy (fine : Disk → Prop) (k₀ : Keeper) (n : Nat) (s : Scheduler σ) : Prop where
  same : Keeper.SameLock k₀ s.keeper
  counted : s.keeper.monitor.recovered = n
  targets : ∀ t ∈ s.targets, t.LeavesLock fine k₀.lock
  phases : ∀ t ∈ s.tasks, t.phase.LeavesLock fine k₀.lock
  ids : s.tasks.map JobTask.id = List.range' 1 s.tasks.length

/-- A scheduler of whose jobs those in `robbed` were robbed of the lock. -/
structure Guarded (fine : Disk → Prop) (k₀ : Keeper) (n : Nat) (robbed : List Nat) (s : Scheduler σ)
    (d : Disk) : Prop where
  tidy : s.Tidy fine k₀ n
  stays : fine d
  exclusive : Exclusive s.Runs robbed s.keeper.ownership k₀.lock.path d

/-- The scheduler in the turn of the job `id`, which has the guard `g`. -/
structure InTurn (fine : Disk → Prop) (k₀ : Keeper) (n : Nat) (robbed : List Nat) (id : Nat)
    (g : LockGuard) (s : Scheduler σ) (d : Disk) : Prop where
  tidy : s.Tidy fine k₀ n
  stays : fine d
  exclusive : Exclusive (fun i h => s.Runs i h ∨ (i = id ∧ h = g.generation)) robbed
    s.keeper.ownership k₀.lock.path d

/-- The scheduler differs only in what concerns neither the lock nor the tasks. -/
structure Alike (s s' : Scheduler σ) : Prop where
  keeper : Keeper.Alike s.keeper s'.keeper
  tasks : s'.tasks = s.tasks
  targets : s'.targets = s.targets

theorem Alike.refl (s : Scheduler σ) : Alike s s := ⟨.refl _, rfl, rfl⟩

theorem Alike.trans (h : Alike s s') (h' : Alike s' s'') : Alike s s'' :=
  ⟨h.keeper.trans h'.keeper, h'.tasks.trans h.tasks, h'.targets.trans h.targets⟩

theorem Alike.tidy (h : Alike s s') (hs : s.Tidy fine k₀ n) : s'.Tidy fine k₀ n := by
  refine ⟨hs.same.trans h.keeper.same, h.keeper.recovered.trans hs.counted, ?_, ?_, ?_⟩
  · rw [h.targets]
    exact hs.targets
  · rw [h.tasks]
    exact hs.phases
  · rw [h.tasks]
    exact hs.ids

theorem runs_of_tasks (h : s'.tasks = s.tasks) : s'.Runs = s.Runs := by
  funext i g
  unfold Runs
  rw [h]

theorem Alike.inTurn (h : Alike s s') (hc : Calm fine k₀.lock.path d e)
    (hs : s.InTurn fine k₀ n robbed id g d) : s'.InTurn fine k₀ n robbed id g e := by
  refine ⟨h.tidy hs.tidy, (hc hs.stays).1, ?_⟩
  rw [runs_of_tasks h.tasks, h.keeper.ownership]
  exact hs.exclusive.calm hs.stays hc

theorem Alike.guarded (h : Alike s s') (hc : Calm fine k₀.lock.path d e)
    (hs : s.Guarded fine k₀ n robbed d) : s'.Guarded fine k₀ n robbed e := by
  refine ⟨h.tidy hs.tidy, (hc hs.stays).1, ?_⟩
  rw [runs_of_tasks h.tasks, h.keeper.ownership]
  exact hs.exclusive.calm hs.stays hc

theorem alike_updateJob (s : Scheduler σ) (id : Nat) (f : JobHandle → JobHandle) :
    Alike s (s.updateJob id f) :=
  ⟨Keeper.alike_updateJob _ _ _, rfl, rfl⟩

theorem alike_arm (s : Scheduler σ) (id : Nat) : Alike s { s with keeper := s.keeper.arm id } :=
  ⟨Keeper.alike_arm _ _, rfl, rfl⟩

theorem alike_withScene (s : Scheduler σ) (c : Scene σ) : Alike s (s.withScene c) :=
  ⟨Keeper.alike_setJob _ _, rfl, rfl⟩

theorem Alike.setPhase (h : Alike s s') (id : Nat) (p : JobPhase σ) :
    Alike (s.setPhase id p) (s'.setPhase id p) := by
  refine ⟨h.keeper, ?_, h.targets⟩
  show s'.tasks.map _ = s.tasks.map _
  rw [h.tasks]

/-! ## A job gets on -/

theorem runs_setPhase {p : JobPhase σ} {i h : Nat} (hi : (s.setPhase id p).Runs i h) :
    (s.Runs i h ∧ i ≠ id) ∨ (i = id ∧ ∃ b, p = .blocked b ∧ b.guard.generation = h) := by
  obtain ⟨t, ht, rfl, b, hb, hg⟩ := hi
  obtain ⟨u, hu, rfl⟩ := List.mem_map.mp ht
  by_cases hid : u.id = id
  · rw [if_pos hid] at hb ⊢
    exact .inr ⟨rfl, b, hb, hg⟩
  · rw [if_neg hid] at hb ⊢
    exact .inl ⟨⟨u, hu, rfl, b, hb, hg⟩, hid⟩

theorem Tidy.setPhase (hs : s.Tidy fine k₀ n) (id : Nat) {p : JobPhase σ}
    (hp : p.LeavesLock fine k₀.lock) : (s.setPhase id p).Tidy fine k₀ n := by
  refine ⟨hs.same, hs.counted, hs.targets, ?_, ?_⟩
  · intro t ht
    obtain ⟨u, hu, rfl⟩ := List.mem_map.mp ht
    split
    · exact hp
    · exact hs.phases u hu
  · show ((s.tasks.map _).map _) = List.range' 1 (s.tasks.map _).length
    rw [List.length_map, ← hs.ids, List.map_map]
    refine List.map_congr_left fun u _ => ?_
    show (if u.id = id then _ else _ : JobTask σ).id = u.id
    split
    · next hid => exact hid.symm
    · rfl

/-- The turn of a job that runs, with the guard that it has. -/
theorem Guarded.inTurn (hs : s.Guarded fine k₀ n robbed d) (hrun : s.Runs id g.generation) :
    s.InTurn fine k₀ n robbed id g d := by
  refine ⟨hs.tidy, hs.stays, hs.exclusive.mono ?_⟩
  rintro i h (hi | ⟨rfl, rfl⟩)
  · exact hi
  · exact hrun

/-- The job in its turn waits. -/
theorem InTurn.waits (hs : s.InTurn fine k₀ n robbed id g d) {b : BlockedUpdate σ}
    (hb : (JobPhase.blocked b).LeavesLock fine k₀.lock) (hg : b.guard = g) :
    (s.setPhase id (.blocked b)).Guarded fine k₀ n robbed d := by
  refine ⟨hs.tidy.setPhase id hb, hs.stays, hs.exclusive.mono fun hi => ?_⟩
  rcases runs_setPhase hi with ⟨hi, -⟩ | ⟨rfl, c, heq, rfl⟩
  · exact .inl hi
  · cases heq
    exact .inr ⟨rfl, by rw [hg]⟩

/-- A job without the lock is over. -/
theorem Guarded.over (hs : s.Guarded fine k₀ n robbed d) (id : Nat) (x : JobEnd) :
    (s.setPhase id (.over x)).Guarded fine k₀ n robbed d := by
  refine ⟨hs.tidy.setPhase id trivial, hs.stays, hs.exclusive.mono fun hi => ?_⟩
  rcases runs_setPhase hi with ⟨hi, -⟩ | ⟨-, _, heq, -⟩
  · exact hi
  · cases heq

/-- The job in its turn gives back what its guard is for, and is over. -/
theorem InTurn.ends_giveBack (hl : LockGround k₀.lock fine)
    (hmay : may.Within (Calm fine k₀.lock.path)) (hs : s.InTurn fine k₀ n robbed id g d)
    (h : (s.giveBack g).Ends may d s' e) (x : JobEnd) :
    (s'.setPhase id (.over x)).Guarded fine k₀ n robbed e := by
  obtain ⟨⟨r, s₁⟩, m, hkeep, hend⟩ := Routine.ends_seq.mp h
  obtain ⟨rfl, rfl⟩ := Routine.ends_pure.mp hend
  obtain ⟨⟨r', k⟩, m, hrelease, hend⟩ := Routine.ends_seq.mp hkeep
  obtain ⟨heq, rfl⟩ := Routine.ends_pure.mp hend
  cases heq
  obtain ⟨hsame, hcount, hfine, hcases⟩ := Keeper.ends_release (hs.tidy.same.lock ▸ hl)
    (hs.tidy.same.lock ▸ hmay) hs.stays hrelease
  have htidy : ({ s with keeper := k } : Scheduler σ).Tidy fine k₀ n :=
    ⟨hs.tidy.same.trans hsame, hcount.trans hs.tidy.counted, hs.tidy.targets, hs.tidy.phases,
      hs.tidy.ids⟩
  have hothers : Exclusive (fun i h => (s.Runs i h ∨ (i = id ∧ h = g.generation)) ∧ i ≠ id) robbed
      k.ownership k₀.lock.path e := by
    rcases hcases with ⟨j, hj, hg, ho⟩ | ⟨ho, rfl⟩
    · rw [ho]
      exact hs.exclusive.release (.inr ⟨rfl, rfl⟩) hj hg e
    · rw [ho]
      exact hs.exclusive.mono fun hi => hi.1
  refine ⟨htidy.setPhase id trivial, hfine, hothers.mono fun hi => ?_⟩
  rcases runs_setPhase hi with ⟨hi, hne⟩ | ⟨-, _, heq, -⟩
  · exact ⟨.inl hi, hne⟩
  · cases heq

end Scheduler

end SensorCache
