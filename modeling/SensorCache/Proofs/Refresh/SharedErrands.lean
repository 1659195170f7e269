import SensorCache.Proofs.Refresh.Errands
import SensorCache.Proofs.Refresh.SharedKeeper

/-!
# What tasks do to a lock that they share

A task that shares its keeper makes the lock file at most once, has that counted and remembered, and
ends with a guard if and only if it has done all this. It removes a lock file only if it has seen
there a time that was too long ago, or the time of what its own acquisition made (`SharedLock.watch`).
Of what the keeper remembers of the lock it changes nothing else. What the other tasks do to both
meanwhile is not said here.
-/

namespace SensorCache

open Disk Time

/-- What a task knows since it set out: the times that it read, when what it saw last in the lock's
place was changed, when it made the lock file that it has, the number of that acquisition, and what
it found to be held under that number. -/
structure TaskMind where
  times : List Instant
  seen : Option Instant
  made : Option Instant
  number : Option Nat
  taken : Option Holding

namespace TaskMind

/-- The task has made nothing. -/
structure Free (m : TaskMind) : Prop where
  made : m.made = none
  number : m.number = none
  taken : m.taken = none

/-- What was seen last was too old at a time that was read. -/
def TooOld (limit : Span) (m : TaskMind) : Prop :=
  ∃ now ∈ m.times, ∃ t ∈ m.seen, limit < now.since t

/-- The task made the lock file, and nothing of another time was seen in its place. -/
def SeesOwn (m : TaskMind) : Prop := m.made.isSome ∧ ∃ h ∈ m.taken, ∀ t ∈ m.seen, t = h.created

/-- The task has a lock, with this guard. -/
def Has (m : TaskMind) (g : LockGuard) : Prop := m.made.isSome ∧ m.number = some g.generation

/-- A task has the guard that it tells, or it has made nothing. -/
def Tells (m : TaskMind) (g : Option LockGuard) : Prop :=
  (g = none → m.Free) ∧ ∀ h ∈ g, m.Has h

/-- A change of what is remembered of the lock. -/
inductive Changes (m : TaskMind) (o o' : Ownership) : Prop where
  | keeps : o' = o → Changes m o o'
  | clears : o' = o.cleared → Changes m o o'
  | draws : m.made.isSome → m.number = none → o' = ⟨o.generations + 1, o.holding⟩ → Changes m o o'
  | remembers {n : Nat} {t : Instant} : m.number = some n → m.made = some t →
      o' = ⟨o.generations, some ⟨n, t⟩⟩ → Changes m o o'

/-- After a change of what is remembered of the lock. -/
def mark (m : TaskMind) (o o' : Ownership) : TaskMind :=
  { m with
    number := if o'.generations = o.generations then m.number else some o'.generations
    taken := m.number.bind fun n => o.heldBy ⟨n⟩ }

end TaskMind

namespace SharedLock

/-- The lock file is made once, and removed only if it was too old or is the task's own. -/
def watch (c : SharedLock) : ThreadWatch Keeper TaskMind where
  allows m o :=
    match o with
    | .now => True
    | .find _ => True
    | .makeDirectory _ => True
    | .create p => p = c.lock.path ∧ m.Free
    | .remove p => p = c.lock.path ∧ (m.TooOld c.maxAge ∨ m.SeesOwn)
    | _ => False
  note m o x :=
    { m with
      times := (o.timeRead x).toList ++ m.times
      seen := (o.saw c.lock.path x).getD m.seen
      made := if o.took x then none else (o.made x).or m.made }
  permits m k k' := m.Changes k.ownership k'.ownership
  mark m k k' := m.mark k.ownership k'.ownership

variable {c : SharedLock} {m : TaskMind}

theorem concerns_of_watch {o : Op} (h : c.watch.allows m o) : o.Concerns c.lock.path := by
  cases o with
  | create p => exact h.1
  | remove p => exact h.1
  | _ => exact h

/-- Who makes the lock file has made nothing before. -/
theorem free_of_made {o : Op} {x : o.Answer} {t : Instant} (h : c.watch.allows m o)
    (hmade : o.made x = some t) : m.Free := by
  cases o with
  | create p => exact h.2
  | _ => cases hmade

/-- Who takes the lock file has seen that it was too old, or sees its own. -/
theorem tooOld_or_seesOwn {o : Op} {x : o.Answer} (h : c.watch.allows m o) (htook : o.took x = true) :
    m.TooOld c.maxAge ∨ m.SeesOwn := by
  cases o with
  | remove p => exact h.2
  | _ => cases htook

/-! ## Tasks that have made nothing -/

section Free

variable {k k' : Keeper}

theorem free_note {o : Op} {x : o.Answer} (hm : m.Free) (ho : o.made x = none) :
    (c.watch.note m o x).Free := by
  refine ⟨?_, hm.number, hm.taken⟩
  show (if o.took x then none else (o.made x).or m.made) = none
  rw [ho, hm.made, Option.or_none]
  split <;> rfl

theorem free_mark (hm : m.Free) (hk : k'.ownership.generations = k.ownership.generations) :
    (c.watch.mark m k k').Free := by
  refine ⟨hm.made, ?_, ?_⟩
  · show (if _ then m.number else _) = none
    rw [if_pos hk, hm.number]
  · show m.number.bind _ = none
    rw [hm.number]
    rfl

/-- The task changes what does not concern the lock, or forgets what was held. -/
theorem obeys_modify {change : Keeper → Keeper} {post : TaskMind → Prop} (hm : m.Free)
    (hchange : ∀ k, (change k).ownership = k.ownership ∨ (change k).ownership = k.ownership.cleared)
    (hpost : ∀ m', m'.Free → m'.times = m.times → m'.seen = m.seen → post m') :
    (Thread.modify change).Obeys c.watch (fun m _ => post m) m := by
  refine Thread.obeys_modify fun k => ?_
  rcases hchange k with hk | hk
  · exact ⟨.keeps hk, hpost _ (free_mark hm (by rw [hk])) rfl rfl⟩
  · exact ⟨.clears hk, hpost _ (free_mark hm (by rw [hk]; rfl)) rfl rfl⟩

/-- What is made is the task's, counted and remembered under its number. -/
theorem obeys_tryAcquire (hm : m.Free) :
    c.tryAcquire.Obeys c.watch (fun m a => m.Tells a.toOption.join) m := by
  have hfree : ∀ {m : TaskMind}, m.Free → m.Tells none := fun hm => ⟨fun _ => hm, nofun⟩
  have hprepare : (ensureDirectory c.lock.path.parent).Obeys c.watch.toWatch (fun m _ => m.Free) m :=
    obeys_ensureDirectory (fun _ _ hm => ⟨trivial, fun _ => free_note hm rfl⟩)
      (fun _ _ hm => ⟨trivial, fun _ => free_note hm rfl⟩) _ hm
  refine (Thread.obeys_ofRoutine hprepare).bind fun m x hm => ?_
  cases x with
  | error e => exact hfree hm
  | ok _ =>
    refine ⟨⟨rfl, hm⟩, fun x => ?_⟩
    cases x with
    | error e =>
      have hm' : (c.watch.note m (.create c.lock.path) (.error e)).Free := free_note hm rfl
      cases e with
      | alreadyExists => exact hfree hm'
      | _ => exact hfree hm'
    | ok t =>
      intro k
      refine ⟨.draws rfl hm.number rfl, fun k' => ⟨?_, ?_⟩⟩
      · refine .remembers (n := k.ownership.generations + 1) (t := t) ?_ rfl rfl
        exact if_neg (Nat.succ_ne_self _)
      · refine ⟨nofun, fun g hg => ?_⟩
        cases hg
        refine ⟨rfl, ?_⟩
        exact (if_pos rfl).trans (if_neg (Nat.succ_ne_self _))

theorem obeys_isLocked {now : Instant} (hm : m.Free) (hnow : now ∈ m.times) :
    c.lock.isLocked.Obeys c.watch.toWatch (fun m _ => m.Free ∧ now ∈ m.times) m :=
  UpdateLock.obeys_isLocked trivial fun _ => ⟨free_note hm rfl, hnow⟩

/-- An age is that of what was seen last. -/
theorem obeys_ageAt {now : Instant} (hm : m.Free) (hnow : now ∈ m.times) :
    (c.lock.ageAt now).Obeys c.watch.toWatch
      (fun m age => m.Free ∧ ∀ a ∈ age, c.maxAge < a → m.TooOld c.maxAge) m := by
  have hlook : (look c.lock.path).Obeys c.watch.toWatch
      (fun m x => m.Free ∧ now ∈ m.times ∧ m.seen = x.map Node.modified) m :=
    obeys_look trivial fun x => ⟨free_note hm rfl, hnow, by simp [watch, Op.saw]⟩
  refine Routine.Obeys.bind hlook fun m x h => ?_
  obtain ⟨hm, hnow, hseen⟩ := h
  refine ⟨hm, fun a ha hold => ?_⟩
  obtain ⟨n, rfl, rfl⟩ := Option.map_eq_some_iff.mp ha
  exact ⟨now, hnow, n.modified, hseen, hold⟩

/-- What was too old before the keeper's memory is changed is so after it. -/
theorem obeys_forget (hm : m.Free) (hold : m.TooOld c.maxAge) :
    (Thread.modify Keeper.forget).Obeys c.watch (fun m _ => m.Free ∧ m.TooOld c.maxAge) m := by
  refine obeys_modify hm (fun k => .inr rfl) fun m' hm' htimes hseen => ⟨hm', ?_⟩
  unfold TaskMind.TooOld
  rw [htimes, hseen]
  exact hold

theorem obeys_interruptBlocked {now : Instant} (clock : Instant) (hm : m.Free)
    (hnow : now ∈ m.times) :
    (Thread.modify fun k => k.interruptBlocked clock).Obeys c.watch
      (fun m _ => m.Free ∧ now ∈ m.times) m := by
  refine obeys_modify hm (fun k => .inl (k.ownership_interruptBlocked clock)) ?_
  exact fun m' hm' htimes _ => ⟨hm', htimes ▸ hnow⟩

/-- The lock is removed only if it was seen to be too old. -/
theorem obeys_checkAt {now : Instant} (hm : m.Free) (hnow : now ∈ m.times) :
    (c.checkAt now).Obeys c.watch (fun m _ => m.Free) m := by
  refine (Thread.obeys_ofRoutine (obeys_isLocked hm hnow)).bind fun m locked hlooked => ?_
  split
  · have hclock : Disk.now.Obeys c.watch.toWatch (fun m _ => m.Free ∧ now ∈ m.times) m :=
      ⟨trivial, fun _ => ⟨free_note hlooked.1 rfl, List.mem_cons_of_mem _ hlooked.2⟩⟩
    refine (Thread.obeys_ofRoutine hclock).bind fun m clock hread => ?_
    refine (obeys_interruptBlocked clock hread.1 hread.2).bind fun m k hm => ?_
    refine (Thread.obeys_ofRoutine (obeys_ageAt hm.1 hm.2)).bind fun m age hage => ?_
    obtain ⟨hm, hage⟩ := hage
    cases age with
    | none => exact hm
    | some age =>
      dsimp only
      split
      · next hold =>
        refine (obeys_forget hm (hage age rfl hold)).bind fun m k hforgot => ?_
        obtain ⟨hm, hold⟩ := hforgot
        have hremove : c.lock.remove.Obeys c.watch.toWatch (fun m _ => m.Free) m :=
          UpdateLock.obeys_remove ⟨rfl, .inl hold⟩ fun _ => free_note hm rfl
        refine (Thread.obeys_ofRoutine hremove).bind fun m x hm => ?_
        cases x with
        | error e => exact hm
        | ok removed =>
          exact (obeys_modify hm (fun k => .inl rfl) fun m' hm' _ _ => hm').bind fun _ _ hm => hm
      · exact hm
  · exact hlooked.1

theorem obeys_check (hm : m.Free) : c.check.Obeys c.watch (fun m _ => m.Free) m :=
  ⟨trivial, fun _ => obeys_checkAt (free_note hm rfl) (List.mem_cons_self ..)⟩

theorem obeys_acquire (hm : m.Free) :
    c.acquire.Obeys c.watch (fun m a => m.Tells a.toOption.join) m := by
  refine (obeys_tryAcquire hm).bind fun m a ha => ?_
  rcases a with e | _ | g
  · exact ha
  · refine (obeys_check (ha.1 rfl)).bind fun m r hm => ?_
    split
    · exact obeys_tryAcquire hm
    · exact (obeys_modify hm (fun k => .inl (Keeper.alike_ensureArmed k).ownership)
        fun _ hm' _ _ => hm').bind fun _ _ hm => ⟨fun _ => hm, nofun⟩
  · exact ha

theorem obeys_recover (hm : m.Free) : c.recover.Obeys c.watch (fun m _ => m.Free) m := by
  refine (obeys_check hm).bind fun m r hm => ?_
  split
  · exact hm
  · have hlocked : c.lock.isLocked.Obeys c.watch.toWatch (fun m _ => m.Free) m :=
      UpdateLock.obeys_isLocked trivial fun x => free_note hm rfl
    refine (Thread.obeys_ofRoutine hlocked).bind fun m locked hm => ?_
    split
    · exact (obeys_modify hm (fun k => .inl (Keeper.alike_ensureArmed k).ownership)
        fun _ hm' _ _ => hm').bind fun _ _ hm => hm
    · exact hm

theorem obeys_fire (id : Nat) (hm : m.Free) :
    (c.fire id).Obeys c.watch (fun m _ => m.Free) m := by
  refine (obeys_modify hm (fun k => .inl ?_) fun _ hm' _ _ => hm').bind fun m k hm => ?_
  · split <;> rfl
  split
  · refine (obeys_check hm).bind fun m r hm => ?_
    split
    · refine (obeys_modify hm (fun k => .inl ?_) fun _ hm' _ _ => hm').bind fun _ _ hm => hm
      unfold Keeper.requestAfterRemoval
      split <;> rfl
    · split
      · refine (obeys_modify hm (fun k => .inl ?_) fun _ hm' _ _ => hm').bind fun _ _ hm => hm
        unfold Keeper.rescheduleUnlessStopped
        split <;> rfl
      · exact hm
  · exact hm

end Free

/-- Only a file that has the time of what was held is removed, or one that could not be seen. -/
theorem obeys_giveBack {held : Option Holding} (hmade : m.made.isSome) (htaken : m.taken = held) :
    (c.lock.giveBack held).Obeys c.watch.toWatch (fun _ _ => True) m := by
  cases held with
  | none => trivial
  | some h =>
    have hremove : ∀ {m : TaskMind}, m.SeesOwn →
        c.lock.remove.Obeys c.watch.toWatch (fun _ _ => True) m :=
      fun hm => UpdateLock.obeys_remove ⟨rfl, .inr hm⟩ fun _ => trivial
    have hlook : (look c.lock.path).Obeys c.watch.toWatch
        (fun m x => m.made.isSome ∧ m.taken = some h ∧ m.seen = x.map Node.modified) m :=
      Disk.obeys_look trivial fun x => ⟨hmade, htaken, by simp [watch, Op.saw]⟩
    refine (Attempt.Obeys.always hlook).bind (fun m x hx => ?_) fun _ _ _ => trivial
    obtain ⟨y, hy, hmade, htaken, hseen⟩ := hx
    cases hy
    cases x with
    | none => exact hremove ⟨hmade, h, htaken, by simp [hseen]⟩
    | some n =>
      dsimp only
      split
      · next heq =>
        refine hremove ⟨hmade, h, htaken, fun t ht => ?_⟩
        rw [hseen] at ht
        cases ht
        exact eq_of_beq heq
      · trivial

/-- A guard takes what is held under its number, and gives that back. -/
theorem obeys_release {g : LockGuard} (hm : m.Has g) :
    (c.release g).Obeys c.watch (fun _ _ => True) m := by
  refine fun k => ⟨?_, Thread.obeys_ofRoutine (obeys_giveBack hm.1 ?_)⟩
  · dsimp only
    unfold Keeper.forgetUnder
    split
    · exact .clears rfl
    · exact .keeps rfl
  · show m.number.bind _ = _
    rw [hm.2]
    rfl

end SharedLock

end SensorCache
