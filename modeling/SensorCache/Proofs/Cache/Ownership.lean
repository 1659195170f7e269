import SensorCache.Proofs.Cache.Locking
import SensorCache.Proofs.Cache.Opening

/-!
# Whose the lock file is

A process knows its own lock file by the time of its creation, and each of its guards by the
generation of its acquisition. Over a whole history of acquisitions and releases, with lock files
that others make and take away in between (`LockStory`), that is enough to tell every lock file from
every other, as long as no two of them are made at the same time: `Attributed` is what a process's
memory says about the file that is there, and `acts_on_own_file` that what is removed is what it
should be.
-/

namespace SensorCache

open Disk

variable {d e : Disk} {dir p : Path} {t : Instant} {o : Ownership}

namespace UpdateLock

/-- The lock's directory is there, and no directory stands in the place of the lock file. -/
structure Placed (dir : Path) (d : Disk) : Prop where
  enters : ∃ a, d.enter dir = .ok a
  noDirectory : d.NoDirectory (inDirectory dir).path

/-- The lock can be worked with without errors: its directory is there, or will be made by the first
acquisition, whenever that is. -/
def Workable (dir : Path) (d : Disk) : Prop :=
  Placed dir d ∨ d.Missing (inDirectory dir).path ∧ ∀ t, ∃ e,
    (ensureDirectory (inDirectory dir).path.parent).run { d with clock := t } = (.ok (), e) ∧
      Placed dir e ∧ e.Missing (inDirectory dir).path

variable {l : UpdateLock}

theorem Placed.missing_or_file (h : Placed dir d) :
    d.Missing (inDirectory dir).path ∨ ∃ t, d.FileOf (inDirectory dir).path t := by
  obtain ⟨a, ha⟩ := h.enters
  have hno := h.noDirectory
  unfold Missing FileOf
  unfold NoDirectory at hno
  rw [path_inDirectory, view_join plain_lockName, ha] at hno ⊢
  simp only [find] at hno ⊢
  cases hn : d.node? (a ++ [fileName]) with
  | none => exact .inl rfl
  | some n =>
    cases n with
    | file c t => exact .inr ⟨t, c, rfl⟩
    | directory t =>
      rw [hn] at hno
      exact absurd rfl (hno t)

theorem Workable.missing_or_file (h : Workable dir d) :
    d.Missing (inDirectory dir).path ∨ ∃ t, d.FileOf (inDirectory dir).path t := by
  rcases h with hplaced | ⟨hmissing, -⟩
  · exact hplaced.missing_or_file
  · exact .inl hmissing

theorem Workable.clock (h : Workable dir d) (t : Instant) : Workable dir { d with clock := t } := by
  rcases h with ⟨⟨a, ha⟩, hno⟩ | ⟨hmissing, hmake⟩
  · refine .inl ⟨⟨a, (enter_clock d t dir).trans ha⟩, fun u hu => hno u ?_⟩
    rwa [view_clock] at hu
  · exact .inr ⟨(view_clock d t _).trans hmissing, hmake⟩

/-- A file that is there can be taken away, and its directory stays. -/
theorem Placed.remove (h : Placed dir d) (ht : d.FileOf (inDirectory dir).path t) :
    ∃ e, d.perform (.remove (inDirectory dir).path) = (.ok (), e) ∧ Placed dir e ∧
      e.Missing (inDirectory dir).path := by
  obtain ⟨c, hc⟩ := ht
  rw [path_inDirectory] at hc ⊢
  obtain ⟨a, ha, hn⟩ := (view_eq_file plain_lockName).mp hc
  have hp : d.perform (.remove (dir / ⟨fileName⟩)) = (.ok (), d.erase (a ++ [fileName])) := by
    show d.onPlace _ _ = _
    rw [onPlace_join plain_lockName, ha]
    simp [removeFile, hn]
  have hsame : SameDirectories d (d.erase (a ++ [fileName])) :=
    .erase (by simp) (isDirectoryAt_of_file hn)
  refine ⟨_, hp, ⟨⟨a, hsame.enter_ok ha⟩, hsame.noDirectory plain_lockName h.noDirectory⟩, ?_⟩
  rw [Missing, view_join plain_lockName, hsame.enter_ok ha]
  simp only [find]
  rw [node?_erase (by simp), if_pos rfl]

/-- A file that is not there can be made where its directory is. -/
theorem Placed.create (h : Placed dir d) (hm : d.Missing (inDirectory dir).path) :
    ∃ e, d.perform (.create (inDirectory dir).path) = (.ok d.clock, e) ∧ Placed dir e ∧
      e.FileOf (inDirectory dir).path d.clock := by
  obtain ⟨a, ha⟩ := h.enters
  have hno := h.noDirectory
  rw [path_inDirectory] at hm hno ⊢
  have hn : d.node? (a ++ [fileName]) = none := by
    rw [Missing, view_join plain_lockName, ha] at hm
    simp only [find] at hm
    split at hm
    · next hn => exact hn
    · cases hm
  have hdir := (noDirectory_join plain_lockName ha).mp hno
  have hp : d.perform (.create (dir / ⟨fileName⟩)) =
      (.ok d.clock, d.put (a ++ [fileName]) (.file .empty d.clock)) := by
    show d.onPlace _ _ = _
    rw [onPlace_join plain_lockName, ha]
    simp [createFile, hn]
  have hsame := SameDirectories.put_file (l := a ++ [fileName]) (by simp) hdir .empty d.clock
  exact ⟨_, hp, ⟨⟨a, hsame.enter_ok ha⟩, hsame.noDirectory plain_lockName hno⟩, .empty,
    view_put_file plain_lockName ha hdir _ _⟩

/-! ## The lock's operations, alone -/

theorem run_unlink {x : Except OsError Unit} (h : d.perform (.remove l.path) = (x, e)) :
    ((unlink l.path).caught : Attempt OsError _).run d = (.ok x, e) := by
  rw [Attempt.caught, Attempt.run_always]
  show (Except.ok (d.perform (.remove l.path)).1, (d.perform (.remove l.path)).2) = _
  rw [h]

theorem run_remove_missing (h : d.Missing l.path) : l.remove.run d = (.ok false, d) := by
  have hp : d.perform (.remove l.path) = (.error .notFound, d) := by
    rw [Missing, view] at h
    show d.onPlace _ _ = _
    have h' : (d.onPlace l.path fun a => (d.find a, d)).1 = .error .notFound := h
    unfold onPlace at h' ⊢
    split at h'
    · cases h'
      rfl
    · next a _ =>
      simp only [find] at h'
      split at h'
      · next hn => simp [removeFile, hn]
      · cases h'
  rw [remove, Attempt.run_bind_ok (run_unlink hp)]
  rfl

theorem run_remove_file (hw : Workable dir d) (ht : d.FileOf (inDirectory dir).path t) :
    ∃ e, (inDirectory dir).remove.run d = (.ok true, e) ∧ Workable dir e ∧
      e.Missing (inDirectory dir).path := by
  rcases hw with hplaced | ⟨hmissing, -⟩
  · obtain ⟨e, he, hplaced', hmissing⟩ := hplaced.remove ht
    refine ⟨e, ?_, .inl hplaced', hmissing⟩
    rw [remove, Attempt.run_bind_ok (run_unlink he)]
    rfl
  · exact absurd ht.present hmissing.not_present

/-- Looking does nothing. -/
theorem run_look (d : Disk) (p : Path) : (look p).run d = ((d.view p).toOption, d) := by
  show ((d.perform (.find p)).1.toOption, (d.perform (.find p)).2) = _
  rw [perform_find]
  rfl

theorem run_removeUnchanged (l : UpdateLock) (h : Holding) (d : Disk) :
    (l.removeUnchanged h).run d =
      match (d.view l.path).toOption with
      | some n => if n.modified = h.created then l.remove.run d else (.ok false, d)
      | none => l.remove.run d := by
  have hlook : (Attempt.always (look l.path) : Attempt OsError _).run d =
      (.ok (d.view l.path).toOption, d) := by
    rw [Attempt.run_always, run_look]
  have hrun : (l.removeUnchanged h).run d = _ := Attempt.run_bind_ok hlook
  rw [hrun]
  cases (d.view l.path).toOption with
  | none => rfl
  | some n =>
    by_cases hn : n.modified = h.created
    · simp [hn]
    · simp [hn]

/-- What is held is given back only if its file is there. -/
theorem run_giveBack (hw : Workable dir d) (held : Option Holding) :
    (∃ h e, held = some h ∧ d.FileOf (inDirectory dir).path h.created ∧
      ((inDirectory dir).giveBack held).run d = (.ok true, e) ∧ Workable dir e ∧
        e.Missing (inDirectory dir).path) ∨
      ((∀ h, held = some h → ¬d.FileOf (inDirectory dir).path h.created) ∧
        ((inDirectory dir).giveBack held).run d = (.ok false, d)) := by
  cases held with
  | none => exact .inr ⟨fun _ hh => (nomatch hh), rfl⟩
  | some h =>
    have hrun := run_removeUnchanged (inDirectory dir) h d
    rcases hw.missing_or_file with hm | ⟨t, ht⟩
    · have hview : (d.view (inDirectory dir).path).toOption = none := by rw [hm]; rfl
      rw [hview] at hrun
      exact .inr ⟨fun _ _ hf => hm.not_present hf.present, hrun.trans (run_remove_missing hm)⟩
    · obtain ⟨c, hc⟩ := ht
      have hview : (d.view (inDirectory dir).path).toOption = some (.file c t) := by rw [hc]; rfl
      rw [hview] at hrun
      by_cases hcreated : t = h.created
      · obtain ⟨e, he, hrest⟩ := run_remove_file hw ⟨c, hc⟩
        refine .inl ⟨h, e, rfl, ⟨c, hcreated ▸ hc⟩, ?_, hrest⟩
        exact (hrun.trans (if_pos hcreated)).trans he
      · refine .inr ⟨?_, hrun.trans (if_neg hcreated)⟩
        rintro h' hh' ⟨c', hc'⟩
        cases hh'
        rw [hc] at hc'
        cases hc'
        exact hcreated rfl

theorem run_release (l : UpdateLock) (o : Ownership) (g : LockGuard) (d : Disk) :
    (l.release o g).run d =
      ((((l.giveBack (o.heldBy g)).run d).1, if (o.heldBy g).isSome then o.cleared else o),
        ((l.giveBack (o.heldBy g)).run d).2) := by
  simp only [release, Routine.run_bind, Routine.run_pure, Attempt.run]

theorem run_releaseIfHeld (l : UpdateLock) (o : Ownership) (d : Disk) :
    (l.releaseIfHeld o).run d =
      ((((l.giveBack o.holding).run d).1, o.cleared), ((l.giveBack o.holding).run d).2) := by
  simp only [releaseIfHeld, Routine.run_bind, Routine.run_pure, Attempt.run]

theorem run_forceRelease (l : UpdateLock) (o : Ownership) (d : Disk) :
    (l.forceRelease o).run d = (((l.remove.run d).1, o.cleared), (l.remove.run d).2) := by
  simp only [forceRelease, Routine.run_bind, Routine.run_pure, Attempt.run]

theorem run_tryAcquire_missing (hw : Workable dir d) (hm : d.Missing (inDirectory dir).path)
    (o : Ownership) :
    ∃ t e, ((inDirectory dir).tryAcquire o).run d =
        ((.ok (some (o.acquired t).guard), o.acquired t), e) ∧
      Workable dir e ∧ e.FileOf (inDirectory dir).path t := by
  obtain ⟨m, hprepared, hplaced, hm'⟩ : ∃ m, (ensureDirectory (inDirectory dir).path.parent).run d =
      (.ok (), m) ∧ Placed dir m ∧ m.Missing (inDirectory dir).path := by
    rcases hw with hplaced | ⟨-, hmake⟩
    · obtain ⟨a, ha⟩ := hplaced.enters
      exact ⟨d, run_ensureDirectory (enter_parent plain_lockName ha), hplaced, hm⟩
    · exact hmake d.clock
  obtain ⟨e, he, hplaced', hfile⟩ := hplaced.create hm'
  refine ⟨m.clock, e, ?_, .inl hplaced', hfile⟩
  have hcreate : (createNew (inDirectory dir).path).run m = (.ok m.clock, e) := he
  rw [Attempt.run] at hprepared hcreate
  simp only [tryAcquire, Routine.run_bind, hprepared, hcreate, Routine.run_pure]

theorem run_tryAcquire_file (hw : Workable dir d) (ht : d.FileOf (inDirectory dir).path t)
    (o : Ownership) : ((inDirectory dir).tryAcquire o).run d = ((.ok none, o), d) := by
  rcases hw with hplaced | ⟨hmissing, -⟩
  · obtain ⟨a, ha⟩ := hplaced.enters
    have hprepared := run_ensureDirectory (enter_parent plain_lockName ha)
    have hcreate : (createNew (inDirectory dir).path).run d = (.error .alreadyExists, d) :=
      create_of_present ht.present
    rw [Attempt.run] at hprepared hcreate
    rw [path_inDirectory] at hcreate
    simp only [tryAcquire, Routine.run_bind, path_inDirectory, hprepared, hcreate, Routine.run_pure]
  · exact absurd ht.present hmissing.not_present

end UpdateLock

/-! ## Histories -/

/-- Who made a lock file: this process, when it was given its guard of that number, or another
one. -/
inductive LockMaker where
  | ours (guard : Nat)
  | others
  deriving DecidableEq

/-- A lock in the course of time: the disk and what one process remembers, with the guards that it
was given so far, who made the lock file that is there, and when all the lock files were made. -/
structure LockStory where
  disk : Disk
  ownership : Ownership
  guards : List LockGuard
  maker : Option LockMaker
  dates : List Instant

/-- What may happen to a lock. A guard is released by its holder or because it is dropped. -/
inductive LockEvent where
  | acquire
  | release (guard : Nat)
  | releaseIfHeld
  | forceRelease
  | othersAcquire
  | othersRemove
  | clock (t : Instant)

namespace LockStory

/-- When the file at a path was made, if there is one. -/
def datesAt (p : Path) (d : Disk) : List Instant := ((d.view p).toOption.map Node.modified).toList

/-- Before anything happened. A lock file that is there already was made by others. -/
def start (l : UpdateLock) (d : Disk) : LockStory :=
  ⟨d, .none, [], if d.Present l.path then some .others else none, datesAt l.path d⟩

/-- After `who` did something by which the disk became `d`. A lock file that was there before is
still its maker's. -/
def after (l : UpdateLock) (s : LockStory) (who : LockMaker) (o : Ownership) (d : Disk) : LockStory where
  disk := d
  ownership := o
  guards := s.guards
  maker := if d.Present l.path then if s.disk.Present l.path then s.maker else some who else none
  dates := datesAt l.path d ++ s.dates

def given (s : LockStory) (g : LockGuard) : LockStory := { s with guards := s.guards ++ [g] }

def happen (l : UpdateLock) (s : LockStory) : LockEvent → LockStory
  | .acquire =>
    let ((r, o), d) := (l.tryAcquire s.ownership).run s.disk
    let s' := s.after l (.ours s.guards.length) o d
    match r with
    | .ok (some g) => s'.given g
    | _ => s'
  | .release n =>
    match s.guards[n]? with
    | some g =>
      let ((_, o), d) := (l.release s.ownership g).run s.disk
      s.after l (.ours n) o d
    | none => s
  | .releaseIfHeld =>
    let ((_, o), d) := (l.releaseIfHeld s.ownership).run s.disk
    s.after l .others o d
  | .forceRelease =>
    let ((_, o), d) := (l.forceRelease s.ownership).run s.disk
    s.after l .others o d
  | .othersAcquire =>
    let (_, d) := (l.tryAcquire .none).run s.disk
    s.after l .others s.ownership d
  | .othersRemove =>
    let (_, d) := l.remove.run s.disk
    s.after l .others s.ownership d
  | .clock t => { s with disk := { s.disk with clock := t } }

/-- A lock file that was made on the way to `s'` was made at another time than all before it. -/
def Fresh (l : UpdateLock) (s s' : LockStory) : Prop :=
  s.disk.Present l.path ∨ ∀ t ∈ datesAt l.path s'.disk, t ∉ s.dates

instance (l : UpdateLock) (s s' : LockStory) : Decidable (Fresh l s s') :=
  inferInstanceAs (Decidable (_ ∨ _))

/-- The histories of the lock in a directory, from any that it can be worked with in. -/
inductive Reaches (dir : Path) : LockStory → Prop where
  | start {d : Disk} : UpdateLock.Workable dir d → Reaches dir (start (.inDirectory dir) d)
  | next {s : LockStory} (v : LockEvent) : Reaches dir s →
      Fresh (.inDirectory dir) s (s.happen (.inDirectory dir) v) →
      Reaches dir (s.happen (.inDirectory dir) v)

/-- What is remembered says of the lock file that is there whether it is this process's, and for
which guard. -/
structure Attributed (dir : Path) (s : LockStory) : Prop where
  workable : UpdateLock.Workable dir s.disk
  generations : s.ownership.generations = s.guards.length
  guards : ∀ n g, s.guards[n]? = some g → g.generation = n + 1
  dated : ∀ t, s.disk.FileOf (UpdateLock.inDirectory dir).path t → t ∈ s.dates
  held_dated : ∀ h, s.ownership.holding = some h → h.created ∈ s.dates
  nobodys : s.maker = none → s.disk.Missing (UpdateLock.inDirectory dir).path
  ours : ∀ n, s.maker = some (.ours n) → ∃ t,
    s.disk.FileOf (UpdateLock.inDirectory dir).path t ∧ s.ownership.holding = some ⟨n + 1, t⟩
  others : s.maker = some .others → ∃ t,
    s.disk.FileOf (UpdateLock.inDirectory dir).path t ∧
      ∀ h, s.ownership.holding = some h → h.created ≠ t

theorem datesAt_of_file (h : d.FileOf p t) : datesAt p d = [t] := by
  obtain ⟨c, hc⟩ := h
  rw [datesAt, hc]
  rfl

theorem datesAt_of_missing (h : d.Missing p) : datesAt p d = [] := by
  rw [datesAt, h]
  rfl

variable {s : LockStory} {who : LockMaker}

/-! ### What becomes of a story -/

theorem after_missing (l : UpdateLock) (h : e.Missing l.path) :
    s.after l who o e = { s with disk := e, ownership := o, maker := none } := by
  simp only [after]
  rw [if_neg h.not_present, datesAt_of_missing h, List.nil_append]

theorem after_made (l : UpdateLock) (hd : s.disk.Missing l.path) (h : e.FileOf l.path t) :
    s.after l who o e =
      { s with disk := e, ownership := o, maker := some who, dates := t :: s.dates } := by
  simp only [after]
  rw [if_pos h.present, if_neg hd.not_present, datesAt_of_file h, List.singleton_append]

theorem after_same (l : UpdateLock) (h : s.disk.FileOf l.path t) :
    s.after l who o s.disk = { s with ownership := o, dates := t :: s.dates } := by
  simp only [after]
  rw [if_pos h.present, if_pos h.present, datesAt_of_file h, List.singleton_append]

namespace Attributed

variable (h : Attributed dir s)
include h

/-- A file that is held is one of this process's. -/
theorem ours_of_held {k : Holding} (hk : s.ownership.holding = some k)
    (hfile : s.disk.FileOf (UpdateLock.inDirectory dir).path k.created) :
    ∃ n, s.maker = some (.ours n) ∧ k.generation = n + 1 := by
  cases hmaker : s.maker with
  | none => exact absurd hfile.present (h.nobodys hmaker).not_present
  | some who =>
    cases who with
    | ours n =>
      obtain ⟨t, -, hholding⟩ := h.ours n hmaker
      rw [hk] at hholding
      cases hholding
      exact ⟨n, rfl, rfl⟩
    | others =>
      obtain ⟨t, ht, hother⟩ := h.others hmaker
      exact absurd (hfile.unique ht) (hother k hk)

/-- A story goes on with the same disk when no more is held than before, and nothing of this
process's is forgotten. -/
theorem same (hgen : o.generations = s.ownership.generations)
    (hheld : o.holding = s.ownership.holding ∨ o.holding = none ∧ ∀ n, s.maker ≠ some (.ours n)) :
    Attributed dir (s.after (.inDirectory dir) who o s.disk) := by
  have hsub : ∀ k, o.holding = some k → s.ownership.holding = some k := by
    intro k hk
    rcases hheld with hsame | ⟨hnone, -⟩
    · rwa [hsame] at hk
    · rw [hnone] at hk
      cases hk
  have hours : ∀ n, s.maker = some (.ours n) → o.holding = s.ownership.holding :=
    fun n hn => hheld.elim id fun hforgot => absurd hn (hforgot.2 n)
  rcases h.workable.missing_or_file with hm | ⟨t, ht⟩
  · rw [after_missing _ hm]
    exact ⟨h.workable, hgen.trans h.generations, h.guards, h.dated,
      fun k hk => h.held_dated k (hsub k hk), fun _ => hm, fun _ hn => (nomatch hn), fun hn => (nomatch hn)⟩
  · rw [after_same _ ht]
    refine ⟨h.workable, hgen.trans h.generations, h.guards, fun u hu => .tail _ (h.dated u hu),
      fun k hk => .tail _ (h.held_dated k (hsub k hk)), h.nobodys, fun n hn => ?_, fun hn => ?_⟩
    · show ∃ t, _ ∧ o.holding = _
      rw [hours n hn]
      exact h.ours n hn
    · obtain ⟨u, hu, hother⟩ := h.others hn
      exact ⟨u, hu, fun k hk => hother k (hsub k hk)⟩

/-- The lock file is gone. -/
theorem removed (hw : UpdateLock.Workable dir e) (hm : e.Missing (UpdateLock.inDirectory dir).path)
    (hgen : o.generations = s.ownership.generations)
    (hsub : ∀ k, o.holding = some k → s.ownership.holding = some k) :
    Attributed dir (s.after (.inDirectory dir) who o e) := by
  rw [after_missing _ hm]
  exact ⟨hw, hgen.trans h.generations, h.guards, fun t ht => absurd ht.present hm.not_present,
    fun k hk => h.held_dated k (hsub k hk), fun _ => hm, fun _ hn => (nomatch hn), fun hn => (nomatch hn)⟩

/-- Another process has made a lock file. -/
theorem others_made (hd : s.disk.Missing (UpdateLock.inDirectory dir).path)
    (hw : UpdateLock.Workable dir e) (ht : e.FileOf (UpdateLock.inDirectory dir).path t)
    (hnew : t ∉ s.dates) :
    Attributed dir (s.after (.inDirectory dir) .others s.ownership e) := by
  rw [after_made _ hd ht]
  refine ⟨hw, h.generations, h.guards, fun u hu => ?_, fun k hk => .tail _ (h.held_dated k hk),
    fun hn => (nomatch hn), fun _ hn => (nomatch hn), fun _ => ⟨t, ht, fun k hk heq => ?_⟩⟩
  · rw [hu.unique ht]
    exact .head _
  · exact hnew (heq ▸ h.held_dated k hk)

/-- This process has made a lock file, and was given a guard for it. -/
theorem ours_made (hd : s.disk.Missing (UpdateLock.inDirectory dir).path)
    (hw : UpdateLock.Workable dir e) (ht : e.FileOf (UpdateLock.inDirectory dir).path t) :
    Attributed dir ((s.after (.inDirectory dir) (.ours s.guards.length) (s.ownership.acquired t) e).given
      (s.ownership.acquired t).guard) := by
  have hgen : s.ownership.generations + 1 = s.guards.length + 1 := by rw [h.generations]
  rw [after_made _ hd ht]
  refine ⟨hw, ?_, fun n g hg => ?_, fun u hu => ?_, fun k hk => ?_, fun hn => (nomatch hn),
    fun n hn => ⟨t, ht, ?_⟩, fun hn => (nomatch hn)⟩
  · show s.ownership.generations + 1 = (s.guards ++ [_]).length
    rw [List.length_append, hgen]
    rfl
  · have hg' : (s.guards ++ [(s.ownership.acquired t).guard])[n]? = some g := hg
    rcases Nat.lt_or_ge n s.guards.length with hlt | hge
    · rw [List.getElem?_append_left hlt] at hg'
      exact h.guards n g hg'
    · rw [List.getElem?_append_right hge, List.getElem?_singleton] at hg'
      split at hg'
      · next hz =>
        cases hg'
        have hn : n = s.guards.length := by omega
        rw [hn]
        exact hgen
      · cases hg'
  · rw [hu.unique ht]
    exact .head _
  · cases hk
    exact .head _
  · cases hn
    show some (Holding.mk (s.ownership.generations + 1) t) = _
    rw [hgen]

/-- What is held is given back: its file is taken away, or the disk stays as it is. -/
theorem gave_back (held : Option Holding) (hheld : ∀ k, held = some k → s.ownership.holding = some k)
    (hgen : o.generations = s.ownership.generations)
    (hrest : o.holding = if held.isSome then none else s.ownership.holding) :
    Attributed dir (s.after (.inDirectory dir) who o
      (((UpdateLock.inDirectory dir).giveBack held).run s.disk).2) := by
  rcases UpdateLock.run_giveBack h.workable held with ⟨k, e, rfl, -, hrun, hw, hm⟩ | ⟨hno, hrun⟩
  · rw [hrun]
    have hnone : o.holding = none := hrest
    exact h.removed hw hm hgen fun j hj => by rw [hnone] at hj; cases hj
  · rw [hrun]
    refine h.same hgen ?_
    cases held with
    | none => exact .inl hrest
    | some k =>
      refine .inr ⟨hrest, fun n hn => ?_⟩
      obtain ⟨t, ht, hholding⟩ := h.ours n hn
      rw [hheld k rfl] at hholding
      cases hholding
      exact hno _ rfl ht

end Attributed

theorem holding_of_heldBy {g : LockGuard} {k : Holding} (hk : o.heldBy g = some k) :
    o.holding = some k ∧ k.generation = g.generation := by
  obtain ⟨hk, hgen⟩ := Option.filter_eq_some_iff.mp hk
  exact ⟨hk, beq_iff_eq.mp hgen⟩

theorem heldBy_of_holding {g : LockGuard} {k : Holding} (hk : o.holding = some k)
    (hgen : k.generation = g.generation) : o.heldBy g = some k :=
  Option.filter_eq_some_iff.mpr ⟨hk, beq_iff_eq.mpr hgen⟩

theorem Attributed.happen (h : Attributed dir s) (v : LockEvent)
    (hfresh : Fresh (.inDirectory dir) s (s.happen (.inDirectory dir) v)) :
    Attributed dir (s.happen (.inDirectory dir) v) := by
  cases v with
  | acquire =>
    rcases h.workable.missing_or_file with hm | ⟨t, ht⟩
    · obtain ⟨t, e, hrun, hw, ht⟩ := UpdateLock.run_tryAcquire_missing h.workable hm s.ownership
      simp only [LockStory.happen, hrun]
      exact h.ours_made hm hw ht
    · simp only [LockStory.happen, UpdateLock.run_tryAcquire_file h.workable ht s.ownership]
      exact h.same rfl (.inl rfl)
  | release n =>
    simp only [LockStory.happen]
    cases hg : s.guards[n]? with
    | none => exact h
    | some g =>
      simp only [UpdateLock.run_release]
      refine h.gave_back (s.ownership.heldBy g) (fun k hk => (holding_of_heldBy hk).1) ?_ ?_
      · cases s.ownership.heldBy g <;> rfl
      · cases s.ownership.heldBy g <;> rfl
  | releaseIfHeld =>
    simp only [LockStory.happen, UpdateLock.run_releaseIfHeld]
    refine h.gave_back s.ownership.holding (fun _ hk => hk) rfl ?_
    cases s.ownership.holding <;> rfl
  | forceRelease =>
    simp only [LockStory.happen, UpdateLock.run_forceRelease]
    rcases h.workable.missing_or_file with hm | ⟨t, ht⟩
    · rw [UpdateLock.run_remove_missing hm]
      refine h.same rfl (.inr ⟨rfl, fun n hn => ?_⟩)
      obtain ⟨t, ht, -⟩ := h.ours n hn
      exact hm.not_present ht.present
    · obtain ⟨e, hremove, hw, hm⟩ := UpdateLock.run_remove_file h.workable ht
      rw [hremove]
      exact h.removed hw hm rfl fun _ hk => nomatch hk
  | othersAcquire =>
    rcases h.workable.missing_or_file with hm | ⟨t, ht⟩
    · obtain ⟨t, e, hrun, hw, ht⟩ := UpdateLock.run_tryAcquire_missing h.workable hm .none
      simp only [LockStory.happen, hrun] at hfresh ⊢
      refine h.others_made hm hw ht ?_
      refine (hfresh.resolve_left hm.not_present) t ?_
      show t ∈ datesAt _ e
      rw [datesAt_of_file ht]
      exact .head _
    · simp only [LockStory.happen, UpdateLock.run_tryAcquire_file h.workable ht]
      exact h.same rfl (.inl rfl)
  | othersRemove =>
    simp only [LockStory.happen]
    rcases h.workable.missing_or_file with hm | ⟨t, ht⟩
    · rw [UpdateLock.run_remove_missing hm]
      exact h.same rfl (.inl rfl)
    · obtain ⟨e, hremove, hw, hm⟩ := UpdateLock.run_remove_file h.workable ht
      rw [hremove]
      exact h.removed hw hm rfl fun _ hk => hk
  | clock t =>
    have hfile : ∀ u, { s.disk with clock := t }.FileOf (UpdateLock.inDirectory dir).path u ↔
        s.disk.FileOf (UpdateLock.inDirectory dir).path u := by
      intro u
      simp only [FileOf, view_clock]
    exact ⟨h.workable.clock t, h.generations, h.guards, fun u hu => h.dated u ((hfile u).mp hu),
      h.held_dated, fun hn => (view_clock _ _ _).trans (h.nobodys hn),
      fun n hn => have ⟨u, hu, hheld⟩ := h.ours n hn; ⟨u, (hfile u).mpr hu, hheld⟩,
      fun hn => have ⟨u, hu, hother⟩ := h.others hn; ⟨u, (hfile u).mpr hu, hother⟩⟩

theorem attributed_start (hw : UpdateLock.Workable dir d) :
    Attributed dir (start (.inDirectory dir) d) := by
  rcases hw.missing_or_file with hm | ⟨t, ht⟩
  · have hmaker : (start (.inDirectory dir) d).maker = none := if_neg hm.not_present
    refine ⟨hw, rfl, fun _ _ hg => (nomatch hg), fun t ht => absurd ht.present hm.not_present,
      fun _ hk => (nomatch hk), fun _ => hm, fun n hn => ?_, fun hn => ?_⟩ <;>
    · rw [hmaker] at hn
      cases hn
  · have hmaker : (start (.inDirectory dir) d).maker = some .others := if_pos ht.present
    refine ⟨hw, rfl, fun _ _ hg => (nomatch hg), fun u hu => ?_, fun _ hk => (nomatch hk), fun hn => ?_,
      fun n hn => ?_, fun _ => ⟨t, ht, fun _ hk => (nomatch hk)⟩⟩
    · rw [hu.unique ht]
      show t ∈ datesAt _ d
      rw [datesAt_of_file ht]
      exact .head _
    · rw [hmaker] at hn
      cases hn
    · rw [hmaker] at hn
      cases hn

/-- In every history, what is remembered says whose the lock file is. -/
theorem Reaches.attributed (h : Reaches dir s) : Attributed dir s := by
  induction h with
  | start hw => exact attributed_start hw
  | next v _ hfresh ih => exact ih.happen v hfresh

/-! ### What is removed -/

/-- As the next thing in a story, `r` does not fail; it removes the lock file if that is `own`, and
else leaves the disk as it is, and it tells which. -/
def RemovesJust (l : UpdateLock) (s : LockStory) (own : Prop)
    (r : Routine (Except OsError Bool × Ownership)) : Prop :=
  ∃ b o e, r.run s.disk = ((.ok b, o), e) ∧
    (own → b = true ∧ s.disk.Present l.path ∧ ¬e.Present l.path) ∧ (¬own → b = false ∧ e = s.disk)

theorem Attributed.removesJust (h : Attributed dir s) (held : Option Holding) {own : Prop}
    (hown : own ↔ ∃ k, held = some k ∧ s.disk.FileOf (UpdateLock.inDirectory dir).path k.created)
    {r : Routine (Except OsError Bool × Ownership)}
    (hr : r.run s.disk = (((((UpdateLock.inDirectory dir).giveBack held).run s.disk).1, o),
      (((UpdateLock.inDirectory dir).giveBack held).run s.disk).2)) :
    RemovesJust (.inDirectory dir) s own r := by
  rcases UpdateLock.run_giveBack h.workable held with ⟨k, e, hk, hfile, hrun, -, hm⟩ | ⟨hno, hrun⟩
  · rw [hrun] at hr
    exact ⟨true, o, e, hr, fun _ => ⟨rfl, hfile.present, hm.not_present⟩,
      fun hnot => absurd (hown.mpr ⟨k, hk, hfile⟩) hnot⟩
  · rw [hrun] at hr
    refine ⟨false, o, s.disk, hr, fun h => ?_, fun _ => ⟨rfl, rfl⟩⟩
    obtain ⟨k, hk, hfile⟩ := hown.mp h
    exact absurd hfile (hno k hk)

/-- An acquisition where there is no lock file makes one, which is the file of its guard. -/
theorem Attributed.acquires (h : Attributed dir s)
    (hm : s.disk.Missing (UpdateLock.inDirectory dir).path) :
    ∃ g o, ((UpdateLock.inDirectory dir).tryAcquire s.ownership).run s.disk =
        ((.ok (some g), o), (s.happen (.inDirectory dir) .acquire).disk) ∧
      (s.happen (.inDirectory dir) .acquire).disk.Present (UpdateLock.inDirectory dir).path ∧
      (s.happen (.inDirectory dir) .acquire).maker = some (.ours s.guards.length) ∧
      (s.happen (.inDirectory dir) .acquire).guards = s.guards ++ [g] := by
  obtain ⟨t, e, hrun, -, ht⟩ := UpdateLock.run_tryAcquire_missing h.workable hm s.ownership
  refine ⟨(s.ownership.acquired t).guard, s.ownership.acquired t, ?_⟩
  simp only [LockStory.happen, hrun, after_made _ hm ht]
  exact ⟨rfl, ht.present, rfl, rfl⟩

/-- In every history of a lock, with others who make and remove its file, an acquisition gives a
guard exactly when there is no lock file, and the file that it makes then is the guard's. A guard that
is released or dropped takes away exactly the file of its own acquisition, whatever became of the
lock since, a shutdown exactly one that this process has made, and a release by force any. -/
theorem acts_on_own_file (h : Reaches dir s) :
    (∃ r o e, ((UpdateLock.inDirectory dir).tryAcquire s.ownership).run s.disk = ((.ok r, o), e) ∧
      (r.isSome ↔ ¬s.disk.Present (UpdateLock.inDirectory dir).path) ∧ (r = none → e = s.disk) ∧
      ∀ g, r = some g → e.Present (UpdateLock.inDirectory dir).path ∧
        (s.happen (.inDirectory dir) .acquire).maker = some (.ours s.guards.length) ∧
        (s.happen (.inDirectory dir) .acquire).guards = s.guards ++ [g]) ∧
    (∀ (n : Nat) g, s.guards[n]? = some g → RemovesJust (.inDirectory dir) s (s.maker = some (.ours n))
      ((UpdateLock.inDirectory dir).release s.ownership g)) ∧
    RemovesJust (.inDirectory dir) s (∃ n, s.maker = some (.ours n))
      ((UpdateLock.inDirectory dir).releaseIfHeld s.ownership) ∧
    RemovesJust (.inDirectory dir) s (s.disk.Present (UpdateLock.inDirectory dir).path)
      ((UpdateLock.inDirectory dir).forceRelease s.ownership) := by
  have ha := h.attributed
  refine ⟨?_, fun n g hg => ?_, ?_, ?_⟩
  · rcases ha.workable.missing_or_file with hm | ⟨t, ht⟩
    · obtain ⟨g, o, hrun, hpresent, hmaker, hguards⟩ := ha.acquires hm
      refine ⟨_, o, _, hrun, by simpa using hm.not_present, nofun, fun g' hg' => ?_⟩
      cases hg'
      exact ⟨hpresent, hmaker, hguards⟩
    · exact ⟨_, _, _, UpdateLock.run_tryAcquire_file ha.workable ht s.ownership,
        by simpa using ht.present, fun _ => rfl, nofun⟩
  · refine ha.removesJust (s.ownership.heldBy g) ?_ (UpdateLock.run_release _ _ _ _)
    have hgen := ha.guards n g hg
    constructor
    · intro hown
      obtain ⟨t, ht, hholding⟩ := ha.ours n hown
      exact ⟨_, heldBy_of_holding hholding hgen.symm, ht⟩
    · rintro ⟨k, hk, hfile⟩
      obtain ⟨hk, hkgen⟩ := holding_of_heldBy hk
      obtain ⟨m, hmaker, hm⟩ := ha.ours_of_held hk hfile
      obtain rfl : m = n := by omega
      exact hmaker
  · refine ha.removesJust s.ownership.holding ?_ (UpdateLock.run_releaseIfHeld _ _ _)
    constructor
    · rintro ⟨n, hown⟩
      obtain ⟨t, ht, hholding⟩ := ha.ours n hown
      exact ⟨_, hholding, ht⟩
    · rintro ⟨k, hk, hfile⟩
      obtain ⟨n, hmaker, -⟩ := ha.ours_of_held hk hfile
      exact ⟨n, hmaker⟩
  · have hrun := UpdateLock.run_forceRelease (.inDirectory dir) s.ownership s.disk
    rcases ha.workable.missing_or_file with hm | ⟨t, ht⟩
    · rw [UpdateLock.run_remove_missing hm] at hrun
      exact ⟨_, _, _, hrun, fun hp => absurd hp hm.not_present, fun _ => ⟨rfl, rfl⟩⟩
    · obtain ⟨e, hremove, -, hm⟩ := UpdateLock.run_remove_file ha.workable ht
      rw [hremove] at hrun
      exact ⟨_, _, _, hrun, fun hp => ⟨rfl, hp, hm.not_present⟩, fun hp => absurd ht.present hp⟩

/-- A lock that was released by force and acquired again, and then lost to another process. -/
def replacedTwice : LockStory :=
  [.acquire, .forceRelease, .clock ⟨1⟩, .acquire, .othersRemove, .clock ⟨2⟩, .othersAcquire].foldl
    (happen (.inDirectory ⟨"c"⟩))
    (start (.inDirectory ⟨"c"⟩) ((Disk.empty ⟨0⟩).put ["c"] (.directory ⟨0⟩)))

theorem workable_start : UpdateLock.Workable ⟨"c"⟩ ((Disk.empty ⟨0⟩).put ["c"] (.directory ⟨0⟩)) := by
  have hmissing : ((Disk.empty ⟨0⟩).put ["c"] (.directory ⟨0⟩)).view
      (UpdateLock.inDirectory ⟨"c"⟩).path = .error .notFound := rfl
  exact .inl ⟨⟨["c"], rfl⟩, fun t ht => by rw [hmissing] at ht; cases ht⟩

theorem reaches_replacedTwice : Reaches ⟨"c"⟩ replacedTwice := by
  refine .next .othersAcquire (.next (.clock ⟨2⟩) (.next .othersRemove (.next .acquire
    (.next (.clock ⟨1⟩) (.next .forceRelease (.next .acquire (.start workable_start)
      ?_) ?_) ?_) ?_) ?_) ?_) ?_ <;> decide +kernel

/-- None of its former guards releases the other's lock file, and neither does a shutdown. -/
theorem acts_on_own_file_replaced :
    replacedTwice.guards = [⟨1⟩, ⟨2⟩] ∧ replacedTwice.maker = some .others ∧
    (∀ (n : Nat) g, replacedTwice.guards[n]? = some g →
      (((UpdateLock.inDirectory ⟨"c"⟩).release replacedTwice.ownership g).run replacedTwice.disk).2 =
        replacedTwice.disk) ∧
    (((UpdateLock.inDirectory ⟨"c"⟩).releaseIfHeld replacedTwice.ownership).run replacedTwice.disk).2 =
      replacedTwice.disk := by
  have hguards : replacedTwice.guards = [⟨1⟩, ⟨2⟩] := by decide +kernel
  have hmaker : replacedTwice.maker = some .others := by decide +kernel
  obtain ⟨-, hrelease, hshutdown, -⟩ := acts_on_own_file reaches_replacedTwice
  refine ⟨hguards, hmaker, fun n g hg => ?_, ?_⟩
  · obtain ⟨b, o, e, hrun, -, hstays⟩ := hrelease n g hg
    rw [hrun]
    refine (hstays fun h => ?_).2
    rw [hmaker] at h
    cases h
  · obtain ⟨b, o, e, hrun, -, hstays⟩ := hshutdown
    rw [hrun]
    refine (hstays fun ⟨n, h⟩ => ?_).2
    rw [hmaker] at h
    cases h

end LockStory

end SensorCache
