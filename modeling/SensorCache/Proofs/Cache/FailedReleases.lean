import SensorCache.Disk.Edit
import SensorCache.Proofs.Cache.Ownership

/-!
# Releases that fail

A release takes what is held out of the process's memory before it touches the lock file. If the file
cannot be removed then, whatever is in the way, the disk is left alone and nothing is remembered any
more. The process has renounced the lock (`Renounced`): as long as it does not acquire it again, it
does not believe to hold it, and only force removes the file, even if that is the very file it made
and nothing is in its way any more (`failed_release_forgets`).
-/

namespace SensorCache

open Disk

variable {may : Conduct} {R : Disk → Disk → Prop} {d e : Disk} {p : Path} {t : Instant}
  {x : OsError} {l : UpdateLock} {o o' o'' : Ownership}

/-- The ways to release a lock. -/
inductive Release where
  | ofGuard (g : LockGuard)
  | ifHeld
  | forced
  deriving DecidableEq

namespace Release

/-- What a way of releasing does about the lock file. -/
def attempt (l : UpdateLock) (o : Ownership) : Release → Attempt OsError Bool
  | .ofGuard g => l.giveBack (o.heldBy g)
  | .ifHeld => l.giveBack o.holding
  | .forced => l.remove

/-- What is remembered after a release, whatever becomes of the lock file. -/
def leaves (o : Ownership) : Release → Ownership
  | .ofGuard g => if (o.heldBy g).isSome then o.cleared else o
  | .ifHeld | .forced => o.cleared

end Release

/-- Releases the lock in one of the ways. -/
def UpdateLock.releaseBy (l : UpdateLock) (o : Ownership) :
    Release → Routine (Except OsError Bool × Ownership)
  | .ofGuard g => l.release o g
  | .ifHeld => l.releaseIfHeld o
  | .forced => l.forceRelease o

theorem Ownership.cleared_of_none (h : o.holding = Option.none) : o.cleared = o := by
  cases o
  cases h
  rfl

/-! ## Removals -/

/-- A file is removed. -/
theorem Disk.remove_of_file (h : d.FileOf p t) :
    ∃ e, d.perform (.remove p) = (.ok (), e) ∧ ¬e.Present p := by
  obtain ⟨c, hc⟩ := h
  obtain ⟨a, ha, hn⟩ := view_eq_ok.mp hc
  have hp : d.perform (.remove p) = (.ok (), d.erase a) := by
    show d.onPlace p d.removeFile = _
    unfold onPlace
    rw [ha]
    simp [removeFile, hn]
  exact ⟨_, hp, (remove_of_ok hp).2⟩

/-- A removal that fails is no change, apart from what others do. -/
theorem Disk.Conduct.Within.remove_error (hmay : may.Within R)
    (htrans : ∀ {a b c}, R a b → R b c → R a c) (h : may (.remove p) d (.error x) e) : R d e := by
  obtain ⟨m, hm, hp | ⟨-, hf⟩⟩ := hmay h
  · rw [remove_of_error hp]
    exact hm
  · exact htrans hm hf

namespace UpdateLock

theorem run_remove_of_file (h : d.FileOf l.path t) :
    ∃ e, l.remove.run d = (.ok true, e) ∧ ¬e.Present l.path := by
  obtain ⟨e, hp, hgone⟩ := remove_of_file h
  refine ⟨e, ?_, hgone⟩
  rw [remove, Attempt.run_bind_ok (run_unlink hp)]
  rfl

section Fails

variable (hmay : may.Within R) (htrans : ∀ {a b c}, R a b → R b c → R a c)
include hmay htrans

theorem ends_remove_error (h : l.remove.Ends may d (.error x) e) : R d e := by
  rcases Attempt.ends_bind.mp h with ⟨y, m, hy, hrest⟩ | ⟨_, hbad, _⟩
  · obtain ⟨z, hz, hyz⟩ := Attempt.ends_caught.mp hy
    obtain rfl : y = z := Except.ok.inj hyz
    cases y with
    | ok u =>
      obtain ⟨hne, -⟩ := Attempt.ends_pure.mp hrest
      cases hne
    | error z =>
      have hm := hmay.remove_error htrans (Routine.ends_op.mp hz)
      cases z with
      | notFound =>
        obtain ⟨hne, -⟩ := Attempt.ends_pure.mp hrest
        cases hne
      | _ =>
        obtain ⟨-, rfl⟩ := Attempt.ends_fail.mp hrest
        exact hm
  · obtain ⟨_, _, hbad'⟩ := Attempt.ends_caught.mp hbad
    cases hbad'

variable (hrefl : ∀ d, R d d)
include hrefl

theorem ends_removeUnchanged_error {k : Holding}
    (h : (l.removeUnchanged k).Ends may d (.error x) e) : R d e := by
  rcases Attempt.ends_bind.mp h with ⟨y, m, hy, hrest⟩ | ⟨_, hbad, _⟩
  · obtain ⟨n, hn, -⟩ := Attempt.ends_always.mp hy
    have hm : R d m := (keeps_look hrefl l.path).ends hmay hrefl htrans hn
    split at hrest
    · split at hrest
      · exact htrans hm (ends_remove_error hmay htrans hrest)
      · obtain ⟨hne, -⟩ := Attempt.ends_pure.mp hrest
        cases hne
    · exact htrans hm (ends_remove_error hmay htrans hrest)
  · obtain ⟨_, _, hbad'⟩ := Attempt.ends_always.mp hbad
    cases hbad'

/-- Only what is held can fail to be given back. -/
theorem ends_giveBack_error {held : Option Holding}
    (h : (l.giveBack held).Ends may d (.error x) e) : held.isSome ∧ R d e := by
  cases held with
  | none =>
    obtain ⟨hne, -⟩ := Attempt.ends_pure.mp h
    cases hne
  | some k => exact ⟨rfl, ends_removeUnchanged_error hmay htrans hrefl h⟩

end Fails

/-! ## Releases -/

theorem releaseBy_eq (l : UpdateLock) (o : Ownership) (q : Release) :
    l.releaseBy o q = do return (← (q.attempt l o).outcome, q.leaves o) := by
  cases q <;> rfl

theorem ends_releaseBy {q : Release} {r : Except OsError Bool}
    (h : (l.releaseBy o q).Ends may d (r, o') e) :
    (q.attempt l o).Ends may d r e ∧ o' = q.leaves o := by
  rw [releaseBy_eq] at h
  obtain ⟨y, m, hy, hend⟩ := Routine.ends_seq.mp h
  obtain ⟨heq, rfl⟩ := Routine.ends_pure.mp hend
  cases heq
  exact ⟨hy, rfl⟩

theorem run_releaseBy (l : UpdateLock) (o : Ownership) (q : Release) (d : Disk) :
    (l.releaseBy o q).run d =
      ((((q.attempt l o).run d).1, q.leaves o), ((q.attempt l o).run d).2) := by
  rw [releaseBy_eq, Routine.run_bind, Routine.run_pure]
  rfl

end UpdateLock

/-! ## What a failure leaves -/

/-- The process has no claim on the lock file: it does not believe to hold the lock, and nothing but
force makes it touch the file. -/
structure Renounced (l : UpdateLock) (o : Ownership) : Prop where
  believes : l.isHeld o = pure false
  releases {q : Release} : q ≠ .forced → l.releaseBy o q = pure (.ok false, o)

theorem renounced_of_none (h : o.holding = Option.none) : Renounced l o where
  believes := by
    unfold UpdateLock.isHeld
    rw [h]
    rfl
  releases {q} hq := by
    have hcleared := Ownership.cleared_of_none h
    rw [UpdateLock.releaseBy_eq]
    cases q with
    | ofGuard g =>
      have hheld : o.heldBy g = none := by
        unfold Ownership.heldBy
        rw [h]
        rfl
      rw [Release.attempt, Release.leaves, hheld]
      rfl
    | ifHeld =>
      rw [Release.attempt, Release.leaves, h, hcleared]
      rfl
    | forced => exact absurd rfl hq

/-- What a process that remembers `o` may come to remember by calls that do not get it the lock:
releases, and acquisitions that give no guard. Anything may happen to the disk before each of them and
meanwhile. -/
inductive WithoutLock (l : UpdateLock) (o : Ownership) : Ownership → Prop where
  | refl : WithoutLock l o o
  | release {o' o'' : Ownership} {may : Conduct} {d e : Disk} {r : Except OsError Bool}
    (q : Release) : WithoutLock l o o' → (l.releaseBy o' q).Ends may d (r, o'') e →
    WithoutLock l o o''
  | refused {o' o'' : Ownership} {may : Conduct} {d e : Disk}
    {r : Except OsError (Option LockGuard)} : WithoutLock l o o' →
    (l.tryAcquire o').Ends may d (r, o'') e → (∀ g, r ≠ .ok (some g)) → WithoutLock l o o''

/-- An acquisition without a guard leaves the memory as it is. -/
theorem UpdateLock.ends_tryAcquire_refused {r : Except OsError (Option LockGuard)}
    (h : (l.tryAcquire o).Ends may d (r, o') e) (hr : ∀ g, r ≠ .ok (some g)) : o' = o := by
  obtain ⟨y, m, -, hrest⟩ := Routine.ends_seq.mp h
  cases y with
  | error z =>
    obtain ⟨heq, -⟩ := Routine.ends_pure.mp hrest
    cases heq
    rfl
  | ok _ =>
    obtain ⟨y, n, -, hend⟩ := Routine.ends_seq.mp hrest
    cases y with
    | ok t =>
      obtain ⟨heq, -⟩ := Routine.ends_pure.mp hend
      cases heq
      exact absurd rfl (hr _)
    | error z =>
      cases z with
      | _ =>
        obtain ⟨heq, -⟩ := Routine.ends_pure.mp hend
        cases heq
        rfl

/-- Nothing is remembered again before the lock is acquired. -/
theorem WithoutLock.eq_of_none (h : WithoutLock l o o') (hnone : o.holding = Option.none) :
    o' = o := by
  induction h with
  | refl => rfl
  | release q _ hend ih =>
    subst ih
    obtain ⟨-, rfl⟩ := UpdateLock.ends_releaseBy hend
    have hcleared := Ownership.cleared_of_none hnone
    cases q with
    | ofGuard g =>
      rw [Release.leaves, hcleared]
      split <;> rfl
    | ifHeld => exact hcleared
    | forced => exact hcleared
  | refused _ hend hr ih =>
    subst ih
    exact UpdateLock.ends_tryAcquire_refused hend hr

/-- The lock file is removed by a release. -/
def UpdateLock.Removes (l : UpdateLock) (o : Ownership) (q : Release) (d : Disk) : Prop :=
  ∃ e, (l.releaseBy o q).run d = ((.ok true, o.cleared), e) ∧ ¬e.Present l.path

theorem UpdateLock.removes_forced (h : d.FileOf l.path t) : l.Removes o .forced d := by
  obtain ⟨e, hrun, hgone⟩ := run_remove_of_file h
  refine ⟨e, ?_, hgone⟩
  rw [run_releaseBy, Release.attempt, hrun]
  rfl

/-- The file that is held is removed. -/
theorem UpdateLock.removes_ifHeld {k : Holding} (hk : o.holding = some k)
    (h : d.FileOf l.path k.created) : l.Removes o .ifHeld d := by
  obtain ⟨e, hrun, hgone⟩ := run_remove_of_file h
  obtain ⟨c, hc⟩ := h
  refine ⟨e, ?_, hgone⟩
  have hgive : (l.giveBack o.holding).run d = (.ok true, e) := by
    rw [hk, giveBack, run_removeUnchanged, hc]
    simpa [Except.toOption, Node.modified] using hrun
  rw [run_releaseBy, Release.attempt, hgive]
  rfl

/-- In whatever state a release of the lock fails, be it for something in the place of the lock file
or for any other reason, it has not changed the disk, and what was held is forgotten; a guard and a
shutdown fail only for what was held. From then on the process has renounced the lock until it
acquires it again. So when the lock file that it held is back, and nothing is in the way any more,
releasing what is held leaves the file and says so, where before the failure it would have removed
it; only force still removes it. -/
theorem failed_release_forgets (hmay : may.Within R) (hrefl : ∀ d, R d d)
    (htrans : ∀ {a b c}, R a b → R b c → R a c) {q : Release}
    (h : (l.releaseBy o q).Ends may d (.error x, o') e) :
    R d e ∧ o' = o.cleared ∧ (o' = o ↔ o.holding = none) ∧ (q = .forced ∨ o.holding.isSome) ∧
    (∀ o'', WithoutLock l o' o'' → Renounced l o'') ∧
    ∀ k f, o.holding = some k → f.FileOf l.path k.created →
      l.Removes o .ifHeld f ∧ (l.releaseBy o' .ifHeld).run f = ((.ok false, o'), f) ∧
        l.Removes o' .forced f := by
  obtain ⟨hattempt, rfl⟩ := UpdateLock.ends_releaseBy h
  have hfailed : R d e ∧ q.leaves o = o.cleared ∧ (q = .forced ∨ o.holding.isSome) := by
    cases q with
    | ofGuard g =>
      obtain ⟨hsome, hR⟩ := UpdateLock.ends_giveBack_error (R := R) hmay htrans hrefl hattempt
      obtain ⟨k, hk⟩ := Option.isSome_iff_exists.mp hsome
      refine ⟨hR, if_pos hsome, .inr ?_⟩
      rw [(LockStory.holding_of_heldBy hk).1]
      rfl
    | ifHeld =>
      obtain ⟨hsome, hR⟩ := UpdateLock.ends_giveBack_error (R := R) hmay htrans hrefl hattempt
      exact ⟨hR, rfl, .inr hsome⟩
    | forced => exact ⟨UpdateLock.ends_remove_error hmay htrans hattempt, rfl, .inl rfl⟩
  obtain ⟨hR, hleaves, hsome⟩ := hfailed
  rw [hleaves]
  have hlater : ∀ o'', WithoutLock l o.cleared o'' → Renounced l o'' := by
    intro o'' hlater
    rw [hlater.eq_of_none rfl]
    exact renounced_of_none rfl
  refine ⟨hR, rfl, ⟨fun heq => ?_, Ownership.cleared_of_none⟩, hsome, hlater, fun k f hk hf => ?_⟩
  · rw [← heq]
    rfl
  · refine ⟨UpdateLock.removes_ifHeld hk hf, ?_, UpdateLock.removes_forced hf⟩
    have hrenounced : Renounced l o.cleared := renounced_of_none rfl
    rw [hrenounced.releases (q := .ifHeld) (by decide)]
    rfl

namespace LockStory

/-- A process that has acquired the lock. -/
def heldOnce : LockStory :=
  (start (.inDirectory ⟨"c"⟩) ((Disk.empty ⟨0⟩).put ["c"] (.directory ⟨0⟩))).happen
    (.inDirectory ⟨"c"⟩) .acquire

theorem reaches_heldOnce : Reaches ⟨"c"⟩ heldOnce :=
  .next .acquire (.start workable_start) (by decide +kernel)

/-- A directory of the same time is put in the place of its lock file. -/
def obstructed : Disk := (heldOnce.disk.edit (UpdateLock.inDirectory ⟨"c"⟩).path .toDirectory).2

/-- A guard that fails at the directory has renounced the lock. With the lock file in its place
again, a shutdown leaves it. -/
theorem failed_release_forgets_obstructed :
    (((UpdateLock.inDirectory ⟨"c"⟩).releaseBy heldOnce.ownership (.ofGuard ⟨1⟩)).run obstructed).1 =
      (.error .isDirectory, heldOnce.ownership.cleared) ∧
    Renounced (.inDirectory ⟨"c"⟩) heldOnce.ownership.cleared ∧
    ((UpdateLock.inDirectory ⟨"c"⟩).releaseBy heldOnce.ownership.cleared .ifHeld).run heldOnce.disk =
      ((.ok false, heldOnce.ownership.cleared), heldOnce.disk) := by
  have hrun : (((UpdateLock.inDirectory ⟨"c"⟩).releaseBy heldOnce.ownership (.ofGuard ⟨1⟩)).run
      obstructed).1 = (.error .isDirectory, heldOnce.ownership.cleared) := by decide +kernel
  have hends : ((UpdateLock.inDirectory ⟨"c"⟩).releaseBy heldOnce.ownership (.ofGuard ⟨1⟩)).Ends
      (.among Eq) obstructed _ _ := Routine.ends_run (fun _ d => ⟨d, rfl, rfl⟩) _ _
  rw [hrun] at hends
  obtain ⟨-, -, -, -, hrenounced, hback⟩ :=
    failed_release_forgets (Conduct.within_among Eq) Eq.refl Eq.trans hends
  obtain ⟨t, ht, hheld⟩ := reaches_heldOnce.attributed.ours 0 (by decide +kernel)
  obtain ⟨-, hleft, -⟩ := hback ⟨1, t⟩ heldOnce.disk hheld ht
  exact ⟨hrun, hrenounced _ .refl, hleft⟩

/-- A failed release cannot be repeated. At a directory of the lock file's own time each way of
releasing fails and what is held is forgotten; with the lock file in its place again, a shutdown
leaves it, which would have removed it before. -/
theorem failed_release_unrepeatable :
    Reaches ⟨"c"⟩ heldOnce ∧ heldOnce.ownership.holding = some ⟨1, ⟨0⟩⟩ ∧
    (obstructed.view (UpdateLock.inDirectory ⟨"c"⟩).path).toOption.map
      (fun n => (n.isDirectory, n.modified)) = some (true, ⟨0⟩) ∧
    (∀ q ∈ [.ofGuard ⟨1⟩, .ifHeld, .forced],
      (((UpdateLock.inDirectory ⟨"c"⟩).releaseBy heldOnce.ownership q).run obstructed).1 =
        (.error .isDirectory, heldOnce.ownership.cleared)) ∧
    heldOnce.ownership.cleared ≠ heldOnce.ownership ∧
    (((UpdateLock.inDirectory ⟨"c"⟩).releaseBy heldOnce.ownership .ifHeld).run heldOnce.disk).1.1 =
      .ok true ∧
    (((UpdateLock.inDirectory ⟨"c"⟩).releaseBy heldOnce.ownership.cleared .ifHeld).run
      heldOnce.disk).1.1 = .ok false := by
  refine ⟨reaches_heldOnce, ?_, ?_, ?_, ?_, ?_, ?_⟩ <;> decide +kernel

end LockStory

end SensorCache
