import SensorCache.Proofs.Cache.Neighbours
import SensorCache.Proofs.Refresh.Steady

/-!
# Keepers among neighbours

Whatever a scheduler does to its keeper, the keeper knows its lock file among those of others
(`Keeper.steady_knowsLock`): what a keeper takes it remembers, and what it gives back is gone or could
not be removed.
-/

namespace SensorCache

open Disk Time

variable {fine : Disk → Prop} {times : LockTimes} {patient : Prop} {l : UpdateLock}
  {seen : Option Sighting} {d e : Disk} {may : Conduct} {Q : Disk → Disk → Prop}

namespace Keeper

variable {k k' : Keeper}

/-- The keeper of the lock `l` knows its lock file among neighbours. Its checks leave a file that was
seen up to the age at which it is forfeit. -/
structure KnowsLock (fine : Disk → Prop) (times : LockTimes) (l : UpdateLock)
    (seen : Option Sighting) (k : Keeper) (d : Disk) : Prop where
  lock : k.lock = l
  age : ∀ x ∈ seen, k.monitor.settings.maxLockAge = x.limit
  knows : Knows fine times l.path seen k.ownership d

namespace KnowsLock

theorem same (h : k.KnowsLock fine times l seen d) (hsame : SameLock k k')
    (hknows : Knows fine times l.path seen k'.ownership e) : k'.KnowsLock fine times l seen e :=
  ⟨hsame.lock.trans h.lock, fun x hx => by rw [hsame.settings]; exact h.age x hx, hknows⟩

/-- What does not concern the lock. -/
theorem alike (h : k.KnowsLock fine times l seen d) (halike : Alike k k') :
    k'.KnowsLock fine times l seen d :=
  h.same halike.same (halike.ownership ▸ h.knows)

theorem owning (h : k.KnowsLock fine times l seen d) {o : Ownership}
    (hknows : Knows fine times l.path seen o e) :
    ({ k with ownership := o } : Keeper).KnowsLock fine times l seen e :=
  h.same ⟨rfl, rfl⟩ hknows

theorem look (hw : Neighbourhood may l fine times patient) (hseen : seen.isSome → patient)
    (h : k.KnowsLock fine times l seen d)
    (hlook : LookStep may (Neighbourly fine times.theirs patient l.path) patient (k, d) (k', e)) :
    k'.KnowsLock fine times l seen e := by
  cases hlook with
  | waits hr => exact h.same (.refl k) (h.knows.neighbourly hseen hr)
  | @looks _ _ _ _ now r hnow hcheck =>
    obtain ⟨⟨r', o⟩, m, hx, hend⟩ := Routine.ends_seq.mp hcheck
    obtain ⟨heq, rfl⟩ := Routine.ends_pure.mp hend
    cases heq
    rw [h.lock] at hx
    exact h.same (sameLock_reported k r o)
      ((alike_reported k r o).ownership ▸ h.knows.ends_checkAt hw h.age hseen hnow hx)
  | begins _ => exact h.alike ⟨⟨rfl, rfl⟩, rfl, rfl⟩
  | rearms => exact h.alike (alike_reschedule k)
  | ensures => exact h.alike (alike_ensureArmed k)
  | asks => exact h.alike ⟨⟨rfl, rfl⟩, rfl, rfl⟩

/-- Who gets the lock remembers the file that was made for it. -/
theorem ends_tryAcquire (hw : Neighbourhood may l fine times patient)
    (h : k.KnowsLock fine times l seen d) (hseen : seen.isSome → patient)
    {r : Except OsError (Option LockGuard)} (htry : k.tryAcquire.Ends may d (r, k') e) :
    k'.KnowsLock fine times l seen e ∧ ∀ g, r = .ok (some g) →
      ∃ t, k'.ownership.holding = some ⟨g.generation, t⟩ ∧ e.FileOf l.path t := by
  obtain ⟨o, hx, rfl⟩ := ends_owning htry
  obtain ⟨hknows, hgot⟩ := h.knows.ends_tryAcquire hw hseen (h.lock ▸ hx)
  exact ⟨h.owning hknows, hgot⟩

end KnowsLock

/-- Whatever a scheduler does to its keeper among neighbours, the keeper knows its lock file. -/
theorem steady_knowsLock (seen : Option Sighting) (hw : Neighbourhood may l fine times patient)
    (hseen : seen.isSome → patient)
    (hupdates : ∀ {d e}, Q d e → Neighbourly fine times.theirs patient l.path d e) :
    Steady may Q (Neighbourly fine times.theirs patient l.path) patient
      (KnowsLock fine times l seen) where
  within := hw.within
  updates := hupdates
  refl := .refl
  trans := .trans
  look hlook h := h.look hw hseen hlook
  tries htry h := (h.ends_tryAcquire hw hseen htry).1
  releases hrelease h := by
    obtain ⟨o, hx, rfl⟩ := ends_owning hrelease
    exact h.owning (h.knows.ends_release hw hseen (h.lock ▸ hx))
  releasesHeld hrelease h := by
    obtain ⟨o, hx, rfl⟩ := ends_owning hrelease
    exact h.owning (h.knows.ends_releaseIfHeld hw hseen (h.lock ▸ hx))
  arms {k _} id h := h.alike (alike_arm k id)
  marks _ h := h.alike ⟨⟨rfl, rfl⟩, rfl, rfl⟩
  stops {k _} h := by
    have hcancel := cancelPending_eq k.monitor.stop
    exact h.alike ⟨⟨rfl, hcancel.1⟩, rfl, hcancel.2⟩
  passes t h := h.alike ⟨⟨rfl, rfl⟩, rfl, rfl⟩

end Keeper

end SensorCache
