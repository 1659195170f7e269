import Mathlib.Logic.Relation
import SensorCache.Proofs.Refresh.Bookkeeping
import SensorCache.Proofs.Refresh.Watchdog

/-!
# Looks at the lock

Before a keeper takes a lock that is in the way, and when one of its checks has its time, it looks at
the lock. That comes in a few steps (`Keeper.LookStep`), whatever the disk answers, and a keeper that
has looked holds nothing more than before and lets no job go on that was interrupted
(`Keeper.Looked`).
-/

namespace SensorCache

open Disk Time

variable {may : Conduct} {R : Disk → Disk → Prop} {timely : Prop} {d e : Disk}

/-- Looking at the clock or at a file is a change `R` at most, and the clock tells no time to come. -/
structure Disk.Conduct.Glances (may : Conduct) (R : Disk → Disk → Prop) (timely : Prop) : Prop where
  now {d e : Disk} {t : Instant} : may .now d t e → R d e ∧ (timely → t ≤ e.clock)
  find {d e : Disk} {p : Path} {x : Except OsError Node} : may (.find p) d x e → R d e

/-- Whatever happens is some change. -/
theorem Disk.Conduct.glances_any (may : Conduct) : may.Glances (fun _ _ => True) False :=
  ⟨fun _ => ⟨trivial, False.elim⟩, fun _ => trivial⟩

theorem Disk.Conduct.Within.glances (hmay : may.Within R)
    (htrans : ∀ {a b c}, R a b → R b c → R a c) (hrefl : ∀ d, R d d) (timely : Prop) :
    may.Glances R timely := by
  constructor
  · intro d e t h
    obtain ⟨m, hm, hp | ⟨hfault, -⟩⟩ := hmay h
    · cases hp
      exact ⟨hm, fun _ => Int.le_refl _⟩
    · exact hfault.elim
  · intro d e p x h
    refine hmay.kept htrans (fun m => ?_) h
    rw [perform_find]
    exact hrefl m

namespace Keeper

variable {k k' : Keeper} {x y : Keeper × Disk} {id : Nat} {p : Path}

/-- What is done with the lock changes only what a keeper knows of it. -/
theorem ends_owning {α : Type} {x : Routine (α × Ownership)} {r : α}
    (h : (do let (r, o) ← x; return (r, { k with ownership := o }) : Routine (α × Keeper)).Ends
      may d (r, k') e) :
    ∃ o, x.Ends may d (r, o) e ∧ k' = { k with ownership := o } := by
  obtain ⟨⟨r', o⟩, m, hx, hend⟩ := Routine.ends_seq.mp h
  obtain ⟨heq, rfl⟩ := Routine.ends_pure.mp hend
  cases heq
  exact ⟨o, hx, rfl⟩

/-- A part of what a keeper does when it looks at the lock, while others change the disk by `R`. If
it is `timely` it goes by no time to come. -/
inductive LookStep (may : Conduct) (R : Disk → Disk → Prop) (timely : Prop) :
    Keeper × Disk → Keeper × Disk → Prop where
  | waits {k : Keeper} {d e : Disk} : R d e → LookStep may R timely (k, d) (k, e)
  | looks {k k' : Keeper} {d e : Disk} {now : Instant} {r : MonitorReport} :
    (timely → now ≤ d.clock) → (k.checkAt now).Ends may d (r, k') e →
      LookStep may R timely (k, d) (k', e)
  | begins {k : Keeper} {d : Disk} {i : Nat} : k.monitor.checks.isLive i = true →
    LookStep may R timely (k, d) ({ k with monitor := k.monitor.begin i }, d)
  | rearms (k : Keeper) (d : Disk) :
    LookStep may R timely (k, d) ({ k with monitor := k.monitor.reschedule k.elapsed }, d)
  | ensures (k : Keeper) (d : Disk) : LookStep may R timely (k, d) (k.ensureArmed, d)
  | asks (k : Keeper) (d : Disk) (t : Trigger) :
    LookStep may R timely (k, d) ({ k with trigger := t }, d)

/-- What a keeper comes to by looking at the lock. -/
abbrev Looks (may : Conduct) (R : Disk → Disk → Prop) (timely : Prop) (x y : Keeper × Disk) : Prop :=
  Relation.ReflTransGen (LookStep may R timely) x y

/-- The handle of a job tells that it was asked to stop. -/
def Interrupts (k : Keeper) (id : Nat) : Prop := (k.job? id).any JobHandle.interrupted = true

/-- Handles may change by a function that keeps their ids. -/
theorem job?_map {f : JobHandle → JobHandle} (hf : ∀ j, (f j).id = j.id) (k : Keeper) (id : Nat) :
    ({ k with jobs := k.jobs.map f } : Keeper).job? id = (k.job? id).map f := by
  show (k.jobs.map f).find? _ = (k.jobs.find? _).map f
  rw [List.find?_map]
  congr 2
  funext j
  simp [hf]

theorem Interrupts.map (h : k.Interrupts id) {f : JobHandle → JobHandle} (hf : ∀ j, (f j).id = j.id)
    (hkept : ∀ j, j.interrupted = true → (f j).interrupted = true) :
    ({ k with jobs := k.jobs.map f } : Keeper).Interrupts id := by
  unfold Interrupts at h ⊢
  rw [job?_map hf]
  rw [Option.any_eq_true] at h
  obtain ⟨j, hj, hint⟩ := h
  rw [hj]
  exact hkept j hint

theorem Interrupts.updateJob (h : k.Interrupts id) (i : Nat) {f : JobHandle → JobHandle}
    (hf : ∀ j, (f j).id = j.id) (hkept : ∀ j, j.interrupted = true → (f j).interrupted = true) :
    (k.updateJob i f).Interrupts id := by
  refine h.map (fun j => ?_) fun j hj => ?_
  · split
    · exact hf j
    · rfl
  · split
    · exact hkept j hj
    · exact hj

/-- A keeper after a look: it holds nothing more, its jobs are in their states, and none goes on that
was interrupted. -/
structure Looked (k k' : Keeper) : Prop where
  states : k'.states = k.states
  interrupts : ∀ id, k.Interrupts id → k'.Interrupts id
  ownership : k'.ownership = k.ownership ∨ k'.ownership = k.ownership.cleared
  stopped : k'.stopped = k.stopped

theorem Looked.refl (k : Keeper) : Looked k k := ⟨rfl, fun _ h => h, .inl rfl, rfl⟩

theorem Looked.ids (h : Looked k k') : k'.ids = k.ids := ids_of_states h.states

theorem Looked.trans {k'' : Keeper} (h : Looked k k') (h' : Looked k' k'') : Looked k k'' := by
  refine ⟨h'.states.trans h.states, fun id hid => h'.interrupts id (h.interrupts id hid), ?_,
    h'.stopped.trans h.stopped⟩
  rcases h'.ownership with ho' | ho' <;> rcases h.ownership with ho | ho <;> rw [ho', ho]
  · exact .inl rfl
  · exact .inr rfl
  · exact .inr rfl
  · exact .inr rfl

theorem Looked.holding (h : Looked k k') (hnone : k.ownership.holding = none) :
    k'.ownership.holding = none := by
  rcases h.ownership with ho | ho
  · rw [ho]
    exact hnone
  · rw [ho]
    rfl

theorem looked_reported (k : Keeper) (r : MonitorReport) {o : Ownership}
    (ho : o = k.ownership ∨ o = k.ownership.cleared) : Looked k (k.reported r o) := by
  have hrecorded : Looked k { k with ownership := o, monitor := k.monitor.record r } :=
    ⟨rfl, fun _ h => h, ho, rfl⟩
  unfold reported
  dsimp only
  split
  · split
    · refine hrecorded.trans ⟨states_interrupt _ _, fun id hid => ?_, .inl rfl, rfl⟩
      exact hid.updateJob _ (fun _ => rfl) fun _ _ => rfl
    · exact hrecorded
  · exact hrecorded

/-- A check forgets what was held if it removes the lock, and else does nothing about it. -/
theorem leads_monitor_checkAt (m : Monitor) (l : UpdateLock) (o : Ownership) (job : Option JobHandle)
    (now : Instant) (d : Disk) :
    (m.checkAt l o job now).Leads may d fun x _ => x.2 = o ∨ x.2 = o.cleared := by
  refine (Routine.leads_any _ _).bind fun b m _ => ?_
  split
  · refine (Routine.leads_any _ _).bind fun clock m _ => ?_
    refine (Routine.leads_any _ _).bind fun age m _ => ?_
    split
    · split
      · refine Routine.Leads.bind (P := fun x _ => x.2 = o.cleared) ?_ fun x m hx => ?_
        · exact (Routine.leads_any _ _).bind fun x m _ => Routine.leads_pure rfl
        · split
          · exact Routine.leads_pure (.inr hx)
          · exact Routine.leads_pure (.inr hx)
      · exact Routine.leads_pure (.inl rfl)
    · exact Routine.leads_pure (.inl rfl)
  · exact Routine.leads_pure (.inl rfl)

theorem LookStep.looked (h : LookStep may R timely x y) : Looked x.1 y.1 := by
  cases h with
  | waits _ => exact .refl _
  | looks _ h =>
    obtain ⟨⟨r', o⟩, m, hcheck, hend⟩ := Routine.ends_seq.mp h
    obtain ⟨heq, rfl⟩ := Routine.ends_pure.mp hend
    cases heq
    exact looked_reported _ _ (leads_monitor_checkAt _ _ _ _ _ _ _ _ hcheck)
  | begins _ => exact ⟨rfl, fun _ h => h, .inl rfl, rfl⟩
  | rearms k d => exact ⟨rfl, fun _ h => h, .inl rfl, rfl⟩
  | ensures k d => exact ⟨rfl, fun _ h => h, .inl rfl, rfl⟩
  | asks k d t => exact ⟨rfl, fun _ h => h, .inl rfl, rfl⟩

theorem Looks.looked (h : Looks may R timely x y) : Looked x.1 y.1 := by
  induction h with
  | refl => exact .refl _
  | tail _ hstep ih => exact ih.trans hstep.looked

/-! ### What looks at the lock -/

section

variable (hg : may.Glances R timely)
include hg

theorem leads_now : Disk.now.Leads may d fun t e => R d e ∧ (timely → t ≤ e.clock) :=
  fun _ _ h => hg.now (Routine.ends_op.mp h)

theorem leads_isLocked (l : UpdateLock) : l.isLocked.Leads may d fun _ e => R d e := by
  refine Routine.Leads.bind (P := fun _ e => R d e) ?_ fun x m hm => Routine.leads_pure hm
  intro x e h
  obtain ⟨y, m, hy, hend⟩ := Routine.ends_bind.mp h
  obtain ⟨-, rfl⟩ := Routine.ends_done.mp hend
  exact hg.find (Routine.ends_op.mp hy)

theorem leads_check (k : Keeper) (d : Disk) :
    k.check.Leads may d fun x e => Looks may R timely (k, d) (x.2, e) := by
  refine (leads_now hg).bind fun now m hnow => ?_
  rintro ⟨r, k'⟩ e h
  exact (Relation.ReflTransGen.single (.waits hnow.1)).tail (.looks hnow.2 h)

theorem leads_recover (k : Keeper) (d : Disk) :
    k.recover.Leads may d fun x e => Looks may R timely (k, d) (x.2, e) := by
  refine (leads_check hg k d).bind fun x m hlooks => ?_
  obtain ⟨r, k'⟩ := x
  dsimp only
  split
  · exact Routine.leads_pure hlooks
  · refine (leads_isLocked hg _).bind fun b n hn => ?_
    have hwaited := hlooks.tail (.waits hn)
    split
    · exact Routine.leads_pure (hwaited.tail (.ensures k' n))
    · exact Routine.leads_pure hwaited

theorem leads_fire (k : Keeper) (i : Nat) (d : Disk) :
    (k.fire i).Leads may d fun k' e => Looks may R timely (k, d) (k', e) := by
  intro k' e h
  rcases ends_fire_iff.mp h with ⟨r, hlive, k₁, hcheck, rfl⟩ | ⟨-, rfl, rfl⟩
  · have hlooks := leads_check hg _ _ _ _ hcheck
    have hasked : Looks may R timely (k, d) (k₁.askedAfter r, e) := by
      refine .trans (.head (.begins hlive) hlooks) ?_
      unfold askedAfter
      split
      · exact .single (.asks k₁ e _)
      · exact .refl
    refine hasked.trans ?_
    unfold armedAfter
    split
    · exact .single (.rearms _ e)
    · exact .refl
  · exact .refl

/-- A keeper takes the lock at the first try, or at a second one after it has looked at what is in
the way. -/
theorem leads_acquire (k : Keeper) (d : Disk) :
    k.acquire.Leads may d fun x e => k.tryAcquire.Ends may d x e ∨
      ∃ k₁ m k₂ n, k.tryAcquire.Ends may d (.ok none, k₁) m ∧
        Looks may R timely (k₁, m) (k₂, n) ∧
        (k₂.tryAcquire.Ends may n x e ∨ x = (.ok none, k₂) ∧ n = e) := by
  rintro x e h
  obtain ⟨⟨r, k₁⟩, m, htry, hrest⟩ := Routine.ends_seq.mp h
  rcases r with y | _ | g
  · obtain ⟨rfl, rfl⟩ := Routine.ends_pure.mp hrest
    exact .inl htry
  · refine .inr ?_
    obtain ⟨⟨r, k₂⟩, n, hcheck, hrest⟩ := Routine.ends_seq.mp hrest
    have hlooks := leads_check hg _ _ _ _ hcheck
    dsimp only at hrest
    split at hrest
    · exact ⟨k₁, m, k₂, n, htry, hlooks, .inl hrest⟩
    · obtain ⟨rfl, rfl⟩ := Routine.ends_pure.mp hrest
      exact ⟨k₁, m, _, e, htry, hlooks.tail (.ensures k₂ e), .inr ⟨rfl, rfl⟩⟩
  · obtain ⟨rfl, rfl⟩ := Routine.ends_pure.mp hrest
    exact .inl htry

end

end Keeper

end SensorCache
