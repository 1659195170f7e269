import Mathlib.Data.List.Nodup
import SensorCache.Refresh.Keeper

/-!
# The checks that are to come

A monitor may schedule, cancel and run checks in any order; those that can still come to run are the
live ones. `Monitor.Sound` is what every operation keeps: a live check is the pending one, so there
is one at most, it is due within the delay, and after a stop there is none. What an operation does
to the live checks is said by one lemma each: it leaves none (`live_cancelPending`, `live_begin`,
`live_stop`) or a single new one (`sole_reschedule`, `sole_ensureArmed`).
-/

namespace SensorCache

open Time

namespace DelayedTask

variable {t : DelayedTask}

theorem id_cancel (t : DelayedTask) : t.cancel.id = t.id := by
  unfold cancel
  split <;> rfl

theorem not_live_cancel (t : DelayedTask) : t.cancel.isLive = false := by
  unfold cancel
  split
  · rfl
  · next hphase =>
    unfold isLive
    split
    · next due hdue => exact absurd hdue (hphase due)
    · rfl

theorem waits_of_live (h : t.isLive = true) : ∃ due, t.phase = .waits due := by
  unfold isLive at h
  split at h
  · next due hdue => exact ⟨due, hdue⟩
  · cases h

end DelayedTask

namespace Delayed

variable {x : Delayed} {t : DelayedTask} {i : Nat}

/-- The tasks that can still come to run. -/
def live (x : Delayed) : List DelayedTask := x.tasks.filter DelayedTask.isLive

/-- Every task has its position as its id. -/
def Numbered (x : Delayed) : Prop := x.tasks.map (·.id) = List.range x.tasks.length

theorem mem_live : t ∈ x.live ↔ t ∈ x.tasks ∧ t.isLive = true := List.mem_filter

theorem numbered_new : new.Numbered := rfl

/-- Ids stay when tasks only change. -/
theorem Numbered.map (h : x.Numbered) {f : DelayedTask → DelayedTask} (hf : ∀ t, (f t).id = t.id)
    (b : Bool) : Numbered ⟨x.tasks.map f, b⟩ := by
  unfold Numbered at h ⊢
  rw [List.map_map, List.length_map, ← h]
  exact List.map_congr_left fun t _ => hf t

theorem Numbered.cancel (h : x.Numbered) (i : Nat) : (x.cancel i).Numbered := by
  refine h.map (fun t => ?_) _
  split
  · exact t.id_cancel
  · rfl

theorem Numbered.stop (h : x.Numbered) : x.stop.Numbered := h.map DelayedTask.id_cancel _

theorem Numbered.finish (h : x.Numbered) (i : Nat) : (x.finish i).Numbered := by
  refine h.map (fun t => ?_) _
  split <;> rfl

theorem Numbered.nodup (h : x.Numbered) : (x.tasks.map (·.id)).Nodup := by
  rw [Numbered] at h
  rw [h]
  exact List.nodup_range

theorem eq_of_id (h : x.Numbered) {u : DelayedTask} (ht : t ∈ x.tasks) (hu : u ∈ x.tasks)
    (hid : t.id = u.id) : t = u := List.inj_on_of_nodup_map h.nodup ht hu hid

theorem get?_of_mem (h : x.Numbered) (ht : t ∈ x.tasks) : x.get? t.id = some t := by
  unfold get?
  cases hfind : x.tasks.find? (fun u => u.id == t.id) with
  | none =>
    rw [List.find?_eq_none] at hfind
    exact absurd (beq_self_eq_true t.id) (hfind t ht)
  | some u =>
    have hid : u.id = t.id := by simpa using List.find?_some hfind
    rw [eq_of_id h (List.mem_of_find?_eq_some hfind) ht hid]

/-- A task that is live is one of the live tasks. -/
theorem exists_of_isLive (h : x.isLive i = true) : ∃ t ∈ x.live, t.id = i := by
  unfold isLive at h
  rw [Option.any_eq_true] at h
  obtain ⟨t, ht, hlive⟩ := h
  refine ⟨t, mem_live.mpr ⟨List.mem_of_find?_eq_some ht, hlive⟩, ?_⟩
  simpa using List.find?_some ht

theorem isLive_of_mem (h : x.Numbered) (ht : t ∈ x.live) : x.isLive t.id = true := by
  obtain ⟨hmem, hlive⟩ := mem_live.mp ht
  rw [isLive, get?_of_mem h hmem]
  exact hlive

/-- Live tasks with one id are one task. -/
theorem live_eq_singleton (h : x.Numbered) (ht : t ∈ x.live) (hone : ∀ u ∈ x.live, u.id = t.id) :
    x.live = [t] := by
  have hnodup : x.live.Nodup := (List.Nodup.of_map _ h.nodup).filter _
  have hall : ∀ u ∈ x.live, u = t := fun u hu =>
    eq_of_id h (mem_live.mp hu).1 (mem_live.mp ht).1 (hone u hu)
  have hlength : x.live.length ≤ 1 := by
    rw [List.eq_replicate_of_mem hall, List.nodup_replicate] at hnodup
    exact hnodup
  obtain ⟨u, hu⟩ := List.length_eq_one_iff.mp
    (Nat.le_antisymm hlength (List.length_pos_of_mem ht))
  rw [hu] at ht ⊢
  rw [List.mem_singleton.mp ht]

/-! ## What becomes of live tasks -/

theorem mem_live_cancel : t ∈ (x.cancel i).live → t ∈ x.live ∧ t.id ≠ i := by
  intro h
  obtain ⟨hmem, hlive⟩ := mem_live.mp h
  obtain ⟨u, hu, rfl⟩ := List.mem_map.mp hmem
  split at hlive
  · rw [u.not_live_cancel] at hlive
    cases hlive
  · next hnot =>
    rw [if_neg hnot]
    simp only [Bool.or_eq_true, decide_eq_true_eq, not_or] at hnot
    exact ⟨mem_live.mpr ⟨hu, hlive⟩, hnot.1⟩

theorem mem_live_finish : t ∈ (x.finish i).live → t ∈ x.live ∧ t.id ≠ i := by
  intro h
  obtain ⟨hmem, hlive⟩ := mem_live.mp h
  obtain ⟨u, hu, rfl⟩ := List.mem_map.mp hmem
  split at hlive
  · cases hlive
  · next hnot =>
    rw [if_neg hnot]
    exact ⟨mem_live.mpr ⟨hu, hlive⟩, hnot⟩

theorem live_stop (x : Delayed) : x.stop.live = [] := by
  unfold live stop
  rw [List.filter_eq_nil_iff]
  intro t ht
  obtain ⟨u, -, rfl⟩ := List.mem_map.mp ht
  rw [u.not_live_cancel]
  exact Bool.false_ne_true

/-! ## A task that is scheduled -/

/-- A task that is scheduled under no other is live, unless all tasks to come are cancelled. -/
theorem taskUnder_none (x : Delayed) (due length : Span) :
    x.taskUnder none due length =
      if x.stopped then ⟨x.nextId, [], length, true, .over⟩
      else ⟨x.nextId, [], length, false, .waits due⟩ := by
  unfold taskUnder
  cases hstopped : x.stopped <;> simp [DelayedTask.cancel]

theorem Numbered.schedule (h : x.Numbered) (due length : Span) :
    (x.schedule none due length).Numbered := by
  have hid : (x.taskUnder none due length).id = x.tasks.length := by
    rw [taskUnder_none]
    split <;> rfl
  unfold Numbered at h ⊢
  unfold Delayed.schedule
  rw [List.map_append, List.length_append, h, List.map_singleton, hid, List.length_singleton,
    List.range_succ]

theorem live_schedule (h : x.stopped = false) (due length : Span) :
    (x.schedule none due length).live = x.live ++ [⟨x.nextId, [], length, false, .waits due⟩] := by
  unfold live schedule
  rw [List.filter_append, taskUnder_none, h]
  rfl

theorem live_schedule_stopped (h : x.stopped = true) (due length : Span) :
    (x.schedule none due length).live = x.live := by
  unfold live schedule
  rw [List.filter_append, taskUnder_none, h]
  exact List.append_nil _

end Delayed

namespace Monitor

variable {m : Monitor} {now later : Span} {i : Nat}

/-- What holds of a monitor's checks at all times. -/
structure Sound (m : Monitor) (now : Span) : Prop where
  numbered : m.checks.Numbered
  pending : ∀ t ∈ m.checks.live, m.pending = some t.id
  due : ∀ t ∈ m.checks.live, ∀ due, t.phase = .waits due → due ≤ now + m.settings.delay
  stopped : m.checks.stopped = true → m.checks.live = []

/-- A single check is live, it is the pending one, and it is due within the delay. -/
def Sole (m : Monitor) (now : Span) : Prop :=
  ∃ t due, m.checks.live = [t] ∧ m.pending = some t.id ∧ t.phase = .waits due ∧
    due ≤ now + m.settings.delay

theorem sound_new (settings : MonitorSettings) (now : Span) : (new settings).Sound now :=
  { numbered := Delayed.numbered_new
    pending := fun _ h => nomatch h
    due := fun _ h => nomatch h
    stopped := fun _ => rfl }

theorem Sound.sole (h : m.Sound now) {t : DelayedTask} (ht : t ∈ m.checks.live) : m.Sole now := by
  obtain ⟨due, hdue⟩ := DelayedTask.waits_of_live (Delayed.mem_live.mp ht).2
  refine ⟨t, due, ?_, h.pending t ht, hdue, h.due t ht due hdue⟩
  refine Delayed.live_eq_singleton h.numbered ht fun u hu => ?_
  exact Option.some.inj ((h.pending u hu).symm.trans (h.pending t ht))

theorem Sound.length_live (h : m.Sound now) : m.checks.live.length ≤ 1 := by
  cases hlive : m.checks.live with
  | nil => exact Nat.zero_le 1
  | cons t l =>
    obtain ⟨u, -, hu, -⟩ := h.sole (t := t) (by rw [hlive]; exact List.mem_cons_self)
    rw [← hlive, hu]
    exact Nat.le_refl 1

/-- While no check is live, the checks are as they should be whichever is said to be pending. -/
theorem sound_of_live (hnumbered : m.checks.Numbered) (hlive : m.checks.live = []) :
    m.Sound now := by
  refine ⟨hnumbered, fun t ht => ?_, fun t ht => ?_, fun _ => hlive⟩
  · rw [hlive] at ht
    cases ht
  · rw [hlive] at ht
    cases ht

theorem Sound.passes (h : m.Sound now) (hle : now ≤ later) : m.Sound later := by
  refine ⟨h.numbered, h.pending, fun t ht due hdue => ?_, h.stopped⟩
  have hbound : due.nanos ≤ now.nanos + m.settings.delay.nanos := h.due t ht due hdue
  have hle : now.nanos ≤ later.nanos := hle
  show due.nanos ≤ later.nanos + m.settings.delay.nanos
  omega

theorem Sound.watch (h : m.Sound now) (job : Nat) : (m.watch job).Sound now :=
  ⟨h.numbered, h.pending, h.due, h.stopped⟩

/-! ## Operations that leave no check -/

theorem live_cancelPending (h : m.Sound now) : m.cancelPending.checks.live = [] := by
  have hnone : ∀ t ∈ m.cancelPending.checks.live, False := by
    unfold cancelPending
    split
    · next i hi =>
      intro t ht
      obtain ⟨hlive, hne⟩ := Delayed.mem_live_cancel ht
      rw [h.pending t hlive] at hi
      exact hne (Option.some.inj hi)
    · next hi =>
      intro t ht
      rw [h.pending t ht] at hi
      cases hi
  exact List.eq_nil_iff_forall_not_mem.mpr hnone

theorem numbered_cancelPending (h : m.checks.Numbered) : m.cancelPending.checks.Numbered := by
  unfold cancelPending
  split
  · exact h.cancel _
  · exact h

theorem Sound.cancelPending (h : m.Sound now) : m.cancelPending.Sound now :=
  sound_of_live (numbered_cancelPending h.numbered) (live_cancelPending h)

/-- A live check that begins was the only one. -/
theorem live_begin (h : m.Sound now) (hi : m.checks.isLive i = true) :
    (m.begin i).checks.live = [] := by
  obtain ⟨t, ht, rfl⟩ := Delayed.exists_of_isLive hi
  refine List.eq_nil_iff_forall_not_mem.mpr fun u hu => ?_
  obtain ⟨hlive, hne⟩ := Delayed.mem_live_finish hu
  exact hne (Option.some.inj ((h.pending u hlive).symm.trans (h.pending t ht)))

theorem Sound.begin (h : m.Sound now) (hi : m.checks.isLive i = true) : (m.begin i).Sound now :=
  sound_of_live (h.numbered.finish i) (live_begin h hi)

theorem live_stop (m : Monitor) : m.stop.checks.live = [] := m.checks.live_stop

theorem Sound.stop (h : m.Sound now) : m.stop.Sound now :=
  sound_of_live h.numbered.stop m.live_stop

/-! ## Operations that leave a check -/

theorem Sound.schedule (h : m.Sound now) (hnone : m.checks.live = []) :
    (m.schedule now).Sound now := by
  have hnumbered : (m.schedule now).checks.Numbered := h.numbered.schedule _ _
  cases hstopped : m.checks.stopped with
  | true =>
    refine sound_of_live hnumbered ?_
    rw [← hnone]
    exact Delayed.live_schedule_stopped hstopped _ _
  | false =>
    have hlive := Delayed.live_schedule hstopped (now + m.settings.delay) .zero
    rw [hnone, List.nil_append] at hlive
    have hone : ∀ t ∈ (m.schedule now).checks.live,
        t = ⟨m.checks.nextId, [], .zero, false, .waits (now + m.settings.delay)⟩ := by
      intro t ht
      exact List.mem_singleton.mp (hlive ▸ ht)
    refine ⟨hnumbered, fun t ht => ?_, fun t ht due hdue => ?_, fun h => ?_⟩
    · rw [hone t ht]
      rfl
    · rw [hone t ht] at hdue
      rw [← TaskPhase.waits.inj hdue]
      exact Nat.le_refl _
    · have h : m.checks.stopped = true := h
      rw [hstopped] at h
      cases h

/-- A check that is scheduled where none is live is the only one. -/
theorem sole_schedule (h : m.Sound now) (hnone : m.checks.live = [])
    (hstopped : m.checks.stopped = false) : (m.schedule now).Sole now := by
  have hlive := Delayed.live_schedule hstopped (now + m.settings.delay) .zero
  have hmem : ⟨m.checks.nextId, [], .zero, false, .waits (now + m.settings.delay)⟩ ∈
      (m.schedule now).checks.live := by
    show _ ∈ (m.checks.schedule none (now + m.settings.delay) .zero).live
    rw [hlive]
    exact List.mem_append_right _ (List.mem_singleton.mpr rfl)
  exact (h.schedule hnone).sole hmem

theorem stopped_cancelPending (m : Monitor) :
    m.cancelPending.checks.stopped = m.checks.stopped := by
  unfold cancelPending
  split <;> rfl

theorem Sound.reschedule (h : m.Sound now) : (m.reschedule now).Sound now :=
  h.cancelPending.schedule (live_cancelPending h)

theorem sole_reschedule (h : m.Sound now) (hstopped : m.checks.stopped = false) :
    (m.reschedule now).Sole now :=
  sole_schedule h.cancelPending (live_cancelPending h) (m.stopped_cancelPending.trans hstopped)

/-- Where no check will come, none is live. -/
theorem Sound.live_of_not_armed (h : m.Sound now) (hi : m.isArmed = false) :
    m.checks.live = [] := by
  refine List.eq_nil_iff_forall_not_mem.mpr fun t ht => ?_
  rw [isArmed, h.pending t ht] at hi
  have hlive := Delayed.isLive_of_mem h.numbered ht
  rw [Option.any_some, hlive] at hi
  cases hi

theorem Sound.ensureArmed (h : m.Sound now) : (m.ensureArmed now).Sound now := by
  unfold Monitor.ensureArmed
  split
  · exact h
  · next hnot =>
    rw [Bool.or_eq_true, not_or, Bool.not_eq_true] at hnot
    exact h.schedule (h.live_of_not_armed hnot.1)

theorem sole_ensureArmed (h : m.Sound now) (hstopped : m.checks.stopped = false) :
    (m.ensureArmed now).Sole now := by
  unfold Monitor.ensureArmed
  cases harmed : m.isArmed with
  | true =>
    -- The pending check is live, so it is the one.
    rw [isArmed, Option.any_eq_true] at harmed
    obtain ⟨i, -, hi⟩ := harmed
    obtain ⟨t, ht, -⟩ := Delayed.exists_of_isLive hi
    exact h.sole ht
  | false =>
    rw [hstopped]
    exact sole_schedule h (h.live_of_not_armed harmed) hstopped

end Monitor

/-! ## The checks of a keeper -/

namespace Keeper

variable {k : Keeper} {i : Nat}

def disarm (k : Keeper) : Keeper := { k with monitor := k.monitor.disarm }

/-- The checks are as they should be, and they are stopped when the keeper is. -/
structure Watched (k : Keeper) : Prop where
  sound : k.monitor.Sound k.elapsed
  stopped : k.monitor.checks.stopped = k.stopped

theorem Watched.live_of_stopped (h : k.Watched) (hstopped : k.stopped = true) :
    k.monitor.checks.live = [] := h.sound.stopped (h.stopped.trans hstopped)

theorem watched_new (lock : UpdateLock) (settings : MonitorSettings) (requests : Bool) :
    (new lock settings requests).Watched := ⟨Monitor.sound_new settings .zero, rfl⟩

theorem Watched.arm (h : k.Watched) (job : Nat) : (k.arm job).Watched :=
  ⟨(h.sound.watch job).reschedule,
    (k.monitor.watch job).stopped_cancelPending.trans h.stopped⟩

theorem sole_arm (h : k.Watched) (hstopped : k.stopped = false) (job : Nat) :
    (k.arm job).monitor.Sole k.elapsed :=
  Monitor.sole_reschedule (h.sound.watch job) (h.stopped.trans hstopped)

theorem Watched.ensureArmed (h : k.Watched) : k.ensureArmed.Watched := by
  refine ⟨h.sound.ensureArmed, ?_⟩
  show (k.monitor.ensureArmed k.elapsed).checks.stopped = k.stopped
  unfold Monitor.ensureArmed
  split <;> exact h.stopped

theorem Watched.disarm (h : k.Watched) : k.disarm.Watched :=
  ⟨h.sound.cancelPending, k.monitor.stopped_cancelPending.trans h.stopped⟩

theorem Watched.stop (h : k.Watched) : k.stop.Watched := ⟨h.sound.stop, rfl⟩

theorem Watched.passes (h : k.Watched) (t : Span) :
    Watched { k with elapsed := k.elapsed + t } :=
  ⟨h.sound.passes (Nat.le_add_right _ _), h.stopped⟩

theorem Watched.begin (h : k.Watched) (hi : k.monitor.checks.isLive i = true) :
    Watched { k with monitor := k.monitor.begin i } := ⟨h.sound.begin hi, h.stopped⟩

theorem Watched.reschedule (h : k.Watched) :
    Watched { k with monitor := k.monitor.reschedule k.elapsed } :=
  ⟨h.sound.reschedule, k.monitor.stopped_cancelPending.trans h.stopped⟩

end Keeper
end SensorCache
