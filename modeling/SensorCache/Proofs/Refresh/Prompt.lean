import SensorCache.Proofs.Refresh.Courses
import SensorCache.Refresh.Target

/-!
# Courses that need not wait

A course of which each wait is over as soon as it begins comes to its end at once (`Comes`), be it in
one turn of a job or by itself. A call of a source is such a wait when the executor is free and the
call returns, and then the executor is free again (`Prompt`).
-/

namespace SensorCache

open Disk Time

namespace Course

variable {σ α β : Type} {s m t : Scene σ} {d e n : Disk} {a : α} {b : β}

/-- In the scene `s` and on the disk `d` the course comes to its end, with `a` in the scene `t` and
on the disk `e`. -/
def Comes (c : Course σ α) (s : Scene σ) (d : Disk) (a : α) (t : Scene σ) (e : Disk) : Prop :=
  (c.proceed s).run d = ((.ended a, t), e)

theorem comes_pure (a : α) (s : Scene σ) (d : Disk) : (pure a : Course σ α).Comes s d a s d := rfl

theorem Comes.bind {c : Course σ α} {f : α → Course σ β} (hc : c.Comes s d a m n)
    (hf : (f a).Comes m n b t e) : (c >>= f).Comes s d b t e := by
  show (c.bind f).Comes s d b t e
  induction c generalizing s d with
  | ends x =>
    cases hc
    exact hf
  | crashes => cases hc
  | looks next ih => exact ih s hc
  | puts s' next ih => exact ih hc
  | performs o next ih => exact ih _ hc
  | waits limit heeds ready next ih =>
    unfold Comes proceed at hc
    unfold Comes Course.bind proceed
    cases hw : s.wake? heeds ready with
    | some w =>
      rw [hw] at hc
      exact ih w hc
    | none =>
      rw [hw] at hc
      cases hc

theorem comes_ofRoutine {r : Routine α} (h : r.run d = (a, e)) (s : Scene σ) :
    (ofRoutine r).Comes s d a s e := by
  induction r generalizing d with
  | done x =>
    cases h
    rfl
  | step o next ih => exact ih _ h

theorem comes_look (s : Scene σ) (d : Disk) : (look : Course σ _).Comes s d s s d := rfl

theorem comes_modify (f : Scene σ → Scene σ) (s : Scene σ) (d : Disk) :
    (modify f).Comes s d () (f s) d := rfl

theorem comes_mark (f : JobHandle → JobHandle) (s : Scene σ) (d : Disk) :
    (mark f).Comes s d () { s with job := f s.job } d := rfl

theorem comes_markNow (f : JobHandle → Instant → JobHandle) (s : Scene σ) (d : Disk) :
    (markNow f).Comes s d () { s with job := f s.job d.clock } d := rfl

theorem comes_isInterrupted (s : Scene σ) (d : Disk) :
    (isInterrupted : Course σ _).Comes s d s.job.interrupted s d := rfl

theorem comes_wait {limit : Option Span} {ready : Scene σ → Bool} {w : Woken}
    (h : s.wake? true ready = some w) (d : Disk) : (wait limit ready).Comes s d w s d := by
  unfold Comes wait proceed
  rw [h]
  rfl

/-- Nothing has to be waited for by a course that goes on alone either. -/
theorem Comes.runAlone {c : Course σ α} (h : c.Comes s d a t e) :
    (c.runAlone s).run d = ((.ended a, t), e) := by
  induction c generalizing s d with
  | ends x =>
    cases h
    rfl
  | crashes => cases h
  | looks next ih => exact ih s h
  | puts s' next ih => exact ih h
  | performs o next ih => exact ih _ h
  | waits limit heeds ready next ih =>
    unfold Comes proceed at h
    unfold Course.runAlone
    cases hw : s.wake? heeds ready with
    | some w =>
      rw [hw] at h
      exact ih w h
    | none =>
      rw [hw] at h
      cases h

end Course

/-- A job that goes on and an executor that is free: an update need not wait for its turn. -/
structure Scene.Free {σ : Type} (s : Scene σ) : Prop where
  running : s.job.interrupted = false
  idle : s.executor.busy = false

theorem Scene.wake?_ready {σ : Type} {s : Scene σ} {ready : Scene σ → Bool}
    (hs : s.job.interrupted = false) (h : ready s = true) : s.wake? true ready = some .ready := by
  simp [Scene.wake?, hs, h]

/-! ## From free scene to free scene -/

namespace Course

variable {σ α β : Type} {s : Scene σ} {d e m : Disk} {a : α} {b : β}

/-- In the scene `s` and on the disk `d` the course comes to its end, with `a` and on the disk `e`,
and leaves a free scene with what was its own before. -/
def Prompt (c : Course σ α) (s : Scene σ) (d : Disk) (a : α) (e : Disk) : Prop :=
  ∃ t : Scene σ, t.Free ∧ t.own = s.own ∧ c.Comes s d a t e

theorem Prompt.bind {c : Course σ α} {f : α → Course σ β} (hc : c.Prompt s d a m)
    (hf : ∀ t : Scene σ, t.Free → t.own = s.own → (f a).Prompt t m b e) :
    (c >>= f).Prompt s d b e := by
  obtain ⟨t, ht, hown, hcomes⟩ := hc
  obtain ⟨u, hu, hown', hrest⟩ := hf t ht hown
  exact ⟨u, hu, hown'.trans hown, hcomes.bind hrest⟩

/-- What comes first may leave a scene that is told. -/
theorem Comes.promptBind {c : Course σ α} {f : α → Course σ β} {t : Scene σ}
    (hc : c.Comes s d a t m) (hown : t.own = s.own) (hf : (f a).Prompt t m b e) :
    (c >>= f).Prompt s d b e := by
  obtain ⟨u, hu, hown', hrest⟩ := hf
  exact ⟨u, hu, hown'.trans hown, hc.bind hrest⟩

/-- There is one such end. -/
theorem Prompt.unique {c : Course σ α} {a' : α} {e' : Disk} (h : c.Prompt s d a e)
    (h' : c.Prompt s d a' e') : a = a' ∧ e = e' := by
  obtain ⟨t, -, -, ht⟩ := h
  obtain ⟨u, -, -, hu⟩ := h'
  obtain ⟨hend, rfl⟩ := Prod.mk.inj (ht.symm.trans hu)
  exact ⟨CourseStop.ended.inj (Prod.mk.inj hend).1, rfl⟩

theorem prompt_pure (hs : s.Free) (a : α) (d : Disk) : (pure a : Course σ α).Prompt s d a d :=
  ⟨s, hs, rfl, comes_pure a s d⟩

theorem prompt_ofRoutine (hs : s.Free) {r : Routine α} (h : r.run d = (a, e)) :
    (ofRoutine r).Prompt s d a e :=
  ⟨s, hs, rfl, comes_ofRoutine h s⟩

theorem prompt_mark (hs : s.Free) {f : JobHandle → JobHandle} (d : Disk)
    (hf : (f s.job).interrupted = s.job.interrupted) : (mark f : Course σ Unit).Prompt s d () d :=
  ⟨{ s with job := f s.job }, ⟨hf.trans hs.running, hs.idle⟩, rfl, comes_mark f s d⟩

theorem prompt_markNow (hs : s.Free) {f : JobHandle → Instant → JobHandle} (d : Disk)
    (hf : ∀ now, (f s.job now).interrupted = s.job.interrupted) :
    (markNow f : Course σ Unit).Prompt s d () d :=
  ⟨{ s with job := f s.job d.clock }, ⟨(hf _).trans hs.running, hs.idle⟩, rfl, comes_markNow f s d⟩

theorem prompt_isInterrupted (hs : s.Free) (d : Disk) :
    (isInterrupted : Course σ Bool).Prompt s d false d :=
  ⟨s, hs, rfl, hs.running ▸ comes_isInterrupted s d⟩

end Course

namespace SourceCall

variable {α ρ σ τ : Type} {s : Scene σ} {d e : Disk} {h : Receiver α τ} {start : JobHandle → τ}
  {job : τ → JobHandle} {c : SourceCall α ρ} {r : Except SourceError ρ} {x : τ}

/-- A call that returns is over when the job begins to wait for it. -/
theorem prompt_awaited (hs : s.Free) (hrun : (c.run h (start s.job)).run d = ((.returned r, x), e))
    (hx : (job x).interrupted = false) (limit : Span) :
    (c.awaited h start job limit : Course σ _).Prompt s d (.returned r x) e := by
  have hslot : s.wake? true (fun s => !s.executor.busy) = some .ready :=
    Scene.wake?_ready hs.running (by rw [hs.idle]; rfl)
  refine ⟨{ s with job := job x, executor := s.executor.begin.finish }, ⟨hx, rfl⟩, rfl, ?_⟩
  refine (Course.comes_wait hslot d).bind ?_
  refine (Course.comes_modify _ _ _).bind ?_
  refine (Course.comes_look _ _).bind ?_
  refine (Course.comes_ofRoutine hrun _).bind ?_
  refine (Course.comes_mark _ _ _).bind ?_
  refine (Course.comes_wait (Scene.wake?_ready hx rfl) e).bind ?_
  exact (Course.comes_modify _ _ _).bind (Course.comes_pure _ _ _)

end SourceCall

end SensorCache
