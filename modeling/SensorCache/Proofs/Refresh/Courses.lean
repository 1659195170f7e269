import SensorCache.Proofs.Disk.Interference
import SensorCache.Refresh.Course

/-!
# Courses among others

How the course of an update may end while others change the disk and the scene between its steps.
A wait may end for any of the reasons that it can end for, at once or after any time.
-/

namespace SensorCache

open Time

/-- What may happen around a course: how operations on the disk come out, and how others may have
changed the scene by the time it is looked at. Nobody takes back the interruption of a job. -/
structure Surroundings (σ : Type) where
  disk : Disk.Conduct
  scene : Scene σ → Scene σ → Prop
  interrupted : ∀ {s t}, scene s t → s.job.interrupted = true → t.job.interrupted = true

/-- Others change the disk between operations, and leave the scene alone. -/
def Surroundings.among {σ : Type} (change : Disk → Disk → Prop) : Surroundings σ :=
  ⟨.among change, fun s t => t = s, fun h hs => by rw [h, hs]⟩

/-- Whether a wait may end for a reason in a scene. -/
def Scene.MayWake {σ : Type} (s : Scene σ) (limit : Option Span) (heeds : Bool)
    (ready : Scene σ → Bool) : Woken → Prop
  | .timeUp => limit.isSome = true
  | .interrupted => heeds = true ∧ s.job.interrupted = true
  | .ready => ready s = true

namespace Course

variable {σ α β ε : Type} {W : Surroundings σ} {R : Disk → Disk → Prop} {s t : Scene σ} {d e : Disk}

/-- `c.Ends W s d a t e`: in the scene `s` and on the disk `d`, the course may end with `a` in the
scene `t` and on the disk `e`. -/
inductive Ends (W : Surroundings σ) : Course σ α → Scene σ → Disk → α → Scene σ → Disk → Prop where
  | ends (a : α) (s : Scene σ) (d : Disk) : Ends W (.ends a) s d a s d
  | looks {next : Scene σ → Course σ α} {s m t : Scene σ} {d e : Disk} {a : α} :
    W.scene s m → Ends W (next m) m d a t e → Ends W (.looks next) s d a t e
  | puts {next : Course σ α} {s m t : Scene σ} {d e : Disk} {a : α} :
    Ends W next m d a t e → Ends W (.puts m next) s d a t e
  | performs {o : Disk.Op} {next : o.Answer → Course σ α} {x : o.Answer} {s t : Scene σ}
      {d m e : Disk} {a : α} :
    W.disk o d x m → Ends W (next x) s m a t e → Ends W (.performs o next) s d a t e
  | waits {limit : Option Span} {heeds : Bool} {ready : Scene σ → Bool} {next : Woken → Course σ α}
      {w : Woken} {s m t : Scene σ} {d e : Disk} {a : α} :
    W.scene s m → m.MayWake limit heeds ready w → Ends W (next w) m d a t e →
      Ends W (.waits limit heeds ready next) s d a t e

theorem ends_pure {a b : α} :
    (pure a : Course σ α).Ends W s d b t e ↔ b = a ∧ t = s ∧ e = d := by
  constructor
  · intro h
    cases h
    exact ⟨rfl, rfl, rfl⟩
  · rintro ⟨rfl, rfl, rfl⟩
    exact .ends _ _ _

theorem Ends.bind {c : Course σ α} {f : α → Course σ β} {a : α} {b : β} {m : Scene σ} {n : Disk}
    (hc : c.Ends W s d a m n) (hf : (f a).Ends W m n b t e) : (c.bind f).Ends W s d b t e := by
  induction hc with
  | ends a s d => exact hf
  | looks hs _ ih => exact .looks hs (ih hf)
  | puts _ ih => exact .puts (ih hf)
  | performs hx _ ih => exact .performs hx (ih hf)
  | waits hs hw _ ih => exact .waits hs hw (ih hf)

theorem ends_bind {c : Course σ α} {f : α → Course σ β} {b : β} :
    (c.bind f).Ends W s d b t e ↔
      ∃ a m n, c.Ends W s d a m n ∧ (f a).Ends W m n b t e := by
  refine ⟨fun h => ?_, fun ⟨_, _, _, hc, hf⟩ => hc.bind hf⟩
  induction c generalizing s d with
  | ends a => exact ⟨a, s, d, .ends a s d, h⟩
  | crashes => cases h
  | looks next ih =>
    cases h with
    | looks hs hn =>
      obtain ⟨a, m, n, hc, hf⟩ := ih _ hn
      exact ⟨a, m, n, .looks hs hc, hf⟩
  | puts m next ih =>
    cases h with
    | puts hn =>
      obtain ⟨a, m, n, hc, hf⟩ := ih hn
      exact ⟨a, m, n, .puts hc, hf⟩
  | performs o next ih =>
    cases h with
    | performs hx hn =>
      obtain ⟨a, m, n, hc, hf⟩ := ih _ hn
      exact ⟨a, m, n, .performs hx hc, hf⟩
  | waits limit heeds ready next ih =>
    cases h with
    | waits hs hw hn =>
      obtain ⟨a, m, n, hc, hf⟩ := ih _ hn
      exact ⟨a, m, n, .waits hs hw hc, hf⟩

theorem ends_seq {c : Course σ α} {f : α → Course σ β} {b : β} :
    (c >>= f).Ends W s d b t e ↔
      ∃ a m n, c.Ends W s d a m n ∧ (f a).Ends W m n b t e := ends_bind

theorem ends_ofRoutine {r : Routine α} {a : α} :
    (ofRoutine r : Course σ α).Ends W s d a t e ↔ t = s ∧ r.Ends W.disk d a e := by
  induction r generalizing d with
  | done b =>
    rw [Routine.ends_done]
    constructor
    · intro h
      cases h
      exact ⟨rfl, rfl, rfl⟩
    · rintro ⟨rfl, rfl, rfl⟩
      exact .ends _ _ _
  | step o next ih =>
    constructor
    · intro h
      cases h with
      | performs hx hn =>
        obtain ⟨rfl, hr⟩ := (ih _).mp hn
        exact ⟨rfl, .step hx hr⟩
    · rintro ⟨rfl, h⟩
      cases h with
      | step hx hn => exact .performs hx ((ih _).mpr ⟨rfl, hn⟩)

theorem ends_modify {f : Scene σ → Scene σ} {u : Unit} :
    (modify f).Ends W s d u t e ↔ ∃ m, W.scene s m ∧ t = f m ∧ e = d := by
  constructor
  · intro h
    cases h with
    | looks hs hn =>
      cases hn with
      | puts hp =>
        cases hp
        exact ⟨_, hs, rfl, rfl⟩
  · rintro ⟨m, hs, rfl, rfl⟩
    exact .looks hs (.puts (.ends _ _ _))

theorem ends_wait {limit : Option Span} {ready : Scene σ → Bool} {w : Woken} :
    (wait limit ready : Course σ Woken).Ends W s d w t e ↔
      W.scene s t ∧ t.MayWake limit true ready w ∧ e = d := by
  constructor
  · intro h
    cases h with
    | waits hs hw hn =>
      cases hn
      exact ⟨hs, hw, rfl⟩
  · rintro ⟨hs, hw, rfl⟩
    exact .waits hs hw (.ends _ _ _)

theorem ends_isInterrupted {b : Bool} :
    (isInterrupted : Course σ Bool).Ends W s d b t e ↔
      W.scene s t ∧ b = t.job.interrupted ∧ e = d := by
  constructor
  · intro h
    cases h with
    | looks hs hn =>
      cases hn
      exact ⟨hs, rfl, rfl⟩
  · rintro ⟨hs, rfl, rfl⟩
    exact .looks hs (.ends _ _ _)

/-- A course that is let run alone comes to an end that it may come to among others, if these may
also do nothing. -/
theorem ends_of_runAlone (hscene : ∀ s, W.scene s s) {c : Course σ α} {a : α}
    (h : (c.runAlone s).Ends W.disk d (.ended a, t) e) : c.Ends W s d a t e := by
  induction c generalizing s d with
  | ends b =>
    obtain ⟨heq, rfl⟩ := Routine.ends_done.mp h
    cases heq
    exact .ends a t e
  | crashes =>
    obtain ⟨heq, -⟩ := Routine.ends_done.mp h
    cases heq
  | looks next ih => exact .looks (hscene s) (ih s h)
  | puts m next ih => exact .puts (ih h)
  | performs o next ih =>
    obtain ⟨x, m, hx, hn⟩ := Routine.ends_step.mp h
    exact .performs hx (ih x hn)
  | waits limit heeds ready next ih =>
    have hwake : ∀ w, s.wake? heeds ready = some w → s.MayWake limit heeds ready w := by
      intro w hw
      unfold Scene.wake? at hw
      split at hw
      · next hi =>
        cases hw
        simpa [Scene.MayWake] using hi
      · split at hw
        · next hr =>
          cases hw
          exact hr
        · cases hw
    unfold runAlone at h
    split at h
    · next w hw => exact .waits (hscene s) (hwake w hw) (ih w h)
    · exact .waits (w := .timeUp) (hscene s) rfl (ih .timeUp h)
    · obtain ⟨heq, -⟩ := Routine.ends_done.mp h
      cases heq

theorem bind_assoc {γ : Type} (c : Course σ α) (f : α → Course σ β) (g : β → Course σ γ) :
    (c.bind f).bind g = c.bind fun a => (f a).bind g := by
  induction c with
  | ends a => rfl
  | crashes => rfl
  | looks next ih => exact congrArg Course.looks (funext ih)
  | puts s next ih => exact congrArg (Course.puts s) ih
  | performs o next ih => exact congrArg (Course.performs o) (funext ih)
  | waits limit heeds ready next ih => exact congrArg (Course.waits limit heeds ready) (funext ih)

theorem bind_ends (c : Course σ α) : c.bind .ends = c := by
  induction c with
  | ends a => rfl
  | crashes => rfl
  | looks next ih => exact congrArg Course.looks (funext ih)
  | puts s next ih => exact congrArg (Course.puts s) ih
  | performs o next ih => exact congrArg (Course.performs o) (funext ih)
  | waits limit heeds ready next ih => exact congrArg (Course.waits limit heeds ready) (funext ih)

/-- What is done after a routine does not matter where it is made part of a course. -/
theorem ofRoutine_bind (r : Routine α) (f : α → Routine β) :
    (ofRoutine (r.bind f) : Course σ β) = (ofRoutine r).bind fun a => ofRoutine (f a) := by
  induction r with
  | done a => rfl
  | step o next ih => exact congrArg (Course.performs o) (funext ih)

/-- Whether a course that is let run alone ends with a result that is as `p` says. -/
def endsAlone (p : α → Bool) (c : Course σ α) (s : Scene σ) (d : Disk) : Bool :=
  match ((c.runAlone s).run d).1.1 with
  | .ended a => p a
  | _ => false

theorem ends_of_endsAlone (hscene : ∀ s, W.scene s s)
    (hdisk : ∀ o d, W.disk o d (d.perform o).1 (d.perform o).2) {p : α → Bool} {c : Course σ α}
    (h : c.endsAlone p s d = true) : ∃ a t e, c.Ends W s d a t e ∧ p a = true := by
  have hends := Routine.ends_run hdisk (c.runAlone s) d
  unfold endsAlone at h
  generalize (c.runAlone s).run d = out at h hends
  obtain ⟨⟨r, t⟩, e⟩ := out
  cases r with
  | crashed => cases h
  | stuck => cases h
  | ended a => exact ⟨a, t, e, ends_of_runAlone hscene hends, h⟩

/-! ## What a course leaves alone -/

/-- Each operation that the course may come to keeps `R`, on any disk. -/
def Keeps (R : Disk → Disk → Prop) : Course σ α → Prop
  | .ends _ => True
  | .crashes => True
  | .looks next => ∀ s, (next s).Keeps R
  | .puts _ next => next.Keeps R
  | .performs o next => (∀ d, R d (d.perform o).2) ∧ ∀ x, (next x).Keeps R
  | .waits _ _ _ next => ∀ w, (next w).Keeps R

theorem Keeps.bind {c : Course σ α} {f : α → Course σ β} (hc : c.Keeps R)
    (hf : ∀ a, (f a).Keeps R) : (c.bind f).Keeps R := by
  induction c with
  | ends a => exact hf a
  | crashes => trivial
  | looks next ih => exact fun s => ih s (hc s)
  | puts s next ih => exact ih hc
  | performs o next ih => exact ⟨hc.1, fun x => ih x (hc.2 x)⟩
  | waits limit heeds ready next ih => exact fun w => ih w (hc w)

theorem keeps_ofRoutine {r : Routine α} (hr : r.Keeps R) : (ofRoutine r : Course σ α).Keeps R := by
  induction r with
  | done a => trivial
  | step o next ih => exact ⟨hr.1, fun x => ih x (hr.2 x)⟩

theorem keeps_modify (f : Scene σ → Scene σ) : (modify f).Keeps R := fun _ => trivial

theorem keeps_markNow (hrefl : ∀ d, R d d) (f : JobHandle → Instant → JobHandle) :
    (markNow f : Course σ Unit).Keeps R :=
  (keeps_ofRoutine (Routine.keeps_op hrefl)).bind fun _ => keeps_modify _

theorem keeps_isInterrupted : (isInterrupted : Course σ Bool).Keeps R := fun _ => trivial

theorem Keeps.ends (hmay : W.disk.Within R) (hrefl : ∀ d, R d d)
    (htrans : ∀ {a b c}, R a b → R b c → R a c) {c : Course σ α} (hc : c.Keeps R) {a : α}
    (h : c.Ends W s d a t e) : R d e := by
  induction h with
  | ends a s d => exact hrefl d
  | looks _ _ ih => exact ih (hc _)
  | puts _ ih => exact ih hc
  | performs hx _ ih => exact htrans (hmay.kept htrans hc.1 hx) (ih (hc.2 _))
  | waits _ _ _ ih => exact ih (hc _)

end Course

/-- So does what is left of a course that waits. -/
def CourseStop.Keeps {σ α : Type} (R : Disk → Disk → Prop) : CourseStop σ α → Prop
  | .blocked _ _ _ next => ∀ w, (next w).Keeps R
  | _ => True

namespace Course

variable {σ α β ε : Type} {W : Surroundings σ} {R : Disk → Disk → Prop} {s t : Scene σ} {d e : Disk}

theorem Keeps.ends_proceed {may : Disk.Conduct} (hmay : may.Within R) (hrefl : ∀ d, R d d)
    (htrans : ∀ {a b c}, R a b → R b c → R a c) {c : Course σ α} (hc : c.Keeps R)
    {r : CourseStop σ α} (h : (c.proceed s).Ends may d (r, t) e) : R d e ∧ r.Keeps R := by
  induction c generalizing s d with
  | ends a =>
    obtain ⟨heq, rfl⟩ := Routine.ends_done.mp h
    cases heq
    exact ⟨hrefl e, trivial⟩
  | crashes =>
    obtain ⟨heq, rfl⟩ := Routine.ends_done.mp h
    cases heq
    exact ⟨hrefl e, trivial⟩
  | looks next ih => exact ih s (hc s) h
  | puts m next ih => exact ih hc h
  | performs o next ih =>
    obtain ⟨x, m, hx, hn⟩ := Routine.ends_step.mp h
    obtain ⟨hm, hr⟩ := ih x (hc.2 x) hn
    exact ⟨htrans (hmay.kept htrans hc.1 hx) hm, hr⟩
  | waits limit heeds ready next ih =>
    unfold proceed at h
    split at h
    · next w _ => exact ih w (hc w) h
    · obtain ⟨heq, rfl⟩ := Routine.ends_done.mp h
      cases heq
      exact ⟨hrefl e, hc⟩

theorem Keeps.mono {Q : Disk → Disk → Prop} {c : Course σ α} (hc : c.Keeps Q)
    (h : ∀ d e, Q d e → R d e) : c.Keeps R := by
  induction c with
  | ends a => trivial
  | crashes => trivial
  | looks next ih => exact fun s => ih s (hc s)
  | puts s next ih => exact ih hc
  | performs o next ih => exact ⟨fun d => h _ _ (hc.1 d), fun x => ih x (hc.2 x)⟩
  | waits limit heeds ready next ih => exact fun w => ih w (hc w)

/-- What is left of a course keeps what all of it does, in whatever world. -/
theorem Keeps.ends_proceed_rest {may : Disk.Conduct} {c : Course σ α} (hc : c.Keeps R)
    {r : CourseStop σ α} (h : (c.proceed s).Ends may d (r, t) e) : r.Keeps R := by
  induction c generalizing s d with
  | ends a =>
    obtain ⟨heq, -⟩ := Routine.ends_done.mp h
    cases heq
    trivial
  | crashes =>
    obtain ⟨heq, -⟩ := Routine.ends_done.mp h
    cases heq
    trivial
  | looks next ih => exact ih s (hc s) h
  | puts m next ih => exact ih hc h
  | performs o next ih =>
    obtain ⟨x, m, -, hn⟩ := Routine.ends_step.mp h
    exact ih x (hc.2 x) hn
  | waits limit heeds ready next ih =>
    unfold proceed at h
    split at h
    · next w _ => exact ih w (hc w) h
    · obtain ⟨heq, -⟩ := Routine.ends_done.mp h
      cases heq
      exact hc

/-! ## What is kept by failures -/

/-- Whenever the course ends with a failure, `R` is kept. -/
def FailureKeeps (W : Surroundings σ) (R : Disk → Disk → Prop) (c : Course σ (Except ε α)) : Prop :=
  ∀ {s t : Scene σ} {d e : Disk} {x : ε}, c.Ends W s d (.error x) t e → R d e

theorem failureKeeps_pure (hrefl : ∀ d, R d d) (x : Except ε α) :
    FailureKeeps W R (pure x) := by
  intro s t d e y h
  obtain ⟨-, -, rfl⟩ := ends_pure.mp h
  exact hrefl e

/-- A course whose beginning keeps `R`, and all that follows when it fails. -/
theorem Keeps.failureKeeps (hmay : W.disk.Within R) (hrefl : ∀ d, R d d)
    (htrans : ∀ {a b c}, R a b → R b c → R a c) {c : Course σ β}
    {f : β → Course σ (Except ε α)} (hc : c.Keeps R) (hf : ∀ b, FailureKeeps W R (f b)) :
    FailureKeeps W R (c.bind f) := by
  intro s t d e y h
  obtain ⟨b, m, n, hb, hrest⟩ := ends_bind.mp h
  exact htrans (hc.ends hmay hrefl htrans hb) (hf b hrest)

/-- An attempt as a course, with the failure that it is for the refresh. -/
theorem failureKeeps_ofAttempt {δ : Type} {cause : δ → ε} {r : Attempt δ α}
    (hr : ∀ {d e : Disk} {x : δ}, r.Ends W.disk d (.error x) e → R d e) :
    FailureKeeps W R (do return (← (ofRoutine r.outcome : Course σ (Except δ α))).mapError cause) := by
  intro s t d e y h
  obtain ⟨x, m, n, hx, hrest⟩ := ends_seq.mp h
  obtain ⟨-, hattempt⟩ := ends_ofRoutine.mp hx
  obtain ⟨heq, -, rfl⟩ := ends_pure.mp hrest
  cases x with
  | ok a => cases heq
  | error z => exact hr hattempt

end Course

end SensorCache
