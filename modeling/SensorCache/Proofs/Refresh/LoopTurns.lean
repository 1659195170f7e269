import SensorCache.Proofs.Refresh.Overlap

/-!
# Turns of the loop

Jobs, checks and requests leave what the loop of a scheduler waits for alone
(`leads_move_sameLoop`). A turn of the loop itself begins the listening, answers a request, starts
the job of the daily slot, or ends it (`LoopTurn`, `ends_loopTurn_iff`).
-/

namespace SensorCache

open Disk Time

variable {σ : Type} {may : Conduct} {d e : Disk}

/-- Nothing is answered only when nothing is asked. -/
theorem Trigger.answer?_eq_none {t : Trigger} : t.answer? = none ↔ t.pending = false := by
  unfold Trigger.answer?
  cases t.pending <;> simp

namespace Scheduler

variable {s s' : Scheduler σ} {id : Nat}

/-! ## What the loop goes by -/

/-- The slots lie at the same times. -/
structure SameCalendar (s s' : Scheduler σ) : Prop where
  zone : s'.zone = s.zone
  settings : s'.settings = s.settings
  jitter : s'.jitter = s.jitter

/-- The loop waits for the same. -/
structure SameLoop (s s' : Scheduler σ) : Prop extends SameCalendar s s' where
  loop : s'.loop = s.loop

theorem SameCalendar.refl (s : Scheduler σ) : SameCalendar s s := ⟨rfl, rfl, rfl⟩

theorem SameCalendar.trans {s'' : Scheduler σ} (h : SameCalendar s s') (h' : SameCalendar s' s'') :
    SameCalendar s s'' :=
  ⟨h'.zone.trans h.zone, h'.settings.trans h.settings, h'.jitter.trans h.jitter⟩

theorem SameLoop.refl (s : Scheduler σ) : SameLoop s s := ⟨.refl s, rfl⟩

theorem SameLoop.trans {s'' : Scheduler σ} (h : SameLoop s s') (h' : SameLoop s' s'') :
    SameLoop s s'' :=
  ⟨h.toSameCalendar.trans h'.toSameCalendar, h'.loop.trans h.loop⟩

/-- A keeper, jobs and what they have are not what the loop waits for. -/
theorem sameLoop_with (s : Scheduler σ) (k : Keeper) (x : Executor) (o : σ) (ts : List (JobTask σ)) :
    SameLoop s { s with keeper := k, executor := x, own := o, tasks := ts } := ⟨⟨rfl, rfl, rfl⟩, rfl⟩

/-! ## What leaves the loop alone -/

/-- However the routine ends, the loop waits for the same as that of `s`. -/
abbrev LeavesLoop (may : Conduct) (s : Scheduler σ) (r : Routine (Scheduler σ)) (d : Disk) : Prop :=
  r.Leads may d fun s' _ => SameLoop s s'

theorem LeavesLoop.of_same {s₀ : Scheduler σ} {r : Routine (Scheduler σ)}
    (hr : LeavesLoop may s r d) (h : SameLoop s₀ s) : LeavesLoop may s₀ r d :=
  Routine.Leads.mono hr fun _ _ h' => h.trans h'

theorem leavesLoop_pure (h : SameLoop s s') : LeavesLoop may s (pure s') d := Routine.leads_pure h

theorem leads_keep {α : Type} (s : Scheduler σ) (r : Keeper → Routine (α × Keeper)) (d : Disk) :
    (s.keep r).Leads may d fun x _ => SameLoop s x.2 :=
  (Routine.leads_any _ d).bind fun _ _ _ => Routine.leads_pure (sameLoop_with s _ _ _ _)

theorem leads_play (s : Scheduler σ) (id : Nat) (c : Course σ (Except RefreshError Nat)) (d : Disk) :
    (s.play id c).Leads may d fun x _ => SameLoop s x.2 := by
  unfold play
  split
  · exact Routine.leads_pure (.refl s)
  · exact (Routine.leads_any _ d).bind fun _ _ _ => Routine.leads_pure (sameLoop_with s _ _ _ _)

theorem leavesLoop_spawn (s : Scheduler σ) (ts : List (Target σ)) (d : Disk) :
    LeavesLoop may s (s.spawn ts) d :=
  (Routine.leads_any _ d).bind fun _ _ _ => leavesLoop_pure (sameLoop_with s _ _ _ _)

theorem leavesLoop_giveBack (s : Scheduler σ) (g : LockGuard) (d : Disk) :
    LeavesLoop may s (s.giveBack g) d :=
  (leads_keep s _ d).bind fun _ _ h => leavesLoop_pure h

theorem leavesLoop_finish (s : Scheduler σ) (id : Nat) (g : LockGuard) (o : RefreshOutcome)
    (d : Disk) : LeavesLoop may s (s.finish id g o) d := by
  refine (leavesLoop_giveBack _ g d).bind fun s' _ h => ?_
  exact leavesLoop_pure ((sameLoop_with s _ _ _ _).trans (h.trans (sameLoop_with s' _ _ _ _)))

theorem leavesLoop_breakOff (s : Scheduler σ) (id : Nat) (g : LockGuard) (x : JobEnd) (d : Disk) :
    LeavesLoop may s (s.breakOff id g x) d := by
  refine (leavesLoop_giveBack _ g d).bind fun s' _ h => ?_
  exact leavesLoop_pure ((sameLoop_with s _ _ _ _).trans (h.trans (sameLoop_with s' _ _ _ _)))

theorem leavesLoop_afterUpdate {g : LockGuard} {cache : String} {updated : Nat}
    {rest : List (Target σ)} {r : CourseStop σ (Except RefreshError Nat)}
    {next : Scheduler σ → Routine (Scheduler σ)} (hnext : LeavesLoop may s (next s) d) :
    LeavesLoop may s (s.afterUpdate id g cache updated rest r next) d := by
  unfold afterUpdate
  split
  · exact hnext
  · exact leavesLoop_finish s id g _ d
  · exact leavesLoop_finish s id g _ d
  · exact leavesLoop_breakOff s id g _ d
  · exact leavesLoop_pure (sameLoop_with s _ _ _ _)

theorem leavesLoop_updateAll (id : Nat) (g : LockGuard) (ts : List (Target σ)) (updated : Nat)
    (s : Scheduler σ) (d : Disk) : LeavesLoop may s (updateAll id g ts updated s) d := by
  induction ts generalizing updated s d with
  | nil => exact leavesLoop_finish s id g _ d
  | cons t rest ih =>
    unfold updateAll
    split
    · exact leavesLoop_finish s id g _ d
    · refine (leads_play s id _ d).bind fun x m h => ?_
      exact (leavesLoop_afterUpdate (ih _ x.2 m)).of_same h

theorem leavesLoop_begin (s : Scheduler σ) (id : Nat) (ts : List (Target σ)) (d : Disk) :
    LeavesLoop may s (s.begin id ts) d := by
  refine (leads_keep s _ d).bind fun x m h => ?_
  obtain ⟨r, s₁⟩ := x
  rcases r with err | _ | g
  · exact leavesLoop_pure (h.trans (sameLoop_with s₁ _ _ _ _))
  · exact leavesLoop_pure (h.trans (sameLoop_with s₁ _ _ _ _))
  · exact (leavesLoop_updateAll id g ts 0 _ m).of_same (h.trans (sameLoop_with s₁ _ _ _ _))

theorem leavesLoop_resume (s : Scheduler σ) (id : Nat) (b : BlockedUpdate σ) (w : Woken) (d : Disk) :
    LeavesLoop may s (s.resume id b w) d := by
  refine (leads_play s id _ d).bind fun x m h => ?_
  exact (leavesLoop_afterUpdate (leavesLoop_updateAll id b.guard b.rest _ x.2 m)).of_same h

theorem leavesLoop_jobTurn (s : Scheduler σ) (id : Nat) (d : Disk) :
    LeavesLoop may s (s.jobTurn id) d := by
  unfold jobTurn
  split
  · exact leavesLoop_begin s id _ d
  · split
    · exact leavesLoop_resume s id _ _ d
    · exact leavesLoop_pure (.refl s)
  · exact leavesLoop_pure (.refl s)

theorem leavesLoop_kill (s : Scheduler σ) (id : Nat) (d : Disk) :
    LeavesLoop may s (s.kill id) d := by
  unfold kill
  split
  · exact leavesLoop_pure (sameLoop_with s _ _ _ _)
  · exact leavesLoop_breakOff s id _ _ d
  · exact leavesLoop_pure (.refl s)

theorem leads_forceUpdate (s : Scheduler σ) (d : Disk) :
    s.forceUpdate.Leads may d fun x _ => SameLoop s x.2 := by
  refine (Routine.leads_any _ d).bind fun b m _ => ?_
  split
  · refine (leads_keep s _ m).bind fun x n h => ?_
    obtain ⟨gone, s₁⟩ := x
    cases gone
    · exact Routine.leads_pure h
    · exact (leavesLoop_spawn s₁ _ n).bind fun _ _ h' => Routine.leads_pure (h.trans h')
  · exact (leavesLoop_spawn s _ m).bind fun _ _ h => Routine.leads_pure h

/-- Nothing but a turn of the loop changes what it waits for. -/
theorem leads_move_sameLoop (s : Scheduler σ) {x : Move} (hx : x ≠ .event .loop) (d : Disk) :
    LeavesLoop may s (s.move x) d := by
  cases x with
  | checkAt now => exact (leads_keep s _ d).bind fun _ _ h => leavesLoop_pure h
  | event ev =>
    cases ev with
    | job id => exact leavesLoop_jobTurn s id d
    | loop => exact absurd rfl hx
    | check id =>
      exact (Routine.leads_any _ d).bind fun _ _ _ => leavesLoop_pure (sameLoop_with s _ _ _ _)
    | force => exact (leads_forceUpdate s d).bind fun _ _ h => leavesLoop_pure h
    | request => exact leavesLoop_pure (sameLoop_with s _ _ _ _)
    | run => exact leavesLoop_spawn s _ d
    | kill id => exact leavesLoop_kill s id d
    | stop => exact leavesLoop_pure (sameLoop_with s _ _ _ _)
    | releaseLeft => exact (leads_keep s _ d).bind fun _ _ h => leavesLoop_pure h
    | pass t => exact leavesLoop_pure (sameLoop_with s _ _ _ _)

/-! ## The loop itself -/

/-- The slot that the loop waits for. -/
def awaited? (s : Scheduler σ) : Option Moment :=
  match s.loop with
  | .listening next _ => some next
  | _ => none

/-- The slot that comes after a moment. -/
def slotAfter? (s : Scheduler σ) (m : Moment) : Option Moment :=
  nextFiring? s.zone m s.settings.updateTime s.jitter

theorem SameCalendar.slotAfter? (h : SameCalendar s s') : s'.slotAfter? = s.slotAfter? := by
  funext m
  unfold Scheduler.slotAfter?
  rw [h.zone, h.settings, h.jitter]

theorem leads_listen (s : Scheduler σ) (next : Moment) (d : Disk) :
    (s.listen next).Leads may d fun s' _ => SameCalendar s s' ∧ ∃ due, s'.loop = .listening next due :=
  (Routine.leads_any _ d).bind fun _ _ _ => Routine.leads_pure ⟨⟨rfl, rfl, rfl⟩, _, rfl⟩

/-- The loop goes on to wait for a slot, or is over if there is none. -/
def Waits (s : Scheduler σ) : Option Moment → Prop
  | some next => ∃ due, s.loop = .listening next due
  | none => s.loop = .stopped

theorem Waits.awaited? {n : Option Moment} (h : s.Waits n) : s.awaited? = n := by
  unfold Scheduler.awaited?
  cases n with
  | none =>
    have hloop : s.loop = .stopped := h
    rw [hloop]
  | some next =>
    obtain ⟨due, hloop⟩ := h
    rw [hloop]

theorem Waits.not_starting {next : Option Moment} (h : s.Waits next) : s.loop ≠ .starting := by
  intro hloop
  cases next with
  | none =>
    have hstopped : s.loop = .stopped := h
    rw [hloop] at hstopped
    cases hstopped
  | some next =>
    obtain ⟨due, hlistening⟩ := h
    rw [hloop] at hlistening
    cases hlistening

theorem leads_listenAfter (s : Scheduler σ) (start : Moment) (d : Disk) :
    (s.listenAfter start).Leads may d fun s' _ =>
      SameCalendar s s' ∧ s'.Waits (s.slotAfter? start) := by
  unfold listenAfter
  cases hnext : s.slotAfter? start with
  | some next =>
    rw [slotAfter?] at hnext
    rw [hnext]
    exact leads_listen s next d
  | none =>
    rw [slotAfter?] at hnext
    rw [hnext]
    exact Routine.leads_pure ⟨⟨rfl, rfl, rfl⟩, rfl⟩

/-- What a turn of the loop was for. -/
inductive LoopMark where
  /-- The loop began to listen when the clock showed this time. -/
  | began (reading : Instant)
  /-- It answered the requests. -/
  | answered
  /-- It started the job of a slot, and the clock showed this time. -/
  | fired (slot : Moment) (reading : Instant)
  /-- It ended, or had nothing to do. -/
  | rested

/-- A turn of the loop, and what it was for. -/
inductive LoopTurn (may : Conduct) :
    Scheduler σ → Disk → LoopMark → Scheduler σ → Disk → Prop where
  | begins {s s' : Scheduler σ} {d m e : Disk} {reading : Instant} :
    s.loop = .starting → Disk.now.Ends may d reading m →
      (s.listenAfter reading.toMoment).Ends may m s' e → LoopTurn may s d (.began reading) s' e
  | answers {s s₁ s' : Scheduler σ} {d m e : Disk} {next : Moment} {due : Span} {t : Trigger}
      {b : Bool} :
    s.loop = .listening next due → s.keeper.stopped = false → s.keeper.trigger.answer? = some t →
      (forceUpdate { s with keeper := { s.keeper with trigger := t } }).Ends may d (b, s₁) m →
      (s₁.listen next).Ends may m s' e → LoopTurn may s d .answered s' e
  | fires {s s₁ s' : Scheduler σ} {d m n e : Disk} {next : Moment} {due : Span} {reading : Instant} :
    s.loop = .listening next due → s.keeper.stopped = false → s.keeper.trigger.answer? = none →
      due ≤ s.keeper.elapsed → s.runNow.Ends may d s₁ m → Disk.now.Ends may m reading n →
      (s₁.listenAfter (later reading.toMoment next)).Ends may n s' e →
      LoopTurn may s d (.fired next reading) s' e
  | ends {s : Scheduler σ} {d : Disk} {next : Moment} {due : Span} :
    s.loop = .listening next due → s.keeper.stopped = true →
      LoopTurn may s d .rested { s with loop := .stopped } d
  | stays {s : Scheduler σ} {d : Disk} : s.loopReady = false → LoopTurn may s d .rested s d

/-- Whatever the loop does is a turn. -/
theorem exists_loopTurn (h : s.loopTurn.Ends may d s' e) : ∃ mark, LoopTurn may s d mark s' e := by
  unfold loopTurn at h
  split at h
  · next hloop =>
    obtain ⟨rfl, rfl⟩ := Routine.ends_pure.mp h
    exact ⟨_, .stays (by rw [loopReady, hloop])⟩
  · next hloop =>
    obtain ⟨reading, m, hnow, hlisten⟩ := Routine.ends_seq.mp h
    exact ⟨_, .begins hloop hnow hlisten⟩
  · next next due hloop =>
    split at h
    · next hstopped =>
      obtain ⟨rfl, rfl⟩ := Routine.ends_pure.mp h
      exact ⟨_, .ends hloop hstopped⟩
    · next hstopped =>
      have hgoes : s.keeper.stopped = false := by simpa using hstopped
      split at h
      · next t hanswer =>
        obtain ⟨⟨b, s₁⟩, m, hforce, hlisten⟩ := Routine.ends_seq.mp h
        exact ⟨_, .answers hloop hgoes hanswer hforce hlisten⟩
      · next hanswer =>
        split at h
        · next hdue =>
          obtain ⟨s₁, m, hrun, hrest⟩ := Routine.ends_seq.mp h
          obtain ⟨reading, n, hnow, hlisten⟩ := Routine.ends_seq.mp hrest
          exact ⟨_, .fires hloop hgoes hanswer hdue hrun hnow hlisten⟩
        · next hdue =>
          obtain ⟨rfl, rfl⟩ := Routine.ends_pure.mp h
          refine ⟨_, .stays ?_⟩
          rw [loopReady, hloop]
          simp [hgoes, Trigger.answer?_eq_none.mp hanswer, hdue]

/-- Every turn is something that the loop does. -/
theorem LoopTurn.ends_loopTurn {mark : LoopMark} (h : LoopTurn may s d mark s' e) :
    s.loopTurn.Ends may d s' e := by
  obtain ⟨k, x, own, settings, jitter, zone, targets, tasks, loop, slot⟩ := s
  unfold loopTurn
  cases h with
  | begins hloop hnow hlisten =>
    cases hloop
    exact Routine.ends_seq.mpr ⟨_, _, hnow, hlisten⟩
  | answers hloop hgoes hanswer hforce hlisten =>
    cases hloop
    dsimp only at hgoes hanswer ⊢
    rw [if_neg (by simp [hgoes]), hanswer]
    exact Routine.ends_seq.mpr ⟨_, _, hforce, hlisten⟩
  | fires hloop hgoes hanswer hdue hrun hnow hlisten =>
    cases hloop
    dsimp only at hgoes hanswer hdue ⊢
    rw [if_neg (by simp [hgoes]), hanswer]
    dsimp only
    rw [if_pos hdue]
    exact Routine.ends_seq.mpr ⟨_, _, hrun, Routine.ends_seq.mpr ⟨_, _, hnow, hlisten⟩⟩
  | ends hloop hstopped =>
    cases hloop
    dsimp only at hstopped ⊢
    rw [if_pos hstopped]
    exact Routine.ends_pure.mpr ⟨rfl, rfl⟩
  | stays hready =>
    cases loop with
    | starting => cases hready
    | stopped => exact Routine.ends_pure.mpr ⟨rfl, rfl⟩
    | listening next due =>
      simp only [loopReady, Bool.or_eq_false_iff, decide_eq_false_iff_not] at hready
      obtain ⟨⟨hgoes, hcalm⟩, hdue⟩ := hready
      dsimp only
      rw [if_neg (by simp [hgoes]), Trigger.answer?_eq_none.mpr hcalm]
      dsimp only
      rw [if_neg hdue]
      exact Routine.ends_pure.mpr ⟨rfl, rfl⟩

/-- The turns of the loop are what it does. -/
theorem ends_loopTurn_iff :
    s.loopTurn.Ends may d s' e ↔ ∃ mark, LoopTurn may s d mark s' e :=
  ⟨exists_loopTurn, fun ⟨_, h⟩ => h.ends_loopTurn⟩

/-- What a turn does to the wait: it begins it, leaves the slot as it is, goes on to the slot after
the one that fired and the time it was then, or ends it. -/
theorem LoopTurn.waits {mark : LoopMark} (h : LoopTurn may s d mark s' e) :
    SameCalendar s s' ∧
      match mark with
      | .began reading => s.loop = .starting ∧ s'.Waits (s.slotAfter? reading.toMoment)
      | .answered => ∃ next, s.awaited? = some next ∧ s'.Waits (some next)
      | .fired slot reading =>
        s.awaited? = some slot ∧ s'.Waits (s.slotAfter? (later reading.toMoment slot))
      | .rested => s'.loop = .stopped ∨ s' = s := by
  have hawaited {next : Moment} {due : Span} (hloop : s.loop = .listening next due) :
      s.awaited? = some next := Waits.awaited? (n := some next) ⟨due, hloop⟩
  cases h with
  | begins hloop _ hlisten =>
    obtain ⟨hsame, hwaits⟩ := leads_listenAfter _ _ _ _ _ hlisten
    exact ⟨hsame, hloop, hwaits⟩
  | answers hloop _ _ hforce hlisten =>
    have hforced := leads_forceUpdate _ _ _ _ hforce
    obtain ⟨hsame, hwaits⟩ := leads_listen _ _ _ _ _ hlisten
    exact ⟨((sameLoop_with s _ _ _ _).trans hforced).toSameCalendar.trans hsame, _, hawaited hloop,
      hwaits⟩
  | fires hloop _ _ _ hrun _ hlisten =>
    have hran := (leavesLoop_spawn s _ _ _ _ hrun).toSameCalendar
    obtain ⟨hsame, hwaits⟩ := leads_listenAfter _ _ _ _ _ hlisten
    exact ⟨hran.trans hsame, hawaited hloop, hran.slotAfter? ▸ hwaits⟩
  | ends _ _ => exact ⟨⟨rfl, rfl, rfl⟩, .inl rfl⟩
  | stays _ => exact ⟨.refl s, .inr rfl⟩

end Scheduler

end SensorCache
