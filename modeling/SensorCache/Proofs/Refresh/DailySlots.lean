import SensorCache.Proofs.Refresh.LoopTurns
import SensorCache.Proofs.Refresh.Watchdog
import SensorCache.Proofs.Time.DayAfterDay

/-!
# Daily slots fire once

The loop of a scheduler takes turns while requests come and jobs and checks go on, for as long as one
likes, and the clock may show any time at each of them (`Days`). The slots whose jobs it starts come
one later than the other, and later than the clock was at the firing before, so none fires twice
(`slots_fire_once`). Where clocks are never set they are a day apart.
-/

namespace SensorCache

open Disk Time

namespace Time

/-! ## Moments in order -/

namespace Moment

variable {a b c : Moment}

theorem lt_trans (h : a.lt b = true) (h' : b.lt c = true) : a.lt c = true := by
  simp only [lt, Bool.or_eq_true, Bool.and_eq_true, decide_eq_true_eq, beq_iff_eq] at *
  omega

theorem not_lt_self (a : Moment) : ¬a.lt a = true := fun h => lt_asymm h h

end Moment

end Time

variable {σ : Type} {may : Conduct} {d e d₀ : Disk}

namespace Scheduler

variable {s s' s₀ : Scheduler σ} {marks : List LoopMark}

/-- The later of two moments is neither of them but the other one is before it. -/
theorem lt_of_later_lt {a b m : Moment} (h : (later a b).lt m = true) :
    a.lt m = true ∧ b.lt m = true := by
  unfold later at h
  split at h
  · next hlt => exact ⟨Moment.lt_trans hlt h, h⟩
  · next hle =>
    refine ⟨h, ?_⟩
    simp only [Moment.lt, Bool.or_eq_true, Bool.and_eq_true, decide_eq_true_eq, beq_iff_eq] at *
    omega

/-- The slot after a firing is later than the slot that fired and than the clock was then. -/
theorem lt_of_slotAfter? {a b m : Moment} (h : s.slotAfter? (later a b) = some m) :
    a.lt m = true ∧ b.lt m = true := lt_of_later_lt (lt_of_nextFiring? h)

/-! ## Runs -/

/-- The start of the job of a slot, and what the clock showed then. -/
structure Firing where
  slot : Moment
  reading : Instant

def LoopMark.firing? : LoopMark → Option Firing
  | .fired slot reading => some ⟨slot, reading⟩
  | _ => none

/-- The firings among some turns. -/
def firings (marks : List LoopMark) : List Firing := marks.filterMap LoopMark.firing?

/-- What a scheduler comes to from `s₀`, with the turns that its loop has taken: between them all
else may happen, and others do what they like to the disk and its clock. -/
inductive Days (may : Conduct) (s₀ : Scheduler σ) (d₀ : Disk) :
    List LoopMark → Scheduler σ → Disk → Prop where
  | begins : Days may s₀ d₀ [] s₀ d₀
  | others {marks : List LoopMark} {s : Scheduler σ} {d : Disk} (e : Disk) :
    Days may s₀ d₀ marks s d → Days may s₀ d₀ marks s e
  | moves {marks : List LoopMark} {s s' : Scheduler σ} {d e : Disk} {x : Move} :
    Days may s₀ d₀ marks s d → x ≠ .event .loop → (s.move x).Ends may d s' e →
      Days may s₀ d₀ marks s' e
  | turns {marks : List LoopMark} {mark : LoopMark} {s s' : Scheduler σ} {d e : Disk} :
    Days may s₀ d₀ marks s d → LoopTurn may s d mark s' e → Days may s₀ d₀ (marks ++ [mark]) s' e

theorem firings_snoc (marks : List LoopMark) (mark : LoopMark) :
    firings (marks ++ [mark]) = firings marks ++ mark.firing?.toList := by
  unfold firings
  rw [List.filterMap_append, List.filterMap_cons, List.filterMap_nil]
  cases mark.firing? <;> rfl

theorem firings_of_none {mark : LoopMark} (h : mark.firing? = none) :
    firings (marks ++ [mark]) = firings marks := by
  rw [firings_snoc, h]
  exact List.append_nil _

/-- A slot that fired, and what the clock showed then, are before a moment. -/
def Firing.Before (a : Firing) (m : Moment) : Prop :=
  a.slot.lt m = true ∧ a.reading.toMoment.lt m = true

theorem Firing.Before.trans {a : Firing} {m n : Moment} (h : a.Before m) (h' : m.lt n = true) :
    a.Before n := ⟨Moment.lt_trans h.1 h', Moment.lt_trans h.2 h'⟩

/-- What holds throughout a run: the slots fired one after the other, and the one that is waited for
is later than all of them. -/
structure Orderly (s₀ : Scheduler σ) (marks : List LoopMark) (s : Scheduler σ) : Prop where
  calendar : SameCalendar s₀ s
  fresh : s.loop = .starting → firings marks = []
  sorted : (firings marks).Pairwise fun a b => a.Before b.slot
  ahead : ∀ next, s.awaited? = some next → ∀ f ∈ firings marks, f.Before next

theorem SameLoop.awaited? (h : SameLoop s s') : s'.awaited? = s.awaited? := by
  unfold Scheduler.awaited?
  rw [h.loop]

theorem Orderly.sameLoop (h : Orderly s₀ marks s) (hsame : SameLoop s s') :
    Orderly s₀ marks s' where
  calendar := h.calendar.trans hsame.toSameCalendar
  fresh := fun hloop => h.fresh (hsame.loop ▸ hloop)
  sorted := h.sorted
  ahead := fun next hnext => h.ahead next (hsame.awaited? ▸ hnext)

theorem Orderly.turn {mark : LoopMark} (h : Orderly s₀ marks s) (hturn : LoopTurn may s d mark s' e) :
    Orderly s₀ (marks ++ [mark]) s' := by
  obtain ⟨hsame, hwaits⟩ := hturn.waits
  have hcalendar := h.calendar.trans hsame
  cases mark with
  | began reading =>
    obtain ⟨hloop, hwaits⟩ := hwaits
    have hnone : firings (marks ++ [.began reading]) = [] :=
      (firings_of_none rfl).trans (h.fresh hloop)
    exact ⟨hcalendar, fun _ => hnone, hnone ▸ .nil, fun _ _ f hf => nomatch hnone ▸ hf⟩
  | answered =>
    obtain ⟨next, hnext, hwaits⟩ := hwaits
    have hnone : firings (marks ++ [.answered]) = firings marks := firings_of_none rfl
    refine ⟨hcalendar, fun hloop => absurd hloop hwaits.not_starting, hnone ▸ h.sorted, ?_⟩
    rw [hnone, hwaits.awaited?, ← hnext]
    exact h.ahead
  | fired slot reading =>
    obtain ⟨hslot, hwaits⟩ := hwaits
    have hmore : firings (marks ++ [.fired slot reading]) = firings marks ++ [⟨slot, reading⟩] :=
      firings_snoc _ _
    have hbefore := h.ahead slot hslot
    refine ⟨hcalendar, fun hloop => absurd hloop hwaits.not_starting, ?_, ?_⟩
    · rw [hmore, List.pairwise_append]
      refine ⟨h.sorted, List.pairwise_singleton _ _, fun f hf g hg => ?_⟩
      rw [List.mem_singleton.mp hg]
      exact hbefore f hf
    · intro next hnext f hf
      obtain ⟨hreading, hlater⟩ := lt_of_slotAfter? (hwaits.awaited? ▸ hnext)
      rw [hmore, List.mem_append, List.mem_singleton] at hf
      rcases hf with hf | rfl
      · exact (hbefore f hf).trans hlater
      · exact ⟨hlater, hreading⟩
  | rested =>
    have hnone : firings (marks ++ [.rested]) = firings marks := firings_of_none rfl
    rcases hwaits with hstopped | rfl
    · refine ⟨hcalendar, fun hloop => ?_, hnone ▸ h.sorted, fun next hnext => ?_⟩
      · rw [hstopped] at hloop
        cases hloop
      · rw [Waits.awaited? (n := none) hstopped] at hnext
        cases hnext
    · exact ⟨hcalendar, hnone ▸ h.fresh, hnone ▸ h.sorted, hnone ▸ h.ahead⟩

theorem Days.orderly (hs : s₀.loop = .starting) (h : Days may s₀ d₀ marks s d) :
    Orderly s₀ marks s := by
  induction h with
  | begins =>
    refine ⟨.refl s₀, fun _ => rfl, .nil, fun next hnext => ?_⟩
    rw [Scheduler.awaited?, hs] at hnext
    cases hnext
  | others e _ ih => exact ih
  | moves _ hx hmove ih => exact ih.sameLoop (leads_move_sameLoop _ hx _ _ _ hmove)
  | turns _ hturn ih => exact ih.turn hturn

/-! ## Where clocks are never set -/

/-- The slots that fired, and the one that is waited for. -/
def slots (marks : List LoopMark) (s : Scheduler σ) : List Moment :=
  (firings marks).map Firing.slot ++ s.awaited?.toList

/-- In the run so far every slot fired when the clock showed it, and the start of the run was at a
time from which the slots can be named. -/
structure Punctual (s₀ : Scheduler σ) (marks : List LoopMark) : Prop where
  named : ∀ start, .began start ∈ marks →
    Daily.Named s₀.zone start.toMoment s₀.settings.updateTime s₀.jitter
  onTime : ∀ f ∈ firings marks, f.reading.toMoment = f.slot

theorem Punctual.init {mark : LoopMark} (h : Punctual s₀ (marks ++ [mark])) : Punctual s₀ marks := by
  refine ⟨fun start hstart => h.named start (List.mem_append_left _ hstart), fun f hf => ?_⟩
  refine h.onTime f ?_
  rw [firings_snoc]
  exact List.mem_append_left _ hf

/-- A day later. -/
def DayLater (a b : Moment) : Prop := b = a.add (Span.ofSeconds secondsPerDay)

/-- What holds throughout a punctual run: the slots are a day apart, and the one that is waited for
is the firing of a date. -/
structure Regular (s₀ : Scheduler σ) (marks : List LoopMark) (s : Scheduler σ) : Prop where
  chain : (slots marks s).IsChain DayLater
  dated : ∀ next, s.awaited? = some next → next.inRange = true ∧
    ∃ day, Daily.Fires s₀.zone s₀.settings.updateTime s₀.jitter day next

theorem Regular.sameLoop (h : Regular s₀ marks s) (hsame : SameLoop s s') : Regular s₀ marks s' := by
  obtain ⟨hchain, hdated⟩ := h
  rw [slots, ← hsame.awaited?] at hchain
  rw [← hsame.awaited?] at hdated
  exact ⟨hchain, hdated⟩

theorem isChain_toList (m : Option Moment) : m.toList.IsChain DayLater := by
  cases m with
  | none => exact .nil
  | some next => exact .singleton next

/-- A turn that fires nothing and leaves the slot as it is. -/
theorem Regular.passes {mark : LoopMark} (h : Regular s₀ marks s) (hnone : mark.firing? = none)
    (hsame : s'.awaited? = s.awaited?) : Regular s₀ (marks ++ [mark]) s' := by
  obtain ⟨hchain, hdated⟩ := h
  rw [slots, ← firings_of_none hnone, ← hsame] at hchain
  rw [← hsame] at hdated
  exact ⟨hchain, hdated⟩

/-- The slot that fires when the clock shows it is the firing of a date, and the next one is that of
the date after. -/
theorem Regular.fires {c : Int} {slot : Moment} {reading : Instant} (hz : s₀.zone.Fixed c)
    (ht : s₀.settings.updateTime.Usual) (hjitter : s₀.jitter < Span.ofSeconds secondsPerDay)
    (h : Regular s₀ marks s) (hreading : reading.toMoment = slot) (hslot : s.awaited? = some slot)
    (hwaits : s'.Waits (s₀.slotAfter? (later reading.toMoment slot))) :
    Regular s₀ (marks ++ [.fired slot reading]) s' := by
  obtain ⟨hrange, day, hfires⟩ := h.dated slot hslot
  have hlater : later reading.toMoment slot = slot := by
    rw [hreading, later, if_neg (Moment.not_lt_self slot)]
  rw [hlater] at hwaits
  have hnext {next : Moment} (h : s'.awaited? = some next) :
      next.inRange = true ∧ DayLater slot next := by
    rw [hwaits.awaited?] at h
    exact ⟨inRange_of_nextFiring? h, nextFiring?_eq_add_of_fires hz ht hjitter hfires hrange h⟩
  have hmore : firings (marks ++ [.fired slot reading]) = firings marks ++ [⟨slot, reading⟩] :=
    firings_snoc _ _
  have hchain := h.chain
  rw [slots, hslot] at hchain
  constructor
  · rw [slots, hmore, List.map_append]
    refine List.isChain_append.mpr ⟨hchain, isChain_toList _, fun a ha b hb => ?_⟩
    rw [List.map_singleton, List.getLast?_concat, Option.mem_def, Option.some.injEq] at ha
    rw [← ha]
    exact (hnext (Option.mem_toList.mp (List.mem_of_mem_head? hb))).2
  · intro next hn
    obtain ⟨hin, rfl⟩ := hnext hn
    exact ⟨hin, day + 1, hfires.succ hz ht.nano⟩

/-- In a zone whose clocks are never set, the slots of a punctual run stay a day apart. -/
theorem Regular.turn {c : Int} {mark : LoopMark} (hz : s₀.zone.Fixed c)
    (ht : s₀.settings.updateTime.Usual) (hjitter : s₀.jitter < Span.ofSeconds secondsPerDay)
    (h : Regular s₀ marks s) (hs : Orderly s₀ marks s) (hpunctual : Punctual s₀ (marks ++ [mark]))
    (hturn : LoopTurn may s d mark s' e) : Regular s₀ (marks ++ [mark]) s' := by
  obtain ⟨-, hwaits⟩ := hturn.waits
  rw [hs.calendar.slotAfter?] at hwaits
  cases mark with
  | began reading =>
    obtain ⟨hloop, hwaits⟩ := hwaits
    have hnone : firings (marks ++ [.began reading]) = [] :=
      (firings_of_none rfl).trans (hs.fresh hloop)
    constructor
    · rw [slots, hnone]
      exact isChain_toList _
    · intro next hnext
      have hfirst := hwaits.awaited? ▸ hnext
      refine ⟨inRange_of_nextFiring? hfirst, ?_⟩
      exact exists_fires_of_nextFiring? hz (Moment.second_ofUnix _ _) ht.nano hjitter
        (hpunctual.named reading (List.mem_append_right _ (.head _))) hfirst
  | answered =>
    obtain ⟨next, hnext, hwaits⟩ := hwaits
    exact h.passes rfl (hwaits.awaited?.trans hnext.symm)
  | fired slot reading =>
    obtain ⟨hslot, hwaits⟩ := hwaits
    have hmore : firings (marks ++ [.fired slot reading]) = firings marks ++ [⟨slot, reading⟩] :=
      firings_snoc _ _
    refine h.fires hz ht hjitter (hpunctual.onTime ⟨slot, reading⟩ ?_) hslot hwaits
    exact hmore ▸ List.mem_append_right _ (.head _)
  | rested =>
    rcases hwaits with hstopped | rfl
    · have hover : s'.awaited? = none := Waits.awaited? (n := none) hstopped
      constructor
      · rw [slots, firings_of_none rfl, hover]
        exact List.append_nil _ ▸ h.chain.left_of_append
      · rw [hover]
        exact nofun
    · exact h.passes rfl rfl

theorem Days.regular {c : Int} (hz : s₀.zone.Fixed c) (ht : s₀.settings.updateTime.Usual)
    (hjitter : s₀.jitter < Span.ofSeconds secondsPerDay) (hs : s₀.loop = .starting)
    (h : Days may s₀ d₀ marks s d) (hpunctual : Punctual s₀ marks) : Regular s₀ marks s := by
  induction h with
  | begins =>
    have hnone : s₀.awaited? = none := by rw [Scheduler.awaited?, hs]
    constructor
    · rw [slots, hnone]
      exact .nil
    · rw [hnone]
      exact nofun
  | others e _ ih => exact ih hpunctual
  | moves _ hx hmove ih => exact (ih hpunctual).sameLoop (leads_move_sameLoop _ hx _ _ _ hmove)
  | turns hdays hturn ih =>
    exact (ih hpunctual.init).turn hz ht hjitter (hdays.orderly hs) hpunctual hturn

/-! ## All runs -/

/-- **Daily slots fire once.** In every run, the slots whose jobs the loop starts come one later than
the other, also than the clock was at the firing before, and so does the one that it waits for; so
none fires twice. A request leaves the slot as it is. The slot that fires is the one that was waited
for, and what the loop goes on to wait for is the slot after it and after what the clock showed, if
there is one. Where clocks are never set, and the time of day is no leap second, slots that fire when
the clock shows them are a day apart, wherever in the day a jitter carries them. -/
theorem slots_fire_once (hs : s₀.loop = .starting) (h : Days may s₀ d₀ marks s d) :
    (firings marks).Pairwise (fun a b => a.Before b.slot) ∧
    ((firings marks).map Firing.slot).Nodup ∧
    (∀ next, s.awaited? = some next → ∀ f ∈ firings marks, f.Before next) ∧
    (∀ s' e, s.loopTurn.Ends may d s' e → ∃ mark, LoopTurn may s d mark s' e) ∧
    (∀ mark s' e, LoopTurn may s d mark s' e →
      (mark = .answered → s'.awaited? = s.awaited? ∧ s.awaited?.isSome = true) ∧
      (∀ slot reading, mark = .fired slot reading → s.awaited? = some slot ∧
        s'.Waits (s₀.slotAfter? (later reading.toMoment slot)) ∧
        ∀ next, s'.awaited? = some next → (Firing.mk slot reading).Before next)) ∧
    (∀ c, s₀.zone.Fixed c → s₀.settings.updateTime.Usual →
      s₀.jitter < Span.ofSeconds secondsPerDay → Punctual s₀ marks →
      (slots marks s).IsChain DayLater) := by
  obtain ⟨hcalendar, -, hsorted, hahead⟩ := h.orderly hs
  refine ⟨hsorted, ?_, hahead, fun s' e => ends_loopTurn_iff.mp, ?_, ?_⟩
  · rw [List.nodup_iff_pairwise_ne, List.pairwise_map]
    refine hsorted.imp fun {a b} hbefore heq => ?_
    exact Moment.not_lt_self b.slot (heq ▸ hbefore.1)
  · intro mark s' e hturn
    obtain ⟨-, hwaits⟩ := hturn.waits
    rw [hcalendar.slotAfter?] at hwaits
    constructor
    · rintro rfl
      obtain ⟨next, hnext, hwaits⟩ := hwaits
      exact ⟨hwaits.awaited?.trans hnext.symm, hnext ▸ rfl⟩
    · rintro slot reading rfl
      obtain ⟨hslot, hwaits⟩ := hwaits
      refine ⟨hslot, hwaits, fun next hnext => ?_⟩
      exact (lt_of_slotAfter? (hwaits.awaited? ▸ hnext)).symm
  · intro c hz ht hjitter hpunctual
    exact (h.regular hz ht hjitter hs hpunctual).chain

/-- Every evening ten seconds before midnight, and twenty seconds on top. -/
def evenings : Scheduler Rehearsal :=
  { idle Rehearsal.lockKeeper .empty with
    settings := { updateTime := Daily.lateEvening }
    jitter := .ofSeconds 20
    loop := .starting }

/-- What the clock shows so many seconds into a day. -/
def dayAt (day seconds : Int) : Instant := .ofSeconds (86400 * day + seconds)

/-- On the first day the loop begins, and is asked for a refresh. -/
def firstDay : Scheduler Rehearsal × Disk :=
  let (s, d) := evenings.loopTurn.run (.empty (dayAt 19844 5))
  (s.request, d)

/-- It has answered, and the first slot has come. -/
def firstNight : Scheduler Rehearsal × Disk :=
  let (s, d) := firstDay.1.loopTurn.run firstDay.2
  (s.passTo (.ofSeconds 86405), { d with clock := dayAt 19845 10 })

/-- That has fired, and the next one has come. -/
def secondNight : Scheduler Rehearsal × Disk :=
  let (s, d) := firstNight.1.loopTurn.run firstNight.2
  (s.passTo (.ofSeconds 172805), { d with clock := dayAt 19846 10 })

/-- The slots fire past midnight, a day apart. -/
theorem slots_fire_once_evenings :
    ∃ marks s d, Days (.among Eq) evenings (.empty (dayAt 19844 5)) marks s d ∧
      firings marks = [⟨⟨19845, 10, 0⟩, dayAt 19845 10⟩, ⟨⟨19846, 10, 0⟩, dayAt 19846 10⟩] ∧
      slots marks s = [⟨19845, 10, 0⟩, ⟨19846, 10, 0⟩, ⟨19847, 10, 0⟩] ∧
      (slots marks s).IsChain DayLater := by
  have hbegins : LoopTurn (.among Eq) evenings (.empty (dayAt 19844 5)) (.began (dayAt 19844 5))
      (evenings.loopTurn.run (.empty (dayAt 19844 5))).1 firstDay.2 :=
    .begins rfl (Routine.ends_alone.mpr rfl) (Routine.ends_alone.mpr rfl)
  have hanswers : LoopTurn (.among Eq) firstDay.1 firstDay.2 .answered
      (firstDay.1.loopTurn.run firstDay.2).1 (firstDay.1.loopTurn.run firstDay.2).2 :=
    .answers rfl rfl rfl (Routine.ends_alone.mpr rfl) (Routine.ends_alone.mpr rfl)
  have hfires : LoopTurn (.among Eq) firstNight.1 firstNight.2
      (.fired ⟨19845, 10, 0⟩ (dayAt 19845 10)) (firstNight.1.loopTurn.run firstNight.2).1
      (firstNight.1.loopTurn.run firstNight.2).2 :=
    .fires rfl rfl rfl (by decide) (Routine.ends_alone.mpr rfl) (Routine.ends_alone.mpr rfl)
      (Routine.ends_alone.mpr rfl)
  have hagain : LoopTurn (.among Eq) secondNight.1 secondNight.2
      (.fired ⟨19846, 10, 0⟩ (dayAt 19846 10)) (secondNight.1.loopTurn.run secondNight.2).1
      (secondNight.1.loopTurn.run secondNight.2).2 :=
    .fires rfl rfl rfl (by decide) (Routine.ends_alone.mpr rfl) (Routine.ends_alone.mpr rfl)
      (Routine.ends_alone.mpr rfl)
  -- Between its turns the loop is asked, the time passes, and the clock is set.
  have hasked := (Days.begins.turns hbegins).moves (x := .event .request) nofun
    (Routine.ends_pure.mpr ⟨rfl, rfl⟩)
  have hnight := ((hasked.turns hanswers).moves (x := .event (.pass (.ofSeconds 86405))) nofun
    (Routine.ends_pure.mpr ⟨rfl, rfl⟩)).others firstNight.2
  have hsecond := ((hnight.turns hfires).moves (x := .event (.pass (.ofSeconds 86400))) nofun
    (Routine.ends_pure.mpr ⟨rfl, rfl⟩)).others secondNight.2
  have hdays := hsecond.turns hagain
  obtain ⟨-, -, -, -, -, hapart⟩ := slots_fire_once rfl hdays
  refine ⟨_, _, _, hdays, rfl, by decide +kernel, ?_⟩
  refine hapart 0 Zone.fixed_utc ⟨by decide, by decide⟩ (by decide) ⟨fun start hstart => ?_, by decide⟩
  have hfirst : start = dayAt 19844 5 := by simpa using hstart
  rw [hfirst]
  exact Daily.named_earlyMorning

end Scheduler

end SensorCache
