import SensorCache.Refresh.Executor
import Mathlib.Data.List.Nodup

/-!
# Calls do not get in each other's way

What callers of one executor are told, and what its workers are handed, over every course of events
(`Reaches`): `Justified` says what must have happened before each of these. The slot's worker is
busy with the operation of the active caller at most, and whoever gives up a call takes the worker
out of the slot with it (`Accounts`). So an operation that nobody waits for any more keeps its own
worker busy and no other call.
-/

namespace SensorCache

open Time

/-- What happened to an executor with its callers, and when, from the last to the first. -/
abbrev CallLog (α : Type) := List (Span × CallNote α)

variable {α : Type} {q : CallQueue α} {log : CallLog α}

namespace CallLog

/-- Something is in the log. -/
def Told (log : CallLog α) (n : CallNote α) : Prop := ∃ t, (t, n) ∈ log

/-- The operation of a caller has ended. -/
def HasEnded (log : CallLog α) (caller : Nat) : Prop := ∃ w e, log.Told (.ended caller w e)

/-- A caller has its reply. -/
def HasReply (log : CallLog α) (caller : Nat) : Prop := ∃ r, log.Told (.replied caller r)

/-- The operation of a caller who still waits goes on. -/
def Awaited (log : CallLog α) (caller : Nat) : Prop :=
  (∃ w, log.Told (.handed caller w)) ∧ ¬log.HasEnded caller ∧ ¬log.HasReply caller

/-- What had to happen before `n` could at time `t`. An operation is handed to a worker that is done
with all it was handed before; a caller gets what its own operation ended with, or is told that its
time is up when it is and its operation has not ended. -/
def Justified (earlier : CallLog α) (t : Span) : CallNote α → Prop
  | .entered .. => True
  | .handed _ w => ∀ c, earlier.Told (.handed c w) → earlier.HasEnded c
  | .ended c w _ => earlier.Told (.handed c w) ∧ ¬earlier.HasEnded c
  | .replied c (.value v) => ∃ w, earlier.Told (.ended c w (.returns v))
  | .replied c (.failed .workerPanicked) => ∃ w, earlier.Told (.ended c w .panics)
  | .replied c (.failed (.timedOut limit)) =>
    earlier.Told (.entered c limit) ∧ ¬earlier.HasEnded c ∧
      ∃ started w, (started, .handed c w) ∈ earlier ∧ started + limit ≤ t
  | .replied _ .dropped => True

@[simp] theorem told_cons {t : Span} {m n : CallNote α} :
    Told ((t, m) :: log) n ↔ n = m ∨ log.Told n := by
  constructor
  · rintro ⟨u, hu⟩
    rcases List.mem_cons.mp hu with heq | hmem
    · cases heq
      exact .inl rfl
    · exact .inr ⟨u, hmem⟩
  · rintro (rfl | ⟨u, hu⟩)
    · exact ⟨t, .head _⟩
    · exact ⟨u, .tail _ hu⟩

@[simp] theorem hasEnded_cons {t : Span} {m : CallNote α} {c : Nat} :
    HasEnded ((t, m) :: log) c ↔ (∃ w e, m = .ended c w e) ∨ log.HasEnded c := by
  simp only [HasEnded, told_cons]
  constructor
  · rintro ⟨w, e, h | h⟩
    · exact .inl ⟨w, e, h.symm⟩
    · exact .inr ⟨w, e, h⟩
  · rintro (⟨w, e, h⟩ | ⟨w, e, h⟩)
    · exact ⟨w, e, .inl h.symm⟩
    · exact ⟨w, e, .inr h⟩

@[simp] theorem hasReply_cons {t : Span} {m : CallNote α} {c : Nat} :
    HasReply ((t, m) :: log) c ↔ (∃ r, m = .replied c r) ∨ log.HasReply c := by
  simp only [HasReply, told_cons]
  constructor
  · rintro ⟨r, h | h⟩
    · exact .inl ⟨r, h.symm⟩
    · exact .inr ⟨r, h⟩
  · rintro (⟨r, h⟩ | ⟨r, h⟩)
    · exact ⟨r, .inl h.symm⟩
    · exact ⟨r, .inr h⟩

end CallLog

namespace CallQueue

open CallLog

/-! ## Courses of events -/

/-- The log after an event of which `note` can be told. -/
def logged (q : CallQueue α) (log : CallLog α) (note : Option (CallNote α)) : CallLog α :=
  note.elim log fun n => (q.now, n) :: log

/-- Who asks for a turn has not done so before. -/
def Newcomer (log : CallLog α) : CallEvent α → Prop
  | .enters c _ => ∀ limit, ¬log.Told (.entered c limit)
  | _ => True

/-- What an executor and its callers may come to, with any events in any order. -/
inductive Reaches : CallQueue α → CallLog α → Prop where
  | new : Reaches .new []
  | step {q : CallQueue α} {log : CallLog α} (v : CallEvent α) : Reaches q log → Newcomer log v →
      Reaches (q.step v).1 (q.logged log (q.step v).2)

/-- The slot, the counts and the running operations agree with what has happened. -/
structure Accounts (q : CallQueue α) (log : CallLog α) : Prop where
  counts : q.executor.spawned = q.executor.abandoned + if q.executor.worker.isSome then 1 else 0
  worker_le : ∀ w, q.executor.worker = some w → w ≤ q.executor.spawned
  handed_le : ∀ c w, log.Told (.handed c w) → w ≤ q.executor.spawned
  gone_le : ∀ w ∈ q.gone, w ≤ q.executor.spawned
  worker_stays : ∀ w, q.executor.worker = some w → w ∉ q.gone
  queued : ∀ e ∈ q.queue, log.Told (.entered e.1 e.2) ∧ (∀ w, ¬log.Told (.handed e.1 w)) ∧
    ¬log.HasReply e.1
  queue_nodup : (q.queue.map Prod.fst).Nodup
  handed_entered : ∀ c w, log.Told (.handed c w) → ∃ limit, log.Told (.entered c limit)
  replied_entered : ∀ c, log.HasReply c → ∃ limit, log.Told (.entered c limit)
  ended_handed : ∀ c, log.HasEnded c → ∃ w, log.Told (.handed c w)
  running_iff : ∀ w c, (w, c) ∈ q.running ↔ log.Told (.handed c w) ∧ ¬log.HasEnded c
  running_nodup : (q.running.map Prod.snd).Nodup
  /-- Who was handed over and has no reply is active. -/
  waiting : ∀ c w, log.Told (.handed c w) → ¬log.HasReply c → ∃ a, q.active = some a ∧ a.caller = c
  /-- The worker in the slot does nothing but the operation of the active caller. -/
  slot : ∀ w c, q.executor.worker = some w → (w, c) ∈ q.running →
    ∃ a, q.active = some a ∧ a.caller = c
  active : ∀ a, q.active = some a → q.executor.worker = some a.worker ∧
    log.Told (.entered a.caller a.limit) ∧ (a.started, .handed a.caller a.worker) ∈ log ∧
      ¬log.HasReply a.caller
  outcome : ∀ a, q.active = some a → match a.outcome with
    | none => ¬log.HasEnded a.caller
    | some e => ∃ w, log.Told (.ended a.caller w e)

namespace Accounts

theorem new : Accounts (.new : CallQueue α) [] where
  counts := rfl
  worker_le _ h := nomatch h
  handed_le _ _ h := by obtain ⟨_, h⟩ := h; cases h
  gone_le _ h := nomatch h
  worker_stays _ h := nomatch h
  queued _ h := nomatch h
  queue_nodup := .nil
  handed_entered _ _ h := by obtain ⟨_, h⟩ := h; cases h
  replied_entered _ h := by obtain ⟨_, _, h⟩ := h; cases h
  ended_handed _ h := by obtain ⟨_, _, _, h⟩ := h; cases h
  running_iff w c := by
    constructor
    · intro h
      cases h
    · rintro ⟨⟨_, h⟩, -⟩
      cases h
  running_nodup := .nil
  waiting _ _ h := by obtain ⟨_, h⟩ := h; cases h
  slot _ _ h := nomatch h
  active _ h := nomatch h
  outcome _ h := nomatch h

variable (h : Accounts q log)
include h

/-! ### One event -/

theorem entered {c : Nat} (hnew : ∀ limit, ¬log.Told (.entered c limit)) (limit t : Span) :
    Accounts { q with queue := q.queue ++ [(c, limit)] } ((t, .entered c limit) :: log) where
  counts := h.counts
  worker_le := h.worker_le
  handed_le := by simpa using h.handed_le
  gone_le := h.gone_le
  worker_stays := h.worker_stays
  queued e he := by
    rcases List.mem_append.mp he with hold | hlast
    · obtain ⟨hentered, hrest⟩ := h.queued e hold
      exact ⟨told_cons.mpr (.inr hentered), by simpa using hrest⟩
    · obtain rfl := List.mem_singleton.mp hlast
      refine ⟨told_cons.mpr (.inl rfl), fun w hw => ?_, fun hr => ?_⟩
      · obtain ⟨l, hl⟩ := h.handed_entered c w (by simpa using hw)
        exact hnew l hl
      · obtain ⟨l, hl⟩ := h.replied_entered c (by simpa using hr)
        exact hnew l hl
  queue_nodup := by
    rw [List.map_append, List.nodup_append]
    refine ⟨h.queue_nodup, List.nodup_singleton _, ?_⟩
    rintro _ ha _ hb rfl
    obtain ⟨e, he, rfl⟩ := List.mem_map.mp ha
    obtain rfl : e.1 = c := by simpa using hb
    exact hnew e.2 (h.queued e he).1
  handed_entered c' w hc :=
    have ⟨l, hl⟩ := h.handed_entered c' w (by simpa using hc)
    ⟨l, told_cons.mpr (.inr hl)⟩
  replied_entered c' hc :=
    have ⟨l, hl⟩ := h.replied_entered c' (by simpa using hc)
    ⟨l, told_cons.mpr (.inr hl)⟩
  ended_handed := by simpa using h.ended_handed
  running_iff := by simpa using h.running_iff
  running_nodup := h.running_nodup
  waiting := by simpa using h.waiting
  slot := h.slot
  active a ha := by
    obtain ⟨hw, hentered, hhanded, hreply⟩ := h.active a ha
    exact ⟨hw, told_cons.mpr (.inr hentered), .tail _ hhanded, by simpa using hreply⟩
  outcome a ha := by simpa using h.outcome a ha

/-- The first caller's operation is handed to a worker that has nothing else to do. -/
theorem handed {c w : Nat} {limit : Span} {rest : List (Nat × Span)} {x : Executor}
    (hqueue : q.queue = (c, limit) :: rest) (hidle : q.active = none)
    (hcounts : x.spawned = x.abandoned + 1) (hx : x.worker = some w)
    (hle : q.executor.spawned ≤ x.spawned) (hw : w ≤ x.spawned) (hgone : w ∉ q.gone)
    (hfree : ∀ c, (w, c) ∉ q.running) :
    Accounts
      { q with
        executor := x
        queue := rest
        active := some ⟨c, w, limit, q.now, none⟩
        running := q.running ++ [(w, c)] }
      ((q.now, .handed c w) :: log) := by
  obtain ⟨hentered, hnever, hnoreply⟩ := h.queued (c, limit) (by rw [hqueue]; exact .head _)
  have hnotended : ¬log.HasEnded c := fun he =>
    have ⟨w', hw'⟩ := h.ended_handed c he
    hnever w' hw'
  have hnodup := h.queue_nodup
  rw [hqueue, List.map_cons, List.nodup_cons] at hnodup
  have hqueued : ∀ e ∈ rest, e.1 ≠ c := fun e he heq =>
    hnodup.1 (List.mem_map.mpr ⟨e, he, heq⟩)
  have hcaller : ∀ w', (w', c) ∉ q.running := fun w' hr => hnever w' ((h.running_iff w' c).mp hr).1
  exact {
    counts := by simpa [hx] using hcounts
    worker_le := fun w' hw' => by
      rw [hx] at hw'
      cases hw'
      exact hw
    handed_le := fun c' w' hc => by
      rcases told_cons.mp hc with heq | hold
      · cases heq
        exact hw
      · exact Nat.le_trans (h.handed_le c' w' hold) hle
    gone_le := fun w' hw' => Nat.le_trans (h.gone_le w' hw') hle
    worker_stays := fun w' hw' => by
      rw [hx] at hw'
      cases hw'
      exact hgone
    queued := fun e he => by
      obtain ⟨he₁, he₂, he₃⟩ := h.queued e (by rw [hqueue]; exact .tail _ he)
      exact ⟨told_cons.mpr (.inr he₁), by simpa [hqueued e he] using he₂, by simpa using he₃⟩
    queue_nodup := hnodup.2
    handed_entered := fun c' w' hc => by
      rcases told_cons.mp hc with heq | hold
      · cases heq
        exact ⟨limit, told_cons.mpr (.inr hentered)⟩
      · obtain ⟨l, hl⟩ := h.handed_entered c' w' hold
        exact ⟨l, told_cons.mpr (.inr hl)⟩
    replied_entered := by simpa using h.replied_entered
    ended_handed := fun c' hc => by
      obtain ⟨w', hw'⟩ := h.ended_handed c' (by simpa using hc)
      exact ⟨w', told_cons.mpr (.inr hw')⟩
    running_iff := fun w' c' => by
      simp only [List.mem_append, List.mem_singleton, h.running_iff w' c', told_cons,
        hasEnded_cons, reduceCtorEq, exists_false, false_or, Prod.mk.injEq, CallNote.handed.injEq]
      constructor
      · rintro (⟨hh, he⟩ | ⟨rfl, rfl⟩)
        · exact ⟨.inr hh, he⟩
        · exact ⟨.inl ⟨rfl, rfl⟩, hnotended⟩
      · rintro ⟨⟨rfl, rfl⟩ | hh, he⟩
        · exact .inr ⟨rfl, rfl⟩
        · exact .inl ⟨hh, he⟩
    running_nodup := by
      rw [List.map_append, List.nodup_append]
      refine ⟨h.running_nodup, List.nodup_singleton _, ?_⟩
      rintro _ ha _ hb rfl
      obtain ⟨⟨w', c'⟩, hr, rfl⟩ := List.mem_map.mp ha
      obtain rfl : c' = c := by simpa using hb
      exact hcaller w' hr
    waiting := fun c' w' hc hno => by
      rcases told_cons.mp hc with heq | hold
      · cases heq
        exact ⟨_, rfl, rfl⟩
      · obtain ⟨a, ha, -⟩ := h.waiting c' w' hold (by simpa using hno)
        rw [hidle] at ha
        cases ha
    slot := fun w' c' hw' hr => by
      rw [hx] at hw'
      cases hw'
      rcases List.mem_append.mp hr with hold | hlast
      · exact absurd hold (hfree c')
      · cases List.mem_singleton.mp hlast
        exact ⟨_, rfl, rfl⟩
    active := fun a ha => by
      cases ha
      exact ⟨hx, told_cons.mpr (.inr hentered), .head _, by simpa using hnoreply⟩
    outcome := fun a ha => by
      cases ha
      simpa using hnotended }

/-- An operation ends, and its result goes to its caller if that is active. -/
theorem ended {c w : Nat} (e : Ending α) (hr : (w, c) ∈ q.running) :
    Accounts
      { q with
        active := q.active.map fun a => if a.caller = c then { a with outcome := some e } else a
        running := q.running.erase (w, c) }
      ((q.now, .ended c w e) :: log) := by
  have hrunning := h.running_nodup.of_map
  -- The active call is the same but for its outcome.
  have hactive : ∀ a, (q.active.map fun a =>
      if a.caller = c then { a with outcome := some e } else a) = some a →
      ∃ b, q.active = some b ∧ b.caller = a.caller ∧ b.worker = a.worker ∧ b.limit = a.limit ∧
        b.started = a.started ∧ a.outcome = if b.caller = c then some e else b.outcome := by
    intro a ha
    obtain ⟨b, hb, rfl⟩ := Option.map_eq_some_iff.mp ha
    refine ⟨b, hb, ?_⟩
    by_cases hbc : b.caller = c
    · simp [hbc]
    · simp [hbc]
  have hsome : ∀ b c', q.active = some b → b.caller = c' → ∃ a, (q.active.map fun a =>
      if a.caller = c then { a with outcome := some e } else a) = some a ∧ a.caller = c' := by
    rintro b _ hb rfl
    refine ⟨_, by rw [hb]; rfl, ?_⟩
    by_cases hbc : b.caller = c
    · simp [hbc]
    · simp [hbc]
  exact {
    counts := h.counts
    worker_le := h.worker_le
    handed_le := by simpa using h.handed_le
    gone_le := h.gone_le
    worker_stays := h.worker_stays
    queued := by simpa using h.queued
    queue_nodup := h.queue_nodup
    handed_entered := by simpa using h.handed_entered
    replied_entered := by simpa using h.replied_entered
    ended_handed := fun c' hc => by
      rcases hasEnded_cons.mp hc with ⟨_, _, heq⟩ | hold
      · cases heq
        exact ⟨w, told_cons.mpr (.inr ((h.running_iff w c).mp hr).1)⟩
      · obtain ⟨w', hw'⟩ := h.ended_handed c' hold
        exact ⟨w', told_cons.mpr (.inr hw')⟩
    running_iff := fun w' c' => by
      rw [hrunning.mem_erase_iff, h.running_iff w' c']
      simp only [told_cons, hasEnded_cons, reduceCtorEq, false_or, CallNote.ended.injEq]
      constructor
      · rintro ⟨hne, hh, he⟩
        refine ⟨hh, ?_⟩
        rintro (⟨_, _, rfl, rfl, rfl⟩ | hold)
        · -- Two running operations of one caller would be the same.
          have hr' := (h.running_iff w' c).mpr ⟨hh, he⟩
          exact hne (List.inj_on_of_nodup_map h.running_nodup hr' hr rfl)
        · exact he hold
      · rintro ⟨hh, he⟩
        refine ⟨fun heq => ?_, hh, fun hold => he (.inr hold)⟩
        cases heq
        exact he (.inl ⟨_, _, rfl, rfl, rfl⟩)
    running_nodup := h.running_nodup.sublist (List.erase_sublist.map _)
    waiting := fun c' w' hc hno => by
      obtain ⟨b, hb, hbc⟩ := h.waiting c' w' (by simpa using hc) (by simpa using hno)
      exact hsome b c' hb hbc
    slot := fun w' c' hw' hr' => by
      obtain ⟨b, hb, hbc⟩ := h.slot w' c' hw' (List.mem_of_mem_erase hr')
      exact hsome b c' hb hbc
    active := fun a ha => by
      obtain ⟨b, hb, hcaller, hworker, hlimit, hstarted, -⟩ := hactive a ha
      obtain ⟨hw, hentered, hhanded, hreply⟩ := h.active b hb
      rw [← hcaller, ← hworker, ← hlimit, ← hstarted]
      exact ⟨hw, told_cons.mpr (.inr hentered), .tail _ hhanded, by simpa using hreply⟩
    outcome := fun a ha => by
      obtain ⟨b, hb, hcaller, -, -, -, houtcome⟩ := hactive a ha
      rw [← hcaller, houtcome]
      have hb' := h.outcome b hb
      by_cases hbc : b.caller = c
      · rw [if_pos hbc]
        exact ⟨w, told_cons.mpr (.inl (by rw [hbc]))⟩
      · rw [if_neg hbc]
        cases ho : b.outcome with
        | none =>
          rw [ho] at hb'
          simpa [Ne.symm hbc] using hb'
        | some e' =>
          rw [ho] at hb'
          obtain ⟨w', hw'⟩ := hb'
          exact ⟨w', told_cons.mpr (.inr hw')⟩ }

/-- The active caller gets its reply, and the slot keeps a worker only if that is done. -/
theorem replied {a : ActiveCall α} (ha : q.active = some a) (r : Reply α) {x : Executor}
    (hcounts : x.spawned = x.abandoned + if x.worker.isSome then 1 else 0)
    (hspawned : x.spawned = q.executor.spawned)
    (hx : x.worker = none ∨ x.worker = q.executor.worker ∧ a.outcome ≠ none) :
    Accounts { q with executor := x, active := none } ((q.now, .replied a.caller r) :: log) := by
  obtain ⟨hworker, hentered, hhanded, -⟩ := h.active a ha
  have hsub : ∀ w, x.worker = some w → q.executor.worker = some w := by
    intro w hw
    rcases hx with hnone | ⟨hsame, -⟩
    · rw [hnone] at hw
      cases hw
    · rwa [← hsame]
  exact {
    counts := hcounts
    worker_le := fun w hw => hspawned ▸ h.worker_le w (hsub w hw)
    handed_le := by simpa [hspawned] using h.handed_le
    gone_le := by simpa [hspawned] using h.gone_le
    worker_stays := fun w hw => h.worker_stays w (hsub w hw)
    queued := fun e he => by
      obtain ⟨he₁, he₂, he₃⟩ := h.queued e he
      have hne : a.caller ≠ e.1 := fun heq => he₂ a.worker ⟨a.started, heq ▸ hhanded⟩
      exact ⟨told_cons.mpr (.inr he₁), by simpa using he₂, by simpa [hne] using he₃⟩
    queue_nodup := h.queue_nodup
    handed_entered := by simpa using h.handed_entered
    replied_entered := fun c hc => by
      rcases hasReply_cons.mp hc with ⟨_, heq⟩ | hold
      · cases heq
        exact ⟨a.limit, told_cons.mpr (.inr hentered)⟩
      · obtain ⟨l, hl⟩ := h.replied_entered c hold
        exact ⟨l, told_cons.mpr (.inr hl)⟩
    ended_handed := by simpa using h.ended_handed
    running_iff := by simpa using h.running_iff
    running_nodup := h.running_nodup
    waiting := fun c w hc hno => by
      obtain ⟨b, hb, hbc⟩ := h.waiting c w (by simpa using hc)
        fun hr => hno (hasReply_cons.mpr (.inr hr))
      rw [ha] at hb
      cases hb
      exact absurd (hasReply_cons.mpr (.inl ⟨r, by rw [hbc]⟩)) hno
    slot := fun w c hw hr => by
      -- A worker that stays in the slot is done with the active caller's operation.
      obtain ⟨b, hb, rfl⟩ := h.slot w c (hsub w hw) hr
      rw [ha] at hb
      cases hb
      rcases hx with hnone | ⟨-, hdone⟩
      · rw [hnone] at hw
        cases hw
      · have houtcome := h.outcome a ha
        cases ho : a.outcome with
        | none => exact absurd ho hdone
        | some e =>
          rw [ho] at houtcome
          obtain ⟨w', hw'⟩ := houtcome
          exact absurd ⟨w', e, hw'⟩ ((h.running_iff w a.caller).mp hr).2
    active := fun _ hb => nomatch hb
    outcome := fun _ hb => nomatch hb }

/-- A caller leaves the queue. -/
theorem left {c : Nat} (hc : q.queue.any fun e => e.1 == c) (r : Reply α) (t : Span) :
    Accounts { q with queue := q.queue.filter fun e => e.1 != c } ((t, .replied c r) :: log) := by
  obtain ⟨limit, he⟩ : ∃ limit, (c, limit) ∈ q.queue := by simpa using hc
  obtain ⟨hentered, hnever, -⟩ := h.queued (c, limit) he
  exact {
    counts := h.counts
    worker_le := h.worker_le
    handed_le := by simpa using h.handed_le
    gone_le := h.gone_le
    worker_stays := h.worker_stays
    queued := fun e' he' => by
      obtain ⟨hmem, hne⟩ := List.mem_filter.mp he'
      obtain ⟨he₁, he₂, he₃⟩ := h.queued e' hmem
      have hne' := bne_iff_ne.mp hne
      exact ⟨told_cons.mpr (.inr he₁), by simpa using he₂, by simpa [Ne.symm hne'] using he₃⟩
    queue_nodup := h.queue_nodup.sublist (List.filter_sublist.map _)
    handed_entered := by simpa using h.handed_entered
    replied_entered := fun c' hc' => by
      rcases hasReply_cons.mp hc' with ⟨_, heq⟩ | hold
      · cases heq
        exact ⟨limit, told_cons.mpr (.inr hentered)⟩
      · obtain ⟨l, hl⟩ := h.replied_entered c' hold
        exact ⟨l, told_cons.mpr (.inr hl)⟩
    ended_handed := by simpa using h.ended_handed
    running_iff := by simpa using h.running_iff
    running_nodup := h.running_nodup
    waiting := fun c' w hc' hno =>
      h.waiting c' w (by simpa using hc') fun hr => hno (hasReply_cons.mpr (.inr hr))
    slot := h.slot
    active := fun a ha => by
      obtain ⟨hw, ha₁, ha₂, ha₃⟩ := h.active a ha
      have hne : c ≠ a.caller := fun heq => hnever a.worker ⟨a.started, heq ▸ ha₂⟩
      exact ⟨hw, told_cons.mpr (.inr ha₁), .tail _ ha₂, by simpa [hne] using ha₃⟩
    outcome := fun a ha => by simpa using h.outcome a ha }

theorem gone {w : Nat} (hslot : q.executor.worker ≠ some w) (hw : w ≤ q.executor.spawned) :
    Accounts { q with gone := w :: q.gone } log :=
  { h with
    gone_le := fun v hv => by
      rcases List.mem_cons.mp hv with rfl | hold
      · exact hw
      · exact h.gone_le v hold
    worker_stays := fun v hv => by
      rw [List.mem_cons, not_or]
      refine ⟨?_, h.worker_stays v hv⟩
      rintro rfl
      exact hslot hv }

theorem passed (t : Span) : Accounts { q with now := q.now + t } log :=
  { h with }

/-! ### Any event -/

/-- What the slot has for the next caller: the worker that is there, or a new one. -/
theorem begin_spec : ∃ w, q.executor.begin.worker = some w ∧
    q.executor.begin.spawned = q.executor.begin.abandoned + 1 ∧
    q.executor.spawned ≤ q.executor.begin.spawned ∧ w ≤ q.executor.begin.spawned ∧ w ∉ q.gone ∧
    (q.executor.worker = some w ∨ ∀ c, ¬log.Told (.handed c w)) := by
  have hcounts := h.counts
  unfold Executor.begin
  cases hw : q.executor.worker with
  | some w =>
    rw [hw] at hcounts
    exact ⟨w, rfl, hcounts, Nat.le_refl _, h.worker_le w hw, h.worker_stays w hw, .inl rfl⟩
  | none =>
    rw [hw] at hcounts
    refine ⟨_, rfl, congrArg (· + 1) hcounts, Nat.le_succ _, Nat.le_refl _, fun hgone => ?_, .inr ?_⟩
    · have := h.gone_le _ hgone
      omega
    · intro c hc
      have := h.handed_le c _ hc
      omega

/-- The event keeps the accounts, and what can be told of it is justified. -/
def KeptBy (q : CallQueue α) (log : CallLog α) (v : CallEvent α) : Prop :=
  Accounts (q.step v).1 (q.logged log (q.step v).2) ∧
    ∀ n, (q.step v).2 = some n → Justified log q.now n

theorem keptBy_of_nothing {v : CallEvent α} (hv : q.step v = (q, none)) : KeptBy q log v := by
  unfold KeptBy
  rw [hv]
  exact ⟨h, nofun⟩

theorem keptBy_starts : KeptBy q log .starts := by
  obtain ⟨w, hworker, hcounts, hle, hw, hgone, hfrom⟩ := h.begin_spec
  cases hactive : q.active with
  | some a => exact h.keptBy_of_nothing (by simp [CallQueue.step, hactive])
  | none =>
    cases hqueue : q.queue with
    | nil => exact h.keptBy_of_nothing (by simp [CallQueue.step, hactive, hqueue])
    | cons e rest =>
      have hfree : ∀ c, (w, c) ∉ q.running := by
        intro c hr
        rcases hfrom with hold | hnew
        · obtain ⟨a, ha, -⟩ := h.slot w c hold hr
          rw [hactive] at ha
          cases ha
        · exact hnew c ((h.running_iff w c).mp hr).1
      simp only [KeptBy, CallQueue.step, hworker, if_neg hgone, hactive, hqueue]
      refine ⟨h.handed hqueue hactive hcounts hworker hle hw hgone hfree, fun n hn => ?_⟩
      cases hn
      intro c hc
      by_contra hgoes
      exact hfree c ((h.running_iff w c).mpr ⟨hc, hgoes⟩)

theorem keptBy_ends (w : Nat) (e : Ending α) : KeptBy q log (.ends w e) := by
  cases hr : q.running.lookup w with
  | none => exact h.keptBy_of_nothing (by simp [CallQueue.step, hr])
  | some c =>
    have hmem : (w, c) ∈ q.running := by
      obtain ⟨l₁, l₂, hl, -⟩ := List.lookup_eq_some_iff.mp hr
      rw [hl]
      simp
    simp only [KeptBy, CallQueue.step, hr]
    refine ⟨h.ended e hmem, fun n hn => ?_⟩
    cases hn
    exact (h.running_iff w c).mp hmem

theorem keptBy_polls : KeptBy q log .polls := by
  cases hactive : q.active with
  | none => exact h.keptBy_of_nothing (by simp [CallQueue.step, hactive])
  | some a =>
    obtain ⟨hworker, hentered, hhanded, -⟩ := h.active a hactive
    have houtcome := h.outcome a hactive
    simp only [KeptBy, CallQueue.step, hactive]
    cases ho : a.outcome with
    | some e =>
      rw [ho] at houtcome
      refine ⟨h.replied hactive _ h.counts rfl (.inr ⟨rfl, by simp [ho]⟩), fun n hn => ?_⟩
      cases hn
      cases e with
      | returns v => exact houtcome
      | panics => exact houtcome
    | none =>
      rw [ho] at houtcome
      dsimp only
      split
      · next hdue =>
        refine ⟨h.replied hactive _ ?_ rfl (.inl rfl), fun n hn => ?_⟩
        · have hcounts := h.counts
          rw [hworker] at hcounts
          exact hcounts
        · cases hn
          exact ⟨hentered, houtcome, a.started, a.worker, hhanded, hdue⟩
      · exact ⟨h, nofun⟩

theorem keptBy_leaves (c : Nat) : KeptBy q log (.leaves c) := by
  simp only [KeptBy, CallQueue.step]
  split
  · next hc =>
    obtain ⟨a, hactive, hcaller⟩ := (Option.any_eq_true _ _).mp hc
    obtain rfl := beq_iff_eq.mp hcaller
    refine ⟨h.replied hactive _ ?_ rfl (.inl rfl), fun n hn => ?_⟩
    · have hcounts := h.counts
      rw [(h.active a hactive).1] at hcounts
      exact hcounts
    · cases hn
      trivial
  · split
    · next hc =>
      refine ⟨h.left hc _ _, fun n hn => ?_⟩
      cases hn
      trivial
    · exact ⟨h, nofun⟩

/-- Every event keeps the accounts. -/
theorem step (v : CallEvent α) (hv : Newcomer log v) : KeptBy q log v := by
  cases v with
  | enters c limit =>
    refine ⟨h.entered hv limit q.now, fun n hn => ?_⟩
    cases hn
    trivial
  | starts => exact h.keptBy_starts
  | ends w e => exact h.keptBy_ends w e
  | polls => exact h.keptBy_polls
  | leaves c => exact h.keptBy_leaves c
  | exits w =>
    simp only [KeptBy, CallQueue.step]
    split
    · next hw => exact ⟨h.gone hw.1 hw.2.1, nofun⟩
    · exact ⟨h, nofun⟩
  | passes t => exact ⟨h.passed t, nofun⟩

end Accounts

theorem Reaches.accounts (h : Reaches q log) : Accounts q log := by
  induction h with
  | new => exact .new
  | step v _ hv ih => exact (ih.step v hv).1

/-- Whatever callers ask for, whenever operations end and callers leave: each thing that happened
was justified by what had happened before (an operation is handed to a worker that is done with all
others, and a reply tells of the caller's own operation); one operation at most goes on whose
caller still waits; and all workers but the one in the slot count as abandoned. -/
theorem calls_isolated (h : Reaches q log) :
    (∀ t n earlier, (t, n) :: earlier <:+ log → Justified earlier t n) ∧
    (∀ c d, log.Awaited c → log.Awaited d → c = d) ∧
    q.executor.spawned = q.executor.abandoned + if q.executor.worker.isSome then 1 else 0 := by
  have haccounts := h.accounts
  refine ⟨?_, ?_, haccounts.counts⟩
  · clear haccounts
    induction h with
    | new =>
      intro t n earlier hsuffix
      cases List.suffix_nil.mp hsuffix
    | step v hreached hv ih =>
      intro t n earlier hsuffix
      have hnote := (hreached.accounts.step v hv).2
      unfold logged at hsuffix
      cases hn : (CallQueue.step _ v).2 with
      | none =>
        rw [hn] at hsuffix
        exact ih t n earlier hsuffix
      | some m =>
        rw [hn] at hsuffix
        rcases List.suffix_cons_iff.mp hsuffix with heq | hold
        · cases heq
          exact hnote _ hn
        · exact ih t n earlier hold
  · rintro c d ⟨⟨w, hw⟩, -, hc⟩ ⟨⟨w', hw'⟩, -, hd⟩
    obtain ⟨a, ha, rfl⟩ := haccounts.waiting c w hw hc
    obtain ⟨b, hb, rfl⟩ := haccounts.waiting d w' hw' hd
    rw [ha] at hb
    cases hb
    rfl

/-- A call that hangs, one that a second worker answers meanwhile, and one that is given up before
its turn comes. The first operation ends when nobody waits for it any more. -/
def overHang : CallQueue Nat × CallLog Nat :=
  [.enters 1 (.ofMillis 100), .enters 2 (.ofSeconds 1), .enters 3 (.ofSeconds 1), .starts,
    .passes (.ofMillis 100), .polls, .starts, .leaves 3, .ends 2 (.returns 7), .polls,
    .ends 1 .panics].foldl
      (fun x v => ((x.1.step v).1, x.1.logged x.2 (x.1.step v).2)) (.new, [])

theorem reaches_overHang : Reaches overHang.1 overHang.2 := by
  refine .step (.ends 1 .panics) (.step .polls (.step (.ends 2 (.returns 7)) (.step (.leaves 3)
    (.step .starts (.step .polls (.step (.passes (.ofMillis 100)) (.step .starts
      (.step (.enters 3 (.ofSeconds 1)) (.step (.enters 2 (.ofSeconds 1))
        (.step (.enters 1 (.ofMillis 100)) .new ?_) ?_) ?_)
      trivial) trivial) trivial) trivial) trivial) trivial) trivial) trivial
  all_goals
    intro limit
    simp [logged, CallQueue.step, Told]

/-- The second caller has its own result, and the hanging call has cost one worker. -/
theorem calls_isolated_overHang : Reaches overHang.1 overHang.2 ∧
    (∃ w, overHang.2.Told (.ended 2 w (.returns 7))) ∧
    overHang.1.executor.spawned = overHang.1.executor.abandoned + 1 := by
  obtain ⟨hjustified, -, hcounts⟩ := calls_isolated reaches_overHang
  refine ⟨reaches_overHang, ?_, hcounts⟩
  have hlog : overHang.2 = (.ofMillis 100, .ended 1 1 .panics) ::
      (.ofMillis 100, .replied 2 (.value 7)) :: overHang.2.drop 2 := by decide +kernel
  obtain ⟨w, t, ht⟩ := hjustified (.ofMillis 100) (.replied 2 (.value 7)) (overHang.2.drop 2)
    ⟨[(.ofMillis 100, .ended 1 1 .panics)], hlog.symm⟩
  exact ⟨w, t, List.mem_of_mem_drop ht⟩

end CallQueue

end SensorCache
