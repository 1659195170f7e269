import SensorCache.Refresh.Scheduler

/-!
# Firings lie ahead

The firing that is due next is later than the moment it is asked for at, so a scheduler that begins
to listen has time to wait.
-/

namespace SensorCache

namespace Time

variable {z : Zone} {now m : Moment} {t : TimeOfDay} {jitter : Span} {n : Nat} {day : Int}

/-- A moment outside of leap seconds, on a day. -/
structure Moment.Usual (m : Moment) : Prop where
  second : m.second < secondsPerDay
  nano : m.nano < nanosPerSecond

/-- Nanoseconds from `a` to `b`, no second of which is a leap second. -/
def Moment.ahead (a b : Moment) : Int :=
  (b.unixSeconds - a.unixSeconds) * nanosPerSecond + b.nano - a.nano

namespace Moment

theorem usual_toMoment (t : Instant) : t.toMoment.Usual := by
  constructor
  · show (t.nanos / 1000000000 % secondsPerDay).toNat < secondsPerDay
    unfold secondsPerDay
    omega
  · show (t.nanos % 1000000000).toNat < nanosPerSecond
    unfold nanosPerSecond
    omega

theorem unixSeconds_ofUnix (seconds : Int) (nano : Nat) :
    (ofUnix seconds nano).unixSeconds = seconds := by
  show seconds / secondsPerDay * secondsPerDay + ((seconds % secondsPerDay).toNat : Int) = seconds
  unfold secondsPerDay
  omega

theorem ahead_of_lt (hnow : now.Usual) (h : now.lt m = true) : 0 < now.ahead m := by
  obtain ⟨hs, hn⟩ := hnow
  simp only [lt, Bool.or_eq_true, Bool.and_eq_true, decide_eq_true_eq, beq_iff_eq] at h
  unfold secondsPerDay at hs
  unfold nanosPerSecond at hn
  unfold ahead unixSeconds secondsPerDay nanosPerSecond
  omega

theorem eq_add_of_add? {x : Span} (h : now.add? x = some m) : m = now.add x := by
  unfold add? at h
  dsimp only at h
  split at h
  · exact (Option.some.inj h).symm
  · cases h

theorem inRange_of_add? {x : Span} (h : now.add? x = some m) : m.inRange = true := by
  have hm := eq_add_of_add? h
  unfold add? at h
  dsimp only at h
  split at h
  · next hrange => rwa [hm]
  · cases h

/-- A day later is ahead. -/
theorem ahead_of_add? (hnow : now.Usual) (h : now.add? (.ofSeconds secondsPerDay) = some m) :
    0 < now.ahead m := by
  have hsub : (Span.ofSeconds secondsPerDay).subNanos = 0 := rfl
  have hseconds : (Span.ofSeconds secondsPerDay).seconds = secondsPerDay := rfl
  have hadd : now.add (.ofSeconds secondsPerDay) =
      ofUnix (now.unixSeconds + secondsPerDay) now.nano := by
    rw [add, if_neg (Nat.not_le.mpr hnow.nano), addPlain, hsub, hseconds, Nat.add_zero,
      if_pos hnow.nano]
  rw [eq_add_of_add? h, ahead, hadd, unixSeconds_ofUnix]
  show 0 < (now.unixSeconds + (secondsPerDay : Int) - now.unixSeconds) * nanosPerSecond +
    (now.nano : Int) - now.nano
  unfold secondsPerDay nanosPerSecond
  omega

/-- A day later is later also for a moment in a leap second. -/
theorem lt_of_add? (h : now.add? (.ofSeconds secondsPerDay) = some m) : now.lt m = true := by
  have hseconds : (Span.ofSeconds secondsPerDay).seconds = secondsPerDay := rfl
  have hplain (a : Moment) (hday : a.unixSeconds = now.unixSeconds) :
      now.day < (a.addPlain (.ofSeconds secondsPerDay)).day := by
    have hday' : ∀ k : Int, secondsPerDay ≤ k → ∀ n,
        now.day < (ofUnix (a.unixSeconds + k) n).day := by
      intro k hk n
      rw [hday]
      show now.day < (now.day * secondsPerDay + now.second + k) / secondsPerDay
      unfold secondsPerDay at hk ⊢
      omega
    unfold addPlain
    dsimp only
    rw [hseconds, Int.add_assoc]
    split
    · exact hday' _ (Int.le_refl _) _
    · exact hday' _ (by omega) _
  have hlong : 0 < (Span.ofSeconds secondsPerDay).seconds := by
    rw [hseconds]
    exact Nat.succ_pos _
  have hadd : now.day < (now.add (.ofSeconds secondsPerDay)).day := by
    unfold add
    split
    · rw [if_pos (by rw [Bool.or_eq_true, decide_eq_true_eq]; exact .inl hlong)]
      exact hplain { now with nano := now.nano - nanosPerSecond } (by simp only [unixSeconds])
    · exact hplain now rfl
  rw [eq_add_of_add? h]
  simp [lt, hadd]

end Moment

namespace Daily

theorem lt_of_candidate (h : candidate z now t jitter day = .due m) : now.lt m = true := by
  unfold candidate at h
  split at h
  · cases h
  · split at h
    · cases h
    · split at h
      · cases h
      · split at h
        · next hlt =>
          cases h
          exact hlt
        · cases h

theorem lt_of_search (h : search z now t jitter n day = some m) : now.lt m = true := by
  induction n generalizing day with
  | zero => exact Moment.lt_of_add? h
  | succ n ih =>
    unfold search at h
    split at h
    · exact Moment.lt_of_add? h
    · split at h
      · next hm =>
        cases h
        exact lt_of_candidate hm
      · cases h
      · exact ih h

theorem inRange_of_candidate (h : candidate z now t jitter day = .due m) : m.inRange = true := by
  unfold candidate at h
  split at h
  · cases h
  · split at h
    · cases h
    · split at h
      · cases h
      · next hm =>
        split at h
        · cases h
          exact Moment.inRange_of_add? hm
        · cases h

theorem inRange_of_search (h : search z now t jitter n day = some m) : m.inRange = true := by
  induction n generalizing day with
  | zero => exact Moment.inRange_of_add? h
  | succ n ih =>
    unfold search at h
    split at h
    · exact Moment.inRange_of_add? h
    · split at h
      · next hm =>
        cases h
        exact inRange_of_candidate hm
      · cases h
      · exact ih h

theorem ahead_of_search (hnow : now.Usual) (h : search z now t jitter n day = some m) :
    0 < now.ahead m := by
  induction n generalizing day with
  | zero => exact Moment.ahead_of_add? hnow h
  | succ n ih =>
    unfold search at h
    split at h
    · exact Moment.ahead_of_add? hnow h
    · split at h
      · next hm =>
        cases h
        exact Moment.ahead_of_lt hnow (lt_of_candidate hm)
      · cases h
      · exact ih h

end Daily

theorem lt_of_nextFiring? (h : nextFiring? z now t jitter = some m) : now.lt m = true := by
  unfold nextFiring? at h
  dsimp only at h
  split at h
  · cases h
  · exact Daily.lt_of_search h

/-- Answers can be named. -/
theorem inRange_of_nextFiring? (h : nextFiring? z now t jitter = some m) : m.inRange = true := by
  unfold nextFiring? at h
  dsimp only at h
  split at h
  · cases h
  · exact Daily.inRange_of_search h

theorem ahead_of_nextFiring? (hnow : now.Usual) (h : nextFiring? z now t jitter = some m) :
    0 < now.ahead m := by
  unfold nextFiring? at h
  dsimp only at h
  split at h
  · cases h
  · exact Daily.ahead_of_search hnow h

end Time

open Time

/-- The scheduler has to wait for the firing. -/
theorem Scheduler.not_due_of_nextFiring? {z : Zone} {t : TimeOfDay} {jitter : Span} {m : Moment}
    {now : Instant} (h : nextFiring? z now.toMoment t jitter = some m) (elapsed : Span) :
    ¬elapsed + spanUntil now.toMoment m ≤ elapsed := by
  have hahead := ahead_of_nextFiring? (Moment.usual_toMoment now) h
  intro hle
  have hle' : elapsed.nanos + (now.toMoment.ahead m).toNat ≤ elapsed.nanos := hle
  omega

end SensorCache
