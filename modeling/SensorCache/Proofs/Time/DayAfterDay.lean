import SensorCache.Proofs.Time.FirstFirings

/-!
# Day after day

In a zone whose clocks are never set, the firing of each date comes a day after that of the date
before. So who asks at a firing for the next one gets the moment a day later
(`nextFiring?_eq_add_of_fires`), also where a jitter has carried the firing past midnight: the search
then begins at the date after its own.
-/

namespace SensorCache.Time

variable {z : Zone} {c : Int} {now m m' : Moment} {t : TimeOfDay} {jitter : Span} {d day : Int}
  {n : Nat}

/-- A time of day that is no leap second. -/
structure TimeOfDay.Usual (t : TimeOfDay) : Prop where
  second : t.second < secondsPerDay
  nano : t.nano < nanosPerSecond

namespace Moment

theorem add_day {s : Int} (hn : n < nanosPerSecond) :
    (ofUnix s n).add (Span.ofSeconds secondsPerDay) = ofUnix (s + secondsPerDay) n := by
  have hdiv : (n + (Span.ofSeconds secondsPerDay).nanos) / nanosPerSecond = secondsPerDay := by
    show (n + secondsPerDay * 1000000000) / nanosPerSecond = secondsPerDay
    unfold nanosPerSecond at hn ⊢
    omega
  have hmod : (n + (Span.ofSeconds secondsPerDay).nanos) % nanosPerSecond = n := by
    show (n + secondsPerDay * 1000000000) % nanosPerSecond = n
    unfold nanosPerSecond at hn ⊢
    omega
  rw [add_ofUnix hn, hdiv, hmod]

theorem inRange_ofUnix {s : Int} :
    (ofUnix s n).inRange = true ↔ firstDay ≤ s / secondsPerDay ∧ s / secondsPerDay ≤ lastDay := by
  show (decide (firstDay ≤ s / secondsPerDay) && decide (s / secondsPerDay ≤ lastDay)) = true ↔ _
  rw [Bool.and_eq_true, decide_eq_true_eq, decide_eq_true_eq]

end Moment

namespace Daily

/-! ## Zones with one offset -/

theorem earliest?_fixed (hz : z.Fixed c) :
    z.earliest? ⟨d, t.second, t.nano⟩ =
      some (Moment.ofUnix (d * secondsPerDay + t.second - c) t.nano) :=
  earliest?_eq_some.mpr ⟨_, (isLeast_occurs_fixed hz).mpr rfl, rfl⟩

/-- Where clocks are never set, a firing is less than a day and a second after its time of day. -/
theorem exists_of_fires (hz : z.Fixed c) (ht : t.nano < nanosPerSecond)
    (hjitter : jitter < Span.ofSeconds secondsPerDay) (hm : Fires z t jitter d m) :
    ∃ k r : Nat, k ≤ secondsPerDay ∧ r < nanosPerSecond ∧
      m = Moment.ofUnix (d * secondsPerDay + t.second - c + k) r := by
  have hjitter : jitter.nanos < secondsPerDay * 1000000000 := hjitter
  rw [fires_fixed hz, Moment.add_ofUnix ht] at hm
  refine ⟨_, _, ?_, Nat.mod_lt _ (Nat.succ_pos _), hm⟩
  unfold nanosPerSecond at ht ⊢
  omega

theorem Fires.succ (hz : z.Fixed c) (ht : t.nano < nanosPerSecond) (hm : Fires z t jitter d m) :
    Fires z t jitter (d + 1) (m.add (Span.ofSeconds secondsPerDay)) := by
  rw [fires_fixed hz, Moment.add_ofUnix ht] at hm ⊢
  rw [hm, Moment.add_day (Nat.mod_lt _ (Nat.succ_pos _)), Int.add_mul, Int.one_mul]
  congr 1
  omega

/-! ## What the search finds at a firing -/

/-- A search that no date ends comes to a day after `now`. -/
theorem search_of_tooEarly (h : ∀ e, day ≤ e → candidate z now t jitter e = .tooEarly) (n : Nat) :
    search z now t jitter n day = now.add? (Span.ofSeconds secondsPerDay) := by
  induction n generalizing day with
  | zero => rfl
  | succ n ih =>
    unfold search
    split
    · rfl
    · rw [h day (Int.le_refl day)]
      exact ih fun e he => h e (by omega)

/-- The firing itself is not after itself. -/
theorem candidate_self (hm : Fires z t jitter d m) (hrange : m.inRange = true) :
    candidate z m t jitter d = .tooEarly := by
  refine candidate_of_not_ahead ?_ fun f hf => ?_
  · rintro ⟨f, hf, hlt⟩
    rw [← hm.unique hf] at hlt
    exact Moment.lt_asymm hlt hlt
  · rw [← hm.unique hf]
    exact hrange

/-- A day after a firing is later. -/
theorem lt_add_day (hz : z.Fixed c) (ht : t.nano < nanosPerSecond)
    (hjitter : jitter < Span.ofSeconds secondsPerDay) (hm : Fires z t jitter d m) :
    m.lt (m.add (Span.ofSeconds secondsPerDay)) = true := by
  obtain ⟨k, r, -, hr, rfl⟩ := exists_of_fires hz ht hjitter hm
  rw [Moment.add_day hr]
  refine Moment.lt_ofUnix (Moment.second_ofUnix _ _) ?_
  rw [Moment.unixSeconds_ofUnix]
  unfold secondsPerDay
  omega

/-- From the date after a firing's own, the search finds the moment a day later, if any. -/
theorem eq_add_of_search (hz : z.Fixed c) (ht : t.nano < nanosPerSecond)
    (hjitter : jitter < Span.ofSeconds secondsPerDay) (hm : Fires z t jitter d m)
    (hrange : m.inRange = true) (h : search z m t jitter (n + 1) (d + 1) = some m') :
    m' = m.add (Span.ofSeconds secondsPerDay) := by
  have hsucc := hm.succ hz ht
  by_cases hnamed : (Moment.ofUnix ((d + 1) * secondsPerDay + t.second - c) t.nano).inRange = true
  · unfold search at h
    split at h
    · exact Moment.eq_add_of_add? h
    · by_cases hfired : (m.add (Span.ofSeconds secondsPerDay)).inRange = true
      · have hdue := candidate_of_ahead hsucc (lt_add_day hz ht hjitter hm)
          (fun s hs => by rw [(isLeast_occurs_fixed hz).mp hs]; exact hnamed) hfired
        rw [hdue] at h
        exact (Option.some.inj h).symm
      · have hout : candidate z m t jitter (d + 1) = .outOfRange := by
          unfold candidate
          rw [earliest?_fixed hz]
          simp [hnamed, Moment.add?, ← (fires_fixed hz).mp hsucc, hfired]
        rw [hout] at h
        cases h
  · -- Its time of day cannot be named, so that of no later date can.
    refine Moment.eq_add_of_add? ((search_of_tooEarly (fun e he => ?_) (n + 1)).symm.trans h)
    obtain ⟨k, r, hk, hr, rfl⟩ := exists_of_fires hz ht hjitter hm
    unfold candidate
    rw [earliest?_fixed hz]
    dsimp only
    rw [if_pos]
    rw [Bool.not_eq_true', ← Bool.not_eq_true]
    rw [Moment.inRange_ofUnix] at hrange hnamed ⊢
    unfold secondsPerDay at *
    omega

end Daily

open Daily

/-- Who asks at a firing for the next one gets the moment a day later, if any. -/
theorem nextFiring?_eq_add_of_fires (hz : z.Fixed c) (ht : t.Usual)
    (hjitter : jitter < Span.ofSeconds secondsPerDay) (hm : Fires z t jitter d m)
    (hrange : m.inRange = true) (h : nextFiring? z m t jitter = some m') :
    m' = m.add (Span.ofSeconds secondsPerDay) := by
  rw [nextFiring?_eq_search hjitter] at h
  have hday : (z.localOf m).day = d ∨ (z.localOf m).day = d + 1 := by
    obtain ⟨k, r, hk, -, hm'⟩ := exists_of_fires hz ht.nano hjitter hm
    have hlocal : (z.localOf m).day = (m.unixSeconds + z.offsetAt m.unixSeconds) / secondsPerDay := rfl
    have hsecond := ht.second
    rw [hlocal, hz, hm', Moment.unixSeconds_ofUnix]
    unfold secondsPerDay at *
    omega
  split at h
  · cases h
  · rcases hday with hday | hday
    · -- The date is the firing's own, which is passed over.
      rw [hday] at h
      unfold search at h
      split at h
      · exact Moment.eq_add_of_add? h
      · rw [candidate_self hm hrange] at h
        exact eq_add_of_search hz ht.nano hjitter hm hrange h
    · rw [hday] at h
      exact eq_add_of_search hz ht.nano hjitter hm hrange h

/-- The first firing that is asked for is that of a date, if it and the moments that the search comes
upon can be named. -/
theorem exists_fires_of_nextFiring? (hz : z.Fixed c) (hnow : now.second < secondsPerDay)
    (ht : t.nano < nanosPerSecond) (hjitter : jitter < Span.ofSeconds secondsPerDay)
    (hnamed : Named z now t jitter) (h : nextFiring? z now t jitter = some m) :
    ∃ d, Fires z t jitter d m := by
  obtain ⟨hdays, hearliest, hfirings, htomorrow⟩ := hnamed
  obtain ⟨m', hm', hcases⟩ := search_eq 3 (z.localOf now).day
    (fun d hle hlt => hdays d hle (by omega)) (fun d hle hlt => hearliest d hle (by omega))
    (fun d hle hlt => hfirings d hle (by omega)) htomorrow
  rw [nextFiring?_eq_search hjitter, hm'] at h
  split at h
  · cases h
  · obtain rfl := Option.some.inj h
    rcases hcases with ⟨d, -, -, -, hfires⟩ | ⟨hnone, -⟩
    · exact ⟨d, hfires⟩
    · -- Tomorrow's firing is ahead in any case.
      refine absurd ?_ (hnone ((z.localOf now).day + 1) (by omega) (by omega))
      refine ⟨_, (fires_fixed hz).mpr rfl, ?_⟩
      rw [Moment.add_ofUnix ht]
      refine Moment.lt_ofUnix hnow ?_
      have hday := (day_le_localOf z now).2
      rw [hz] at hday
      unfold nanosPerSecond
      omega

end SensorCache.Time
