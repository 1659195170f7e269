import Mathlib
import SensorCache.Proofs.Time.Firings

/-!
# Which firing comes first

Every local date on which the time of day exists has one firing, at the earliest instant that shows
the time, later by the jitter (`Daily.Fires`). `nextFiring?` looks at three dates from today's on
and takes the first whose firing is ahead (`nextFiring?_first`). In a zone whose clocks are never set
back by more than a day in all, later dates fire later, so this is the first firing of all dates from
today's on. It is the first of all exactly when no earlier date's firing is still ahead: a jitter may
carry yesterday's past midnight, and then it is passed over.
-/

namespace SensorCache.Time

variable {z : Zone} {now : Moment} {t : TimeOfDay} {jitter : Span}

/-! ## Instants that show a local time -/

namespace Zone

/-- The UTC seconds at which the zone's clocks show the local second `l`. -/
def Shows (z : Zone) (l : Int) : Set Int := fun s => z.offsetAt s + s = l

/-- The clocks are never set back by more than a day in all. -/
def Steady (z : Zone) : Prop := ∀ a b, a ≤ b → z.offsetAt a ≤ z.offsetAt b + secondsPerDay

/-- The clocks are never set: the offset is always `c`. -/
def Fixed (z : Zone) (c : Int) : Prop := ∀ s, z.offsetAt s = c

theorem fixed_utc : utc.Fixed 0 := fun _ => rfl

theorem offsetFrom_mem (before : Int) (l : List (Int × Int)) (s : Int) :
    offsetFrom before l s ∈ before :: l.map (·.2) := by
  induction l generalizing before with
  | nil => exact List.mem_singleton.mpr rfl
  | cons c r ih =>
    obtain ⟨u, o⟩ := c
    rw [offsetFrom]
    split
    · exact List.mem_cons_self
    · rw [List.map_cons]
      exact List.mem_cons_of_mem _ (ih o)

/-- No instant is missed: the offset there is one of the zone's. -/
theorem mem_instants {l s : Int} : s ∈ z.instants l ↔ s ∈ z.Shows l := by
  unfold instants
  rw [List.mem_filter, beq_iff_eq]
  constructor
  · rintro ⟨-, h⟩
    exact h
  · intro h
    have hoffset : z.offsetAt s ∈ z.offsets := offsetFrom_mem z.offset z.transitions s
    have hs : l - z.offsetAt s = s := by
      have hshows : z.offsetAt s + s = l := h
      omega
    exact ⟨List.mem_map.mpr ⟨z.offsetAt s, hoffset, hs⟩, h⟩

theorem min?_instants {l s : Int} : (z.instants l).min? = some s ↔ IsLeast (z.Shows l) s := by
  rw [List.min?_eq_some_iff]
  constructor
  · rintro ⟨hs, hle⟩
    exact ⟨mem_instants.mp hs, fun b hb => hle b (mem_instants.mpr hb)⟩
  · rintro ⟨hs, hle⟩
    exact ⟨mem_instants.mpr hs, fun b hb => hle (mem_instants.mp hb)⟩

theorem exists_isLeast {l s : Int} (h : s ∈ z.Shows l) : ∃ a, IsLeast (z.Shows l) a := by
  cases hmin : (z.instants l).min? with
  | some a => exact ⟨a, min?_instants.mp hmin⟩
  | none =>
    rw [List.min?_eq_none_iff] at hmin
    have hs := mem_instants.mpr h
    rw [hmin] at hs
    cases hs

end Zone

/-! ## Moments in order -/

namespace Moment

variable {a b m : Moment}

theorem lt_iff (ha : a.second < secondsPerDay) (hb : b.second < secondsPerDay) :
    a.lt b = true ↔
      a.unixSeconds < b.unixSeconds ∨ a.unixSeconds = b.unixSeconds ∧ a.nano < b.nano := by
  simp only [lt, Bool.or_eq_true, Bool.and_eq_true, decide_eq_true_eq, beq_iff_eq]
  unfold secondsPerDay at ha hb
  unfold unixSeconds secondsPerDay
  omega

theorem lt_asymm (h : a.lt b = true) : ¬b.lt a = true := by
  intro h'
  simp only [lt, Bool.or_eq_true, Bool.and_eq_true, decide_eq_true_eq, beq_iff_eq] at h h'
  omega

theorem second_ofUnix (s : Int) (n : Nat) : (ofUnix s n).second < secondsPerDay := by
  show (s % secondsPerDay).toNat < secondsPerDay
  unfold secondsPerDay
  omega

theorem lt_ofUnix {s : Int} {n : Nat} (ha : a.second < secondsPerDay) (h : a.unixSeconds < s) :
    a.lt (ofUnix s n) = true := by
  rw [lt_iff ha (second_ofUnix s n), unixSeconds_ofUnix]
  exact .inl h

/-- The nanoseconds of a moment outside of leap seconds carry over into its seconds. -/
theorem add_ofUnix {n : Nat} (hn : n < nanosPerSecond) (s : Int) (d : Span) :
    (ofUnix s n).add d =
      ofUnix (s + ((n + d.nanos) / nanosPerSecond : Nat)) ((n + d.nanos) % nanosPerSecond) := by
  have hadd : (ofUnix s n).add d = addPlain (ofUnix s n) d := by
    rw [add]
    exact if_neg (Nat.not_le.mpr hn)
  have hseconds : d.seconds = d.nanos / nanosPerSecond := rfl
  have hnanos : d.subNanos = d.nanos % nanosPerSecond := rfl
  have hnano : (ofUnix s n).nano = n := rfl
  rw [hadd, addPlain, unixSeconds_ofUnix, hseconds, hnanos, hnano]
  unfold nanosPerSecond at hn ⊢
  split
  · have hs : (n + d.nanos) / 1000000000 = d.nanos / 1000000000 := by omega
    have hr : (n + d.nanos) % 1000000000 = n + d.nanos % 1000000000 := by omega
    rw [hs, hr]
  · have hs : (n + d.nanos) / 1000000000 = d.nanos / 1000000000 + 1 := by omega
    have hr : (n + d.nanos) % 1000000000 = n + d.nanos % 1000000000 - 1000000000 := by omega
    rw [hs, hr, Int.natCast_succ, ← Int.add_assoc]

/-- A span moves all moments with the same nanosecond alike, and none of them back. -/
theorem exists_add_ofUnix {n : Nat} (hn : n < nanosPerSecond) (d : Span) :
    ∃ k r, 0 ≤ k ∧ ∀ s : Int, (ofUnix s n).add d = ofUnix (s + k) r :=
  ⟨_, _, Int.natCast_nonneg _, fun s => add_ofUnix hn s d⟩

end Moment

/-! ## Firings of dates -/

namespace Daily

/-- The UTC seconds at which the clocks show the time of day on local date `day`. -/
def Occurs (z : Zone) (t : TimeOfDay) (day : Int) : Set Int :=
  z.Shows (day * secondsPerDay + t.second)

/-- The firing of local date `day`: the earliest instant of its time of day, and the jitter. -/
def Fires (z : Zone) (t : TimeOfDay) (jitter : Span) (day : Int) (m : Moment) : Prop :=
  ∃ s, IsLeast (Occurs z t day) s ∧ m = (Moment.ofUnix s t.nano).add jitter

/-- The firing of local date `day` is strictly after `now`. -/
def Ahead (z : Zone) (now : Moment) (t : TimeOfDay) (jitter : Span) (day : Int) : Prop :=
  ∃ m, Fires z t jitter day m ∧ now.lt m = true

/-- The least moment strictly after `now` among the firings of some dates. -/
structure IsFirst (z : Zone) (now : Moment) (t : TimeOfDay) (jitter : Span) (days : Set Int)
    (m : Moment) : Prop where
  fires : ∃ d ∈ days, Fires z t jitter d m
  ahead : now.lt m = true
  least : ∀ d ∈ days, ∀ f, Fires z t jitter d f → now.lt f = true → m = f ∨ m.lt f = true

/-- The dates, the firings and the day after that `nextFiring?` may come upon can be named. -/
structure Named (z : Zone) (now : Moment) (t : TimeOfDay) (jitter : Span) : Prop where
  days : ∀ d, (z.localOf now).day ≤ d → d ≤ (z.localOf now).day + 2 → dayInRange d = true
  earliest : ∀ d, (z.localOf now).day ≤ d → d ≤ (z.localOf now).day + 2 → ∀ s,
    IsLeast (Occurs z t d) s → (Moment.ofUnix s t.nano).inRange = true
  firings : ∀ d, (z.localOf now).day ≤ d → d ≤ (z.localOf now).day + 2 → ∀ m,
    Fires z t jitter d m → m.inRange = true
  tomorrow : (now.add (Span.ofSeconds secondsPerDay)).inRange = true

theorem Fires.unique {d : Int} {m m' : Moment} (h : Fires z t jitter d m)
    (h' : Fires z t jitter d m') : m = m' := by
  obtain ⟨s, hs, rfl⟩ := h
  obtain ⟨s', hs', rfl⟩ := h'
  rw [hs.unique hs']

theorem exists_fires {d s : Int} (h : s ∈ Occurs z t d) (jitter : Span) :
    ∃ m, Fires z t jitter d m := by
  obtain ⟨a, ha⟩ := Zone.exists_isLeast h
  exact ⟨_, a, ha, rfl⟩

/-! ## What the search finds -/

/-- A date is the first of some to have its firing ahead. -/
def FirstAhead (z : Zone) (now : Moment) (t : TimeOfDay) (jitter : Span) (start day : Int) : Prop :=
  Ahead z now t jitter day ∧ ∀ e, start ≤ e → e < day → ¬Ahead z now t jitter e

theorem earliest?_eq_some {d : Int} {m : Moment} :
    z.earliest? ⟨d, t.second, t.nano⟩ = some m ↔
      ∃ s, IsLeast (Occurs z t d) s ∧ m = Moment.ofUnix s t.nano := by
  unfold Zone.earliest?
  rw [Option.map_eq_some_iff]
  constructor
  · rintro ⟨s, hs, rfl⟩
    exact ⟨s, Zone.min?_instants.mp hs, rfl⟩
  · rintro ⟨s, hs, rfl⟩
    exact ⟨s, Zone.min?_instants.mpr hs, rfl⟩

theorem candidate_of_ahead {d : Int} {m : Moment} (hfires : Fires z t jitter d m)
    (hahead : now.lt m = true)
    (hearliest : ∀ s, IsLeast (Occurs z t d) s → (Moment.ofUnix s t.nano).inRange = true)
    (hrange : m.inRange = true) : candidate z now t jitter d = .due m := by
  obtain ⟨s, hs, rfl⟩ := hfires
  rw [candidate, earliest?_eq_some.mpr ⟨s, hs, rfl⟩]
  simp only [hearliest s hs, Moment.add?, hrange, hahead, Bool.not_true, Bool.false_eq_true,
    if_false, if_true]

theorem candidate_of_not_ahead {d : Int} (h : ¬Ahead z now t jitter d)
    (hrange : ∀ m, Fires z t jitter d m → m.inRange = true) :
    candidate z now t jitter d = .tooEarly := by
  unfold candidate
  split
  · rfl
  · next m hm =>
    obtain ⟨s, hs, rfl⟩ := earliest?_eq_some.mp hm
    have hfires : Fires z t jitter d ((Moment.ofUnix s t.nano).add jitter) := ⟨s, hs, rfl⟩
    have hlt : ¬now.lt ((Moment.ofUnix s t.nano).add jitter) = true := fun hlt =>
      h ⟨_, hfires, hlt⟩
    split
    · rfl
    · simp only [Moment.add?, hrange _ hfires, if_true, if_neg hlt]

/-- Among `n` dates from `start` on the search gives the firing of the first that has it ahead, and
a day after `now` if there is none. -/
theorem search_eq (n : Nat) (start : Int)
    (hdays : ∀ d, start ≤ d → d < start + n → dayInRange d = true)
    (hearliest : ∀ d, start ≤ d → d < start + n → ∀ s, IsLeast (Occurs z t d) s →
      (Moment.ofUnix s t.nano).inRange = true)
    (hfirings : ∀ d, start ≤ d → d < start + n → ∀ m, Fires z t jitter d m → m.inRange = true)
    (htomorrow : (now.add (Span.ofSeconds secondsPerDay)).inRange = true) :
    ∃ m, search z now t jitter n start = some m ∧
      ((∃ d, start ≤ d ∧ d < start + n ∧ FirstAhead z now t jitter start d ∧
        Fires z t jitter d m) ∨
      (∀ d, start ≤ d → d < start + n → ¬Ahead z now t jitter d) ∧
        m = now.add (Span.ofSeconds secondsPerDay)) := by
  induction n generalizing start with
  | zero =>
    refine ⟨_, ?_, .inr ⟨fun d hle hlt => by omega, rfl⟩⟩
    rw [search, Moment.add?]
    exact if_pos htomorrow
  | succ n ih =>
    have hday : dayInRange start = true := hdays start (by omega) (by omega)
    by_cases hahead : Ahead z now t jitter start
    · -- The date at hand decides.
      obtain ⟨m, hfires, hlt⟩ := hahead
      have hcandidate : candidate z now t jitter start = .due m :=
        candidate_of_ahead hfires hlt (hearliest start (by omega) (by omega))
          (hfirings start (by omega) (by omega) m hfires)
      refine ⟨m, ?_, .inl ⟨start, by omega, by omega, ⟨⟨m, hfires, hlt⟩, ?_⟩, hfires⟩⟩
      · simp only [search, hday, Bool.not_true, Bool.false_eq_true, if_false, hcandidate]
      · intro e hle hlt'
        omega
    · have hcandidate : candidate z now t jitter start = .tooEarly :=
        candidate_of_not_ahead hahead (hfirings start (by omega) (by omega))
      obtain ⟨m, hm, hcases⟩ := @ih (start + 1)
        (fun d hle hlt => hdays d (by omega) (by omega))
        (fun d hle hlt => hearliest d (by omega) (by omega))
        (fun d hle hlt => hfirings d (by omega) (by omega))
      refine ⟨m, ?_, ?_⟩
      · simp only [search, hday, Bool.not_true, Bool.false_eq_true, if_false, hcandidate, hm]
      · rcases hcases with ⟨d, hle, hlt, ⟨hd, hbefore⟩, hfires⟩ | ⟨hnone, rfl⟩
        · refine .inl ⟨d, by omega, by omega, ⟨hd, fun e hstart he => ?_⟩, hfires⟩
          by_cases heq : e = start
          · rw [heq]
            exact hahead
          · exact hbefore e (by omega) he
        · refine .inr ⟨fun d hle hlt => ?_, rfl⟩
          by_cases heq : d = start
          · rw [heq]
            exact hahead
          · exact hnone d (by omega) (by omega)

/-! ## Zones that are steady -/

theorem day_le_localOf (z : Zone) (now : Moment) :
    (z.localOf now).day * secondsPerDay ≤ z.offsetAt now.unixSeconds + now.unixSeconds ∧
      z.offsetAt now.unixSeconds + now.unixSeconds <
        ((z.localOf now).day + 1) * secondsPerDay := by
  have hday : (z.localOf now).day =
      (now.unixSeconds + z.offsetAt now.unixSeconds) / secondsPerDay := rfl
  rw [hday]
  unfold secondsPerDay
  omega

/-- A later date has its time of day later, for the clocks would have to be set back by more than
the days between. -/
theorem lt_of_occurs (hz : z.Steady) {d e a b : Int} (hde : d < e) (ha : a ∈ Occurs z t d)
    (hb : b ∈ Occurs z t e) : a < b := by
  have ha : z.offsetAt a + a = d * secondsPerDay + t.second := ha
  have hb : z.offsetAt b + b = e * secondsPerDay + t.second := hb
  by_contra hle
  have hback := hz b a (by omega)
  have hne : a ≠ b := by
    rintro rfl
    unfold secondsPerDay at ha hb
    omega
  unfold secondsPerDay at ha hb hback
  omega

theorem lt_of_fires (hz : z.Steady) (ht : t.nano < nanosPerSecond) {d e : Int} (hde : d < e)
    {m m' : Moment} (hm : Fires z t jitter d m) (hm' : Fires z t jitter e m') :
    m.lt m' = true := by
  obtain ⟨a, ha, rfl⟩ := hm
  obtain ⟨b, hb, rfl⟩ := hm'
  obtain ⟨k, r, -, hadd⟩ := Moment.exists_add_ofUnix ht jitter
  have hlt := lt_of_occurs hz hde ha.1 hb.1
  rw [hadd, hadd]
  refine Moment.lt_ofUnix (Moment.second_ofUnix _ _) ?_
  rw [Moment.unixSeconds_ofUnix]
  omega

/-- The time of day on the date after tomorrow is ahead: it would take more than a day for the
clocks to go back from it to today. -/
theorem ahead_of_fires (hz : z.Steady) (hnow : now.second < secondsPerDay)
    (ht : t.nano < nanosPerSecond) {m : Moment}
    (hm : Fires z t jitter ((z.localOf now).day + 2) m) : now.lt m = true := by
  obtain ⟨s, ⟨hs, -⟩, rfl⟩ := hm
  obtain ⟨k, r, hk, hadd⟩ := Moment.exists_add_ofUnix ht jitter
  rw [hadd]
  refine Moment.lt_ofUnix hnow ?_
  have hs : z.offsetAt s + s = ((z.localOf now).day + 2) * secondsPerDay + t.second := hs
  obtain ⟨-, hday⟩ := day_le_localOf z now
  by_contra hle
  have hback := hz s now.unixSeconds (by omega)
  unfold secondsPerDay at hs hday hback
  omega

/-- The firing of the first date that has it ahead is the first firing of all dates from `start` on. -/
theorem isFirst_of_firstAhead (hz : z.Steady) (ht : t.nano < nanosPerSecond) {start d : Int}
    {m : Moment} (hstart : start ≤ d) (hd : FirstAhead z now t jitter start d)
    (hm : Fires z t jitter d m) : IsFirst z now t jitter (Set.Ici start) m := by
  obtain ⟨⟨m', hm', hlt⟩, hbefore⟩ := hd
  rw [← hm.unique hm'] at hlt
  refine ⟨⟨d, hstart, hm⟩, hlt, fun e he f hf hahead => ?_⟩
  rcases lt_trichotomy e d with hed | rfl | hde
  · exact absurd ⟨f, hf, hahead⟩ (hbefore e he hed)
  · exact .inl (hm.unique hf)
  · exact .inr (lt_of_fires hz ht hde hm hf)

end Daily

open Daily

/-- A jitter of less than a day counts as it is. -/
theorem nextFiring?_eq_search (hjitter : jitter < Span.ofSeconds secondsPerDay) :
    nextFiring? z now t jitter =
      if !dayInRange (z.localOf now).day then none
      else search z now t jitter 3 (z.localOf now).day := by
  have husable : usableJitter jitter = jitter := by
    have hlt : jitter.nanos < 86400 * 1000000000 := hjitter
    have hgreatest : greatestJitter.nanos = 9223372036854775807000000 := rfl
    refine if_neg fun h => ?_
    have h : greatestJitter.nanos < jitter.nanos := h
    omega
  rw [nextFiring?, husable]

/-- **What the answer is.** In every zone it is the firing of the first date that has it ahead, of
today's and the two after it, or else a day after `now`. In a steady zone in which the time of day
exists on one of any two consecutive dates, it is the first firing of all dates from today's on, and
the first of all if and only if no earlier date's is ahead; but where clocks have been set back to
today's date from a firing of tomorrow's, and the date after tomorrow has none, it is a day after
`now`. -/
theorem nextFiring?_first (hnow : now.second < secondsPerDay) (ht : t.nano < nanosPerSecond)
    (hjitter : jitter < Span.ofSeconds secondsPerDay)
    (hoccurs : ∀ d, (Occurs z t d).Nonempty ∨ (Occurs z t (d + 1)).Nonempty)
    (hnamed : Named z now t jitter) :
    ∃ m, nextFiring? z now t jitter = some m ∧
      (∀ d, (z.localOf now).day ≤ d → d ≤ (z.localOf now).day + 2 →
        FirstAhead z now t jitter (z.localOf now).day d → Fires z t jitter d m) ∧
      ((∀ d, (z.localOf now).day ≤ d → d ≤ (z.localOf now).day + 2 → ¬Ahead z now t jitter d) →
        m = now.add (Span.ofSeconds secondsPerDay)) ∧
      (z.Steady →
        IsFirst z now t jitter (Set.Ici (z.localOf now).day) m ∧
          (IsFirst z now t jitter Set.univ m ↔
            ∀ d < (z.localOf now).day, ¬Ahead z now t jitter d) ∨
        Occurs z t ((z.localOf now).day + 2) = ∅ ∧
          (∃ f, Fires z t jitter ((z.localOf now).day + 1) f ∧ ¬now.lt f = true) ∧
          m = now.add (Span.ofSeconds secondsPerDay)) := by
  obtain ⟨hdays, hearliest, hfirings, htomorrow⟩ := hnamed
  obtain ⟨m, hm, hcases⟩ := search_eq 3 (z.localOf now).day
    (fun d hle hlt => hdays d hle (by omega)) (fun d hle hlt => hearliest d hle (by omega))
    (fun d hle hlt => hfirings d hle (by omega)) htomorrow
  have hanswer : nextFiring? z now t jitter = some m := by
    have htoday := hdays (z.localOf now).day (by omega) (by omega)
    simp only [nextFiring?_eq_search hjitter, htoday, hm, Bool.not_true, Bool.false_eq_true,
      if_false]
  refine ⟨m, hanswer, fun d hle hlt hd => ?_, fun hnone => ?_, fun hz => ?_⟩
  · rcases hcases with ⟨e, hle', hlt', he, hfires⟩ | ⟨hnone, -⟩
    · -- Only one date can be the first.
      rcases lt_trichotomy d e with hde | rfl | hed
      · exact absurd hd.1 (he.2 d hle hde)
      · exact hfires
      · exact absurd he.1 (hd.2 e hle' hed)
    · exact absurd hd.1 (hnone d hle (by omega))
  · rcases hcases with ⟨e, hle, hlt, he, -⟩ | ⟨-, hm⟩
    · exact absurd he.1 (hnone e hle (by omega))
    · exact hm
  · rcases hcases with ⟨d, hle, -, hd, hfires⟩ | ⟨hnone, rfl⟩
    · have hfirst := isFirst_of_firstAhead hz ht hle hd hfires
      refine .inl ⟨hfirst, fun hall e he hahead => ?_, fun hearlier => ?_⟩
      · obtain ⟨f, hf, hlt⟩ := hahead
        have hfm := lt_of_fires hz ht (show e < d by omega) hf hfires
        rcases hall.least e (Set.mem_univ e) f hf hlt with rfl | hmf
        · exact absurd hfm (Moment.lt_asymm hfm)
        · exact absurd hmf (Moment.lt_asymm hfm)
      · refine ⟨⟨d, Set.mem_univ d, hfires⟩, hfirst.ahead, fun e _ f hf hlt => ?_⟩
        by_cases he : e < (z.localOf now).day
        · exact absurd ⟨f, hf, hlt⟩ (hearlier e he)
        · exact hfirst.least e (Int.not_lt.mp he) f hf hlt
    · have hempty : ¬(Occurs z t ((z.localOf now).day + 2)).Nonempty := by
        rintro ⟨s, hs⟩
        obtain ⟨f, hf⟩ := exists_fires hs jitter
        exact hnone _ (by omega) (by omega) ⟨f, hf, ahead_of_fires hz hnow ht hf⟩
      obtain ⟨s, hs⟩ : (Occurs z t ((z.localOf now).day + 1)).Nonempty := by
        rcases hoccurs ((z.localOf now).day + 1) with h | h
        · exact h
        · rw [Int.add_assoc] at h
          exact absurd h hempty
      obtain ⟨f, hf⟩ := exists_fires hs jitter
      refine .inr ⟨Set.not_nonempty_iff_eq_empty.mp hempty, ⟨f, hf, fun hlt => ?_⟩, rfl⟩
      exact hnone _ (by omega) (by omega) ⟨f, hf, hlt⟩

/-! ## A firing past midnight -/

namespace Daily

theorem isLeast_occurs_fixed {c : Int} (hz : z.Fixed c) {d s : Int} :
    IsLeast (Occurs z t d) s ↔ s = d * secondsPerDay + t.second - c := by
  have hshows (a : Int) : a ∈ Occurs z t d ↔ a = d * secondsPerDay + t.second - c := by
    show z.offsetAt a + a = d * secondsPerDay + t.second ↔ _
    rw [hz a]
    omega
  constructor
  · rintro ⟨hs, -⟩
    exact (hshows s).mp hs
  · rintro rfl
    exact ⟨(hshows _).mpr rfl, fun b hb => le_of_eq ((hshows b).mp hb).symm⟩

theorem fires_fixed {c : Int} (hz : z.Fixed c) {d : Int} {m : Moment} :
    Fires z t jitter d m ↔
      m = (Moment.ofUnix (d * secondsPerDay + t.second - c) t.nano).add jitter := by
  unfold Fires
  simp only [isLeast_occurs_fixed hz, exists_eq_left]

theorem isLeast_occurs_utc {d s : Int} :
    IsLeast (Occurs Zone.utc t d) s ↔ s = d * secondsPerDay + t.second := by
  rw [isLeast_occurs_fixed Zone.fixed_utc, Int.sub_zero]

theorem fires_utc {d : Int} {m : Moment} :
    Fires Zone.utc t jitter d m ↔
      m = (Moment.ofUnix (d * secondsPerDay + t.second) t.nano).add jitter := by
  rw [fires_fixed Zone.fixed_utc, Int.sub_zero]

/-- Ten seconds before midnight, and twenty seconds on top, so five past midnight the firing of the
day before is still ahead. -/
def lateEvening : TimeOfDay := ⟨86390, 0⟩

def earlyMorning : Moment := ⟨19844, 5, 0⟩

theorem occurs_lateEvening (d : Int) : (Occurs Zone.utc lateEvening d).Nonempty :=
  ⟨_, (isLeast_occurs_utc.mpr rfl).1⟩

theorem fires_lateEvening {d : Int} {m : Moment} :
    Fires Zone.utc lateEvening (Span.ofSeconds 20) d m ↔
      m = Moment.ofUnix (d * secondsPerDay + 86410) 0 := by
  have hadd (s : Int) : (Moment.ofUnix s 0).add (Span.ofSeconds 20) = Moment.ofUnix (s + 20) 0 := by
    rw [Moment.add, if_neg (show ¬nanosPerSecond ≤ (Moment.ofUnix s 0).nano from by
      show ¬nanosPerSecond ≤ 0
      decide), Moment.addPlain, Moment.unixSeconds_ofUnix]
    rfl
  rw [fires_utc]
  show m = (Moment.ofUnix (d * secondsPerDay + 86390) 0).add (Span.ofSeconds 20) ↔ _
  rw [hadd, Int.add_assoc]
  rfl

theorem named_earlyMorning :
    Named Zone.utc earlyMorning lateEvening (Span.ofSeconds 20) := by
  have htoday : (Zone.utc.localOf earlyMorning).day = 19844 := by decide
  have hdates (d : Int) (hle : (Zone.utc.localOf earlyMorning).day ≤ d)
      (hlt : d ≤ (Zone.utc.localOf earlyMorning).day + 2) : d = 19844 ∨ d = 19845 ∨ d = 19846 := by
    omega
  constructor
  · intro d hle hlt
    rcases hdates d hle hlt with rfl | rfl | rfl <;> decide
  · intro d hle hlt s hs
    obtain rfl := isLeast_occurs_utc.mp hs
    rcases hdates d hle hlt with rfl | rfl | rfl <;> decide
  · intro d hle hlt m hm
    obtain rfl := fires_utc.mp hm
    rcases hdates d hle hlt with rfl | rfl | rfl <;> decide
  · decide

end Daily

theorem nextFiring?_first_earlyMorning :
    ∃ m, nextFiring? Zone.utc earlyMorning lateEvening (Span.ofSeconds 20) = some m ∧
      IsFirst Zone.utc earlyMorning lateEvening (Span.ofSeconds 20) (Set.Ici 19844) m := by
  obtain ⟨m, hm, -, -, hsteady⟩ := nextFiring?_first (by decide) (by decide) (by decide)
    (fun d => .inl (occurs_lateEvening d)) named_earlyMorning
  have hz : Zone.utc.Steady := fun a b _ => show (0 : Int) ≤ 0 + secondsPerDay by decide
  rcases hsteady hz with ⟨hfirst, -⟩ | ⟨hempty, -⟩
  · exact ⟨m, hm, hfirst⟩
  · exact absurd hempty (occurs_lateEvening _).ne_empty

/-- The first firing is yesterday's, and the answer is today's, a day later. -/
theorem firing_past_midnight_missed :
    IsFirst Zone.utc earlyMorning lateEvening (Span.ofSeconds 20) Set.univ ⟨19844, 10, 0⟩ ∧
      nextFiring? Zone.utc earlyMorning lateEvening (Span.ofSeconds 20) = some ⟨19845, 10, 0⟩ := by
  refine ⟨⟨⟨19843, Set.mem_univ _, fires_utc.mpr (by decide)⟩, by decide, ?_⟩, by decide⟩
  intro d _ f hf hlt
  obtain rfl := fires_lateEvening.mp hf
  have hday : 19843 ≤ d := by
    rw [Moment.lt_iff (by decide) (Moment.second_ofUnix _ _), Moment.unixSeconds_ofUnix] at hlt
    have hnow : earlyMorning.unixSeconds = 19844 * 86400 + 5 := by decide
    unfold secondsPerDay at hlt
    omega
  by_cases heq : d = 19843
  · rw [heq]
    exact .inl (by decide)
  · refine .inr (Moment.lt_ofUnix (by decide) ?_)
    have hfirst : (⟨19844, 10, 0⟩ : Moment).unixSeconds = 19844 * 86400 + 10 := by decide
    unfold secondsPerDay
    omega

end SensorCache.Time
