import SensorCache.Time.Calendar

/-!
# Days and dates

A day is the day of its date (`toDays_ofDays`), and its date is one of the calendar
(`valid_ofDays`). Both come from where a day lies: in which year of its era of four hundred years
that begin in March (`yearOfEra_spec`), and in which month of that year (`month_spec`).
-/

namespace SensorCache.Time

/-- The year of an era in which a day of it lies. -/
def yearOfEra (n : Int) : Int := (n - n / 1460 + n / 36524 - n / 146096) / 365

/-- The first day of a year of an era. -/
def startOfYear (y : Int) : Int := 365 * y + y / 4 - y / 100

/-- Where a day of an era lies: in a year of it, and on its 366th day only if that is a leap day. -/
structure InYear (n y : Int) : Prop where
  year_nonneg : 0 ≤ y
  year_lt : y < 400
  start_le : startOfYear y ≤ n
  le_end : n ≤ startOfYear y + 365
  leap : n = startOfYear y + 365 → isLeapYear (y + 1) = true

theorem isLeapYear_of_mod {y : Int} (h4 : y % 4 = 0) (h : y % 100 ≠ 0 ∨ y % 400 = 0) :
    isLeapYear y = true := by
  simp only [isLeapYear, Bool.and_eq_true, beq_iff_eq, Bool.or_eq_true, bne_iff_ne]
  exact ⟨h4, h⟩

theorem yearOfEra_spec {n : Int} (h0 : 0 ≤ n) (h1 : n < 146097) : InYear n (yearOfEra n) := by
  by_cases hlast : n = 146096
  · subst hlast
    have hy : yearOfEra 146096 = 399 := by decide
    rw [hy]
    exact ⟨by decide, by decide, by decide, by decide, fun _ => by decide⟩
  -- A day is day `s` of the cycle `q` of four years of a century `c`.
  obtain ⟨c, hc⟩ : ∃ c, c = n / 36524 := ⟨_, rfl⟩
  obtain ⟨q, hq⟩ : ∃ q, q = n % 36524 / 1461 := ⟨_, rfl⟩
  obtain ⟨s, hs⟩ : ∃ s, s = n % 36524 % 1461 := ⟨_, rfl⟩
  have hn : n = 36524 * c + 1461 * q + s := by omega
  have hc3 : 0 ≤ c ∧ c ≤ 3 := by omega
  have hq24 : 0 ≤ q ∧ q ≤ 24 := by omega
  have hs1460 : 0 ≤ s ∧ s ≤ 1460 := by omega
  have hsq : q = 24 → s ≤ 1459 := by omega
  obtain ⟨k, hk⟩ : ∃ k, k = (24 * c + q + s) / 1460 := ⟨_, rfl⟩
  have hdiv : n / 1460 = 25 * c + q + k := by omega
  have hera : n / 146096 = 0 := by omega
  obtain ⟨m, hm⟩ : ∃ m, m = (s - k) / 365 := ⟨_, rfl⟩
  have hyear : yearOfEra n = 100 * c + 4 * q + m := by
    rw [yearOfEra, hdiv, hera, ← hc]
    omega
  have hm3 : 0 ≤ m ∧ m ≤ 3 := by omega
  have hsm : 365 * m ≤ s ∧ s ≤ 365 * m + 365 := by omega
  have hstart : startOfYear (yearOfEra n) = 36524 * c + 1461 * q + 365 * m := by
    have h4 : (100 * c + 4 * q + m) / 4 = 25 * c + q := by omega
    have h100 : (100 * c + 4 * q + m) / 100 = c := by omega
    rw [hyear, startOfYear, h4, h100]
    omega
  refine ⟨by omega, by omega, by omega, by omega, fun h => ?_⟩
  -- Only the fourth year of a cycle that has all its days comes to that.
  have hend : s = 365 * m + 365 := by omega
  have hk0 : m ≤ 2 → k = 0 := by omega
  have hlast : m = 3 := by omega
  rw [hyear]
  exact isLeapYear_of_mod (by omega) (.inl (by omega))

/-- Where a day of a year that begins in March lies: the month, counted from March, and the day of
the month. -/
theorem month_spec {n : Int} (h0 : 0 ≤ n) (h1 : n ≤ 365) :
    0 ≤ (5 * n + 2) / 153 ∧ (5 * n + 2) / 153 ≤ 11 ∧
      (153 * ((5 * n + 2) / 153) + 2) / 5 ≤ n ∧
      n ≤ (153 * ((5 * n + 2) / 153) + 2) / 5 + 30 := by
  refine ⟨by omega, by omega, by omega, by omega⟩

namespace Date

/-- A date by its era, the year of it that begins in March, the month of that counted from March and
the day of the month. -/
def ofParts (era y m day : Int) : Date :=
  let month := if m < 10 then m + 3 else m - 9
  ⟨if month ≤ 2 then y + era * 400 + 1 else y + era * 400, month.toNat, day.toNat⟩

theorem ofDays_eq (z : Int) : ∃ era y n : Int, z + 719468 = era * 146097 + startOfYear y + n ∧
    InYear (startOfYear y + n) y ∧ 0 ≤ n ∧ n ≤ 365 ∧
      ofDays z = ofParts era y ((5 * n + 2) / 153) (n - (153 * ((5 * n + 2) / 153) + 2) / 5 + 1) := by
  have hyear := yearOfEra_spec (n := (z + 719468) % 146097) (by omega) (by omega)
  refine ⟨(z + 719468) / 146097, yearOfEra ((z + 719468) % 146097),
    (z + 719468) % 146097 - startOfYear (yearOfEra ((z + 719468) % 146097)), ?_, ?_, ?_, ?_, rfl⟩
  · omega
  · rw [show ∀ a b : Int, a + (b - a) = b by omega]
    exact hyear
  · have := hyear.start_le
    omega
  · have := hyear.le_end
    omega

variable {era y n m : Int}

/-- Its month tells where a date of the year that begins in March lies. -/
theorem toDays_ofParts (hy0 : 0 ≤ y) (hy1 : y < 400) (hm0 : 0 ≤ m) (hm1 : m ≤ 11)
    (hn : (153 * m + 2) / 5 ≤ n) :
    (ofParts era y m (n - (153 * m + 2) / 5 + 1)).toDays =
      era * 146097 + startOfYear y + n - 719468 := by
  by_cases hm : m < 10
  · have hmonth : ¬m + 3 ≤ 2 := by omega
    have hnat : ¬(m + 3).toNat ≤ 2 := by omega
    simp only [ofParts, toDays, startOfYear, if_pos hm, if_neg hmonth, if_neg hnat]
    omega
  · have hmonth : m - 9 ≤ 2 := by omega
    have hnat : (m - 9).toNat ≤ 2 := by omega
    simp only [ofParts, toDays, startOfYear, if_neg hm, if_pos hmonth, if_pos hnat]
    omega

theorem valid_mk {year : Int} {month day : Nat} (h1 : 1 ≤ month) (h2 : month ≤ 12) (h3 : 1 ≤ day)
    (h4 : day ≤ daysInMonth year month) : valid ⟨year, month, day⟩ = true := by
  simp [valid, h1, h2, h3, h4]

theorem daysInMonth_of_ne {k : Nat} (year : Int) (h : k ≠ 2) :
    daysInMonth year k = if k = 4 ∨ k = 6 ∨ k = 9 ∨ k = 11 then 30 else 31 := by
  simp [daysInMonth, h, or_assoc]

theorem isLeapYear_add_era (y era : Int) : isLeapYear (y + era * 400 + 1) = isLeapYear (y + 1) := by
  have h4 : (y + era * 400 + 1) % 4 = (y + 1) % 4 := by omega
  have h100 : (y + era * 400 + 1) % 100 = (y + 1) % 100 := by omega
  have h400 : (y + era * 400 + 1) % 400 = (y + 1) % 400 := by omega
  rw [isLeapYear, isLeapYear, h4, h100, h400]

/-- The days of a year that begins in March are in its months, its last one in February only if that
is a leap day. -/
theorem valid_ofParts (h0 : 0 ≤ n) (h1 : n ≤ 365) (hleap : n = 365 → isLeapYear (y + 1) = true) :
    (ofParts era y ((5 * n + 2) / 153) (n - (153 * ((5 * n + 2) / 153) + 2) / 5 + 1)).valid =
      true := by
  obtain ⟨m, hm⟩ : ∃ m, m = (5 * n + 2) / 153 := ⟨_, rfl⟩
  obtain ⟨hm0, hm11, hlo, hhi⟩ := month_spec h0 h1
  rw [← hm] at hm0 hm11 hlo hhi ⊢
  by_cases h11 : m = 11
  · subst h11
    show valid ⟨y + era * 400 + 1, 2, (n - 337 + 1).toNat⟩ = true
    refine valid_mk (by decide) (by decide) (by omega) ?_
    show _ ≤ if isLeapYear (y + era * 400 + 1) then 29 else 28
    rw [isLeapYear_add_era]
    by_cases hn : n = 365
    · rw [if_pos (hleap hn)]
      omega
    · split <;> omega
  · obtain ⟨k, hk⟩ : ∃ k : Nat, k = (if m < 10 then m + 3 else m - 9).toNat := ⟨_, rfl⟩
    have hk2 : 1 ≤ k ∧ k ≤ 12 ∧ k ≠ 2 := by omega
    have hday : (n - (153 * m + 2) / 5 + 1).toNat ≤ if k = 4 ∨ k = 6 ∨ k = 9 ∨ k = 11 then 30 else 31 := by
      split <;> omega
    rw [ofParts, ← hk]
    refine valid_mk hk2.1 hk2.2.1 (by omega) ?_
    rw [daysInMonth_of_ne _ hk2.2.2]
    exact hday

/-- The date of a day is one of the calendar. -/
theorem valid_ofDays (z : Int) : (ofDays z).valid = true := by
  obtain ⟨era, y, n, -, hy, h0, h1, hof⟩ := ofDays_eq z
  rw [hof]
  exact valid_ofParts h0 h1 fun hn => hy.leap (by rw [hn])

/-- The day of the date of a day is that day. -/
theorem toDays_ofDays (z : Int) : (ofDays z).toDays = z := by
  obtain ⟨era, y, n, hz, hy, h0, h1, hof⟩ := ofDays_eq z
  obtain ⟨hm0, hm11, hlo, -⟩ := month_spec h0 h1
  rw [hof, toDays_ofParts hy.year_nonneg hy.year_lt hm0 hm11 hlo]
  omega

end Date

end SensorCache.Time
