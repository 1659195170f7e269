import Mathlib.Algebra.Group.Nat.Defs
import SensorCache.Proofs.Number.Numerals
import SensorCache.Proofs.Text.Lines
import SensorCache.Proofs.Time.Calendar
import SensorCache.Time.UtcTime

/-!
# Reading back times

The text of a time is read as that time (`UtcTime.parse?_text`), for every time that can be named: years
outside 0 to 9999 have a sign that says where their digits end, fractions have three, six or nine
digits, and a leap second is second 60. Each reader takes off what the writer of its part put down
and leaves what follows.
-/

namespace SensorCache.Time

open SensorCache.Text

/-! ## Digits -/

theorem isDigit_ofNat : ∀ n < 10, (Char.ofNat (n + 48)).isDigit = true ∧
    (Char.ofNat (n + 48)).toNat - 48 = n := by decide

theorem length_fixedDigits : ∀ n v : Nat, (fixedDigits n v).length = n
  | 0, _ => rfl
  | n + 1, v => by rw [fixedDigits, List.length_append, length_fixedDigits n]; rfl

theorem isDigit_fixedDigits : ∀ n v : Nat, ∀ c ∈ fixedDigits n v, c.isDigit = true
  | 0, _, c, hc => nomatch hc
  | n + 1, v, c, hc => by
    rcases List.mem_append.mp hc with hc | hc
    · exact isDigit_fixedDigits n _ c hc
    · rw [List.mem_singleton.mp hc]
      exact (isDigit_ofNat _ (Nat.mod_lt v (by decide))).1

theorem digitsValue_append (a b : List Char) :
    digitsValue (a ++ b) = b.foldl (fun n c => 10 * n + (c.toNat - 48)) (digitsValue a) :=
  List.foldl_append

theorem digitsValue_fixedDigits : ∀ n v : Nat, digitsValue (fixedDigits n v) = v % 10 ^ n
  | 0, v => by rw [Nat.pow_zero, Nat.mod_one]; rfl
  | n + 1, v => by
    rw [fixedDigits, digitsValue_append, digitsValue_fixedDigits n, List.foldl_cons, List.foldl_nil,
      (isDigit_ofNat _ (Nat.mod_lt v (by decide))).2, Nat.pow_succ, Nat.mul_comm (10 ^ n) 10,
      Nat.mod_mul]
    omega

theorem digitsValue_toDigits (n : Nat) : digitsValue (Nat.toDigits 10 n) = n := by
  have h := Numeral.value_digitsOf n
  rw [Numeral.digitsOf, Numeral.value, List.foldl_map] at h
  exact h

/-- What is a number: some digits. -/
structure Number (s : List Char) (n : Nat) : Prop where
  ne_nil : s ≠ []
  digits : ∀ c ∈ s, c.isDigit = true
  value : digitsValue s = n

theorem number_fixedDigits {n v : Nat} (hn : 0 < n) (hv : v < 10 ^ n) :
    Number (fixedDigits n v) v := by
  refine ⟨fun h => ?_, isDigit_fixedDigits n v, ?_⟩
  · have hlen := length_fixedDigits n v
    rw [h] at hlen
    simp only [List.length_nil] at hlen
    omega
  · rw [digitsValue_fixedDigits, Nat.mod_eq_of_lt hv]

theorem number_atLeastFour (n : Nat) : Number (atLeastFour n) n := by
  unfold atLeastFour
  split
  · next h => exact number_fixedDigits (by decide) (by omega)
  · exact ⟨Nat.toDigits_ne_nil, fun c hc => Nat.isDigit_of_mem_toDigits (by decide) (by decide) hc,
      digitsValue_toDigits n⟩

theorem trimStart_number {s : List Char} {n : Nat} (h : Number s n) (rest : List Char) :
    trimStart (s ++ rest) = s ++ rest := by
  obtain _ | ⟨c, r⟩ := s
  · exact absurd rfl h.ne_nil
  · exact trimStart_cons (isBlank_of_isDigit (h.digits c (by simp))) _

theorem takeWhile_digits {s : List Char} (h : ∀ c ∈ s, c.isDigit = true) {rest : List Char}
    (hrest : ∀ c ∈ rest.head?, c.isDigit = false) : (s ++ rest).takeWhile Char.isDigit = s := by
  rw [List.takeWhile_append_of_pos h]
  cases rest with
  | nil => simp
  | cons c r => simp [hrest c rfl]

/-- A number is read if it has as many digits as are read, or what follows is no digit. -/
theorem readNumber_number {s : List Char} {n m : Nat} (h : Number s n) (hlen : s.length ≤ m)
    {r : List Char} (hrest : s.length = m ∨ ∀ c ∈ r.head?, c.isDigit = false) :
    readNumber m (s ++ r) = some (n, r) := by
  have htake : ((s ++ r).take m).takeWhile Char.isDigit = s := by
    rw [List.take_append, List.take_of_length_le hlen]
    refine takeWhile_digits h.digits fun c hc => ?_
    rcases hrest with hrest | hrest
    · simp [hrest] at hc
    · rw [List.head?_take] at hc
      split at hc
      · cases hc
      · exact hrest c hc
  unfold readNumber
  rw [htake, if_neg (by simpa using h.ne_nil), h.value, List.drop_left]

theorem readField_fixedDigits {v : Nat} (hv : v < 100) (rest : List Char) :
    readField (fixedDigits 2 v ++ rest) = some (v, rest) := by
  have hnumber := number_fixedDigits (n := 2) (by decide) hv
  have hlen := length_fixedDigits 2 v
  rw [readField, trimStart_number hnumber]
  exact readNumber_number hnumber (Nat.le_of_eq hlen) (.inl hlen)

theorem readMark_cons {c : Char} (h : isBlank c = false) (r : List Char) :
    readMark c (c :: r) = some r := by
  rw [readMark, trimStart_cons h]
  exact if_pos rfl

/-! ## Dates -/

/-- The first digit of a number, which tells that it has no sign. -/
theorem number_cons {s : List Char} {n : Nat} (h : Number s n) :
    ∃ c r, s = c :: r ∧ c ≠ '-' ∧ c ≠ '+' := by
  obtain _ | ⟨c, r⟩ := s
  · exact absurd rfl h.ne_nil
  · refine ⟨c, r, rfl, ?_, ?_⟩ <;>
      · rintro rfl
        cases h.digits _ (List.mem_cons_self ..)

theorem readYear_yearText (y : Int) (rest : List Char)
    (hrest : ∀ c ∈ rest.head?, c.isDigit = false) :
    readYear (yearText y ++ rest) = some (y, rest) := by
  unfold yearText
  split
  · -- Four digits without a sign: whatever follows, no more of it is taken.
    next h =>
    simp only [Bool.and_eq_true, decide_eq_true_eq] at h
    have hnumber := number_fixedDigits (n := 4) (v := y.toNat) (by decide) (by omega)
    have hlen := length_fixedDigits 4 y.toNat
    have hread := readNumber_number (r := rest) hnumber (Nat.le_of_eq hlen) (.inl hlen)
    have htrim := trimStart_number hnumber rest
    obtain ⟨c, r, hcr, hminus, hplus⟩ := number_cons hnumber
    rw [hcr, List.cons_append] at hread htrim ⊢
    unfold readYear
    rw [htrim]
    split
    · next heq => exact absurd (List.cons.inj heq).1 hminus
    · next heq => exact absurd (List.cons.inj heq).1 hplus
    · rw [hread, Option.map_some]
      simp only [Option.some.injEq, Prod.mk.injEq, and_true]
      omega
  · -- Digits after a sign are taken as far as they go.
    next h =>
    simp only [Bool.and_eq_true, decide_eq_true_eq, not_and] at h
    have hread := readNumber_number (m := (atLeastFour y.natAbs ++ rest).length)
      (number_atLeastFour y.natAbs) (by rw [List.length_append]; omega) (.inr hrest)
    rw [List.cons_append, readYear]
    by_cases hy : y < 0
    · rw [if_pos hy, trimStart_cons (by decide)]
      show (readNumber _ _).map _ = _
      rw [hread, Option.map_some]
      simp only [Option.some.injEq, Prod.mk.injEq, and_true]
      omega
    · rw [if_neg hy, trimStart_cons (by decide)]
      show (readNumber _ _).map _ = _
      rw [hread, Option.map_some]
      simp only [Option.some.injEq, Prod.mk.injEq, and_true]
      omega

theorem notDigit_cons {c : Char} (h : c.isDigit = false) (r : List Char) :
    ∀ d ∈ (c :: r).head?, d.isDigit = false := by
  intro d hd
  cases hd
  exact h

theorem month_day_of_valid {d : Date} (h : d.valid = true) : d.month < 100 ∧ d.day < 100 := by
  simp only [Date.valid, Bool.and_eq_true, decide_eq_true_eq] at h
  have hdays : daysInMonth d.year d.month ≤ 31 := by
    unfold daysInMonth
    split
    · split <;> decide
    · split <;> decide
  omega

theorem readDate_dateText {m : Moment} (h : dayInRange m.day = true) (rest : List Char) :
    readDate (m.dateText ++ rest) = some (Date.ofDays m.day, rest) := by
  have hvalid := Date.valid_ofDays m.day
  obtain ⟨hmonth, hday⟩ := month_day_of_valid hvalid
  have hyear := readYear_yearText (Date.ofDays m.day).year ('-' ::
    (fixedDigits 2 (Date.ofDays m.day).month ++ '-' ::
      (fixedDigits 2 (Date.ofDays m.day).day ++ rest))) (notDigit_cons (by decide) _)
  have hcond : ((Date.ofDays m.day).valid && dayInRange (Date.ofDays m.day).toDays) = true := by
    rw [hvalid, Date.toDays_ofDays, h, Bool.and_self]
  rw [Moment.dateText]
  simp only [List.append_assoc, List.cons_append, readDate, hyear, Option.bind_eq_bind,
    Option.bind_some, readMark_cons (by decide : isBlank '-' = false), readField_fixedDigits hmonth,
    readField_fixedDigits hday, hcond, if_true, Option.pure_def]

/-! ## Times of day -/

theorem readFraction_digits {n v : Nat} (hn : 0 < n) (h9 : n ≤ 9) (hv : v < 10 ^ n)
    {rest : List Char} (hrest : ∀ c ∈ rest.head?, c.isDigit = false) :
    readFraction ('.' :: (fixedDigits n v ++ rest)) = some (v * 10 ^ (9 - n), rest) := by
  have hnumber := number_fixedDigits hn hv
  have hlen := length_fixedDigits n v
  have htake := takeWhile_digits hnumber.digits hrest
  have hkept : (fixedDigits n v).take 9 = fixedDigits n v := List.take_of_length_le (by omega)
  rw [readFraction, htake, if_neg (by simpa using hnumber.ne_nil), hkept]
  show some (digitsValue _ * 10 ^ (9 - _), List.drop _ _) = _
  rw [hnumber.value, List.drop_left, hlen]

theorem readFraction_fractionText {nano : Nat} (h : nano < nanosPerSecond) {rest : List Char}
    (hrest : ∀ c ∈ rest.head?, c.isDigit = false ∧ c ≠ '.') :
    readFraction (fractionText nano ++ rest) = some (nano, rest) := by
  have hdigit : ∀ c ∈ rest.head?, c.isDigit = false := fun c hc => (hrest c hc).1
  have hbound : nano < 1000000000 := h
  unfold fractionText
  split
  · next hzero =>
    rw [beq_iff_eq] at hzero
    show readFraction rest = _
    unfold readFraction
    split
    · exact absurd rfl (hrest '.' rfl).2
    · rw [hzero]
  split
  · next hmod =>
    rw [beq_iff_eq] at hmod
    rw [List.cons_append, readFraction_digits (by decide) (by decide) (by omega) hdigit]
    simp only [Option.some.injEq, Prod.mk.injEq, and_true]
    omega
  split
  · next hmod =>
    rw [beq_iff_eq] at hmod
    rw [List.cons_append, readFraction_digits (by decide) (by decide) (by omega) hdigit]
    simp only [Option.some.injEq, Prod.mk.injEq, and_true]
    omega
  · rw [List.cons_append, readFraction_digits (by decide) (by decide) hbound hdigit]
    simp only [Option.some.injEq, Prod.mk.injEq, and_true]
    omega

/-- Three numbers of two digits, a fraction and what follows are read as a time of day. -/
theorem readClock_numbers (hour minute second nano : Nat) (hh : hour ≤ 23) (hm : minute ≤ 59)
    (hs : second ≤ 60) (hn : nano < nanosPerSecond) {rest : List Char}
    (hrest : ∀ c ∈ rest.head?, c.isDigit = false ∧ c ≠ '.') :
    readClock (fixedDigits 2 hour ++ ':' :: (fixedDigits 2 minute ++ ':' ::
      (fixedDigits 2 second ++ (fractionText nano ++ rest)))) =
        if second = 60 then
          some ((hour * 3600 + minute * 60 + 59, nano + nanosPerSecond), rest)
        else some ((hour * 3600 + minute * 60 + second, nano), rest) := by
  have hcond : ¬(23 < hour || 59 < minute || 60 < second) = true := by
    simp only [Bool.or_eq_true, decide_eq_true_eq]
    omega
  simp only [readClock, readField_fixedDigits (show hour < 100 by omega),
    readField_fixedDigits (show minute < 100 by omega),
    readField_fixedDigits (show second < 100 by omega),
    readMark_cons (show isBlank ':' = false by decide), readFraction_fractionText hn hrest,
    Option.bind_eq_bind, Option.bind_some, if_neg hcond, beq_iff_eq, Option.pure_def]

/-- What a moment that can be named is like. -/
theorem valid_iff {m : Moment} : m.valid = true ↔ dayInRange m.day = true ∧ m.second < 86400 ∧
    (m.nano < nanosPerSecond ∨ m.nano < 2 * nanosPerSecond ∧ m.second % 60 = 59) := by
  simp only [Moment.valid, Bool.and_eq_true, Bool.or_eq_true, decide_eq_true_eq, beq_iff_eq,
    and_assoc]
  exact Iff.rfl

/-- The clock of a moment is read as its second and its nanosecond. -/
theorem readClock_clockText {m : Moment} (h : m.valid = true) (rest : List Char)
    (hrest : ∀ c ∈ rest.head?, c.isDigit = false ∧ c ≠ '.') :
    readClock (m.clockText ++ rest) = some ((m.second, m.nano), rest) := by
  obtain ⟨-, hsecond, hnano⟩ := valid_iff.mp h
  have hper : nanosPerSecond = 1000000000 := rfl
  by_cases hleap : nanosPerSecond ≤ m.nano
  · -- Within a leap second the seconds are written one higher, and are read back as the last.
    have hread := readClock_numbers (m.second / 3600) (m.second / 60 % 60) (m.second % 60 + 1)
      (m.nano - nanosPerSecond) (by omega) (by omega) (by omega) (by omega) hrest
    rw [if_pos (by omega)] at hread
    simp only [Moment.clockText, if_pos hleap, List.append_assoc, List.cons_append, hread,
      Option.some.injEq, Prod.mk.injEq, and_true]
    omega
  · have hread := readClock_numbers (m.second / 3600) (m.second / 60 % 60) (m.second % 60 + 0)
      m.nano (by omega) (by omega) (by omega) (by omega) hrest
    rw [if_neg (by omega)] at hread
    simp only [Moment.clockText, if_neg hleap, List.append_assoc, List.cons_append, hread,
      Option.some.injEq, Prod.mk.injEq, and_true]
    omega

/-! ## Times -/

theorem addOffset_zero {m : Moment} (h : m.second < 86400) : m.addOffset 0 = m := by
  obtain ⟨day, second, nano⟩ := m
  have hsecond : second < 86400 := h
  have hper : (secondsPerDay : Int) = 86400 := rfl
  simp only [Moment.addOffset, Moment.ofUnix, Moment.unixSeconds, hper, Moment.mk.injEq, and_true]
  omega

theorem readOffset_utc : readOffset ['Z'] = some (0, []) := by decide

/-- A time is read from its text. -/
theorem UtcTime.parse?_text (t : UtcTime) : UtcTime.parse? t.text = some t := by
  obtain ⟨m, h⟩ := t
  obtain ⟨hday, hsecond, -⟩ := valid_iff.mp h
  have hclock := readClock_clockText h ['Z'] fun c hc => by cases hc; decide
  have hmoment : Moment.addOffset ⟨(Date.ofDays m.day).toDays, m.second, m.nano⟩ (-0) = m := by
    rw [Date.toDays_ofDays]
    exact addOffset_zero hsecond
  simp only [UtcTime.text, List.append_assoc, List.cons_append, UtcTime.parse?,
    readDate_dateText hday, Option.bind_eq_bind, Option.bind_some]
  rw [if_pos (by decide), hclock, Option.bind_some, readOffset_utc, Option.bind_some,
    if_neg (by decide)]
  simp only [hmoment, h, dif_pos, Option.pure_def]

end SensorCache.Time
