import SensorCache.Proofs.Text.Blanks
import SensorCache.Proofs.Time.UtcTime
import SensorCache.Time.Clock

/-!
# Which texts name a time of day

A time of day is written as hours and minutes, or hours, minutes and seconds, with colons between
them (`ClockText`): numbers of one or two digits, each of which may have blanks before it. The texts
that are read as a time are those with blanks around them, and no others (`parse?_eq_some_iff`).
-/

namespace SensorCache.Time

open SensorCache.Text

/-! ## Numbers with colons between them -/

/-- A number of one or two digits, with blanks before it. -/
def ClockField (s : List Char) (v : Nat) : Prop :=
  ∃ blanks digits, s = blanks ++ digits ∧ allBlank blanks = true ∧ Number digits v ∧
    digits.length ≤ 2

/-- Numbers with colons between them. -/
inductive ClockFields : List Char → List Nat → Prop where
  | last {s : List Char} {v : Nat} : ClockField s v → ClockFields s [v]
  | colon {s r : List Char} {v : Nat} {vs : List Nat} : ClockField s v → ClockFields r vs →
    ClockFields (s ++ ':' :: r) (v :: vs)

variable {s r : List Char} {v n : Nat} {vs : List Nat} {t : TimeOfDay}

theorem number_digit {a : Char} (ha : a.isDigit = true) : Number [a] (a.toNat - 48) := by
  refine ⟨by simp, by simpa using ha, ?_⟩
  simp [digitsValue]

theorem number_digits {a b : Char} (ha : a.isDigit = true) (hb : b.isDigit = true) :
    Number [a, b] (10 * (a.toNat - 48) + (b.toNat - 48)) := by
  refine ⟨by simp, by simp [ha, hb], ?_⟩
  simp [digitsValue]

/-- What is read as a number is one. -/
theorem field_of_clockNumber? (h : clockNumber? s = some (v, r)) :
    ∃ f, s = f ++ r ∧ ClockField f v := by
  obtain ⟨blanks, hs, hblanks⟩ := exists_trimStart s
  have hfield : ∀ {digits : List Char}, Number digits v → digits.length ≤ 2 →
      trimStart s = digits ++ r → ∃ f, s = f ++ r ∧ ClockField f v := by
    intro digits hnumber hlen htrim
    refine ⟨blanks ++ digits, ?_, ⟨blanks, digits, rfl, hblanks, hnumber, hlen⟩⟩
    rw [List.append_assoc, ← htrim]
    exact hs
  unfold clockNumber? at h
  split at h
  · next a r' htrim =>
    cases ha : a.isDigit with
    | false =>
      rw [ha] at h
      cases h
    | true =>
      rw [ha] at h
      simp only [Bool.not_true, Bool.false_eq_true, if_false] at h
      split at h
      · next b t =>
        cases hb : b.isDigit with
        | true =>
          rw [if_pos hb] at h
          cases h
          exact hfield (number_digits ha hb) (by simp) htrim
        | false =>
          rw [if_neg (by simp [hb])] at h
          cases h
          exact hfield (number_digit ha) (by simp) htrim
      · cases h
        exact hfield (number_digit ha) (by simp) htrim
  · cases h

/-- A number is read if no digit follows. -/
theorem clockNumber?_field (h : ClockField s v) (hr : ∀ c ∈ r.head?, c.isDigit = false) :
    clockNumber? (s ++ r) = some (v, r) := by
  obtain ⟨blanks, digits, rfl, hblanks, hnumber, hlen⟩ := h
  have htrim : trimStart (blanks ++ digits ++ r) = digits ++ r := by
    rw [List.append_assoc, trimStart_append hblanks, trimStart_number hnumber]
  have hvalue := hnumber.value
  unfold clockNumber?
  rw [htrim]
  match digits, hnumber, hlen with
  | [], hnumber, _ => exact absurd rfl hnumber.ne_nil
  | [a], hnumber, _ =>
    have ha : a.isDigit = true := hnumber.digits a (by simp)
    have hv : a.toNat - 48 = v := by simpa [digitsValue] using hvalue
    cases r with
    | nil => simp [ha, hv]
    | cons c r => simp [ha, hr c rfl, hv]
  | [a, b], hnumber, _ =>
    have ha : a.isDigit = true := hnumber.digits a (by simp)
    have hb : b.isDigit = true := hnumber.digits b (by simp)
    have hv : 10 * (a.toNat - 48) + (b.toNat - 48) = v := by simpa [digitsValue] using hvalue
    simp [ha, hb, hv]

theorem clockNumbers?_eq_some_iff :
    clockNumbers? n s = some vs ↔ ClockFields s vs ∧ vs.length ≤ n + 1 := by
  constructor
  · intro h
    induction n generalizing s vs with
    | zero =>
      simp only [clockNumbers?, Option.bind_eq_bind, Option.bind_eq_some_iff, Prod.exists] at h
      obtain ⟨v, r, hnumber, hend⟩ := h
      obtain ⟨f, rfl, hf⟩ := field_of_clockNumber? hnumber
      split at hend
      · next hr =>
        cases hend
        rw [List.isEmpty_iff.mp hr, List.append_nil]
        exact ⟨.last hf, by simp⟩
      · cases hend
    | succ n ih =>
      simp only [clockNumbers?, Option.bind_eq_bind, Option.bind_eq_some_iff, Prod.exists] at h
      obtain ⟨v, r, hnumber, hend⟩ := h
      obtain ⟨f, rfl, hf⟩ := field_of_clockNumber? hnumber
      split at hend
      · cases hend
        rw [List.append_nil]
        exact ⟨.last hf, by simp⟩
      · next c r =>
        split at hend
        · next hc =>
          obtain rfl : c = ':' := by simpa using hc
          obtain ⟨ws, hws, rfl⟩ := Option.map_eq_some_iff.mp hend
          obtain ⟨hfields, hlen⟩ := ih hws
          exact ⟨.colon hf hfields, by simpa using hlen⟩
        · cases hend
  · rintro ⟨h, hlen⟩
    induction h generalizing n with
    | @last s v hf =>
      have hnumber := clockNumber?_field (r := []) hf nofun
      rw [List.append_nil] at hnumber
      cases n <;> simp [clockNumbers?, hnumber]
    | @colon s r v vs hf hfields ih =>
      have hnumber := clockNumber?_field (r := ':' :: r) hf (by simp)
      cases n with
      | zero =>
        cases hfields <;> simp at hlen
      | succ n =>
        have hrest := ih (n := n) (by simpa using hlen)
        simp [clockNumbers?, hnumber, hrest]

/-! ## Times -/

/-- A text of hours and minutes, or of hours, minutes and seconds. A second 60 is the leap second
after second 59. -/
inductive ClockText : List Char → TimeOfDay → Prop where
  | minutes {s : List Char} {h m : Nat} : ClockFields s [h, m] → h < 24 → m < 60 →
    ClockText s ⟨3600 * h + 60 * m, 0⟩
  | seconds {s : List Char} {h m sec : Nat} : ClockFields s [h, m, sec] → h < 24 → m < 60 →
    sec < 60 → ClockText s ⟨3600 * h + 60 * m + sec, 0⟩
  | leap {s : List Char} {h m : Nat} : ClockFields s [h, m, 60] → h < 24 → m < 60 →
    ClockText s ⟨3600 * h + 60 * m + 59, nanosPerSecond⟩

/-- The text names the time, with blanks around it. -/
def TimeOfDay.NamedBy (t : TimeOfDay) (s : List Char) : Prop :=
  ∃ before text after, s = before ++ text ++ after ∧ allBlank before = true ∧
    allBlank after = true ∧ ClockText text t

theorem TimeOfDay.ofNumbers?_eq_some_iff {h m sec : Nat} :
    TimeOfDay.ofNumbers? h m sec = some t ↔ h < 24 ∧ m < 60 ∧
      (sec < 60 ∧ t = ⟨3600 * h + 60 * m + sec, 0⟩ ∨
        sec = 60 ∧ t = ⟨3600 * h + 60 * m + 59, nanosPerSecond⟩) := by
  unfold ofNumbers?
  split
  · next hout =>
    simp only [Bool.or_eq_true, decide_eq_true_eq] at hout
    simp only [reduceCtorEq, false_iff]
    omega
  · next hin =>
    simp only [Bool.or_eq_true, decide_eq_true_eq, not_or, Nat.not_le] at hin
    split
    · next hleap => simp [hin, hleap, eq_comm]
    · next hleap =>
      have hsec : sec < 60 := by omega
      simp [hin, hleap, hsec, eq_comm]

/-- The first number may lose the blanks before it. -/
theorem ClockFields.exists_digits (h : ClockFields s vs) : ∃ blanks text, s = blanks ++ text ∧
    allBlank blanks = true ∧ (∀ c ∈ text.head?, isBlank c = false) ∧ ClockFields text vs := by
  have hfield : ∀ {f : List Char} {v : Nat}, ClockField f v → ∃ blanks digits, f = blanks ++ digits ∧
      allBlank blanks = true ∧ (∀ r, ∀ c ∈ (digits ++ r).head?, isBlank c = false) ∧
        ClockField digits v := by
    rintro f v ⟨blanks, digits, rfl, hblanks, hnumber, hlen⟩
    refine ⟨blanks, digits, rfl, hblanks, fun r c hc => ?_, [], digits, rfl, rfl, hnumber, hlen⟩
    obtain ⟨a, ds, rfl⟩ := List.exists_cons_of_ne_nil hnumber.ne_nil
    rw [← Option.some.inj hc]
    exact isBlank_of_isDigit (hnumber.digits a List.mem_cons_self)
  cases h with
  | last hf =>
    obtain ⟨blanks, digits, rfl, hblanks, hfirst, hdigits⟩ := hfield hf
    refine ⟨blanks, digits, rfl, hblanks, fun c hc => hfirst [] c ?_, .last hdigits⟩
    rwa [List.append_nil]
  | colon hf hr =>
    obtain ⟨blanks, digits, rfl, hblanks, hfirst, hdigits⟩ := hfield hf
    exact ⟨blanks, _, List.append_assoc _ _ _, hblanks, hfirst _, .colon hdigits hr⟩

theorem ClockFields.getLast? (h : ClockFields s vs) : ∃ c, s.getLast? = some c ∧ c.isDigit = true := by
  have hfield : ∀ {f : List Char} {v : Nat}, ClockField f v →
      ∃ c, f.getLast? = some c ∧ c.isDigit = true := by
    rintro f v ⟨blanks, digits, rfl, -, hnumber, -⟩
    refine ⟨digits.getLast hnumber.ne_nil, ?_, hnumber.digits _ (List.getLast_mem _)⟩
    rw [List.getLast?_append, List.getLast?_eq_some_getLast hnumber.ne_nil]
    rfl
  induction h with
  | last hf => exact hfield hf
  | colon hf _ ih =>
    obtain ⟨c, hc, hdigit⟩ := ih
    refine ⟨c, ?_, hdigit⟩
    rw [List.getLast?_append, List.getLast?_cons, hc]
    rfl

/-- Numbers with colons between them are read also with blanks around them. -/
theorem ClockFields.clockNumbers?_trim {before after : List Char} (h : ClockFields s vs)
    (hlen : vs.length ≤ n + 1) (hbefore : allBlank before = true) (hafter : allBlank after = true) :
    clockNumbers? n (trim (before ++ s ++ after)) = some vs := by
  obtain ⟨blanks, text, rfl, hblanks, hfirst, htext⟩ := h.exists_digits
  have hlast : ∀ c ∈ text.getLast?, isBlank c = false := by
    intro c hc
    obtain ⟨c', hc', hdigit⟩ := htext.getLast?
    rw [hc'] at hc
    cases hc
    exact isBlank_of_isDigit hdigit
  have hbefore' : allBlank (before ++ blanks) = true := by
    rw [allBlank_append, hbefore, hblanks]
    rfl
  rw [← List.append_assoc before, trim_padded hbefore' hafter hfirst hlast]
  exact clockNumbers?_eq_some_iff.mpr ⟨htext, hlen⟩

/-- A text is read as the time that it names, and other texts are not read. -/
theorem TimeOfDay.parse?_eq_some_iff : TimeOfDay.parse? s = some t ↔ t.NamedBy s := by
  constructor
  · intro h
    obtain ⟨vs, hvs, h⟩ := Option.bind_eq_some_iff.mp h
    obtain ⟨hfields, -⟩ := clockNumbers?_eq_some_iff.mp hvs
    obtain ⟨before, after, hs, hbefore, hafter⟩ := exists_trim s
    refine ⟨before, trim s, after, hs, hbefore, hafter, ?_⟩
    split at h
    · obtain ⟨hh, hm, ⟨-, rfl⟩ | ⟨hsec, -⟩⟩ := ofNumbers?_eq_some_iff.mp h
      · exact .minutes hfields hh hm
      · cases hsec
    · obtain ⟨hh, hm, ⟨hsec, rfl⟩ | ⟨rfl, rfl⟩⟩ := ofNumbers?_eq_some_iff.mp h
      · exact .seconds hfields hh hm hsec
      · exact .leap hfields hh hm
    · cases h
  · rintro ⟨before, text, after, rfl, hbefore, hafter, htext⟩
    refine Option.bind_eq_some_iff.mpr ?_
    cases htext with
    | minutes hfields hh hm =>
      refine ⟨_, hfields.clockNumbers?_trim (by simp) hbefore hafter, ?_⟩
      exact ofNumbers?_eq_some_iff.mpr ⟨hh, hm, .inl ⟨by decide, rfl⟩⟩
    | seconds hfields hh hm hsec =>
      refine ⟨_, hfields.clockNumbers?_trim (by simp) hbefore hafter, ?_⟩
      exact ofNumbers?_eq_some_iff.mpr ⟨hh, hm, .inl ⟨hsec, rfl⟩⟩
    | leap hfields hh hm =>
      refine ⟨_, hfields.clockNumbers?_trim (by simp) hbefore hafter, ?_⟩
      exact ofNumbers?_eq_some_iff.mpr ⟨hh, hm, .inr ⟨rfl, rfl⟩⟩

example : TimeOfDay.parse? " 3: 05:60 ".toList = some ⟨11159, nanosPerSecond⟩ := by decide

end SensorCache.Time
