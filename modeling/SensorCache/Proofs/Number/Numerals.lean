import SensorCache.Number.Numeral
import SensorCache.Proofs.Number.Shortest

/-!
# Numerals of numbers

The numeral that a number is written as is one that JSON allows (`WellFormed`): its digits do not
begin with a zero, unless that is the only one, as only zero has no others.
-/

namespace SensorCache

namespace Numeral

/-! ## Digits of natural numbers -/

theorem digitsOf_of_lt {n : Nat} (h : n < 10) : digitsOf n = [n] := by
  rw [digitsOf, Nat.toDigits_of_lt_base h, List.map_singleton,
    Nat.toNat_digitChar_sub_48_of_lt_ten h]

theorem digitsOf_of_le {n : Nat} (h : 10 ≤ n) : digitsOf n = digitsOf (n / 10) ++ [n % 10] := by
  rw [digitsOf, Nat.toDigits_of_base_le (by decide) h, List.map_append, List.map_singleton,
    Nat.toNat_digitChar_sub_48_of_lt_ten (Nat.mod_lt n (by decide)), digitsOf]

theorem digitsOf_ne_nil (n : Nat) : digitsOf n ≠ [] := by
  rw [digitsOf, ne_eq, List.map_eq_nil_iff]
  exact Nat.toDigits_ne_nil

theorem length_digitsOf (n : Nat) : (digitsOf n).length = Decimal.width n := by
  rw [digitsOf, List.length_map, Decimal.width]

theorem lt_ten_of_mem_digitsOf (n : Nat) : ∀ d ∈ digitsOf n, d < 10 := by
  induction n using Nat.strongRecOn with
  | ind n ih =>
    by_cases hn : n < 10
    · simp [digitsOf_of_lt hn, hn]
    · rw [digitsOf_of_le (Nat.le_of_not_lt hn)]
      intro d hd
      rcases List.mem_append.mp hd with hd | hd
      · exact ih (n / 10) (by omega) d hd
      · rw [List.mem_singleton.mp hd]
        omega

theorem value_append (start : Nat) (a b : List Nat) :
    value start (a ++ b) = value (value start a) b := List.foldl_append

theorem value_digitsOf (n : Nat) : value 0 (digitsOf n) = n := by
  induction n using Nat.strongRecOn with
  | ind n ih =>
    by_cases hn : n < 10
    · simp [digitsOf_of_lt hn, value]
    · rw [digitsOf_of_le (Nat.le_of_not_lt hn), value_append, ih (n / 10) (by omega)]
      simp only [value, List.foldl_cons, List.foldl_nil]
      omega

/-- Only the digits of zero begin with a zero. -/
theorem head?_digitsOf {n : Nat} (h : n ≠ 0) : (digitsOf n).head? ≠ some 0 := by
  induction n using Nat.strongRecOn with
  | ind n ih =>
    by_cases hn : n < 10
    · simp [digitsOf_of_lt hn, h]
    · rw [digitsOf_of_le (Nat.le_of_not_lt hn), List.head?_append,
        Option.or_of_isSome (by simpa using digitsOf_ne_nil _)]
      exact ih (n / 10) (by omega) (by omega)

/-! ## Numerals that JSON allows -/

/-- One digit or more. -/
structure Digits (l : List Nat) : Prop where
  ne_nil : l ≠ []
  lt_ten : ∀ d ∈ l, d < 10

theorem digits_digitsOf (n : Nat) : Digits (digitsOf n) :=
  ⟨digitsOf_ne_nil n, lt_ten_of_mem_digitsOf n⟩

/-- The whole digits begin with a zero only if that is the only one. -/
structure WellFormed (n : Numeral) : Prop where
  whole : Digits n.whole
  lead : n.whole.head? = some 0 → n.whole = [0]
  fraction : ∀ f ∈ n.fraction, Digits f
  exponent : ∀ e ∈ n.exponent, Digits e.2

theorem wellFormed_digitsOf (negative : Bool) (n : Nat) :
    WellFormed ⟨negative, digitsOf n, none, none⟩ := by
  refine ⟨digits_digitsOf n, fun h => ?_, (fun _ h => nomatch h), fun _ h => nomatch h⟩
  by_cases hn : n = 0
  · rw [hn]
    exact digitsOf_of_lt (by decide)
  · exact absurd h (head?_digitsOf hn)

theorem digits_replicate_append {k : Nat} {l : List Nat} (h : Digits l) :
    Digits (List.replicate k 0 ++ l) := by
  refine ⟨by simp [h.ne_nil], fun d hd => ?_⟩
  rcases List.mem_append.mp hd with hd | hd
  · rw [(List.mem_replicate.mp hd).2]
    decide
  · exact h.lt_ten d hd

/-! ## The forms of a written number -/

/-- Digits that are filled up with zeros, unless they are a zero themselves. -/
theorem wellFormed_filled (negative : Bool) {n k : Nat} (hk : n = 0 → k = 0) :
    WellFormed ⟨negative, digitsOf n ++ List.replicate k 0, some [0], none⟩ := by
  refine ⟨⟨by simp [digitsOf_ne_nil], fun d hd => ?_⟩, fun hlead => ?_, ?_, fun _ h => nomatch h⟩
  · rcases List.mem_append.mp hd with hd | hd
    · exact lt_ten_of_mem_digitsOf n d hd
    · rw [(List.mem_replicate.mp hd).2]
      decide
  · rw [List.head?_append, Option.or_of_isSome (by simpa using digitsOf_ne_nil n)] at hlead
    by_cases hn : n = 0
    · rw [hk hn, hn]
      simp [digitsOf_of_lt]
    · exact absurd hlead (head?_digitsOf hn)
  · rintro f hf
    cases hf
    exact ⟨by simp, by simp⟩

/-- Digits with a point among them. -/
theorem wellFormed_parted (negative : Bool) {n k : Nat} (hn : n ≠ 0)
    (hk : k + 1 < (digitsOf n).length) :
    WellFormed ⟨negative, (digitsOf n).take (k + 1), some ((digitsOf n).drop (k + 1)), none⟩ := by
  have hdigits := digits_digitsOf n
  refine ⟨⟨?_, fun d hd => hdigits.lt_ten d (List.mem_of_mem_take hd)⟩, fun hlead => ?_, ?_,
    fun _ h => nomatch h⟩
  · simp [List.take_eq_nil_iff, hdigits.ne_nil]
  · rw [List.head?_take, if_neg (by simp)] at hlead
    exact absurd hlead (head?_digitsOf hn)
  · rintro f hf
    cases hf
    refine ⟨?_, fun d hd => hdigits.lt_ten d (List.mem_of_mem_drop hd)⟩
    rw [ne_eq, List.drop_eq_nil_iff]
    omega

/-- Digits behind the point. -/
theorem wellFormed_small (negative : Bool) (n k : Nat) :
    WellFormed ⟨negative, [0], some (List.replicate k 0 ++ digitsOf n), none⟩ := by
  refine ⟨⟨by simp, by simp⟩, fun _ => rfl, ?_, fun _ h => nomatch h⟩
  rintro f hf
  cases hf
  exact digits_replicate_append (digits_digitsOf n)

/-- A leading digit with the others behind the point, and an exponent. -/
theorem wellFormed_scientific (negative down : Bool) {lead : Nat} {rest : List Nat}
    (h : Digits (lead :: rest)) (e : Nat) :
    WellFormed ⟨negative, [lead], if rest.isEmpty then none else some rest,
      some (down, digitsOf e)⟩ := by
  refine ⟨⟨by simp, by simpa using h.lt_ten lead (by simp)⟩, fun hlead => by simpa using hlead, ?_, ?_⟩
  · rintro f hf
    dsimp only at hf
    split at hf
    · cases hf
    · next hne =>
      cases hf
      exact ⟨by simpa using hne, fun d hd => h.lt_ten d (by simp [hd])⟩
  · rintro e he
    cases he
    exact digits_digitsOf _

end Numeral

/-! ## The numeral of a number -/

namespace Double

open Numeral

theorem exponent_of_digits_zero {x : Double} (h : x.shortest.digits = 0) :
    x.shortest.exponent = 0 := by
  cases hx : x.isZero with
  | false =>
    have hpos := shortest_digits_pos hx
    omega
  | true => simp [shortest, hx]

/-- A number is written as JSON allows. -/
theorem wellFormed_numeral (x : Double) : x.numeral.WellFormed := by
  have hmag : x.shortest.magnitude =
      x.shortest.exponent + ((digitsOf x.shortest.digits).length : Int) - 1 := by
    rw [length_digitsOf]
    rfl
  unfold numeral
  dsimp only
  split
  · split
    · refine wellFormed_filled _ fun hzero => ?_
      rw [exponent_of_digits_zero hzero]
      rfl
    · next he =>
      split
      · next hpos =>
        refine wellFormed_parted _ (fun hzero => ?_) (by omega)
        rw [hzero, digitsOf_of_lt (by decide)] at hmag
        simp only [List.length_singleton] at hmag
        omega
      · exact wellFormed_small _ _ _
  · have hdigits := digits_digitsOf x.shortest.digits
    split
    · next hnil => exact absurd hnil hdigits.ne_nil
    · next lead rest hcons =>
      rw [hcons] at hdigits
      exact wellFormed_scientific _ _ hdigits _

end Double

end SensorCache
