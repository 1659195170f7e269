import Mathlib.Tactic.Ring
import SensorCache.Number.Shortest

/-!
# Numbers have digits

The search for the shortest digits of a number that is not zero finds some. It begins at the power
of ten of the leading digit (`leadingPower_spec`), so at its eighteenth grid the steps are no longer
than a quarter of the number's last place, and the grid point below the number rounds to it.
-/

namespace SensorCache

namespace Decimal

variable {n : Nat} {i : Int}

theorem width_of_lt (h : n < 10) : width n = 1 := by
  rw [width, Nat.toDigits_of_lt_base h, List.length_singleton]

theorem width_of_le (h : 10 ≤ n) : width n = width (n / 10) + 1 := by
  rw [width, Nat.toDigits_of_base_le (by decide) h, List.length_append, List.length_singleton, width]

theorem width_pos (n : Nat) : 0 < width n := List.length_pos_iff.mpr Nat.toDigits_ne_nil

theorem lt_pow_width (n : Nat) : n < 10 ^ width n := by
  induction n using Nat.strongRecOn with
  | ind n ih =>
    by_cases hn : n < 10
    · rwa [width_of_lt hn]
    · have hdiv := ih (n / 10) (by omega)
      rw [width_of_le (Nat.le_of_not_lt hn), Nat.pow_succ]
      omega

theorem pow_width_le (h : n ≠ 0) : 10 ^ (width n - 1) ≤ n := by
  induction n using Nat.strongRecOn with
  | ind n ih =>
    by_cases hn : n < 10
    · rw [width_of_lt hn]
      omega
    · have hdiv := ih (n / 10) (by omega) (by omega)
      have hpos := width_pos (n / 10)
      obtain ⟨w, hw⟩ : ∃ w, width (n / 10) = w + 1 := ⟨width (n / 10) - 1, by omega⟩
      rw [width_of_le (Nat.le_of_not_lt hn), hw, Nat.add_sub_cancel, Nat.pow_succ]
      rw [hw, Nat.add_sub_cancel] at hdiv
      omega

theorem tenPow_pos (i : Int) : 0 < tenPow i := Nat.pow_pos (by decide)

theorem tenPow_of_nonpos (h : i ≤ 0) : tenPow i = 1 := by
  rw [tenPow, Int.toNat_of_nonpos h, Nat.pow_eq, Nat.pow_zero]

theorem tenPow_natCast (n : Nat) : tenPow n = 10 ^ n := rfl

/-- Powers of ten that are fewer make the rest of a product. -/
theorem tenPow_add (n m : Nat) : tenPow ((n : Int) + m) = tenPow n * tenPow m := by
  have h : ((n : Int) + m) = ((n + m : Nat) : Int) := rfl
  rw [h, tenPow_natCast, tenPow_natCast, tenPow_natCast, Nat.pow_add]

/-- Taking zeros off does not take all digits. -/
theorem stripZeros_digits_pos (k : Nat) {d : Decimal} (h : 0 < d.digits) :
    0 < (stripZeros k d).digits := by
  induction k generalizing d with
  | zero => exact h
  | succ k ih =>
    unfold stripZeros
    split
    · next hstrip =>
      simp only [bne_iff_ne, ne_eq, Bool.and_eq_true, beq_iff_eq] at hstrip
      refine ih ?_
      show 0 < d.digits / 10
      omega
    · exact h

end Decimal

namespace Double

open Decimal

/-! ## The leading power -/

/-- The leading power of ten is not greater than the quotient. -/
theorem leadingPower_spec {a b : Nat} (ha : 0 < a) (hb : 0 < b) :
    tenPow (leadingPower a b) * b ≤ a * tenPow (-leadingPower a b) := by
  unfold leadingPower
  split
  · next hba =>
    have hquot : a / b ≠ 0 := Nat.ne_of_gt (Nat.div_pos hba hb)
    have hpos := width_pos (a / b)
    obtain ⟨w, hw⟩ : ∃ w, width (a / b) = w + 1 := ⟨width (a / b) - 1, by omega⟩
    have hle := pow_width_le hquot
    rw [hw, Nat.add_sub_cancel] at hle
    have hpower : ((width (a / b) : Nat) : Int) - 1 = (w : Int) := by omega
    rw [hpower, tenPow_natCast, tenPow_of_nonpos (by omega), Nat.mul_one]
    exact (Nat.le_div_iff_mul_le hb).mp hle
  · rw [Int.neg_neg, tenPow_of_nonpos (by omega), Nat.one_mul, tenPow_natCast]
    have hlt := lt_pow_width ((b - 1) / a)
    rw [Nat.div_lt_iff_lt_mul ha, Nat.mul_comm] at hlt
    omega

/-- Seventeen powers below that are not greater than the hundred-quadrillionth part. -/
theorem shifted_power {a b m : Nat} {p : Int} (hm : m < 10 ^ 17)
    (h : tenPow p * b ≤ m * a * tenPow (-p)) :
    tenPow (p - 17) * b ≤ a * tenPow (-(p - 17)) := by
  have hma : m * a ≤ 10 ^ 17 * a := Nat.mul_le_mul_right a (Nat.le_of_lt hm)
  have hseventeen : tenPow ((17 : Nat) : Int) = 10 ^ 17 := tenPow_natCast 17
  rcases le_total 17 p with hp | hp
  · obtain ⟨n, hn⟩ : ∃ n : Nat, p = ((n : Int) + (17 : Nat)) := ⟨(p - 17).toNat, by omega⟩
    have hrest : p - 17 = n := by omega
    rw [tenPow_of_nonpos (i := -p) (by omega), Nat.mul_one, hn, tenPow_add, hseventeen] at h
    rw [hrest, tenPow_of_nonpos (i := -(n : Int)) (by omega), Nat.mul_one]
    have hall : tenPow n * b * 10 ^ 17 ≤ a * 10 ^ 17 := by
      calc tenPow n * b * 10 ^ 17 = tenPow n * 10 ^ 17 * b := by ring
        _ ≤ m * a := h
        _ ≤ a * 10 ^ 17 := by rw [Nat.mul_comm a]; exact hma
    exact Nat.le_of_mul_le_mul_right hall (by decide)
  · rw [tenPow_of_nonpos (i := p - 17) (by omega), Nat.one_mul]
    rcases le_total 0 p with hp0 | hp0
    · obtain ⟨n, rfl⟩ : ∃ n : Nat, p = n := ⟨p.toNat, by omega⟩
      obtain ⟨r, hr⟩ : ∃ r : Nat, -((n : Int) - 17) = r := ⟨17 - n, by omega⟩
      have hsplit : 10 ^ 17 = tenPow n * tenPow r := by
        rw [← tenPow_add, ← hseventeen]
        congr 1
        omega
      rw [tenPow_of_nonpos (i := -(n : Int)) (by omega), Nat.mul_one] at h
      have hall : b * tenPow n ≤ a * tenPow r * tenPow n := by
        calc b * tenPow n = tenPow n * b := Nat.mul_comm _ _
          _ ≤ m * a := h
          _ ≤ 10 ^ 17 * a := hma
          _ = a * tenPow r * tenPow n := by rw [hsplit]; ring
      rw [hr]
      exact Nat.le_of_mul_le_mul_right hall (tenPow_pos _)
    · obtain ⟨n, hn⟩ : ∃ n : Nat, -p = n := ⟨(-p).toNat, by omega⟩
      have hsum : -(p - 17) = ((n : Int) + (17 : Nat)) := by omega
      rw [tenPow_of_nonpos hp0, Nat.one_mul, hn] at h
      rw [hsum, tenPow_add, hseventeen]
      calc b ≤ m * a * tenPow n := h
        _ ≤ 10 ^ 17 * a * tenPow n := Nat.mul_le_mul_right _ hma
        _ = a * (tenPow n * 10 ^ 17) := by ring

/-! ## The search -/

namespace Interval

variable {s : Interval} {a b : Nat} {k : Int}

/-- What is found on a grid is not zero. -/
theorem pos_of_onGrid? (hlow : 0 < s.low) (ha : 0 < a) {d : Nat} (h : s.onGrid? a b k = some d) :
    0 < d := by
  have hholds : s.holds a b d k = true := by
    unfold onGrid? at h
    dsimp only at h
    split at h
    · next hl hu =>
      split at h
      · cases h
        exact hl
      · cases h
        exact hu
    · next hl _ =>
      cases h
      exact hl
    · next _ hu =>
      cases h
      exact hu
    · cases h
  have hunit : 0 < s.low * (a * tenPow (-k)) :=
    Nat.mul_pos hlow (Nat.mul_pos ha (tenPow_pos _))
  rcases Nat.eq_zero_or_pos d with rfl | hd
  · unfold holds at hholds
    simp only [Nat.zero_mul] at hholds
    split at hholds
    · simp only [Bool.and_eq_true, decide_eq_true_eq] at hholds
      omega
    · simp only [Bool.and_eq_true, decide_eq_true_eq] at hholds
      omega
  · exact hd

/-- A grid whose steps are no longer than a quarter of the last place has a point. -/
theorem onGrid?_isSome (hlow : s.low + 1 ≤ s.mid) (hhigh : s.mid < s.high) (ha : 0 < a)
    (h : tenPow k * b ≤ a * tenPow (-k)) (hb : 0 < b) : (s.onGrid? a b k).isSome = true := by
  have hunit : 0 < a * tenPow (-k) := Nat.mul_pos ha (tenPow_pos _)
  have hstep : 0 < tenPow k * b := Nat.mul_pos (tenPow_pos _) hb
  have hfloor : s.mid * (a * tenPow (-k)) / (tenPow k * b) * (tenPow k * b) ≤
      s.mid * (a * tenPow (-k)) := Nat.div_mul_le_self _ _
  have habove : s.mid * (a * tenPow (-k)) <
      s.mid * (a * tenPow (-k)) / (tenPow k * b) * (tenPow k * b) + tenPow k * b :=
    Nat.lt_div_mul_add hstep
  have hlow' : s.low * (a * tenPow (-k)) + a * tenPow (-k) ≤ s.mid * (a * tenPow (-k)) := by
    calc s.low * (a * tenPow (-k)) + a * tenPow (-k) = (s.low + 1) * (a * tenPow (-k)) := by ring
      _ ≤ s.mid * (a * tenPow (-k)) := Nat.mul_le_mul_right _ hlow
  have hhigh' : s.mid * (a * tenPow (-k)) < s.high * (a * tenPow (-k)) :=
    Nat.mul_lt_mul_of_pos_right hhigh hunit
  have hholds : s.holds a b (s.mid * (a * tenPow (-k)) / (tenPow k * b)) k = true := by
    unfold holds
    dsimp only
    rw [Nat.mul_assoc _ (tenPow k) b]
    split
    · simp only [Bool.and_eq_true, decide_eq_true_eq]
      omega
    · simp only [Bool.and_eq_true, decide_eq_true_eq]
      omega
  unfold onGrid?
  dsimp only
  rw [hholds]
  cases s.holds a b (s.mid * (a * tenPow (-k)) / (tenPow k * b) + 1) k with
  | true =>
    dsimp only
    split <;> rfl
  | false => rfl

/-- A search that comes to a grid with a point finds one that is not zero. -/
theorem search_digits_pos (hlow : 0 < s.low) (ha : 0 < a) {n : Nat}
    (h : (s.onGrid? a b (k - n)).isSome = true) : 0 < (s.search a b (n + 1) k).digits := by
  induction n generalizing k with
  | zero =>
    unfold search
    split
    · next d hd => exact pos_of_onGrid? hlow ha hd
    · next hnone =>
      rw [show k - ((0 : Nat) : Int) = k by omega, hnone] at h
      cases h
  | succ n ih =>
    unfold search
    split
    · next d hd => exact pos_of_onGrid? hlow ha hd
    · refine ih ?_
      rwa [show k - 1 - (n : Int) = k - ((n + 1 : Nat) : Int) by omega]

end Interval

/-- Only zero has no digits but a zero. -/
theorem shortest_digits_pos {x : Double} (hx : x.isZero = false) : 0 < x.shortest.digits := by
  have hsig : 0 < x.significand := by
    rw [isZero, beq_eq_false_iff_ne] at hx
    omega
  have hlt := x.significand_lt
  have ha : 0 < twoPow (x.exponent - 2) := Nat.pow_pos (by decide)
  have hb : 0 < twoPow (2 - x.exponent) := Nat.pow_pos (by decide)
  have hlow : 0 < x.interval.low ∧ x.interval.low + 1 ≤ x.interval.mid := by
    unfold interval
    dsimp only
    split <;> omega
  have hhigh : x.interval.mid < x.interval.high := by
    show 4 * x.significand < 4 * x.significand + 2
    omega
  have hmid : x.interval.mid < 10 ^ 17 := by
    show 4 * x.significand < 10 ^ 17
    omega
  have hlead := leadingPower_spec (a := x.interval.mid * twoPow (x.exponent - 2))
    (Nat.mul_pos (by omega) ha) hb
  unfold shortest
  rw [hx, if_neg (by decide)]
  refine stripZeros_digits_pos _ (Interval.search_digits_pos hlow.1 ha ?_)
  exact Interval.onGrid?_isSome hlow.2 hhigh ha (shifted_power hmid hlead) hb

end Double

end SensorCache
