import SensorCache.Text.Blank
import SensorCache.Text.Lines

/-!
# Lines that come back

Lines that were ended by line feeds come back as they were, if they hold neither line feeds nor
carriage returns themselves.
-/

namespace SensorCache.Text

/-- A digit is no blank. -/
theorem isBlank_of_isDigit {c : Char} (h : c.isDigit = true) : isBlank c = false := by
  have hc : 48 ≤ c.toNat ∧ c.toNat ≤ 57 := Char.isDigit_iff_toNat.mp h
  unfold isBlank
  simp only [Bool.or_eq_false_iff, Bool.and_eq_false_iff, decide_eq_false_iff_not,
    beq_eq_false_iff_ne]
  omega

theorem trimStart_cons {c : Char} (h : isBlank c = false) (r : List Char) :
    trimStart (c :: r) = c :: r := by
  simp [trimStart, h]

theorem allBlank_of_mem {c : Char} {s : List Char} (hc : c ∈ s) (h : isBlank c = false) :
    allBlank s = false := by
  rw [allBlank, List.all_eq_false]
  exact ⟨c, hc, by simp [h]⟩

/-- A text that can be a line: it holds no character of a line's ending. -/
structure OneLine (l : List Char) : Prop where
  no_feed : '\n' ∉ l
  no_return : '\r' ∉ l

theorem OneLine.append {a b : List Char} (ha : OneLine a) (hb : OneLine b) : OneLine (a ++ b) :=
  ⟨fun h => (List.mem_append.mp h).elim ha.no_feed hb.no_feed,
    fun h => (List.mem_append.mp h).elim ha.no_return hb.no_return⟩

theorem OneLine.cons {c : Char} {l : List Char} (hl : OneLine l) (hn : c ≠ '\n') (hr : c ≠ '\r') :
    OneLine (c :: l) :=
  ⟨fun h => (List.mem_cons.mp h).elim (fun hc => hn hc.symm) hl.no_feed,
    fun h => (List.mem_cons.mp h).elim (fun hc => hr hc.symm) hl.no_return⟩

theorem dropReturn_of_oneLine {l : List Char} (h : OneLine l) : dropReturn '\r' l = l := by
  unfold dropReturn
  split
  · next c r hrev =>
    rw [if_neg]
    rintro hc
    refine h.no_return (List.mem_reverse.mp ?_)
    rw [hrev, beq_iff_eq.mp hc]
    exact List.mem_cons_self
  · next hrev => exact (List.reverse_eq_nil_iff.mp hrev).symm

/-- A line is taken off up to its feed. -/
theorem linesFrom_feed : ∀ {l : List Char} (pending rest : List Char),
    OneLine (pending.reverse ++ l) →
      linesFrom '\n' '\r' pending (l ++ '\n' :: rest) =
        (pending.reverse ++ l) :: linesFrom '\n' '\r' [] rest
  | [], pending, rest, h => by
    rw [List.append_nil] at h ⊢
    rw [List.nil_append, linesFrom, if_pos (by decide), dropReturn_of_oneLine h]
  | c :: l, pending, rest, h => by
    have hc : ¬(c == '\n') = true := by
      rintro hc
      exact h.no_feed (by simp [beq_iff_eq.mp hc])
    have hpending : (c :: pending).reverse ++ l = pending.reverse ++ c :: l := by simp
    rw [List.cons_append, linesFrom, if_neg hc, linesFrom_feed (c :: pending) rest (hpending ▸ h),
      hpending]

theorem lines_unlines : ∀ {ls : List (List Char)}, (∀ l ∈ ls, OneLine l) → lines (unlines ls) = ls
  | [], _ => rfl
  | l :: ls, h => by
    have hl := linesFrom_feed [] (unlines ls) (h l (by simp))
    have ih := lines_unlines fun m hm => h m (List.mem_cons_of_mem l hm)
    rw [lines] at ih ⊢
    rw [unlines, hl, ih]
    rfl

end SensorCache.Text
