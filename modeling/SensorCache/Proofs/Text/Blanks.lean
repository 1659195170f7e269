import SensorCache.Proofs.Text.Lines

/-!
# Blanks around a text

Trimming takes blanks off both ends of a text and nothing else (`exists_trim`), and it takes off all
of them that stand around a text which neither begins nor ends with one (`trim_padded`).
-/

namespace SensorCache.Text

variable {before text after : List Char}

theorem allBlank_append (s t : List Char) : allBlank (s ++ t) = (allBlank s && allBlank t) :=
  List.all_append

theorem allBlank_reverse (s : List Char) : allBlank s.reverse = allBlank s := List.all_reverse

theorem trimStart_append (h : allBlank before = true) (s : List Char) :
    trimStart (before ++ s) = trimStart s :=
  List.dropWhile_append_of_pos (List.all_eq_true.mp h)

theorem trimStart_of_head? (h : ∀ c ∈ text.head?, isBlank c = false) : trimStart text = text := by
  cases text with
  | nil => rfl
  | cons c r => exact trimStart_cons (h c rfl) r

/-- What is taken off the start is blank. -/
theorem exists_trimStart (s : List Char) :
    ∃ before, s = before ++ trimStart s ∧ allBlank before = true :=
  ⟨s.takeWhile isBlank, List.takeWhile_append_dropWhile.symm, List.all_takeWhile⟩

theorem trimEnd_eq (s : List Char) : trimEnd s = (trimStart s.reverse).reverse := rfl

theorem exists_trim (s : List Char) : ∃ before after, s = before ++ trim s ++ after ∧
    allBlank before = true ∧ allBlank after = true := by
  obtain ⟨before, hs, hbefore⟩ := exists_trimStart s
  obtain ⟨after, hr, hafter⟩ := exists_trimStart (trimStart s).reverse
  refine ⟨before, after.reverse, ?_, hbefore, (allBlank_reverse after).trans hafter⟩
  have hend : trimStart s = trim s ++ after.reverse := by
    rw [trim, trimEnd_eq, ← List.reverse_append, ← hr, List.reverse_reverse]
  rw [List.append_assoc, ← hend]
  exact hs

/-- The blanks around a text that neither begins nor ends with one are taken off. -/
theorem trim_padded (hbefore : allBlank before = true) (hafter : allBlank after = true)
    (hfirst : ∀ c ∈ text.head?, isBlank c = false) (hlast : ∀ c ∈ text.getLast?, isBlank c = false) :
    trim (before ++ text ++ after) = text := by
  have hend : ∀ s : List Char, trimEnd (s ++ after) = trimEnd s := by
    intro s
    rw [trimEnd_eq, List.reverse_append,
      trimStart_append ((allBlank_reverse after).trans hafter), trimEnd_eq]
  cases text with
  | nil =>
    rw [List.append_nil, trim, trimStart_append hbefore, ← List.append_nil after,
      trimStart_append hafter]
    rfl
  | cons c r =>
    rw [List.append_assoc, trim, trimStart_append hbefore, List.cons_append,
      trimStart_cons (hfirst c rfl), ← List.cons_append, hend, trimEnd_eq,
      trimStart_of_head? (by rwa [List.head?_reverse]), List.reverse_reverse]

end SensorCache.Text
