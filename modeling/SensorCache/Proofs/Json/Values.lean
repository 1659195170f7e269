import SensorCache.Proofs.Json.Scalars

/-!
# Reading back values

The text of a value is read as that value (`parse?_text`), if its numerals are such as JSON allows
and its strings are texts (`Proper`). Each reader is shown to leave what follows, by induction on
the value; the first character of a text tells its kind, and is no blank.
-/

namespace SensorCache.Json

/-! ## Values that can be read back -/

mutual

/-- All numerals in a value are well-formed and all strings are texts. -/
def Proper : Json → Prop
  | .null => True
  | .bool _ => True
  | .number n => n.WellFormed
  | .string s => s.isSome = true
  | .array es => ElementsProper es
  | .object ms => MembersProper ms

def ElementsProper : List Json → Prop
  | [] => True
  | v :: r => Proper v ∧ ElementsProper r

def MembersProper : List (Option (List Char) × Json) → Prop
  | [] => True
  | (k, v) :: r => k.isSome = true ∧ Proper v ∧ MembersProper r

end

theorem elementsProper_iff : ∀ {l : List Json}, ElementsProper l ↔ ∀ v ∈ l, Proper v
  | [] => by simp [ElementsProper]
  | v :: r => by simp [ElementsProper, elementsProper_iff (l := r)]

theorem membersProper_iff : ∀ {l : List (Option (List Char) × Json)},
    MembersProper l ↔ ∀ m ∈ l, m.1.isSome = true ∧ Proper m.2
  | [] => by simp [MembersProper]
  | (k, v) :: r => by simp [MembersProper, membersProper_iff (l := r), and_assoc]

/-! ## Beginnings -/

theorem skipSpace_cons {c : Char} (h : isSpace c = false) (r : List Char) :
    skipSpace (c :: r) = c :: r := by
  simp [skipSpace, h]

/-- A character that a value may begin with. -/
abbrev Begins (c : Char) : Prop := Text.isBlank c = false ∧ c ≠ ']'

/-- The blanks of JSON are blanks. -/
theorem Begins.not_space {c : Char} (h : Begins c) : isSpace c = false := by
  cases hs : isSpace c with
  | false => rfl
  | true =>
    simp only [isSpace, Bool.or_eq_true, beq_iff_eq] at hs
    rcases hs with ((rfl | rfl) | rfl) | rfl <;> cases h.1

theorem head?_chars {n : Numeral} (hn : n.WellFormed) :
    ∃ c r, n.chars = c :: r ∧ (c.isDigit = true ∨ c = '-') := by
  obtain ⟨c, r, hcr, hc⟩ := head?_whole hn.whole
    (Numeral.fractionChars n.fraction ++ Numeral.exponentChars n.exponent)
  rw [Numeral.chars, hcr]
  cases n.negative with
  | true => exact ⟨'-', c :: r, rfl, .inr rfl⟩
  | false => exact ⟨c, r, rfl, .inl hc⟩

theorem begins_of_number {c : Char} (h : c.isDigit = true ∨ c = '-') : Begins c := by
  rcases h with h | rfl
  · refine ⟨Text.isBlank_of_isDigit h, ?_⟩
    rintro rfl
    cases h
  · decide

theorem text_begins {v : Json} (h : v.Proper) : ∃ c r, v.text = c :: r ∧ Begins c := by
  cases v with
  | null => exact ⟨'n', ['u', 'l', 'l'], rfl, by decide⟩
  | bool b =>
    cases b with
    | true => exact ⟨'t', ['r', 'u', 'e'], rfl, by decide⟩
    | false => exact ⟨'f', ['a', 'l', 's', 'e'], rfl, by decide⟩
  | number n =>
    obtain ⟨c, r, hcr, hc⟩ := head?_chars (n := n) h
    exact ⟨c, r, hcr, begins_of_number hc⟩
  | string s =>
    cases s with
    | none => cases h
    | some s => exact ⟨_, _, rfl, by decide⟩
  | array es => exact ⟨_, _, rfl, by decide⟩
  | object ms => exact ⟨_, _, rfl, by decide⟩

/-! ## Readers on what is written -/

theorem quoted_append (s rest : List Char) :
    quoted (some s) ++ rest = '"' :: (s.flatMap escape ++ '"' :: rest) := by
  show ('"' :: s.flatMap escape ++ ['"']) ++ rest = _
  rw [List.append_assoc]
  rfl

theorem readValue_string (s rest : List Char) :
    readValue (quoted (some s) ++ rest) = some (.string (some s), rest) := by
  rw [quoted_append, readValue, readString_text]
  rfl

theorem readValue_number {n : Numeral} (hn : n.WellFormed) {rest : List Char}
    (h : NumberEnds rest) : readValue (n.chars ++ rest) = some (.number n, rest) := by
  obtain ⟨c, r, hcr, hc⟩ := head?_chars hn
  have hread := readNumber_chars hn h
  have hne : c ≠ '"' ∧ c ≠ '[' ∧ c ≠ '\x7b' := by
    refine ⟨?_, ?_, ?_⟩ <;>
      · rintro rfl
        rcases hc with hc | hc <;> cases hc
  have hcond : (c.isDigit || c = '-') = true := by
    rcases hc with hc | rfl
    · simp [hc]
    · rfl
  rw [hcr, List.cons_append] at hread ⊢
  rw [readValue, if_pos hcond, hread]
  · rfl
  · exact hne.1
  · exact hne.2.1
  · exact hne.2.2

theorem skipSpace_text {v : Json} (h : v.Proper) (r : List Char) :
    skipSpace (v.text ++ r) = v.text ++ r := by
  obtain ⟨c, t, hct, hc⟩ := text_begins h
  rw [hct, List.cons_append, skipSpace_cons hc.not_space]

theorem elementsText_cons (v : Json) : ∀ es : List Json, ∃ t, elementsText (v :: es) = v.text ++ t
  | [] => ⟨[], by rw [elementsText, List.append_nil]⟩
  | w :: es => ⟨',' :: elementsText (w :: es), by rw [elementsText]⟩

/-- A member is read up to what stands after its value. -/
theorem readMembers_member (k : List Char) {v : Json} {c : Char} {r : List Char} :
    v.Proper → isSpace c = false → readValue (v.text ++ c :: r) = some (v, c :: r) →
      readMembers (quoted (some k) ++ (':' :: (v.text ++ c :: r))) =
        match c :: r with
        | '\x7d' :: rest => some ([(some k, v)], rest)
        | ',' :: s =>
          if (skipSpace s).length ≤ (k.flatMap escape ++ '"' :: ':' :: (v.text ++ c :: r)).length then
            (readMembers (skipSpace s)).map fun (ms, rest) => ((some k, v) :: ms, rest)
          else none
        | _ => none := by
  intro hv hc hread
  have hlen : (v.text ++ c :: r).length ≤
      (k.flatMap escape ++ '"' :: ':' :: (v.text ++ c :: r)).length := by
    simp only [List.length_append, List.length_cons]
    omega
  rw [quoted_append, readMembers, readString_text]
  dsimp only
  rw [skipSpace_cons (by decide)]
  show (if _ then _ else none) = _
  rw [skipSpace_text hv, if_pos hlen, hread]
  dsimp only
  rewrite [skipSpace_cons hc]
  rfl

theorem length_lt_of_tail (a : List Char) (c : Char) (r : List Char) :
    r.length < (a ++ c :: r).length := by
  simp only [List.length_append, List.length_cons]
  omega

mutual

/-- A value is read back from its text, and what follows is left. -/
theorem readValue_text : ∀ {v : Json}, v.Proper → ∀ {r : List Char}, NumberEnds r →
    readValue (v.text ++ r) = some (v, r)
  | .null, _, rest, _ => by
    show readValue ('n' :: 'u' :: 'l' :: 'l' :: rest) = _
    rw [readValue] <;> simp [readWord]
  | .bool true, _, rest, _ => by
    show readValue ('t' :: 'r' :: 'u' :: 'e' :: rest) = _
    rw [readValue] <;> simp [readWord]
  | .bool false, _, rest, _ => by
    show readValue ('f' :: 'a' :: 'l' :: 's' :: 'e' :: rest) = _
    rw [readValue] <;> simp [readWord]
  | .number n, h, rest, hrest => readValue_number h hrest
  | .string none, h, _, _ => nomatch h
  | .string (some s), _, rest, _ => readValue_string s rest
  | .array [], _, rest, _ => by
    show readValue ('[' :: ']' :: rest) = _
    rw [readValue, skipSpace_cons (by decide)]
    rfl
  | .array (v :: es), h, rest, _ => by
    have hread := readElements_text h rest
    -- The first element begins the text, so the array is not taken for an empty one.
    obtain ⟨c, r, hcr, hc⟩ := text_begins (v := v) h.1
    have hbegin : ∃ t, elementsText (v :: es) ++ ']' :: rest = c :: t := by
      cases es with
      | nil => exact ⟨_, by rw [elementsText, hcr, List.cons_append]⟩
      | cons w es => exact ⟨_, by rw [elementsText, hcr, List.cons_append, List.cons_append]⟩
    obtain ⟨t, ht⟩ := hbegin
    show readValue ('[' :: (elementsText (v :: es) ++ [']'] ++ rest)) = _
    rw [List.append_assoc, List.singleton_append]
    rw [ht] at hread ⊢
    rw [readValue, skipSpace_cons hc.not_space]
    split
    · next heq =>
      cases heq
      exact absurd rfl hc.2
    · rw [if_pos (Nat.le_refl _), hread]
      rfl
  | .object [], _, rest, _ => by
    show readValue ('\x7b' :: '\x7d' :: rest) = _
    rw [readValue, skipSpace_cons (by decide)]
    rfl
  | .object ((k, v) :: ms), h, rest, _ => by
    have hread := readMembers_text h rest
    obtain ⟨k, rfl⟩ := Option.isSome_iff_exists.mp h.1
    have hbegin : ∃ t, membersText ((some k, v) :: ms) ++ '\x7d' :: rest = '"' :: t := by
      cases ms <;> exact ⟨_, rfl⟩
    obtain ⟨t, ht⟩ := hbegin
    show readValue ('\x7b' :: (membersText ((some k, v) :: ms) ++ ['\x7d'] ++ rest)) = _
    rw [List.append_assoc, List.singleton_append]
    rw [ht] at hread ⊢
    rw [readValue, skipSpace_cons (by decide)]
    show (if _ then (readMembers ('"' :: t)).map _ else none) = _
    rw [if_pos (Nat.le_refl _), hread]
    rfl
termination_by v => sizeOf v

theorem readElements_text : ∀ {v : Json} {es : List Json}, ElementsProper (v :: es) →
    ∀ rest : List Char, readElements (elementsText (v :: es) ++ ']' :: rest) = some (v :: es, rest)
  | v, [], h, rest => by
    have hv := readValue_text h.1 (r := ']' :: rest) (numberEnds_cons (by decide) rest)
    rw [elementsText, readElements, hv]
    dsimp only
    rw [skipSpace_cons (by decide)]
    rfl
  | v, w :: es, h, rest => by
    have hv := readValue_text h.1 (r := ',' :: (elementsText (w :: es) ++ ']' :: rest))
      (numberEnds_cons (by decide) _)
    have hes := readElements_text h.2 rest
    obtain ⟨t, ht⟩ := elementsText_cons w es
    -- The reader goes on only where the text has become shorter, which the comma sees to.
    have hskip : skipSpace (elementsText (w :: es) ++ ']' :: rest) =
        elementsText (w :: es) ++ ']' :: rest := by
      rw [ht, List.append_assoc, skipSpace_text h.2.1]
    rw [elementsText, List.append_assoc, List.cons_append, readElements, hv]
    dsimp only
    rw [skipSpace_cons (by decide)]
    show (if _ then (readElements (skipSpace _)).map _ else none) = _
    rw [hskip, if_pos (length_lt_of_tail _ _ _), hes]
    rfl
termination_by v es => sizeOf (v :: es)

theorem readMembers_text : ∀ {k : Option (List Char)} {v : Json}
    {ms : List (Option (List Char) × Json)}, MembersProper ((k, v) :: ms) → ∀ rest : List Char,
    readMembers (membersText ((k, v) :: ms) ++ '\x7d' :: rest) = some ((k, v) :: ms, rest)
  | none, _, _, h, _ => nomatch h.1
  | some k, v, [], h, rest => by
    have hv := readValue_text h.2.1 (r := '\x7d' :: rest) (numberEnds_cons (by decide) rest)
    rw [membersText, List.append_assoc, List.cons_append, readMembers_member k h.2.1 (by decide) hv]
    rfl
  | some k, v, (j, w) :: ms, h, rest => by
    have hv := readValue_text h.2.1 (r := ',' :: (membersText ((j, w) :: ms) ++ '\x7d' :: rest))
      (numberEnds_cons (by decide) _)
    have hms := readMembers_text h.2.2 rest
    obtain ⟨j, rfl⟩ := Option.isSome_iff_exists.mp h.2.2.1
    have hskip : skipSpace (membersText ((some j, w) :: ms) ++ '\x7d' :: rest) =
        membersText ((some j, w) :: ms) ++ '\x7d' :: rest := by
      cases ms <;> exact skipSpace_cons (by decide) _
    rw [membersText, List.append_assoc, List.cons_append, List.append_assoc, List.cons_append,
      readMembers_member k h.2.1 (by decide) hv]
    show (if (skipSpace _).length ≤ _ then (readMembers (skipSpace _)).map _ else none) = _
    rw [hskip, hms, if_pos]
    · rfl
    · simp only [List.length_append, List.length_cons]
      omega
termination_by k v ms => sizeOf ((k, v) :: ms)

end

/-- The whole text of a value is that value. -/
theorem parse?_text {v : Json} (h : v.Proper) : parse? v.text = some v := by
  have hread := readValue_text h numberEnds_nil
  have hskip := skipSpace_text h []
  rw [List.append_nil] at hread hskip
  rw [parse?, hskip, hread]
  rfl

/-! ## Characters of texts -/

/-- No character of the text is a control character. -/
def Printable (s : List Char) : Prop := ∀ c ∈ s, 32 ≤ c.toNat

instance (s : List Char) : Decidable (Printable s) :=
  List.decidableBAll _ s

theorem Printable.append {a b : List Char} (ha : Printable a) (hb : Printable b) :
    Printable (a ++ b) := fun c hc => (List.mem_append.mp hc).elim (ha c) (hb c)

theorem Printable.cons {c : Char} {s : List Char} (hc : 32 ≤ c.toNat) (hs : Printable s) :
    Printable (c :: s) := by
  intro d hd
  rcases List.mem_cons.mp hd with rfl | hd
  · exact hc
  · exact hs d hd

theorem printable_nil : Printable [] := by decide

theorem toNat_hexDigit : ∀ n < 16, 32 ≤ (Text.hexDigit n).toNat := by decide

theorem printable_escape (c : Char) : Printable (escape c) := by
  unfold escape
  split
  · decide
  split
  · decide
  split
  · decide
  split
  · decide
  split
  · decide
  split
  · decide
  split
  · decide
  split
  · next hc =>
    refine Printable.append (a := ['\\', 'u', '0', '0']) (by decide) ?_
    exact .cons (toNat_hexDigit _ (by omega)) (.cons (toNat_hexDigit _ (by omega)) printable_nil)
  · next hc => exact .cons (by omega) printable_nil

theorem printable_quoted (s : List Char) : Printable (quoted (some s)) := by
  refine Printable.append (.cons (by decide) ?_) (.cons (by decide) printable_nil)
  intro c hc
  obtain ⟨d, -, hd⟩ := List.mem_flatMap.mp hc
  exact printable_escape d c hd

theorem printable_digits {l : List Nat} (h : ∀ d ∈ l, d < 10) :
    Printable (l.map Numeral.digitChar) := by
  intro c hc
  obtain ⟨d, hd, rfl⟩ := List.mem_map.mp hc
  have hdigit := (digitChar_spec d (h d hd)).1
  have := (Char.isDigit_iff_toNat.mp hdigit).1
  have hzero : '0'.toNat = 48 := rfl
  omega

theorem printable_chars {n : Numeral} (hn : n.WellFormed) : Printable n.chars := by
  have hfraction := hn.fraction
  have hexponent := hn.exponent
  refine Printable.append ?_ (.append (printable_digits hn.whole.lt_ten) (.append ?_ ?_))
  · split
    · exact .cons (by decide) printable_nil
    · exact printable_nil
  · cases hf : n.fraction with
    | none => exact printable_nil
    | some f => exact .cons (by decide) (printable_digits (hfraction f hf).lt_ten)
  · cases he : n.exponent with
    | none => exact printable_nil
    | some e =>
      refine .cons (by decide) (.cons ?_ (printable_digits (hexponent e he).lt_ten))
      split <;> decide

mutual

theorem printable_text : ∀ {v : Json}, v.Proper → Printable v.text
  | .null, _ => by
    show Printable ['n', 'u', 'l', 'l']
    decide
  | .bool true, _ => by
    show Printable ['t', 'r', 'u', 'e']
    decide
  | .bool false, _ => by
    show Printable ['f', 'a', 'l', 's', 'e']
    decide
  | .number _, h => printable_chars h
  | .string (some s), _ => printable_quoted s
  | .array es, h => by
    rw [text]
    exact .append (.cons (by decide) (printable_elements h)) (.cons (by decide) printable_nil)
  | .object ms, h => by
    rw [text]
    exact .append (.cons (by decide) (printable_members h)) (.cons (by decide) printable_nil)

theorem printable_elements : ∀ {l : List Json}, ElementsProper l → Printable (elementsText l)
  | [], _ => printable_nil
  | [v], h => printable_text h.1
  | v :: w :: es, h => by
    rw [elementsText]
    exact .append (printable_text h.1) (.cons (by decide) (printable_elements (l := w :: es) h.2))

theorem printable_members : ∀ {l : List (Option (List Char) × Json)}, MembersProper l →
    Printable (membersText l)
  | [], _ => printable_nil
  | [(some k, v)], h => by
    rw [membersText]
    exact .append (printable_quoted k) (.cons (by decide) (printable_text h.2.1))
  | (some k, v) :: m :: ms, h => by
    rw [membersText]
    exact .append (.append (printable_quoted k) (.cons (by decide) (printable_text h.2.1)))
      (.cons (by decide) (printable_members (l := m :: ms) h.2.2))

end

end SensorCache.Json
