import SensorCache.Json.Reader
import SensorCache.Proofs.Number.Numerals
import SensorCache.Proofs.Text.Lines

/-!
# Reading back strings and numbers

What follows a string does not matter, its closing quote ends it. A number has no ending of its own:
what follows must not go on with it (`NumberEnds`).
-/

namespace SensorCache

open Text

namespace Json

/-! ## Strings -/

/-- The piece that an escaped character is read as: a unit when it has no short escape. -/
def pieceOf (c : Char) : Piece :=
  if c.toNat < 32 ∧ c ≠ '\n' ∧ c ≠ '\r' ∧ c ≠ '\t' ∧ c.toNat ≠ 8 ∧ c.toNat ≠ 12 then .unit c.toNat
  else .char c

theorem hexUnit?_control {n : Nat} (h : n < 32) :
    hexUnit? '0' '0' (hexDigit (n / 16)) (hexDigit (n % 16)) = some n := by
  have hh := hexValue?_hexDigit (n / 16) (by omega)
  have hl := hexValue?_hexDigit (n % 16) (by omega)
  have hz : hexValue? '0' = some 0 := by decide
  simp only [hexUnit?, hz, hh, hl, Option.bind_eq_bind, Option.bind_some, Option.pure_def,
    Option.some.injEq]
  omega

theorem readPieces_plain {c : Char} (hq : c ≠ '"') (hb : c ≠ '\\') (hc : ¬c.toNat < 32)
    (r : List Char) :
    readPieces (c :: r) = (readPieces r).map fun (ps, rest) => (.char c :: ps, rest) := by
  rw [readPieces, if_neg (by simp [hc, hb])]
  · exact hq
  · exact fun _ _ _ _ _ h => absurd h hb
  · exact fun _ _ h => absurd h hb

theorem char_eq_of_toNat {c d : Char} (h : c.toNat = d.toNat) : c = d := Char.toNat_inj.mp h

theorem readPieces_escape (c : Char) {r rest : List Char} {ps : List Piece}
    (h : readPieces r = some (ps, rest)) :
    readPieces (escape c ++ r) = some (pieceOf c :: ps, rest) := by
  have short : ∀ {e : Char}, e ≠ 'u' → shortEscape? e = some c →
      readPieces ('\\' :: e :: r) = some (.char c :: ps, rest) := by
    intro e hu he
    rw [readPieces, he, h]
    · rfl
    · exact fun _ _ _ _ _ h _ => hu h
  unfold escape pieceOf
  split
  · next hc => rw [if_neg (by simp [hc])]; exact short (by decide) (by simp [shortEscape?, hc])
  split
  · next hc => rw [if_neg (by simp [hc])]; exact short (by decide) (by simp [shortEscape?, hc])
  split
  · next hc => rw [if_neg (by simp [hc])]; exact short (by decide) (by simp [shortEscape?, hc])
  split
  · next hc => rw [if_neg (by simp [hc])]; exact short (by decide) (by simp [shortEscape?, hc])
  split
  · next hc => rw [if_neg (by simp [hc])]; exact short (by decide) (by simp [shortEscape?, hc])
  split
  · next hc =>
    rw [if_neg (by simp [hc])]
    obtain rfl : c = '\x08' := char_eq_of_toNat hc
    exact short (by decide) (by decide)
  split
  · next hc =>
    rw [if_neg (by simp [hc])]
    obtain rfl : c = '\x0c' := char_eq_of_toNat hc
    exact short (by decide) (by decide)
  split
  · next hn hr ht hb hf hc =>
    rw [if_pos ⟨hc, hn, hr, ht, hb, hf⟩]
    show readPieces ('\\' :: 'u' :: '0' :: '0' :: _ :: _ :: r) = _
    rw [readPieces, hexUnit?_control hc, h]
    rfl
  · next hq hb _ _ _ _ _ hc =>
    rw [if_neg (by simp [hc])]
    show readPieces (c :: r) = _
    rw [readPieces_plain hq hb hc, h]
    rfl

theorem readPieces_text (s rest : List Char) :
    readPieces (s.flatMap escape ++ '"' :: rest) = some (s.map pieceOf, rest) := by
  induction s with
  | nil => simp [readPieces]
  | cons c s ih =>
    rw [List.flatMap_cons, List.append_assoc, readPieces_escape c ih, List.map_cons]

/-- Units below the surrogates stand for themselves, whatever follows. -/
theorem joinPieces_unit {n : Nat} (hn : n < 0xD800) : ∀ ps : List Piece,
    joinPieces (.unit n :: ps) = (joinPieces ps).map (Char.ofNat n :: ·)
  | [] => by simp [joinPieces]; omega
  | .char c :: ps => by simp [joinPieces]; omega
  | .unit m :: ps => by
    have h1 : ¬(0xD800 ≤ n && n < 0xDC00) = true := by simp; omega
    have h2 : ¬(0xDC00 ≤ n && n < 0xE000) = true := by simp; omega
    rw [joinPieces, if_neg h1, if_neg h2]

theorem joinPieces_text (s : List Char) : joinPieces (s.map pieceOf) = some s := by
  induction s with
  | nil => rfl
  | cons c s ih =>
    rw [List.map_cons]
    by_cases hp : pieceOf c = .char c
    · rw [hp, joinPieces, ih]
      rfl
    · have hu : pieceOf c = .unit c.toNat ∧ c.toNat < 32 := by
        unfold pieceOf at hp ⊢
        split at hp
        · next hc => exact ⟨if_pos hc, hc.1⟩
        · exact absurd rfl hp
      rw [hu.1, joinPieces_unit (by omega), ih, Char.ofNat_toNat]
      rfl

theorem readString_text (s rest : List Char) :
    readString (s.flatMap escape ++ '"' :: rest) = some (some s, rest) := by
  rw [readString, readPieces_text]
  exact congrArg (fun t => some (t, rest)) (joinPieces_text s)

/-! ## Numbers -/

/-- The text does not go on with a number. -/
def NumberEnds (rest : List Char) : Prop :=
  ∀ c ∈ rest.head?, c.isDigit = false ∧ c ≠ '.' ∧ c ≠ 'e' ∧ c ≠ 'E'

theorem numberEnds_nil : NumberEnds [] := fun _ h => nomatch h

theorem numberEnds_cons {c : Char} (h : c.isDigit = false ∧ c ≠ '.' ∧ c ≠ 'e' ∧ c ≠ 'E')
    (r : List Char) : NumberEnds (c :: r) := by
  intro d hd
  cases hd
  exact h

theorem digitChar_spec : ∀ d < 10, (Numeral.digitChar d).isDigit = true ∧
    (Numeral.digitChar d).toNat - 48 = d := by decide

/-- Digits are read up to what is none. -/
theorem readDigits_append {ds : List Nat} (hds : ∀ d ∈ ds, d < 10) {rest : List Char}
    (hrest : ∀ c ∈ rest.head?, c.isDigit = false) :
    readDigits (ds.map Numeral.digitChar ++ rest) = (ds, rest) := by
  have hall : ∀ c ∈ ds.map Numeral.digitChar, c.isDigit = true := by
    intro c hc
    obtain ⟨d, hd, rfl⟩ := List.mem_map.mp hc
    exact (digitChar_spec d (hds d hd)).1
  have hstop : rest.takeWhile Char.isDigit = [] ∧ rest.dropWhile Char.isDigit = rest := by
    cases rest with
    | nil => exact ⟨rfl, rfl⟩
    | cons c r =>
      have hc := hrest c rfl
      exact ⟨by simp [hc], by simp [hc]⟩
  have hback : (ds.map Numeral.digitChar).map (fun c => c.toNat - 48) = ds := by
    rw [List.map_map]
    refine (List.map_congr_left fun d hd => ?_).trans (List.map_id ds)
    exact (digitChar_spec d (hds d hd)).2
  rw [readDigits, List.takeWhile_append_of_pos hall, List.dropWhile_append_of_pos hall, hstop.1,
    hstop.2, List.append_nil, hback]

theorem readWhole_append {w : List Nat} (hw : Numeral.Digits w) (hlead : w.head? = some 0 → w = [0])
    {rest : List Char} (hrest : ∀ c ∈ rest.head?, c.isDigit = false) :
    readWhole (w.map Numeral.digitChar ++ rest) = some (w, rest) := by
  rw [readWhole, readDigits_append hw.lt_ten hrest]
  split
  · next heq =>
    cases heq
    exact absurd rfl hw.ne_nil
  · next heq =>
    cases heq
    cases hlead rfl
  · next heq =>
    cases heq
    rfl

theorem numberEnds_notDigit {rest : List Char} (h : NumberEnds rest) :
    ∀ c ∈ rest.head?, c.isDigit = false := fun c hc => (h c hc).1

theorem readExponent_none {rest : List Char} (h : NumberEnds rest) :
    readExponent rest = some (none, rest) := by
  cases rest with
  | nil => rfl
  | cons c r =>
    have hc := h c rfl
    simp [readExponent, hc.2.2.1, hc.2.2.2]

/-- The exponent of a numeral is read as it is written. -/
theorem readExponent_chars {exponent : Option (Bool × List Nat)}
    (he : ∀ e ∈ exponent, Numeral.Digits e.2) {rest : List Char} (h : NumberEnds rest) :
    readExponent (Numeral.exponentChars exponent ++ rest) = some (exponent, rest) := by
  cases exponent with
  | none => exact readExponent_none h
  | some e =>
    obtain ⟨down, ds⟩ := e
    have hds := he (down, ds) rfl
    have hread : readExponentDigits down (ds.map Numeral.digitChar ++ rest) =
        some (some (down, ds), rest) := by
      rw [readExponentDigits, readDigits_append hds.lt_ten (numberEnds_notDigit h)]
      split
      · next heq =>
        cases heq
        exact absurd rfl hds.ne_nil
      · next heq =>
        cases heq
        rfl
    cases down <;> exact hread

/-- So is its fraction. -/
theorem readFraction_chars {fraction : Option (List Nat)}
    (hf : ∀ f ∈ fraction, Numeral.Digits f) {rest : List Char}
    (hrest : ∀ c ∈ rest.head?, c.isDigit = false ∧ c ≠ '.') :
    readFraction (Numeral.fractionChars fraction ++ rest) = some (fraction, rest) := by
  cases fraction with
  | none =>
    show readFraction rest = _
    unfold readFraction
    split
    · exact absurd rfl (hrest '.' rfl).2
    · rfl
  | some f =>
    have hd := hf f rfl
    show readFraction ('.' :: (f.map Numeral.digitChar ++ rest)) = _
    rw [readFraction, readDigits_append hd.lt_ten fun c hc => (hrest c hc).1]
    split
    · next heq =>
      cases heq
      exact absurd rfl hd.ne_nil
    · next heq =>
      cases heq
      rfl

theorem head?_exponentChars (exponent : Option (Bool × List Nat)) {rest : List Char}
    (h : NumberEnds rest) :
    ∀ c ∈ (Numeral.exponentChars exponent ++ rest).head?, c.isDigit = false ∧ c ≠ '.' := by
  cases exponent with
  | none => exact fun c hc => ⟨(h c hc).1, (h c hc).2.1⟩
  | some e =>
    intro c hc
    cases hc
    decide

theorem head?_fractionChars (fraction : Option (List Nat)) {rest : List Char}
    (h : ∀ c ∈ rest.head?, c.isDigit = false ∧ c ≠ '.') :
    ∀ c ∈ (Numeral.fractionChars fraction ++ rest).head?, c.isDigit = false := by
  cases fraction with
  | none => exact fun c hc => (h c hc).1
  | some f =>
    intro c hc
    cases hc
    decide

theorem readMagnitude_chars {n : Numeral} (hn : n.WellFormed) {rest : List Char}
    (h : NumberEnds rest) (negative : Bool) :
    readMagnitude negative (n.whole.map Numeral.digitChar ++
      (Numeral.fractionChars n.fraction ++ (Numeral.exponentChars n.exponent ++ rest))) =
        some (⟨negative, n.whole, n.fraction, n.exponent⟩, rest) := by
  have hexp := head?_exponentChars n.exponent h
  have hwhole := readWhole_append hn.whole hn.lead
    (head?_fractionChars n.fraction hexp)
  simp only [readMagnitude, hwhole, readFraction_chars hn.fraction hexp,
    readExponent_chars hn.exponent h, Option.bind_eq_bind, Option.bind_some, Option.pure_def]

/-- The first character of a number without a sign is a digit. -/
theorem head?_whole {w : List Nat} (hw : Numeral.Digits w) (rest : List Char) :
    ∃ c r, w.map Numeral.digitChar ++ rest = c :: r ∧ c.isDigit = true := by
  cases w with
  | nil => exact absurd rfl hw.ne_nil
  | cons d ds => exact ⟨_, _, rfl, (digitChar_spec d (hw.lt_ten d (by simp))).1⟩

/-- A numeral is read back, if nothing goes on with it. -/
theorem readNumber_chars {n : Numeral} (hn : n.WellFormed) {rest : List Char}
    (h : NumberEnds rest) : readNumber (n.chars ++ rest) = some (n, rest) := by
  have hmagnitude := readMagnitude_chars hn h
  rw [Numeral.chars, List.append_assoc, List.append_assoc, List.append_assoc]
  obtain ⟨negative, w, fraction, exponent⟩ := n
  cases negative with
  | true => exact hmagnitude true
  | false =>
    obtain ⟨c, r, hcr, hc⟩ := head?_whole hn.whole
      (Numeral.fractionChars fraction ++ (Numeral.exponentChars exponent ++ rest))
    have hm := hmagnitude false
    dsimp only at hm hcr ⊢
    rw [hcr] at hm ⊢
    show readNumber (c :: r) = _
    unfold readNumber
    split
    · next heq =>
      cases heq
      cases hc
    · exact hm

end Json

end SensorCache
