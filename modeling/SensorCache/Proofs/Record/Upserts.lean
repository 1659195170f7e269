import SensorCache.Proofs.Json.Blanks
import SensorCache.Proofs.Record.Logs

/-!
# Texts as upsert logs

A text of records may be cut at any line feed: what stands behind the cut is laid over what stands
before it (`decode_append_feed`), whatever the two halves are. The lines of the first half are not
quite those it has by itself, since a carriage return at its end is no ending until the line feed
follows. It does not count for the records either way: to a blank line it is one blank more, and in
the body of a record it is a blank behind a value (`ofLine?_append_return`).

What lines may be left out, which endings they have and what is added behind them all follow
(`UpsertLog`).
-/

namespace SensorCache

namespace Text

theorem dropReturn_eq_or (l : List Char) :
    dropReturn '\r' l = l ∨ l = dropReturn '\r' l ++ ['\r'] := by
  unfold dropReturn
  split
  · next c r hrev =>
    split
    · next hc =>
      refine .inr ?_
      rw [← List.reverse_reverse l, hrev, List.reverse_cons, beq_iff_eq.mp hc]
    · exact .inl rfl
  · next hrev => exact .inl (List.reverse_eq_nil_iff.mp hrev).symm

theorem splitFirst?_eq_none {p : Char → Bool} : ∀ {s : List Char}, (∀ c ∈ s, p c = false) →
    splitFirst? p s = none
  | [], _ => rfl
  | c :: s, h => by
    have hs := splitFirst?_eq_none fun d hd => h d (List.mem_cons_of_mem c hd)
    rw [splitFirst?, h c List.mem_cons_self, if_neg (by decide), hs]
    rfl

/-- What holds no separator and stands behind is left with what is behind the first separator. -/
theorem splitFirst?_append_right {p : Char → Bool} {w : List Char} (hw : ∀ c ∈ w, p c = false) :
    ∀ s : List Char, splitFirst? p (s ++ w) = (splitFirst? p s).map fun (a, b) => (a, b ++ w)
  | [] => splitFirst?_eq_none hw
  | c :: s => by
    rw [List.cons_append, splitFirst?, splitFirst?]
    split
    · rfl
    · rw [splitFirst?_append_right hw s, Option.map_map, Option.map_map]
      rfl

/-- A text without line feeds is part of the line that is pending. -/
theorem linesFrom_of_no_feed : ∀ {l : List Char} (pending : List Char), '\n' ∉ l →
    linesFrom '\n' '\r' pending l = linesFrom '\n' '\r' (l.reverse ++ pending) []
  | [], _, _ => rfl
  | c :: l, pending, h => by
    have hc : ¬(c == '\n') = true := fun hc => h (beq_iff_eq.mp hc ▸ List.mem_cons_self)
    have hl : '\n' ∉ l := fun hl => h (List.mem_cons_of_mem c hl)
    have hstep : linesFrom '\n' '\r' pending (c :: l) = linesFrom '\n' '\r' (c :: pending) l :=
      if_neg hc
    rw [hstep, linesFrom_of_no_feed (c :: pending) hl, List.reverse_cons, List.append_assoc,
      List.singleton_append]

theorem allBlank_dropReturn {l : List Char} (h : allBlank l = true) :
    allBlank (dropReturn '\r' l) = true := by
  rcases dropReturn_eq_or l with hl | hl
  · rwa [hl]
  · rw [hl, allBlank, List.all_append, Bool.and_eq_true] at h
    exact h.1

/-- The lines of a blank text are blank. -/
theorem allBlank_linesFrom : ∀ {w : List Char} (pending : List Char), allBlank pending = true →
    allBlank w = true → ∀ l ∈ linesFrom '\n' '\r' pending w, allBlank l = true
  | [], pending, hpending, _, l, hl => by
    rw [linesFrom] at hl
    split at hl
    · cases hl
    · rw [List.mem_singleton.mp hl, allBlank, List.all_reverse]
      exact hpending
  | c :: w, pending, hpending, hw, l, hl => by
    have hw : isBlank c = true ∧ allBlank w = true := by simpa [allBlank] using hw
    rw [linesFrom] at hl
    split at hl
    · rcases List.mem_cons.mp hl with rfl | hl
      · refine allBlank_dropReturn ?_
        rwa [allBlank, List.all_reverse]
      · exact allBlank_linesFrom [] rfl hw.2 l hl
    · refine allBlank_linesFrom (c :: pending) ?_ hw.2 l hl
      rw [allBlank, List.all_cons, hw.1]
      exact hpending

end Text

namespace Record

open Text

variable {α : Type} [Entity α]

/-! ## Lines and their endings -/

/-- A line that is no record: blank, without separator, or with a body that is no entity. -/
inductive NoRecord (α : Type) [Entity α] : List Char → Prop
  | blank {l} (h : allBlank l = true) : NoRecord α l
  | unseparated {l} (h : separator ∉ l) : NoRecord α l
  | malformed {id body} (hid : separator ∉ id)
      (hbody : (Json.parse? body).bind (Entity.ofJson? (α := α)) = none) :
      NoRecord α (id ++ separator :: body)

theorem separates_eq_false {l : List Char} (h : separator ∉ l) :
    ∀ c ∈ l, (c == separator) = false := fun c hc => by
  rw [beq_eq_false_iff_ne]
  rintro rfl
  exact h hc

theorem ofLine?_of_allBlank {l : List Char} (h : allBlank l = true) : ofLine? α l = none := by
  rw [ofLine?, if_pos h]

theorem ofLine?_of_noRecord {l : List Char} (h : NoRecord α l) : ofLine? α l = none := by
  cases h with
  | blank h => exact ofLine?_of_allBlank h
  | unseparated h =>
    rw [ofLine?, splitFirst?_eq_none (separates_eq_false h)]
    exact ite_self _
  | malformed hid hbody =>
    rw [ofLine?, splitFirst?_append (separates_eq_false hid) separator (by decide)]
    dsimp only
    rw [hbody]
    exact ite_self _

/-- A carriage return at the end of a line changes nothing. -/
theorem ofLine?_append_return (l : List Char) : ofLine? α (l ++ ['\r']) = ofLine? α l := by
  have hblank : allBlank (l ++ ['\r']) = allBlank l := by
    rw [allBlank, List.all_append, show ['\r'].all isBlank = true from rfl, Bool.and_true]
    rfl
  have hreturn : ∀ c ∈ ['\r'], (c == separator) = false := separates_eq_false (by decide)
  rw [ofLine?, ofLine?, hblank, splitFirst?_append_right hreturn]
  cases splitFirst? (· == separator) l with
  | none => rfl
  | some x =>
    have hspaces : Json.Spaces ['\r'] := List.all_eq_true.mp (by decide)
    simp only [Option.map_some, Json.parse?_append_spaces hspaces]

theorem ofLine?_dropReturn (l : List Char) : ofLine? α (dropReturn '\r' l) = ofLine? α l := by
  rcases dropReturn_eq_or l with h | h
  · rw [h]
  · rw [← ofLine?_append_return (dropReturn '\r' l), ← h]

/-- What changes nothing behind any last line changes nothing behind a text. -/
theorem records_append {w : List Char}
    (hw : ∀ pending, (linesFrom '\n' '\r' pending w).filterMap (ofLine? α) =
      (linesFrom '\n' '\r' pending []).filterMap (ofLine? α)) :
    ∀ pending a : List Char, (linesFrom '\n' '\r' pending (a ++ w)).filterMap (ofLine? α) =
      (linesFrom '\n' '\r' pending a).filterMap (ofLine? α)
  | pending, [] => hw pending
  | pending, c :: a => by
    rw [List.cons_append, linesFrom, linesFrom]
    split
    · rw [List.filterMap_cons, List.filterMap_cons, records_append hw [] a]
    · exact records_append hw (c :: pending) a

/-- A last line that breaks off is the record that it is by itself; an empty one is none. -/
theorem records_pending (pending : List Char) :
    (linesFrom '\n' '\r' pending []).filterMap (ofLine? α) = (ofLine? α pending.reverse).toList := by
  cases pending with
  | nil => rfl
  | cons c pending =>
    show [(c :: pending).reverse].filterMap (ofLine? α) = _
    rw [List.filterMap_cons]
    cases ofLine? α (c :: pending).reverse <;> rfl

/-- Whether a last line was ended or broke off does not count. -/
theorem records_append_feed (pending a : List Char) :
    (linesFrom '\n' '\r' pending (a ++ ['\n'])).filterMap (ofLine? α) =
      (linesFrom '\n' '\r' pending a).filterMap (ofLine? α) := by
  refine records_append (fun pending => ?_) pending a
  have hended : linesFrom '\n' '\r' pending ['\n'] = [dropReturn '\r' pending.reverse] := by
    simp [linesFrom]
  rw [hended, records_pending, List.filterMap_cons, ofLine?_dropReturn]
  cases ofLine? α pending.reverse <;> rfl

theorem records_append_return (pending a : List Char) :
    (linesFrom '\n' '\r' pending (a ++ ['\r'])).filterMap (ofLine? α) =
      (linesFrom '\n' '\r' pending a).filterMap (ofLine? α) := by
  refine records_append (fun pending => ?_) pending a
  have hbroken : linesFrom '\n' '\r' pending ['\r'] = linesFrom '\n' '\r' ('\r' :: pending) [] :=
    linesFrom_of_no_feed pending (by decide)
  rw [hbroken, records_pending, records_pending, List.reverse_cons, ofLine?_append_return]

/-! ## Cuts -/

theorem readAll_append_feed (a b : List Char) :
    readAll α (a ++ '\n' :: b) = readAll α a ++ readAll α b := by
  rw [readAll, lines, linesFrom_append_feed, List.filterMap_append, records_append_feed]
  rfl

theorem decode_append_feed (a b : List Char) :
    decode α (a ++ '\n' :: b) = (decode α a).overlay (decode α b) := by
  rw [decode, readAll_append_feed, Keyed.ofList_append]
  rfl

theorem readAll_of_no_feed {l : List Char} (hl : '\n' ∉ l) :
    readAll α l = (ofLine? α l).toList := by
  rw [readAll, lines, linesFrom_of_no_feed [] hl, records_pending, List.append_nil,
    List.reverse_reverse]

theorem readAll_of_noRecord {l : List Char} (hl : '\n' ∉ l) (h : NoRecord α l) :
    readAll α l = [] := by
  rw [readAll_of_no_feed hl, ofLine?_of_noRecord h]
  rfl

theorem readAll_of_allBlank {w : List Char} (hw : allBlank w = true) : readAll α w = [] := by
  rw [readAll, List.filterMap_eq_nil_iff]
  exact fun l hl => ofLine?_of_allBlank (allBlank_linesFrom [] rfl hw l hl)

/-- A record that is added to text with an ended last line is read after all of it. -/
theorem readAll_append_line {a l : List Char} (ha : a = [] ∨ ∃ b, a = b ++ ['\n']) (hl : '\n' ∉ l) :
    readAll α (a ++ (l ++ ['\n'])) = readAll α a ++ (ofLine? α l).toList := by
  have hended (t : List Char) : readAll α (t ++ ['\n']) = readAll α t := by
    rw [readAll_append_feed]
    exact List.append_nil _
  rw [← readAll_of_no_feed hl]
  obtain rfl | ⟨b, rfl⟩ := ha
  · exact hended l
  · rw [← List.append_assoc, hended, hended, List.append_assoc]
    exact readAll_append_feed b l

/-! ## Upsert logs -/

/-- What it takes for the texts of a kind of entities to be upsert logs. -/
structure UpsertLog (α : Type) [Entity α] : Prop where
  /-- Of a text that is cut at a line feed, the second half is laid over the first. -/
  overlaid (a b : List Char) : decode α (a ++ '\n' :: b) = (decode α a).overlay (decode α b)
  /-- A line that is no record takes nothing else with it, wherever it stands. -/
  passed_over (a b : List Char) {l : List Char} (hl : '\n' ∉ l) (h : NoRecord α l) :
    decode α (a ++ '\n' :: (l ++ '\n' :: b)) = decode α (a ++ '\n' :: b) ∧
      decode α (l ++ '\n' :: b) = decode α b ∧ decode α (a ++ '\n' :: l) = decode α a
  /-- It does not matter how a line is ended. -/
  ending (a b : List Char) : decode α (a ++ '\r' :: '\n' :: b) = decode α (a ++ '\n' :: b)
  /-- Blank lines at the end do not matter. -/
  blank_end (a : List Char) {w : List Char} (hw : allBlank w = true) :
    decode α (a ++ '\n' :: w) = decode α a
  /-- A record that is added behind a line feed, or to nothing, touches no other key. -/
  added {a l : List Char} {e : α} {k : String} (ha : a = [] ∨ ∃ b, a = b ++ ['\n'])
    (hl : encode e = .ok l) (hk : k ≠ Entity.key e) :
    (decode α (a ++ (l ++ ['\n']))).get? k = (decode α a).get? k

theorem upsertLog [KeyedEntity α] : UpsertLog α where
  overlaid := decode_append_feed
  passed_over a b l hl h := by
    have hline : readAll α l = [] := readAll_of_noRecord hl h
    simp only [decode, readAll_append_feed, hline, List.nil_append, List.append_nil, and_self]
  ending a b := by
    have hreturn : readAll α (a ++ ['\r']) = readAll α a := records_append_return [] a
    rw [List.append_cons, decode, readAll_append_feed, hreturn, ← readAll_append_feed, decode]
  blank_end a w hw := by
    rw [decode, readAll_append_feed, readAll_of_allBlank hw, List.append_nil, decode]
  added {a l e k} ha hl hk := by
    obtain ⟨hkey, rfl⟩ := encode_eq_ok.mp hl
    have hproper := KeyedEntity.proper e
    rw [decode, readAll_append_line ha (oneLine_line hkey hproper).no_feed, Keyed.ofList_append,
      Keyed.get?_overlay, ofLine?_line hkey hproper]
    cases readBack? e with
    | none => rfl
    | some b =>
      have hother : (Keyed.ofList [(Entity.key e, b)]).get? k = none := by
        rw [Keyed.get?_ofList]
        simp [hk]
      rw [Option.map_some, Option.toList_some, hother]
      rfl

/-- A unit that is corrected behind a line with a broken body, and an offering that is added. -/
theorem upsertLog_samples :
    (decode UnitMapping (line (⟨"depth", "m"⟩ : UnitMapping) ++
      '\n' :: ("depth\tcm".toList ++ '\n' :: line (⟨"depth", "cm"⟩ : UnitMapping)))).get? "depth" =
        some ⟨"depth", "cm"⟩ ∧
      ∃ o : Offering, (decode Offering ([] ++ (line o ++ ['\n']))).get? "buoy" = none := by
  constructor
  · have hbody : (Json.parse? ['c', 'm']).bind (Entity.ofJson? (α := UnitMapping)) = none := by
      decide +kernel
    have hbroken : NoRecord UnitMapping "depth\tcm".toList :=
      show NoRecord UnitMapping ("depth".toList ++ separator :: ['c', 'm']) from
        .malformed (by decide) hbody
    rw [(upsertLog.passed_over _ _ (by decide) hbroken).1, upsertLog.overlaid, Keyed.get?_overlay]
    decide +kernel
  · let o : Offering := ⟨"mooring", none, [], .empty, [], none, none⟩
    have ho : encode o = .ok (line o) := encode_eq_ok.mpr ⟨by decide +kernel, rfl⟩
    exact ⟨o, upsertLog.added (.inl rfl) ho (by decide)⟩

end Record

end SensorCache
