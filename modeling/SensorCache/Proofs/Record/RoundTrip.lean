import SensorCache.Proofs.Entity.RoundTrip
import SensorCache.Proofs.Text.Lines
import SensorCache.Record.Basic

/-!
# Reading back records

A line is its record again: its key ends at the first tab, since a key that is allowed has none, and
its body holds no control characters, so it is all of one line. A text of lines is therefore read as
the map of their entities, the last of each key.
-/

namespace SensorCache.Record

open Text Json

variable {α : Type} [Entity α]

/-! ## Keys -/

/-- A key that no line can have: empty, or with a character that ends the key or the line. -/
def BadKey (k : String) : Prop := k = "" ∨ '\t' ∈ k.toList ∨ '\n' ∈ k.toList ∨ '\r' ∈ k.toList

theorem keyAllowed_eq_false {k : String} : keyAllowed k = false ↔ BadKey k := by
  have hall : (k.toList.all fun c => c != separator && c != '\n' && c != '\r') = false ↔
      '\t' ∈ k.toList ∨ '\n' ∈ k.toList ∨ '\r' ∈ k.toList := by
    rw [List.all_eq_false]
    constructor
    · rintro ⟨c, hc, hbad⟩
      simp only [separator, Bool.and_eq_true, bne_iff_ne, not_and, Decidable.not_not, ne_eq] at hbad
      by_cases ht : c = '\t'
      · exact .inl (ht ▸ hc)
      · by_cases hn : c = '\n'
        · exact .inr (.inl (hn ▸ hc))
        · exact .inr (.inr (hbad ⟨ht, hn⟩ ▸ hc))
    · rintro (h | h | h)
      · exact ⟨_, h, by decide⟩
      · exact ⟨_, h, by decide⟩
      · exact ⟨_, h, by decide⟩
  rw [keyAllowed, Bool.and_eq_false_iff, hall, BadKey]
  simp

theorem not_mem_of_keyAllowed {k : String} (h : keyAllowed k = true) :
    '\t' ∉ k.toList ∧ OneLine k.toList := by
  have hbad : ¬BadKey k := fun hbad => by
    rw [keyAllowed_eq_false.mpr hbad] at h
    cases h
  simp only [BadKey, not_or] at hbad
  exact ⟨hbad.2.1, hbad.2.2.1, hbad.2.2.2⟩

/-- An entity is refused exactly for its key. -/
theorem encode_eq_error {e : α} : (∃ x, encode e = .error x) ↔ BadKey (Entity.key e) := by
  rw [← keyAllowed_eq_false, encode]
  cases keyAllowed (Entity.key e) <;> simp

theorem encode_eq_ok {e : α} {l : List Char} :
    encode e = .ok l ↔ keyAllowed (Entity.key e) = true ∧ l = line e := by
  rw [encode]
  cases keyAllowed (Entity.key e) <;> simp [eq_comm]

/-- Entities are encoded to their lines, when none of them is refused. -/
theorem encoded_lines : ∀ {es : List α} {ls : List (List Char)}, es.mapM encode = .ok ls →
    (∀ e ∈ es, keyAllowed (Entity.key e) = true) ∧ ls = es.map line
  | [], ls, h => by
    cases h
    refine ⟨fun e he => ?_, rfl⟩
    cases he
  | e :: es, ls, h => by
    rw [List.mapM_cons] at h
    cases he : encode e with
    | error x =>
      rw [he] at h
      cases h
    | ok l =>
      cases hes : es.mapM encode with
      | error x =>
        rw [he, hes] at h
        cases h
      | ok ms =>
        rw [he, hes] at h
        cases h
        obtain ⟨hkey, rfl⟩ := encode_eq_ok.mp he
        obtain ⟨hkeys, rfl⟩ := encoded_lines hes
        refine ⟨fun a ha => ?_, rfl⟩
        rcases List.mem_cons.mp ha with rfl | ha
        · exact hkey
        · exact hkeys a ha

theorem mapM_encode : ∀ {es : List α}, (∀ e ∈ es, keyAllowed (Entity.key e) = true) →
    es.mapM encode = .ok (es.map line)
  | [], _ => rfl
  | e :: es, h => by
    have he : encode e = .ok (line e) := encode_eq_ok.mpr ⟨h e List.mem_cons_self, rfl⟩
    rw [List.mapM_cons, he, mapM_encode fun a ha => h a (List.mem_cons_of_mem _ ha)]
    rfl

/-! ## Lines -/

theorem isBlank_of_text {v : Json} (h : v.Proper) : ∃ c ∈ v.text, isBlank c = false := by
  obtain ⟨c, r, hcr, hc⟩ := text_begins h
  exact ⟨c, by simp [hcr], hc.1⟩

theorem oneLine_of_printable {s : List Char} (h : Printable s) : OneLine s :=
  ⟨fun hc => absurd (h _ hc) (by decide), fun hc => absurd (h _ hc) (by decide)⟩

/-- The line of an entity is one line. -/
theorem oneLine_line {e : α} (hkey : keyAllowed (Entity.key e) = true)
    (hproper : (Entity.toJson e).Proper) : OneLine (line e) :=
  (not_mem_of_keyAllowed hkey).2.append <|
    .cons (oneLine_of_printable (printable_text hproper)) (by decide) (by decide)

/-- What the body of an entity is read as. -/
def readBack? (e : α) : Option α := (Json.parse? (Entity.body e)).bind Entity.ofJson?

theorem readBack?_of_proper {e : α} (h : (Entity.toJson e).Proper) :
    readBack? e = Entity.ofJson? (Entity.toJson e) := by
  rw [readBack?, show Json.parse? (Entity.body e) = some (Entity.toJson e) from parse?_text h,
    Option.bind_some]

/-- The line of an entity is a record of its key and of what its body is read as. -/
theorem ofLine?_line {e : α} (hkey : keyAllowed (Entity.key e) = true)
    (hproper : (Entity.toJson e).Proper) :
    ofLine? α (line e) = (readBack? e).map fun a => (Entity.key e, a) := by
  obtain ⟨c, hc, hblank⟩ := isBlank_of_text hproper
  -- A key that is allowed has no tab, so the first one of the line ends the key.
  have hsplit : splitFirst? (· == separator) (line e) =
      some ((Entity.key e).toList, Entity.body e) := by
    refine splitFirst?_append (fun d hd => ?_) separator (by decide) _
    rw [beq_eq_false_iff_ne]
    rintro rfl
    exact (not_mem_of_keyAllowed hkey).1 hd
  have hline : allBlank (line e) = false :=
    allBlank_of_mem (List.mem_append_right _ (List.mem_cons_of_mem _ hc)) hblank
  rw [ofLine?, hline, if_neg (by decide), hsplit]
  simp only [readBack?, String.ofList_toList]

variable [LawfulEntity α]

theorem readBack?_of_readsBack {e : α} (he : LawfulEntity.ReadsBack e) : readBack? e = some e := by
  rw [readBack?_of_proper (LawfulEntity.proper he), LawfulEntity.ofJson?_toJson he]

/-! ## Texts of lines -/

/-- A text of lines is read as the records of its lines. -/
theorem readAll_lines {es : List α}
    (h : ∀ e ∈ es, keyAllowed (Entity.key e) = true ∧ LawfulEntity.ReadsBack e) :
    readAll α (unlines (es.map line)) = es.map fun e => (Entity.key e, e) := by
  have hone : ∀ l ∈ es.map line, OneLine l := by
    intro l hl
    obtain ⟨e, he, rfl⟩ := List.mem_map.mp hl
    exact oneLine_line (h e he).1 (LawfulEntity.proper (h e he).2)
  have hread : ∀ e ∈ es, ofLine? α (line e) = some (Entity.key e, e) := by
    intro e he
    rw [ofLine?_line (h e he).1 (LawfulEntity.proper (h e he).2), readBack?_of_readsBack (h e he).2]
    rfl
  rw [readAll, lines_unlines hone, List.filterMap_map]
  clear h hone
  induction es with
  | nil => rfl
  | cons e es ih =>
    have hhead : (ofLine? α ∘ line) e = some (Entity.key e, e) := hread e List.mem_cons_self
    rw [List.map_cons, List.filterMap_cons_some hhead,
      ih fun a ha => hread a (List.mem_cons_of_mem _ ha)]

/-- The lines of entities are decoded to the last entity of each key. -/
theorem get?_decode {es : List α} {ls : List (List Char)} (hls : es.mapM encode = .ok ls)
    (he : ∀ e ∈ es, LawfulEntity.ReadsBack e) (k : String) :
    (decode α (unlines ls)).get? k = (es.filter fun e => Entity.key e = k).getLast? := by
  obtain ⟨hkeys, rfl⟩ := encoded_lines hls
  rw [decode, readAll_lines fun e hm => ⟨hkeys e hm, he e hm⟩]
  exact Keyed.get?_ofList_map Entity.key es k

/-- Records lose nothing: an entity is refused exactly when its key is empty or holds a tab, a line
feed or a carriage return, and the lines of entities that are not refused decode to the last of them
under each key. The coordinates of the offerings have to read back as numbers. -/
theorem records_lossless :
    (∀ u : UnitMapping, (∃ x, encode u = .error x) ↔ BadKey u.phenomenon) ∧
      (∀ o : Offering, (∃ x, encode o = .error x) ↔ BadKey o.identifier) ∧
      (∀ (us : List UnitMapping) (ls : List (List Char)), us.mapM encode = .ok ls →
        ∀ k, (decode UnitMapping (unlines ls)).get? k =
          (us.filter fun u => u.phenomenon = k).getLast?) ∧
      ∀ (os : List Offering) (ls : List (List Char)), os.mapM encode = .ok ls →
        (∀ o ∈ os, o.ReadsBack) → ∀ k, (decode Offering (unlines ls)).get? k =
          (os.filter fun o => o.identifier = k).getLast? := by
  refine ⟨fun u => encode_eq_error, fun o => encode_eq_error, fun us ls hls => ?_,
    fun os ls hls hos => ?_⟩
  · exact get?_decode hls fun _ _ => trivial
  · exact get?_decode hls hos

/-- Two units of one phenomenon, and an offering with a bounding box. -/
theorem records_lossless_samples :
    (decode UnitMapping (unlines (List.map line
        [(⟨"depth", "m"⟩ : UnitMapping), ⟨"depth", "c\tm"⟩]))).get? "depth" =
          some ⟨"depth", "c\tm"⟩ ∧
      ∃ o : Offering, o.envelope ≠ none ∧
        (decode Offering (unlines (List.map line [o]))).get? o.identifier = some o := by
  constructor
  · let us : List UnitMapping := [⟨"depth", "m"⟩, ⟨"depth", "c\tm"⟩]
    have h := records_lossless.2.2.1 us _ (mapM_encode (by decide +kernel)) "depth"
    exact h.trans (by decide +kernel)
  · let five : Double := ⟨false, 0x14000000000000, -50, by decide, by decide, by decide,
      .inl (by decide)⟩
    have hfive : five.ReadsBack := by decide +kernel
    let o : Offering := ⟨"tide", none, ["gauge"], .empty, [], none,
      some ⟨4326, ⟨five, five⟩, ⟨five, five⟩, by decide⟩⟩
    have ho : ∀ a ∈ [o], a.ReadsBack := by
      intro a ha
      cases List.mem_singleton.mp ha
      rintro e ⟨⟩
      exact ⟨⟨hfive, hfive⟩, hfive, hfive⟩
    refine ⟨o, by simp [o], ?_⟩
    have h := records_lossless.2.2.2 [o] _ (mapM_encode (by decide +kernel)) ho "tide"
    exact h.trans (by decide +kernel)

end SensorCache.Record
