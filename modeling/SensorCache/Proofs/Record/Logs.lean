import SensorCache.Cache.Basic
import SensorCache.Proofs.Keyed
import SensorCache.Proofs.Record.RoundTrip

/-!
# Logs of records

A file to which records are added, one after another, is a log: what it is read as has for each key
what its last record says. That holds of texts (`reread_append`), so a log of records that each read
back by themselves (`Readable`) is read as the batch of its entities (`reread_of_readable`).

A batch may be written in any order, since its entities have different keys (`batchOf_of_perm`).
-/

namespace SensorCache

namespace Text

/-- What stands before a line feed does not matter for the lines after it. -/
theorem linesFrom_append_feed : ∀ (pending a b : List Char),
    linesFrom '\n' '\r' pending (a ++ '\n' :: b) =
      linesFrom '\n' '\r' pending (a ++ ['\n']) ++ linesFrom '\n' '\r' [] b
  | pending, [], b => by simp [linesFrom]
  | pending, c :: a, b => by
    simp only [List.cons_append, linesFrom]
    split
    · rw [linesFrom_append_feed [] a b, List.cons_append]
    · exact linesFrom_append_feed (c :: pending) a b

theorem lines_unlines_append (a b : List (List Char)) :
    lines (unlines (a ++ b)) = lines (unlines a) ++ lines (unlines b) := by
  have hcons : ∀ (l : List Char) (ls : List (List Char)),
      lines (unlines (l :: ls)) = lines (unlines [l]) ++ lines (unlines ls) := fun l ls =>
    linesFrom_append_feed [] l (unlines ls)
  induction a with
  | nil => rfl
  | cons l a ih => rw [List.cons_append, hcons, ih, hcons l a, List.append_assoc]

end Text

/-! ## Batches -/

open EntityCache

variable {α : Type} [Entity α]

namespace Keyed

/-- Each entity is under its own key. -/
def ByKey (m : Keyed α) : Prop := ∀ ⦃k : String⦄ ⦃e : α⦄, m.get? k = some e → Entity.key e = k

theorem ByKey.overlay {m n : Keyed α} (hm : m.ByKey) (hn : n.ByKey) : (m.overlay n).ByKey := by
  intro k e h
  rw [get?_overlay, Option.or_eq_some_iff] at h
  exact h.elim (fun h => hn h) fun h => hm h.2

theorem ByKey.map_key {m : Keyed α} (h : m.ByKey) : m.values.map Entity.key = m.keys := by
  rw [values, keys, List.map_map]
  refine List.map_congr_left fun e he => ?_
  exact h (mem_entries.mp he)

theorem ByKey.nodup {m : Keyed α} (h : m.ByKey) : (m.values.map Entity.key).Nodup :=
  h.map_key ▸ m.nodup_keys

theorem mem_values {α : Type} {m : Keyed α} {e : α} : e ∈ m.values ↔ ∃ k, m.get? k = some e := by
  constructor
  · intro he
    obtain ⟨⟨k, a⟩, ha, rfl⟩ := List.mem_map.mp he
    exact ⟨k, mem_entries.mp ha⟩
  · rintro ⟨k, hk⟩
    exact List.mem_map.mpr ⟨(k, e), mem_entries.mpr hk, rfl⟩

theorem mem_values_overlay {α : Type} {m n : Keyed α} {e : α} (h : e ∈ (m.overlay n).values) :
    e ∈ m.values ∨ e ∈ n.values := by
  obtain ⟨k, hk⟩ := mem_values.mp h
  rw [get?_overlay, Option.or_eq_some_iff] at hk
  rcases hk with hk | ⟨-, hk⟩
  · exact .inr (mem_values.mpr ⟨k, hk⟩)
  · exact .inl (mem_values.mpr ⟨k, hk⟩)

theorem ByKey.get?_eq_some {m : Keyed α} (h : m.ByKey) {k : String} {e : α} :
    m.get? k = some e ↔ e ∈ m.values ∧ Entity.key e = k := by
  constructor
  · intro he
    exact ⟨mem_values.mpr ⟨k, he⟩, h he⟩
  · rintro ⟨he, rfl⟩
    obtain ⟨j, hj⟩ := mem_values.mp he
    rwa [h hj]

end Keyed

namespace EntityCache

theorem batchOf_append (a b : List α) : batchOf (a ++ b) = (batchOf a).overlay (batchOf b) := by
  rw [batchOf, List.map_append, Keyed.ofList_append]
  rfl

theorem get?_batchOf (es : List α) (k : String) :
    (batchOf es).get? k = (es.filter fun e => Entity.key e = k).getLast? :=
  Keyed.get?_ofList_map Entity.key es k

theorem mem_of_get?_batchOf {es : List α} {k : String} {e : α} (h : (batchOf es).get? k = some e) :
    e ∈ es ∧ Entity.key e = k := by
  rw [get?_batchOf] at h
  simpa using List.mem_of_getLast? h

theorem mem_of_mem_batchOf {es : List α} {e : α} (h : e ∈ (batchOf es).values) : e ∈ es :=
  have ⟨_, hk⟩ := Keyed.mem_values.mp h
  (mem_of_get?_batchOf hk).1

theorem byKey_batchOf (es : List α) : (batchOf es).ByKey := fun _ _ h =>
  (mem_of_get?_batchOf h).2

theorem batchOf_eq_empty {es : List α} : batchOf es = .empty ↔ es = [] := by
  constructor
  · intro h
    cases es with
    | nil => rfl
    | cons e es =>
      have hnone : (batchOf (e :: es)).get? (Entity.key e) = none := by rw [h]; rfl
      rw [get?_batchOf] at hnone
      simp at hnone
  · rintro rfl
    rfl

/-- Where no two entities have one key, each is what the batch has under its key. -/
theorem get?_batchOf_of_nodup {es : List α} (h : (es.map Entity.key).Nodup) {k : String} {e : α} :
    (batchOf es).get? k = some e ↔ e ∈ es ∧ Entity.key e = k := by
  refine ⟨mem_of_get?_batchOf, ?_⟩
  rintro ⟨he, rfl⟩
  induction es with
  | nil => cases he
  | cons a es ih =>
    rw [List.map_cons, List.nodup_cons] at h
    have hcons : batchOf (a :: es) = (batchOf [a]).overlay (batchOf es) := batchOf_append [a] es
    rw [hcons, Keyed.get?_overlay, Option.or_eq_some_iff]
    rcases List.mem_cons.mp he with rfl | he
    · -- The later ones win, but none of them has the key of the first.
      refine .inr ⟨?_, by simp [get?_batchOf]⟩
      cases hk : (batchOf es).get? (Entity.key e) with
      | none => rfl
      | some b =>
        obtain ⟨hb, hkey⟩ := mem_of_get?_batchOf hk
        exact absurd (List.mem_map.mpr ⟨b, hb, hkey⟩) h.1
    · exact .inl (ih h.2 he)

/-- The values of a map in any order make the map. -/
theorem batchOf_of_perm {m : Keyed α} (hm : m.ByKey) {es : List α} (hes : es.Perm m.values) :
    batchOf es = m := by
  have hnodup : (es.map Entity.key).Nodup := (hes.map Entity.key).nodup_iff.mpr hm.nodup
  refine Keyed.ext_get? fun k => Option.ext fun e => ?_
  rw [get?_batchOf_of_nodup hnodup, hm.get?_eq_some, hes.mem_iff]

end EntityCache

/-! ## Logs -/

namespace Record

/-- The key of the entity is allowed. -/
abbrev Accepted (e : α) : Prop := keyAllowed (Entity.key e) = true

/-- The bytes of the record lines of entities. -/
def logBytes (es : List α) : ByteArray := (String.ofList (Text.unlines (es.map line))).toUTF8

/-- What a file of the record lines of entities is read as. -/
def reread (es : List α) : Keyed α := decode α (Text.unlines (es.map line))

theorem logBytes_append (a b : List α) : logBytes (a ++ b) = logBytes a ++ logBytes b := by
  simp only [logBytes, List.map_append, Text.unlines_append, String.toUTF8_eq_toByteArray,
    String.ofList_append, String.toByteArray_append]

theorem logBytes_singleton (e : α) : logBytes [e] = CacheFiles.lineBytes (line e) := rfl

/-- Only a log without records is empty. -/
theorem size_logBytes (es : List α) : (logBytes es).size = 0 ↔ es = [] := by
  rw [ByteArray.size_eq_zero_iff, logBytes, String.toUTF8_eq_toByteArray,
    String.toByteArray_eq_empty_iff]
  cases es with
  | nil => simp [Text.unlines]
  | cons e es => simp [Text.unlines]

/-- A log is a text. -/
theorem fromUTF8?_logBytes (es : List α) :
    String.fromUTF8? (logBytes es) = some (String.ofList (Text.unlines (es.map line))) := by
  rw [logBytes, String.toUTF8_eq_toByteArray, String.fromUTF8?, dif_pos (String.isValidUTF8 _)]
  rfl

/-- What is added to a log is laid over what it was read as. -/
theorem reread_append (a b : List α) : reread (a ++ b) = (reread a).overlay (reread b) := by
  rw [reread, decode, readAll, List.map_append, Text.lines_unlines_append, List.filterMap_append,
    Keyed.ofList_append]
  rfl

/-- What is read back has the key of what was written. -/
theorem key_of_readBack? [KeyedEntity α] {a b : α} (h : readBack? a = some b) :
    Entity.key b = Entity.key a := by
  rw [readBack?_of_proper (KeyedEntity.proper a)] at h
  exact KeyedEntity.key_eq h

theorem reread_singleton [KeyedEntity α] {a : α} (ha : keyAllowed (Entity.key a) = true) :
    reread [a] = batchOf (readBack? a).toList := by
  have hproper := KeyedEntity.proper a
  have hone : ∀ l ∈ [a].map line, Text.OneLine l := by
    intro l hl
    rw [List.mem_singleton.mp hl]
    exact oneLine_line ha hproper
  rw [reread, decode, readAll, Text.lines_unlines hone]
  cases hb : readBack? a with
  | none => simp [ofLine?_line ha hproper, hb, batchOf]
  | some b => simp [ofLine?_line ha hproper, hb, batchOf, key_of_readBack? hb]

/-- A log is read as the batch of what its records are read as. -/
theorem reread_eq [KeyedEntity α] {es : List α} (h : ∀ a ∈ es, keyAllowed (Entity.key a) = true) :
    reread es = batchOf (es.filterMap readBack?) := by
  induction es with
  | nil => rfl
  | cons a es ih =>
    rw [← List.singleton_append, reread_append, reread_singleton (h a List.mem_cons_self),
      ih fun b hb => h b (List.mem_cons_of_mem a hb), ← batchOf_append]
    cases hb : readBack? a with
    | none => simp [hb]
    | some b => simp [hb]

/-- Where each record is read as an entity, a log has for each key what the last is read as. -/
theorem get?_reread [KeyedEntity α] {es : List α}
    (h : ∀ a ∈ es, keyAllowed (Entity.key a) = true ∧ (readBack? a).isSome = true) (k : String) :
    (reread es).get? k = ((batchOf es).get? k).bind readBack? := by
  induction es with
  | nil => rfl
  | cons a es ih =>
    have ih := ih fun b hb => h b (List.mem_cons_of_mem a hb)
    obtain ⟨ha, hsome⟩ := h a List.mem_cons_self
    obtain ⟨b, hb⟩ := Option.isSome_iff_exists.mp hsome
    rw [← List.singleton_append, reread_append, batchOf_append, Keyed.get?_overlay,
      Keyed.get?_overlay, ih, reread_singleton ha, hb, Option.toList_some]
    cases hk : (batchOf es).get? k with
    | none =>
      simp only [Option.bind_none, Option.none_or, get?_batchOf]
      by_cases hkey : Entity.key a = k
      · simp [hkey, key_of_readBack? hb, hb]
      · simp [hkey, key_of_readBack? hb]
    | some x =>
      obtain ⟨y, hy⟩ := Option.isSome_iff_exists.mp
        (h x (List.mem_cons_of_mem a (mem_of_get?_batchOf hk).1)).2
      simp [hy]

/-- A file of the entity's record alone is read as the entity. -/
def Readable (e : α) : Prop := reread [e] = batchOf [e]

theorem readable_iff [KeyedEntity α] {a : α} (ha : keyAllowed (Entity.key a) = true) :
    Readable a ↔ readBack? a = some a := by
  rw [Readable, reread_singleton ha]
  cases hb : readBack? a with
  | none =>
    simp only [Option.toList_none, reduceCtorEq, iff_false]
    exact fun h => nomatch batchOf_eq_empty.mp h.symm
  | some b =>
    rw [Option.toList_some, Option.some.injEq]
    constructor
    · intro h
      have hget := congrArg (·.get? (Entity.key a)) h
      simpa [get?_batchOf, key_of_readBack? hb] using hget
    · rintro rfl
      rfl

theorem reread_of_readable {es : List α} (h : ∀ e ∈ es, Readable e) : reread es = batchOf es := by
  induction es with
  | nil => rfl
  | cons e es ih =>
    have he : Readable e := h e List.mem_cons_self
    rw [← List.singleton_append, reread_append, batchOf_append, he,
      ih fun a ha => h a (List.mem_cons_of_mem e ha)]

theorem readable_of_readsBack [LawfulEntity α] {e : α} (hkey : keyAllowed (Entity.key e) = true)
    (he : LawfulEntity.ReadsBack e) : Readable e := by
  have h : ∀ a ∈ [e], keyAllowed (Entity.key a) = true ∧ LawfulEntity.ReadsBack a := by
    intro a ha
    rw [List.mem_singleton.mp ha]
    exact ⟨hkey, he⟩
  rw [Readable, reread, decode, readAll_lines h]
  rfl

end Record

end SensorCache
