import SensorCache.Keyed

/-!
# Laws of maps from texts

A map is known by what it holds under each key (`Keyed.ext_get?`), and for each way to make one this
says what that is. Of a list of entries it is the last with the key, which is an entry's own value
when the keys differ, so a map is made again from its own entries.
-/

namespace SensorCache

namespace Keyed

variable {α : Type} {m n : Keyed α} {k j : String} {v : α}

/-! ## Ascending lists -/

theorem lt_of_ascending : ∀ {a : String × α} {l : List (String × α)}, Ascending (a :: l) →
    ∀ e ∈ l, a.1 < e.1
  | a, b :: l, h, e, he => by
    rcases List.mem_cons.mp he with rfl | he
    · exact h.1
    · exact String.lt_trans h.1 (lt_of_ascending h.2 e he)

theorem lookup_of_ascending {a : String × α} {l : List (String × α)} (h : Ascending (a :: l)) :
    l.lookup a.1 = none := by
  rw [List.lookup_eq_none_iff]
  intro e he
  have hlt := lt_of_ascending h e he
  simp only [bne_iff_ne]
  rintro heq
  rw [heq] at hlt
  exact String.lt_irrefl _ hlt

/-- An ascending list is known by its lookups. -/
theorem ascending_ext : ∀ {a b : List (String × α)}, Ascending a → Ascending b →
    (∀ k, a.lookup k = b.lookup k) → a = b
  | [], [], _, _, _ => rfl
  | [], (k, v) :: b, _, _, h => by simpa using h k
  | (k, v) :: a, [], _, _, h => by simpa using h k
  | (k, v) :: a, (l, w) :: b, ha, hb, h => by
    have hkl : k = l := by
      rcases Std.lt_trichotomy k l with hlt | heq | hlt
      · -- A key below the first of `b` is not in `b`.
        have hnone : ((l, w) :: b).lookup k = none := by
          have hb' : Ascending ((k, v) :: (l, w) :: b) := ⟨hlt, hb⟩
          exact lookup_of_ascending hb'
        rw [← h k] at hnone
        simp at hnone
      · exact heq
      · have hnone : ((k, v) :: a).lookup l = none := by
          have ha' : Ascending ((l, w) :: (k, v) :: a) := ⟨hlt, ha⟩
          exact lookup_of_ascending ha'
        rw [h l] at hnone
        simp at hnone
    subst hkl
    have hvw : v = w := by simpa using h k
    subst hvw
    have htail : ∀ j, a.lookup j = b.lookup j := by
      intro j
      by_cases hj : j = k
      · subst hj
        have h1 := lookup_of_ascending ha
        have h2 := lookup_of_ascending hb
        rw [h1, h2]
      · have hb : (j == k) = false := by simpa using hj
        have hj' := h j
        simpa only [List.lookup_cons, hb] using hj'
    rw [ascending_ext (ascending_tail ha) (ascending_tail hb) htail]

theorem ext_get? (h : ∀ k, m.get? k = n.get? k) : m = n := by
  obtain ⟨a, ha⟩ := m
  obtain ⟨b, hb⟩ := n
  have hab : a = b := ascending_ext ha hb h
  subst hab
  rfl

/-! ## What is under a key -/

@[simp] theorem get?_empty (k : String) : (empty : Keyed α).get? k = none := rfl

theorem lookup_insertEntry (k : String) (v : α) (j : String) : ∀ l : List (String × α),
    (insertEntry k v l).lookup j = if j = k then some v else l.lookup j
  | [] => by
    by_cases hjk : j = k
    · simp [insertEntry, hjk]
    · have hb : (j == k) = false := by simpa using hjk
      simp [insertEntry, List.lookup_cons, hb, hjk]
  | (l, w) :: r => by
    have ih := lookup_insertEntry k v j r
    unfold insertEntry
    by_cases hjk : j = k
    · subst hjk
      rw [if_pos rfl] at ih ⊢
      split
      · simp
      · split
        · simp
        · next hne =>
          have hb : (j == l) = false := by simpa using hne
          rw [List.lookup_cons, hb, ih]
    · have hb : (j == k) = false := by simpa using hjk
      rw [if_neg hjk] at ih ⊢
      split
      · rw [List.lookup_cons, hb]
      · split
        · next heq =>
          subst heq
          rw [List.lookup_cons, List.lookup_cons, hb]
        · rw [List.lookup_cons, List.lookup_cons, ih]

theorem get?_insert (m : Keyed α) (k : String) (v : α) (j : String) :
    (m.insert k v).get? j = if j = k then some v else m.get? j := lookup_insertEntry k v j m.entries

/-- Of what is put in later the last counts. -/
theorem get?_foldl_insert : ∀ (l : List (String × α)) (m : Keyed α) (k : String),
    (l.foldl (fun m e => m.insert e.1 e.2) m).get? k = (l.reverse.lookup k).or (m.get? k)
  | [], _, _ => rfl
  | (j, v) :: l, m, k => by
    rw [List.foldl_cons, get?_foldl_insert l, get?_insert, List.reverse_cons, List.lookup_append]
    by_cases hk : k = j
    · simp [hk]
    · have hb : (k == j) = false := by simpa using hk
      simp [hk, List.lookup_cons, hb]

theorem get?_ofList (l : List (String × α)) (k : String) :
    (ofList l).get? k = l.reverse.lookup k := by
  rw [ofList, get?_foldl_insert, get?_empty, Option.or_none]

theorem lookup_reverse : ∀ {l : List (String × α)}, Ascending l → ∀ k, l.reverse.lookup k = l.lookup k
  | [], _, _ => rfl
  | (j, v) :: l, h, k => by
    rw [List.reverse_cons, List.lookup_append, lookup_reverse (ascending_tail h)]
    by_cases hk : k = j
    · subst hk
      have hnone : l.lookup k = none := lookup_of_ascending h
      simp [hnone]
    · have hb : (k == j) = false := by simpa using hk
      simp [List.lookup_cons, hb]

theorem get?_overlay (m n : Keyed α) (k : String) :
    (m.overlay n).get? k = (n.get? k).or (m.get? k) := by
  rw [overlay, get?_foldl_insert, lookup_reverse n.ascending]
  rfl

/-- A map is made again from its entries. -/
theorem ofList_entries (m : Keyed α) : ofList m.entries = m := by
  refine ext_get? fun k => ?_
  rw [get?_ofList, lookup_reverse m.ascending]
  rfl

/-- The later part of a list is laid over the earlier. -/
theorem ofList_append (a b : List (String × α)) : ofList (a ++ b) = (ofList a).overlay (ofList b) := by
  refine ext_get? fun k => ?_
  rw [get?_overlay, get?_ofList, get?_ofList, get?_ofList, List.reverse_append, List.lookup_append]

theorem overlay_empty_left (m : Keyed α) : empty.overlay m = m := by
  refine ext_get? fun k => ?_
  rw [get?_overlay, get?_empty, Option.or_none]

/-! ## Entries -/

theorem mem_of_ascending : ∀ {l : List (String × α)}, Ascending l → ∀ {k : String} {v : α},
    (k, v) ∈ l ↔ l.lookup k = some v
  | [], _, k, v => by simp
  | (j, w) :: l, h, k, v => by
    have ih := mem_of_ascending (ascending_tail h) (k := k) (v := v)
    rw [List.mem_cons, ih, Prod.mk.injEq, List.lookup_cons]
    by_cases hk : k = j
    · subst hk
      rw [lookup_of_ascending h]
      simp [eq_comm]
    · have hb : (k == j) = false := by simpa using hk
      simp [hb, hk]

theorem mem_entries {m : Keyed α} : (k, v) ∈ m.entries ↔ m.get? k = some v :=
  mem_of_ascending m.ascending

theorem mem_keys : k ∈ m.keys ↔ (m.get? k).isSome = true := by
  rw [Option.isSome_iff_exists, keys, List.mem_map]
  constructor
  · rintro ⟨⟨k, v⟩, he, rfl⟩
    exact ⟨v, mem_entries.mp he⟩
  · rintro ⟨v, hv⟩
    exact ⟨(k, v), mem_entries.mpr hv, rfl⟩

theorem pairwise_keys (m : Keyed α) : m.keys.Pairwise (· < ·) := by
  obtain ⟨l, h⟩ := m
  show (l.map (·.1)).Pairwise (· < ·)
  induction l with
  | nil => exact .nil
  | cons e l ih =>
    rw [List.map_cons, List.pairwise_cons]
    refine ⟨fun k hk => ?_, ih (ascending_tail h)⟩
    obtain ⟨a, ha, rfl⟩ := List.mem_map.mp hk
    exact lt_of_ascending h a ha

theorem nodup_keys (m : Keyed α) : m.keys.Nodup :=
  m.pairwise_keys.imp fun {a b} (hlt : a < b) => by
    rintro rfl
    exact String.lt_irrefl a hlt

/-- Maps with the same keys have as many entries. -/
theorem size_eq {β : Type} {m : Keyed α} {n : Keyed β}
    (h : ∀ k, (m.get? k).isSome = (n.get? k).isSome) : m.size = n.size := by
  have hperm : m.keys.Perm n.keys :=
    (List.perm_ext_iff_of_nodup m.nodup_keys n.nodup_keys).mpr fun k => by
      rw [mem_keys, mem_keys, h]
  simpa [keys, size] using hperm.length_eq

theorem size_eq_zero : m.size = 0 ↔ m = .empty := by
  rw [size, List.length_eq_zero_iff]
  constructor
  · intro h
    exact ext_get? fun k => by rw [get?, h]; rfl
  · rintro rfl
    rfl

theorem values_eq_nil : m.values = [] ↔ m.size = 0 := by
  rw [values, List.map_eq_nil_iff, size, List.length_eq_zero_iff]

/-! ## Entities under their keys -/

/-- The last of a list that has a key is what a map of the list holds under it. -/
theorem get?_ofList_map (key : α → String) (as : List α) (k : String) :
    (ofList (as.map fun a => (key a, a))).get? k = (as.filter fun a => key a = k).getLast? := by
  rw [get?_ofList, ← List.map_reverse, List.getLast?_eq_head?_reverse, ← List.filter_reverse]
  induction as.reverse with
  | nil => rfl
  | cons a as ih =>
    rw [List.map_cons, List.lookup_cons, ih]
    by_cases hk : key a = k
    · simp [hk]
    · have hb : (k == key a) = false := by simpa using Ne.symm hk
      simp [hk, hb]

end Keyed

end SensorCache
