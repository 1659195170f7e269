import SensorCache.Json.Fields
import SensorCache.Proofs.Json.Values
import SensorCache.Proofs.Keyed

/-!
# Reading back fields

What is built from fields, lists and maps is taken apart into the same. The fields of a record come
back under their names, whichever of them are left out, since no two have one name
(`record?_fields`).
-/

namespace SensorCache.Json

variable {α : Type}

/-! ## Values -/

theorem proper_ofText (s : String) : (ofText s).Proper := rfl

theorem toText?_ofText (s : String) : toText? (ofText s) = some s :=
  congrArg some String.ofList_toList

theorem proper_optionalText (u : Option String) : (optionalText u).Proper := by
  cases u with
  | none => trivial
  | some s => exact proper_ofText s

theorem nullable?_optionalText (u : Option String) :
    nullable? toText? (optionalText u) = some u := by
  cases u with
  | none => rfl
  | some s => exact congrArg (Option.map some) (toText?_ofText s)

theorem mapM_some {β : Type} {f : α → Option β} {g : α → β} : ∀ {l : List α},
    (∀ a ∈ l, f a = some (g a)) → l.mapM f = some (l.map g)
  | [], _ => rfl
  | a :: l, h => by
    rw [List.mapM_cons, h a (by simp), mapM_some fun b hb => h b (by simp [hb])]
    rfl

theorem proper_texts (l : List String) : (texts l).Proper := by
  refine elementsProper_iff.mpr fun v hv => ?_
  obtain ⟨s, -, rfl⟩ := List.mem_map.mp hv
  exact proper_ofText s

theorem list?_texts (l : List String) : list? toText? (texts l) = some l := by
  show (l.map ofText).mapM toText? = some l
  have h : (l.map ofText).mapM toText? = some ((l.map ofText).map fun v => (toText? v).getD "") :=
    mapM_some fun v hv => by
      obtain ⟨s, -, rfl⟩ := List.mem_map.mp hv
      rw [toText?_ofText]
      rfl
  rw [h, List.map_map]
  refine congrArg some ((List.map_congr_left fun s _ => ?_).trans (List.map_id l))
  show (toText? (ofText s)).getD "" = s
  rw [toText?_ofText]
  rfl

theorem proper_natural (n : Nat) : (natural n).Proper := Numeral.wellFormed_digitsOf false n

/-! ## Maps -/

/-- The members that the entries of a map are written as. -/
def membersOf (write : α → Json) (m : Keyed α) : List (Option (List Char) × Json) :=
  m.entries.map fun (k, v) => (some k.toList, write v)

theorem membersProper_membersOf {write : α → Json} (h : ∀ a, (write a).Proper) (m : Keyed α) :
    MembersProper (membersOf write m) := by
  refine membersProper_iff.mpr fun e he => ?_
  obtain ⟨⟨k, v⟩, -, rfl⟩ := List.mem_map.mp he
  exact ⟨rfl, h v⟩

/-- A map comes back if its values do. -/
theorem keyed?_membersOf {write : α → Json} {read : Json → Option α}
    (h : ∀ a, read (write a) = some a) (m : Keyed α) :
    keyed? read (.object (membersOf write m)) = some m := by
  have hentries : ∀ l : List (String × α),
      (l.map fun e => (some e.1.toList, write e.2)).mapM (fun e : Option (List Char) × Json => do
        let k ← e.1
        let v ← read e.2
        return (String.ofList k, v)) = some l := by
    intro l
    induction l with
    | nil => rfl
    | cons e l ih =>
      rw [List.map_cons, List.mapM_cons, ih]
      simp [h]
  show (do
    let es ← (m.entries.map fun e => (some e.1.toList, write e.2)).mapM _
    return Keyed.ofList es) = some m
  rw [hentries]
  exact congrArg some (Keyed.ofList_entries m)

/-! ## Records -/

/-- The members of the fields that are present. -/
def present (l : List (String × Option Json)) : List (Option (List Char) × Json) :=
  l.filterMap fun (k, v) => v.map fun v => (some k.toList, v)

theorem proper_fields {l : List (String × Option Json)}
    (h : ∀ f ∈ l, ∀ v ∈ f.2, v.Proper) : (fields l).Proper := by
  refine membersProper_iff.mpr fun m hm => ?_
  obtain ⟨⟨k, v⟩, hf, hv⟩ := List.mem_filterMap.mp hm
  obtain ⟨w, rfl, rfl⟩ := Option.map_eq_some_iff.mp hv
  exact ⟨rfl, h _ hf w rfl⟩

/-- Fields of other names are not under a name. -/
theorem filter_present {n : String} : ∀ {l : List (String × Option Json)}, n ∉ l.map Prod.fst →
    (present l).filter (fun m => m.1 == some n.toList) = []
  | [], _ => rfl
  | (k, v) :: l, h => by
    rw [List.map_cons, List.mem_cons, not_or] at h
    have ih := filter_present h.2
    have hk : ¬k = n := Ne.symm h.1
    cases v with
    | none => exact ih
    | some v =>
      show ((some k.toList, v) :: present l).filter _ = []
      rw [List.filter_cons, ih, if_neg]
      simpa [String.toList_inj] using hk

theorem member?_present : ∀ {l : List (String × Option Json)}, (l.map Prod.fst).Nodup →
    ∀ f ∈ l, member? f.1.toList (present l) = some f.2
  | (k, v) :: l, h, f, hf => by
    rw [List.map_cons, List.nodup_cons] at h
    rcases List.mem_cons.mp hf with rfl | hf
    · have hrest := filter_present h.1
      cases v with
      | none =>
        show member? k.toList (present l) = _
        rw [member?, hrest]
      | some v =>
        show member? k.toList ((some k.toList, v) :: present l) = _
        rw [member?, List.filter_cons, if_pos (by simp), hrest]
    · have hk : ¬k = f.1 := fun hk => h.1 (List.mem_map.mpr ⟨f, hf, hk.symm⟩)
      have ih := member?_present h.2 f hf
      cases v with
      | none => exact ih
      | some v =>
        show member? f.1.toList ((some k.toList, v) :: present l) = _
        rw [member?, List.filter_cons, if_neg (by simpa [String.toList_inj] using hk)]
        exact ih

/-- A record gives back its fields, those that are present and those that are not. -/
theorem record?_fields {names : List String} (h : names.Nodup) {l : List (String × Option Json)}
    (hnames : l.map Prod.fst = names) : record? names (fields l) = some (l.map Prod.snd) := by
  subst hnames
  have hall : (present l).all (fun m => m.1.isSome) = true := by
    rw [List.all_eq_true]
    intro m hm
    obtain ⟨⟨k, v⟩, -, hv⟩ := List.mem_filterMap.mp hm
    obtain ⟨w, -, rfl⟩ := Option.map_eq_some_iff.mp hv
    rfl
  have hmapM : ∀ {s : List (String × Option Json)}, (∀ f ∈ s, f ∈ l) →
      (s.map Prod.fst).mapM (fun n => member? n.toList (present l)) = some (s.map Prod.snd) := by
    intro s hs
    induction s with
    | nil => rfl
    | cons f s ih =>
      rw [List.map_cons, List.mapM_cons, member?_present h f (hs f (by simp)),
        ih fun g hg => hs g (by simp [hg])]
      rfl
  have hrecord := hmapM fun f hf => hf
  show (if (present l).all (fun m => m.1.isSome) = true then
    (l.map Prod.fst).mapM (fun n => member? n.toList (present l)) else none) = _
  rw [if_pos hall, hrecord]

end SensorCache.Json
