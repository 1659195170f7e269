import SensorCache.Disk.Basic

/-!
# Places of a disk

Where paths lead, and what changes when a node is put down or taken away. A name below a directory
is found by entering the directory, so the names of one directory are found or missed together
(`locate_join`). Entering looks at directories only: what happens to files does not change where
paths lead (`SameDirectories`).
-/

namespace SensorCache

/-! ## Parts of a path -/

namespace Path

/-- A text that is the name of something in a directory, and no way to anywhere else. -/
structure Plain (s : String) : Prop where
  ne_empty : s ≠ ""
  ne_here : s ≠ "."
  ne_up : s ≠ ".."
  no_slash : '/' ∉ s.toList

/-- A text that stays free of slashes and gets a long enough ending is a name. -/
theorem plain_append {s ending : String} (hs : '/' ∉ s.toList) (he : '/' ∉ ending.toList)
    (hl : 2 < ending.toList.length) : Plain (s ++ ending) := by
  have hlen : 2 < (s ++ ending).toList.length := by
    rw [String.toList_append, List.length_append]
    omega
  have hne : ∀ t : String, t.toList.length ≤ 2 → s ++ ending ≠ t := by
    intro t ht h
    rw [h] at hlen
    omega
  refine ⟨hne _ (by decide), hne _ (by decide), hne _ (by decide), ?_⟩
  rw [String.toList_append, List.mem_append]
  exact fun h => h.elim hs he

theorem partsFrom_append_slash : ∀ (s pending r : List Char),
    partsFrom pending (s ++ '/' :: r) = partsFrom pending s ++ partsFrom [] r
  | [], pending, r => by simp [partsFrom]
  | c :: s, pending, r => by
    simp only [List.cons_append, partsFrom]
    split
    · rw [partsFrom_append_slash s [] r, List.cons_append]
    · exact partsFrom_append_slash s (c :: pending) r

theorem partsFrom_of_no_slash : ∀ (s pending : List Char), '/' ∉ s →
    partsFrom pending s = [String.ofList (pending.reverse ++ s)]
  | [], pending, _ => by simp [partsFrom]
  | c :: s, pending, h => by
    have hc : c ≠ '/' := fun hc => h (by simp [hc])
    rw [partsFrom, if_neg hc, partsFrom_of_no_slash s (c :: pending) fun hs => h (by simp [hs])]
    simp

theorem parts_of_plain {s : String} (h : Plain s) : parts ⟨s⟩ = [s] := by
  rw [parts, partsFrom_of_no_slash _ _ h.no_slash]
  simp

theorem not_isAbsolute_of_plain {s : String} (h : Plain s) : isAbsolute ⟨s⟩ = false := by
  unfold isAbsolute
  cases hs : s.toList with
  | nil => rfl
  | cons c r =>
    have hc : c ≠ '/' := fun hc => h.no_slash (by simp [hs, hc])
    simpa using hc

theorem text_join {p : Path} {s : String} (h : Plain s) :
    (p / ⟨s⟩).text.toList =
      if p.text.isEmpty then s.toList
      else if p.text.toList.getLast? = some '/' then p.text.toList ++ s.toList
      else p.text.toList ++ '/' :: s.toList := by
  show (join p ⟨s⟩).text.toList = _
  unfold join
  rw [not_isAbsolute_of_plain h, Bool.false_or]
  split
  · rfl
  · split
    · next hl => rw [if_pos (by simpa using hl), String.toList_append]
    · next hl =>
      rw [if_neg (by simpa using hl), String.toList_append, String.toList_append]
      simp

theorem toList_ne_nil {s : String} (h : s.isEmpty = false) : s.toList ≠ [] := by
  intro hs
  rw [String.toList_eq_nil_iff] at hs
  simp [hs] at h

theorem isAbsolute_join {p : Path} {s : String} (h : Plain s) :
    isAbsolute (p / ⟨s⟩) = isAbsolute p := by
  have habs := not_isAbsolute_of_plain h
  unfold isAbsolute at habs ⊢
  rw [text_join h]
  cases hp : p.text.isEmpty with
  | true =>
    have ht : p.text.toList = [] := by simpa using hp
    rw [if_pos rfl, habs, ht]
    rfl
  | false =>
    have hne := toList_ne_nil hp
    rw [if_neg (by simp)]
    split <;> rw [List.head?_append, Option.or_of_isSome (by simpa using hne)]

theorem text_join_ne_empty {p : Path} {s : String} (h : Plain s) :
    (p / ⟨s⟩).text.isEmpty = false := by
  have hs : s.toList ≠ [] := fun hs => h.ne_empty (String.toList_eq_nil_iff.mp hs)
  have hne : (p / ⟨s⟩).text.toList ≠ [] := by
    rw [text_join h]
    split
    · exact hs
    · split <;> simp [hs]
  cases he : (p / ⟨s⟩).text.isEmpty with
  | false => rfl
  | true => exact absurd (by simpa using he) hne

end Path

namespace Disk

variable {d e : Disk} {l m : Place} {p : Path} {s t : String}

/-! ## What stands where -/

@[simp] theorem node?_nil (d : Disk) : d.node? [] = some (.directory ⟨0⟩) := rfl

theorem node?_of_ne_nil (h : l ≠ []) : d.node? l = d.nodes.lookup l := by
  simp [node?, h]

theorem lookup_filter_ne (ns : List (Place × Node)) (h : m ≠ l) :
    (ns.filter fun e => e.1 != l).lookup m = ns.lookup m := by
  induction ns with
  | nil => rfl
  | cons n r ih =>
    obtain ⟨k, v⟩ := n
    by_cases hk : k = l
    · have hm : (m == l) = false := by simpa using h
      simp [hk, List.lookup_cons, ih, hm]
    · simp [List.lookup_cons, ih, hk]

theorem lookup_filter_self (ns : List (Place × Node)) :
    (ns.filter fun e => e.1 != l).lookup l = none := by
  rw [List.lookup_eq_none_iff]
  intro n hn
  have hne : n.1 ≠ l := by simpa using (List.mem_filter.mp hn).2
  simpa using Ne.symm hne

theorem node?_put (h : l ≠ []) (n : Node) (m : Place) :
    (d.put l n).node? m = if m = l then some n else d.node? m := by
  by_cases hm : m = []
  · subst hm
    rw [if_neg (Ne.symm h)]
    rfl
  · rw [node?_of_ne_nil hm, node?_of_ne_nil hm]
    by_cases hml : m = l
    · simp [put, hml]
    · have hb : (m == l) = false := by simpa using hml
      simp only [put, List.lookup_cons, hb, if_neg hml]
      exact lookup_filter_ne _ hml

theorem node?_erase (h : l ≠ []) (m : Place) :
    (d.erase l).node? m = if m = l then none else d.node? m := by
  by_cases hm : m = []
  · subst hm
    rw [if_neg (Ne.symm h)]
    rfl
  · rw [node?_of_ne_nil hm, node?_of_ne_nil hm]
    by_cases hml : m = l
    · rw [if_pos hml, hml]
      exact lookup_filter_self _
    · rw [if_neg hml]
      exact lookup_filter_ne _ hml

/-- Whether a directory stands at a place. -/
def isDirectoryAt (d : Disk) (l : Place) : Bool := (d.node? l).any Node.isDirectory

theorem isDirectoryAt_iff : d.isDirectoryAt l = true ↔ ∃ t, d.node? l = some (.directory t) := by
  unfold isDirectoryAt
  cases d.node? l with
  | none => simp
  | some n => cases n <;> simp [Node.isDirectory]

/-! ## Where paths lead -/

/-- The directory that a path leads to. -/
def enter (d : Disk) (p : Path) : Except OsError Place :=
  match d.follow (if p.isAbsolute then [] else d.here) p.parts with
  | .error x => .error x
  | .ok l =>
    match d.node? l with
    | none => .error .notFound
    | some (.file ..) => .error .notDirectory
    | some (.directory _) => .ok l

theorem follow_append (d : Disk) : ∀ (ps qs : List String) (l : Place),
    d.follow l (ps ++ qs) =
      match d.follow l ps with
      | .error x => .error x
      | .ok m => d.follow m qs
  | [], _, _ => rfl
  | s :: ps, qs, l => by
    rw [List.cons_append]
    simp only [follow]
    split
    · exact follow_append d ps qs l
    · split
      · rfl
      · rfl
      · split
        · exact follow_append d ps qs l
        · split <;> exact follow_append d ps qs _

theorem follow_plain (hs : Path.Plain s) (l : Place) :
    d.follow l [s] =
      match d.node? l with
      | none => .error .notFound
      | some (.file ..) => .error .notDirectory
      | some (.directory _) => .ok (l ++ [s]) := by
  have hempty : ¬(s == "") = true := by simpa using hs.ne_empty
  have hhere : ¬(s == ".") = true := by simpa using hs.ne_here
  have hup : ¬(s == "..") = true := by simpa using hs.ne_up
  unfold follow
  rw [if_neg hempty, if_neg hhere, if_neg hup]
  cases d.node? l with
  | none => rfl
  | some n => cases n <;> rfl

theorem locate_eq (hp : p.text.isEmpty = false) :
    d.locate p = d.follow (if p.isAbsolute then [] else d.here) p.parts := by
  simp [locate, hp]

/-- A name below a directory is looked for in the place of that directory. -/
theorem locate_join (hs : Path.Plain s) (d : Disk) (p : Path) :
    d.locate (p / ⟨s⟩) =
      match d.enter p with
      | .error x => .error x
      | .ok l => .ok (l ++ [s]) := by
  have hparts : ∀ l, d.follow l (p / ⟨s⟩).parts = d.follow l (p.parts ++ [s]) := by
    intro l
    have hplain := Path.parts_of_plain hs
    unfold Path.parts at hplain ⊢
    rw [Path.text_join hs]
    split
    · next hp =>
      have ht : p.text.toList = [] := by simpa using hp
      rw [hplain, ht]
      simp [Path.partsFrom, follow]
    · split
      · next hl =>
        obtain ⟨t, ht⟩ := List.getLast?_eq_some_iff.mp hl
        rw [ht, List.append_assoc, List.singleton_append, Path.partsFrom_append_slash,
          Path.partsFrom_append_slash, hplain, follow_append, List.append_assoc, follow_append]
        simp [Path.partsFrom, follow]
      · rw [Path.partsFrom_append_slash, hplain]
  rw [locate_eq (Path.text_join_ne_empty hs), Path.isAbsolute_join hs, hparts, follow_append]
  unfold enter
  cases d.follow (if p.isAbsolute then [] else d.here) p.parts with
  | error x => rfl
  | ok l =>
    simp only [follow_plain hs]
    cases d.node? l with
    | none => rfl
    | some n => cases n <;> rfl

theorem isDirectoryAt_of_enter (h : d.enter p = .ok l) : d.isDirectoryAt l = true := by
  unfold enter at h
  split at h
  · cases h
  · split at h
    · cases h
    · cases h
    · next hn =>
      cases h
      simp [isDirectoryAt, hn, Node.isDirectory]

/-- What is seen at a path. -/
def view (d : Disk) (p : Path) : Except OsError Node := (d.perform (.find p)).1

theorem view_eq_ok {n : Node} :
    d.view p = .ok n ↔ ∃ l, d.locate p = .ok l ∧ d.node? l = some n := by
  show (d.onPlace p fun l => (d.find l, d)).1 = _ ↔ _
  unfold onPlace
  cases d.locate p with
  | error x => simp
  | ok l =>
    simp only [find, Except.ok.injEq, exists_eq_left']
    cases d.node? l <;> simp

theorem view_join (hs : Path.Plain s) (d : Disk) (p : Path) :
    d.view (p / ⟨s⟩) =
      match d.enter p with
      | .error x => .error x
      | .ok l => d.find (l ++ [s]) := by
  show (d.onPlace _ _).1 = _
  unfold onPlace
  rw [locate_join hs]
  cases d.enter p <;> rfl

/-! ## The clock -/

/-- Nothing depends on the clock but the times of what is made. -/
theorem follow_clock (d : Disk) (t : Instant) : ∀ (ps : List String) (l : Place),
    { d with clock := t }.follow l ps = d.follow l ps
  | [], _ => rfl
  | s :: ps, l => by
    have hnode : { d with clock := t }.node? l = d.node? l := rfl
    simp only [follow, follow_clock d t ps, hnode]

theorem enter_clock (d : Disk) (t : Instant) (p : Path) :
    { d with clock := t }.enter p = d.enter p := by
  unfold enter
  rw [follow_clock]
  rfl

theorem view_clock (d : Disk) (t : Instant) (p : Path) : { d with clock := t }.view p = d.view p := by
  have hlocate : { d with clock := t }.locate p = d.locate p := by
    unfold locate
    rw [follow_clock]
  show (onPlace _ _ _).1 = (onPlace _ _ _).1
  unfold onPlace
  rw [hlocate]
  cases d.locate p <;> rfl

/-- More directories do not change where a path leads. -/
theorem follow_of_directories (h : ∀ l, d.isDirectoryAt l = true → e.isDirectoryAt l = true) :
    ∀ (ps : List String) (l m : Place), d.follow l ps = .ok m → e.follow l ps = .ok m
  | [], _, _, hf => hf
  | s :: ps, l, m, hf => by
    simp only [follow] at hf ⊢
    by_cases hs : (s == "") = true
    · rw [if_pos hs] at hf ⊢
      exact follow_of_directories h ps l m hf
    · rw [if_neg hs] at hf ⊢
      split at hf
      · cases hf
      · cases hf
      · next t hd =>
        obtain ⟨u, hu⟩ := isDirectoryAt_iff.mp (h l (isDirectoryAt_iff.mpr ⟨t, hd⟩))
        rw [hu]
        simp only at hf ⊢
        split at hf
        · next hdot => rw [if_pos hdot]; exact follow_of_directories h ps l m hf
        · next hdot =>
          rw [if_neg hdot]
          split at hf
          · next hup => rw [if_pos hup]; exact follow_of_directories h ps _ m hf
          · next hup => rw [if_neg hup]; exact follow_of_directories h ps _ m hf

theorem locate_of_directories (hhere : e.here = d.here)
    (h : ∀ l, d.isDirectoryAt l = true → e.isDirectoryAt l = true) (hl : d.locate p = .ok l) :
    e.locate p = .ok l := by
  unfold locate at hl ⊢
  split at hl
  · cases hl
  · next hp =>
    rw [if_neg hp, hhere]
    exact follow_of_directories h _ _ _ hl

/-! ## Disks with the same directories -/

/-- From `d` to `e` no directory came or went. -/
structure SameDirectories (d e : Disk) : Prop where
  here : e.here = d.here
  directories : ∀ l, e.isDirectoryAt l = d.isDirectoryAt l

namespace SameDirectories

theorem refl (d : Disk) : SameDirectories d d := ⟨rfl, fun _ => rfl⟩

theorem symm (h : SameDirectories d e) : SameDirectories e d :=
  ⟨h.here.symm, fun l => (h.directories l).symm⟩

theorem trans {f : Disk} (h : SameDirectories d e) (k : SameDirectories e f) :
    SameDirectories d f :=
  ⟨k.here.trans h.here, fun l => (k.directories l).trans (h.directories l)⟩

theorem follow_ok (h : SameDirectories d e) (ps : List String) (l m : Place)
    (hf : d.follow l ps = .ok m) : e.follow l ps = .ok m :=
  follow_of_directories (fun l hl => (h.directories l).trans hl) ps l m hf

theorem locate_ok (h : SameDirectories d e) (hl : d.locate p = .ok l) : e.locate p = .ok l :=
  locate_of_directories h.here (fun m hm => (h.directories m).trans hm) hl

theorem enter_ok (h : SameDirectories d e) (hd : d.enter p = .ok l) : e.enter p = .ok l := by
  have hdir := isDirectoryAt_of_enter hd
  unfold enter at hd ⊢
  split at hd
  · cases hd
  · next m hm =>
    have hml : m = l := by
      split at hd
      · cases hd
      · cases hd
      · exact Except.ok.inj hd
    obtain ⟨u, hu⟩ := isDirectoryAt_iff.mp ((h.directories l).trans hdir)
    rw [h.here, h.follow_ok _ _ _ hm, hml]
    simp only [hu]

theorem enter_iff (h : SameDirectories d e) : e.enter p = .ok l ↔ d.enter p = .ok l :=
  ⟨h.symm.enter_ok, h.enter_ok⟩

/-- Putting a file where no directory is leaves the directories. -/
theorem put_file (hl : l ≠ []) (hd : d.isDirectoryAt l = false) (c : ByteArray) (t : Instant) :
    SameDirectories d (d.put l (.file c t)) := by
  refine ⟨rfl, fun m => ?_⟩
  unfold isDirectoryAt at hd ⊢
  rw [node?_put hl]
  split
  · next hm => rw [hm, hd]; rfl
  · rfl

/-- Taking away what is no directory leaves the directories. -/
theorem erase (hl : l ≠ []) (hd : d.isDirectoryAt l = false) : SameDirectories d (d.erase l) := by
  refine ⟨rfl, fun m => ?_⟩
  unfold isDirectoryAt at hd ⊢
  rw [node?_erase hl]
  split
  · next hm => rw [hm, hd]; rfl
  · rfl

end SameDirectories

end Disk

end SensorCache
