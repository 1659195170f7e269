import SensorCache.Proofs.Disk.Siblings

/-!
# What happens to files of other names

A part of the program that knows its files by a few names leaves everything of another name alone,
in whatever directory it is (`Elsewhere`). That is so for each operation on a file, and for a rename
if no directory is moved by it.
-/

namespace SensorCache

namespace Disk

variable {d e f : Disk} {p q : Path} {l : Place} {s t u : String} {ns ms : List String}

/-- From `d` to `e` no directory came or went, and all that changed has one of the names `ns`. -/
structure Elsewhere (ns : List String) (d e : Disk) : Prop where
  directories : SameDirectories d e
  node {l : Place} {s : String} : s ∉ ns → e.node? (l ++ [s]) = d.node? (l ++ [s])

namespace Elsewhere

theorem refl (ns : List String) (d : Disk) : Elsewhere ns d d := ⟨.refl d, fun _ => rfl⟩

theorem trans (h : Elsewhere ns d e) (k : Elsewhere ns e f) : Elsewhere ns d f :=
  ⟨h.directories.trans k.directories, fun hs => (k.node hs).trans (h.node hs)⟩

theorem mono (h : Elsewhere ns d e) (hns : ns ⊆ ms) : Elsewhere ms d e :=
  ⟨h.directories, fun hs => h.node fun hmem => hs (hns hmem)⟩

theorem tick (ns : List String) (d : Disk) (t : Time.Span) : Elsewhere ns d (d.tick t) :=
  ⟨⟨rfl, fun _ => rfl⟩, fun _ => rfl⟩

theorem put_file (ht : t ∈ ns) (hd : d.isDirectoryAt (l ++ [t]) = false) (c : ByteArray)
    (u : Instant) : Elsewhere ns d (d.put (l ++ [t]) (.file c u)) := by
  refine ⟨.put_file (by simp) hd c u, fun {m s} hs => ?_⟩
  have hst : s ≠ t := fun h => hs (h ▸ ht)
  rw [node?_put (by simp), if_neg (by simp [hst])]

theorem erase (ht : t ∈ ns) (hd : d.isDirectoryAt (l ++ [t]) = false) :
    Elsewhere ns d (d.erase (l ++ [t])) := by
  refine ⟨.erase (by simp) hd, fun {m s} hs => ?_⟩
  have hst : s ≠ t := fun h => hs (h ▸ ht)
  rw [node?_erase (by simp), if_neg (by simp [hst])]

/-! ## What is seen -/

/-- What is there under another name stays, and nothing comes to be. -/
theorem view_eq_ok (h : Elsewhere ns d e) (hu : Path.Plain u) (hns : u ∉ ns) {n : Node} :
    e.view (q / ⟨u⟩) = .ok n ↔ d.view (q / ⟨u⟩) = .ok n := by
  have hseen : ∀ {x y : Disk}, Elsewhere ns x y → x.view (q / ⟨u⟩) = .ok n →
      y.view (q / ⟨u⟩) = .ok n := by
    intro x y hxy hx
    rw [view_join hu] at hx ⊢
    cases hl : x.enter q with
    | error z =>
      rw [hl] at hx
      cases hx
    | ok l =>
      rw [hl] at hx
      rw [hxy.directories.enter_ok hl]
      simpa [find, hxy.node hns] using hx
  exact ⟨hseen ⟨h.directories.symm, fun hs => (h.node hs).symm⟩, hseen h⟩

/-- In a directory that is there, that nothing is there stays too. -/
theorem view (h : Elsewhere ns d e) (hu : Path.Plain u) (hns : u ∉ ns) (hl : d.enter q = .ok l) :
    e.view (q / ⟨u⟩) = d.view (q / ⟨u⟩) := by
  rw [view_join hu, view_join hu, h.directories.enter_ok hl, hl]
  simp [find, h.node hns]

end Elsewhere

/-! ## Reading -/

theorem read_eq_ok {b : ByteArray} :
    (d.perform (.read p)).1 = .ok b ↔ ∃ t, d.view p = .ok (.file b t) := by
  show (d.onPlace p fun l => (d.readFile l, d)).1 = _ ↔
    ∃ t, (d.onPlace p fun l => (d.find l, d)).1 = _
  unfold onPlace
  cases d.locate p with
  | error x => simp
  | ok l =>
    simp only [readFile, find]
    cases d.node? l with
    | none => simp
    | some n => cases n <;> simp

theorem run_readBytes {x : Except OsError ByteArray} (h : (d.perform (.read p)).1 = x) :
    (readBytes p).run d = (x, d) := Prod.ext h (perform_read d p)

/-- A file has bytes, or cannot be read, whatever happens under other names. -/
theorem Elsewhere.read_eq_ok (h : Elsewhere ns d e) (hu : Path.Plain u) (hns : u ∉ ns)
    {b : ByteArray} :
    (e.perform (.read (q / ⟨u⟩))).1 = .ok b ↔ (d.perform (.read (q / ⟨u⟩))).1 = .ok b := by
  rw [Disk.read_eq_ok, Disk.read_eq_ok]
  exact exists_congr fun _ => h.view_eq_ok hu hns

/-! ## Operations on files -/

theorem elsewhere_truncate (ht : Path.Plain t) (hns : t ∈ ns) (d : Disk) :
    Elsewhere ns d (d.perform (.truncate (p / ⟨t⟩))).2 := by
  show Elsewhere ns d (d.onPlace _ _).2
  rw [onPlace_join ht]
  split
  · exact .refl ns d
  · unfold truncateFile
    split
    · exact .refl ns d
    · next hn => exact .put_file hns (isDirectoryAt_of_not hn) _ _

theorem elsewhere_append (ht : Path.Plain t) (hns : t ∈ ns) (bytes : ByteArray) (d : Disk) :
    Elsewhere ns d (d.perform (.append (p / ⟨t⟩) bytes)).2 := by
  show Elsewhere ns d (d.onPlace _ _).2
  rw [onPlace_join ht]
  split
  · exact .refl ns d
  · unfold appendFile
    split
    · exact .refl ns d
    · next c u hn =>
      dsimp only
      split
      · exact .refl ns d
      · exact .put_file hns (isDirectoryAt_of_not (by simp [hn])) _ _
    · next hn => exact .put_file hns (isDirectoryAt_of_not (by simp [hn])) _ _

theorem elsewhere_create (ht : Path.Plain t) (hns : t ∈ ns) (d : Disk) :
    Elsewhere ns d (d.perform (.create (p / ⟨t⟩))).2 := by
  show Elsewhere ns d (d.onPlace _ _).2
  rw [onPlace_join ht]
  split
  · exact .refl ns d
  · unfold createFile
    split
    · exact .refl ns d
    · next hn => exact .put_file hns (isDirectoryAt_of_not (by simp [hn])) _ _

theorem elsewhere_remove (ht : Path.Plain t) (hns : t ∈ ns) (d : Disk) :
    Elsewhere ns d (d.perform (.remove (p / ⟨t⟩))).2 := by
  show Elsewhere ns d (d.onPlace _ _).2
  rw [onPlace_join ht]
  split
  · exact .refl ns d
  · unfold removeFile
    split
    · exact .refl ns d
    · exact .refl ns d
    · next hn => exact .erase hns (isDirectoryAt_of_not (by simp [hn]))

/-- A file that is moved to another name leaves its own. -/
theorem elsewhere_rename (hs : Path.Plain s) (ht : Path.Plain t) (hsn : s ∈ ns) (htn : t ∈ ns)
    (hd : d.NoDirectory (p / ⟨s⟩)) :
    Elsewhere ns d (d.perform (.rename (p / ⟨s⟩) (p / ⟨t⟩))).2 := by
  rcases rename_join hs ht hd with ⟨x, hx⟩ | ⟨-, hsame, -⟩
  · rw [hx]
    exact .refl ns d
  · refine ⟨hsame, fun {m u} hu => ?_⟩
    exact node?_rename hs ht hd (fun h => hu (h ▸ hsn)) fun h => hu (h ▸ htn)

end Disk

end SensorCache
