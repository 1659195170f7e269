import SensorCache.Proofs.Disk.Interference
import SensorCache.Proofs.Disk.Places

/-!
# Two names in one directory

What is done at one name of a directory cannot be seen at another (`Spares`), as long as nothing
happens to the directories themselves; and a file can be emptied, added to and moved to another name
exactly when no directory is in the way.
-/

namespace SensorCache

namespace Disk

variable {d e : Disk} {l : Place} {p : Path} {s t : String}

theorem onPlace_join (hs : Path.Plain s) {α : Type} (d : Disk) (p : Path)
    (f : Place → Except OsError α × Disk) :
    d.onPlace (p / ⟨s⟩) f =
      match d.enter p with
      | .error x => (.error x, d)
      | .ok l => f (l ++ [s]) := by
  unfold onPlace
  rw [locate_join hs]
  cases d.enter p <;> rfl

/-! ## Keeping out of sight -/

/-- From `d` to `e` no directory came or went, and what is seen at `p` is the same. -/
structure Spares (p : Path) (d e : Disk) : Prop where
  directories : SameDirectories d e
  view : e.view p = d.view p

namespace Spares

theorem refl (d : Disk) : Spares p d d := ⟨.refl d, rfl⟩

theorem trans {d e f : Disk} (h : Spares p d e) (k : Spares p e f) : Spares p d f :=
  ⟨h.directories.trans k.directories, k.view.trans h.view⟩

/-- A change at another name of the directory, by which no directory comes or goes. -/
theorem of_node? (hs : Path.Plain s) (hl : d.enter p = .ok l) (h : SameDirectories d e)
    (hn : e.node? (l ++ [s]) = d.node? (l ++ [s])) : Spares (p / ⟨s⟩) d e := by
  refine ⟨h, ?_⟩
  rw [view_join hs, view_join hs, h.enter_ok hl, hl]
  show e.find _ = d.find _
  unfold find
  rw [hn]

theorem put_file (hs : Path.Plain s) (hst : s ≠ t) (hl : d.enter p = .ok l)
    (hd : d.isDirectoryAt (l ++ [t]) = false) (c : ByteArray) (u : Instant) :
    Spares (p / ⟨s⟩) d (d.put (l ++ [t]) (.file c u)) := by
  refine of_node? hs hl (.put_file (by simp) hd c u) ?_
  rw [node?_put (by simp), if_neg (by simpa using hst)]

end Spares

theorem isDirectoryAt_of_not (h : ∀ u, d.node? l ≠ some (.directory u)) :
    d.isDirectoryAt l = false := by
  cases hd : d.isDirectoryAt l with
  | false => rfl
  | true =>
    obtain ⟨u, hu⟩ := isDirectoryAt_iff.mp hd
    exact absurd hu (h u)

theorem spares_truncate (hs : Path.Plain s) (ht : Path.Plain t) (hst : s ≠ t) (d : Disk) :
    Spares (p / ⟨s⟩) d (d.perform (.truncate (p / ⟨t⟩))).2 := by
  show Spares _ d (d.onPlace _ _).2
  rw [onPlace_join ht]
  split
  · exact .refl d
  · next l hl =>
    unfold truncateFile
    split
    · exact .refl d
    · next hn => exact .put_file hs hst hl (isDirectoryAt_of_not hn) _ _

theorem spares_append (hs : Path.Plain s) (ht : Path.Plain t) (hst : s ≠ t) (bytes : ByteArray)
    (d : Disk) : Spares (p / ⟨s⟩) d (d.perform (.append (p / ⟨t⟩) bytes)).2 := by
  show Spares _ d (d.onPlace _ _).2
  rw [onPlace_join ht]
  split
  · exact .refl d
  · next l hl =>
    unfold appendFile
    split
    · exact .refl d
    · next c u hn =>
      dsimp only
      split
      · exact .refl d
      · exact .put_file hs hst hl (isDirectoryAt_of_not (by simp [hn])) _ _
    · next hn => exact .put_file hs hst hl (isDirectoryAt_of_not (by simp [hn])) _ _

/-! ## Directories in the way -/

/-- No directory is seen at a path. -/
def NoDirectory (d : Disk) (p : Path) : Prop := ∀ t, d.view p ≠ .ok (.directory t)

theorem noDirectory_join (hs : Path.Plain s) (hl : d.enter p = .ok l) :
    d.NoDirectory (p / ⟨s⟩) ↔ d.isDirectoryAt (l ++ [s]) = false := by
  unfold NoDirectory
  rw [view_join hs, hl]
  show (∀ u, d.find _ ≠ _) ↔ _
  unfold find isDirectoryAt
  cases d.node? (l ++ [s]) with
  | none => simp
  | some n => cases n <;> simp [Node.isDirectory]

theorem SameDirectories.noDirectory (h : SameDirectories d e) (hs : Path.Plain s)
    (hd : d.NoDirectory (p / ⟨s⟩)) : e.NoDirectory (p / ⟨s⟩) := by
  cases he : e.enter p with
  | error x =>
    intro u
    rw [view_join hs, he]
    simp
  | ok l =>
    rw [noDirectory_join hs he, h.directories]
    exact (noDirectory_join hs (h.enter_iff.mp he)).mp hd

/-- A file that could be emptied is no directory. -/
theorem noDirectory_of_truncate (hs : Path.Plain s)
    (h : d.perform (.truncate (p / ⟨s⟩)) = (.ok (), e)) :
    SameDirectories d e ∧ e.NoDirectory (p / ⟨s⟩) := by
  have h' : d.onPlace (p / ⟨s⟩) d.truncateFile = (.ok (), e) := h
  rw [onPlace_join hs] at h'
  split at h'
  · cases h'
  · next l hl =>
    unfold truncateFile at h'
    split at h'
    · cases h'
    · next hn =>
      cases h'
      have hd := isDirectoryAt_of_not hn
      have hsame : SameDirectories d _ := .put_file (by simp) hd .empty d.clock
      refine ⟨hsame, (noDirectory_join hs (hsame.enter_ok hl)).mpr ?_⟩
      rw [hsame.directories, hd]

/-- Only a directory, or the lack of one to stand in, keeps a file from being emptied. -/
theorem truncate_ok (hs : Path.Plain s) (hl : d.enter p = .ok l) (hd : d.NoDirectory (p / ⟨s⟩)) :
    (d.perform (.truncate (p / ⟨s⟩))).1 = .ok () := by
  show (d.onPlace _ _).1 = _
  rw [onPlace_join hs, hl]
  have hn := (noDirectory_join hs hl).mp hd
  show (d.truncateFile _).1 = _
  unfold truncateFile
  split
  · next u hu =>
    rw [isDirectoryAt_iff.mpr ⟨u, hu⟩] at hn
    cases hn
  · rfl

/-- What is no directory takes only the place of what is no directory either. -/
theorem renameNode_file {a b : Place} (ha : a ≠ []) (hb : b ≠ []) (hd : d.isDirectoryAt a = false) :
    (∃ x, d.renameNode a b = (.error x, d)) ∨
      ((d.renameNode a b).1 = .ok () ∧ SameDirectories d (d.renameNode a b).2) := by
  -- The node that is moved is a file, so it leaves its place and is put down in the other.
  have hmove : ∀ n, d.node? a = some n → d.isDirectoryAt b = false →
      n.isDirectory = false ∧ SameDirectories d (d.move a b n) := by
    intro n hn hbd
    have hfile : n.isDirectory = false := by simpa [isDirectoryAt, hn] using hd
    refine ⟨hfile, ?_⟩
    obtain ⟨c, t⟩ | t := n
    · have herase := SameDirectories.erase ha hd
      rw [move, if_neg (by simp [Node.isDirectory])]
      exact herase.trans (.put_file hb (by rw [herase.directories, hbd]) c t)
    · cases hfile
  unfold renameNode
  cases hn : d.node? a with
  | none => exact .inl ⟨_, rfl⟩
  | some n =>
    cases hm : d.node? b with
    | none => exact .inr ⟨rfl, (hmove n hn (by simp [isDirectoryAt, hm])).2⟩
    | some m =>
      cases hmd : m.isDirectory with
      | true =>
        have hfile : n.isDirectory = false := by simpa [isDirectoryAt, hn] using hd
        have hab : a ≠ b := by
          rintro rfl
          rw [hn] at hm
          cases hm
          rw [hfile] at hmd
          cases hmd
        refine .inl ⟨.isDirectory, ?_⟩
        simp [hab, hfile, hmd]
      | false =>
        obtain ⟨hfile, hsame⟩ := hmove n hn (by simp [isDirectoryAt, hm, hmd])
        refine .inr ?_
        dsimp only
        split
        · exact ⟨rfl, .refl d⟩
        · simpa [hfile, hmd] using hsame

/-- A rename in one directory, of what is no directory, fails and changes nothing, or leaves the
directories. -/
theorem rename_join (hs : Path.Plain s) (ht : Path.Plain t) (hd : d.NoDirectory (p / ⟨s⟩)) :
    (∃ x, d.perform (.rename (p / ⟨s⟩) (p / ⟨t⟩)) = (.error x, d)) ∨
      ((d.perform (.rename (p / ⟨s⟩) (p / ⟨t⟩))).1 = .ok () ∧
        SameDirectories d (d.perform (.rename (p / ⟨s⟩) (p / ⟨t⟩))).2 ∧ ∃ l, d.enter p = .ok l) := by
  have hp : d.perform (.rename (p / ⟨s⟩) (p / ⟨t⟩)) =
      d.onPlace (p / ⟨s⟩) fun a => d.onPlace (p / ⟨t⟩) fun b => d.renameNode a b := rfl
  rw [hp, onPlace_join hs]
  cases hl : d.enter p with
  | error x => exact .inl ⟨x, rfl⟩
  | ok l =>
    dsimp only
    rw [onPlace_join ht, hl]
    refine (renameNode_file (by simp) (by simp) ((noDirectory_join hs hl).mp hd)).imp id ?_
    exact fun h => ⟨h.1, h.2, l, rfl⟩

/-- What is no directory takes another name of its directory, and nothing happens to any third. -/
theorem node?_rename {u : String} {m : Place} (hs : Path.Plain s) (ht : Path.Plain t)
    (hd : d.NoDirectory (p / ⟨s⟩)) (hus : u ≠ s) (hut : u ≠ t) :
    (d.perform (.rename (p / ⟨s⟩) (p / ⟨t⟩))).2.node? (m ++ [u]) = d.node? (m ++ [u]) := by
  show (d.onPlace (p / ⟨s⟩) fun a => d.onPlace (p / ⟨t⟩) fun b => d.renameNode a b).2.node? _ = _
  rw [onPlace_join hs]
  cases hl : d.enter p with
  | error x => rfl
  | ok l =>
    dsimp only
    rw [onPlace_join ht, hl]
    have hmove : ∀ n : Node, d.node? (l ++ [s]) = some n →
        (d.move (l ++ [s]) (l ++ [t]) n).node? (m ++ [u]) = d.node? (m ++ [u]) := by
      intro n hn
      have hfile : n.isDirectory = false := by
        have hno := (noDirectory_join hs hl).mp hd
        simpa [isDirectoryAt, hn] using hno
      rw [move, if_neg (by simp [hfile]), node?_put (by simp), if_neg (by simp [hut]),
        node?_erase (by simp), if_neg (by simp [hus])]
    show (d.renameNode _ _).2.node? _ = _
    unfold renameNode
    cases hn : d.node? (l ++ [s]) with
    | none => rfl
    | some n =>
      cases d.node? (l ++ [t]) with
      | none => exact hmove n hn
      | some m =>
        dsimp only
        split
        · rfl
        · split
          · rfl
          · split
            · rfl
            · split
              · rfl
              · exact hmove n hn

/-- What is no directory takes another name without being seen at a third. -/
theorem spares_rename {u : String} (hu : Path.Plain u) (hs : Path.Plain s) (ht : Path.Plain t)
    (hus : u ≠ s) (hut : u ≠ t) (hd : d.NoDirectory (p / ⟨s⟩)) :
    Spares (p / ⟨u⟩) d (d.perform (.rename (p / ⟨s⟩) (p / ⟨t⟩))).2 := by
  rcases rename_join hs ht hd with ⟨x, hx⟩ | ⟨-, hsame, l, hl⟩
  · rw [hx]
    exact .refl d
  · exact .of_node? hu hl hsame (node?_rename hs ht hd hus hut)

theorem sameDirectories_create (hs : Path.Plain s) (d : Disk) :
    SameDirectories d (d.perform (.create (p / ⟨s⟩))).2 := by
  show SameDirectories d (d.onPlace _ _).2
  rw [onPlace_join hs]
  split
  · exact .refl d
  · unfold createFile
    split
    · exact .refl d
    · next hn => exact .put_file (by simp) (by simp [isDirectoryAt, hn]) _ _

theorem sameDirectories_remove (hs : Path.Plain s) (d : Disk) :
    SameDirectories d (d.perform (.remove (p / ⟨s⟩))).2 := by
  show SameDirectories d (d.onPlace _ _).2
  rw [onPlace_join hs]
  split
  · exact .refl d
  · unfold removeFile
    split
    · exact .refl d
    · exact .refl d
    · next hn => exact .erase (by simp) (by simp [isDirectoryAt, hn, Node.isDirectory])

/-! ## A directory of files -/

/-- The directory is there, and none lies in it. -/
structure FilesOnly (p : Path) (d : Disk) : Prop where
  enters : ∃ l, d.enter p = .ok l
  names {s : String} : Path.Plain s → d.NoDirectory (p / ⟨s⟩)

theorem SameDirectories.filesOnly (h : SameDirectories d e) (hd : d.FilesOnly p) :
    e.FilesOnly p where
  enters := have ⟨l, hl⟩ := hd.enters; ⟨l, h.enter_ok hl⟩
  names hs := h.noDirectory hs (hd.names hs)

end Disk

end SensorCache
