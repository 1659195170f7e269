import SensorCache.Proofs.Cache.Promotion
import SensorCache.Proofs.Record.Logs

/-!
# What the files of a cache hold

While only the cache writes them, its two files are logs: `Holds` says of which entities. For each
operation on the files this says what it answers and what they hold after it, when nothing else
happens meanwhile.
-/

namespace SensorCache

open Disk

variable {d e : Disk} {p : Path} {s t : String}

/-! ## Running attempts -/

namespace Attempt

variable {ε δ α β : Type} {r : Attempt ε α} {g : α → Attempt ε β} {a : α} {x : ε}

theorem run_bind_ok (h : r.run d = (.ok a, e)) : (r >>= g).run d = (g a).run e := by
  rw [run_bind, h]

theorem run_bind_error (h : r.run d = (.error x, e)) : (r >>= g).run d = (.error x, e) := by
  rw [run_bind, h]

theorem run_because_ok {cause : ε → δ} (h : r.run d = (.ok a, e)) :
    (because cause r).run d = (.ok a, e) := by
  rw [run_because, h]
  rfl

theorem run_always_ok {r : Routine α} (h : r.run d = (a, e)) :
    (always r : Attempt ε α).run d = (.ok a, e) := by
  rw [run_always, h]

/-- What succeeds as a whole succeeds in its parts. -/
theorem exists_of_run_bind {b : β} (h : (r >>= g).run d = (.ok b, e)) :
    ∃ a m, r.run d = (.ok a, m) ∧ (g a).run m = (.ok b, e) := by
  rw [run_bind] at h
  split at h
  · next a m hr => exact ⟨a, m, hr, h⟩
  · cases h

theorem run_of_because {cause : ε → δ} (h : (because cause r).run d = (.ok a, e)) :
    r.run d = (.ok a, e) := by
  rw [run_because] at h
  rcases hr : r.run d with ⟨x, m⟩
  rw [hr] at h
  cases x <;> cases h
  rfl

end Attempt

namespace Disk

/-! ## One file -/

theorem view_eq_file (hs : Path.Plain s) {b : ByteArray} {u : Instant} :
    d.view (p / ⟨s⟩) = .ok (.file b u) ↔
      ∃ l, d.enter p = .ok l ∧ d.node? (l ++ [s]) = some (.file b u) := by
  rw [view_join hs]
  cases d.enter p with
  | error x => simp
  | ok l =>
    simp only [find, Except.ok.injEq, exists_eq_left']
    cases d.node? (l ++ [s]) <;> simp

/-- A file is seen where it was put. -/
theorem view_put_file {l : Place} (hs : Path.Plain s) (hl : d.enter p = .ok l)
    (hd : d.isDirectoryAt (l ++ [s]) = false) (b : ByteArray) (u : Instant) :
    (d.put (l ++ [s]) (.file b u)).view (p / ⟨s⟩) = .ok (.file b u) := by
  refine (view_eq_file hs).mpr ⟨l, ?_, ?_⟩
  · exact (SameDirectories.put_file (by simp) hd b u).enter_ok hl
  · rw [node?_put (by simp), if_pos rfl]

theorem isDirectoryAt_of_file {l : Place} {b : ByteArray} {u : Instant}
    (h : d.node? l = some (.file b u)) : d.isDirectoryAt l = false := by
  simp [isDirectoryAt, h, Node.isDirectory]

/-- A file is emptied, or made, where no directory is in the way. -/
theorem truncate_file (hs : Path.Plain s) {l : Place} (hl : d.enter p = .ok l)
    (hd : d.NoDirectory (p / ⟨s⟩)) :
    (d.perform (.truncate (p / ⟨s⟩))).1 = .ok () ∧
      ∃ v, (d.perform (.truncate (p / ⟨s⟩))).2.view (p / ⟨s⟩) = .ok (.file .empty v) := by
  have hdir := (noDirectory_join hs hl).mp hd
  have hp : d.perform (.truncate (p / ⟨s⟩)) = (.ok (), d.put (l ++ [s]) (.file .empty d.clock)) := by
    show d.onPlace _ _ = _
    rw [onPlace_join hs, hl]
    dsimp only
    unfold truncateFile
    split
    · next u hu =>
      rw [isDirectoryAt_iff.mpr ⟨u, hu⟩] at hdir
      cases hdir
    · rfl
  rw [hp]
  exact ⟨rfl, _, view_put_file hs hl hdir _ _⟩

theorem append_file (hs : Path.Plain s) {b : ByteArray} {u : Instant}
    (h : d.view (p / ⟨s⟩) = .ok (.file b u)) (bytes : ByteArray) :
    (d.perform (.append (p / ⟨s⟩) bytes)).1 = .ok () ∧
      ∃ v, (d.perform (.append (p / ⟨s⟩) bytes)).2.view (p / ⟨s⟩) = .ok (.file (b ++ bytes) v) := by
  obtain ⟨l, hl, hn⟩ := (view_eq_file hs).mp h
  have hp : d.perform (.append (p / ⟨s⟩) bytes) =
      (.ok (), if bytes.size == 0 then d else d.put (l ++ [s]) (.file (b ++ bytes) d.clock)) := by
    show d.onPlace _ _ = _
    rw [onPlace_join hs, hl]
    simp [appendFile, hn]
  rw [hp]
  refine ⟨rfl, ?_⟩
  dsimp only
  split
  · next hz =>
    rw [ByteArray.size_eq_zero_iff.mp (beq_iff_eq.mp hz), ByteArray.append_empty]
    exact ⟨u, h⟩
  · exact ⟨_, view_put_file hs hl (isDirectoryAt_of_file hn) _ _⟩

theorem read_file (hs : Path.Plain s) {b : ByteArray} {u : Instant}
    (h : d.view (p / ⟨s⟩) = .ok (.file b u)) : (d.perform (.read (p / ⟨s⟩))).1 = .ok b := by
  obtain ⟨l, hl, hn⟩ := (view_eq_file hs).mp h
  show (d.onPlace _ _).1 = _
  rw [onPlace_join hs, hl]
  simp [readFile, hn]

/-- A file renamed to the name of another is emptied anew. -/
theorem rename_truncate_file (hs : Path.Plain s) (ht : Path.Plain t) (hst : s ≠ t)
    {a b : ByteArray} {u v : Instant} (hsv : d.view (p / ⟨s⟩) = .ok (.file a u))
    (htv : d.view (p / ⟨t⟩) = .ok (.file b v)) :
    ∃ m, d.perform (.rename (p / ⟨t⟩) (p / ⟨s⟩)) = (.ok (), m) ∧
      (m.perform (.truncate (p / ⟨t⟩))).1 = .ok () ∧
      (m.perform (.truncate (p / ⟨t⟩))).2.view (p / ⟨s⟩) = .ok (.file b v) ∧
      ∃ w, (m.perform (.truncate (p / ⟨t⟩))).2.view (p / ⟨t⟩) = .ok (.file .empty w) := by
  obtain ⟨l, hl, hsn⟩ := (view_eq_file hs).mp hsv
  obtain ⟨l', hl', htn⟩ := (view_eq_file ht).mp htv
  obtain rfl : l = l' := by
    rw [hl] at hl'
    exact Except.ok.inj hl'
  have hne : l ++ [t] ≠ l ++ [s] := by simpa using Ne.symm hst
  have herase := SameDirectories.erase (l := l ++ [t]) (by simp) (isDirectoryAt_of_file htn)
  have hput := SameDirectories.put_file (d := d.erase (l ++ [t])) (l := l ++ [s]) (by simp)
    (by rw [herase.directories, isDirectoryAt_of_file hsn]) b v
  have hm := (herase.trans hput).enter_ok hl
  refine ⟨(d.erase (l ++ [t])).put (l ++ [s]) (.file b v), ?_, ?_⟩
  · show d.onPlace _ _ = _
    rw [onPlace_join ht, hl]
    show d.onPlace _ _ = _
    rw [onPlace_join hs, hl]
    simp [renameNode, htn, hsn, Node.isDirectory, move, hst.symm]
  · -- Nothing is left under the old name, so an empty file is made there.
    generalize hg : (d.erase (l ++ [t])).put (l ++ [s]) (.file b v) = m at hm hput ⊢
    have hms : m.node? (l ++ [s]) = some (.file b v) := by
      rw [← hg, node?_put (by simp), if_pos rfl]
    have hmt : m.node? (l ++ [t]) = none := by
      rw [← hg, node?_put (by simp), if_neg hne, node?_erase (by simp), if_pos rfl]
    have hdir : m.isDirectoryAt (l ++ [t]) = false := by simp [isDirectoryAt, hmt]
    have hp : m.perform (.truncate (p / ⟨t⟩)) = (.ok (), m.put (l ++ [t]) (.file .empty m.clock)) := by
      show m.onPlace _ _ = _
      rw [onPlace_join ht, hm]
      simp [truncateFile, hmt]
    have hview := (spares_truncate hs ht hst m (p := p)).view
    rw [hp] at hview ⊢
    refine ⟨rfl, ?_, _, view_put_file ht hm hdir _ _⟩
    rw [hview]
    exact (view_eq_file hs).mpr ⟨l, hm, hms⟩

end Disk

/-! ## Both files -/

namespace CacheFiles

variable {f : CacheFiles} {α : Type} [Entity α] {durable work es : List α} {b w : ByteArray}

/-- The snapshot is the log of `durable` and the work file that of `work`. -/
structure Holds (f : CacheFiles) (d : Disk) (durable work : List α) : Prop where
  snapshot : ∃ u, d.view f.snapshot = .ok (.file (Record.logBytes durable) u)
  work : ∃ u, d.view f.work = .ok (.file (Record.logBytes work) u)

/-- The snapshot is the log of `durable`, and no directory is in the way of a new work file. -/
structure Saves (f : CacheFiles) (d : Disk) (durable : List α) : Prop where
  snapshot : ∃ u, d.view f.snapshot = .ok (.file (Record.logBytes durable) u)
  work : d.NoDirectory f.work

theorem Holds.saves (h : f.Holds d durable work) : f.Saves d durable where
  snapshot := h.snapshot
  work u := by
    obtain ⟨v, hv⟩ := h.work
    rw [hv]
    exact fun hdir => nomatch hdir

/-- The two files have given bytes, be they logs or not. -/
structure HoldsBytes (f : CacheFiles) (d : Disk) (durable work : ByteArray) : Prop where
  snapshot : ∃ u, d.view f.snapshot = .ok (.file durable u)
  work : ∃ u, d.view f.work = .ok (.file work u)

/-- The snapshot has given bytes, and no directory is in the way of a new work file. -/
structure SavesBytes (f : CacheFiles) (d : Disk) (durable : ByteArray) : Prop where
  snapshot : ∃ u, d.view f.snapshot = .ok (.file durable u)
  work : d.NoDirectory f.work

theorem Holds.bytes (h : f.Holds d durable work) :
    f.HoldsBytes d (Record.logBytes durable) (Record.logBytes work) := ⟨h.snapshot, h.work⟩

theorem Saves.bytes (h : f.Saves d durable) : f.SavesBytes d (Record.logBytes durable) :=
  ⟨h.snapshot, h.work⟩

theorem HoldsBytes.holds (h : f.HoldsBytes d (Record.logBytes durable) (Record.logBytes work)) :
    f.Holds d durable work := ⟨h.snapshot, h.work⟩

/-- Nothing happens to the two files. -/
structure Untouched (f : CacheFiles) (d e : Disk) : Prop where
  snapshot : e.view f.snapshot = d.view f.snapshot
  work : e.view f.work = d.view f.work

theorem Untouched.holds (h : f.Untouched d e) (hd : f.Holds d durable work) :
    f.Holds e durable work :=
  ⟨h.snapshot ▸ hd.snapshot, h.work ▸ hd.work⟩

/-! ## Reading -/

theorem run_readBytes {p : Path} (hp : (d.perform (.read p)).1 = .ok b) :
    (Disk.readBytes p).run d = (.ok b, d) := Prod.ext hp (perform_read d p)

/-- A file that is a text is read, whatever its lines are. -/
theorem run_readRecords_text {p : Path} {s : String} (hp : (d.perform (.read p)).1 = .ok b)
    (hb : String.fromUTF8? b = some s) :
    (readRecords α p).run d = (.ok (Record.decode α s.toList), d) := by
  have htext : (Disk.readText p).outcome.run d = (.ok s, d) := by
    show (Disk.readText p).run d = _
    rw [Disk.readText, Attempt.run_bind_ok (run_readBytes hp)]
    simp only [hb, Attempt.run_pure]
  rw [readRecords, Attempt.caught, Attempt.run_bind_ok (Attempt.run_always_ok htext)]
  simp only [Attempt.run_pure]

/-- A file that is no text is not read at all. -/
theorem run_readRecords_notText {p : Path} (hp : (d.perform (.read p)).1 = .ok b)
    (hb : String.fromUTF8? b = none) :
    (readRecords α p).run d = (.error (.io p .notText), d) := by
  have htext : (Disk.readText p).outcome.run d = (.error .notText, d) := by
    show (Disk.readText p).run d = _
    rw [Disk.readText, Attempt.run_bind_ok (run_readBytes hp)]
    simp only [hb, Attempt.run_fail]
  rw [readRecords, Attempt.caught, Attempt.run_bind_ok (Attempt.run_always_ok htext)]
  simp only [Attempt.run_fail]

theorem run_readRecords {p : Path} (hp : (d.perform (.read p)).1 = .ok (Record.logBytes es)) :
    (readRecords α p).run d = (.ok (Record.reread es), d) := by
  rw [run_readRecords_text hp (Record.fromUTF8?_logBytes es), String.toList_ofList]
  rfl

theorem run_readSnapshot (hf : f.Siblings) (h : f.Saves d durable) :
    (f.readSnapshot α).run d = (.ok (Record.reread durable), d) := by
  obtain ⟨u, hu⟩ := h.snapshot
  obtain ⟨dir, s, t, hs, ht, hst, rfl⟩ := hf.names
  exact run_readRecords (read_file hs hu)

theorem run_readWork (hf : f.Siblings) (h : f.Holds d durable work) :
    (f.readWork α).run d = (.ok (Record.reread work), d) := by
  obtain ⟨u, hu⟩ := h.work
  obtain ⟨dir, s, t, hs, ht, hst, rfl⟩ := hf.names
  exact run_readRecords (read_file ht hu)

theorem run_hasContent_bytes {p : Path} {u : Instant} (h : d.view p = .ok (.file b u)) :
    (hasContent p).run d = (b.size != 0, d) := by
  have hlook : (Disk.look p).run d = (some (.file b u), d) := by
    have hfind : d.perform (.find p) = (.ok (.file b u), d) := Prod.ext h (perform_find d p)
    show ((d.perform (.find p)).1.toOption, (d.perform (.find p)).2) = _
    rw [hfind]
    rfl
  rw [hasContent, Routine.run_bind, hlook]
  rfl

/-- A log has content when it has a record. -/
theorem run_hasContent {p : Path} {u : Instant} (h : d.view p = .ok (.file (Record.logBytes es) u)) :
    (hasContent p).run d = (!es.isEmpty, d) := by
  rw [run_hasContent_bytes h]
  have hsize := Record.size_logBytes es
  cases es with
  | nil => rfl
  | cons a es =>
    simp only [List.isEmpty_cons, Bool.not_false, Prod.mk.injEq, and_true, bne_iff_ne, ne_eq]
    exact fun hz => nomatch hsize.mp hz

/-! ## Writing -/

theorem run_clearWork_bytes (hf : f.Siblings) (h : f.SavesBytes d b) :
    ∃ e, f.clearWork.run d = (.ok (), e) ∧ f.HoldsBytes e b .empty := by
  obtain ⟨⟨u, hu⟩, hno⟩ := h
  obtain ⟨dir, s, t, hs, ht, hst, rfl⟩ := hf.names
  obtain ⟨l, hl, -⟩ := (view_eq_file hs).mp hu
  obtain ⟨hok, w, hw⟩ := truncate_file ht hl hno
  refine ⟨_, Attempt.run_because_ok (Prod.ext hok rfl), ⟨u, ?_⟩, w, hw⟩
  exact (spares_truncate hs ht hst d).view.trans hu

theorem run_clearWork (hf : f.Siblings) (h : f.Saves d durable) :
    ∃ e, f.clearWork.run d = (.ok (), e) ∧ f.Holds e durable [] := by
  obtain ⟨e, he, hbytes⟩ := run_clearWork_bytes hf h.bytes
  exact ⟨e, he, HoldsBytes.holds hbytes⟩

theorem run_appendBytes_bytes (hf : f.Siblings) (h : f.HoldsBytes d b w) (bytes : ByteArray) :
    ∃ e, ((Disk.appendBytes f.work bytes).because (.io f.work)).run d =
        ((.ok () : Except CacheError Unit), e) ∧ f.HoldsBytes e b (w ++ bytes) := by
  obtain ⟨⟨u, hu⟩, v, hv⟩ := h
  obtain ⟨dir, s, t, hs, ht, hst, rfl⟩ := hf.names
  obtain ⟨hok, hw⟩ := append_file ht hv bytes
  refine ⟨_, Attempt.run_because_ok (Prod.ext hok rfl), ⟨u, ?_⟩, hw⟩
  exact (spares_append hs ht hst _ d).view.trans hu

theorem run_appendBytes (hf : f.Siblings) (h : f.Holds d durable work) (es : List α) :
    ∃ e, ((Disk.appendBytes f.work (Record.logBytes es)).because (.io f.work)).run d =
        ((.ok () : Except CacheError Unit), e) ∧ f.Holds e durable (work ++ es) := by
  obtain ⟨e, he, hbytes⟩ := run_appendBytes_bytes hf h.bytes (Record.logBytes es)
  rw [← Record.logBytes_append] at hbytes
  exact ⟨e, he, hbytes.holds⟩

/-- An entity with an allowed key is added to the work file. -/
theorem run_appendWork (hf : f.Siblings) (h : f.Holds d durable work) {a : α}
    (ha : Record.keyAllowed (Entity.key a) = true) :
    ∃ e, (f.appendWork a).run d = (.ok (), e) ∧ f.Holds e durable (work ++ [a]) := by
  unfold appendWork
  rw [Record.encode_eq_ok.mpr ⟨ha, rfl⟩]
  exact run_appendBytes hf h [a]

theorem run_appendWork_error {a : α} (ha : Record.keyAllowed (Entity.key a) = false) (d : Disk) :
    (f.appendWork a).run d = (.error (.codec (Record.refusal (Entity.key a))), d) := by
  unfold appendWork
  rw [show Record.encode a = .error (Record.refusal (Entity.key a)) by simp [Record.encode, ha]]
  rfl

theorem linesOf_allowed (h : ∀ a ∈ es, Record.keyAllowed (Entity.key a) = true) :
    linesOf es = (es.map Record.line, none) := by
  induction es with
  | nil => rfl
  | cons a es ih =>
    have ha := Record.encode_eq_ok.mpr ⟨h a List.mem_cons_self, rfl⟩
    rw [linesOf, ha, ih fun b hb => h b (List.mem_cons_of_mem a hb)]
    rfl

/-- The lines before the first refusal are those of the entities before it. -/
theorem linesOf_refused {kept rest : List α} {a : α}
    (h : ∀ b ∈ kept, Record.keyAllowed (Entity.key b) = true)
    (ha : Record.keyAllowed (Entity.key a) = false) :
    linesOf (kept ++ a :: rest) = (kept.map Record.line, some (Record.refusal (Entity.key a))) := by
  induction kept with
  | nil =>
    have hrefused : Record.encode a = .error (Record.refusal (Entity.key a)) := by
      simp [Record.encode, ha]
    rw [List.nil_append, linesOf, hrefused]
    rfl
  | cons b kept ih =>
    have hb := Record.encode_eq_ok.mpr ⟨h b List.mem_cons_self, rfl⟩
    rw [List.cons_append, linesOf, hb, ih fun c hc => h c (List.mem_cons_of_mem b hc)]
    rfl

theorem foldl_lineBytes (es : List α) (b : ByteArray) :
    (es.map Record.line).foldl (fun b l => b ++ lineBytes l) b = b ++ Record.logBytes es := by
  induction es generalizing b with
  | nil => exact ByteArray.append_empty.symm
  | cons a es ih =>
    rw [List.map_cons, List.foldl_cons, ih, ByteArray.append_assoc, ← Record.logBytes_singleton,
      ← Record.logBytes_append]
    rfl

/-- The work file gets the lines that were made, and the rest is told. -/
theorem run_writeWork_bytes (hf : f.Siblings) (h : f.SavesBytes d b) {kept : List α}
    {refused : Option Record.Refusal} (hl : linesOf es = (kept.map Record.line, refused)) :
    ∃ e, (f.writeWork es).run d =
        (refused.elim (.ok es.length) fun x => .error (.codec x), e) ∧
      f.HoldsBytes e b (Record.logBytes kept) := by
  obtain ⟨m, hm, hclear⟩ := run_clearWork_bytes hf h
  obtain ⟨e, he, happend⟩ := run_appendBytes_bytes hf hclear (Record.logBytes kept)
  refine ⟨e, ?_, by simpa using happend⟩
  rw [clearWork] at hm
  rw [writeWork, Attempt.run_bind_ok hm, hl]
  simp only [foldl_lineBytes, ByteArray.empty_append]
  rw [Attempt.run_bind_ok he]
  cases refused <;> rfl

theorem run_writeWork_lines (hf : f.Siblings) (h : f.Saves d durable) {kept : List α}
    {refused : Option Record.Refusal} (hl : linesOf es = (kept.map Record.line, refused)) :
    ∃ e, (f.writeWork es).run d =
        (refused.elim (.ok es.length) fun x => .error (.codec x), e) ∧ f.Holds e durable kept := by
  obtain ⟨e, he, hbytes⟩ := run_writeWork_bytes hf h.bytes hl
  exact ⟨e, he, hbytes.holds⟩

theorem run_writeWork (hf : f.Siblings) (h : f.Saves d durable)
    (hes : ∀ a ∈ es, Record.keyAllowed (Entity.key a) = true) :
    ∃ e, (f.writeWork es).run d = (.ok es.length, e) ∧ f.Holds e durable es :=
  run_writeWork_lines hf h (linesOf_allowed hes)

theorem run_writeWork_refused (hf : f.Siblings) (h : f.Saves d durable) {kept : List α}
    {a : α} (rest : List α) (hkept : ∀ b ∈ kept, Record.keyAllowed (Entity.key b) = true)
    (ha : Record.keyAllowed (Entity.key a) = false) :
    ∃ e, (f.writeWork (kept ++ a :: rest)).run d =
        (.error (.codec (Record.refusal (Entity.key a))), e) ∧ f.Holds e durable kept :=
  run_writeWork_lines hf h (linesOf_refused hkept ha)

/-- A promotion makes the work file's bytes the snapshot's, and leaves an empty one. -/
theorem run_promoteWork_bytes (hf : f.Siblings) (h : f.HoldsBytes d b w) :
    ∃ e, f.promoteWork.run d = (.ok (), e) ∧ f.HoldsBytes e w .empty := by
  obtain ⟨⟨u, hu⟩, v, hv⟩ := h
  obtain ⟨dir, s, t, hs, ht, hst, rfl⟩ := hf.names
  obtain ⟨m, hren, hok, hsnap, hwork⟩ := rename_truncate_file hs ht hst hu hv
  have hren' : (Disk.renameTo (dir / ⟨t⟩) (dir / ⟨s⟩)).run d = (.ok (), m) := hren
  refine ⟨_, ?_, ⟨v, hsnap⟩, hwork⟩
  rw [promoteWork, Attempt.run_bind_ok (Attempt.run_because_ok hren')]
  exact Attempt.run_because_ok (Prod.ext hok rfl)

theorem run_promoteWork (hf : f.Siblings) (h : f.Holds d durable work) :
    ∃ e, f.promoteWork.run d = (.ok (), e) ∧ f.Holds e work [] := by
  obtain ⟨e, he, hbytes⟩ := run_promoteWork_bytes hf h.bytes
  exact ⟨e, he, HoldsBytes.holds hbytes⟩

end CacheFiles

end SensorCache
