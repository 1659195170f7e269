import SensorCache.Proofs.Cache.Refinement

/-!
# How old a stored snapshot is

A snapshot's time is that of the last write to the work file that took its place: a rename moves
the time along. Storing a batch, alone or with the entities of the snapshot, writes the work file
anew before it is renamed, so the snapshot is no older than the call (`WrittenSince`). A population
that is promoted without the entities of the snapshot is not written again; its snapshot is as old
as its last item, however long ago that came (`lastUpdated_of_stored`).

All of this holds while others leave the two files alone and the clock does not go back (`Passes`).
-/

namespace SensorCache

open Disk Time

variable {may : Conduct} {d e : Disk} {p : Path} {s t : String}

namespace Attempt

variable {ε δ α β : Type}

theorem ends_because_ok {cause : δ → ε} {r : Attempt δ α} {a : α}
    (h : (because cause r).Ends may d (.ok a) e) : r.Ends may d (.ok a) e := by
  obtain ⟨x, hx, hok⟩ := ends_because.mp h
  cases x with
  | ok b =>
    cases hok
    exact hx
  | error y => cases hok

theorem ends_bind_ok {r : Attempt ε α} {f : α → Attempt ε β} {b : β}
    (h : (r >>= f).Ends may d (.ok b) e) :
    ∃ a m, r.Ends may d (.ok a) m ∧ (f a).Ends may m (.ok b) e := by
  rcases ends_bind.mp h with hok | ⟨_, _, hbad⟩
  · exact hok
  · cases hbad

end Attempt

/-- An operation that is said to have gone well was performed. -/
theorem Disk.Conduct.Within.performed {R : Disk → Disk → Prop} (hmay : may.Within R) {o : Op}
    {x : o.Answer} (h : may o d x e) (hx : ¬o.Fault x) : ∃ m, R d m ∧ m.perform o = (x, e) := by
  obtain ⟨m, hm, hp | ⟨hfault, -⟩⟩ := hmay h
  · exact ⟨m, hm, hp⟩
  · exact absurd hfault hx

namespace Disk

/-! ## What single operations leave -/

theorem view_of_truncate (hs : Path.Plain s) (h : d.perform (.truncate (p / ⟨s⟩)) = (.ok (), e)) :
    e.view (p / ⟨s⟩) = .ok (.file .empty d.clock) := by
  have h' : d.onPlace (p / ⟨s⟩) d.truncateFile = (.ok (), e) := h
  rw [onPlace_join hs] at h'
  split at h'
  · cases h'
  · next l hl =>
    unfold truncateFile at h'
    split at h'
    · cases h'
    · next hn =>
      cases h'
      exact view_put_file hs hl (isDirectoryAt_of_not hn) _ _

/-- What is added is added now; without any bytes a file that is there stays as it was. -/
theorem view_of_append (hs : Path.Plain s) {bytes : ByteArray}
    (h : d.perform (.append (p / ⟨s⟩) bytes) = (.ok (), e)) :
    (∃ b, e.view (p / ⟨s⟩) = .ok (.file b d.clock)) ∨ bytes.size = 0 ∧ e = d := by
  have h' : d.onPlace (p / ⟨s⟩) (fun l => d.appendFile l bytes) = (.ok (), e) := h
  rw [onPlace_join hs] at h'
  split at h'
  · cases h'
  · next l hl =>
    unfold appendFile at h'
    split at h'
    · cases h'
    · next c u hn =>
      split at h'
      · next hz =>
        cases h'
        exact .inr ⟨beq_iff_eq.mp hz, rfl⟩
      · cases h'
        exact .inl ⟨_, view_put_file hs hl (isDirectoryAt_of_file hn) _ _⟩
    · next hn =>
      cases h'
      exact .inl ⟨_, view_put_file hs hl (isDirectoryAt_of_not (by simp [hn])) _ _⟩

/-- A file takes its time along when it gets another name. -/
theorem view_of_rename (hs : Path.Plain s) (ht : Path.Plain t) (hst : s ≠ t) {b : ByteArray}
    {u : Instant} (hview : d.view (p / ⟨t⟩) = .ok (.file b u))
    (h : d.perform (.rename (p / ⟨t⟩) (p / ⟨s⟩)) = (.ok (), e)) :
    e.view (p / ⟨s⟩) = .ok (.file b u) := by
  obtain ⟨l, hl, hn⟩ := (view_eq_file ht).mp hview
  have h' : d.onPlace (p / ⟨t⟩) (fun a => d.onPlace (p / ⟨s⟩) fun b => d.renameNode a b) =
    (.ok (), e) := h
  rw [onPlace_join ht, hl] at h'
  dsimp only at h'
  rw [onPlace_join hs, hl] at h'
  have hne : ¬(l ++ [t] == l ++ [s]) = true := by simpa using Ne.symm hst
  -- The other name is free, or a file has it that is lost.
  have hmove : d.isDirectoryAt (l ++ [s]) = false ∧
      e = d.move (l ++ [t]) (l ++ [s]) (.file b u) := by
    have hren : d.renameNode (l ++ [t]) (l ++ [s]) = (.ok (), e) := h'
    unfold renameNode at hren
    rw [hn] at hren
    unfold isDirectoryAt
    cases hm : d.node? (l ++ [s]) with
    | none =>
      rw [hm] at hren
      cases hren
      exact ⟨rfl, rfl⟩
    | some m =>
      rw [hm] at hren
      cases m with
      | file c v =>
        simp only [hne, Node.isDirectory] at hren
        cases hren
        exact ⟨rfl, rfl⟩
      | directory v =>
        simp only [hne, Node.isDirectory] at hren
        cases hren
  obtain ⟨hdir, rfl⟩ := hmove
  have herase := SameDirectories.erase (l := l ++ [t]) (by simp) (isDirectoryAt_of_file hn)
  have hdir' := (herase.directories (l ++ [s])).trans hdir
  rw [move, if_neg (by simp [Node.isDirectory])]
  exact view_put_file hs (herase.enter_ok hl) hdir' b u

/-- Only what is there gets another name. -/
theorem exists_view_of_rename {q : Path} (h : d.perform (.rename p q) = (.ok (), e)) :
    ∃ n, d.view p = .ok n := by
  have h' : d.onPlace p (fun a => d.onPlace q fun b => d.renameNode a b) = (.ok (), e) := h
  show ∃ n, (d.onPlace p fun l => (d.find l, d)).1 = .ok n
  unfold onPlace at h' ⊢
  split at h'
  · cases h'
  · next a _ =>
    dsimp only
    unfold find
    cases hn : d.node? a with
    | some n => exact ⟨n, rfl⟩
    | none =>
      split at h'
      · cases h'
      · simp only [renameNode, hn] at h'
        cases h'

/-- A file is at the path that was last written at `t` or later. -/
def WrittenSince (d : Disk) (p : Path) (t : Instant) : Prop :=
  ∃ b u, d.view p = .ok (.file b u) ∧ t ≤ u

theorem WrittenSince.mono {u v : Instant} (h : d.WrittenSince p v) (huv : u ≤ v) :
    d.WrittenSince p u := by
  obtain ⟨b, w, hview, hw⟩ := h
  exact ⟨b, w, hview, Int.le_trans huv hw⟩

end Disk

/-! ## The cache's files -/

namespace CacheFiles

variable {f : CacheFiles} {α : Type} [Entity α]

/-- Time passes, and nothing happens to the two files. -/
structure Passes (f : CacheFiles) (d e : Disk) : Prop extends f.Untouched d e where
  clock : d.clock ≤ e.clock

namespace Passes

theorem refl (d : Disk) : f.Passes d d := ⟨⟨rfl, rfl⟩, Int.le_refl _⟩

theorem trans {g : Disk} (h : f.Passes d e) (k : f.Passes e g) : f.Passes d g :=
  ⟨⟨k.snapshot.trans h.snapshot, k.work.trans h.work⟩, Int.le_trans h.clock k.clock⟩

theorem writtenSince (h : f.Passes d e) {t : Instant} (hd : d.WrittenSince f.work t) :
    e.WrittenSince f.work t := by
  unfold WrittenSince at hd ⊢
  rwa [h.work]

end Passes

variable (hf : f.Siblings) (hmay : may.Within f.Passes)
include hf hmay

theorem ends_clearWork_ok (h : f.clearWork.Ends may d (.ok ()) e) :
    e.view f.snapshot = d.view f.snapshot ∧ d.clock ≤ e.clock ∧ e.WrittenSince f.work d.clock := by
  obtain ⟨m, hm, hp⟩ := hmay.performed (Routine.ends_op.mp (Attempt.ends_because_ok h))
    fun ⟨_, hfault⟩ => nomatch hfault
  have hclock : e.clock = m.clock := by rw [← clock_perform m (.truncate f.work), hp]
  obtain ⟨dir, s, t, hs, ht, hst, rfl⟩ := hf.names
  have hspares := spares_truncate hs ht hst m (p := dir)
  rw [hp] at hspares
  exact ⟨hspares.view.trans hm.snapshot, hclock ▸ hm.clock, _, _, view_of_truncate ht hp, hm.clock⟩

theorem ends_appendBytes_ok {bytes : ByteArray}
    (h : (Disk.appendBytes f.work bytes).Ends may d (.ok ()) e) :
    (bytes.size ≠ 0 → e.WrittenSince f.work d.clock) ∧
      ∀ t, t ≤ d.clock → d.WrittenSince f.work t → e.WrittenSince f.work t := by
  obtain ⟨m, hm, hp⟩ :=
    hmay.performed (Routine.ends_op.mp h) fun ⟨_, hfault⟩ => nomatch hfault
  obtain ⟨dir, s, t, hs, ht, hst, rfl⟩ := hf.names
  rcases view_of_append ht hp with ⟨b, hb⟩ | ⟨hz, rfl⟩
  · exact ⟨fun _ => ⟨b, _, hb, hm.clock⟩, fun u hu _ => ⟨b, _, hb, Int.le_trans hu hm.clock⟩⟩
  · exact ⟨fun hne => absurd hz hne, fun _ _ hd => hm.writtenSince hd⟩

/-- A work file that is written is written anew, be there entities or none. -/
theorem ends_writeWork_ok {es : List α} {n : Nat} (h : (f.writeWork es).Ends may d (.ok n) e) :
    e.WrittenSince f.work d.clock := by
  obtain ⟨_, m, hclear, hrest⟩ := Attempt.ends_bind_ok h
  obtain ⟨-, hclock, hwritten⟩ := ends_clearWork_ok hf hmay hclear
  obtain ⟨_, g, happend, hdone⟩ := Attempt.ends_bind_ok hrest
  have he : e = g := by
    split at hdone
    · cases (Attempt.ends_fail.mp hdone).1
    · exact (Attempt.ends_pure.mp hdone).2
  subst he
  exact (ends_appendBytes_ok hf hmay (Attempt.ends_because_ok happend)).2 _ hclock hwritten

/-- The record of an entity is not empty, so the work file is written. -/
theorem ends_appendWork_ok {a : α} (h : (f.appendWork a).Ends may d (.ok ()) e) :
    e.WrittenSince f.work d.clock := by
  unfold appendWork at h
  split at h
  · cases (Attempt.ends_fail.mp h).1
  · next l _ =>
    refine (ends_appendBytes_ok hf hmay (Attempt.ends_because_ok h)).1 fun hz => ?_
    rw [ByteArray.size_eq_zero_iff, lineBytes, String.toUTF8_eq_toByteArray,
      String.toByteArray_eq_empty_iff] at hz
    simp at hz

/-- A promotion renames the work file. -/
theorem ends_promoteWork_renames (h : f.promoteWork.Ends may d (.ok ()) e) :
    ∃ m n, f.Passes d m ∧ m.perform (.rename f.work f.snapshot) = (.ok (), n) ∧
      e.view f.snapshot = n.view f.snapshot := by
  obtain ⟨_, n, hrename, hclear⟩ := Attempt.ends_bind_ok h
  obtain ⟨m, hm, hp⟩ := hmay.performed (Routine.ends_op.mp (Attempt.ends_because_ok hrename))
    fun ⟨_, hfault⟩ => nomatch hfault
  exact ⟨m, n, hm, hp, (ends_clearWork_ok hf hmay hclear).1⟩

/-- The work file becomes the snapshot as it is. -/
theorem ends_promoteWork_ok {b : ByteArray} {u : Instant} (hwork : d.view f.work = .ok (.file b u))
    (h : f.promoteWork.Ends may d (.ok ()) e) : e.view f.snapshot = .ok (.file b u) := by
  obtain ⟨m, n, hm, hp, hsnapshot⟩ := ends_promoteWork_renames hf hmay h
  rw [hsnapshot]
  have hmoved := hm.work.trans hwork
  obtain ⟨dir, s, t, hs, ht, hst, rfl⟩ := hf.names
  exact view_of_rename hs ht hst hmoved hp

/-- What was read, or was not there, and is then promoted is a file. -/
theorem ends_readWork_promoteWork {data : Keyed α} {m : Disk}
    (hread : (f.readWork α).Ends may d (.ok data) m) (h : f.promoteWork.Ends may m (.ok ()) e) :
    ∃ b u, d.view f.work = .ok (.file b u) ∧ e.view f.snapshot = .ok (.file b u) := by
  have hpasses : f.Passes d m := (keeps_readRecords Passes.refl _).ends hmay .refl .trans hread
  obtain ⟨n, _, hn, hp, -⟩ := ends_promoteWork_renames hf hmay h
  obtain ⟨k, hk⟩ := exists_view_of_rename hp
  rw [hn.work] at hk
  cases k with
  | file b u => exact ⟨b, u, hpasses.work ▸ hk, ends_promoteWork_ok hf hmay hk h⟩
  | directory u => exact absurd hk (noDirectory_of_readWork hmay hread u)

end CacheFiles

/-! ## The cache -/

namespace EntityCache

open CacheFiles

variable {α : Type} {c : EntityCache α} {t : Instant}

theorem run_lastUpdated {b : ByteArray} {u : Instant}
    (h : d.view c.files.snapshot = .ok (.file b u)) : c.lastUpdated.run d = (some u, d) := by
  have hlook : (Disk.look c.files.snapshot).run d = (some (.file b u), d) := by
    have hfind : d.perform (.find c.files.snapshot) = (.ok (.file b u), d) :=
      Prod.ext h (perform_find d _)
    show ((d.perform (.find c.files.snapshot)).1.toOption,
      (d.perform (.find c.files.snapshot)).2) = _
    rw [hfind]
    rfl
  rw [lastUpdated, snapshotModified, Routine.run_bind, hlook]
  rfl

/-- The snapshot is said to be of `t` or later, and is not stale as long after `t` as it may be. -/
def FreshSince (c : EntityCache α) (t : Instant) (d : Disk) : Prop :=
  ∃ u, c.lastUpdated.run d = (some u, d) ∧ t ≤ u ∧
    ∀ now : Instant, now.since t ≤ c.policy.freshness → c.isStale now (some u) = false

theorem isStale_eq_false {u now : Instant} (htu : t ≤ u) (hnow : now.since t ≤ c.policy.freshness) :
    c.isStale now (some u) = false := by
  have htu : t.nanos ≤ u.nanos := htu
  have hnow : (now.nanos - t.nanos).toNat ≤ c.policy.freshness.nanos := hnow
  have hyoung : ¬c.policy.freshness < now.since u := by
    show ¬c.policy.freshness.nanos < (now.nanos - u.nanos).toNat
    omega
  simp [isStale, hyoung]

theorem freshSince_of_written (h : d.WrittenSince c.files.snapshot t) : c.FreshSince t d := by
  obtain ⟨b, u, hview, htu⟩ := h
  exact ⟨u, run_lastUpdated hview, htu, fun _ => isStale_eq_false htu⟩

variable [Entity α]

section Calls

variable (hf : c.files.Siblings) (hmay : may.Within c.files.Passes)
include hf hmay

theorem ends_storeBatchIn_ok {o : WriteOrder α} {batch : Keyed α} {n : Nat}
    (h : (c.storeBatchIn o batch).Ends may d (.ok n) e) :
    e.WrittenSince c.files.snapshot d.clock := by
  obtain ⟨_, m, hwrite, hrest⟩ := Attempt.ends_bind_ok h
  obtain ⟨b, u, hview, hu⟩ := ends_writeWork_ok hf hmay hwrite
  obtain ⟨_, g, hpromote, hdone⟩ := Attempt.ends_bind_ok hrest
  obtain ⟨-, rfl⟩ := Attempt.ends_pure.mp hdone
  exact ⟨b, u, ends_promoteWork_ok hf hmay hview hpromote, hu⟩

theorem ends_storeWithPrevious_ok {o : WriteOrder α} {batch : Keyed α} {n : Nat}
    (h : (do c.storeBatchIn o (← c.withPrevious batch)).Ends may d (.ok n) e) :
    e.WrittenSince c.files.snapshot d.clock := by
  obtain ⟨_, m, hread, hstore⟩ := Attempt.ends_bind_ok h
  have hpasses : c.files.Passes d m :=
    (keeps_withPrevious Passes.refl batch).ends hmay .refl .trans hread
  exact (ends_storeBatchIn_ok hf hmay hstore).mono hpasses.clock

theorem ends_storeAllIn_ok {o : WriteOrder α} {es : List α} {n : Nat}
    (h : (c.storeAllIn o es).Ends may d (.ok n) e) : e.WrittenSince c.files.snapshot d.clock := by
  unfold storeAllIn at h
  split at h
  · exact ends_storeWithPrevious_ok hf hmay h
  · exact ends_storeBatchIn_ok hf hmay h

/-- A promotion with the entities of the snapshot writes all of them; one without writes nothing. -/
theorem ends_promoteWorkFileIn_ok {o : WriteOrder α} {n : Nat}
    (h : (c.promoteWorkFileIn o).Ends may d (.ok n) e) :
    (c.policy.keepsPrevious = true → e.WrittenSince c.files.snapshot d.clock) ∧
      (c.policy.keepsPrevious = false → ∃ b u, d.view c.files.work = .ok (.file b u) ∧
        e.view c.files.snapshot = .ok (.file b u)) := by
  obtain ⟨streamed, m, hread, hrest⟩ := Attempt.ends_bind_ok h
  split at hrest
  · next hkeeps =>
    refine ⟨fun _ => ?_, fun hnot => by rw [hkeeps] at hnot; cases hnot⟩
    have hpasses : c.files.Passes d m :=
      (keeps_readRecords Passes.refl _).ends hmay .refl .trans hread
    exact (ends_storeWithPrevious_ok hf hmay hrest).mono hpasses.clock
  · next hkeeps =>
    refine ⟨fun hnot => absurd hnot hkeeps, fun _ => ?_⟩
    obtain ⟨_, g, hpromote, hdone⟩ := Attempt.ends_bind_ok hrest
    obtain ⟨-, rfl⟩ := Attempt.ends_pure.mp hdone
    exact ends_readWork_promoteWork hf hmay hread hpromote

end Calls

/-- How old a snapshot is that was stored just now, in any order of writing, while others leave the
cache's files alone. Every batch that is stored, and every population that is promoted with the
entities of the snapshot, leaves a snapshot of the time of the call or later. A population that is
promoted without them leaves the work file's time as the snapshot's, and that is the time of its
last item, or of its beginning. -/
theorem lastUpdated_of_stored (c : EntityCache α) (hf : c.files.Siblings)
    (hmay : may.Within c.files.Passes) (o : WriteOrder α) (d e : Disk) :
    (∀ es n, (c.storeAllIn o es).Ends may d (.ok n) e → c.FreshSince d.clock e) ∧
      (∀ n, (c.promoteWorkFileIn o).Ends may d (.ok n) e →
        if c.policy.keepsPrevious then c.FreshSince d.clock e
        else ∃ b u, d.view c.files.work = .ok (.file b u) ∧ c.lastUpdated.run e = (some u, e)) ∧
      (∀ a, (c.storeOne a).Ends may d (.ok ()) e → e.WrittenSince c.files.work d.clock) ∧
      (c.beginStreaming.Ends may d (.ok ()) e → e.WrittenSince c.files.work d.clock) := by
  refine ⟨fun es n h => ?_, fun n h => ?_, fun a h => ?_, fun h => ?_⟩
  · exact freshSince_of_written (ends_storeAllIn_ok hf hmay h)
  · obtain ⟨hkeeps, hmoves⟩ := ends_promoteWorkFileIn_ok hf hmay h
    split
    · next hpolicy => exact freshSince_of_written (hkeeps hpolicy)
    · next hpolicy =>
      obtain ⟨b, u, hwork, hsnapshot⟩ := hmoves (Bool.not_eq_true _ ▸ hpolicy)
      exact ⟨b, u, hwork, run_lastUpdated hsnapshot⟩
  · exact ends_appendWork_ok hf hmay h
  · exact (ends_clearWork_ok hf hmay h).2.2

/-- A cache of units. -/
def unitCache (keeps : Bool) : EntityCache UnitMapping :=
  inDirectory UnitMapping ⟨"c"⟩ { keepsPrevious := keeps }

/-- Its last item came sixteen minutes ago, and the population is to be promoted now. -/
def overdue : Disk :=
  let start := (Disk.empty ⟨0⟩).put ["c"] (.directory ⟨0⟩)
  let begun := ((unitCache false).beginStreaming.run start).2
  (((unitCache false).storeOne ⟨"depth", "m"⟩).run begun).2.tick (.ofSeconds 960)

/-- A cache that keeps the entities of its snapshot promotes to a fresh one. -/
theorem lastUpdated_of_stored_units :
    ((unitCache true).promoteWorkFile.run overdue).1 = .ok 1 ∧
      (unitCache true).FreshSince overdue.clock
        ((unitCache true).promoteWorkFile.run overdue).2 := by
  have hok : ((unitCache true).promoteWorkFile.run overdue).1 = .ok 1 := by decide +kernel
  have hends : (unitCache true).promoteWorkFile.Ends (.among (unitCache true).files.Passes) overdue
      ((unitCache true).promoteWorkFile.run overdue).1
      ((unitCache true).promoteWorkFile.run overdue).2 :=
    Routine.ends_run (fun _ d => ⟨d, .refl d, rfl⟩) _ _
  rw [hok] at hends
  exact ⟨hok, (lastUpdated_of_stored (unitCache true) (siblings_inDirectory _ _ _)
    (Conduct.within_among _) .ascending overdue _).2.1 1 hends⟩

/-- Another cache's promotion leaves a snapshot that is stale already: it may be fifteen minutes
old, and its time is that of the last item. -/
theorem promotes_stale_snapshot :
    ((unitCache false).promoteWorkFile.run overdue).1 = .ok 1 ∧
      ((unitCache false).lastUpdated.run ((unitCache false).promoteWorkFile.run overdue).2).1 =
        some ⟨0⟩ ∧
      overdue.clock = .ofSeconds 960 ∧
      (unitCache false).isStale overdue.clock (some ⟨0⟩) = true ∧
      ((unitCache false).requiresUpdate.run
        ((unitCache false).promoteWorkFile.run overdue).2).1 = true := by
  decide +kernel

end EntityCache

end SensorCache
