import SensorCache.Proofs.Cache.Opening

/-!
# Caches as stores

What a cache is for its callers: a durable map, the log of the population going on, and a count of
requests (`Store`). For each call `Store.Does` says what it may answer and what is then stored. A
cache does the same with its two files, in whatever order it writes the entities of a batch, as long
as every entity whose key is accepted also reads back from its record; where one does not, the store
can be told from the cache by two calls.
-/

namespace SensorCache

open Disk

variable {α : Type} [Entity α]

/-! ## Writing in any order -/

/-- An order in which the entities of a map may be written. -/
structure WriteOrder (α : Type) where
  list : Keyed α → List α
  perm (m : Keyed α) : (list m).Perm m.values

/-- By ascending keys. -/
def WriteOrder.ascending : WriteOrder α := ⟨Keyed.values, fun _ => .refl _⟩

namespace EntityCache

/-- Puts a batch into the work file in an order, and promotes it. -/
def storeBatchIn (o : WriteOrder α) (c : EntityCache α) (batch : Keyed α) :
    Attempt CacheError Nat := do
  let stored ← c.files.writeWork (o.list batch)
  c.files.promoteWork
  return stored

def storeAllIn (o : WriteOrder α) (c : EntityCache α) (es : List α) : Attempt CacheError Nat := do
  if c.policy.keepsPrevious then c.storeBatchIn o (← c.withPrevious (batchOf es))
  else c.storeBatchIn o (batchOf es)

def promoteWorkFileIn (o : WriteOrder α) (c : EntityCache α) : Attempt CacheError Nat := do
  let streamed ← c.files.readWork α
  if c.policy.keepsPrevious then c.storeBatchIn o (← c.withPrevious streamed)
  else
    c.files.promoteWork
    return streamed.size

theorem storeAllIn_ascending (c : EntityCache α) (es : List α) :
    c.storeAllIn .ascending es = c.storeAll es := rfl

theorem promoteWorkFileIn_ascending (c : EntityCache α) :
    c.promoteWorkFileIn .ascending = c.promoteWorkFile := rfl

end EntityCache

/-! ## Calls -/

/-- What may be asked of a cache. -/
inductive Call (α : Type) where
  | storeAll (es : List α)
  | storeOne (a : α)
  | beginStreaming
  | promoteWorkFile
  | get

namespace Call

abbrev Result : Call α → Type
  | .storeAll _ => Nat
  | .storeOne _ => Unit
  | .beginStreaming => Unit
  | .promoteWorkFile => Nat
  | .get => Keyed α

/-- The entities that a call brings. -/
def entities : Call α → List α
  | .storeAll es => es
  | .storeOne a => [a]
  | _ => []

/-- What the cache does for a call, when it writes a batch in the given order. -/
def routine (o : WriteOrder α) (c : EntityCache α) :
    (q : Call α) → Trigger → Routine (Except CacheError q.Result × Trigger)
  | .storeAll es, t => do return (← (c.storeAllIn o es).outcome, t)
  | .storeOne a, t => do return (← (c.storeOne a).outcome, t)
  | .beginStreaming, t => do return (← c.beginStreaming.outcome, t)
  | .promoteWorkFile, t => do return (← (c.promoteWorkFileIn o).outcome, t)
  | .get, t => c.get t

end Call

/-- A call and its answer. -/
abbrev Exchange (α : Type) : Type := (q : Call α) × Except CacheError q.Result

/-- Calls one after another. In between nothing happens to the files of the cache, and nobody else
asks for a refresh. -/
inductive EntityCache.Serves (c : EntityCache α) :
    Disk → Trigger → List (Exchange α) → Disk → Trigger → Prop where
  | nil (d : Disk) (t : Trigger) : Serves c d t [] d t
  | cons {d m n e : Disk} {t u v w : Trigger} {q : Call α} {o : WriteOrder α}
    {x : Except CacheError q.Result} {h : List (Exchange α)} :
    c.files.Untouched d m → u.requests = t.requests → (q.routine o c u).run m = ((x, v), n) →
      Serves c n v h e w → Serves c d t (⟨q, x⟩ :: h) e w

/-! ## Stores -/

/-- A durable map, the entities of the population going on in the order they came, and the number of
requests for a refresh. -/
structure Store (α : Type) where
  durable : Keyed α
  log : List α
  requests : Nat

namespace Store

/-- A batch as it is stored: over what is durable, if that is kept. -/
def merged (keeps : Bool) (s : Store α) (batch : Keyed α) : Keyed α :=
  if keeps then s.durable.overlay batch else batch

/-- What a store may answer a call, and the store after it. -/
inductive Does (keeps : Bool) (s : Store α) :
    (q : Call α) → Except CacheError q.Result → Store α → Prop where
  | stored {es : List α} : (∀ a ∈ es, Record.Accepted a) →
    Does keeps s (.storeAll es) (.ok (s.merged keeps (EntityCache.batchOf es)).size)
      { s with durable := s.merged keeps (EntityCache.batchOf es), log := [] }
  /-- A part of the batch, with no entity twice, is left in the log. -/
  | batchRefused {es kept : List α} {a : α} : a ∈ es → ¬Record.Accepted a → kept.Nodup →
    (∀ b ∈ kept, b ∈ (s.merged keeps (EntityCache.batchOf es)).values) →
    Does keeps s (.storeAll es) (.error (.codec (Record.refusal (Entity.key a))))
      { s with log := kept }
  | added {a : α} : Record.Accepted a →
    Does keeps s (.storeOne a) (.ok ()) { s with log := s.log ++ [a] }
  | refused {a : α} : ¬Record.Accepted a →
    Does keeps s (.storeOne a) (.error (.codec (Record.refusal (Entity.key a)))) s
  | begun : Does keeps s .beginStreaming (.ok ()) { s with log := [] }
  | promoted :
    Does keeps s .promoteWorkFile (.ok (s.merged keeps (EntityCache.batchOf s.log)).size)
      { s with durable := s.merged keeps (EntityCache.batchOf s.log), log := [] }
  | durable : s.durable ≠ .empty → Does keeps s .get (.ok s.durable) s
  | unfinished : s.durable = .empty → s.log ≠ [] →
    Does keeps s .get (.ok (EntityCache.batchOf s.log)) s
  | unavailable : s.durable = .empty → s.log = [] →
    Does keeps s .get (.error (.notYetAvailable (Entity.kind α)))
      { s with requests := s.requests + 1 }

/-- A batch that was stored is durable. -/
theorem Does.durable_of_storeAll {keeps : Bool} {s s' : Store α} {es : List α} {n : Nat}
    (h : s.Does keeps (.storeAll es) (.ok n) s') :
    s'.durable = s.merged keeps (EntityCache.batchOf es) := by
  generalize hx : (Except.ok n : Except CacheError Nat) = x at h
  cases h with
  | stored => rfl
  | batchRefused => cases hx

/-- What is durable is what readers get. -/
theorem Does.of_get {keeps : Bool} {s s' : Store α} {m : Keyed α}
    (h : s.Does keeps .get (.ok m) s') (hs : s.durable ≠ .empty) : m = s.durable := by
  generalize hx : (Except.ok m : Except CacheError (Keyed α)) = x at h
  cases h with
  | durable => exact Except.ok.inj hx
  | unfinished hempty => exact absurd hempty hs
  | unavailable hempty => exact absurd hempty hs

/-- Calls one after another, answered by a store. -/
inductive Serves (keeps : Bool) : Store α → List (Exchange α) → Store α → Prop where
  | nil (s : Store α) : Serves keeps s [] s
  | cons {s s' s'' : Store α} {q : Call α} {x : Except CacheError q.Result} {h : List (Exchange α)} :
    Does keeps s q x s' → Serves keeps s' h s'' → Serves keeps s (⟨q, x⟩ :: h) s''

end Store

/-! ## What each operation does to the logs -/

namespace EntityCache

variable {c : EntityCache α} {o : WriteOrder α} {d : Disk} {ds ws es : List α} {batch : Keyed α}

omit [Entity α] in
theorem length_writeOrder (o : WriteOrder α) (m : Keyed α) : (o.list m).length = m.size := by
  rw [(o.perm m).length_eq, Keyed.values, List.length_map, Keyed.size]

/-- A batch is stored whatever bytes the snapshot has. -/
theorem run_storeBatchIn_bytes (hf : c.files.Siblings) {b : ByteArray}
    (h : c.files.SavesBytes d b) (hb : ∀ a ∈ o.list batch, Record.Accepted a) :
    ∃ e, (c.storeBatchIn o batch).run d = (.ok batch.size, e) ∧
      c.files.Holds e (o.list batch) [] := by
  obtain ⟨m, hwrite, hm⟩ := CacheFiles.run_writeWork_bytes hf h (CacheFiles.linesOf_allowed hb)
  obtain ⟨e, hpromote, he⟩ := CacheFiles.run_promoteWork_bytes hf hm
  refine ⟨e, ?_, CacheFiles.HoldsBytes.holds he⟩
  rw [storeBatchIn, Attempt.run_bind_ok hwrite, Attempt.run_bind_ok hpromote, Attempt.run_pure,
    length_writeOrder]

theorem run_storeBatchIn (hf : c.files.Siblings) (h : c.files.Saves d ds)
    (hb : ∀ a ∈ o.list batch, Record.Accepted a) :
    ∃ e, (c.storeBatchIn o batch).run d = (.ok batch.size, e) ∧
      c.files.Holds e (o.list batch) [] := run_storeBatchIn_bytes hf h.bytes hb

/-- A refused entity ends the writing, with those before it in the work file. -/
theorem run_storeBatchIn_refused_bytes (hf : c.files.Siblings) {b : ByteArray}
    (h : c.files.SavesBytes d b) {kept rest : List α} {a : α}
    (hsplit : o.list batch = kept ++ a :: rest) (hkept : ∀ b ∈ kept, Record.Accepted b)
    (ha : ¬Record.Accepted a) :
    ∃ e, (c.storeBatchIn o batch).run d = (.error (.codec (Record.refusal (Entity.key a))), e) ∧
      c.files.HoldsBytes e b (Record.logBytes kept) := by
  have hlines : CacheFiles.linesOf (o.list batch) =
      (kept.map Record.line, some (Record.refusal (Entity.key a))) := by
    rw [hsplit]
    exact CacheFiles.linesOf_refused hkept (Bool.eq_false_iff.mpr ha)
  obtain ⟨e, hwrite, he⟩ := CacheFiles.run_writeWork_bytes hf h hlines
  refine ⟨e, ?_, he⟩
  rw [storeBatchIn, Attempt.run_bind_error hwrite]

theorem run_storeBatchIn_refused (hf : c.files.Siblings) (h : c.files.Saves d ds)
    {kept rest : List α} {a : α} (hsplit : o.list batch = kept ++ a :: rest)
    (hkept : ∀ b ∈ kept, Record.Accepted b) (ha : ¬Record.Accepted a) :
    ∃ e, (c.storeBatchIn o batch).run d = (.error (.codec (Record.refusal (Entity.key a))), e) ∧
      c.files.Holds e ds kept := by
  obtain ⟨e, he, hbytes⟩ := run_storeBatchIn_refused_bytes hf h.bytes hsplit hkept ha
  exact ⟨e, he, hbytes.holds⟩

/-- What a batch is stored as when the snapshot is the log of `ds`. -/
def mergedWith (c : EntityCache α) (ds : List α) (batch : Keyed α) : Keyed α :=
  if c.policy.keepsPrevious then (Record.reread ds).overlay batch else batch

theorem run_withPrevious (hf : c.files.Siblings) (h : c.files.Saves d ds) :
    (c.withPrevious batch).run d = (.ok ((Record.reread ds).overlay batch), d) := by
  rw [withPrevious, Attempt.run_bind_ok (CacheFiles.run_readSnapshot hf h), Attempt.run_pure]

theorem run_storeAllIn (o : WriteOrder α) (es : List α) (hf : c.files.Siblings)
    (h : c.files.Saves d ds) :
    (c.storeAllIn o es).run d = (c.storeBatchIn o (c.mergedWith ds (batchOf es))).run d := by
  unfold storeAllIn mergedWith
  split
  · rw [Attempt.run_bind_ok (run_withPrevious hf h)]
  · rfl

/-- Where what is durable is not kept, the log of the population becomes the snapshot as it is. -/
theorem run_promoteWorkFileIn (hf : c.files.Siblings) (h : c.files.Holds d ds ws)
    (hb : ∀ a ∈ o.list (c.mergedWith ds (Record.reread ws)), Record.Accepted a) :
    ∃ e ds', (c.promoteWorkFileIn o).run d = (.ok (c.mergedWith ds (Record.reread ws)).size, e) ∧
      c.files.Holds e ds' [] ∧
      ds' = if c.policy.keepsPrevious then o.list (c.mergedWith ds (Record.reread ws)) else ws := by
  unfold mergedWith at hb ⊢
  rw [promoteWorkFileIn, Attempt.run_bind_ok (CacheFiles.run_readWork hf h)]
  cases hk : c.policy.keepsPrevious with
  | true =>
    simp only [hk, if_true] at hb ⊢
    rw [Attempt.run_bind_ok (run_withPrevious hf h.saves)]
    obtain ⟨e, he, hholds⟩ := run_storeBatchIn hf h.saves hb
    exact ⟨e, _, he, hholds, rfl⟩
  | false =>
    obtain ⟨e, he, hholds⟩ := CacheFiles.run_promoteWork hf h
    refine ⟨e, ws, ?_, hholds, rfl⟩
    simp only [Bool.false_eq_true, if_false]
    rw [Attempt.run_bind_ok he, Attempt.run_pure]

theorem run_readDurable (hf : c.files.Siblings) (h : c.files.Saves d ds) :
    ∃ r, c.readDurable.run d = (.ok r, d) ∧ r.data = Record.reread ds := by
  have hnow : (Attempt.always Disk.now : Attempt CacheError Instant).run d = (.ok d.clock, d) := rfl
  have hlook : (Attempt.always c.files.snapshotModified : Attempt CacheError _).run d =
      (.ok (c.files.snapshotModified.run d).1, d) := by
    rw [Attempt.run_always]
    exact Prod.ext rfl (perform_find d c.files.snapshot)
  refine ⟨⟨Record.reread ds, if c.isStale d.clock (c.files.snapshotModified.run d).1 then .stale
    else .durable, (c.files.snapshotModified.run d).1⟩, ?_, rfl⟩
  rw [readDurable, Attempt.run_bind_ok (CacheFiles.run_readSnapshot hf h)]
  show (Attempt.always Disk.now >>= _ : Attempt CacheError _).run d = _
  rw [Attempt.run_bind_ok hnow]
  show (Attempt.always c.files.snapshotModified >>= _ : Attempt CacheError _).run d = _
  rw [Attempt.run_bind_ok hlook]
  rfl

/-- Readers get a snapshot that has records, whatever the work file is. -/
theorem run_get_durable (hf : c.files.Siblings) (h : c.files.Saves d ds) (hds : ds ≠ [])
    (t : Trigger) : (c.get t).run d = ((.ok (Record.reread ds), t), d) := by
  obtain ⟨u, hu⟩ := h.snapshot
  have hdurable : c.files.snapshotHasContent.run d = (!ds.isEmpty, d) := CacheFiles.run_hasContent hu
  obtain ⟨r, hr, hdata⟩ := run_readDurable hf h
  have hr' : c.readDurable.outcome.run d = (.ok r, d) := hr
  rw [get, Routine.run_bind, snapshot, Routine.run_bind, hdurable]
  cases ds with
  | nil => exact absurd rfl hds
  | cons a ds =>
    simp only [List.isEmpty_cons, Bool.not_false, if_true, Routine.run_bind, hr', Routine.run_pure,
      Except.map, hdata]

/-- Readers get the snapshot, else what is there of a population, else nothing. -/
theorem run_get (hf : c.files.Siblings) (h : c.files.Holds d ds ws) (t : Trigger) :
    (c.get t).run d =
      ((if ds ≠ [] then (.ok (Record.reread ds), t)
        else if ws ≠ [] then (.ok (Record.reread ws), t)
        else (.error (.notYetAvailable (Entity.kind α)), t.request)), d) := by
  by_cases hds : ds = []
  · subst hds
    obtain ⟨u, hu⟩ := h.snapshot
    obtain ⟨v, hv⟩ := h.work
    have hdurable : c.files.snapshotHasContent.run d = (false, d) := CacheFiles.run_hasContent hu
    have hwork : c.files.workHasContent.run d = (!ws.isEmpty, d) := CacheFiles.run_hasContent hv
    have hread : (c.files.readWork α).outcome.run d = (.ok (Record.reread ws), d) :=
      CacheFiles.run_readWork hf h
    rw [get, Routine.run_bind, snapshot, Routine.run_bind, hdurable]
    simp only [Bool.false_eq_true, if_false, Routine.run_bind, hwork]
    cases ws with
    | cons a ws =>
      simp only [List.isEmpty_cons, Bool.not_false, if_true, Routine.run_bind, hread,
        Routine.run_pure, Except.map, ne_eq, not_true_eq_false, if_false, reduceCtorEq,
        not_false_eq_true]
    | nil => rfl
  · rw [run_get_durable hf h.saves hds, if_pos hds]

/-! ## A cache and its store -/

/-- The cache has what the store has: its files are logs of accepted entities that read back. -/
structure Stands (c : EntityCache α) (s : Store α) (d : Disk) (t : Trigger) : Prop where
  logs : ∃ ds, c.files.Holds d ds s.log ∧ batchOf ds = s.durable ∧
    ∀ a ∈ ds, Record.Accepted a ∧ Record.Readable a
  log : ∀ a ∈ s.log, Record.Accepted a ∧ Record.Readable a
  requests : t.requests = s.requests

variable {s : Store α} {t : Trigger} {keeps : Bool}

theorem reread_of_accepted (h : ∀ a ∈ es, Record.Accepted a ∧ Record.Readable a) :
    Record.reread es = batchOf es :=
  Record.reread_of_readable fun a ha => (h a ha).2

theorem mergedWith_eq (h : ∀ a ∈ ds, Record.Accepted a ∧ Record.Readable a)
    (hds : batchOf ds = s.durable) (batch : Keyed α) :
    c.mergedWith ds batch = s.merged c.policy.keepsPrevious batch := by
  rw [mergedWith, Store.merged, reread_of_accepted h, hds]

theorem byKey_merged (hds : batchOf ds = s.durable) (keeps : Bool) (es : List α) :
    (s.merged keeps (batchOf es)).ByKey := by
  unfold Store.merged
  split
  · rw [← hds]
    exact Keyed.ByKey.overlay (byKey_batchOf ds) (byKey_batchOf es)
  · exact byKey_batchOf es

/-- What is stored was durable or is in the batch. -/
theorem mem_merged (hds : batchOf ds = s.durable) {a : α}
    (h : a ∈ (s.merged keeps (batchOf es)).values) : a ∈ ds ∨ a ∈ es := by
  unfold Store.merged at h
  split at h
  · rw [← hds] at h
    exact (Keyed.mem_values_overlay h).imp mem_of_mem_batchOf mem_of_mem_batchOf
  · exact .inr (mem_of_mem_batchOf h)

/-- An entity of the batch, or a later one with its key, is stored. -/
theorem exists_mem_merged (s : Store α) (keeps : Bool) {a : α} (ha : a ∈ es) :
    ∃ b ∈ (s.merged keeps (batchOf es)).values, Entity.key b = Entity.key a := by
  obtain ⟨b, hb⟩ : ∃ b, (batchOf es).get? (Entity.key a) = some b := by
    rw [← Option.isSome_iff_exists, get?_batchOf, List.getLast?_isSome, ne_eq,
      List.filter_eq_nil_iff]
    exact fun h => absurd (decide_eq_true rfl) (h a ha)
  refine ⟨b, Keyed.mem_values.mpr ⟨Entity.key a, ?_⟩, (mem_of_get?_batchOf hb).2⟩
  unfold Store.merged
  split
  · rw [Keyed.get?_overlay, hb]
    rfl
  · exact hb

theorem nodup_writeOrder (o : WriteOrder α) {m : Keyed α} (hm : m.ByKey) : (o.list m).Nodup :=
  (o.perm m).nodup_iff.mpr (List.Pairwise.of_map Entity.key (fun _ _ h he => h (congrArg _ he)) hm.nodup)

/-- What comes before the first entity that is not accepted. -/
theorem split_refused (h : ∃ a ∈ es, ¬Record.Accepted a) :
    ∃ kept a rest, es = kept ++ a :: rest ∧ (∀ b ∈ kept, Record.Accepted b) ∧
      ¬Record.Accepted a := by
  induction es with
  | nil =>
    obtain ⟨a, ha, -⟩ := h
    cases ha
  | cons b es ih =>
    by_cases hb : Record.Accepted b
    · obtain ⟨a, ha, hbad⟩ := h
      have hmem : a ∈ es := (List.mem_cons.mp ha).resolve_left fun hab => hbad (hab ▸ hb)
      obtain ⟨kept, x, rest, rfl, hkept, hx⟩ := ih ⟨a, hmem, hbad⟩
      exact ⟨b :: kept, x, rest, rfl, List.forall_mem_cons.mpr ⟨hb, hkept⟩, hx⟩
    · exact ⟨[], b, es, rfl, (fun _ h => nomatch h), hb⟩

/-! ## One call -/

/-- After a call the cache stands for a store that may have answered it as the cache did. -/
def Follows (o : WriteOrder α) (c : EntityCache α) (s : Store α) (d : Disk) (t : Trigger)
    (q : Call α) : Prop :=
  ∃ x u e s', (q.routine o c t).run d = ((x, u), e) ∧ s.Does c.policy.keepsPrevious q x s' ∧
    c.Stands s' e u

/-- A batch is stored as the store merges it. -/
theorem run_storeAll (hf : c.files.Siblings) (h : c.files.Holds d ds s.log)
    (hds : batchOf ds = s.durable) (hgood : ∀ a ∈ ds, Record.Accepted a ∧ Record.Readable a)
    {o : WriteOrder α} (t : Trigger) {x : Except CacheError Nat} {e : Disk}
    (hx : (c.storeBatchIn o (s.merged c.policy.keepsPrevious (batchOf es))).run d = (x, e)) :
    ((Call.storeAll es).routine o c t).run d = ((x, t), e) := by
  have hall : (c.storeAllIn o es).outcome.run d = (x, e) := by
    rw [← hx, ← mergedWith_eq hgood hds (batchOf es)]
    exact run_storeAllIn o es hf h.saves
  rw [Call.routine, Routine.run_bind, hall]
  rfl

/-- A batch of accepted entities is written whole and promoted. -/
theorem follows_storeAll_of_accepted (hf : c.files.Siblings) (h : c.Stands s d t)
    (o : WriteOrder α) (hes : ∀ a ∈ es, Record.Accepted a ∧ Record.Readable a) :
    Follows o c s d t (.storeAll es) := by
  obtain ⟨⟨ds, hholds, hds, hgood⟩, -, hrequests⟩ := h
  have hperm := o.perm (s.merged c.policy.keepsPrevious (batchOf es))
  have hmem : ∀ a ∈ o.list (s.merged c.policy.keepsPrevious (batchOf es)),
      Record.Accepted a ∧ Record.Readable a := by
    intro a ha
    rcases mem_merged hds (hperm.mem_iff.mp ha) with ha | ha
    · exact hgood a ha
    · exact hes a ha
  obtain ⟨e, he, hholds'⟩ := run_storeBatchIn hf hholds.saves fun a ha => (hmem a ha).1
  exact ⟨_, t, e, _, run_storeAll hf hholds hds hgood t he, .stored fun a ha => (hes a ha).1,
    ⟨_, hholds', batchOf_of_perm (byKey_merged hds c.policy.keepsPrevious es) hperm, hmem⟩,
    (fun _ h => nomatch h), hrequests⟩

/-- A batch with an entity that is not accepted is written up to the first such, and left there. -/
theorem follows_storeAll_of_refused (hf : c.files.Siblings) (h : c.Stands s d t)
    (o : WriteOrder α) (hes : ∀ a ∈ es, Record.Accepted a → Record.Readable a) {a : α} (ha : a ∈ es)
    (hbad : ¬Record.Accepted a) : Follows o c s d t (.storeAll es) := by
  obtain ⟨⟨ds, hholds, hds, hgood⟩, -, hrequests⟩ := h
  have hperm := o.perm (s.merged c.policy.keepsPrevious (batchOf es))
  -- A later entity of that key may be stored in its place, and is no more accepted.
  obtain ⟨b, hb, hab⟩ := exists_mem_merged s c.policy.keepsPrevious ha
  obtain ⟨kept, x, rest, hsplit, hkept, hx⟩ :=
    split_refused ⟨b, hperm.mem_iff.mpr hb, show ¬Record.Accepted b by rwa [Record.Accepted, hab]⟩
  obtain ⟨e, he, hholds'⟩ := run_storeBatchIn_refused hf hholds.saves hsplit hkept hx
  have hmem : ∀ y ∈ kept, y ∈ (s.merged c.policy.keepsPrevious (batchOf es)).values := by
    intro y hy
    rw [← hperm.mem_iff, hsplit]
    exact List.mem_append_left _ hy
  have hxes : x ∈ es := by
    have hx' : x ∈ o.list (s.merged c.policy.keepsPrevious (batchOf es)) := by simp [hsplit]
    exact (mem_merged hds (hperm.mem_iff.mp hx')).resolve_left fun h => hx (hgood x h).1
  have hnodup := nodup_writeOrder o (byKey_merged hds c.policy.keepsPrevious es)
  rw [hsplit] at hnodup
  refine ⟨_, t, e, _, run_storeAll hf hholds hds hgood t he,
    .batchRefused hxes hx (List.nodup_append.mp hnodup).1 hmem, ⟨ds, hholds', hds, hgood⟩, ?_,
    hrequests⟩
  intro y hy
  refine ⟨hkept y hy, ?_⟩
  rcases mem_merged hds (hmem y hy) with hy' | hy'
  · exact (hgood y hy').2
  · exact hes y hy' (hkept y hy)

theorem follows_storeAll (hf : c.files.Siblings) (h : c.Stands s d t) (o : WriteOrder α)
    (hes : ∀ a ∈ es, Record.Accepted a → Record.Readable a) :
    Follows o c s d t (.storeAll es) := by
  by_cases hacc : ∀ a ∈ es, Record.Accepted a
  · exact follows_storeAll_of_accepted hf h o fun a ha => ⟨hacc a ha, hes a ha (hacc a ha)⟩
  · obtain ⟨a, ha, hbad⟩ : ∃ a ∈ es, ¬Record.Accepted a := by simpa using hacc
    exact follows_storeAll_of_refused hf h o hes ha hbad

theorem follows_storeOne (hf : c.files.Siblings) (h : c.Stands s d t) (o : WriteOrder α) {a : α}
    (ha : Record.Accepted a → Record.Readable a) : Follows o c s d t (.storeOne a) := by
  obtain ⟨⟨ds, hholds, hds, hgood⟩, hlog, hrequests⟩ := h
  have hrun : ∀ {x e}, (c.files.appendWork a).run d = (x, e) →
      ((Call.storeOne a).routine o c t).run d = ((x, t), e) := by
    intro x e hx
    have hx' : (c.storeOne a).outcome.run d = (x, e) := hx
    rw [Call.routine, Routine.run_bind, hx']
    rfl
  by_cases hacc : Record.Accepted a
  · obtain ⟨e, he, hholds'⟩ := CacheFiles.run_appendWork hf hholds hacc
    refine ⟨_, t, e, _, hrun he, .added hacc, ⟨ds, hholds', hds, hgood⟩, ?_, hrequests⟩
    intro b hb
    rcases List.mem_append.mp hb with hb | hb
    · exact hlog b hb
    · rw [List.mem_singleton.mp hb]
      exact ⟨hacc, ha hacc⟩
  · have he := CacheFiles.run_appendWork_error (f := c.files) (Bool.eq_false_iff.mpr hacc) d
    exact ⟨_, t, d, s, hrun he, .refused hacc, ⟨ds, hholds, hds, hgood⟩, hlog, hrequests⟩

theorem follows_beginStreaming (hf : c.files.Siblings) (h : c.Stands s d t) (o : WriteOrder α) :
    Follows o c s d t .beginStreaming := by
  obtain ⟨⟨ds, hholds, hds, hgood⟩, hlog, hrequests⟩ := h
  obtain ⟨e, he, hholds'⟩ := CacheFiles.run_clearWork hf hholds.saves
  have he' : c.beginStreaming.outcome.run d = (.ok (), e) := he
  refine ⟨.ok (), t, e, _, ?_, .begun, ⟨ds, hholds', hds, hgood⟩, (fun _ h => nomatch h), hrequests⟩
  rw [Call.routine, Routine.run_bind, he']
  rfl

theorem follows_promoteWorkFile (hf : c.files.Siblings) (h : c.Stands s d t) (o : WriteOrder α) :
    Follows o c s d t .promoteWorkFile := by
  obtain ⟨⟨ds, hholds, hds, hgood⟩, hlog, hrequests⟩ := h
  have hmerged : c.mergedWith ds (Record.reread s.log) =
      s.merged c.policy.keepsPrevious (batchOf s.log) := by
    rw [mergedWith_eq hgood hds, reread_of_accepted hlog]
  have hkey := byKey_merged hds c.policy.keepsPrevious s.log
  have hperm := o.perm (s.merged c.policy.keepsPrevious (batchOf s.log))
  have hmem : ∀ a ∈ o.list (s.merged c.policy.keepsPrevious (batchOf s.log)),
      Record.Accepted a ∧ Record.Readable a := fun a ha =>
    (mem_merged hds (hperm.mem_iff.mp ha)).elim (hgood a) (hlog a)
  obtain ⟨e, ds', he, hholds', hds'⟩ := run_promoteWorkFileIn hf hholds (o := o) (by
    rw [hmerged]
    exact fun a ha => (hmem a ha).1)
  rw [hmerged] at he hds'
  have he' : (c.promoteWorkFileIn o).outcome.run d = _ := he
  refine ⟨_, t, e, _, ?_, .promoted, ⟨ds', hholds', ?_, ?_⟩, (fun _ h => nomatch h), hrequests⟩
  · rw [Call.routine, Routine.run_bind, he']
    rfl
  · -- What keeps the previous is written anew in some order, else the log itself is promoted.
    rw [hds']
    split
    · exact batchOf_of_perm hkey hperm
    · next hk => rw [Store.merged, if_neg hk]
  · rw [hds']
    split
    · exact hmem
    · exact hlog

theorem follows_get (hf : c.files.Siblings) (h : c.Stands s d t) (o : WriteOrder α) :
    Follows o c s d t .get := by
  obtain ⟨⟨ds, hholds, hds, hgood⟩, hlog, hrequests⟩ := h
  have hget : ((Call.get (α := α)).routine o c t).run d = _ := run_get hf hholds t
  rw [reread_of_accepted hgood, reread_of_accepted hlog, hds] at hget
  have hempty : s.durable = .empty ↔ ds = [] := hds ▸ batchOf_eq_empty
  by_cases hds0 : ds = []
  · rw [if_neg (not_not_intro hds0)] at hget
    by_cases hws : s.log = []
    · rw [if_neg (not_not_intro hws)] at hget
      refine ⟨_, _, d, _, hget, .unavailable (hempty.mpr hds0) hws, ⟨ds, hholds, hds, hgood⟩, hlog, ?_⟩
      show t.request.requests = s.requests + 1
      rw [← hrequests]
      unfold Trigger.request
      split <;> rfl
    · rw [if_pos hws] at hget
      exact ⟨_, _, d, s, hget, .unfinished (hempty.mpr hds0) hws, ⟨ds, hholds, hds, hgood⟩, hlog,
        hrequests⟩
  · rw [if_pos hds0] at hget
    exact ⟨_, _, d, s, hget, .durable fun h => hds0 (hempty.mp h), ⟨ds, hholds, hds, hgood⟩, hlog,
      hrequests⟩

theorem Stands.follows (hf : c.files.Siblings) (h : c.Stands s d t) (o : WriteOrder α) (q : Call α)
    (hq : ∀ a ∈ q.entities, Record.Accepted a → Record.Readable a) : Follows o c s d t q := by
  cases q with
  | storeAll es => exact follows_storeAll hf h o hq
  | storeOne a => exact follows_storeOne hf h o (hq a List.mem_cons_self)
  | beginStreaming => exact follows_beginStreaming hf h o
  | promoteWorkFile => exact follows_promoteWorkFile hf h o
  | get => exact follows_get hf h o

/-! ## Runs of calls -/

theorem Stands.untouched {e : Disk} {u : Trigger} (h : c.Stands s d t)
    (hd : c.files.Untouched d e) (ht : u.requests = t.requests) : c.Stands s e u :=
  have ⟨ds, hholds, hgood⟩ := h.logs
  ⟨⟨ds, hd.holds hholds, hgood⟩, h.log, ht.trans h.requests⟩

/-- The store follows the cache through any calls with entities that read back if accepted. -/
theorem Serves.follows (hf : c.files.Siblings) {e : Disk} {u : Trigger} {h : List (Exchange α)}
    (hr : c.Serves d t h e u) {s : Store α} (hs : c.Stands s d t)
    (hgood : ∀ x ∈ h, ∀ a ∈ x.1.entities, Record.Accepted a → Record.Readable a) :
    ∃ s', Store.Serves c.policy.keepsPrevious s h s' ∧ c.Stands s' e u := by
  induction hr generalizing s with
  | nil d t => exact ⟨s, .nil s, hs⟩
  | @cons d m n e t u v w q o x h hsame htrigger hrun hrest ih =>
    obtain ⟨y, v', n', s', hrun', hdoes, hstands⟩ := (hs.untouched hsame htrigger).follows hf o q
      (hgood _ List.mem_cons_self)
    rw [hrun] at hrun'
    cases hrun'
    obtain ⟨s'', hserves, hend⟩ := ih hstands fun z hz => hgood z (List.mem_cons_of_mem _ hz)
    exact ⟨s'', .cons hdoes hserves, hend⟩

/-- A batch of one accepted entity is stored, and its record is what readers then get. -/
theorem serves_single (hf : c.files.Siblings) (h : c.files.Holds d ([] : List α) []) (t : Trigger)
    {a : α} (ha : Record.Accepted a) :
    ∃ e, c.Serves d t [⟨.storeAll [a], .ok 1⟩, ⟨.get, .ok (Record.reread [a])⟩] e t := by
  have hmerged : c.mergedWith [] (batchOf [a]) = batchOf [a] := by
    unfold mergedWith
    split
    · exact Keyed.overlay_empty_left _
    · rfl
  have hall : ∀ b ∈ WriteOrder.ascending.list (batchOf [a]), Record.Accepted b := by
    intro b hb
    rw [List.mem_singleton.mp (mem_of_mem_batchOf hb)]
    exact ha
  obtain ⟨e, he, hholds⟩ := run_storeBatchIn hf h.saves hall
  have hstore : (c.storeAllIn .ascending [a]).outcome.run d = (.ok 1, e) := by
    have hrun := run_storeAllIn .ascending [a] hf h.saves
    rw [hmerged] at hrun
    exact hrun.trans he
  have hget : (c.get t).run e = ((.ok (Record.reread [a]), t), e) := run_get hf hholds t
  refine ⟨e, .cons (o := .ascending) ⟨rfl, rfl⟩ rfl (v := t) (n := e) ?_ <|
    .cons (o := .ascending) ⟨rfl, rfl⟩ rfl hget (.nil e t)⟩
  rw [Call.routine, Routine.run_bind, hstore]
  rfl

/-- After such a batch a store answers with the entity. -/
theorem readable_of_serves {r : Nat} {a : α} {s' : Store α}
    (h : Store.Serves keeps ⟨.empty, [], r⟩
      [⟨.storeAll [a], .ok 1⟩, ⟨.get, .ok (Record.reread [a])⟩] s') : Record.Readable a := by
  have hmerged : (⟨.empty, [], r⟩ : Store α).merged keeps (batchOf [a]) = batchOf [a] := by
    unfold Store.merged
    split
    · exact Keyed.overlay_empty_left _
    · rfl
  obtain _ | ⟨hstore, hrest⟩ := h
  obtain _ | ⟨hget, -⟩ := hrest
  have hdurable := hstore.durable_of_storeAll
  rw [hmerged] at hdurable
  have hne : batchOf [a] ≠ .empty := fun hempty => nomatch batchOf_eq_empty.mp hempty
  rw [Record.Readable, ← hdurable]
  exact hget.of_get (hdurable ▸ hne)

/-- A cache opened in a directory without its files answers every run of calls as a store would,
exactly when each accepted entity that is brought to it reads back from its record. That is so for
entities whose numbers read back. -/
theorem refines_store_iff [PlainKind α] [LawfulEntity α] (brought : α → Prop) {dir : Path}
    {policy : CachePolicy} {d : Disk} {l : Place} (t : Trigger) (henter : d.enter dir = .ok l)
    (hsnapshot : d.view (inDirectory α dir policy).files.snapshot = .error .notFound)
    (hwork : d.view (inDirectory α dir policy).files.work = .error .notFound) :
    (∃ e, (openIn α dir policy).run d = (.ok (inDirectory α dir policy), e) ∧
      ((∀ h e' t', (inDirectory α dir policy).Serves e t h e' t' →
          (∀ x ∈ h, ∀ a ∈ x.1.entities, brought a) →
            ∃ s, Store.Serves policy.keepsPrevious ⟨.empty, [], t.requests⟩ h s ∧
              s.requests = t'.requests) ↔
        ∀ a, brought a → Record.Accepted a → Record.Readable a)) ∧
      ∀ a : α, LawfulEntity.ReadsBack a → Record.Accepted a → Record.Readable a := by
  have hf := siblings_inDirectory α dir policy
  obtain ⟨e, hopen, hholds⟩ := run_openIn (α := α) henter hsnapshot hwork
  refine ⟨⟨e, hopen, fun hall a hbrought ha => ?_, fun hgood h e' t' hr hbrings => ?_⟩,
    fun a hback ha => Record.readable_of_readsBack ha hback⟩
  · obtain ⟨e', hr⟩ := serves_single hf hholds t ha
    obtain ⟨s, hs, -⟩ := hall _ _ _ hr (by simpa [Call.entities] using hbrought)
    exact readable_of_serves hs
  · have hstands : (inDirectory α dir policy).Stands ⟨.empty, [], t.requests⟩ e t :=
      ⟨⟨[], hholds, rfl, fun _ h => nomatch h⟩, (fun _ h => nomatch h), rfl⟩
    obtain ⟨s, hs, hend⟩ := hr.follows hf hstands fun x hx a ha => hgood a (hbrings x hx a ha)
    exact ⟨s, hs, hend.requests.symm⟩

/-- Caches of units are stores, whatever is brought to them. -/
theorem refines_store_units :
    ∃ e, (openIn UnitMapping ⟨""⟩ {}).run (.empty ⟨5⟩) = (.ok (inDirectory UnitMapping ⟨""⟩ {}), e) ∧
      ∀ h e' t', (inDirectory UnitMapping ⟨""⟩ {}).Serves e .new h e' t' →
        ∃ s, Store.Serves false ⟨.empty, [], 0⟩ h s ∧ s.requests = t'.requests := by
  obtain ⟨hs, ht, -⟩ := CacheFiles.names_ofKind (PlainKind.no_slash (α := UnitMapping))
  obtain ⟨⟨e, hopen, hiff⟩, hread⟩ := refines_store_iff (α := UnitMapping) (fun _ => True)
    (l := []) .new rfl (view_join hs (.empty ⟨5⟩) ⟨""⟩) (view_join ht (.empty ⟨5⟩) ⟨""⟩)
  refine ⟨e, hopen, fun h e' t' hr => ?_⟩
  exact hiff.mpr (fun a _ ha => hread a trivial ha) h e' t' hr fun _ _ _ _ => trivial

/-- An offering whose coordinates come back as their neighbours: what the cache answers is not the
offering that was stored. -/
theorem get_of_drifting_offering :
    ∃ o a : Offering, Record.Accepted o ∧ a ≠ o ∧
      ((do
        let _ ← ((inDirectory Offering ⟨""⟩ {}).storeAll [o]).outcome
        (inDirectory Offering ⟨""⟩ {}).get .new).run (.empty ⟨5⟩)).1.1.toOption.bind
          (·.get? o.identifier) = some a := by
  let x : Double := ⟨false, 8521123904911463, 83, by decide, by decide, by decide, .inl (by decide)⟩
  let y : Double := ⟨false, 8521123904911464, 83, by decide, by decide, by decide, .inl (by decide)⟩
  refine ⟨⟨"o", none, [], .empty, [], none, some ⟨4326, ⟨x, x⟩, ⟨x, x⟩, by decide⟩⟩,
    ⟨"o", none, [], .empty, [], none, some ⟨4326, ⟨y, y⟩, ⟨y, y⟩, by decide⟩⟩, ?_⟩
  decide +kernel

end EntityCache

end SensorCache
