import SensorCache.Proofs.Cache.Durability
import SensorCache.Proofs.Refresh.FailedUpdate
import SensorCache.Proofs.Refresh.Prompt
import SensorCache.Proofs.Source.Deliveries

/-!
# Two ways to update

A source that fetches everything can be asked for it at once, or to deliver it one by one. The first
way makes one batch and stores it. The second goes through the work file, and where it keeps what
was there before it reads there what it has written and writes that again. So both fail on the same
entities, and end alike on all others exactly when each is read back as one that, if it is written
again, is read back as itself (`Settles`).
-/

namespace SensorCache

open Disk Time

variable {α σ : Type} [Entity α] {d e m n : Disk} {s : Scene σ} {ds ws es : List α}
  {o : WriteOrder α}

/-! ## What is read back -/

namespace Record

/-- The record of the entity is read as an entity, and if that is written again it reads back. -/
def Settles (again : Bool) (a : α) : Prop :=
  ∃ b, readBack? a = some b ∧ (again = true → readBack? b = some b)

variable {again : Bool} {a b : α}

theorem Settles.isSome (h : Settles again a) : (readBack? a).isSome = true := by
  obtain ⟨b, hb, -⟩ := h
  rw [hb]
  rfl

theorem settles_of_readsBack [LawfulEntity α] (h : LawfulEntity.ReadsBack a) (again : Bool) :
    Settles again a :=
  ⟨a, readBack?_of_readsBack h, fun _ => readBack?_of_readsBack h⟩

variable [KeyedEntity α]

theorem exists_of_mem_reread (h : ∀ a ∈ es, Accepted a) (hb : b ∈ (reread es).values) :
    ∃ a ∈ es, readBack? a = some b := by
  rw [reread_eq h] at hb
  exact List.mem_filterMap.mp (EntityCache.mem_of_mem_batchOf hb)

theorem accepted_reread (h : ∀ a ∈ es, Accepted a) (hb : b ∈ (reread es).values) : Accepted b := by
  obtain ⟨a, ha, hab⟩ := exists_of_mem_reread h hb
  rw [Accepted, key_of_readBack? hab]
  exact h a ha

theorem byKey_reread (h : ∀ a ∈ es, Accepted a) : (reread es).ByKey := by
  rw [reread_eq h]
  exact EntityCache.byKey_batchOf _

theorem rereads_settles : EntityCache.Rereads (Settles (α := α) true) := by
  intro es h b hb
  obtain ⟨a, ha, hab⟩ := exists_of_mem_reread (fun a ha => (h a ha).1) hb
  obtain ⟨c, hc, hback⟩ := (h a ha).2
  obtain rfl : b = c := Option.some.inj (hab.symm.trans hc)
  exact ⟨b, hback rfl, hback⟩

/-- A map that is written, in whatever order, is read as what each of its entities is read as. -/
theorem get?_reread_list {m : Keyed α} (hm : m.ByKey)
    (h : ∀ a ∈ m.values, Accepted a ∧ (readBack? a).isSome = true) (o : WriteOrder α) (k : String) :
    (reread (o.list m)).get? k = (m.get? k).bind readBack? := by
  rw [get?_reread fun a ha => h a ((o.perm m).mem_iff.mp ha), EntityCache.batchOf_of_perm hm (o.perm m)]

end Record

/-! ## What either way writes -/

namespace EntityCache

variable {c : EntityCache α} {batch : Keyed α}

theorem forall_mergedWith {P : α → Prop} (hds : ∀ a ∈ (Record.reread ds).values, P a)
    (hbatch : ∀ a ∈ batch.values, P a) : ∀ a ∈ (c.mergedWith ds batch).values, P a := by
  unfold mergedWith
  split
  · exact fun a ha => (Keyed.mem_values_overlay ha).elim (hds a) (hbatch a)
  · exact hbatch

theorem byKey_mergedWith (hds : (Record.reread ds).ByKey) (hbatch : batch.ByKey) :
    (c.mergedWith ds batch).ByKey := by
  unfold mergedWith
  split
  · exact hds.overlay hbatch
  · exact hbatch

theorem get?_mergedWith (k : String) : (c.mergedWith ds batch).get? k =
    (batch.get? k).or (if c.policy.keepsPrevious then (Record.reread ds).get? k else none) := by
  unfold mergedWith
  split
  · exact Keyed.get?_overlay _ _ _
  · exact (Option.or_none).symm

/-- The log that a population of entities one by one is promoted as. -/
def streamedLog (o : WriteOrder α) (c : EntityCache α) (ds es : List α) : List α :=
  if c.policy.keepsPrevious then o.list (c.mergedWith ds (Record.reread es)) else es

omit [Entity α] in
/-- The order of writing drops nothing. -/
theorem list_eq_nil (o : WriteOrder α) (m : Keyed α) : o.list m = [] ↔ m.values = [] := by
  rw [← List.length_eq_zero_iff, ← List.length_eq_zero_iff, (o.perm m).length_eq]

/-- Readers cannot tell the two logs apart. -/
structure Alike (xs ys : List α) : Prop where
  empty : xs = [] ↔ ys = []
  reread : Record.reread xs = Record.reread ys

variable [KeyedEntity α]

/-- Maps whose entities are read as the same under each key. -/
theorem alike_lists {xs ys : Keyed α} (hxs : xs.ByKey) (hys : ys.ByKey)
    (hx : ∀ a ∈ xs.values, Record.Accepted a ∧ (Record.readBack? a).isSome = true)
    (hy : ∀ a ∈ ys.values, Record.Accepted a ∧ (Record.readBack? a).isSome = true)
    (h : ∀ k, (xs.get? k).bind Record.readBack? = (ys.get? k).bind Record.readBack?)
    (o o' : WriteOrder α) : Alike (o.list xs) (o'.list ys) := by
  have hsome : ∀ {zs : Keyed α}, (∀ a ∈ zs.values, Record.Accepted a ∧
      (Record.readBack? a).isSome = true) →
      ∀ k, (zs.get? k).isSome = ((zs.get? k).bind Record.readBack?).isSome := by
    intro zs hz k
    cases hk : zs.get? k with
    | none => rfl
    | some a => exact (hz a (Keyed.mem_values.mpr ⟨k, hk⟩)).2.symm
  have hsize : xs.size = ys.size := Keyed.size_eq fun k => by rw [hsome hx, hsome hy, h]
  refine ⟨?_, Keyed.ext_get? fun k => ?_⟩
  · rw [list_eq_nil, list_eq_nil, Keyed.values_eq_nil, Keyed.values_eq_nil, hsize]
  · rw [Record.get?_reread_list hxs hx, Record.get?_reread_list hys hy, h]

section Logs

variable (hes : ∀ a ∈ es, Record.Accepted a)
  (hnew : ∀ a ∈ es, Record.Settles c.policy.keepsPrevious a)
include hes hnew

theorem get?_reread_of_settles (k : String) :
    (Record.reread es).get? k = ((batchOf es).get? k).bind Record.readBack? :=
  Record.get?_reread (fun a ha => ⟨hes a ha, (hnew a ha).isSome⟩) k

/-- Both ways store entities under the same keys. -/
theorem size_mergedWith :
    (c.mergedWith ds (batchOf es)).size = (c.mergedWith ds (Record.reread es)).size := by
  have hsome : ∀ k, ((batchOf es).get? k).isSome = ((Record.reread es).get? k).isSome := by
    intro k
    rw [get?_reread_of_settles hes hnew]
    cases hk : (batchOf es).get? k with
    | none => rfl
    | some a => exact (hnew a (mem_of_get?_batchOf hk).1).isSome.symm
  exact Keyed.size_eq fun k => by
    rw [get?_mergedWith, get?_mergedWith, Option.isSome_or, Option.isSome_or, hsome]

/-- A batch that replaces everything is as good as the log of its entities. -/
theorem alike_batchOf (o : WriteOrder α) : Alike (o.list (batchOf es)) es where
  empty := by rw [list_eq_nil, Keyed.values_eq_nil, Keyed.size_eq_zero, batchOf_eq_empty]
  reread := Keyed.ext_get? fun k => by
    have hgood : ∀ a ∈ (batchOf es).values,
        Record.Accepted a ∧ (Record.readBack? a).isSome = true := fun a ha =>
      ⟨hes a (mem_of_mem_batchOf ha), (hnew a (mem_of_mem_batchOf ha)).isSome⟩
    rw [Record.get?_reread_list (byKey_batchOf es) hgood, get?_reread_of_settles hes hnew]

/-- What was read back once is as good as what was written, if the snapshot's entities are. -/
theorem alike_merged (hk : c.policy.keepsPrevious = true)
    (hds : ∀ a ∈ ds, Record.Accepted a ∧ Record.Settles true a) (o o' : WriteOrder α) :
    Alike (o.list (c.mergedWith ds (batchOf es))) (o'.list (c.mergedWith ds (Record.reread es))) := by
  rw [hk] at hnew
  have hgood : ∀ {zs : Keyed α}, (∀ a ∈ zs.values, Record.Accepted a ∧ Record.Settles true a) →
      ∀ a ∈ (c.mergedWith ds zs).values,
        Record.Accepted a ∧ (Record.readBack? a).isSome = true := by
    intro zs hz
    refine forall_mergedWith (fun a ha => ?_) fun a ha => ⟨(hz a ha).1, (hz a ha).2.isSome⟩
    exact ⟨Record.accepted_reread (fun b hb => (hds b hb).1) ha,
      (Record.rereads_settles ds hds a ha).isSome⟩
  have hold := Record.byKey_reread fun a ha => (hds a ha).1
  have hboth : ∀ a ∈ es, Record.Accepted a ∧ Record.Settles true a := fun a ha =>
    ⟨hes a ha, hnew a ha⟩
  refine alike_lists (byKey_mergedWith hold (byKey_batchOf es))
    (byKey_mergedWith hold (Record.byKey_reread hes))
    (hgood fun a ha => hboth a (mem_of_mem_batchOf ha))
    (hgood fun a ha => ⟨Record.accepted_reread hes ha, Record.rereads_settles es hboth a ha⟩)
    (fun k => ?_) o o'
  rw [get?_mergedWith, get?_mergedWith, get?_reread_of_settles hes (hk ▸ hnew)]
  cases ha : (batchOf es).get? k with
  | none => rfl
  | some a =>
    obtain ⟨b, hb, hback⟩ := hnew a (mem_of_get?_batchOf ha).1
    simp [hb, hback rfl]

theorem alike_streamedLog
    (hds : c.policy.keepsPrevious = true → ∀ a ∈ ds, Record.Accepted a ∧ Record.Settles true a)
    (o o' : WriteOrder α) :
    Alike (o.list (c.mergedWith ds (batchOf es))) (streamedLog o' c ds es) := by
  unfold streamedLog
  split
  · next hk => exact alike_merged hes hnew hk (hds hk) o o'
  · next hk =>
    rw [mergedWith, if_neg hk]
    exact alike_batchOf hes hnew o

end Logs

/-! ## Storing at once, and one by one -/

section Disks

variable (hf : c.files.Siblings)
include hf

theorem holds_storeAllIn (h : c.files.Saves d ds) (hds : ∀ a ∈ ds, Record.Accepted a)
    (hes : ∀ a ∈ es, Record.Accepted a) :
    ∃ e, (c.storeAllIn o es).run d = (.ok (c.mergedWith ds (batchOf es)).size, e) ∧
      c.files.Holds e (o.list (c.mergedWith ds (batchOf es))) [] := by
  have haccepted : ∀ a ∈ (c.mergedWith ds (batchOf es)).values, Record.Accepted a :=
    forall_mergedWith (fun a => Record.accepted_reread hds) fun a ha => hes a (mem_of_mem_batchOf ha)
  obtain ⟨e, he, hholds⟩ := run_storeBatchIn hf h fun a ha => haccepted a ((o.perm _).mem_iff.mp ha)
  exact ⟨e, (run_storeAllIn o es hf h).trans he, hholds⟩

omit [KeyedEntity α] in
/-- An entity that is refused fails the batch. -/
theorem spares_storeAllIn (h : c.files.Saves d ds) (hes : ∃ a ∈ es, ¬Record.Accepted a) :
    ∃ y e, (c.storeAllIn o es).run d = (.error y, e) ∧ Spares c.files.snapshot d e := by
  obtain ⟨a, ha, hbad⟩ := hes
  -- A later entity of that key may be written in its place, and is no more accepted.
  obtain ⟨b, hb, hab⟩ : ∃ b ∈ (c.mergedWith ds (batchOf es)).values, Entity.key b = Entity.key a :=
    exists_mem_merged ⟨Record.reread ds, [], 0⟩ c.policy.keepsPrevious ha
  obtain ⟨kept, x, rest, hsplit, hkept, hx⟩ := split_refused
    ⟨b, (o.perm _).mem_iff.mpr hb, show ¬Record.Accepted b by rwa [Record.Accepted, hab]⟩
  have hlines : CacheFiles.linesOf (kept ++ x :: rest) = _ :=
    CacheFiles.linesOf_refused hkept (Bool.eq_false_iff.mpr hx)
  rw [← hsplit] at hlines
  obtain ⟨e, hwrite, -⟩ := CacheFiles.run_writeWork_bytes hf h.bytes hlines
  refine ⟨_, e, (run_storeAllIn o es hf h).trans (Attempt.run_bind_error hwrite), ?_⟩
  -- Only the work file was written to.
  have hspares := (hf.workKeeps.writeWork (o.list (c.mergedWith ds (batchOf es)))).run .refl .trans d
  rwa [show (c.files.writeWork _).outcome.run d = _ from hwrite] at hspares

theorem holds_promoteWorkFileIn (h : c.files.Holds d ds es)
    (hds : ∀ a ∈ ds, Record.Accepted a) (hes : ∀ a ∈ es, Record.Accepted a) :
    ∃ e, (c.promoteWorkFileIn o).run d = (.ok (c.mergedWith ds (Record.reread es)).size, e) ∧
      c.files.Holds e (streamedLog o c ds es) [] := by
  have haccepted : ∀ a ∈ (c.mergedWith ds (Record.reread es)).values, Record.Accepted a :=
    forall_mergedWith (fun a => Record.accepted_reread hds) fun a => Record.accepted_reread hes
  obtain ⟨e, ds', he, hholds, rfl⟩ :=
    run_promoteWorkFileIn hf h fun a ha => haccepted a ((o.perm _).mem_iff.mp ha)
  exact ⟨e, he, hholds⟩

omit [KeyedEntity α] in
/-- Deliveries spare the snapshot, whatever becomes of them. -/
theorem spares_deliverEach (es : List α) {x y : Sink × JobHandle} {r : CallEnd Unit}
    (h : ((SourceCall.deliverEach es).run (.ofSink c) x).run d = ((r, y), e)) :
    Spares c.files.snapshot d e := by
  have hkeeps := (SourceCall.keeps_deliverEach (R := Spares c.files.snapshot) es).run
    (h := Receiver.ofSink c) (fun a y => keeps_item hf.workKeeps a y.1 y.2) x
  have hspares := hkeeps.run .refl .trans d
  rwa [h] at hspares

end Disks

/-! ## Updates in an order of writing -/

/-- Stores what a call fetched, in an order of writing. -/
def storeFetchedIn (o : WriteOrder α) (c : EntityCache α) (es : List α) :
    Course σ (Except RefreshError Nat) := do
  if ← Course.isInterrupted then return .error .cancelled
  else
    Course.markNow JobHandle.recordProgress
    return (← (c.storeAllIn o es).outcome).mapError .cache

/-- Fetches all entities and writes them in an order. -/
def updateBulkIn (o : WriteOrder α) (c : EntityCache α) (src : Source α) (limit : Span) :
    Course σ (Except RefreshError Nat) := do
  Course.markNow JobHandle.beginWaiting
  let r ← src.fetch.awaited .ofJob id id limit
  Course.mark JobHandle.endWaiting
  match r with
  | .interrupted => return .error .cancelled
  | .failed e => return .error (.ofCall e)
  | .returned (.error e) _ => return .error (.ofSource e)
  | .returned (.ok es) _ => storeFetchedIn o c es

/-- Promotes a population that ended well, in an order of writing. -/
def promoteStreamedIn (o : WriteOrder α) (c : EntityCache α) :
    Course σ (Except RefreshError Nat) := do
  if ← Course.isInterrupted then return .error .cancelled
  else return (← (c.promoteWorkFileIn o).outcome).mapError .cache

/-- What a streamed update makes of a call that returned. -/
def settleStreamed (o : WriteOrder α) (c : EntityCache α) (sink : Sink) (r : Except SourceError Unit) :
    Course σ (Except RefreshError Nat) :=
  match sink.failure, r with
  | some e, _ => pure (.error (.cache e))
  | none, .error e => pure (.error (.ofSource e))
  | none, .ok _ => promoteStreamedIn o c

/-- Has the entities delivered one by one, and promotes them in an order of writing. -/
def updateStreamingIn (o : WriteOrder α) (c : EntityCache α) (src : Source α) (limit : Span) :
    Course σ (Except RefreshError Nat) := do
  match ← c.beginStreaming.outcome with
  | .error e => return .error (.cache e)
  | .ok _ =>
    Course.markNow JobHandle.beginWaiting
    let r ← src.stream.awaited (.ofSink c) (fun j => (Sink.new, j)) Prod.snd limit
    Course.mark JobHandle.endWaiting
    match r with
    | .interrupted => return .error .cancelled
    | .failed e => return .error (.ofCall e)
    | .returned r (sink, _) => settleStreamed o c sink r

/-- An update that writes in an order. -/
def updateIn (o : WriteOrder α) (c : EntityCache α) (src : Source α) (limits : CallLimits) :
    Course σ (Except RefreshError Nat) :=
  if src.streams then updateStreamingIn o c src limits.streaming else updateBulkIn o c src limits.call

omit [KeyedEntity α] in
theorem updateIn_ascending (c : EntityCache α) (src : Source α) (limits : CallLimits) :
    (updateIn .ascending c src limits : Course σ (Except RefreshError Nat)) = c.update src limits := rfl

/-! ## Updates that need not wait -/

section Updates

omit [KeyedEntity α]

variable {src : Source α} {x : Except CacheError Nat} {z : Except RefreshError Nat}

theorem prompt_storeFetchedIn (hs : s.Free) (h : (c.storeAllIn o es).run d = (x, e)) :
    (storeFetchedIn o c es).Prompt s d (x.mapError .cache) e := by
  have hstore : (c.storeAllIn o es).outcome.run d = (x, e) := h
  refine (Course.prompt_isInterrupted hs d).bind fun t ht _ => ?_
  refine (Course.prompt_markNow ht d fun _ => rfl).bind fun t ht _ => ?_
  exact (Course.prompt_ofRoutine ht hstore).bind fun t ht _ => Course.prompt_pure ht _ _

theorem prompt_promoteStreamedIn (hs : s.Free) (h : (c.promoteWorkFileIn o).run d = (x, e)) :
    (promoteStreamedIn o c).Prompt s d (x.mapError .cache) e := by
  have hpromote : (c.promoteWorkFileIn o).outcome.run d = (x, e) := h
  refine (Course.prompt_isInterrupted hs d).bind fun t ht _ => ?_
  exact (Course.prompt_ofRoutine ht hpromote).bind fun t ht _ => Course.prompt_pure ht _ _

theorem prompt_updateBulkIn (hs : s.Free) (hfetch : src.fetch.Fetches d (.ok es) m)
    (hstore : (c.storeAllIn o es).run m = (x, e)) (limit : Span) :
    (updateBulkIn o c src limit).Prompt s d (x.mapError .cache) e := by
  refine (Course.prompt_markNow hs d fun _ => rfl).bind fun t ht _ => ?_
  refine (SourceCall.prompt_awaited ht (hfetch _) ht.running limit).bind fun t ht _ => ?_
  refine (Course.prompt_mark ht m rfl).bind fun t ht _ => ?_
  exact prompt_storeFetchedIn ht hstore

theorem prompt_updateBulk_error (hs : s.Free) {y : SourceError}
    (hfetch : src.fetch.Fetches d (.error y) m) (limit : Span) :
    (c.updateBulk src limit).Prompt s d (.error (.ofSource y)) m := by
  refine (Course.prompt_markNow hs d fun _ => rfl).bind fun t ht _ => ?_
  refine (SourceCall.prompt_awaited ht (hfetch _) ht.running limit).bind fun t ht _ => ?_
  exact (Course.prompt_mark ht m rfl).bind fun t ht _ => Course.prompt_pure ht _ _

theorem prompt_updateStreamingIn (hs : s.Free) (hbegin : c.beginStreaming.run d = (.ok (), m))
    {r : Except SourceError Unit} {t : Sink} {k : JobHandle}
    (hcall : (src.stream.run (.ofSink c) (Sink.new, s.job.beginWaiting m.clock)).run m =
      ((.returned r, (t, k)), n)) (hk : k.interrupted = false) (limit : Span)
    (hrest : ∀ s : Scene σ, s.Free → (settleStreamed o c t r).Prompt s n z e) :
    (updateStreamingIn o c src limit).Prompt s d z e := by
  have hbegin' : c.beginStreaming.outcome.run d = (.ok (), m) := hbegin
  have hwaiting : ({ s with job := s.job.beginWaiting m.clock } : Scene σ).Free :=
    ⟨hs.running, hs.idle⟩
  refine (Course.comes_ofRoutine hbegin' s).promptBind rfl ?_
  refine (Course.comes_markNow _ s m).promptBind rfl ?_
  refine (SourceCall.prompt_awaited hwaiting hcall hk limit).bind fun t ht _ => ?_
  exact (Course.prompt_mark ht n rfl).bind fun t ht _ => hrest t ht

end Updates

/-! ## Both ways from one state -/

variable {fetch : SourceCall Empty (List α)} {limits : CallLimits} {policy : CachePolicy}
  {dir : Path} {x y : Except RefreshError Nat} {f : Disk}

/-- The call fetches `es` and leaves the files of the cache alone, be it made at once or when a
population was begun. -/
structure Fed (c : EntityCache α) (fetch : SourceCall Empty (List α)) (d : Disk) (es : List α) :
    Prop where
  bulk : ∃ m, fetch.Fetches d (.ok es) m ∧ c.files.Untouched d m
  streamed : ∃ m, fetch.Fetches (c.beginStreaming.run d).2 (.ok es) m ∧
    c.files.Untouched (c.beginStreaming.run d).2 m

omit [Entity α] [KeyedEntity α] in
theorem fed_returns (c : EntityCache α) (d : Disk) (es : List α) :
    c.Fed (.returns (.ok es)) d es :=
  ⟨⟨d, SourceCall.fetches_returns _ d, rfl, rfl⟩, _, SourceCall.fetches_returns _ _, rfl, rfl⟩

/-- How the two ways to update end in the scene `s` and on the disk `d`: fetching everything and
writing it in the order `o` with `x` on the disk `e`, streaming and writing in the order `o'` with
`y` on the disk `f`. -/
structure BothWays (o o' : WriteOrder α) (c : EntityCache α) (limits : CallLimits)
    (fetch : SourceCall Empty (List α)) (s : Scene σ) (d : Disk) (x : Except RefreshError Nat)
    (e : Disk) (y : Except RefreshError Nat) (f : Disk) : Prop where
  bulk : (updateIn o c (.ofFetch false fetch) limits).Prompt s d x e
  streamed : (updateIn o' c (.ofFetch true fetch) limits).Prompt s d y f

/-- Both ended with one result, and readers are then given the same. -/
structure Agree (c : EntityCache α) (x : Except RefreshError Nat) (e : Disk)
    (y : Except RefreshError Nat) (f : Disk) : Prop where
  result : x = y
  get (t : Trigger) : ((c.get t).run e).1 = ((c.get t).run f).1

omit [KeyedEntity α] in
theorem get_of_alike (hf : c.files.Siblings) {xs ys : List α} (he : c.files.Holds e xs [])
    (hf' : c.files.Holds f ys []) (h : Alike xs ys) (t : Trigger) :
    ((c.get t).run e).1 = ((c.get t).run f).1 := by
  rw [run_get hf he, run_get hf hf', h.reread]
  simp only [ne_eq, h.empty]

/-- Entities that are all accepted are stored in both ways. -/
theorem bothWays_accepted (hf : c.files.Siblings) (h : c.files.Saves d ds)
    (hds : ∀ a ∈ ds, Record.Accepted a) (hes : ∀ a ∈ es, Record.Accepted a)
    (hfed : c.Fed fetch d es) (hs : s.Free) (o o' : WriteOrder α) (limits : CallLimits) :
    ∃ e f, BothWays o o' c limits fetch s d (.ok (c.mergedWith ds (batchOf es)).size) e
        (.ok (c.mergedWith ds (Record.reread es)).size) f ∧
      c.files.Holds e (o.list (c.mergedWith ds (batchOf es))) [] ∧
      c.files.Holds f (streamedLog o' c ds es) [] := by
  obtain ⟨⟨m, hfetch, hm⟩, n, hstream, hn⟩ := hfed
  obtain ⟨d', hbegin, hd'⟩ := CacheFiles.run_clearWork hf h
  have hbegin' : c.beginStreaming.run d = (.ok (), d') := hbegin
  rw [hbegin'] at hstream hn
  obtain ⟨e, hstore, he⟩ := holds_storeAllIn (o := o) hf (hm.saves h) hds hes
  obtain ⟨n', hn', hdeliver⟩ := SourceCall.run_deliverEach hf (hn.holds hd') hes
  obtain ⟨f, hpromote, hf'⟩ := holds_promoteWorkFileIn (o := o') hf hn' hds hes
  refine ⟨e, f, ⟨prompt_updateBulkIn hs hfetch hstore _, ?_⟩, he, hf'⟩
  have hj : (s.job.beginWaiting d'.clock).interrupted = false := hs.running
  obtain ⟨t, ht, hrun⟩ := SourceCall.run_ofFetch (c := c) true hstream (s := Sink.new) ⟨rfl, rfl⟩ _
  obtain ⟨t', k, ht', hk, hend⟩ := hdeliver ht hj
  refine prompt_updateStreamingIn hs hbegin' (hrun.trans hend) hk _ fun s hs => ?_
  unfold settleStreamed
  rw [ht'.unfailed]
  exact prompt_promoteStreamedIn hs hpromote

omit [KeyedEntity α] in
/-- Where one is not accepted neither way changes the snapshot. -/
theorem bothWays_refused (hf : c.files.Siblings) (h : c.files.Saves d ds)
    (hes : ∃ a ∈ es, ¬Record.Accepted a) (hfed : c.Fed fetch d es) (hs : s.Free)
    (o o' : WriteOrder α) (limits : CallLimits) :
    ∃ x e y f, BothWays o o' c limits fetch s d (.error x) e (.error y) f ∧
      e.view c.files.snapshot = d.view c.files.snapshot ∧
      f.view c.files.snapshot = d.view c.files.snapshot := by
  obtain ⟨⟨m, hfetch, hm⟩, n, hstream, hn⟩ := hfed
  obtain ⟨d', hbegin, hd'⟩ := CacheFiles.run_clearWork hf h
  have hbegin' : c.beginStreaming.run d = (.ok (), d') := hbegin
  have hspares := hf.workKeeps.clearWork.run .refl .trans d
  rw [show c.files.clearWork.outcome.run d = _ from hbegin] at hspares
  rw [hbegin'] at hstream hn
  obtain ⟨x, e, hstore, he⟩ := spares_storeAllIn (o := o) hf (hm.saves h) hes
  obtain ⟨kept, a, rest, rfl, hkept, ha⟩ := split_refused hes
  obtain ⟨f, -, hdeliver⟩ :=
    SourceCall.run_deliverEach_refused hf (hn.holds hd') rest hkept ha
  have hf' : f.view c.files.snapshot = n.view c.files.snapshot := by
    obtain ⟨t, k, -, -, hrun⟩ := hdeliver (s := Sink.new) (j := .new 0 ⟨0⟩) ⟨rfl, rfl⟩ rfl
    exact (spares_deliverEach hf _ hrun).view
  refine ⟨_, e, .cache (.codec (Record.refusal (Entity.key a))), f,
    ⟨prompt_updateBulkIn hs hfetch hstore _, ?_⟩, he.view.trans hm.snapshot,
    hf'.trans (hn.snapshot.trans hspares.view)⟩
  have hj : (s.job.beginWaiting d'.clock).interrupted = false := hs.running
  obtain ⟨t, ht, hrun⟩ := SourceCall.run_ofFetch (c := c) true hstream (s := Sink.new) ⟨rfl, rfl⟩ _
  obtain ⟨t', k, ht', hk, hend⟩ := hdeliver ht hj
  refine prompt_updateStreamingIn hs hbegin' (hrun.trans hend) hk _ fun s hs => ?_
  unfold settleStreamed
  rw [ht']
  exact Course.prompt_pure hs _ _

/-- Without a snapshot, updates with one entity agree only if it settles. -/
theorem settles_of_agree (hf : c.files.Siblings) (h : c.files.Saves d ([] : List α)) {a : α}
    (ha : Record.Accepted a) (hs : s.Free) (o o' : WriteOrder α) (limits : CallLimits)
    (hall : ∀ {x e y f}, BothWays o o' c limits (.returns (.ok [a])) s d x e y f →
      c.Agree x e y f) :
    Record.Settles c.policy.keepsPrevious a := by
  have hmerged : ∀ m : Keyed α, c.mergedWith [] m = m := by
    intro m
    unfold mergedWith
    split
    · exact Keyed.overlay_empty_left m
    · rfl
  have haccepted : ∀ b ∈ [a], Record.Accepted b := by
    intro b hb
    rwa [List.mem_singleton.mp hb]
  obtain ⟨e, f, hboth, he, hf'⟩ := bothWays_accepted hf h (fun _ hb => nomatch hb) haccepted
    (fed_returns c d [a]) hs o o' limits
  obtain ⟨hresult, hget⟩ := hall hboth
  rw [hmerged, hmerged] at hresult
  have hreread := Record.reread_singleton ha
  obtain ⟨b, hb⟩ : ∃ b, Record.readBack? a = some b := by
    cases hb : Record.readBack? a with
    | some b => exact ⟨b, rfl⟩
    | none =>
      rw [hreread, hb] at hresult
      cases hresult
  refine ⟨b, hb, fun hk => ?_⟩
  have hab : Record.reread [a] = batchOf [b] := by
    rw [hreread, hb]
    rfl
  -- What is read of the batch is `b`, and of the population what `b` is read as.
  have hone : ∀ (o : WriteOrder α) (a : α), o.list (batchOf [a]) = [a] := fun o a =>
    List.perm_singleton.mp (o.perm _)
  have hlog : streamedLog o' c [] [a] = [b] := by rw [streamedLog, if_pos hk, hmerged, hab, hone]
  rw [hmerged, hone] at he
  rw [hlog] at hf'
  have hsame := hget .new
  rw [run_get hf he, run_get hf hf'] at hsame
  have hreadable : Record.Readable b := by
    have hvalues : Record.reread [a] = Record.reread [b] := Except.ok.inj (Prod.mk.inj hsame).1
    rw [Record.Readable, ← hvalues, hab]
  exact (Record.readable_iff (by rwa [Record.key_of_readBack? hb])).mp hreadable

/-- An update of a cache in the directory `dir`, at any point that populations, wholly or in part,
and restarts have led to, with entities that are brought and nothing to wait for. -/
structure Occasion [PlainKind α] (dir : Path) (brought : α → Prop) (d₀ : Disk) (c : EntityCache α)
    (fetch : SourceCall Empty (List α)) (s : Scene σ) (ds es : List α) (d : Disk) : Prop where
  leads : Leads dir brought d₀ ds d
  brings : ∀ a ∈ es, brought a
  fed : c.Fed fetch d es
  free : s.Free

/-- In a cache opened in a directory without its files, and at every point that later populations
lead to, whatever orders the two ways write in: updates by either way with the same entities fail
both, with the snapshot as it was, exactly when an entity is refused, and otherwise both store and
leave an empty work file. They then have one count, and readers get the same, always, exactly when
every accepted entity that is brought settles: for a cache that keeps what was there before, what is
read of its record has to read back, else its record only has to be read. Entities whose numbers read
back do. -/
theorem ways_agree_iff [PlainKind α] [LawfulEntity α] [Inhabited σ] (brought : α → Prop)
    (dir : Path) (policy : CachePolicy) (limits : CallLimits) (o o' : WriteOrder α) {l : Place}
    (henter : d.enter dir = .ok l)
    (hsnapshot : d.view (inDirectory α dir policy).files.snapshot = .error .notFound)
    (hwork : d.view (inDirectory α dir policy).files.work = .error .notFound) :
    (∃ d₀, (openIn α dir policy).run d = (.ok (inDirectory α dir policy), d₀) ∧
      (∀ ⦃fetch⦄ ⦃s : Scene σ⦄ ⦃ds es d⦄,
        Occasion dir brought d₀ (inDirectory α dir policy) fetch s ds es d →
          ∃ x e y f, (inDirectory α dir policy).BothWays o o' limits fetch s d x e y f ∧
            ((∀ a ∈ es, Record.Accepted a) → (∃ n, x = .ok n) ∧ (∃ n, y = .ok n) ∧
              (∃ u, e.view (inDirectory α dir policy).files.work = .ok (.file .empty u)) ∧
              ∃ u, f.view (inDirectory α dir policy).files.work = .ok (.file .empty u)) ∧
            ((∃ a ∈ es, ¬Record.Accepted a) → (∃ z, x = .error z) ∧ (∃ z, y = .error z) ∧
              e.view (inDirectory α dir policy).files.snapshot =
                d.view (inDirectory α dir policy).files.snapshot ∧
              f.view (inDirectory α dir policy).files.snapshot =
                d.view (inDirectory α dir policy).files.snapshot)) ∧
      ((∀ ⦃fetch⦄ ⦃s : Scene σ⦄ ⦃ds es d x e y f⦄,
          Occasion dir brought d₀ (inDirectory α dir policy) fetch s ds es d →
          (∀ a ∈ es, Record.Accepted a) →
          (inDirectory α dir policy).BothWays o o' limits fetch s d x e y f →
            (inDirectory α dir policy).Agree x e y f) ↔
        ∀ a, brought a → Record.Accepted a → Record.Settles policy.keepsPrevious a)) ∧
    ∀ a : α, LawfulEntity.ReadsBack a → ∀ again, Record.Settles again a := by
  have hf := siblings_inDirectory α dir policy
  obtain ⟨d₀, hopen, hholds⟩ := run_openIn (α := α) henter hsnapshot hwork
  refine ⟨⟨d₀, hopen, fun fetch s ds es d hoccasion => ?_, fun hall a hbrought ha => ?_,
    fun hall fetch s ds es d x e y f hoccasion hes hboth => ?_⟩,
    fun a h again => Record.settles_of_readsBack h again⟩
  · obtain ⟨hleads, -, hfed, hfree⟩ := hoccasion
    obtain ⟨hsaves, hds⟩ := hleads.saves policy hholds.saves
    by_cases hes : ∀ a ∈ es, Record.Accepted a
    · obtain ⟨e, f, hboth, he, hf'⟩ := bothWays_accepted hf hsaves hds hes hfed hfree o o' limits
      refine ⟨_, e, _, f, hboth, fun _ => ⟨⟨_, rfl⟩, ⟨_, rfl⟩, he.work, hf'.work⟩, ?_⟩
      rintro ⟨a, ha, hbad⟩
      exact absurd (hes a ha) hbad
    · have hbad : ∃ a ∈ es, ¬Record.Accepted a := by simpa using hes
      obtain ⟨x, e, y, f, hboth, he, hf'⟩ := bothWays_refused hf hsaves hbad hfed hfree o o' limits
      exact ⟨_, e, _, f, hboth, fun h => absurd h hes, fun _ => ⟨⟨x, rfl⟩, ⟨y, rfl⟩, he, hf'⟩⟩
  · have hfree : (⟨.new 0 ⟨0⟩, .new, default⟩ : Scene σ).Free := ⟨rfl, rfl⟩
    have hone : ∀ {P : α → Prop}, P a → ∀ b ∈ [a], P b := by
      intro P h b hb
      rwa [List.mem_singleton.mp hb]
    refine settles_of_agree hf hholds.saves ha hfree o o' limits fun hboth => ?_
    exact hall ⟨.opened, hone hbrought, fed_returns _ _ _, hfree⟩ (hone ha) hboth
  · obtain ⟨hleads, hbrings, hfed, hfree⟩ := hoccasion
    obtain ⟨hsaves, hds⟩ := hleads.saves policy hholds.saves
    obtain ⟨e', f', hboth', he, hf'⟩ := bothWays_accepted hf hsaves hds hes hfed hfree o o' limits
    obtain ⟨rfl, rfl⟩ := hboth'.bulk.unique hboth.bulk
    obtain ⟨rfl, rfl⟩ := hboth'.streamed.unique hboth.streamed
    have hsettles : ∀ a ∈ es, Record.Settles policy.keepsPrevious a := fun a ha =>
      hall a (hbrings a ha) (hes a ha)
    refine ⟨congrArg Except.ok (size_mergedWith hes hsettles), get_of_alike hf he hf' ?_⟩
    refine alike_streamedLog hes hsettles (fun hk => ?_) o o'
    -- What keeps the previous has written again what it read, whoever brought it.
    have hk' : policy.keepsPrevious = true := hk
    rw [hk'] at hall
    exact hleads.all hholds.saves Record.rereads_settles hall

/-- Both ways agree on units, whatever they are, and there are occasions on which both store. -/
theorem ways_agree_units :
    ∃ d₀, (openIn UnitMapping ⟨""⟩ ⟨⟨0⟩, true⟩).run (.empty ⟨5⟩) =
        (.ok (inDirectory UnitMapping ⟨""⟩ ⟨⟨0⟩, true⟩), d₀) ∧
      (∀ ⦃fetch⦄ ⦃s : Scene Unit⦄ ⦃ds es d x e y f⦄,
        Occasion ⟨""⟩ (fun _ => True) d₀ (inDirectory UnitMapping ⟨""⟩ ⟨⟨0⟩, true⟩) fetch s ds es d →
        (∀ a ∈ es, Record.Accepted a) →
        (inDirectory UnitMapping ⟨""⟩ ⟨⟨0⟩, true⟩).BothWays .ascending .ascending ⟨⟨5⟩, ⟨5⟩⟩ fetch s d
          x e y f →
          (inDirectory UnitMapping ⟨""⟩ ⟨⟨0⟩, true⟩).Agree x e y f) ∧
      ∃ n e f, (inDirectory UnitMapping ⟨""⟩ ⟨⟨0⟩, true⟩).BothWays .ascending .ascending ⟨⟨5⟩, ⟨5⟩⟩
        (.returns (.ok [⟨"depth", "m"⟩])) (⟨.new 0 ⟨0⟩, .new, ()⟩ : Scene Unit) d₀
        (.ok n) e (.ok n) f := by
  obtain ⟨hs, ht, -⟩ := CacheFiles.names_ofKind (PlainKind.no_slash (α := UnitMapping))
  obtain ⟨⟨d₀, hopen, hends, hiff⟩, hsettles⟩ := ways_agree_iff (α := UnitMapping) (σ := Unit)
    (fun _ => True) ⟨""⟩ ⟨⟨0⟩, true⟩ ⟨⟨5⟩, ⟨5⟩⟩ .ascending .ascending (l := []) rfl
    (view_join hs (.empty ⟨5⟩) ⟨""⟩) (view_join ht (.empty ⟨5⟩) ⟨""⟩)
  have hagree := hiff.mpr fun a _ _ => hsettles a trivial true
  have haccepted : ∀ a ∈ [(⟨"depth", "m"⟩ : UnitMapping)], Record.Accepted a := by decide
  have ho : Occasion ⟨""⟩ (fun _ => True) d₀ (inDirectory UnitMapping ⟨""⟩ ⟨⟨0⟩, true⟩)
      (.returns (.ok [⟨"depth", "m"⟩])) (⟨.new 0 ⟨0⟩, .new, ()⟩ : Scene Unit) []
      [⟨"depth", "m"⟩] d₀ :=
    ⟨.opened, fun _ _ => trivial, fed_returns _ _ _, rfl, rfl⟩
  refine ⟨d₀, hopen, hagree, ?_⟩
  obtain ⟨x, e, y, f, hboth, hstored, -⟩ := hends ho
  obtain ⟨⟨n, rfl⟩, -⟩ := hstored haccepted
  obtain ⟨rfl, -⟩ := hagree ho haccepted hboth
  exact ⟨n, e, f, hboth⟩

/-- An offering whose coordinates drift each time they are read: a cache that keeps what was there
before has it read once more when it is streamed. -/
theorem ways_differ_on_drifting :
    ∃ (o : Offering) (d₀ e f : Disk) (x y : Except RefreshError Nat) (s : Scene Unit),
      (openIn Offering ⟨""⟩ ⟨⟨0⟩, true⟩).run (.empty ⟨5⟩) =
        (.ok (inDirectory Offering ⟨""⟩ ⟨⟨0⟩, true⟩), d₀) ∧
      Occasion ⟨""⟩ (· = o) d₀ (inDirectory Offering ⟨""⟩ ⟨⟨0⟩, true⟩) (.returns (.ok [o])) s [] [o]
        d₀ ∧
      Record.Accepted o ∧
      (inDirectory Offering ⟨""⟩ ⟨⟨0⟩, true⟩).BothWays .ascending .ascending ⟨⟨5⟩, ⟨5⟩⟩
        (.returns (.ok [o])) s d₀ x e y f ∧
      ¬(inDirectory Offering ⟨""⟩ ⟨⟨0⟩, true⟩).Agree x e y f := by
  let v : Double := ⟨false, 8521123904911463, 83, by decide, by decide, by decide, .inl (by decide)⟩
  let o : Offering := ⟨"o", none, [], .empty, [], none, some ⟨4326, ⟨v, v⟩, ⟨v, v⟩, by decide⟩⟩
  let s : Scene Unit := ⟨.new 0 ⟨0⟩, .new, ()⟩
  have hdrifts : (Record.readBack? o).bind Record.readBack? ≠ Record.readBack? o := by
    decide +kernel
  have hs : s.Free := ⟨rfl, rfl⟩
  have hf := siblings_inDirectory Offering ⟨""⟩ ⟨⟨0⟩, true⟩
  obtain ⟨d₀, hopen, hholds⟩ := run_openIn_empty (α := Offering) ⟨⟨0⟩, true⟩ ⟨5⟩
  have haccepted : ∀ a ∈ [o], Record.Accepted a := by
    intro a ha
    rw [List.mem_singleton.mp ha]
    decide
  obtain ⟨e, f, hboth, -⟩ := bothWays_accepted hf hholds.saves (fun _ ha => nomatch ha) haccepted
    (fed_returns _ d₀ [o]) hs .ascending .ascending ⟨⟨5⟩, ⟨5⟩⟩
  refine ⟨o, d₀, e, f, _, _, s, hopen, ⟨.opened, ?_, fed_returns _ _ _, hs⟩, by decide, hboth,
    fun hagree => hdrifts ?_⟩
  · intro a ha
    exact List.mem_singleton.mp ha
  · obtain ⟨b, hb, hback⟩ := settles_of_agree hf hholds.saves (a := o) (by decide) hs
      .ascending .ascending ⟨⟨5⟩, ⟨5⟩⟩ fun hboth' => by
        obtain ⟨rfl, rfl⟩ := hboth.bulk.unique hboth'.bulk
        obtain ⟨rfl, rfl⟩ := hboth.streamed.unique hboth'.streamed
        exact hagree
    rw [hb]
    exact hback rfl

end EntityCache

end SensorCache
