import SensorCache.Proofs.Cache.Refinement
import SensorCache.Proofs.Disk.Cuts

/-!
# Snapshots that outlast their process

A process that populates a cache may be watched by readers, or die, at any point between two
operations on the disk or in the middle of writing. `Leads` says what may have become of the cache
like that, through any populations that came to an end or were broken off, and any restarts. At each
such point the snapshot is the whole log of one batch (`Leads.saves`): the batch changes with the one
rename of a promotion, and at nothing else.
-/

namespace SensorCache

open Disk

variable {α β : Type} [Entity α] {d e m : Disk} {os : List Op} {ds ws es : List α}

/-! ## Work and promotion -/

namespace CacheFiles

variable {f : CacheFiles}

/-- The operation by which the work file takes the place of the snapshot. -/
def promotion (f : CacheFiles) : Op := .rename f.work f.snapshot

/-- Looking at things, and what is done to the work file. -/
def Works (f : CacheFiles) : Op → Prop
  | .now => True
  | .find _ => True
  | .read _ => True
  | .truncate p => p = f.work
  | .append p _ => p = f.work
  | _ => False

theorem Siblings.spares_of_works (hf : f.Siblings) {o : Op} (ho : f.Works o) (d : Disk) :
    Spares f.snapshot d (d.perform o).2 := by
  cases o with
  | now => exact .refl d
  | find p =>
    rw [perform_find]
    exact .refl d
  | read p =>
    rw [perform_read]
    exact .refl d
  | truncate p =>
    obtain rfl : p = f.work := ho
    exact hf.workKeeps.clear d
  | append p bytes =>
    obtain rfl : p = f.work := ho
    exact hf.workKeeps.append bytes d
  | _ => exact ho.elim

theorem Saves.of_spares (hf : f.Siblings) (h : f.Saves d ds) (hs : Spares f.snapshot d e) :
    f.Saves e ds where
  snapshot := hs.view ▸ h.snapshot
  work := noDirectory_of_spares hf hs h.work

theorem Untouched.saves (h : f.Untouched d e) (hd : f.Saves d ds) : f.Saves e ds where
  snapshot := h.snapshot ▸ hd.snapshot
  work u := h.work ▸ hd.work u

/-- Work that is cut anywhere has left the snapshot, and has not promoted anything. -/
theorem Saves.of_work (hf : f.Siblings) (h : f.Saves d ds) {r : Attempt CacheError β}
    (hr : r.Uses f.Works) (hc : r.Cut d os e) : f.Saves e ds ∧ f.promotion ∉ os := by
  obtain ⟨hspares, hops⟩ := Routine.Uses.cut (R := Spares f.snapshot) .refl .trans
    (fun _ ho => hf.spares_of_works ho) (fun _ _ _ hp => hp) hr hc
  exact ⟨h.of_spares hf hspares, fun hp => hops _ hp⟩

theorem uses_readRecords (f : CacheFiles) (p : Path) : (readRecords α p).Uses f.Works := by
  have hbytes : (Disk.readBytes p).Uses f.Works := Routine.uses_op trivial
  have htext : (Disk.readText p).Uses f.Works := hbytes.bind fun _ => by split <;> trivial
  refine (Attempt.Uses.always htext).bind fun x => ?_
  split
  · exact Attempt.uses_pure _
  · exact Attempt.uses_pure _
  · exact Attempt.uses_fail _

theorem uses_clearWork (f : CacheFiles) : f.clearWork.Uses f.Works :=
  Attempt.Uses.because (Routine.uses_op rfl)

theorem uses_appendBytes (f : CacheFiles) (bytes : ByteArray) :
    (Disk.appendBytes f.work bytes).Uses f.Works :=
  Routine.uses_op rfl

theorem uses_appendWork (f : CacheFiles) (a : α) : (f.appendWork a).Uses f.Works := by
  unfold appendWork
  split
  · exact Attempt.uses_fail _
  · exact (f.uses_appendBytes _).because

theorem uses_writeWork (f : CacheFiles) (es : List α) : (f.writeWork es).Uses f.Works := by
  refine f.uses_clearWork.bind fun _ => (f.uses_appendBytes _).because.bind fun _ => ?_
  split
  · exact Attempt.uses_fail _
  · exact Attempt.uses_pure _

/-- A batch that was written whole is what the work file holds. -/
theorem writeWork_ok (hf : f.Siblings) (h : f.Saves d ds) {n : Nat}
    (hr : (f.writeWork es).run d = (.ok n, m)) :
    (∀ a ∈ es, Record.Accepted a) ∧ f.Holds m ds es := by
  by_cases hes : ∀ a ∈ es, Record.Accepted a
  · obtain ⟨e, he, hholds⟩ := run_writeWork hf h hes
    rw [hr] at he
    obtain rfl : m = e := (Prod.mk.inj he).2
    exact ⟨hes, hholds⟩
  · obtain ⟨kept, a, rest, rfl, hkept, ha⟩ := EntityCache.split_refused (by simpa using hes)
    obtain ⟨e, he, -⟩ := run_writeWork_refused hf h rest hkept (Bool.eq_false_iff.mpr ha)
    rw [hr] at he
    cases (Prod.mk.inj he).1

/-- The rename makes the work file's log the snapshot's. -/
theorem Holds.rename (hf : f.Siblings) (h : f.Holds d ds ws) :
    ∃ m, d.perform f.promotion = (.ok (), m) ∧ f.Saves m ws := by
  have hno := h.saves.work
  obtain ⟨⟨u, hu⟩, v, hv⟩ := h
  obtain ⟨dir, s, t, hs, ht, hst, rfl⟩ := hf.names
  obtain ⟨m, hren, -, hsnap, -⟩ := rename_truncate_file hs ht hst hu hv
  refine ⟨m, hren, ⟨v, ?_⟩, ?_⟩
  · exact (spares_truncate hs ht hst m).view.symm.trans hsnap
  · obtain ⟨x, hx⟩ | ⟨-, hsame, -⟩ := rename_join ht hs hno
    · rw [hren] at hx
      cases hx
    · rw [hren] at hsame
      exact hsame.noDirectory ht hno

/-! ## Before and after a promotion -/

/-- As long as the promotion is not among the operations the snapshot is the log of `ds`; from then
on it is that of `ws`, all of whose entities are accepted. -/
def Turns (f : CacheFiles) (ds ws : List α) (os : List Op) (e : Disk) : Prop :=
  (f.promotion ∉ os ∧ f.Saves e ds) ∨
    (f.promotion ∈ os ∧ f.Saves e ws ∧ ∀ a ∈ ws, Record.Accepted a)

theorem cut_promoteWork (hf : f.Siblings) (h : f.Holds d ds ws) (hws : ∀ a ∈ ws, Record.Accepted a)
    (hc : f.promoteWork.Cut d os e) : f.Turns ds ws os e := by
  obtain ⟨m, hren, hm⟩ := h.rename hf
  have hrename : (Disk.renameTo f.work f.snapshot).run d = (.ok (), m) := hren
  rcases hc.of_bind with hc | ⟨_, n, os', hn, rfl, hclear⟩
  · replace hc : (Routine.op f.promotion).Cut d os e := hc.of_because
    cases hc with
    | here => exact .inl ⟨List.not_mem_nil, h.saves⟩
    | step hc =>
      obtain ⟨rfl, rfl⟩ := Routine.cut_done.mp hc
      rw [hren]
      exact .inr ⟨List.mem_cons_self, hm, hws⟩
  · rw [Attempt.run_because_ok hrename] at hn
    obtain rfl : m = n := (Prod.mk.inj hn).2
    exact .inr ⟨List.mem_append_left _ List.mem_cons_self, (hm.of_work hf f.uses_clearWork hclear).1,
      hws⟩

/-- Work that comes first changes nothing about that. -/
theorem turns_of_bind (hf : f.Siblings) (h : f.Saves d ds) {γ : Type} {r : Attempt CacheError β}
    {g : β → Attempt CacheError γ} (hr : r.Uses f.Works) (hc : (r >>= g).Cut d os e)
    (hg : ∀ a m os, r.run d = (.ok a, m) → (g a).Cut m os e → f.Turns ds ws os e) :
    f.Turns ds ws os e := by
  rcases hc.of_bind with hfirst | ⟨a, m, os', hm, rfl, hrest⟩
  · have ⟨hsaves, hnone⟩ := h.of_work hf hr hfirst
    exact .inl ⟨hnone, hsaves⟩
  · have hnone := (h.of_work hf hr (r.cut_run d)).2
    rcases hg a m os' hm hrest with ⟨hp, hsaves⟩ | ⟨hp, hsaves⟩
    · exact .inl ⟨fun hmem => (List.mem_append.mp hmem).elim hnone hp, hsaves⟩
    · exact .inr ⟨List.mem_append_right _ hp, hsaves⟩

end CacheFiles

/-! ## Populations -/

/-- A population of a cache: a batch, or entities one by one, of which those that are refused are
passed over. -/
inductive Population (α : Type) where
  | whole (es : List α)
  | streamed (es : List α)

namespace EntityCache

variable {c : EntityCache α} {o : WriteOrder α}

/-- Adds entities to the work file, past any that are refused. -/
def storeEach (c : EntityCache α) : List α → Attempt CacheError Unit
  | [] => pure ()
  | a :: es => do
    let _ ← (c.storeOne a).caught
    c.storeEach es

end EntityCache

namespace Population

open EntityCache

variable {c : EntityCache α} {o : WriteOrder α}

/-- What the cache does for a population, when it writes batches in the given order. -/
def routine (o : WriteOrder α) (c : EntityCache α) : Population α → Attempt CacheError Nat
  | .whole es => c.storeAllIn o es
  | .streamed es => do
    c.beginStreaming
    c.storeEach es
    c.promoteWorkFileIn o

def entities : Population α → List α
  | .whole es => es
  | .streamed es => es

/-- The entities that are written for a population, in their order, when those of `ds` are durable. -/
def batch (o : WriteOrder α) (c : EntityCache α) (ds : List α) : Population α → List α
  | .whole es => o.list (c.mergedWith ds (batchOf es))
  | .streamed es =>
    let accepted := es.filter fun a => Record.keyAllowed (Entity.key a)
    if c.policy.keepsPrevious then o.list (c.mergedWith ds (Record.reread accepted)) else accepted

end Population

namespace EntityCache

variable {c : EntityCache α} {o : WriteOrder α}

theorem uses_withPrevious (c : EntityCache α) (batch : Keyed α) :
    (c.withPrevious batch).Uses c.files.Works :=
  (c.files.uses_readRecords _).bind fun _ => Attempt.uses_pure _

theorem uses_storeEach (c : EntityCache α) (es : List α) : (c.storeEach es).Uses c.files.Works := by
  induction es with
  | nil => exact Attempt.uses_pure _
  | cons a es ih => exact (Attempt.Uses.always (c.files.uses_appendWork a)).bind fun _ => ih

theorem run_storeEach (hf : c.files.Siblings) (h : c.files.Holds d ds ws) (es : List α) :
    ∃ e, (c.storeEach es).run d = (.ok (), e) ∧
      c.files.Holds e ds (ws ++ es.filter fun a => Record.keyAllowed (Entity.key a)) := by
  induction es generalizing d ws with
  | nil => exact ⟨d, rfl, by simpa using h⟩
  | cons a es ih =>
    have hcaught : ∀ {x m}, (c.files.appendWork a).run d = (x, m) →
        ((c.storeOne a).caught : Attempt CacheError _).run d = (.ok x, m) := by
      intro x m hx
      have hx' : (c.storeOne a).outcome.run d = (x, m) := hx
      rw [Attempt.caught, Attempt.run_always, hx']
    by_cases ha : Record.keyAllowed (Entity.key a) = true
    · obtain ⟨m, hm, hholds⟩ := CacheFiles.run_appendWork hf h ha
      obtain ⟨e, he, hend⟩ := ih hholds
      refine ⟨e, ?_, by simpa [ha] using hend⟩
      rw [storeEach, Attempt.run_bind_ok (hcaught hm), he]
    · have hm := CacheFiles.run_appendWork_error (f := c.files) (Bool.eq_false_iff.mpr ha) d
      obtain ⟨e, he, hend⟩ := ih h
      refine ⟨e, ?_, by simpa [ha] using hend⟩
      rw [storeEach, Attempt.run_bind_ok (hcaught hm), he]

/-! ## Cuts of populations -/

theorem cut_storeBatchIn (hf : c.files.Siblings) (h : c.files.Saves d ds) {batch : Keyed α}
    (hc : (c.storeBatchIn o batch).Cut d os e) : c.files.Turns ds (o.list batch) os e := by
  refine CacheFiles.turns_of_bind hf h (c.files.uses_writeWork _) hc fun n m os hm hrest => ?_
  obtain ⟨haccepted, hholds⟩ := CacheFiles.writeWork_ok hf h hm
  exact CacheFiles.cut_promoteWork hf hholds haccepted hrest.of_bind_pure

/-- A batch is laid over the durable one before, where that is kept. -/
theorem cut_storeWithPrevious (hf : c.files.Siblings) (h : c.files.Saves d ds) {batch : Keyed α}
    (hc : (do c.storeBatchIn o (← c.withPrevious batch)).Cut d os e) :
    c.files.Turns ds (o.list ((Record.reread ds).overlay batch)) os e := by
  refine CacheFiles.turns_of_bind hf h (c.uses_withPrevious _) hc fun merged m os hm hrest => ?_
  rw [run_withPrevious hf h] at hm
  obtain ⟨hmerged, rfl⟩ := Prod.mk.inj hm
  obtain rfl := Except.ok.inj hmerged
  exact cut_storeBatchIn hf h hrest

theorem cut_storeAllIn (hf : c.files.Siblings) (h : c.files.Saves d ds)
    (hc : (c.storeAllIn o es).Cut d os e) :
    c.files.Turns ds (o.list (c.mergedWith ds (batchOf es))) os e := by
  unfold storeAllIn at hc
  unfold mergedWith
  split at hc
  · next hk =>
    rw [if_pos hk]
    exact cut_storeWithPrevious hf h hc
  · next hk =>
    rw [if_neg hk]
    exact cut_storeBatchIn hf h hc

theorem cut_promoteWorkFileIn (hf : c.files.Siblings) (h : c.files.Holds d ds ws)
    (hws : ∀ a ∈ ws, Record.Accepted a) (hc : (c.promoteWorkFileIn o).Cut d os e) :
    c.files.Turns ds
      (if c.policy.keepsPrevious then o.list (c.mergedWith ds (Record.reread ws)) else ws) os e := by
  refine CacheFiles.turns_of_bind hf h.saves (c.files.uses_readRecords _) hc
    fun streamed m os hm hrest => ?_
  obtain ⟨hstreamed, rfl⟩ := Prod.mk.inj ((CacheFiles.run_readWork hf h).symm.trans hm)
  obtain rfl := Except.ok.inj hstreamed
  unfold mergedWith
  split at hrest
  · next hk =>
    rw [if_pos hk, if_pos hk]
    exact cut_storeWithPrevious hf h.saves hrest
  · next hk =>
    rw [if_neg hk]
    exact CacheFiles.cut_promoteWork hf h hws hrest.of_bind_pure

/-- Wherever a population is cut, the snapshot is the last batch or, from its promotion on, the
population's. -/
theorem cut_population (hf : c.files.Siblings) (h : c.files.Saves d ds) (p : Population α)
    (hc : (p.routine o c).Cut d os e) : c.files.Turns ds (p.batch o c ds) os e := by
  cases p with
  | whole es => exact cut_storeAllIn hf h hc
  | streamed es =>
    refine CacheFiles.turns_of_bind hf h c.files.uses_clearWork hc fun _ m os hm hrest => ?_
    obtain ⟨m', hm', hbegun⟩ := CacheFiles.run_clearWork hf h
    obtain ⟨-, rfl⟩ := Prod.mk.inj (hm'.symm.trans hm)
    refine CacheFiles.turns_of_bind hf hbegun.saves (c.uses_storeEach _) hrest
      fun _ n os hn hpromote => ?_
    obtain ⟨n', hn', hholds⟩ := run_storeEach hf hbegun es
    obtain ⟨-, rfl⟩ := Prod.mk.inj (hn'.symm.trans hn)
    rw [List.nil_append] at hholds
    exact cut_promoteWorkFileIn hf hholds (fun a ha => (List.mem_filter.mp ha).2) hpromote

end EntityCache

/-! ## Openings -/

namespace Disk

variable {p : Path} {l : Place}

theorem cut_settleDirectory {x : OsError} (hc : (settleDirectory p x).Cut d os e) : e = d := by
  have hlook : ∀ {os : List Op} {e : Disk}, (look p).Cut d os e → e = d := by
    intro os e hc
    rcases hc.of_bind with hfirst | ⟨os', rfl, hrest⟩
    · cases hfirst with
      | here => rfl
      | step hnext => rw [(Routine.cut_done.mp hnext).2, perform_find]
    · rw [(Routine.cut_done.mp hrest).2]
      exact perform_find d p
  rcases hc.of_bind with hfirst | ⟨y, m, os', hy, rfl, hrest⟩
  · exact hlook hfirst.of_always
  · obtain rfl : m = d := (congrArg Prod.snd hy).symm.trans (perform_find d p)
    split at hrest
    · split at hrest
      · exact (Attempt.cut_pure.mp hrest).2
      · exact (Attempt.cut_fail.mp hrest).2
    · exact (Attempt.cut_fail.mp hrest).2

/-- A directory that is there is left as it is by every part of its making. -/
theorem cut_ensureDirectory (h : d.enter p = .ok l) (hc : (ensureDirectory p).Cut d os e) :
    e = d := by
  unfold ensureDirectory makeDirectories at hc
  split at hc
  · exact (Attempt.cut_pure.mp hc).2
  · next hp =>
    have hmake := perform_makeDirectory_of_enter (by simpa using hp) h
    have hcaught : ((makeDirectory p).caught : Attempt OsError _).run d =
        (.ok (.error .alreadyExists), d) := by
      have hmake' : (makeDirectory p).outcome.run d = (.error .alreadyExists, d) := hmake
      rw [Attempt.caught, Attempt.run_always, hmake']
    rcases hc.of_bind with hfirst | ⟨x, m, os', hx, rfl, hrest⟩
    · replace hfirst : (Routine.op (.makeDirectory p)).Cut d os e := hfirst.of_always
      cases hfirst with
      | here => rfl
      | step hnext => rw [(Routine.cut_done.mp hnext).2, hmake]
    · rw [hcaught] at hx
      cases hx
      exact cut_settleDirectory hrest

/-- A file to which nothing is added stays as it is. -/
theorem append_nothing {s : String} (hs : Path.Plain s) {b : ByteArray} {u : Instant}
    (h : d.view (p / ⟨s⟩) = .ok (.file b u)) :
    d.perform (.append (p / ⟨s⟩) .empty) = (.ok (), d) := by
  obtain ⟨l, hl, hn⟩ := (view_eq_file hs).mp h
  show d.onPlace _ _ = _
  rw [onPlace_join hs, hl]
  simp [appendFile, hn]

theorem append_ok {s : String} (hs : Path.Plain s) (hl : d.enter p = .ok l)
    (hd : d.NoDirectory (p / ⟨s⟩)) (bytes : ByteArray) :
    (d.perform (.append (p / ⟨s⟩) bytes)).1 = .ok () := by
  have hdir := (noDirectory_join hs hl).mp hd
  show (d.onPlace _ _).1 = _
  rw [onPlace_join hs, hl]
  show (d.appendFile _ _).1 = _
  unfold appendFile
  split
  · next u hu =>
    rw [isDirectoryAt_iff.mpr ⟨u, hu⟩] at hdir
    cases hdir
  · rfl
  · rfl

end Disk

namespace CacheFiles

variable {f : CacheFiles}

/-- What opening does to the files of a cache that is there. -/
theorem Saves.opening (hf : f.Siblings) (h : f.Saves d ds) :
    (∃ l, d.enter f.snapshot.parent = .ok l) ∧
      d.perform (.append f.snapshot .empty) = (.ok (), d) ∧
      (d.perform (.append f.work .empty)).1 = .ok () := by
  obtain ⟨⟨u, hu⟩, hno⟩ := h
  obtain ⟨dir, s, t, hs, ht, hst, rfl⟩ := hf.names
  obtain ⟨l, hl, -⟩ := (view_eq_file hs).mp hu
  exact ⟨⟨l, enter_parent hs hl⟩, append_nothing hs hu, append_ok ht hl hno _⟩

theorem cut_ensure (hf : f.Siblings) (h : f.Saves d ds) (hc : f.ensure.Cut d os e) :
    f.Saves e ds := by
  obtain ⟨⟨l, hl⟩, hsnapshot, -⟩ := h.opening hf
  have hdir : ((Disk.ensureDirectory f.snapshot.parent).because (.io f.snapshot.parent)).run d =
      ((.ok () : Except CacheError Unit), d) := Attempt.run_because_ok (run_ensureDirectory hl)
  have hrun : (Disk.appendBytes f.snapshot .empty).run d = (.ok (), d) := hsnapshot
  rcases hc.of_bind with hfirst | ⟨_, m, os', hm, rfl, hrest⟩
  · rwa [cut_ensureDirectory hl hfirst.of_because]
  · obtain rfl : m = d := (congrArg Prod.snd (hdir.symm.trans hm)).symm
    rcases hrest.of_bind with hfirst | ⟨_, n, os'', hn, rfl, hwork⟩
    · replace hfirst : (Routine.op (.append f.snapshot .empty)).Cut m os' e := hfirst.of_because
      cases hfirst with
      | here => exact h
      | @torn _ _ a b _ _ hbytes =>
        have hsize := congrArg ByteArray.size hbytes
        rw [ByteArray.size_append] at hsize
        obtain rfl : a = .empty := ByteArray.size_eq_zero_iff.mp (by simp at hsize; omega)
        rwa [hsnapshot]
      | step hnext => rwa [(Routine.cut_done.mp hnext).2, hsnapshot]
    · rw [Attempt.run_because_ok hrun] at hn
      obtain rfl : m = n := (Prod.mk.inj hn).2
      exact (h.of_work hf (f.uses_appendBytes .empty).because hwork).1

/-- To open a cache that is there makes its work file, if that is missing. -/
theorem run_ensure_again (hf : f.Siblings) (h : f.Saves d ds) :
    f.ensure.run d = (.ok (), (d.perform (.append f.work .empty)).2) := by
  obtain ⟨⟨l, hl⟩, hsnapshot, hwork⟩ := h.opening hf
  have hrun : (Disk.appendBytes f.snapshot .empty).run d = (.ok (), d) := hsnapshot
  rw [ensure, Attempt.run_bind_ok (Attempt.run_because_ok (run_ensureDirectory hl)),
    Attempt.run_bind_ok (Attempt.run_because_ok hrun)]
  exact Attempt.run_because_ok (Prod.ext hwork rfl)

end CacheFiles

namespace EntityCache

variable [PlainKind α] {dir : Path} {policy : CachePolicy}

/-- Where the opening of a cache that is there is cut, its snapshot is as it was. -/
theorem cut_openIn (h : (inDirectory α dir policy).files.Saves d ds)
    (hc : (openIn α dir policy).Cut d os e) : (inDirectory α dir policy).files.Saves e ds :=
  CacheFiles.cut_ensure (siblings_inDirectory α dir policy) h hc.of_bind_pure

theorem run_openIn_again (h : (inDirectory α dir policy).files.Saves d ds) :
    ∃ e, (openIn α dir policy).run d = (.ok (inDirectory α dir policy), e) :=
  ⟨_, Attempt.run_bind_ok (CacheFiles.run_ensure_again (siblings_inDirectory α dir policy) h)⟩

/-! ## What may have become of a cache -/

/-- What may be on the disk after a cache without records was opened in a directory on `d₀`, with
`ds` as the batch that was promoted last. Every population has a policy and a write order of its own,
and may be one of a new process. -/
inductive Leads (dir : Path) (brought : α → Prop) (d₀ : Disk) : List α → Disk → Prop where
  | opened : Leads dir brought d₀ [] d₀
  /-- A population that has not come as far as its promotion. -/
  | unpromoted {ds : List α} {d e : Disk} {p : Population α} {o : WriteOrder α}
    {policy : CachePolicy} {os : List Op} :
      Leads dir brought d₀ ds d → (∀ a ∈ p.entities, brought a) →
      (p.routine o (inDirectory α dir policy)).Cut d os e →
      (inDirectory α dir policy).files.promotion ∉ os → Leads dir brought d₀ ds e
  | promoted {ds : List α} {d e : Disk} {p : Population α} {o : WriteOrder α}
    {policy : CachePolicy} {os : List Op} :
      Leads dir brought d₀ ds d → (∀ a ∈ p.entities, brought a) →
      (p.routine o (inDirectory α dir policy)).Cut d os e →
      (inDirectory α dir policy).files.promotion ∈ os →
      Leads dir brought d₀ (p.batch o (inDirectory α dir policy) ds) e
  | reopened {ds : List α} {d e : Disk} {policy : CachePolicy} {os : List Op} :
      Leads dir brought d₀ ds d → (openIn α dir policy).Cut d os e → Leads dir brought d₀ ds e
  /-- Whatever happens to other files. -/
  | meanwhile {ds : List α} {d e : Disk} :
      Leads dir brought d₀ ds d → (CacheFiles.ofKind dir (Entity.kind α)).Untouched d e →
      Leads dir brought d₀ ds e

variable {brought : α → Prop} {d₀ : Disk}

/-- At every point the snapshot is the log of a batch, all of whose entities are accepted. -/
theorem Leads.saves (h : Leads dir brought d₀ ds d) (policy : CachePolicy)
    (h₀ : (inDirectory α dir policy).files.Saves d₀ ([] : List α)) :
    (inDirectory α dir policy).files.Saves d ds ∧ ∀ a ∈ ds, Record.Accepted a := by
  induction h with
  | opened => exact ⟨h₀, fun _ ha => nomatch ha⟩
  | @unpromoted ds d e p o policy' os _ _ hcut hp ih =>
    rcases cut_population (siblings_inDirectory α dir policy') ih.1 p hcut with ⟨-, hs⟩ | ⟨hp', -⟩
    · exact ⟨hs, ih.2⟩
    · exact absurd hp' hp
  | @promoted ds d e p o policy' os _ _ hcut hp ih =>
    rcases cut_population (siblings_inDirectory α dir policy') ih.1 p hcut with ⟨hp', -⟩ | ⟨-, hs⟩
    · exact absurd hp hp'
    · exact hs
  | @reopened ds d e policy' os _ hcut ih =>
    have hsaves : (inDirectory α dir policy').files.Saves e ds := cut_openIn ih.1 hcut
    exact ⟨hsaves, ih.2⟩
  | meanwhile _ hsame ih => exact ⟨hsame.saves ih.1, ih.2⟩

/-- What is true of every entity of a log is true of those that the log is read as. -/
def Rereads (P : α → Prop) : Prop :=
  ∀ es : List α, (∀ a ∈ es, Record.Accepted a ∧ P a) → ∀ b ∈ (Record.reread es).values, P b

variable {P : α → Prop}

omit [PlainKind α] in
/-- What is written for a population was read from the snapshot or is brought by it. -/
theorem of_mem_batch {c : EntityCache α} {o : WriteOrder α} {p : Population α} (hP : Rereads P)
    (hds : ∀ a ∈ ds, Record.Accepted a ∧ P a) (hp : ∀ a ∈ p.entities, Record.Accepted a → P a)
    {a : α} (ha : Record.Accepted a) (hmem : a ∈ p.batch o c ds) : P a := by
  have hmerged : ∀ {m : Keyed α}, (a ∈ m.values → P a) → a ∈ o.list (c.mergedWith ds m) → P a := by
    intro m hm hmem
    rw [(o.perm _).mem_iff, mergedWith] at hmem
    split at hmem
    · exact (Keyed.mem_values_overlay hmem).elim (hP ds hds a) hm
    · exact hm hmem
  cases p with
  | whole es => exact hmerged (fun hm => hp a (mem_of_mem_batchOf hm) ha) hmem
  | streamed es =>
    have haccepted : ∀ b ∈ es.filter fun b => Record.keyAllowed (Entity.key b),
        Record.Accepted b ∧ P b := by
      intro b hb
      obtain ⟨hmem, hb⟩ := List.mem_filter.mp hb
      exact ⟨hb, hp b hmem hb⟩
    simp only [Population.batch] at hmem
    split at hmem
    · exact hmerged (hP _ haccepted a) hmem
    · exact (haccepted a hmem).2

/-- What is true of all accepted entities that are brought is true of all that are stored. -/
theorem Leads.all (h : Leads dir brought d₀ ds d)
    (h₀ : (inDirectory α dir {}).files.Saves d₀ ([] : List α)) (hP : Rereads P)
    (hbrought : ∀ a, brought a → Record.Accepted a → P a) :
    ∀ a ∈ ds, Record.Accepted a ∧ P a := by
  induction h with
  | opened => exact fun _ ha => nomatch ha
  | unpromoted _ _ _ _ ih => exact ih
  | promoted hleads hp hcut hmem ih =>
    intro a ha
    have haccepted := ((hleads.promoted hp hcut hmem).saves {} h₀).2 a ha
    exact ⟨haccepted, of_mem_batch hP ih (fun b hb => hbrought b (hp b hb)) haccepted ha⟩
  | reopened _ _ ih => exact ih
  | meanwhile _ _ ih => exact ih

omit [PlainKind α] in
theorem rereads_readable : Rereads (Record.Readable (α := α)) := by
  intro es hes b hb
  rw [Record.reread_of_readable fun a ha => (hes a ha).2] at hb
  exact (hes b (mem_of_mem_batchOf hb)).2

/-- A batch of one accepted entity that is stored to its end is promoted. -/
theorem leads_single (h₀ : (inDirectory α dir {}).files.Saves d₀ ([] : List α)) {a : α}
    (hbrought : brought a) (ha : Record.Accepted a) : ∃ m, Leads dir brought d₀ [a] m := by
  have hf := siblings_inDirectory α dir {}
  have hwrites : ∀ b ∈ WriteOrder.ascending.list (batchOf [a]), Record.Accepted b := by
    intro b hb
    rw [List.mem_singleton.mp (mem_of_mem_batchOf hb)]
    exact ha
  obtain ⟨m, hm, -⟩ := CacheFiles.run_writeWork hf h₀ hwrites
  refine ⟨_, Leads.promoted .opened ?_
    ((Population.routine .ascending (inDirectory α dir {}) (.whole [a])).cut_run d₀) ?_⟩
  · intro b hb
    rwa [List.mem_singleton.mp hb]
  · refine (Attempt.operations_bind_ok hm).symm ▸ List.mem_append_right _ ?_
    exact List.mem_cons_self

/-- At every point of populations that come to an end or are broken off, and of restarts after them,
the snapshot is the log of one whole batch, the one that was promoted last: readers are given what
that log is read as, and the cache can be opened again. That is the batch itself, always, exactly
when each accepted entity that is brought reads back from its record. -/
theorem snapshot_whole_iff [LawfulEntity α] (brought : α → Prop) (dir : Path)
    (policy : CachePolicy) {l : Place} (henter : d.enter dir = .ok l)
    (hsnapshot : d.view (inDirectory α dir policy).files.snapshot = .error .notFound)
    (hwork : d.view (inDirectory α dir policy).files.work = .error .notFound) :
    (∃ e, (openIn α dir policy).run d = (.ok (inDirectory α dir policy), e) ∧
      (∀ ds m, Leads dir brought e ds m →
        (∃ u, m.view (inDirectory α dir policy).files.snapshot =
          .ok (.file (Record.logBytes ds) u)) ∧
        ((inDirectory α dir policy).files.readSnapshot α).run m = (.ok (Record.reread ds), m) ∧
        (ds ≠ [] → ∀ t, ((inDirectory α dir policy).get t).run m =
          ((.ok (Record.reread ds), t), m)) ∧
        ∃ m', (openIn α dir policy).run m = (.ok (inDirectory α dir policy), m') ∧
          Leads dir brought e ds m') ∧
      ((∀ ds m, Leads dir brought e ds m →
          ((inDirectory α dir policy).files.readSnapshot α).run m = (.ok (batchOf ds), m)) ↔
        ∀ a, brought a → Record.Accepted a → Record.Readable a)) ∧
    ∀ a : α, LawfulEntity.ReadsBack a → Record.Accepted a → Record.Readable a := by
  have hf := siblings_inDirectory α dir policy
  obtain ⟨e, hopen, hholds⟩ := run_openIn (α := α) henter hsnapshot hwork
  have hread : ∀ ds m, Leads dir brought e ds m →
      ((inDirectory α dir policy).files.readSnapshot α).run m = (.ok (Record.reread ds), m) :=
    fun ds m h => CacheFiles.run_readSnapshot hf (h.saves policy hholds.saves).1
  refine ⟨⟨e, hopen, fun ds m h => ?_, ?_⟩, fun a hback ha => Record.readable_of_readsBack ha hback⟩
  · obtain ⟨hsaves, -⟩ := h.saves policy hholds.saves
    obtain ⟨m', hm'⟩ := run_openIn_again hsaves
    have hcut := (openIn α dir policy).cut_run m
    rw [hm'] at hcut
    exact ⟨hsaves.snapshot, hread ds m h, fun hds t => run_get_durable hf hsaves hds t, m', hm',
      h.reopened hcut⟩
  · constructor
    · intro hall a hbrought ha
      obtain ⟨m, hm⟩ := leads_single hholds.saves hbrought ha
      have heq := (hread _ m hm).symm.trans (hall _ m hm)
      exact Except.ok.inj (Prod.mk.inj heq).1
    · intro hgood ds m h
      have hreadable := h.all hholds.saves rereads_readable hgood
      rw [hread ds m h, Record.reread_of_readable fun a ha => (hreadable a ha).2]

/-- Snapshots of units are read as what was written, and there are such that have records. -/
theorem snapshot_whole_units :
    ∃ e, (openIn UnitMapping ⟨""⟩ {}).run (.empty ⟨5⟩) = (.ok (inDirectory UnitMapping ⟨""⟩ {}), e) ∧
      (∀ ds m, Leads ⟨""⟩ (fun _ => True) e ds m →
        ((inDirectory UnitMapping ⟨""⟩ {}).files.readSnapshot UnitMapping).run m =
          (.ok (batchOf ds), m)) ∧
      ∃ a m, Leads (α := UnitMapping) ⟨""⟩ (fun _ => True) e [a] m := by
  obtain ⟨hs, ht, -⟩ := CacheFiles.names_ofKind (PlainKind.no_slash (α := UnitMapping))
  have hsnapshot := view_join hs (.empty ⟨5⟩) ⟨""⟩
  have hwork := view_join ht (.empty ⟨5⟩) ⟨""⟩
  obtain ⟨⟨e, hopen, -, hiff⟩, hread⟩ := snapshot_whole_iff (α := UnitMapping) (fun _ => True) ⟨""⟩ {}
    (l := []) rfl hsnapshot hwork
  refine ⟨e, hopen, hiff.mpr fun a _ ha => hread a trivial ha, ⟨"depth", "metre"⟩, ?_⟩
  obtain ⟨e', hopen', hholds⟩ := run_openIn_empty (α := UnitMapping) {} ⟨5⟩
  obtain ⟨-, rfl⟩ := Prod.mk.inj (hopen.symm.trans hopen')
  exact leads_single hholds.saves trivial (by decide)

/-- An offering whose coordinates come back as their neighbours is promoted, and its snapshot is read
as another offering. -/
theorem reread_of_drifting_snapshot :
    ∃ (o : Offering) (e m : Disk),
      (openIn Offering ⟨""⟩ {}).run (.empty ⟨5⟩) = (.ok (inDirectory Offering ⟨""⟩ {}), e) ∧
      Leads ⟨""⟩ (· = o) e [o] m ∧
      ((inDirectory Offering ⟨""⟩ {}).files.readSnapshot Offering).run m ≠
        (.ok (batchOf [o]), m) := by
  let x : Double := ⟨false, 8521123904911463, 83, by decide, by decide, by decide, .inl (by decide)⟩
  let o : Offering := ⟨"o", none, [], .empty, [], none, some ⟨4326, ⟨x, x⟩, ⟨x, x⟩, by decide⟩⟩
  have hdrifts : Record.reread [o] ≠ batchOf [o] := by decide +kernel
  obtain ⟨e, hopen, hholds⟩ := run_openIn_empty (α := Offering) {} ⟨5⟩
  obtain ⟨m, hm⟩ : ∃ m, Leads ⟨""⟩ (· = o) e [o] m := leads_single hholds.saves rfl (by decide)
  refine ⟨o, e, m, hopen, hm, fun hread => hdrifts ?_⟩
  have hread' := CacheFiles.run_readSnapshot (siblings_inDirectory Offering ⟨""⟩ {})
    (hm.saves {} hholds.saves).1
  exact Except.ok.inj (Prod.mk.inj (hread'.symm.trans hread)).1

end EntityCache

end SensorCache
