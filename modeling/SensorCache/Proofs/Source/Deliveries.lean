import SensorCache.Proofs.Cache.Refinement
import SensorCache.Source.Basic

/-!
# What deliveries leave in the work file

A call of a source that delivers into a cache leaves the log of the entities it delivered behind
that of those before, up to the first that is refused; of that one the sink keeps the refusal. A
fetch that is made part of such a call goes as it goes by itself.
-/

namespace SensorCache

open Disk

variable {α β ρ τ : Type} {d e m : Disk}

namespace SourceCall

/-! ## Running one call after another -/

section Sequences

variable {h : Receiver α τ} {c : SourceCall α ρ} {f : ρ → SourceCall α β} {x y : τ}

theorem run_delivers {a : α} {next : Bool → SourceCall α ρ} {b : Bool}
    (ha : (h.accept a x).run d = ((b, y), e)) :
    ((delivers a next).run h x).run d = ((next b).run h y).run e := by
  have hstep := Routine.run_bind (h.accept a x) (fun z => (next z.1).run h z.2) d
  rw [ha] at hstep
  exact hstep

theorem run_bind_ok {a : ρ} (hc : (c.run h x).run d = ((.returned (.ok a), y), e)) :
    ((c.bind f).run h x).run d = ((f a).run h y).run e := by
  induction c generalizing x d with
  | returns r =>
    cases hc
    rfl
  | crashes => cases hc
  | hangs => cases hc
  | interrupts next ih => exact ih hc
  | performs o next ih => exact ih _ hc
  | announces n next ih => exact ih hc
  | delivers a next ih =>
    rcases ha : (h.accept a x).run d with ⟨⟨b, z⟩, m⟩
    rw [run_delivers ha] at hc
    show ((delivers a fun b => (next b).bind f).run h x).run d = _
    rw [run_delivers ha]
    exact ih b hc

theorem run_bind_error {z : SourceError}
    (hc : (c.run h x).run d = ((.returned (.error z), y), e)) :
    ((c.bind f).run h x).run d = ((.returned (.error z), y), e) := by
  induction c generalizing x d with
  | returns r =>
    cases hc
    rfl
  | crashes => cases hc
  | hangs => cases hc
  | interrupts next ih => exact ih hc
  | performs o next ih => exact ih _ hc
  | announces n next ih => exact ih hc
  | delivers a next ih =>
    rcases ha : (h.accept a x).run d with ⟨⟨b, z⟩, m⟩
    rw [run_delivers ha] at hc
    show ((delivers a fun b => (next b).bind f).run h x).run d = _
    rw [run_delivers ha]
    exact ih b hc

end Sequences

/-! ## Fetches -/

/-- On the disk `d` the call returns `r`, leaves the disk `e` and does not interrupt its job. -/
def Fetches (c : SourceCall Empty ρ) (d : Disk) (r : Except SourceError ρ) (e : Disk) : Prop :=
  ∀ j, (c.run .ofJob j).run d = ((.returned r, j), e)

theorem fetches_returns (r : Except SourceError ρ) (d : Disk) :
    (returns r : SourceCall Empty ρ).Fetches d r d := fun _ => rfl

end SourceCall

/-- A population that nothing has stopped so far. -/
structure Sink.Open (s : Sink) : Prop where
  running : s.stopped = false
  unfailed : s.failure = none

variable [Entity α] {c : EntityCache α} {s : Sink} {j : JobHandle} {ds ws es : List α}

namespace SourceCall

/-- A fetch that returns does so in a call that delivers, too. -/
theorem run_silent {fetch : SourceCall Empty ρ} {r : Except SourceError ρ} {k : JobHandle}
    (hs : s.Open) (h : (fetch.run .ofJob j).run d = ((.returned r, k), e)) :
    ∃ s' : Sink, s'.Open ∧ ((fetch.silent : SourceCall α ρ).run (.ofSink c) (s, j)).run d =
      ((.returned r, (s', k)), e) := by
  induction fetch generalizing s j d with
  | returns x =>
    cases h
    exact ⟨s, hs, rfl⟩
  | crashes => cases h
  | hangs => cases h
  | interrupts next ih => exact ih hs h
  | performs o next ih => exact ih _ hs h
  | announces n next ih => exact ih (s := s.expect n) ⟨hs.running, hs.unfailed⟩ h
  | delivers a => exact a.elim

end SourceCall

/-! ## One entity -/

namespace Sink

theorem isStopped_eq_false (hs : s.stopped = false) (hj : j.interrupted = false) :
    s.isStopped j = false := by simp [isStopped, hs, hj]

theorem run_item (hf : c.files.Siblings) (h : c.files.Holds d ds ws) {a : α}
    (ha : Record.Accepted a) :
    ∃ e, c.files.Holds e ds (ws ++ [a]) ∧ ∀ {s : Sink} {j : JobHandle}, s.Open →
      j.interrupted = false →
      ∃ k, k.interrupted = false ∧ (item c a s j).run d = ((true, s.count, k), e) := by
  obtain ⟨e, he, hholds⟩ := CacheFiles.run_appendWork hf h ha
  refine ⟨e, hholds, fun {s j} hs hj => ⟨j.recordProgress e.clock, hj, ?_⟩⟩
  have hstore : (c.storeOne a).outcome.run d = (.ok (), e) := he
  have hdeliver : (deliver c a s j).run d = ((true, s.count, j.recordProgress e.clock), e) := by
    rw [deliver, if_neg (by simp [isStopped_eq_false hs.running hj]), Routine.run_bind, hstore]
    rfl
  rw [item, Routine.run_bind, hdeliver]
  simp [isStopped, count, JobHandle.recordProgress, hs.running, hj]

/-- The refusal of an entity stops the population. -/
theorem run_item_refused (hs : s.Open) (hj : j.interrupted = false) {a : α}
    (ha : ¬Record.Accepted a) (d : Disk) :
    (item c a s j).run d =
      ((false, { s with failure := some (.codec (Record.refusal (Entity.key a))) }, j), d) := by
  have hstore : (c.storeOne a).outcome.run d =
      (.error (.codec (Record.refusal (Entity.key a))), d) :=
    CacheFiles.run_appendWork_error (Bool.eq_false_iff.mpr ha) d
  have hdeliver : (deliver c a s j).run d =
      ((false, { s with failure := some (.codec (Record.refusal (Entity.key a))) }, j), d) := by
    rw [deliver, if_neg (by simp [isStopped_eq_false hs.running hj]), Routine.run_bind, hstore]
    rfl
  rw [item, Routine.run_bind, hdeliver]
  rfl

end Sink

/-! ## Many entities -/

namespace SourceCall

theorem run_deliver {a : α} {t : Sink} {k : JobHandle} {b : Bool}
    (h : (Sink.item c a s j).run d = ((b, t, k), e)) :
    ((deliver a).run (.ofSink c) (s, j)).run d =
      ((.returned (if b then .ok () else .error .cancelled), (t, k)), e) := by
  refine (run_delivers h).trans ?_
  cases b <;> rfl

theorem run_deliverEach (hf : c.files.Siblings) (h : c.files.Holds d ds ws)
    (hes : ∀ a ∈ es, Record.Accepted a) :
    ∃ e, c.files.Holds e ds (ws ++ es) ∧ ∀ {s : Sink} {j : JobHandle}, s.Open →
      j.interrupted = false → ∃ t k, t.Open ∧ k.interrupted = false ∧
        ((deliverEach es).run (.ofSink c) (s, j)).run d = ((.returned (.ok ()), (t, k)), e) := by
  induction es generalizing d ws with
  | nil => exact ⟨d, by simpa using h, fun {s j} hs hj => ⟨s, j, hs, hj, rfl⟩⟩
  | cons a es ih =>
    obtain ⟨m, hm, hitem⟩ := Sink.run_item hf h (hes a List.mem_cons_self)
    obtain ⟨e, he, hrest⟩ := ih hm fun b hb => hes b (List.mem_cons_of_mem a hb)
    refine ⟨e, by simpa using he, fun {s j} hs hj => ?_⟩
    obtain ⟨k, hk, ha⟩ := hitem hs hj
    obtain ⟨t, k', ht, hk', hrun⟩ := hrest (s := s.count) ⟨hs.running, hs.unfailed⟩ hk
    exact ⟨t, k', ht, hk', (run_bind_ok (run_deliver ha)).trans hrun⟩

/-- An entity that is refused ends the call, with those before it in the work file. -/
theorem run_deliverEach_refused (hf : c.files.Siblings) (h : c.files.Holds d ds ws)
    {kept : List α} {a : α} (rest : List α) (hkept : ∀ b ∈ kept, Record.Accepted b)
    (ha : ¬Record.Accepted a) :
    ∃ e, c.files.Holds e ds (ws ++ kept) ∧ ∀ {s : Sink} {j : JobHandle}, s.Open →
      j.interrupted = false → ∃ t k,
        t.failure = some (.codec (Record.refusal (Entity.key a))) ∧ k.interrupted = false ∧
        ((deliverEach (kept ++ a :: rest)).run (.ofSink c) (s, j)).run d =
          ((.returned (.error .cancelled), (t, k)), e) := by
  induction kept generalizing d ws with
  | nil =>
    refine ⟨d, by simpa using h, fun {s j} hs hj => ?_⟩
    have hitem := Sink.run_item_refused (c := c) hs hj ha d
    exact ⟨_, j, rfl, hj, run_bind_error (run_deliver hitem)⟩
  | cons b kept ih =>
    obtain ⟨m, hm, hitem⟩ := Sink.run_item hf h (hkept b List.mem_cons_self)
    obtain ⟨e, he, hrest⟩ := ih hm fun x hx => hkept x (List.mem_cons_of_mem b hx)
    refine ⟨e, by simpa using he, fun {s j} hs hj => ?_⟩
    obtain ⟨k, hk, hb⟩ := hitem hs hj
    obtain ⟨t, k', ht, hk', hrun⟩ := hrest (s := s.count) ⟨hs.running, hs.unfailed⟩ hk
    exact ⟨t, k', ht, hk', (run_bind_ok (run_deliver hb)).trans hrun⟩

/-! ## Fetches that deliver -/

/-- What was fetched is delivered one by one. -/
theorem run_ofFetch (streams : Bool) {fetch : SourceCall Empty (List α)}
    (h : fetch.Fetches d (.ok es) m) (hs : s.Open) (j : JobHandle) :
    ∃ t : Sink, t.Open ∧ ((Source.ofFetch streams fetch).stream.run (.ofSink c) (s, j)).run d =
      ((deliverEach es).run (.ofSink c) (t, j)).run m := by
  obtain ⟨t, ht, hfetch⟩ := run_silent (c := c) hs (h j)
  exact ⟨t.expect es.length, ⟨ht.running, ht.unfailed⟩, run_bind_ok hfetch⟩

end SourceCall

end SensorCache
