import SensorCache.Proofs.Source.Calls
import SensorCache.Proofs.Source.Deliveries

/-!
# Producers

The call of a source that delivers into a cache may go on when nobody waits for it any more. A
`Producer` is such a call as far as it has come: for each entity it asks whether its population has
to stop, stores the entity and asks again, and others may act between any two of these steps. One
that is left alone comes to where the call comes that is run at once (`alone_of_run`).

A producer whose population was stopped stores nothing more but the entity that it was about to
store (`stopped_of_step`).
-/

namespace SensorCache

open Disk

variable {α : Type} {d e m : Disk} {ds ws : List α}

/-- How far the call of a producer has come. -/
inductive Producer (α : Type) where
  /-- This is left of it. -/
  | calls (next : SourceCall α Unit)
  /-- It was told to go on, and is about to store `a`. -/
  | stores (a : α) (next : Bool → SourceCall α Unit)
  /-- It has stored an entity, and is about to ask whether to go on. -/
  | asks (next : Bool → SourceCall α Unit)
  | finished (r : CallEnd Unit)

namespace Producer

/-- What is left of the call keeps `R`. -/
def Keeps (R : Disk → Disk → Prop) : Producer α → Prop
  | .calls next => next.Keeps R
  | .stores _ next => ∀ b, (next b).Keeps R
  | .asks next => ∀ b, (next b).Keeps R
  | .finished _ => True

variable [Entity α] {c : EntityCache α} {p q : Producer α} {x y : Sink × JobHandle}

/-- The next step. A call that hangs has come to its end. -/
def step (c : EntityCache α) :
    Producer α → Sink × JobHandle → Routine (Producer α × Sink × JobHandle)
  | .calls (.returns r), x => return (.finished (.returned r), x)
  | .calls .crashes, x => return (.finished .crashed, x)
  | .calls .hangs, x => return (.finished .hung, x)
  | .calls (.interrupts next), (s, j) => return (.calls next, s, j.interrupt)
  | .calls (.performs o next), x => .step o fun a => .done (.calls (next a), x)
  | .calls (.announces n next), (s, j) => return (.calls next, s.expect n, j)
  | .calls (.delivers a next), (s, j) =>
    if s.isStopped j then return (.calls (next false), s, j) else return (.stores a next, s, j)
  | .stores a next, (s, j) => do
    match ← (c.storeOne a).outcome with
    | .error x => return (.calls (next false), { s with failure := some x }, j)
    | .ok _ => return (.asks next, s.count, j.recordProgress (← Disk.now))
  | .asks next, (s, j) => return (.calls (next !(s.isStopped j)), s, j)
  | .finished r, x => return (.finished r, x)

/-- What the next step adds to the work file. -/
def writes : Producer α → List α
  | .stores a _ => if Record.keyAllowed (Entity.key a) then [a] else []
  | _ => []

theorem accepted_of_mem_writes {a : α} (h : a ∈ p.writes) : Record.Accepted a := by
  cases p with
  | stores b next =>
    simp only [writes] at h
    split at h
    · next hb => rwa [List.mem_singleton.mp h]
    · cases h
  | _ => cases h

/-! ## One step -/

theorem run_step_delivers (a : α) (next : Bool → SourceCall α Unit) (s : Sink) (j : JobHandle) :
    (step c (.calls (.delivers a next)) (s, j)).run d =
      ((if s.isStopped j then .calls (next false) else .stores a next, s, j), d) := by
  cases h : s.isStopped j <;> simp [step, h]

theorem run_step_stores_ok {a : α} (h : (c.files.appendWork a).run d = (.ok (), e))
    (next : Bool → SourceCall α Unit) (s : Sink) (j : JobHandle) :
    (step c (.stores a next) (s, j)).run d =
      ((.asks next, s.count, j.recordProgress e.clock), e) := by
  have hstore : (c.storeOne a).outcome.run d = (.ok (), e) := h
  rw [step, Routine.run_bind, hstore]
  rfl

theorem run_step_stores_error {a : α} {z : CacheError}
    (h : (c.files.appendWork a).run d = (.error z, e)) (next : Bool → SourceCall α Unit) (s : Sink)
    (j : JobHandle) :
    (step c (.stores a next) (s, j)).run d =
      ((.calls (next false), { s with failure := some z }, j), e) := by
  have hstore : (c.storeOne a).outcome.run d = (.error z, e) := h
  rw [step, Routine.run_bind, hstore]
  rfl

/-- What a step leaves of the call keeps what the call did. -/
theorem Keeps.step {R : Disk → Disk → Prop} (h : p.Keeps R)
    (hr : (p.step c x).run d = ((q, y), e)) : q.Keeps R := by
  obtain ⟨s, j⟩ := x
  cases p with
  | finished r =>
    cases hr
    trivial
  | asks next =>
    cases hr
    exact h _
  | stores a next =>
    rcases ha : (c.files.appendWork a).run d with ⟨z | _, m⟩
    · rw [run_step_stores_error ha] at hr
      cases hr
      exact h false
    · rw [run_step_stores_ok ha] at hr
      cases hr
      exact h
  | calls next =>
    cases next with
    | returns | crashes | hangs =>
      cases hr
      trivial
    | interrupts next =>
      cases hr
      exact h
    | performs o next =>
      cases hr
      exact h.2 _
    | announces n next =>
      cases hr
      exact h
    | delivers a next =>
      rw [run_step_delivers] at hr
      cases hr
      split
      · exact h false
      · exact h

/-- A step adds to the work file what it writes, and does nothing else to the files. -/
theorem holds_of_step (hf : c.files.Siblings) (hp : p.Keeps c.files.Untouched)
    (h : c.files.Holds d ds ws) (hr : (p.step c x).run d = ((q, y), e)) :
    c.files.Holds e ds (ws ++ p.writes) := by
  obtain ⟨s, j⟩ := x
  have hsame : ∀ {n}, n = d → c.files.Holds n ds (ws ++ []) := by
    rintro n rfl
    rwa [List.append_nil]
  cases p with
  | finished r =>
    cases hr
    exact hsame rfl
  | asks next =>
    cases hr
    exact hsame rfl
  | stores a next =>
    by_cases ha : Record.keyAllowed (Entity.key a) = true
    · obtain ⟨m, hm, hholds⟩ := CacheFiles.run_appendWork hf h ha
      rw [run_step_stores_ok hm] at hr
      obtain ⟨-, rfl⟩ := Prod.mk.inj hr
      simpa [writes, ha] using hholds
    · have hm := CacheFiles.run_appendWork_error (f := c.files) (Bool.eq_false_iff.mpr ha) d
      rw [run_step_stores_error hm] at hr
      obtain ⟨-, rfl⟩ := Prod.mk.inj hr
      simpa [writes, ha] using h
  | calls next =>
    cases next with
    | performs o next =>
      obtain ⟨-, rfl⟩ := Prod.mk.inj hr
      show c.files.Holds (d.perform o).2 ds (ws ++ [])
      rw [List.append_nil]
      exact (hp.1 d).holds h
    | delivers a next =>
      rw [run_step_delivers] at hr
      cases hr
      exact hsame rfl
    | _ =>
      cases hr
      exact hsame rfl

/-- A population that was stopped stays so, and nothing is about to be stored after the next
step. -/
theorem stopped_of_step (hx : x.1.isStopped x.2 = true) (hr : (p.step c x).run d = ((q, y), e)) :
    y.1.isStopped y.2 = true ∧ q.writes = [] := by
  obtain ⟨s, j⟩ := x
  cases p with
  | finished r =>
    cases hr
    exact ⟨hx, rfl⟩
  | asks next =>
    cases hr
    exact ⟨hx, rfl⟩
  | stores a next =>
    rcases ha : (c.files.appendWork a).run d with ⟨z | _, m⟩
    · rw [run_step_stores_error ha] at hr
      cases hr
      exact ⟨hx, rfl⟩
    · rw [run_step_stores_ok ha] at hr
      cases hr
      exact ⟨hx, rfl⟩
  | calls next =>
    cases next with
    | interrupts next =>
      cases hr
      exact ⟨Bool.or_true _, rfl⟩
    | delivers a next =>
      rw [run_step_delivers, if_pos hx] at hr
      cases hr
      exact ⟨hx, rfl⟩
    | _ =>
      cases hr
      exact ⟨hx, rfl⟩

/-! ## A producer that is left alone -/

/-- A producer makes step after step, and nobody else acts. `ws` is what it writes. -/
inductive Alone (c : EntityCache α) : Producer α × Sink × JobHandle → Disk → List α →
    Producer α × Sink × JobHandle → Disk → Prop where
  | here (z : Producer α × Sink × JobHandle) (d : Disk) : Alone c z d [] z d
  | step {p : Producer α} {x : Sink × JobHandle} {y z : Producer α × Sink × JobHandle}
    {d m e : Disk} {ws : List α} : (p.step c x).run d = (y, m) → Alone c y m ws z e →
      Alone c (p, x) d (p.writes ++ ws) z e

variable {a b z : Producer α × Sink × JobHandle} {vs : List α}

theorem Alone.single {p : Producer α} (h : (p.step c x).run d = (z, e)) :
    Alone c (p, x) d p.writes z e := by
  simpa using Alone.step h (.here z e)

theorem Alone.trans (hab : Alone c a d vs b m) (hbz : Alone c b m ws z e) :
    Alone c a d (vs ++ ws) z e := by
  induction hab with
  | here => exact hbz
  | step hstep _ ih =>
    rw [List.append_assoc]
    exact .step hstep (ih hbz)

/-- An entity that is delivered is one that was asked for, stored and asked about again. -/
theorem alone_of_item {a : α} {next : Bool → SourceCall α Unit} {s t : Sink} {j k : JobHandle}
    {b : Bool} (h : (Sink.item c a s j).run d = ((b, t, k), e)) :
    ∃ ws, ws ⊆ [a] ∧ Alone c (.calls (.delivers a next), s, j) d ws (.calls (next b), t, k) e := by
  have hasked := run_step_delivers (c := c) (d := d) a next s j
  have hwrites : (stores a next).writes ⊆ [a] := by
    simp only [writes]
    split
    · exact List.Subset.refl _
    · exact List.nil_subset _
  rw [Sink.item, Routine.run_bind, Sink.deliver] at h
  cases hs : s.isStopped j with
  | true =>
    rw [hs, if_pos rfl] at h hasked
    cases h
    exact ⟨_, List.nil_subset _, .single hasked⟩
  | false =>
    rw [hs, if_neg (by decide)] at h hasked
    rcases ha : (c.files.appendWork a).run d with ⟨z | _, m⟩
    · have hstore : (c.storeOne a).outcome.run d = (.error z, m) := ha
      rw [Routine.run_bind, hstore] at h
      cases h
      refine ⟨_, ?_, .step hasked (.single (run_step_stores_error ha next s j))⟩
      exact List.append_subset.mpr ⟨List.nil_subset _, hwrites⟩
    · have hstore : (c.storeOne a).outcome.run d = (.ok (), m) := ha
      rw [Routine.run_bind, hstore] at h
      cases h
      refine ⟨_, ?_, .step hasked (.step (run_step_stores_ok ha next s j) (.single rfl))⟩
      exact List.append_subset.mpr ⟨List.nil_subset _,
        List.append_subset.mpr ⟨hwrites, List.nil_subset _⟩⟩

/-- A producer that is left alone ends as the call that is run. -/
theorem alone_of_run {call : SourceCall α Unit} {r : CallEnd Unit}
    (h : (call.run (.ofSink c) x).run d = ((r, y), e)) :
    ∃ ws, Alone c (.calls call, x) d ws (.finished r, y) e := by
  induction call generalizing x d with
  | returns | crashes | hangs =>
    cases h
    exact ⟨_, .single rfl⟩
  | interrupts next ih =>
    obtain ⟨ws, hrest⟩ := ih h
    exact ⟨_, .step rfl hrest⟩
  | performs o next ih =>
    obtain ⟨ws, hrest⟩ := ih _ h
    exact ⟨_, .step rfl hrest⟩
  | announces n next ih =>
    obtain ⟨ws, hrest⟩ := ih h
    exact ⟨_, .step rfl hrest⟩
  | delivers a next ih =>
    rcases ha : (Sink.item c a x.1 x.2).run d with ⟨⟨b, z⟩, m⟩
    rw [SourceCall.run_delivers (h := Receiver.ofSink c) ha] at h
    obtain ⟨vs, -, hitem⟩ := alone_of_item ha
    obtain ⟨ws, hrest⟩ := ih b h
    exact ⟨_, hitem.trans hrest⟩

end Producer

end SensorCache
