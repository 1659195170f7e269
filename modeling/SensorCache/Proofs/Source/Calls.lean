import SensorCache.Proofs.Disk.Interference
import SensorCache.Source.Export
import SensorCache.Source.Script

/-!
# What calls of sources leave alone, and what is noted of them

A call of a source keeps a relation between disks if its own operations do (`SourceCall.Keeps`); the
hearer's are added when the call is run. Scripted sources and exports only look at the disk, so they
keep everything. `Receiver.noting` is a hearer that writes down what it answers to each entity; it
changes nothing else (`run_noting`). What a sink does with an entity is one of three things
(`Sink.delivers_of_ends`).
-/

namespace SensorCache

variable {α ρ σ τ ε : Type} {R : Disk → Disk → Prop}

namespace SourceCall

/-- Each operation that the call may come to by itself keeps `R`, on any disk. -/
def Keeps (R : Disk → Disk → Prop) : SourceCall α ρ → Prop
  | .returns _ => True
  | .crashes => True
  | .hangs => True
  | .interrupts next => next.Keeps R
  | .performs o next => (∀ d, R d (d.perform o).2) ∧ ∀ x, (next x).Keeps R
  | .announces _ next => next.Keeps R
  | .delivers _ next => ∀ b, (next b).Keeps R

theorem Keeps.bind {c : SourceCall α ρ} {f : ρ → SourceCall α σ} (hc : c.Keeps R)
    (hf : ∀ r, (f r).Keeps R) : (c.bind f).Keeps R := by
  induction c with
  | returns r =>
    cases r with
    | ok a => exact hf a
    | error e => trivial
  | crashes => trivial
  | hangs => trivial
  | interrupts next ih => exact ih hc
  | performs o next ih => exact ⟨hc.1, fun x => ih x (hc.2 x)⟩
  | announces n next ih => exact ih hc
  | delivers e next ih => exact fun b => ih b (hc b)

theorem Keeps.silent {c : SourceCall Empty ρ} (hc : c.Keeps R) :
    (c.silent : SourceCall α ρ).Keeps R := by
  induction c with
  | returns r => trivial
  | crashes => trivial
  | hangs => trivial
  | interrupts next ih => exact ih hc
  | performs o next ih => exact ⟨hc.1, fun x => ih x (hc.2 x)⟩
  | announces n next ih => exact ih hc
  | delivers e next => exact e.elim

/-- A call keeps what its own operations and those of its hearer keep. -/
theorem Keeps.run {h : Receiver α τ} (hh : ∀ a t, (h.accept a t).Keeps R) {c : SourceCall α ρ}
    (hc : c.Keeps R) (t : τ) : (c.run h t).Keeps R := by
  induction c generalizing t with
  | returns r => trivial
  | crashes => trivial
  | hangs => trivial
  | interrupts next ih => exact ih hc _
  | performs o next ih => exact ⟨hc.1, fun x => ih x (hc.2 x) t⟩
  | announces n next ih => exact ih hc _
  | delivers e next ih => exact (hh e t).bind fun x => ih x.1 (hc x.1) x.2

theorem keeps_ofRoutine {r : Routine ρ} (hr : r.Keeps R) :
    (ofRoutine r : SourceCall α ρ).Keeps R := by
  induction r with
  | done a => trivial
  | step o next ih => exact ⟨hr.1, fun x => ih x (hr.2 x)⟩

theorem keeps_ofAttempt {cause : ε → SourceError} {r : Attempt ε ρ} (hr : r.Keeps R) :
    (ofAttempt cause r : SourceCall α ρ).Keeps R :=
  (keeps_ofRoutine hr).bind fun x => by cases x <;> trivial

theorem keeps_deliver (a : α) : (deliver a).Keeps R := by
  intro b
  cases b <;> trivial

theorem keeps_deliverEach : ∀ as : List α, (deliverEach as).Keeps R
  | [] => trivial
  | a :: as => (keeps_deliver a).bind fun _ => keeps_deliverEach as

end SourceCall

/-- However it is asked, the source keeps `R`. -/
structure Source.Keeps (R : Disk → Disk → Prop) (s : Source α) : Prop where
  fetch : s.fetch.Keeps R
  stream : s.stream.Keeps R

theorem Source.Keeps.ofFetch {streams : Bool} {fetch : SourceCall Empty (List α)}
    (h : fetch.Keeps R) : (Source.ofFetch streams fetch).Keeps R :=
  ⟨h, h.silent.bind fun as => SourceCall.keeps_deliverEach as⟩

/-! ## Scripts -/

namespace Act

theorem keeps_fetch : ∀ (script : List (Act α)) (fetched : List α), (fetch script fetched).Keeps R
  | [], _ => trivial
  | .expects _ :: r, fetched => keeps_fetch r fetched
  | .delivers as _ :: r, fetched => keeps_fetch r (fetched ++ as)
  | .interrupts :: r, fetched => keeps_fetch r fetched
  | .fails _ :: _, _ => trivial
  | .crashes :: _, _ => trivial
  | .hangs :: _, _ => trivial

theorem keeps_deliverRegardless {next : SourceCall α Unit} (h : next.Keeps R) :
    ∀ as : List α, (deliverRegardless next as).Keeps R
  | [] => h
  | _ :: as => fun _ => keeps_deliverRegardless h as

theorem keeps_stream : ∀ script : List (Act α), (stream script).Keeps R
  | [] => trivial
  | .expects _ :: r => keeps_stream r
  | .delivers as true :: r => keeps_deliverRegardless (keeps_stream r) as
  | .delivers as false :: r => (SourceCall.keeps_deliverEach as).bind fun _ => keeps_stream r
  | .interrupts :: r => keeps_stream r
  | .fails _ :: _ => trivial
  | .crashes :: _ => trivial
  | .hangs :: _ => trivial

end Act

theorem Source.keeps_ofScript (streams : Bool) (script : List (Act α)) :
    (Source.ofScript streams script).Keeps R :=
  ⟨Act.keeps_fetch script [], Act.keeps_stream script⟩

/-! ## Exports -/

namespace ExportDirectory

variable (hrefl : ∀ d, R d d) (x : ExportDirectory)
include hrefl

theorem keeps_readBytes (p : Path) : (Disk.readBytes p).Keeps R :=
  Routine.keeps_op fun d => by rw [Disk.perform_read]; exact hrefl d

theorem keeps_unitMappings : x.unitMappings.Keeps R := by
  refine .ofFetch ((SourceCall.keeps_ofAttempt ?_).bind fun s => ?_)
  · exact (keeps_readBytes hrefl _).bind fun _ => by split <;> trivial
  · split <;> trivial

theorem keeps_readOfferings : (x.readOfferings : SourceCall α (List UInt8)).Keeps R := by
  have hstat : (Disk.stat (x.path / ⟨offeringsFile⟩)).Keeps R :=
    Routine.keeps_op fun d => by rw [Disk.perform_find]; exact hrefl d
  refine (SourceCall.keeps_ofAttempt hstat).bind fun _ => ?_
  exact (SourceCall.keeps_ofAttempt (keeps_readBytes hrefl _)).bind fun _ => trivial

omit hrefl in
theorem keeps_eachOffering (p : Path) : ∀ (n : Nat) (ls : List (List UInt8)),
    (eachOffering p SourceCall.deliver n ls).Keeps R
  | _, [] => trivial
  | n, l :: ls => by
    unfold eachOffering
    split
    · trivial
    · exact keeps_eachOffering p (n + 1) ls
    · exact (SourceCall.keeps_deliver _).bind fun _ => keeps_eachOffering p (n + 1) ls

theorem keeps_offerings : x.offerings.Keeps R := by
  refine ⟨(keeps_readOfferings hrefl x).bind fun _ => trivial, ?_⟩
  refine (keeps_readOfferings hrefl x).bind fun _ => ?_
  refine SourceCall.Keeps.bind (c := .returns _) trivial fun _ => ?_
  refine SourceCall.Keeps.bind (c := .announce _) trivial fun _ => ?_
  exact (keeps_readOfferings hrefl x).bind fun _ => keeps_eachOffering _ _ _

end ExportDirectory

/-! ## Noting answers -/

/-- A hearer that writes down which entities it was told of, and whether it took them. -/
def Receiver.noting (h : Receiver α τ) : Receiver α (τ × List (α × Bool)) :=
  ⟨fun (t, noted) => (h.interrupt t, noted), fun n (t, noted) => (h.announce n t, noted),
    fun a (t, noted) => do
      let (taken, t) ← h.accept a t
      return (taken, t, noted ++ [(a, taken)])⟩

namespace SourceCall

/-- What is noted besides leaves a call as it is. -/
theorem run_noting (h : Receiver α τ) (c : SourceCall α ρ) (t : τ) (noted : List (α × Bool)) :
    (c.run h.noting (t, noted)).bind (fun x => .done (x.1, x.2.1)) = c.run h t := by
  induction c generalizing t noted with
  | returns r => rfl
  | crashes => rfl
  | hangs => rfl
  | interrupts next ih => exact ih _ _
  | performs o next ih =>
    show Routine.step o _ = Routine.step o _
    congr 1
    funext x
    exact ih x t noted
  | announces n next ih => exact ih _ _
  | delivers a next ih =>
    show Routine.bind (Routine.bind (Routine.bind (h.accept a t) _) _) _ =
      Routine.bind (h.accept a t) _
    induction h.accept a t with
    | done x => exact ih x.1 x.2 _
    | step o rest ihr =>
      show Routine.step o _ = Routine.step o _
      congr 1
      funext x
      exact ihr x

end SourceCall

/-! ## Deliveries -/

namespace Sink

/-- What became of an entity that was delivered. -/
inductive Fate where
  | stored
  /-- The population had been given up before. -/
  | refused
  /-- It was not stored, although the population went on. -/
  | failed
  deriving DecidableEq

/-- The fate of an entity, by whether the population was given up before and what its delivery
answered. -/
def fate (stopped stored : Bool) : Fate :=
  if stored then .stored else if stopped then .refused else .failed

theorem fate_eq_stored {stopped stored : Bool} : fate stopped stored = .stored ↔ stored = true := by
  cases stopped <;> cases stored <;> decide

variable [Entity α]

/-- What a delivery does. -/
inductive Delivers (may : Disk.Conduct) (c : EntityCache α) (a : α) (s : Sink) (j : JobHandle)
    (d : Disk) : Fate → Sink → JobHandle → Disk → Prop where
  | stored {m e : Disk} {now : Instant} : s.isStopped j = false →
    (c.storeOne a).Ends may d (.ok ()) m → Disk.now.Ends may m now e →
      Delivers may c a s j d .stored s.count (j.recordProgress now) e
  | refused : s.isStopped j = true → Delivers may c a s j d .refused s j d
  | failed {x : CacheError} {e : Disk} : s.isStopped j = false →
    (c.storeOne a).Ends may d (.error x) e →
      Delivers may c a s j d .failed { s with failure := some x } j e

variable {c : EntityCache α} {may : Disk.Conduct} {a : α} {s t : Sink} {j k : JobHandle} {b : Bool}
  {d e : Disk}

theorem delivers_of_ends (h : (deliver c a s j).Ends may d (b, t, k) e) :
    Delivers may c a s j d (fate (s.isStopped j) b) t k e := by
  unfold deliver at h
  split at h
  · next hstopped =>
    obtain ⟨heq, rfl⟩ := Routine.ends_pure.mp h
    cases heq
    rw [hstopped]
    exact .refused hstopped
  · next hstopped =>
    have hgoes := Bool.eq_false_iff.mpr hstopped
    rw [hgoes]
    obtain ⟨x, m, hstore, hrest⟩ := Routine.ends_seq.mp h
    cases x with
    | error y =>
      obtain ⟨heq, rfl⟩ := Routine.ends_pure.mp hrest
      cases heq
      exact .failed hgoes hstore
    | ok _ =>
      obtain ⟨now, n, hnow, hend⟩ := Routine.ends_seq.mp hrest
      obtain ⟨heq, rfl⟩ := Routine.ends_pure.mp hend
      cases heq
      exact .stored hgoes hstore hnow

end Sink

end SensorCache
