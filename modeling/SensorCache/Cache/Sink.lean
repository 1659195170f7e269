import SensorCache.Cache.Basic
import SensorCache.Refresh.Job

/-!
# Sinks

A sink takes the entities of a streamed population one by one and puts each into the work file of a
cache. It stops the producer when its population was stopped or its job interrupted, and also when
an entity cannot be stored; that failure is kept for the refresh.
-/

namespace SensorCache

/-- The state of a streamed population. -/
structure Sink where
  /-- How many entities the producer said there are. -/
  expected : Option Nat
  received : Nat
  failure : Option CacheError
  /-- The population was given up. -/
  stopped : Bool
  deriving DecidableEq, Inhabited

/-- What is told about a population now and then; the total and the percentage of it are known only
where the producer told them. -/
structure SinkReport where
  received : Nat
  expected : Option Nat
  percent : Option Nat
  deriving DecidableEq, Inhabited

namespace Sink

def new : Sink := ⟨none, 0, none, false⟩

def expect (s : Sink) (n : Nat) : Sink := { s with expected := some n }

def stop (s : Sink) : Sink := { s with stopped := true }

/-- Whether the producer has to stop. -/
def isStopped (s : Sink) (j : JobHandle) : Bool := s.stopped || j.interrupted

/-- After an entity was stored. -/
def count (s : Sink) : Sink := { s with received := s.received + 1 }

/-- What is told after an entity was stored: about ten times in all when the total is known, else
every thousandth time. -/
def report? (s : Sink) : Option SinkReport :=
  match s.expected with
  | some total =>
    if total = 0 then unknown
    else if s.received % max (total / 10) 1 = 0 || s.received = total then
      some ⟨s.received, some total, some (s.received * 100 / total)⟩
    else none
  | none => unknown
where
  unknown : Option SinkReport :=
    if s.received % 1000 = 0 then some ⟨s.received, none, none⟩ else none

/-- Keeps the failure, if there is one, for the refresh to take. -/
def takeFailure (s : Sink) : Option CacheError × Sink := (s.failure, { s with failure := none })

variable {α : Type} [Entity α]

/-- Stores an entity and counts it as progress of the job, unless the population has to stop. Tells
whether it was stored. -/
def deliver (c : EntityCache α) (e : α) (s : Sink) (j : JobHandle) :
    Routine (Bool × Sink × JobHandle) := do
  if s.isStopped j then return (false, s, j)
  match ← (c.storeOne e).outcome with
  | .error x => return (false, { s with failure := some x }, j)
  | .ok _ => return (true, s.count, j.recordProgress (← Disk.now))

/-- Delivers an entity and tells whether the producer may go on. -/
def item (c : EntityCache α) (e : α) (s : Sink) (j : JobHandle) :
    Routine (Bool × Sink × JobHandle) := do
  let (stored, s, j) ← deliver c e s j
  return (stored && !s.isStopped j, s, j)

/-- Delivers entities up to the first after which the producer may not go on. Tells whether there
was none, and what was told about the population meanwhile. -/
def items (c : EntityCache α) :
    List α → Sink → JobHandle → Routine (Bool × List SinkReport × Sink × JobHandle)
  | [], s, j => return (true, [], s, j)
  | e :: r, s, j => do
    let (goesOn, t, j) ← item c e s j
    let told := if t.received = s.received then [] else t.report?.toList
    if goesOn then
      let (goesOn, rest, t, j) ← items c r t j
      return (goesOn, told ++ rest, t, j)
    else return (false, told, t, j)

end Sink

end SensorCache
