import SensorCache.Refresh.Course
import SensorCache.Source.Basic

/-!
# Targets of refreshes

A target is a cache that a refresh can update. A cache is updated from its source either with one
call that fetches everything, or, for a source that streams, with a population of the work file that
is promoted in the end. The snapshot is replaced only after everything else has succeeded.
-/

namespace SensorCache

open Time

/-- How long the calls of an update may take. -/
structure CallLimits where
  call : Span
  streaming : Span
  deriving DecidableEq, Inhabited

/-- A cache as refreshes see it. An update ends with the number of entities stored. -/
structure Target (σ : Type) where
  name : String
  requiresUpdate : Routine Bool
  update : CallLimits → Course σ (Except RefreshError Nat)

/-! ## Calls -/

/-- How a call ends for the job that waits for it; one that returned leaves the state of its
hearer. -/
inductive Awaited (ρ τ : Type) where
  | returned (r : Except SourceError ρ) (heard : τ)
  | failed (e : CallError)
  | interrupted

namespace SourceCall

variable {α ρ σ τ : Type}

/-- Lets a worker of the executor do a call for a hearer that starts from the job's handle, and
waits for it until it is over, its time is up or the job is interrupted. -/
def awaited (h : Receiver α τ) (start : JobHandle → τ) (job : τ → JobHandle) (limit : Span)
    (c : SourceCall α ρ) : Course σ (Awaited ρ τ) := do
  match ← Course.wait none fun s => !s.executor.busy with
  | .ready =>
    Course.modify fun s => { s with executor := s.executor.begin }
    let (e, t) ← c.run h (start (← Course.look).job)
    Course.mark fun _ => job t
    match ← Course.wait (some limit) fun _ => e.isOver with
    | .ready =>
      Course.modify fun s => { s with executor := s.executor.finish }
      match e with
      | .returned r => return .returned r t
      | _ => return .failed .workerPanicked
    | .timeUp =>
      Course.modify fun s => { s with executor := s.executor.abandon }
      return .failed (.timedOut limit)
    | .interrupted =>
      Course.modify fun s => { s with executor := s.executor.abandon }
      return .interrupted
  | _ => return .interrupted

end SourceCall

/-! ## Updates -/

namespace EntityCache

variable {α σ : Type} [Entity α]

/-- Stores what a call fetched, unless the job was interrupted. -/
def storeFetched (c : EntityCache α) (es : List α) : Course σ (Except RefreshError Nat) := do
  if ← Course.isInterrupted then return .error .cancelled
  else
    Course.markNow JobHandle.recordProgress
    return (← (c.storeAll es).outcome).mapError .cache

/-- Updates a cache with one call that fetches all entities. -/
def updateBulk (c : EntityCache α) (s : Source α) (limit : Span) :
    Course σ (Except RefreshError Nat) := do
  Course.markNow JobHandle.beginWaiting
  let r ← s.fetch.awaited .ofJob id id limit
  Course.mark JobHandle.endWaiting
  match r with
  | .interrupted => return .error .cancelled
  | .failed e => return .error (.ofCall e)
  | .returned (.error e) _ => return .error (.ofSource e)
  | .returned (.ok es) _ => c.storeFetched es

/-- Promotes a population that ended well, unless the job was interrupted. -/
def promoteStreamed (c : EntityCache α) : Course σ (Except RefreshError Nat) := do
  if ← Course.isInterrupted then return .error .cancelled
  else return (← c.promoteWorkFile.outcome).mapError .cache

/-- Updates a cache with a call that delivers its entities into the work file. An entity that could
not be stored fails the update, whatever the source made of it. -/
def updateStreaming (c : EntityCache α) (s : Source α) (limit : Span) :
    Course σ (Except RefreshError Nat) := do
  match ← c.beginStreaming.outcome with
  | .error e => return .error (.cache e)
  | .ok _ =>
    Course.markNow JobHandle.beginWaiting
    let r ← s.stream.awaited (.ofSink c) (fun j => (Sink.new, j)) Prod.snd limit
    Course.mark JobHandle.endWaiting
    match r with
    | .interrupted => return .error .cancelled
    | .failed e => return .error (.ofCall e)
    | .returned r (sink, _) =>
      match sink.failure, r with
      | some e, _ => return .error (.cache e)
      | none, .error e => return .error (.ofSource e)
      | none, .ok _ => c.promoteStreamed

/-- Updates a cache from its source, in the way that the source prefers. -/
def update (c : EntityCache α) (s : Source α) (limits : CallLimits) :
    Course σ (Except RefreshError Nat) :=
  if s.streams then c.updateStreaming s limits.streaming else c.updateBulk s limits.call

/-- A cache with its source as a target. -/
def target (c : EntityCache α) (s : Source α) : Target σ :=
  ⟨c.name, c.requiresUpdate, c.update s⟩

/-- A cache as a target whose source may be another one at each update. -/
def targetOf (c : EntityCache α) (source : σ → Source α) : Target σ :=
  ⟨c.name, c.requiresUpdate, fun limits => do c.update (source (← Course.look).own) limits⟩

end EntityCache

end SensorCache
