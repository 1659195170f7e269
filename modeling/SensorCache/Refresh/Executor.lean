import SensorCache.Failure

/-!
# Calls with a deadline

Sources may never answer, so each call of one runs on a worker of its own thread while the caller
waits for a limited time. Calls take turns for one slot, which keeps a worker for the next call. A
worker whose call was not over when its caller stopped waiting is abandoned with it, and the next
call gets a new one.
-/

namespace SensorCache

open Time

/-- The slot of an executor, and the counts of its workers. -/
structure Executor where
  spawned : Nat
  abandoned : Nat
  /-- The worker that the slot holds. -/
  worker : Option Nat
  /-- A caller has the slot. -/
  busy : Bool
  deriving DecidableEq, Inhabited

namespace Executor

def new : Executor := ⟨0, 0, none, false⟩

/-- A caller takes the free slot and hands its operation to the worker there, or to a new one. -/
def begin (x : Executor) : Executor :=
  match x.worker with
  | some w => ⟨x.spawned, x.abandoned, some w, true⟩
  | none => ⟨x.spawned + 1, x.abandoned, some (x.spawned + 1), true⟩

/-- The caller got the end of its operation and leaves the worker for the next. -/
def finish (x : Executor) : Executor := { x with busy := false }

/-- The caller stops waiting for its operation and gives up the worker. -/
def abandon (x : Executor) : Executor := ⟨x.spawned, x.abandoned + 1, none, false⟩

/-- The worker took no operation, so the slot is left without one. -/
def discard (x : Executor) : Executor := { x with worker := none, busy := false }

end Executor

/-! ## Many callers -/

/-- How an operation ends. -/
inductive Ending (α : Type) where
  | returns (value : α)
  | panics
  deriving DecidableEq, Inhabited

/-- What a caller gets. -/
inductive Reply (α : Type) where
  | value (v : α)
  | failed (e : CallError)
  /-- The caller stopped waiting of its own. -/
  | dropped
  deriving DecidableEq, Inhabited

/-- What a caller gets whose operation ended in time. -/
def Reply.ofEnding {α : Type} : Ending α → Reply α
  | .returns v => .value v
  | .panics => .failed .workerPanicked

/-- A call that has the slot: its caller, its worker, the longest time it may take, when it started,
and how its operation ended, once it has. -/
structure ActiveCall (α : Type) where
  caller : Nat
  worker : Nat
  limit : Span
  started : Span
  outcome : Option (Ending α)
  deriving DecidableEq, Inhabited

/-- When the time of a call is up. -/
def ActiveCall.deadline {α : Type} (a : ActiveCall α) : Span := a.started + a.limit

/-- An executor with its callers, at a time. -/
structure CallQueue (α : Type) where
  executor : Executor
  /-- The callers that wait for their turn, with their limits, in the order in which they came. -/
  queue : List (Nat × Span)
  active : Option (ActiveCall α)
  /-- Operations that have not ended: their workers and their callers. A worker does those it was
  handed in their order. -/
  running : List (Nat × Nat)
  /-- Workers whose threads are over. -/
  gone : List Nat
  now : Span
  deriving DecidableEq, Inhabited

/-- What may happen to an executor with its callers. -/
inductive CallEvent (α : Type) where
  /-- A caller asks for its turn. -/
  | enters (caller : Nat) (limit : Span)
  /-- The first caller in the queue gets the free slot. -/
  | starts
  /-- The operation that a worker is busy with ends. -/
  | ends (worker : Nat) (ending : Ending α)
  /-- The active caller looks whether its operation has ended, or else whether its time is up. -/
  | polls
  /-- A caller stops waiting. -/
  | leaves (caller : Nat)
  /-- The thread of a worker that nobody can hand anything any more comes to its end. -/
  | exits (worker : Nat)
  | passes (t : Span)

/-- What can be told of an event. -/
inductive CallNote (α : Type) where
  | entered (caller : Nat) (limit : Span)
  /-- The caller's operation was handed to a worker. -/
  | handed (caller worker : Nat)
  /-- The caller's operation ended on a worker. -/
  | ended (caller worker : Nat) (ending : Ending α)
  | replied (caller : Nat) (reply : Reply α)
  deriving DecidableEq, Inhabited

namespace CallQueue

variable {α : Type}

def new : CallQueue α := ⟨.new, [], none, [], [], .zero⟩

/-- What happens, and what can be told of it. An event that cannot happen changes nothing. Threads
can always be started, and the thread of the executor's own worker never comes to its end: it catches
every panic, and that what a panic carries can be dropped without another is assumed. -/
def step (q : CallQueue α) : CallEvent α → CallQueue α × Option (CallNote α)
  | .enters c limit => ({ q with queue := q.queue ++ [(c, limit)] }, some (.entered c limit))
  | .starts =>
    match q.active, q.queue with
    | none, (c, limit) :: rest =>
      let x := q.executor.begin
      match x.worker with
      | some w =>
        if w ∈ q.gone then
          ({ q with executor := x.discard, queue := rest },
            some (.replied c (.failed .workerPanicked)))
        else
          ({ q with
              executor := x
              queue := rest
              active := some ⟨c, w, limit, q.now, none⟩
              running := q.running ++ [(w, c)] },
            some (.handed c w))
      | none => (q, none)
    | _, _ => (q, none)
  | .ends w ending =>
    match q.running.lookup w with
    | some c =>
      -- The result goes to the call that the operation belongs to, if that still waits.
      ({ q with
          active := q.active.map fun a =>
            if a.caller = c then { a with outcome := some ending } else a
          running := q.running.erase (w, c) },
        some (.ended c w ending))
    | none => (q, none)
  | .polls =>
    match q.active with
    | some a =>
      match a.outcome with
      | some ending =>
        ({ q with executor := q.executor.finish, active := none },
          some (.replied a.caller (.ofEnding ending)))
      | none =>
        if a.deadline ≤ q.now then
          ({ q with executor := q.executor.abandon, active := none },
            some (.replied a.caller (.failed (.timedOut a.limit))))
        else (q, none)
    | none => (q, none)
  | .leaves c =>
    if q.active.any fun a => a.caller == c then
      ({ q with executor := q.executor.abandon, active := none }, some (.replied c .dropped))
    else if q.queue.any fun e => e.1 == c then
      ({ q with queue := q.queue.filter fun e => e.1 != c }, some (.replied c .dropped))
    else (q, none)
  | .exits w =>
    if q.executor.worker ≠ some w ∧ w ≤ q.executor.spawned ∧ q.running.lookup w = none then
      ({ q with gone := w :: q.gone }, none)
    else (q, none)
  | .passes t => ({ q with now := q.now + t }, none)

end CallQueue

end SensorCache
