import SensorCache.Refresh.Executor

/-!
# Calls in time

How calls whose operations have known lengths go on an executor: the first caller in the queue gets
the slot when it is free, an operation ends after its length, and a caller stops waiting when its
time is up, counted from its start, or when it leaves, counted from the time it came. Of things that
happen at one time, ends come first and leaving last.
-/

namespace SensorCache

open Time

/-- A call with an operation of known length; one without a length never ends. -/
structure TimedCall (α : Type) where
  caller : Nat
  limit : Span
  leavesAt : Option Span
  length : Option Span
  ending : Ending α

/-- When an operation ends, and how. -/
structure ComingEnd (α : Type) where
  time : Span
  worker : Nat
  ending : Ending α

/-- What operations do, by their callers. -/
inductive CallMark where
  | started (caller : Nat)
  | ended (caller : Nat)
  deriving DecidableEq, Inhabited

/-- Calls of an executor, with the ends to come and what has been seen so far. -/
structure Timeline (α : Type) where
  queue : CallQueue α
  calls : List (TimedCall α)
  ends : List (ComingEnd α)
  marks : List CallMark
  replies : List (Nat × Reply α)

namespace Timeline

variable {α : Type}

def new : Timeline α := ⟨.new, [], [], [], []⟩

def now (t : Timeline α) : Span := t.queue.now

def call? (t : Timeline α) (caller : Nat) : Option (TimedCall α) :=
  t.calls.find? fun c => c.caller == caller

/-- Keeps what is to be seen of an event. -/
def see (t : Timeline α) : CallNote α → Timeline α
  | .entered .. => t
  | .handed c _ => { t with marks := t.marks ++ [.started c] }
  | .ended c _ (.returns _) => { t with marks := t.marks ++ [.ended c] }
  | .ended _ _ .panics => t
  | .replied c r => { t with replies := t.replies ++ [(c, r)] }

/-- Lets something happen to the executor. -/
def apply (t : Timeline α) (e : CallEvent α) : Timeline α :=
  let (q, note) := t.queue.step e
  note.elim { t with queue := q } { t with queue := q }.see

/-- A call comes and waits for its turn. -/
def enter (t : Timeline α) (c : TimedCall α) : Timeline α :=
  { t.apply (.enters c.caller c.limit) with calls := t.calls ++ [c] }

/-- The end of an operation that starts now on a worker. -/
def endOf (t : Timeline α) (caller worker : Nat) : List (ComingEnd α) :=
  match t.call? caller with
  | some c =>
    match c.length with
    | some l => [⟨t.now + l, worker, c.ending⟩]
    | none => []
  | none => []

/-- Gives the free slot to the first caller. -/
def start (t : Timeline α) : Timeline α :=
  let t := t.apply .starts
  match t.queue.active with
  | some a => { t with ends := t.ends ++ t.endOf a.caller a.worker }
  | none => t

/-- What may happen next. -/
inductive Coming where
  | ends
  | overruns
  | leaves (caller : Nat)

/-- The sooner of two, the first if they are at one time. -/
def sooner (a b : Option (Span × Coming)) : Option (Span × Coming) :=
  match a, b with
  | some (s, x), some (t, y) => if t < s then some (t, y) else some (s, x)
  | some x, none => some x
  | none, y => y

/-- The operation that ends first, and the others. -/
def firstEnd : List (ComingEnd α) → Option (ComingEnd α × List (ComingEnd α))
  | [] => none
  | e :: r =>
    match firstEnd r with
    | none => some (e, [])
    | some (f, s) => if f.time < e.time then some (f, e :: s) else some (e, r)

/-- The caller that leaves first among those that still wait. -/
def firstLeaving (t : Timeline α) : Option (Span × Coming) :=
  (t.calls.filter fun c => !t.replies.any fun r => r.1 == c.caller).foldl
    (fun a c => sooner a (c.leavesAt.map fun s => (s, .leaves c.caller))) none

/-- What comes next, and when. -/
def coming (t : Timeline α) : Option (Span × Coming) :=
  sooner (sooner ((firstEnd t.ends).map fun e => (e.1.time, .ends))
    (t.queue.active.map fun a => (a.deadline, .overruns))) t.firstLeaving

/-- Waits until a time. -/
def await (t : Timeline α) (time : Span) : Timeline α :=
  t.apply (.passes ⟨time.nanos - t.now.nanos⟩)

def happen (t : Timeline α) : Coming → Timeline α
  | .ends =>
    match firstEnd t.ends with
    | none => t
    | some (e, rest) =>
      let t := { t with ends := rest }.apply (.ends e.worker e.ending)
      -- A caller is waked by its own result only.
      if t.queue.active.any fun a => a.outcome.isSome then t.apply .polls else t
  | .overruns => t.apply .polls
  | .leaves c => t.apply (.leaves c)

/-- Goes on until every caller has its reply, in at most `n` steps. -/
def run : Nat → Timeline α → Timeline α
  | 0, t => t
  | n + 1, t =>
    if t.queue.active.isNone && !t.queue.queue.isEmpty then run n t.start
    else if t.calls.all fun c => t.replies.any fun r => r.1 == c.caller then t
    else
      match t.coming with
      | none => t
      | some (time, c) => run n ((t.await time).happen c)

/-- Makes calls, one after the other at once, and waits for all replies. -/
def make (t : Timeline α) (cs : List (TimedCall α)) : Timeline α :=
  run (4 * (t.calls.length + cs.length)) (cs.foldl enter t)

end Timeline

end SensorCache
