import SensorCache.Cache.Sink

/-!
# Sources

A source is asked for all entities of a kind at once, or to deliver them one by one. What it does in
a call is a tree of steps: it may look at the disk, tell how many entities there are, deliver one
and hear whether it may go on, interrupt the job it works for, and in the end return, crash or hang.
-/

namespace SensorCache

/-- What a call of a source does. It delivers entities of `α` and returns a `ρ`. -/
inductive SourceCall (α ρ : Type) where
  | returns (r : Except SourceError ρ)
  | crashes
  /-- The call never returns. -/
  | hangs
  | interrupts (next : SourceCall α ρ)
  | performs (o : Disk.Op) (next : o.Answer → SourceCall α ρ)
  | announces (count : Nat) (next : SourceCall α ρ)
  | delivers (e : α) (next : Bool → SourceCall α ρ)

namespace SourceCall

variable {α ρ σ : Type}

def bind (c : SourceCall α ρ) (f : ρ → SourceCall α σ) : SourceCall α σ :=
  match c with
  | .returns (.ok r) => f r
  | .returns (.error e) => .returns (.error e)
  | .crashes => .crashes
  | .hangs => .hangs
  | .interrupts next => .interrupts (next.bind f)
  | .performs o next => .performs o fun x => (next x).bind f
  | .announces n next => .announces n (next.bind f)
  | .delivers e next => .delivers e fun b => (next b).bind f

instance : Monad (SourceCall α) where
  pure a := .returns (.ok a)
  bind := bind

def fail (e : SourceError) : SourceCall α ρ := .returns (.error e)

/-- A call that delivers nothing, as one that could. -/
def silent : SourceCall Empty ρ → SourceCall α ρ
  | .returns r => .returns r
  | .crashes => .crashes
  | .hangs => .hangs
  | .interrupts next => .interrupts next.silent
  | .performs o next => .performs o fun x => (next x).silent
  | .announces n next => .announces n next.silent
  | .delivers e _ => nomatch e

/-- A routine as part of a call. -/
def ofRoutine : Routine ρ → SourceCall α ρ
  | .done a => .returns (.ok a)
  | .step o next => .performs o fun x => ofRoutine (next x)

/-- An attempt as part of a call, with the failure that it is for the source. -/
def ofAttempt {ε : Type} (cause : ε → SourceError) (r : Attempt ε ρ) : SourceCall α ρ := do
  match ← ofRoutine r.outcome with
  | .ok a => return a
  | .error e => fail (cause e)

def announce (count : Nat) : SourceCall α Unit := .announces count (.returns (.ok ()))

/-- Delivers an entity, and ends the call if it is not to go on. -/
def deliver (e : α) : SourceCall α Unit :=
  .delivers e fun accepted => if accepted then .returns (.ok ()) else fail .cancelled

def deliverEach : List α → SourceCall α Unit
  | [] => pure ()
  | e :: r => do
    deliver e
    deliverEach r

/-- Tells the number of entities and delivers them. -/
def deliverAll (es : List α) : SourceCall α Unit := do
  announce es.length
  deliverEach es

end SourceCall

/-- A source of the entities of one kind. -/
structure Source (α : Type) where
  /-- The source is better asked to deliver its entities one by one. -/
  streams : Bool
  fetch : SourceCall Empty (List α)
  stream : SourceCall α Unit

/-- A source that fetches everything before it delivers. -/
def Source.ofFetch {α : Type} (streams : Bool) (fetch : SourceCall Empty (List α)) : Source α :=
  ⟨streams, fetch, fetch.silent.bind SourceCall.deliverAll⟩

/-! ## Running a call -/

/-- How a call ends. -/
inductive CallEnd (ρ : Type) where
  | returned (r : Except SourceError ρ)
  | crashed
  | hung

def CallEnd.isOver {ρ : Type} : CallEnd ρ → Bool
  | .hung => false
  | _ => true

/-- Who hears what a call of a source does, with the state `σ` of the hearer. -/
structure Receiver (α σ : Type) where
  interrupt : σ → σ
  announce : Nat → σ → σ
  accept : α → σ → Routine (Bool × σ)

namespace SourceCall

variable {α ρ σ : Type}

/-- Does a call: how it ends and what its hearer made of it. -/
def run (h : Receiver α σ) : SourceCall α ρ → σ → Routine (CallEnd ρ × σ)
  | .returns r, s => .done (.returned r, s)
  | .crashes, s => .done (.crashed, s)
  | .hangs, s => .done (.hung, s)
  | .interrupts next, s => next.run h (h.interrupt s)
  | .performs o next, s => .step o fun x => (next x).run h s
  | .announces n next, s => next.run h (h.announce n s)
  | .delivers e next, s => (h.accept e s).bind fun (accepted, s) => (next accepted).run h s

end SourceCall

/-- The hearer of a call that fetches for a job. -/
def Receiver.ofJob : Receiver Empty JobHandle :=
  ⟨JobHandle.interrupt, fun _ j => j, fun e _ => nomatch e⟩

/-- The hearer of a call that delivers into a cache for a job. -/
def Receiver.ofSink {α : Type} [Entity α] (c : EntityCache α) : Receiver α (Sink × JobHandle) :=
  ⟨fun (s, j) => (s, j.interrupt), fun n (s, j) => (s.expect n, j),
    fun e (s, j) => Sink.item c e s j⟩

end SensorCache
