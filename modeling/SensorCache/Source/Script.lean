import SensorCache.Source.Basic

/-!
# Scripted sources

A source that plays a script, for rehearsals of updates: the acts of the script one after the other,
as what is delivered when it is asked to stream, and as what is fetched when it is not. A script
that comes to its end has succeeded.
-/

namespace SensorCache

/-- What a scripted source does next. -/
inductive Act (α : Type) where
  /-- Tells how many entities there are. -/
  | expects (count : Nat)
  /-- Delivers entities. The first refusal ends the script, unless refusals are ignored. -/
  | delivers (es : List α) (ignoresRefusals : Bool)
  | interrupts
  | fails (e : SourceError)
  | crashes
  | hangs

namespace Act

variable {α : Type}

/-- A script as a call that fetches; there is nobody to tell how many entities there are. -/
def fetch : List (Act α) → List α → SourceCall Empty (List α)
  | [], fetched => pure fetched
  | .expects _ :: r, fetched => fetch r fetched
  | .delivers es _ :: r, fetched => fetch r (fetched ++ es)
  | .interrupts :: r, fetched => .interrupts (fetch r fetched)
  | .fails e :: _, _ => .fail e
  | .crashes :: _, _ => .crashes
  | .hangs :: _, _ => .hangs

/-- Delivers entities and does not mind refusals. -/
def deliverRegardless (next : SourceCall α Unit) : List α → SourceCall α Unit
  | [] => next
  | e :: r => .delivers e fun _ => deliverRegardless next r

/-- A script as a call that delivers. -/
def stream : List (Act α) → SourceCall α Unit
  | [] => pure ()
  | .expects n :: r => .announces n (stream r)
  | .delivers es true :: r => deliverRegardless (stream r) es
  | .delivers es false :: r => do
    SourceCall.deliverEach es
    stream r
  | .interrupts :: r => .interrupts (stream r)
  | .fails e :: _ => .fail e
  | .crashes :: _ => .crashes
  | .hangs :: _ => .hangs

end Act

/-- A source that plays a script act by act. -/
def Source.ofScript {α : Type} (streams : Bool) (script : List (Act α)) : Source α :=
  ⟨streams, Act.fetch script [], Act.stream script⟩

/-- A hearer that collects the announced counts and the entities, and refuses once it has enough. -/
def Receiver.collecting {α : Type} (enough : Option Nat) : Receiver α (List Nat × List α) :=
  ⟨id, fun n (counts, es) => (counts ++ [n], es), fun e (counts, es) =>
    pure (enough.all fun n => decide (es.length + 1 < n), (counts, es ++ [e]))⟩

/-- Entities that can be made in series. -/
class Serial (α : Type) extends Entity α where
  make : String → Nat → α

instance : Serial UnitMapping where
  make name i := ⟨name ++ toString i, "u" ++ toString i⟩

instance : Serial Offering where
  make name i := ⟨name ++ toString i, none, [], .empty, [], none, none⟩

/-- The first `n` entities of a series. -/
def series (α : Type) [Serial α] (name : String) (n : Nat) : List α :=
  (List.range n).map (Serial.make name)

end SensorCache
