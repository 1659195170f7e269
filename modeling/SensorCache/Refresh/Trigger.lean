/-!
# Requests for a refresh

Readers ask for a refresh through a trigger and a scheduler listens to it. A request wakes the
listener that has waited longest. Requests that come while nobody listens are answered together by
one wake-up of the next; all are counted.
-/

namespace SensorCache

/-- The number of requests so far, whether one is still to be answered, and how many listen. -/
structure Trigger where
  requests : Nat
  pending : Bool
  listeners : Nat
  deriving DecidableEq, Inhabited

namespace Trigger

def new : Trigger := ⟨0, false, 0⟩

def request (t : Trigger) : Trigger :=
  if t.listeners = 0 then ⟨t.requests + 1, true, 0⟩
  else ⟨t.requests + 1, t.pending, t.listeners - 1⟩

/-- Answers the pending requests, if there are any. -/
def answer? (t : Trigger) : Option Trigger :=
  if t.pending then some { t with pending := false } else none

/-- Starts to listen. A pending request is answered at once, which the first part tells. -/
def listen (t : Trigger) : Bool × Trigger :=
  match t.answer? with
  | some t => (true, t)
  | none => (false, { t with listeners := t.listeners + 1 })

theorem answer?_request {t : Trigger} (h : t.listeners = 0) :
    t.request.answer? = some ⟨t.requests + 1, false, 0⟩ := by simp [request, answer?, h]

end Trigger

end SensorCache
