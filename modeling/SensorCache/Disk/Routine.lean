import SensorCache.Disk.Basic

/-!
# Routines

A routine is what a part of the library does with the disk: a finite tree of operations, in which
the answer to each decides how it goes on. `run` does one without interference. What other routines
and other processes see and do lies between two operations.
-/

namespace SensorCache

inductive Routine (α : Type) where
  | done (a : α)
  | step (o : Disk.Op) (next : o.Answer → Routine α)

namespace Routine

variable {α β : Type}

def bind (r : Routine α) (f : α → Routine β) : Routine β :=
  match r with
  | .done a => f a
  | .step o next => .step o fun x => (next x).bind f

instance : Monad Routine where
  pure := .done
  bind := bind

/-- One operation. -/
def op (o : Disk.Op) : Routine o.Answer := .step o .done

/-- The result of a routine and the disk after it, when nothing else happens meanwhile. -/
def run : Routine α → Disk → α × Disk
  | .done a, d => (a, d)
  | .step o next, d =>
    let (x, d) := d.perform o
    (next x).run d

@[simp] theorem run_pure (a : α) (d : Disk) : (pure a : Routine α).run d = (a, d) := rfl

@[simp] theorem run_done (a : α) (d : Disk) : (done a : Routine α).run d = (a, d) := rfl

@[simp] theorem run_op (o : Disk.Op) (d : Disk) : (op o).run d = d.perform o := rfl

@[simp] theorem run_bind (r : Routine α) (f : α → Routine β) (d : Disk) :
    (r >>= f).run d = (f (r.run d).1).run (r.run d).2 := by
  induction r generalizing d with
  | done a => rfl
  | step o next ih => exact ih _ _

end Routine

/-- A routine that may fail; what follows a failure is not done. -/
def Attempt (ε α : Type) : Type := Routine (Except ε α)

namespace Attempt

variable {ε α β : Type}

/-- The routine that an attempt is, with its failure as a result. -/
def outcome (r : Attempt ε α) : Routine (Except ε α) := r

def ofOutcome (r : Routine (Except ε α)) : Attempt ε α := r

def fail (e : ε) : Attempt ε α := ofOutcome (.done (.error e))

/-- Goes on with the result of an attempt that did not fail. -/
def andThen (r : Attempt ε α) (f : α → Attempt ε β) : Attempt ε β :=
  ofOutcome <| r.outcome.bind fun x =>
    match x with
    | .ok a => (f a).outcome
    | .error e => .done (.error e)

instance : Monad (Attempt ε) where
  pure a := ofOutcome (.done (.ok a))
  bind := andThen

/-- A routine that does not fail. -/
def always (r : Routine α) : Attempt ε α := ofOutcome (r.bind fun a => .done (.ok a))

instance : MonadLift Routine (Attempt ε) where
  monadLift := always

/-- Gives a failure another cause. -/
def because {δ : Type} (cause : δ → ε) (r : Attempt δ α) : Attempt ε α :=
  ofOutcome <| r.outcome.bind fun x => .done (x.mapError cause)

/-- Goes on with what an attempt came to, be it a failure. -/
def caught {δ : Type} (r : Attempt δ α) : Attempt ε (Except δ α) := always r.outcome

def run (r : Attempt ε α) (d : Disk) : Except ε α × Disk := r.outcome.run d

@[simp] theorem run_pure (a : α) (d : Disk) : (pure a : Attempt ε α).run d = (.ok a, d) := rfl

@[simp] theorem run_fail (e : ε) (d : Disk) : (fail e : Attempt ε α).run d = (.error e, d) := rfl

@[simp] theorem run_ofOutcome (r : Routine (Except ε α)) (d : Disk) :
    (ofOutcome r).run d = r.run d := rfl

theorem run_bind (r : Attempt ε α) (f : α → Attempt ε β) (d : Disk) :
    (r >>= f).run d =
      match r.run d with
      | (.ok a, e) => (f a).run e
      | (.error x, e) => (.error x, e) := by
  have h := Routine.run_bind (α := Except ε α) r.outcome (fun x =>
    match x with
    | .ok a => (f a).outcome
    | .error e => .done (.error e)) d
  rw [show (r >>= f).run d = _ from h]
  show _ = match r.outcome.run d with
    | (.ok a, e) => (f a).run e
    | (.error x, e) => (.error x, e)
  rcases hr : r.outcome.run d with ⟨x, e⟩
  cases x <;> rfl

@[simp] theorem run_always (r : Routine α) (d : Disk) :
    (always r : Attempt ε α).run d = (.ok (r.run d).1, (r.run d).2) :=
  Routine.run_bind (β := Except ε α) r (fun a => .done (.ok a)) d

theorem run_because {δ : Type} (cause : δ → ε) (r : Attempt δ α) (d : Disk) :
    (because cause r).run d = ((r.run d).1.mapError cause, (r.run d).2) :=
  Routine.run_bind (α := Except δ α) (β := Except ε α) r.outcome
    (fun x => .done (x.mapError cause)) d

end Attempt

namespace Disk

/-- The clock's time. -/
def now : Routine Instant := .op .now

/-- What is at a path. -/
def stat (p : Path) : Attempt OsError Node := .ofOutcome (.op (.find p))

def readBytes (p : Path) : Attempt OsError ByteArray := .ofOutcome (.op (.read p))

def createNew (p : Path) : Attempt OsError Instant := .ofOutcome (.op (.create p))

def clear (p : Path) : Attempt OsError Unit := .ofOutcome (.op (.truncate p))

def appendBytes (p : Path) (bytes : ByteArray) : Attempt OsError Unit :=
  .ofOutcome (.op (.append p bytes))

def renameTo (p q : Path) : Attempt OsError Unit := .ofOutcome (.op (.rename p q))

def unlink (p : Path) : Attempt OsError Unit := .ofOutcome (.op (.remove p))

def makeDirectory (p : Path) : Attempt OsError Unit := .ofOutcome (.op (.makeDirectory p))

/-- What is at a path, if anything can be seen there. -/
def look (p : Path) : Routine (Option Node) :=
  (Routine.op (.find p)).bind fun x => .done x.toOption

/-- The text of a file. -/
def readText (p : Path) : Attempt OsError String := do
  match String.fromUTF8? (← readBytes p) with
  | some s => return s
  | none => .fail .notText

/-- A directory that could not be made for `e` may be there already, which is fine. -/
def settleDirectory (p : Path) (e : OsError) : Attempt OsError Unit := do
  match ← look p with
  | some n => if n.isDirectory then return else .fail e
  | none => .fail e

/-- Makes a directory and those it lies in, `n` levels up at most. -/
def makeDirectories : Nat → Path → Attempt OsError Unit
  | 0, _ => .fail .notFound
  | n + 1, p =>
    if p.text.isEmpty then pure ()
    else do
      match ← (makeDirectory p).caught with
      | .ok _ => return
      | .error .notFound =>
        makeDirectories n p.parent
        match ← (makeDirectory p).caught with
        | .ok _ => return
        | .error e => settleDirectory p e
      | .error e => settleDirectory p e

/-- Makes a directory and all those it lies in. -/
def ensureDirectory (p : Path) : Attempt OsError Unit := makeDirectories (p.text.length + 1) p

end Disk

end SensorCache
