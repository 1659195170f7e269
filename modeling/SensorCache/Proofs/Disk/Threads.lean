import SensorCache.Proofs.Disk.Watching

/-!
# Threads

A task that shares a memory with others does not only act on the disk. It also reads and changes the
memory, and the others may do so between any two of its accesses as well as between two operations
on the disk. A thread is what such a task does. While the others leave the memory alone it is a
routine (`Thread.alone`).
-/

namespace SensorCache

/-- What a task does that shares a memory: operations on the disk, the answers to which it learns,
and changes of the memory, each of which it sees as it was before. -/
inductive Thread (σ α : Type) where
  | done (a : α)
  | access (change : σ → σ) (next : σ → Thread σ α)
  | step (o : Disk.Op) (next : o.Answer → Thread σ α)

namespace Routine

variable {α β γ : Type}

theorem bind_done (r : Routine α) : r.bind done = r := by
  induction r with
  | done a => rfl
  | step o next ih => exact congrArg (step o) (funext ih)

theorem bind_bind (r : Routine α) (f : α → Routine β) (g : β → Routine γ) :
    (r.bind f).bind g = r.bind fun a => (f a).bind g := by
  induction r with
  | done a => rfl
  | step o next ih => exact congrArg (step o) (funext ih)

instance : LawfulMonad Routine := .mk' Routine bind_done (fun _ _ => rfl) bind_bind

end Routine

namespace Thread

variable {σ α β μ : Type}

def bind (t : Thread σ α) (f : α → Thread σ β) : Thread σ β :=
  match t with
  | .done a => f a
  | .access change next => .access change fun s => (next s).bind f
  | .step o next => .step o fun x => (next x).bind f

instance : Monad (Thread σ) where
  pure := .done
  bind := bind

/-- A routine has nothing to do with the memory. -/
def ofRoutine : Routine α → Thread σ α
  | .done a => .done a
  | .step o next => .step o fun x => ofRoutine (next x)

instance : MonadLift Routine (Thread σ) where
  monadLift := ofRoutine

/-- Changes the memory. Tells what it was before. -/
def modify (change : σ → σ) : Thread σ σ := .access change .done

/-! ## One thread at a time -/

/-- What a thread does to the disk and the memory while no other uses that. -/
def alone : Thread σ α → σ → Routine (α × σ)
  | .done a, s => .done (a, s)
  | .access change next, s => (next s).alone (change s)
  | .step o next, s => .step o fun x => (next x).alone s

variable (s : σ)

@[simp] theorem alone_pure (a : α) : (pure a : Thread σ α).alone s = pure (a, s) := rfl

theorem alone_bind (t : Thread σ α) (f : α → Thread σ β) :
    (t >>= f).alone s = t.alone s >>= fun x => (f x.1).alone x.2 := by
  induction t generalizing s with
  | done a => rfl
  | access change next ih => exact ih s (change s)
  | step o next ih => exact congrArg (Routine.step o) (funext fun x => ih x s)

@[simp] theorem alone_lift (r : Routine α) :
    (liftM r : Thread σ α).alone s = r >>= fun a => pure (a, s) := by
  induction r with
  | done a => rfl
  | step o next ih => exact congrArg (Routine.step o) (funext ih)

@[simp] theorem alone_lift_bind (r : Routine α) (f : α → Thread σ β) :
    (liftM r >>= f).alone s = r >>= fun a => (f a).alone s := by
  rw [alone_bind, alone_lift, bind_assoc]
  rfl

@[simp] theorem alone_modify_bind (change : σ → σ) (f : σ → Thread σ β) :
    (modify change >>= f).alone s = (f s).alone (change s) := rfl

end Thread

/-! ## Threads under watch -/

/-- A watch that also remembers something of changes of the memory, and says which are allowed. -/
structure ThreadWatch (σ μ : Type) extends Watch μ where
  permits : μ → σ → σ → Prop
  mark : μ → σ → σ → μ

namespace Thread

variable {σ α β μ : Type} {w : ThreadWatch σ μ} {m : μ} {post : μ → α → Prop} {after : μ → β → Prop}

/-- Whatever the answers are and whatever the others do to the memory, what the thread does is
allowed and its result comes to `post`. -/
def Obeys (w : ThreadWatch σ μ) (post : μ → α → Prop) : Thread σ α → μ → Prop
  | .done a, m => post m a
  | .access change next, m =>
    ∀ s, w.permits m s (change s) ∧ (next s).Obeys w post (w.mark m s (change s))
  | .step o next, m => w.allows m o ∧ ∀ x, (next x).Obeys w post (w.note m o x)

theorem Obeys.bind {t : Thread σ α} {f : α → Thread σ β} (h : t.Obeys w post m)
    (hf : ∀ m a, post m a → (f a).Obeys w after m) : (t >>= f).Obeys w after m := by
  induction t generalizing m with
  | done a => exact hf m a h
  | access change next ih => exact fun s => ⟨(h s).1, ih s (h s).2⟩
  | step o next ih => exact ⟨h.1, fun x => ih x (h.2 x)⟩

/-- A routine that obeys the watch does so as a part of a thread. -/
theorem obeys_ofRoutine {r : Routine α} (h : r.Obeys w.toWatch post m) :
    (ofRoutine r : Thread σ α).Obeys w post m := by
  induction r generalizing m with
  | done a => exact h
  | step o next ih => exact ⟨h.1, fun x => ih x (h.2 x)⟩

theorem obeys_modify {change : σ → σ} {post : μ → σ → Prop}
    (h : ∀ s, w.permits m s (change s) ∧ post (w.mark m s (change s)) s) :
    (modify change).Obeys w post m := h

end Thread

end SensorCache
