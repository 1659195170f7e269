import SensorCache.Proofs.Disk.Interference

/-!
# Cuts

Between any two of its operations a routine may be watched by others, or end with the process that
does it; so may it while it adds bytes to a file, of which then a first part is there. `Cut` says how
far a routine may have come like that: which operations it has done whole, and what the disk is then.
What follows a death, or what others see, is said of every cut.
-/

namespace SensorCache

variable {α β ε δ : Type} {d e : Disk} {os : List Disk.Op}

namespace Routine

/-- `r.Cut d os e`: `r`, alone on the disk `d`, has done the operations `os`, and the disk is `e`. -/
inductive Cut : Routine α → Disk → List Disk.Op → Disk → Prop where
  | here (r : Routine α) (d : Disk) : Cut r d [] d
  /-- The part `a` of the bytes has been added, and the rest not yet. -/
  | torn {p : Path} {bytes a b : ByteArray}
    {next : (Disk.Op.append p bytes).Answer → Routine α} {d : Disk} : bytes = a ++ b →
      Cut (.step (.append p bytes) next) d [] (d.perform (.append p a)).2
  | step {o : Disk.Op} {next : o.Answer → Routine α} {d : Disk} {os : List Disk.Op} {e : Disk} :
      Cut (next (d.perform o).1) (d.perform o).2 os e → Cut (.step o next) d (o :: os) e

/-- The operations of a routine that runs alone. -/
def operations : Routine α → Disk → List Disk.Op
  | .done _, _ => []
  | .step o next, d => o :: (next (d.perform o).1).operations (d.perform o).2

theorem operations_bind (r : Routine α) (f : α → Routine β) (d : Disk) :
    (r.bind f).operations d = r.operations d ++ (f (r.run d).1).operations (r.run d).2 := by
  induction r generalizing d with
  | done a => rfl
  | step o next ih =>
    show o :: ((next (d.perform o).1).bind f).operations (d.perform o).2 = _
    rw [ih]
    rfl

/-- The last cut is the end. -/
theorem cut_run (r : Routine α) (d : Disk) : r.Cut d (r.operations d) (r.run d).2 := by
  induction r generalizing d with
  | done a => exact .here _ _
  | step o next ih => exact .step (ih _ _)

theorem cut_done {a : α} : (done a).Cut d os e ↔ os = [] ∧ e = d := by
  constructor
  · intro h
    cases h
    exact ⟨rfl, rfl⟩
  · rintro ⟨rfl, rfl⟩
    exact .here _ _

/-- A sequence is cut in its first part, or in the second after all of the first. -/
theorem Cut.of_bind {r : Routine α} {f : α → Routine β} (h : (r.bind f).Cut d os e) :
    r.Cut d os e ∨
      ∃ os', os = r.operations d ++ os' ∧ (f (r.run d).1).Cut (r.run d).2 os' e := by
  induction r generalizing d os with
  | done a => exact .inr ⟨os, rfl, h⟩
  | step o next ih =>
    change (Routine.step o fun x => (next x).bind f).Cut d os e at h
    cases h with
    | here => exact .inl (.here _ _)
    | torn hbytes => exact .inl (.torn hbytes)
    | step hnext =>
      rcases ih _ hnext with hfirst | ⟨os', rfl, hrest⟩
      · exact .inl (.step hfirst)
      · exact .inr ⟨os', rfl, hrest⟩

/-! ## Routines of few kinds of operations -/

/-- Whatever the answers are, all operations are of a kind. -/
def Uses (P : Disk.Op → Prop) : Routine α → Prop
  | .done _ => True
  | .step o next => P o ∧ ∀ x, (next x).Uses P

variable {P : Disk.Op → Prop}

theorem uses_op {o : Disk.Op} (h : P o) : (op o).Uses P := ⟨h, fun _ => trivial⟩

theorem Uses.bind {r : Routine α} {f : α → Routine β} (hr : r.Uses P) (hf : ∀ a, (f a).Uses P) :
    (r.bind f).Uses P := by
  induction r with
  | done a => exact hf a
  | step o next ih => exact ⟨hr.1, fun x => ih x (hr.2 x)⟩

/-- What operations of a kind keep, be they done whole or in part, every cut keeps. -/
theorem Uses.cut {R : Disk → Disk → Prop} (hrefl : ∀ d, R d d)
    (htrans : ∀ {a b c}, R a b → R b c → R a c) (hkeeps : ∀ o, P o → ∀ d, R d (d.perform o).2)
    (hpart : ∀ p a b, P (.append p (a ++ b)) → P (.append p a)) {r : Routine α} (hr : r.Uses P)
    (h : r.Cut d os e) : R d e ∧ ∀ o ∈ os, P o := by
  induction h with
  | here => exact ⟨hrefl _, fun _ ho => nomatch ho⟩
  | torn hbytes =>
    subst hbytes
    exact ⟨hkeeps _ (hpart _ _ _ hr.1) _, fun _ ho => nomatch ho⟩
  | step _ ih =>
    obtain ⟨hrest, hops⟩ := ih (hr.2 _)
    exact ⟨htrans (hkeeps _ hr.1 _) hrest, List.forall_mem_cons.mpr ⟨hr.1, hops⟩⟩

end Routine

/-! ## Attempts -/

namespace Attempt

def Cut (r : Attempt ε α) (d : Disk) (os : List Disk.Op) (e : Disk) : Prop := r.outcome.Cut d os e

def operations (r : Attempt ε α) (d : Disk) : List Disk.Op := r.outcome.operations d

theorem cut_run (r : Attempt ε α) (d : Disk) : r.Cut d (r.operations d) (r.run d).2 :=
  Routine.cut_run (α := Except ε α) r d

theorem cut_pure {a : α} : (pure a : Attempt ε α).Cut d os e ↔ os = [] ∧ e = d := Routine.cut_done

theorem cut_fail {y : ε} : (fail y : Attempt ε α).Cut d os e ↔ os = [] ∧ e = d := Routine.cut_done

theorem operations_bind_ok {r : Attempt ε α} {f : α → Attempt ε β} {a : α}
    (h : r.run d = (.ok a, e)) :
    (r >>= f).operations d = r.operations d ++ (f a).operations e := by
  refine (Routine.operations_bind r.outcome _ d).trans ?_
  rw [show r.outcome.run d = (.ok a, e) from h]
  rfl

/-- The second part is begun when the first did not fail. -/
theorem Cut.of_bind {r : Attempt ε α} {f : α → Attempt ε β} (h : (r >>= f).Cut d os e) :
    r.Cut d os e ∨
      ∃ a m os', r.run d = (.ok a, m) ∧ os = r.operations d ++ os' ∧ (f a).Cut m os' e := by
  rcases Routine.Cut.of_bind (r := r.outcome) h with hfirst | ⟨os', rfl, hrest⟩
  · exact .inl hfirst
  · rcases hr : r.run d with ⟨x, m⟩
    rw [show r.outcome.run d = (x, m) from hr] at hrest
    cases x with
    | ok a => exact .inr ⟨a, m, os', rfl, rfl, hrest⟩
    | error y =>
      obtain ⟨rfl, rfl⟩ := Routine.cut_done.mp hrest
      have hend := cut_run r d
      rw [hr] at hend
      exact .inl (by rwa [List.append_nil])

/-- What needs no operation is never cut. -/
theorem Cut.of_bind_pure {r : Attempt ε α} {g : α → β}
    (h : (r >>= fun a => pure (g a)).Cut d os e) : r.Cut d os e := by
  rcases h.of_bind with hfirst | ⟨a, m, os', hr, rfl, hrest⟩
  · exact hfirst
  · obtain ⟨rfl, rfl⟩ := cut_pure.mp hrest
    have hend := cut_run r d
    rw [hr] at hend
    rwa [List.append_nil]

theorem Cut.of_because {cause : δ → ε} {r : Attempt δ α} (h : (because cause r).Cut d os e) :
    r.Cut d os e := by
  rcases Routine.Cut.of_bind (r := r.outcome) h with hr | ⟨os', rfl, hrest⟩
  · exact hr
  · obtain ⟨rfl, rfl⟩ := Routine.cut_done.mp hrest
    rw [List.append_nil]
    exact cut_run r d

theorem Cut.of_always {r : Routine α} (h : (always r : Attempt ε α).Cut d os e) : r.Cut d os e := by
  rcases Routine.Cut.of_bind (r := r) h with hr | ⟨os', rfl, hrest⟩
  · exact hr
  · obtain ⟨rfl, rfl⟩ := Routine.cut_done.mp hrest
    rw [List.append_nil]
    exact Routine.cut_run r d

variable {P : Disk.Op → Prop}

def Uses (P : Disk.Op → Prop) (r : Attempt ε α) : Prop := r.outcome.Uses P

theorem uses_pure (a : α) : (pure a : Attempt ε α).Uses P := trivial

theorem uses_fail (y : ε) : (fail y : Attempt ε α).Uses P := trivial

theorem Uses.bind {r : Attempt ε α} {f : α → Attempt ε β} (hr : r.Uses P)
    (hf : ∀ a, (f a).Uses P) : (r >>= f).Uses P :=
  Routine.Uses.bind (r := r.outcome) hr fun x =>
    match x with
    | .ok a => hf a
    | .error _ => trivial

theorem Uses.always {r : Routine α} (hr : r.Uses P) : (always r : Attempt ε α).Uses P :=
  Routine.Uses.bind hr fun _ => trivial

theorem Uses.because {cause : δ → ε} {r : Attempt δ α} (hr : r.Uses P) :
    (because cause r).Uses P :=
  Routine.Uses.bind (r := r.outcome) hr fun _ => trivial

end Attempt

end SensorCache
