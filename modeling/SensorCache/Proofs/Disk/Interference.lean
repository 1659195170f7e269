import SensorCache.Disk.Routine

/-!
# Routines among others

How a routine may end in a world where others change the disk between its operations and where an
operation may also fail for a reason of its own (`Ends`); and a way to see what a routine leaves
alone without following its answers: if each of its operations keeps a relation on every disk, and
so do the others, then all of it does (`Keeps.ends`).
-/

namespace SensorCache

variable {α β ε δ : Type} {change R : Disk → Disk → Prop} {d e : Disk}

namespace Disk

/-! ## Worlds -/

/-- What an operation may answer when it is due on a disk, and the disk after it. -/
abbrev Conduct : Type := (o : Op) → Disk → o.Answer → Disk → Prop

/-- Operations are performed, after `change`. -/
def Conduct.among (change : Disk → Disk → Prop) : Conduct :=
  fun o d x e => ∃ m, change d m ∧ m.perform o = (x, e)

/-- Operations are answered in a certain way, and nothing else happens. -/
def Conduct.by (answer : (o : Op) → Disk → o.Answer × Disk) : Conduct :=
  fun o d x e => answer o d = (x, e)

/-- A failure for a reason that the disk does not know. -/
def Op.Fault : (o : Op) → o.Answer → Prop
  | .now, _ => False
  | .find _, x => ∃ t, x = .error (.other t)
  | .read _, x => ∃ t, x = .error (.other t)
  | .create _, x => ∃ t, x = .error (.other t)
  | .truncate _, x => ∃ t, x = .error (.other t)
  | .append .., x => ∃ t, x = .error (.other t)
  | .rename .., x => ∃ t, x = .error (.other t)
  | .remove _, x => ∃ t, x = .error (.other t)
  | .makeDirectory _, x => ∃ t, x = .error (.other t)

/-- Operations are performed after `change`, or fail for a reason of their own, and then what they
did in part is a `change` too. -/
def Conduct.Within (change : Disk → Disk → Prop) (may : Conduct) : Prop :=
  ∀ {o : Op} {d : Disk} {x : o.Answer} {e : Disk}, may o d x e →
    ∃ m, change d m ∧ (m.perform o = (x, e) ∨ (o.Fault x ∧ change m e))

theorem Conduct.within_among (change : Disk → Disk → Prop) :
    (Conduct.among change).Within change :=
  fun ⟨m, hc, hp⟩ => ⟨m, hc, .inl hp⟩

end Disk

variable {may : Disk.Conduct}

namespace Routine

/-- `r.Ends may d a e`: on the disk `d`, `r` may end with `a` on the disk `e`. -/
inductive Ends (may : Disk.Conduct) : Routine α → Disk → α → Disk → Prop where
  | done (a : α) (d : Disk) : Ends may (.done a) d a d
  | step {o : Disk.Op} {next : o.Answer → Routine α} {x : o.Answer} {a : α} {d m e : Disk} :
    may o d x m → Ends may (next x) m a e → Ends may (.step o next) d a e

theorem ends_done {a b : α} : (done a).Ends may d b e ↔ b = a ∧ e = d := by
  constructor
  · intro h
    cases h
    exact ⟨rfl, rfl⟩
  · rintro ⟨rfl, rfl⟩
    exact .done _ _

theorem ends_pure {a b : α} : (pure a : Routine α).Ends may d b e ↔ b = a ∧ e = d := ends_done

theorem ends_step {o : Disk.Op} {next : o.Answer → Routine α} {a : α} :
    (step o next).Ends may d a e ↔ ∃ x m, may o d x m ∧ (next x).Ends may m a e := by
  constructor
  · intro h
    cases h with
    | step hx hn => exact ⟨_, _, hx, hn⟩
  · rintro ⟨x, m, hx, hn⟩
    exact .step hx hn

theorem ends_op {o : Disk.Op} {x : o.Answer} : (op o).Ends may d x e ↔ may o d x e := by
  unfold op
  rw [ends_step]
  constructor
  · rintro ⟨y, m, hy, hn⟩
    obtain ⟨rfl, rfl⟩ := ends_done.mp hn
    exact hy
  · exact fun h => ⟨x, e, h, .done _ _⟩

theorem ends_bind {r : Routine α} {f : α → Routine β} {b : β} :
    (r.bind f).Ends may d b e ↔ ∃ a m, r.Ends may d a m ∧ (f a).Ends may m b e := by
  induction r generalizing d with
  | done a =>
    constructor
    · intro h
      exact ⟨a, d, .done a d, h⟩
    · rintro ⟨a', m, hr, hf⟩
      obtain ⟨rfl, rfl⟩ := ends_done.mp hr
      exact hf
  | step o next ih =>
    show (step o _).Ends may d b e ↔ _
    rw [ends_step]
    constructor
    · rintro ⟨x, m, hx, h⟩
      obtain ⟨a, n, hr, hf⟩ := (ih x).mp h
      exact ⟨a, n, .step hx hr, hf⟩
    · rintro ⟨a, n, hr, hf⟩
      obtain ⟨x, m, hx, h⟩ := ends_step.mp hr
      exact ⟨x, m, hx, (ih x).mpr ⟨a, n, h, hf⟩⟩

theorem ends_seq {r : Routine α} {f : α → Routine β} {b : β} :
    (r >>= f).Ends may d b e ↔ ∃ a m, r.Ends may d a m ∧ (f a).Ends may m b e := ends_bind

/-- A routine that nobody interferes with ends as it is run. -/
theorem ends_run (h : ∀ o d, may o d (d.perform o).1 (d.perform o).2) (r : Routine α) (d : Disk) :
    r.Ends may d (r.run d).1 (r.run d).2 := by
  induction r generalizing d with
  | done a => exact .done a d
  | step o next ih => exact .step (h o d) (ih _ _)

/-- So it does where that holds only of disks that are `good`, which operations keep. -/
theorem ends_run_of_good {good : Disk → Prop}
    (h : ∀ o d, good d → may o d (d.perform o).1 (d.perform o).2 ∧ good (d.perform o).2)
    (r : Routine α) (hd : good d) : r.Ends may d (r.run d).1 (r.run d).2 ∧ good (r.run d).2 := by
  induction r generalizing d with
  | done a => exact ⟨.done a d, hd⟩
  | step o next ih =>
    obtain ⟨hmay, hgood⟩ := h o d hd
    obtain ⟨hends, hlast⟩ := ih _ hgood
    exact ⟨.step hmay hends, hlast⟩

/-- Does a routine on a disk that answers operations in a way of its own. -/
def runBy (answer : (o : Disk.Op) → Disk → o.Answer × Disk) : Routine α → Disk → α × Disk
  | .done a, d => (a, d)
  | .step o next, d =>
    let (x, e) := answer o d
    (next x).runBy answer e

theorem ends_runBy (answer : (o : Disk.Op) → Disk → o.Answer × Disk) (r : Routine α) (d : Disk) :
    r.Ends (.by answer) d (r.runBy answer d).1 (r.runBy answer d).2 := by
  induction r generalizing d with
  | done a => exact .done a d
  | step o next ih => exact .step rfl (ih _ _)

/-! ## Where a routine leads -/

section Leads

/-- However the routine ends that begins on the disk `d`, `P` holds then. -/
def Leads (may : Disk.Conduct) (r : Routine α) (d : Disk) (P : α → Disk → Prop) : Prop :=
  ∀ a e, r.Ends may d a e → P a e

variable {r : Routine α} {f g : α → Routine β} {P P' : α → Disk → Prop} {Q : β → Disk → Prop}

theorem leads_any (r : Routine α) (d : Disk) : r.Leads may d fun _ _ => True :=
  fun _ _ _ => trivial

theorem leads_pure {a : α} (h : P a d) : (pure a : Routine α).Leads may d P := by
  intro b e hb
  obtain ⟨rfl, rfl⟩ := ends_pure.mp hb
  exact h

theorem Leads.bind (hr : r.Leads may d P) (hf : ∀ a m, P a m → (f a).Leads may m Q) :
    (r >>= f).Leads may d Q := by
  intro b e hb
  obtain ⟨a, m, ha, hb⟩ := ends_seq.mp hb
  exact hf a m (hr a m ha) b e hb

/-- Two ways that come together again. -/
theorem Leads.join {c : Prop} [Decidable c] {r' : Routine α} (hr : r.Leads may d P)
    (hr' : r'.Leads may d P) (hf : ∀ a m, P a m → (f a).Leads may m Q) :
    (if c then r >>= f else r' >>= f).Leads may d Q := by
  split
  · exact hr.bind hf
  · exact hr'.bind hf

theorem Leads.mono (hr : r.Leads may d P) (h : ∀ a e, P a e → P' a e) : r.Leads may d P' :=
  fun a e ha => h a e (hr a e ha)

/-- Two ways to go on are one if they agree on all that the routine may end with. -/
theorem bind_congr_of_ends (h : ∀ a d e, r.Ends (fun _ _ _ _ => True) d a e → f a = g a) :
    (r >>= f) = (r >>= g) := by
  show r.bind f = r.bind g
  induction r with
  | done a => exact h a (.empty ⟨0⟩) _ (.done a _)
  | step o next ih =>
    unfold Routine.bind
    congr 1
    funext x
    exact ih x fun a d e hx => h a d e (.step trivial hx)

end Leads

/-! ## What a routine leaves alone -/

/-- Each operation that the routine may come to keeps `R`, on any disk. -/
def Keeps (R : Disk → Disk → Prop) : Routine α → Prop
  | .done _ => True
  | .step o next => (∀ d, R d (d.perform o).2) ∧ ∀ x, (next x).Keeps R

theorem keeps_op {o : Disk.Op} (h : ∀ d, R d (d.perform o).2) : (op o).Keeps R :=
  ⟨h, fun _ => trivial⟩

theorem Keeps.bind {r : Routine α} {f : α → Routine β} (hr : r.Keeps R)
    (hf : ∀ a, (f a).Keeps R) : (r.bind f).Keeps R := by
  induction r with
  | done a => exact hf a
  | step o next ih => exact ⟨hr.1, fun x => ih x (hr.2 x)⟩

theorem Keeps.mono {Q : Disk → Disk → Prop} {r : Routine α} (hr : r.Keeps Q)
    (h : ∀ d e, Q d e → R d e) : r.Keeps R := by
  induction r with
  | done a => trivial
  | step o next ih => exact ⟨fun d => h _ _ (hr.1 d), fun x => ih x (hr.2 x)⟩

end Routine

/-- What an operation keeps when it is performed, and others keep too, it keeps in their world. -/
theorem Disk.Conduct.Within.kept (hmay : may.Within R) (htrans : ∀ {a b c}, R a b → R b c → R a c)
    {o : Op} (h : ∀ d, R d (d.perform o).2) {x : o.Answer} (hx : may o d x e) : R d e := by
  obtain ⟨m, hc, hp | ⟨-, hf⟩⟩ := hmay hx
  · have hm := h m
    rw [hp] at hm
    exact htrans hc hm
  · exact htrans hc hf

namespace Routine

/-- What each operation keeps, and all that others do between them, is kept by the whole. -/
theorem Keeps.ends (hmay : may.Within R) (hrefl : ∀ d, R d d)
    (htrans : ∀ {a b c}, R a b → R b c → R a c) {r : Routine α} (h : r.Keeps R) {a : α}
    (hr : r.Ends may d a e) : R d e := by
  induction r generalizing d with
  | done b =>
    obtain ⟨-, rfl⟩ := ends_done.mp hr
    exact hrefl _
  | step o next ih =>
    obtain ⟨x, m, hx, hn⟩ := ends_step.mp hr
    exact htrans (hmay.kept htrans h.1 hx) (ih x (h.2 x) hn)

/-- So it is by a routine that runs alone. -/
theorem Keeps.run (hrefl : ∀ d, R d d) (htrans : ∀ {a b c}, R a b → R b c → R a c)
    {r : Routine α} (h : r.Keeps R) (d : Disk) : R d (r.run d).2 := by
  induction r generalizing d with
  | done a => exact hrefl d
  | step o next ih => exact htrans (h.1 d) (ih _ (h.2 _) _)

end Routine

/-! ## Attempts -/

namespace Attempt

def Ends (may : Disk.Conduct) (r : Attempt ε α) (d : Disk) (x : Except ε α) (e : Disk) : Prop :=
  r.outcome.Ends may d x e

theorem ends_pure {a : α} {x : Except ε α} :
    (pure a : Attempt ε α).Ends may d x e ↔ x = .ok a ∧ e = d := Routine.ends_done

theorem ends_fail {y : ε} {x : Except ε α} :
    (fail y : Attempt ε α).Ends may d x e ↔ x = .error y ∧ e = d := Routine.ends_done

theorem ends_bind {r : Attempt ε α} {f : α → Attempt ε β} {x : Except ε β} :
    (r >>= f).Ends may d x e ↔
      (∃ a m, r.Ends may d (.ok a) m ∧ (f a).Ends may m x e) ∨
        ∃ y, r.Ends may d (.error y) e ∧ x = .error y := by
  show (r.outcome.bind _).Ends may d x e ↔ _
  rw [Routine.ends_bind]
  constructor
  · rintro ⟨z, m, hr, hf⟩
    cases z with
    | ok a => exact .inl ⟨a, m, hr, hf⟩
    | error y =>
      obtain ⟨rfl, rfl⟩ := Routine.ends_done.mp hf
      exact .inr ⟨y, hr, rfl⟩
  · rintro (⟨a, m, hr, hf⟩ | ⟨y, hr, rfl⟩)
    · exact ⟨_, m, hr, hf⟩
    · exact ⟨_, e, hr, .done _ _⟩

theorem ends_always {r : Routine α} {x : Except ε α} :
    (always r : Attempt ε α).Ends may d x e ↔ ∃ a, r.Ends may d a e ∧ x = .ok a := by
  show (r.bind _).Ends may d x e ↔ _
  rw [Routine.ends_bind]
  constructor
  · rintro ⟨a, m, hr, hf⟩
    obtain ⟨rfl, rfl⟩ := Routine.ends_done.mp hf
    exact ⟨a, hr, rfl⟩
  · rintro ⟨a, hr, rfl⟩
    exact ⟨a, e, hr, .done _ _⟩

theorem ends_because {cause : δ → ε} {r : Attempt δ α} {x : Except ε α} :
    (because cause r).Ends may d x e ↔ ∃ y, r.Ends may d y e ∧ x = y.mapError cause := by
  show (r.outcome.bind _).Ends may d x e ↔ _
  rw [Routine.ends_bind]
  constructor
  · rintro ⟨y, m, hr, hf⟩
    obtain ⟨rfl, rfl⟩ := Routine.ends_done.mp hf
    exact ⟨y, hr, rfl⟩
  · rintro ⟨y, hr, rfl⟩
    exact ⟨y, e, hr, .done _ _⟩

theorem ends_caught {r : Attempt δ α} {x : Except ε (Except δ α)} :
    (caught r : Attempt ε (Except δ α)).Ends may d x e ↔ ∃ y, r.Ends may d y e ∧ x = .ok y :=
  ends_always

def Keeps (R : Disk → Disk → Prop) (r : Attempt ε α) : Prop := r.outcome.Keeps R

theorem keeps_pure (a : α) : (pure a : Attempt ε α).Keeps R := trivial

theorem keeps_fail (y : ε) : (fail y : Attempt ε α).Keeps R := trivial

theorem Keeps.bind {r : Attempt ε α} {f : α → Attempt ε β} (hr : r.Keeps R)
    (hf : ∀ a, (f a).Keeps R) : (r >>= f).Keeps R :=
  Routine.Keeps.bind (r := r.outcome) hr fun x =>
    match x with
    | .ok a => hf a
    | .error _ => trivial

theorem keeps_always {r : Routine α} (hr : r.Keeps R) : (always r : Attempt ε α).Keeps R :=
  Routine.Keeps.bind hr fun _ => trivial

theorem Keeps.because {cause : δ → ε} {r : Attempt δ α} (hr : r.Keeps R) :
    (because cause r).Keeps R :=
  Routine.Keeps.bind (r := r.outcome) hr fun _ => trivial

end Attempt

/-! ## Looking at things -/

namespace Disk

/-- Looking at things leaves the disk as it is. -/
theorem perform_read (d : Disk) (p : Path) : (d.perform (.read p)).2 = d := by
  show (d.onPlace p _).2 = d
  unfold onPlace
  split <;> rfl

theorem perform_find (d : Disk) (p : Path) : (d.perform (.find p)).2 = d := by
  show (d.onPlace p _).2 = d
  unfold onPlace
  split <;> rfl

theorem keeps_look (hrefl : ∀ d, R d d) (p : Path) : (look p).Keeps R :=
  (Routine.keeps_op fun d => by rw [perform_find]; exact hrefl d).bind fun _ => trivial

/-! ## The clock -/

/-- No operation changes the clock. -/
theorem clock_perform (d : Disk) (o : Op) : (d.perform o).2.clock = d.clock := by
  have hplace : ∀ {α : Type} (q : Path) (f : Place → Except OsError α × Disk),
      (∀ l, (f l).2.clock = d.clock) → (d.onPlace q f).2.clock = d.clock := by
    intro α q f hf
    unfold onPlace
    split
    · rfl
    · exact hf _
  cases o with
  | now => rfl
  | find q => exact hplace q _ fun _ => rfl
  | read q => exact hplace q _ fun _ => rfl
  | create q => exact hplace q _ fun l => by unfold createFile; split <;> rfl
  | truncate q => exact hplace q _ fun l => by unfold truncateFile; split <;> rfl
  | append q b =>
    refine hplace q _ fun l => ?_
    unfold appendFile
    split
    · rfl
    · dsimp only
      split <;> rfl
    · rfl
  | rename q r =>
    refine hplace q _ fun a => hplace r _ fun b => ?_
    have hmove : ∀ n, (d.move a b n).clock = d.clock := by
      intro n
      unfold move
      split <;> rfl
    unfold renameNode
    split
    · rfl
    · split
      · rfl
      · split
        · rfl
        · split
          · rfl
          · split
            · rfl
            · exact hmove _
    · exact hmove _
  | remove q => exact hplace q _ fun l => by unfold removeFile; split <;> rfl
  | makeDirectory q => exact hplace q _ fun l => by unfold makeDirectoryAt; split <;> rfl

end Disk

end SensorCache
