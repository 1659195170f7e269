import SensorCache.Proofs.Refresh.SharedErrands
import SensorCache.Proofs.Refresh.Takeover

/-!
# Jobs at one lock

The tasks of one scheduler share its keeper and its lock. Each of them acts one operation on the disk
or one access to the keeper at a time, and the others do so in between in any order (`JobRace`). A job
runs from when it has got a guard until it sets out to give that back.

Of the jobs that run at most one has its own lock file in place. Another one is without its file only
if that was too old by a time that a check went by, unless some check has removed another file than it
had looked at, or some job one that it had not made (`running_jobs_keep_locks`).
-/

namespace SensorCache

open Disk Time

/-- What a task of a scheduler may be about: a task at the lock, or a check of it as if it were some
time. -/
inductive SharedTask where
  | lock (t : LockTask)
  | checkAt (now : Instant)
  deriving DecidableEq

/-- The times that a task is told. -/
def SharedTask.told : SharedTask → List Instant
  | .lock _ => []
  | .checkAt now => [now]

/-- How a task with a guard, or without one, sets out, if it can. -/
def SharedLock.setOut (c : SharedLock) (g : Option LockGuard) :
    SharedTask → Option (Thread Keeper (Option LockGuard))
  | .lock .acquire => if g.isSome then none else some do return (← c.acquire).toOption.join
  | .lock (.fire check) => if g.isSome then none else some do c.fire check; return none
  | .lock .recover => if g.isSome then none else some do let _ ← c.recover; return none
  | .lock .release => g.map fun h => do let _ ← c.release h; return none
  | .checkAt now => if g.isSome then none else some do let _ ← c.checkAt now; return none

/-- A task that is left alone does what a process with the same errand does. -/
theorem SharedLock.alone_setOut {k : Keeper} {g : Option LockGuard} {t : LockTask}
    {y : Thread Keeper (Option LockGuard)} (hy : k.shared.setOut g (.lock t) = some y) :
    (Process.setOut g k t).map Process.rest = some (y.alone k) := by
  cases t with
  | acquire =>
    obtain ⟨hg, hy⟩ := Option.ite_none_left_eq_some.mp hy
    cases hy
    obtain rfl := Option.not_isSome_iff_eq_none.mp hg
    rw [Thread.alone_bind, alone_acquire]
    rfl
  | fire check =>
    obtain ⟨hg, hy⟩ := Option.ite_none_left_eq_some.mp hy
    cases hy
    obtain rfl := Option.not_isSome_iff_eq_none.mp hg
    rw [Thread.alone_bind, alone_fire, bind_assoc]
    rfl
  | recover =>
    obtain ⟨hg, hy⟩ := Option.ite_none_left_eq_some.mp hy
    cases hy
    obtain rfl := Option.not_isSome_iff_eq_none.mp hg
    rw [Thread.alone_bind, alone_recover]
    rfl
  | release =>
    obtain ⟨h, rfl, rfl⟩ := Option.map_eq_some_iff.mp hy
    rw [Thread.alone_bind, alone_release]
    rfl

/-- Tasks that share a keeper and a lock. The rest is for telling what happens: the lock files that
came into their place are numbered; of each task it is known which of them it saw there last since it
set out, which one it made and has not removed, when that was, and under which number it was
counted; and the times that tasks went by are kept. -/
structure JobRace (ι : Type) where
  disk : Disk
  keeper : Keeper
  /-- What a task still has to do. That ends with the guard that it has then. -/
  task : ι → Thread Keeper (Option LockGuard)
  /-- The number of the last lock file. -/
  file : Nat
  looked : ι → Option Nat
  own : ι → Option Nat
  born : ι → Instant
  number : ι → Option Nat
  /-- The times that tasks read from the clock, or were told. -/
  asOf : List Instant
  /-- A task has removed a file that it had not made, although it had made another one or had not seen
  that one last. -/
  strayed : Bool
  /-- The clock has never gone back, and no task was told a time to come. -/
  timely : Bool

namespace JobRace

variable {ι : Type}

/-- The task has the lock and is at its updates. -/
def runs (w : JobRace ι) (i : ι) : Bool :=
  match w.task i with
  | .done g => g.isSome
  | _ => false

/-- The lock file that the task made is in its place. -/
def Keeps (p : Path) (w : JobRace ι) (i : ι) : Prop := w.own i = some w.file ∧ w.disk.Present p

/-- What is of this time was older than it may be at a time that some task went by. -/
def TooOld (limit : Span) (w : JobRace ι) (t : Instant) : Prop := ∃ now ∈ w.asOf, limit < now.since t

/-- The lock file that the task made was older than it may be. -/
def Overdue (limit : Span) (w : JobRace ι) (i : ι) : Prop := w.TooOld limit (w.born i)

/-- The number of the last lock file when the disk has become `e`. -/
def fileAfter (p : Path) (w : JobRace ι) (e : Disk) : Nat :=
  if e.Present p ∧ ¬w.disk.Present p then w.file + 1 else w.file

section Events

variable [DecidableEq ι]

/-- After a task got the answer `x` to an operation, with `rest` left to do. -/
def after (p : Path) (w : JobRace ι) (i : ι) (o : Op) (x : o.Answer) (e : Disk)
    (rest : Thread Keeper (Option LockGuard)) : JobRace ι :=
  { w with
    disk := e
    task := Function.update w.task i rest
    file := w.fileAfter p e
    looked := Function.update w.looked i
      (match o.saw p x with
      | some seen => seen.map fun _ => w.file
      | none => w.looked i)
    own := Function.update w.own i
      (if o.took x then none else if (o.made x).isSome then some (w.fileAfter p e) else w.own i)
    born := Function.update w.born i ((o.made x).getD (w.born i))
    asOf := (o.timeRead x).toList ++ w.asOf
    strayed := w.strayed || (o.took x && w.own i != some w.file &&
      ((w.own i).isSome || w.looked i != some w.file)) }

/-- After a task changed the keeper to `k`. -/
def accessed (w : JobRace ι) (i : ι) (k : Keeper) (rest : Thread Keeper (Option LockGuard)) :
    JobRace ι :=
  { w with
    keeper := k
    task := Function.update w.task i rest
    number := Function.update w.number i
      (if k.ownership.generations = w.keeper.ownership.generations then w.number i
      else some k.ownership.generations) }

/-- After a task set out. One that does not give back its lock has none. -/
def sent (w : JobRace ι) (i : ι) (t : SharedTask) (rest : Thread Keeper (Option LockGuard)) :
    JobRace ι :=
  { w with
    task := Function.update w.task i rest
    looked := Function.update w.looked i none
    own := Function.update w.own i (if t = .lock .release then w.own i else none)
    number := Function.update w.number i (if t = .lock .release then w.number i else none)
    asOf := t.told ++ w.asOf
    timely := w.timely && decide (∀ now ∈ t.told, now ≤ w.disk.clock) }

/-- After others have changed the disk. -/
def beside (p : Path) (w : JobRace ι) (e : Disk) : JobRace ι :=
  { w with
    disk := e
    file := w.fileAfter p e
    timely := w.timely && decide (w.disk.clock ≤ e.clock) }

/-- What others do at the lock file: nothing, or something where no lock file is, or they take away
one that no task has made. -/
inductive Spares (p : Path) (w : JobRace ι) (e : Disk) : Prop where
  | leaves : (∀ n, e.view p = .ok n ↔ w.disk.view p = .ok n) → Spares p w e
  | brings : ¬w.disk.Present p → Spares p w e
  | takes : ¬e.Present p → (∀ i, w.own i ≠ some w.file) → Spares p w e

/-- What may happen: an operation of a task, which may also fail for a reason of its own; an access to
the keeper; a task sets out; something else about the keeper changes; or others act on the disk, or
the clock is changed. -/
inductive Step (c : SharedLock) : JobRace ι → JobRace ι → Prop where
  | acts {w : JobRace ι} {i : ι} {o : Op} {next : o.Answer → Thread Keeper (Option LockGuard)}
    {x : o.Answer} {e : Disk} : w.task i = .step o next → Answers w.disk o x e →
      Step c w (w.after c.lock.path i o x e (next x))
  | accesses {w : JobRace ι} {i : ι} {change : Keeper → Keeper}
    {next : Keeper → Thread Keeper (Option LockGuard)} : w.task i = .access change next →
      Step c w (w.accessed i (change w.keeper) (next w.keeper))
  | setsOut {w : JobRace ι} {i : ι} {g : Option LockGuard} (t : SharedTask)
    {y : Thread Keeper (Option LockGuard)} : w.task i = .done g → c.setOut g t = some y →
      Step c w (w.sent i t y)
  | tends {w : JobRace ι} {k : Keeper} : Keeper.Alike w.keeper k → Step c w { w with keeper := k }
  | others {w : JobRace ι} {e : Disk} : w.Spares c.lock.path e → Step c w (w.beside c.lock.path e)

/-- Tasks at rest, on any disk. A lock file that is there is nobody's. -/
def start (d : Disk) (k : Keeper) : JobRace ι :=
  { disk := d
    keeper := k
    task := fun _ => .done none
    file := 0
    looked := fun _ => none
    own := fun _ => none
    born := fun _ => d.clock
    number := fun _ => none
    asOf := []
    strayed := false
    timely := true }

/-- What the tasks of a scheduler may come to. -/
inductive Reaches (c : SharedLock) : JobRace ι → Prop where
  | start (d : Disk) {k : Keeper} : k.shared = c → k.ownership = .none → Reaches c (start d k)
  | step {w w' : JobRace ι} : Reaches c w → Step c w w' → Reaches c w'

end Events

/-! ## What tasks know -/

/-- What a task with this mind knows of the present: the times it goes by are known, the lock file
that it saw last has not been changed, and what it made, counted and took is what is told of it. -/
structure Knows (p : Path) (w : JobRace ι) (i : ι) (m : TaskMind) : Prop where
  asOf : ∀ t ∈ m.times, t ∈ w.asOf
  seen : w.looked i = some w.file → ∀ t, w.disk.FileOf p t → m.seen = some t
  made : m.made = (w.own i).map fun _ => w.born i
  number : m.number = w.number i
  taken : ∀ h ∈ m.taken, h.created = w.born i

/-- The task does what the watch allows, from what it knows. -/
def Heeds (c : SharedLock) (w : JobRace ι) (i : ι) : Prop :=
  ∃ m, Knows c.lock.path w i m ∧ (w.task i).Obeys c.watch (fun m g => ∀ h ∈ g, m.Has h) m

/-- The lock file that a task made, the `n`th, is gone, and was too old. As long as all is timely, who
made a later one did so later. -/
structure Lost (p : Path) (limit : Span) (w : JobRace ι) (i : ι) (n : Nat) : Prop where
  gone : n = w.file → ¬w.disk.Present p
  overdue : w.Overdue limit i
  before : w.timely → ∀ j n', w.own j = some n' → n < n' → w.born i < w.born j

/-- Each task has a file of its own, and one whose file is gone has kept it too long. -/
structure Placed (p : Path) (limit : Span) (w : JobRace ι) : Prop where
  looked_le : ∀ i n, w.looked i = some n → n ≤ w.file
  own_le : ∀ i n, w.own i = some n → n ≤ w.file
  apart : ∀ i j n, w.own i = some n → w.own j = some n → i = j
  kept : w.strayed = false → ∀ i n, w.own i = some n →
    (n = w.file ∧ w.disk.FileOf p (w.born i)) ∨ w.Lost p limit i n
  past : w.timely → ∀ now ∈ w.asOf, now ≤ w.disk.clock

/-- Each acquisition has a number of its own, under which the keeper remembers when it was. -/
structure Counted (w : JobRace ι) : Prop where
  le : ∀ i n, w.number i = some n → n ≤ w.keeper.ownership.generations
  apart : ∀ i j n, w.number i = some n → w.number j = some n → i = j
  held_le : ∀ h ∈ w.keeper.ownership.holding, h.generation ≤ w.keeper.ownership.generations
  held : ∀ h ∈ w.keeper.ownership.holding, ∀ i, w.number i = some h.generation →
    h.created = w.born i

structure Orderly (c : SharedLock) (w : JobRace ι) : Prop where
  heeds : ∀ i, w.Heeds c i
  placed : w.Placed c.lock.path c.maxAge
  counted : w.Counted

variable {p : Path} {limit : Span} {c : SharedLock} {w w' : JobRace ι} {i j : ι} {d e : Disk}
  {m : TaskMind}

/-! ## Numbers of files -/

theorem le_fileAfter : w.file ≤ w.fileAfter p e := by
  unfold fileAfter
  split
  · exact Nat.le_succ _
  · exact Nat.le_refl _

theorem fileAfter_of_stays (h : e.Present p → w.disk.Present p) : w.fileAfter p e = w.file :=
  if_neg fun hboth => hboth.2 (h hboth.1)

theorem fileAfter_of_makes (hd : ¬w.disk.Present p) (he : e.Present p) :
    w.fileAfter p e = w.file + 1 :=
  if_pos ⟨he, hd⟩

/-- A file that keeps its number was there before. -/
theorem file_of_number {n : Nat} {t : Instant} (h : Gradual p w.disk e) (hle : n ≤ w.file)
    (hn : n = w.fileAfter p e) (ht : e.FileOf p t) : n = w.file ∧ w.disk.FileOf p t := by
  rcases h with hsame | hd | he
  · rw [fileAfter_of_stays (present_of_leaves hsame)] at hn
    exact ⟨hn, (fileOf_of_leaves hsame).mp ht⟩
  · rw [fileAfter_of_makes hd ht.present] at hn
    omega
  · exact absurd ht.present he

/-- Nor is there one again with the number of a file that is gone. -/
theorem not_present_of_number {n : Nat} (hle : n ≤ w.file) (hgone : n = w.file → ¬w.disk.Present p)
    (hn : n = w.fileAfter p e) : ¬e.Present p := by
  intro he
  by_cases hd : w.disk.Present p
  · rw [fileAfter_of_stays fun _ => hd] at hn
    exact hgone hn hd
  · rw [fileAfter_of_makes hd he] at hn
    omega

theorem Spares.gradual (h : w.Spares p e) : Gradual p w.disk e := by
  cases h with
  | leaves hsame => exact .inl hsame
  | brings hd => exact .inr (.inl hd)
  | takes he _ => exact .inr (.inr he)

/-! ## Knowing on -/

/-- What is told of the task is as it was. -/
structure SameTask (w w' : JobRace ι) (i : ι) : Prop where
  task : w'.task i = w.task i
  looked : w'.looked i = w.looked i
  own : w'.own i = w.own i
  born : w'.born i = w.born i
  number : w'.number i = w.number i

theorem Knows.congr (hk : Knows p w i m) (h : SameTask w w' i) (hdisk : w'.disk = w.disk)
    (hfile : w'.file = w.file) (hasOf : w.asOf ⊆ w'.asOf) : Knows p w' i m := by
  refine ⟨fun t ht => hasOf (hk.asOf t ht), ?_, ?_, ?_, ?_⟩
  · rw [h.looked, hfile, hdisk]
    exact hk.seen
  · rw [h.own, h.born]
    exact hk.made
  · rw [h.number]
    exact hk.number
  · rw [h.born]
    exact hk.taken

theorem Heeds.congr (h : w.Heeds c i) (hsame : SameTask w w' i) (hdisk : w'.disk = w.disk)
    (hfile : w'.file = w.file) (hasOf : w.asOf ⊆ w'.asOf) : w'.Heeds c i := by
  obtain ⟨m, hm, hobeys⟩ := h
  exact ⟨m, hm.congr hsame hdisk hfile hasOf, hsame.task ▸ hobeys⟩

/-- Who does not act knows still what it knew. -/
theorem Knows.beside (hk : Knows p w i m) (hle : ∀ n, w.looked i = some n → n ≤ w.file)
    (h : Gradual p w.disk e) : Knows p (w.beside p e) i m := by
  refine ⟨hk.asOf, fun hseen t ht => ?_, hk.made, hk.number, hk.taken⟩
  obtain ⟨hfile, ht⟩ := file_of_number h (hle _ hseen) rfl ht
  exact hk.seen (hseen.trans (congrArg some hfile)) t ht

theorem Heeds.beside (h : w.Heeds c i) (hle : ∀ n, w.looked i = some n → n ≤ w.file)
    (hgradual : Gradual c.lock.path w.disk e) : (w.beside c.lock.path e).Heeds c i := by
  obtain ⟨m, hm, hobeys⟩ := h
  exact ⟨m, hm.beside hle hgradual, hobeys⟩

/-! ## What leaves the tasks where they are -/

theorem Orderly.tends {k : Keeper} (h : Orderly c w) (hk : Keeper.Alike w.keeper k) :
    Orderly c { w with keeper := k } := by
  have hownership : k.ownership = w.keeper.ownership := hk.ownership
  have hplaced := h.placed
  refine ⟨fun j => (h.heeds j).congr ⟨rfl, rfl, rfl, rfl, rfl⟩ rfl rfl (List.Subset.refl _),
    ⟨hplaced.looked_le, hplaced.own_le, hplaced.apart, fun hcalm j n hn => ?_, hplaced.past⟩, ?_,
    h.counted.apart, ?_, ?_⟩
  · exact (hplaced.kept hcalm j n hn).imp_right fun hlost => ⟨hlost.gone, hlost.overdue, hlost.before⟩
  · intro j n hj
    show n ≤ k.ownership.generations
    rw [hownership]
    exact h.counted.le j n hj
  · show ∀ a ∈ k.ownership.holding, a.generation ≤ k.ownership.generations
    rw [hownership]
    exact h.counted.held_le
  · show ∀ a ∈ k.ownership.holding, ∀ j, w.number j = some a.generation → a.created = w.born j
    rw [hownership]
    exact h.counted.held

theorem Placed.others (h : Placed p limit w) (he : w.Spares p e) :
    Placed p limit (w.beside p e) := by
  refine ⟨fun j n hn => Nat.le_trans (h.looked_le j n hn) le_fileAfter,
    fun j n hn => Nat.le_trans (h.own_le j n hn) le_fileAfter, h.apart, fun hcalm j n hn => ?_,
    fun htimely now hnow => ?_⟩
  · rcases h.kept hcalm j n hn with ⟨rfl, hfile⟩ | hlost
    · cases he with
      | leaves hsame =>
        exact .inl ⟨(fileAfter_of_stays (present_of_leaves hsame)).symm,
          (fileOf_of_leaves hsame).mpr hfile⟩
      | brings hd => exact absurd hfile.present hd
      | takes _ hnone => exact absurd hn (hnone j)
    · exact .inr ⟨not_present_of_number (h.own_le j n hn) hlost.gone, hlost.overdue,
        fun htimely => hlost.before (Bool.and_eq_true_iff.mp htimely).1⟩
  · obtain ⟨htimely, hclock⟩ := Bool.and_eq_true_iff.mp htimely
    exact Int.le_trans (h.past htimely now hnow) (of_decide_eq_true hclock)

theorem Orderly.others (h : Orderly c w) (he : w.Spares c.lock.path e) :
    Orderly c (w.beside c.lock.path e) :=
  ⟨fun j => (h.heeds j).beside (h.placed.looked_le j) he.gradual, h.placed.others he,
    ⟨h.counted.le, h.counted.apart, h.counted.held_le, h.counted.held⟩⟩

theorem orderly_start (d : Disk) {k : Keeper} (hk : k.ownership = .none) :
    Orderly c (start d k : JobRace ι) := by
  refine ⟨fun i => ?_, ⟨nofun, nofun, nofun, nofun, nofun⟩, ⟨nofun, nofun, ?_, ?_⟩⟩
  · exact ⟨⟨[], none, none, none, none⟩, ⟨nofun, nofun, rfl, rfl, nofun⟩, nofun⟩
  · show ∀ a ∈ k.ownership.holding, _
    rw [hk]
    exact nofun
  · show ∀ a ∈ k.ownership.holding, _
    rw [hk]
    exact nofun

/-! ## Files of one's own -/

/-- As long as all is timely, what was too old was made before. -/
theorem Placed.born_lt (h : Placed p limit w) (htimely : w.timely) (hlong : w.Overdue limit j) :
    w.born j < w.disk.clock := by
  obtain ⟨now, hnow, hlt⟩ := hlong
  exact Instant.lt_of_lt_since (Instant.lt_since_of_le hlt (h.past htimely now hnow))

/-- A job whose lock file is in its place made it at the time that the file has. -/
theorem Placed.fileOf_of_keeps (h : Placed p limit w) (hcalm : w.strayed = false)
    (hi : w.Keeps p i) : w.disk.FileOf p (w.born i) := by
  rcases h.kept hcalm i _ hi.1 with ⟨-, hfile⟩ | hlost
  · exact hfile
  · exact absurd hi.2 (hlost.gone rfl)

/-- As long as all is timely, a file with the time at which a task made its own is no other task's. -/
theorem Placed.eq_of_keeps (h : Placed p limit w) (hcalm : w.strayed = false) (htimely : w.timely)
    (hi : w.own i ≠ none) (hj : w.Keeps p j) (ht : w.disk.FileOf p (w.born i)) : j = i := by
  obtain ⟨n, hn⟩ := Option.ne_none_iff_exists'.mp hi
  have hsame : w.born i = w.born j := ht.unique (h.fileOf_of_keeps hcalm hj)
  by_contra hji
  have hne : n ≠ w.file := by
    rintro rfl
    exact hji (h.apart j i _ hj.1 hn)
  rcases h.kept hcalm i n hn with ⟨heq, -⟩ | hlost
  · exact hne heq
  · have hlt := hlost.before htimely j _ hj.1 (Nat.lt_of_le_of_ne (h.own_le i n hn) hne)
    rw [hsame] at hlt
    exact Int.lt_irrefl _ hlt

/-- A job that runs has made a lock file. -/
theorem Orderly.own_of_runs (h : Orderly c w) (hi : w.runs i) : ∃ n, w.own i = some n := by
  obtain ⟨m, hk, hobeys⟩ := h.heeds i
  unfold runs at hi
  split at hi
  · next g htask =>
    rw [htask] at hobeys
    obtain ⟨a, rfl⟩ := Option.isSome_iff_exists.mp hi
    have hmade := (hobeys a rfl).1
    rw [hk.made, Option.isSome_map] at hmade
    exact Option.isSome_iff_exists.mp hmade
  · cases hi

section Events

variable [DecidableEq ι] {o : Op} {x : o.Answer} {rest : Thread Keeper (Option LockGuard)}

/-! ## One operation -/

theorem task_after : (w.after p i o x e rest).task i = rest := Function.update_self ..

theorem born_after : (w.after p i o x e rest).born i = (o.made x).getD (w.born i) :=
  Function.update_self ..

theorem sameTask_after (hj : j ≠ i) : SameTask (w.beside p e) (w.after p i o x e rest) j :=
  ⟨Function.update_of_ne hj .., Function.update_of_ne hj .., Function.update_of_ne hj ..,
    Function.update_of_ne hj .., rfl⟩

/-- A file is a task's own after an operation if it was, or if the task has just made it. -/
theorem own_after {n : Nat} (hn : (w.after p i o x e rest).own j = some n) :
    (w.own j = some n ∧ (w.after p i o x e rest).born j = w.born j ∧ (j = i → o.took x = false)) ∨
      (j = i ∧ n = w.fileAfter p e ∧ o.made x = some ((w.after p i o x e rest).born j)) := by
  by_cases hj : j = i
  · subst hj
    rw [show (w.after p j o x e rest).own j = _ from Function.update_self ..] at hn
    rw [born_after]
    cases htook : o.took x with
    | true => simp [htook] at hn
    | false =>
      cases hmade : o.made x with
      | none =>
        left
        simpa [htook, hmade] using hn
      | some t =>
        right
        simpa [htook, hmade, eq_comm] using hn
  · have hsame : SameTask (w.beside p e) (w.after p i o x e rest) j := sameTask_after hj
    exact .inl ⟨hsame.own.symm.trans hn, hsame.born, fun h => absurd h hj⟩

theorem looked_after_le (hle : ∀ j n, w.looked j = some n → n ≤ w.file) {n : Nat}
    (hn : (w.after p i o x e rest).looked j = some n) : n ≤ w.fileAfter p e := by
  refine Nat.le_trans ?_ le_fileAfter
  by_cases hj : j = i
  · subst hj
    rw [show (w.after p j o x e rest).looked j = _ from Function.update_self ..] at hn
    split at hn
    · next seen hseen =>
      cases seen with
      | none => cases hn
      | some t =>
        cases hn
        exact Nat.le_refl _
    · exact hle j n hn
  · exact hle j n ((sameTask_after hj).looked.symm.trans hn)

/-- A task that got an answer knows what that tells. -/
theorem Knows.learns (hk : Knows c.lock.path w i m) (hle : ∀ n, w.looked i = some n → n ≤ w.file)
    (hallows : c.watch.allows m o) (hx : Answers w.disk o x e) :
    Knows c.lock.path (w.after c.lock.path i o x e rest) i (c.watch.note m o x) := by
  have hlooked : (w.after c.lock.path i o x e rest).looked i = _ := Function.update_self ..
  have hown : (w.after c.lock.path i o x e rest).own i = _ := Function.update_self ..
  refine ⟨fun t ht => ?_, fun hseen t ht => ?_, ?_, hk.number, fun h hh => ?_⟩
  · exact List.mem_append.mpr ((List.mem_append.mp ht).imp_right (hk.asOf t))
  · show (o.saw c.lock.path x).getD m.seen = some t
    rw [hlooked] at hseen
    cases hsaw : o.saw c.lock.path x with
    | none =>
      rw [hsaw] at hseen
      have hgradual := (hx.touches (SharedLock.concerns_of_watch hallows)).gradual
      obtain ⟨hfile, ht⟩ := file_of_number hgradual (hle _ hseen) rfl ht
      exact hk.seen (hseen.trans (congrArg some hfile)) t ht
    | some seen =>
      rw [hsaw] at hseen
      have hsome : seen.isSome := by
        cases seen with
        | none => cases hseen
        | some _ => rfl
      exact hx.seen_eq hsaw hsome ht
  · show (if o.took x then none else (o.made x).or m.made) = _
    rw [hown, born_after, hk.made]
    cases o.took x <;> cases o.made x <;> rfl
  · rw [born_after]
    cases hmade : o.made x with
    | none => exact hk.taken h hh
    | some t =>
      -- Who makes the file has taken nothing.
      have htaken : m.taken = none := (SharedLock.free_of_made hallows hmade).taken
      have hh' : h ∈ m.taken := hh
      rw [htaken] at hh'
      cases hh'

/-- What a task removes without straying is no other's file, unless that was too old. -/
theorem Placed.taken (h : Placed c.lock.path c.maxAge w) (hk : Knows c.lock.path w i m)
    (hallows : c.watch.allows m o) (htook : o.took x = true)
    (hcalm : (w.after c.lock.path i o x e rest).strayed = false) (hj : w.own j = some w.file)
    (hji : j ≠ i) (hfile : w.disk.FileOf c.lock.path (w.born j)) : w.Overdue c.maxAge j := by
  obtain ⟨-, hnostray⟩ := Bool.or_eq_false_iff.mp hcalm
  have hown : w.own i ≠ some w.file := fun hi => hji (h.apart j i _ hj hi)
  obtain ⟨hnone, hlooked⟩ : w.own i = none ∧ w.looked i = some w.file := by
    simpa [htook, hown] using hnostray
  have hseen : m.seen = some (w.born j) := hk.seen hlooked _ hfile
  rcases SharedLock.tooOld_or_seesOwn hallows htook with ⟨now, hnow, t, ht, hlt⟩ | ⟨hmade, -⟩
  · rw [hseen] at ht
    cases ht
    exact ⟨now, hk.asOf now hnow, hlt⟩
  · rw [hk.made, hnone] at hmade
    cases hmade

/-- Who made a file later made it at a later time, if that of the others was in the past. -/
theorem born_lt_after (hmade : ∀ {t}, o.made x = some t → t = w.disk.clock) {n : Nat}
    (hborn : (w.after p i o x e rest).born j = w.born j) (hpast : w.born j < w.disk.clock)
    (hbefore : ∀ j' n', w.own j' = some n' → n < n' → w.born j < w.born j') (j' : ι) (n' : Nat)
    (hn' : (w.after p i o x e rest).own j' = some n') (hlt : n < n') :
    (w.after p i o x e rest).born j < (w.after p i o x e rest).born j' := by
  rw [hborn]
  rcases own_after hn' with ⟨hold', hborn', -⟩ | ⟨-, -, ht'⟩
  · rw [hborn']
    exact hbefore j' n' hold' hlt
  · rw [hmade ht']
    exact hpast

theorem Placed.acts (h : Placed c.lock.path c.maxAge w) (hk : Knows c.lock.path w i m)
    (hallows : c.watch.allows m o) (hx : Answers w.disk o x e) :
    Placed c.lock.path c.maxAge (w.after c.lock.path i o x e rest) := by
  have htouch := hx.touches (SharedLock.concerns_of_watch hallows)
  -- What is made is new, and is made now.
  have hmade : ∀ {t}, o.made x = some t →
      w.fileAfter c.lock.path e = w.file + 1 ∧ e.FileOf c.lock.path t ∧ t = w.disk.clock := by
    intro t ht
    obtain ⟨hd, he⟩ := htouch.of_made ht
    exact ⟨fileAfter_of_makes hd he.1.present, he⟩
  have hclock : ∀ {t}, o.made x = some t → t = w.disk.clock := fun ht => (hmade ht).2.2
  refine ⟨fun j n hn => looked_after_le h.looked_le hn, fun j n hn => ?_, fun j j' n hn hn' => ?_,
    fun hcalm j n hn => ?_, fun htimely now hnow => ?_⟩
  · rcases own_after hn with ⟨hold, -, -⟩ | ⟨-, hnew, -⟩
    · exact Nat.le_trans (h.own_le j n hold) le_fileAfter
    · exact Nat.le_of_eq hnew
  · rcases own_after hn with ⟨hold, -, -⟩ | ⟨hji, hnew, ht⟩ <;>
      rcases own_after hn' with ⟨hold', -, -⟩ | ⟨hji', hnew', ht'⟩
    · exact h.apart j j' n hold hold'
    · have hle := h.own_le j n hold
      have hfile := (hmade ht').1
      omega
    · have hle := h.own_le j' n hold'
      have hfile := (hmade ht).1
      omega
    · exact hji.trans hji'.symm
  · have hcalm' : w.strayed = false := (Bool.or_eq_false_iff.mp hcalm).1
    rcases own_after hn with ⟨hold, hborn, hkeeps⟩ | ⟨-, hnew, ht⟩
    · have hstays : w.Overdue c.maxAge j → (w.after c.lock.path i o x e rest).Overdue c.maxAge j := by
        rintro ⟨now, hnow, hlt⟩
        exact ⟨now, List.mem_append.mpr (.inr hnow), hborn ▸ hlt⟩
      rcases h.kept hcalm' j n hold with ⟨rfl, hfile⟩ | hlost
      · cases htouch with
        | leaves hsame _ _ =>
          refine .inl ⟨(fileAfter_of_stays (present_of_leaves hsame)).symm, ?_⟩
          rw [hborn]
          exact (fileOf_of_leaves hsame).mpr hfile
        | makes hd _ _ _ => exact absurd hfile.present hd
        | takes _ habsent htook hnone =>
          have hji : j ≠ i := fun hji => by
            rw [hkeeps hji] at htook
            cases htook
          have hlong := h.taken hk hallows htook hcalm hold hji hfile
          have hlast : ∀ j' n', w.own j' = some n' → w.file < n' → w.born j < w.born j' :=
            fun j' n' hn' hlt => absurd (h.own_le j' n' hn') (Nat.not_le_of_lt hlt)
          exact .inr ⟨fun _ => habsent, hstays hlong, fun htimely =>
            born_lt_after hclock hborn (h.born_lt htimely hlong) hlast⟩
      · exact .inr ⟨not_present_of_number (h.own_le j n hold) hlost.gone, hstays hlost.overdue,
          fun htimely => born_lt_after hclock hborn (h.born_lt htimely hlost.overdue)
            (hlost.before htimely)⟩
    · exact .inl ⟨hnew, (hmade ht).2.1⟩
  · show now ≤ e.clock
    rw [hx.clock]
    rcases List.mem_append.mp hnow with hread | hold
    · rw [hx.timeRead_eq (Option.mem_toList.mp hread)]
      exact Int.le_refl _
    · exact h.past htimely now hold

theorem Counted.acts (h : Counted w) (hk : Knows p w i m) (hallows : c.watch.allows m o) :
    Counted (w.after p i o x e rest) := by
  refine ⟨h.le, h.apart, h.held_le, fun a ha j hj => ?_⟩
  have hold := h.held a ha j hj
  by_cases hji : j = i
  · subst hji
    rw [born_after]
    cases hmade : o.made x with
    | none => exact hold
    | some t =>
      -- Who makes the file has no number yet.
      have hnumber := hk.number.symm.trans (SharedLock.free_of_made hallows hmade).number
      cases hnumber.symm.trans hj
  · exact hold.trans (sameTask_after hji).born.symm

theorem Orderly.acts {next : o.Answer → Thread Keeper (Option LockGuard)} (h : Orderly c w)
    (htask : w.task i = .step o next) (hx : Answers w.disk o x e) :
    Orderly c (w.after c.lock.path i o x e (next x)) := by
  obtain ⟨m, hk, hobeys⟩ := h.heeds i
  rw [htask] at hobeys
  obtain ⟨hallows, hnext⟩ := hobeys
  refine ⟨fun j => ?_, h.placed.acts hk hallows hx, h.counted.acts hk hallows⟩
  by_cases hji : j = i
  · subst hji
    refine ⟨_, hk.learns (h.placed.looked_le j) hallows hx, ?_⟩
    rw [task_after]
    exact hnext x
  · have hgradual := (hx.touches (SharedLock.concerns_of_watch hallows)).gradual
    have hbeside := (h.heeds j).beside (h.placed.looked_le j) hgradual
    exact hbeside.congr (sameTask_after hji) rfl rfl (List.subset_append_right ..)

/-! ## One access -/

theorem task_accessed {k : Keeper} : (w.accessed i k rest).task i = rest := Function.update_self ..

theorem number_accessed {k : Keeper} : (w.accessed i k rest).number i =
    if k.ownership.generations = w.keeper.ownership.generations then w.number i
    else some k.ownership.generations := Function.update_self ..

theorem sameTask_accessed {k : Keeper} (hj : j ≠ i) : SameTask w (w.accessed i k rest) j :=
  ⟨Function.update_of_ne hj .., rfl, rfl, rfl, Function.update_of_ne hj ..⟩

theorem Knows.accesses {k : Keeper} (hk : Knows p w i m) (hcounted : Counted w) :
    Knows p (w.accessed i k rest) i (m.mark w.keeper.ownership k.ownership) := by
  refine ⟨hk.asOf, hk.seen, hk.made, ?_, fun a ha => ?_⟩
  · rw [number_accessed, ← hk.number]
    rfl
  · obtain ⟨n, hn, hheld⟩ := Option.bind_eq_some_iff.mp (show m.number.bind _ = some a from ha)
    obtain ⟨hholding, hgeneration⟩ := Option.filter_eq_some_iff.mp hheld
    refine hcounted.held a hholding i ?_
    rw [← hk.number, hn, eq_of_beq hgeneration]

/-- Unless a number is drawn all tasks keep theirs. -/
theorem number_of_sameCount {k : Keeper}
    (hcount : k.ownership.generations = w.keeper.ownership.generations) (j : ι) :
    (w.accessed i k rest).number j = w.number j := by
  by_cases hji : j = i
  · subst hji
    rw [number_accessed, if_pos hcount]
  · exact (sameTask_accessed hji).number

theorem Counted.sameCount {k : Keeper} (h : Counted w)
    (hcount : k.ownership.generations = w.keeper.ownership.generations)
    (hheld : ∀ a ∈ k.ownership.holding, a.generation ≤ w.keeper.ownership.generations ∧
      ∀ j, w.number j = some a.generation → a.created = w.born j) :
    Counted (w.accessed i k rest) := by
  have hnumber : ∀ j, (w.accessed i k rest).number j = w.number j := number_of_sameCount hcount
  refine ⟨fun j n hj => ?_, fun j j' n hj hj' => ?_, fun a ha => ?_, fun a ha j hj => ?_⟩
  · rw [hnumber] at hj
    exact hcount ▸ h.le j n hj
  · rw [hnumber] at hj hj'
    exact h.apart j j' n hj hj'
  · exact hcount ▸ (hheld a ha).1
  · rw [hnumber] at hj
    exact (hheld a ha).2 j hj

/-- A number that is drawn is a new one. -/
theorem Counted.draws {k : Keeper} (h : Counted w)
    (hk : k.ownership = ⟨w.keeper.ownership.generations + 1, w.keeper.ownership.holding⟩) :
    Counted (w.accessed i k rest) := by
  have hcount : k.ownership.generations = w.keeper.ownership.generations + 1 := by rw [hk]
  have hholding : k.ownership.holding = w.keeper.ownership.holding := by rw [hk]
  have hdrawn : ∀ {j n}, (w.accessed i k rest).number j = some n →
      (w.number j = some n ∧ n ≤ w.keeper.ownership.generations) ∨
        (j = i ∧ n = k.ownership.generations) := by
    intro j n hj
    by_cases hji : j = i
    · subst hji
      rw [number_accessed, if_neg (by omega)] at hj
      exact .inr ⟨rfl, (Option.some.inj hj).symm⟩
    · have hold := (sameTask_accessed hji).number.symm.trans hj
      exact .inl ⟨hold, h.le j n hold⟩
  refine ⟨fun j n hj => ?_, fun j j' n hj hj' => ?_, fun a ha => ?_, fun a ha j hj => ?_⟩
  · show n ≤ k.ownership.generations
    rcases hdrawn hj with ⟨-, hle⟩ | ⟨-, rfl⟩ <;> omega
  · rcases hdrawn hj with ⟨hold, hle⟩ | ⟨rfl, hn⟩ <;>
      rcases hdrawn hj' with ⟨hold', hle'⟩ | ⟨rfl, hn'⟩
    · exact h.apart j j' n hold hold'
    · omega
    · omega
    · rfl
  · have hle := h.held_le a (hholding ▸ ha)
    show a.generation ≤ k.ownership.generations
    omega
  · have hle := h.held_le a (hholding ▸ ha)
    rcases hdrawn hj with ⟨hold, -⟩ | ⟨-, hn⟩
    · exact h.held a (hholding ▸ ha) j hold
    · omega

theorem Counted.accesses {k : Keeper} (h : Counted w) (hk : Knows p w i m)
    (hchange : m.Changes w.keeper.ownership k.ownership) : Counted (w.accessed i k rest) := by
  cases hchange with
  | keeps heq =>
    refine h.sameCount (by rw [heq]) fun a ha => ?_
    rw [heq] at ha
    exact ⟨h.held_le a ha, h.held a ha⟩
  | clears heq =>
    refine h.sameCount (by rw [heq]; rfl) fun a ha => ?_
    rw [heq] at ha
    cases ha
  | draws _ _ heq => exact h.draws heq
  | remembers hnumber hmade heq =>
    refine h.sameCount (by rw [heq]) fun a ha => ?_
    rw [heq] at ha
    cases ha
    -- Nobody else has the number of the acquisition that is remembered.
    have hi := hk.number.symm.trans hnumber
    refine ⟨h.le i _ hi, fun j hj => ?_⟩
    obtain rfl := h.apart j i _ hj hi
    obtain ⟨n, -, hborn⟩ := Option.map_eq_some_iff.mp (hk.made.symm.trans hmade)
    exact hborn.symm

theorem Orderly.accesses {change : Keeper → Keeper} {next : Keeper → Thread Keeper (Option LockGuard)}
    (h : Orderly c w) (htask : w.task i = .access change next) :
    Orderly c (w.accessed i (change w.keeper) (next w.keeper)) := by
  obtain ⟨m, hk, hobeys⟩ := h.heeds i
  rw [htask] at hobeys
  obtain ⟨hpermits, hnext⟩ := hobeys w.keeper
  have hplaced := h.placed
  refine ⟨fun j => ?_, ⟨hplaced.looked_le, hplaced.own_le, hplaced.apart, fun hcalm j n hn => ?_,
    hplaced.past⟩, h.counted.accesses hk hpermits⟩
  · by_cases hji : j = i
    · subst hji
      refine ⟨_, hk.accesses h.counted, ?_⟩
      rw [task_accessed]
      exact hnext
    · exact (h.heeds j).congr (sameTask_accessed hji) rfl rfl (List.Subset.refl _)
  · exact (hplaced.kept hcalm j n hn).imp_right fun hlost => ⟨hlost.gone, hlost.overdue, hlost.before⟩

/-! ## Setting out -/

theorem sameTask_sent {t : SharedTask} (hj : j ≠ i) : SameTask w (w.sent i t rest) j :=
  ⟨Function.update_of_ne hj .., Function.update_of_ne hj .., Function.update_of_ne hj .., rfl,
    Function.update_of_ne hj ..⟩

/-- From what a task knows when it sets out, it does what the watch allows. -/
theorem obeys_setOut {g : Option LockGuard} {t : SharedTask} {y : Thread Keeper (Option LockGuard)}
    (hy : c.setOut g t = some y) (htold : ∀ now ∈ t.told, now ∈ m.times)
    (hfree : t ≠ .lock .release → m.Free) (hhas : t = .lock .release → ∀ h ∈ g, m.Has h) :
    y.Obeys c.watch (fun m g => ∀ h ∈ g, m.Has h) m := by
  rcases t with t | now
  · cases t with
    | acquire =>
      obtain ⟨-, hy⟩ := Option.ite_none_left_eq_some.mp hy
      cases hy
      exact (SharedLock.obeys_acquire (hfree nofun)).bind fun m a ha => ha.2
    | fire check =>
      obtain ⟨-, hy⟩ := Option.ite_none_left_eq_some.mp hy
      cases hy
      exact (SharedLock.obeys_fire check (hfree nofun)).bind fun m a _ => nofun
    | recover =>
      obtain ⟨-, hy⟩ := Option.ite_none_left_eq_some.mp hy
      cases hy
      exact (SharedLock.obeys_recover (hfree nofun)).bind fun m a _ => nofun
    | release =>
      obtain ⟨h, rfl, rfl⟩ := Option.map_eq_some_iff.mp hy
      exact (SharedLock.obeys_release (hhas rfl h rfl)).bind fun m a _ => nofun
  · obtain ⟨-, hy⟩ := Option.ite_none_left_eq_some.mp hy
    cases hy
    exact (SharedLock.obeys_checkAt (hfree nofun) (htold now (.head _))).bind fun m a _ => nofun

theorem eq_some_of_update {f : ι → Option Nat} {b : Prop} [Decidable b] {n : Nat}
    (hn : Function.update f i (if b then f i else none) j = some n) : f j = some n := by
  by_cases hji : j = i
  · subst hji
    rw [Function.update_self] at hn
    split at hn
    · exact hn
    · cases hn
  · rwa [Function.update_of_ne hji] at hn

/-- Nobody has more of a lock file than before when a task sets out. -/
theorem own_of_sent {t : SharedTask} {n : Nat} (hn : (w.sent i t rest).own j = some n) :
    w.own j = some n := eq_some_of_update hn

theorem number_of_sent {t : SharedTask} {n : Nat} (hn : (w.sent i t rest).number j = some n) :
    w.number j = some n := eq_some_of_update hn

theorem looked_of_sent {t : SharedTask} {n : Nat} (hn : (w.sent i t rest).looked j = some n) :
    w.looked j = some n := by
  by_cases hji : j = i
  · subst hji
    rw [show (w.sent j t rest).looked j = none from Function.update_self ..] at hn
    cases hn
  · exact (sameTask_sent hji).looked.symm.trans hn

theorem Placed.sent {t : SharedTask} (h : Placed p limit w) : Placed p limit (w.sent i t rest) := by
  refine ⟨fun j n hn => h.looked_le j n (looked_of_sent hn),
    fun j n hn => h.own_le j n (own_of_sent hn),
    fun j j' n hn hn' => h.apart j j' n (own_of_sent hn) (own_of_sent hn'), fun hcalm j n hn => ?_,
    fun htimely now hnow => ?_⟩
  · refine (h.kept hcalm j n (own_of_sent hn)).imp_right fun hlost => ⟨hlost.gone, ?_, ?_⟩
    · obtain ⟨now, hnow, hlt⟩ := hlost.overdue
      exact ⟨now, List.mem_append.mpr (.inr hnow), hlt⟩
    · intro htimely j' n' hn' hlt
      exact hlost.before (Bool.and_eq_true_iff.mp htimely).1 j' n' (own_of_sent hn') hlt
  · obtain ⟨htimely, htold⟩ := Bool.and_eq_true_iff.mp htimely
    rcases List.mem_append.mp hnow with hread | hold
    · exact of_decide_eq_true htold now hread
    · exact h.past htimely now hold

theorem Counted.sent {t : SharedTask} (h : Counted w) : Counted (w.sent i t rest) :=
  ⟨fun j n hn => h.le j n (number_of_sent hn),
    fun j j' n hn hn' => h.apart j j' n (number_of_sent hn) (number_of_sent hn'), h.held_le,
    fun a ha j hj => h.held a ha j (number_of_sent hj)⟩

/-- A task that gives the lock back still knows what it made, and another one that it made nothing. -/
theorem Heeds.sent {g : Option LockGuard} {t : SharedTask} {y : Thread Keeper (Option LockGuard)}
    (h : w.Heeds c i) (htask : w.task i = .done g) (hy : c.setOut g t = some y) :
    (w.sent i t y).Heeds c i := by
  obtain ⟨m, hk, hobeys⟩ := h
  rw [htask] at hobeys
  have htask' : (w.sent i t y).task i = y := Function.update_self ..
  have hlooked : (w.sent i t y).looked i = none := Function.update_self ..
  have hown : (w.sent i t y).own i = _ := Function.update_self ..
  have hnumber : (w.sent i t y).number i = _ := Function.update_self ..
  have htold : ∀ now ∈ t.told, now ∈ (w.sent i t y).asOf :=
    fun now hnow => List.mem_append.mpr (.inl hnow)
  have hnotSeen : (w.sent i t y).looked i ≠ some (w.sent i t y).file := by
    rw [hlooked]
    exact nofun
  by_cases hrelease : t = .lock .release
  · refine ⟨⟨t.told, none, m.made, m.number, none⟩,
      ⟨htold, fun hseen => absurd hseen hnotSeen, ?_, ?_, nofun⟩, ?_⟩
    · rw [hown, if_pos hrelease]
      exact hk.made
    · rw [hnumber, if_pos hrelease]
      exact hk.number
    · rw [htask']
      exact obeys_setOut hy (fun _ h => h) (fun hne => absurd hrelease hne) fun _ => hobeys
  · refine ⟨⟨t.told, none, none, none, none⟩,
      ⟨htold, fun hseen => absurd hseen hnotSeen, ?_, ?_, nofun⟩, ?_⟩
    · rw [hown, if_neg hrelease]
      rfl
    · rw [hnumber, if_neg hrelease]
    · rw [htask']
      exact obeys_setOut hy (fun _ h => h) (fun _ => ⟨rfl, rfl, rfl⟩) fun heq => absurd heq hrelease

theorem Orderly.sent {g : Option LockGuard} {t : SharedTask} {y : Thread Keeper (Option LockGuard)}
    (h : Orderly c w) (htask : w.task i = .done g) (hy : c.setOut g t = some y) :
    Orderly c (w.sent i t y) := by
  refine ⟨fun j => ?_, h.placed.sent, h.counted.sent⟩
  by_cases hji : j = i
  · subst hji
    exact (h.heeds j).sent htask hy
  · exact (h.heeds j).congr (sameTask_sent hji) rfl rfl (List.subset_append_right ..)

theorem Orderly.step (h : Orderly c w) (hs : Step c w w') : Orderly c w' := by
  cases hs with
  | acts htask hx => exact h.acts htask hx
  | accesses htask => exact h.accesses htask
  | setsOut t htask hy => exact h.sent htask hy
  | tends hk => exact h.tends hk
  | others he => exact h.others he

theorem Reaches.orderly (h : Reaches c w) : Orderly c w := by
  induction h with
  | start d _ hk => exact orderly_start d hk
  | step _ hs ih => exact ih.step hs

/-- Of the jobs that run at most one has its own lock file in place. While nothing strayed, one whose
file is gone had one that was too old, and so had one of any two that run. A task that is about to
remove the file that it saw last removes one that was too old, or one that has the time of its own,
and as long as all is timely, no other job has that in place, and what was too old is so by the clock.
And nobody gets a lock while one is kept. -/
theorem running_jobs_keep_locks (h : Reaches c w) :
    (∀ i j, w.Keeps c.lock.path i → w.Keeps c.lock.path j → i = j) ∧
    (∀ i, w.runs i → w.own i ≠ none ∧
      (w.strayed = false → w.Keeps c.lock.path i ∨ w.Overdue c.maxAge i)) ∧
    (w.strayed = false → ∀ i j, w.runs i → w.runs j →
      i = j ∨ w.Overdue c.maxAge i ∨ w.Overdue c.maxAge j) ∧
    (∀ i q next, w.task i = .step (.remove q) next → w.looked i = some w.file →
      ∀ t, w.disk.FileOf c.lock.path t → w.TooOld c.maxAge t ∨ w.own i ≠ none ∧ t = w.born i ∧
        (w.strayed = false → w.timely → ∀ j, w.Keeps c.lock.path j → j = i)) ∧
    (w.timely → ∀ t, w.TooOld c.maxAge t → c.maxAge < w.disk.clock.since t) ∧
    ∀ w', Step c w w' → ∀ i, w'.own i ≠ none → w'.own i ≠ w.own i → ∀ j, ¬w.Keeps c.lock.path j := by
  have horderly := h.orderly
  have hplaced := horderly.placed
  have hkeeps : ∀ i j, w.Keeps c.lock.path i → w.Keeps c.lock.path j → i = j :=
    fun i j hi hj => hplaced.apart i j _ hi.1 hj.1
  have hruns : ∀ i, w.runs i → w.own i ≠ none ∧
      (w.strayed = false → w.Keeps c.lock.path i ∨ w.Overdue c.maxAge i) := by
    intro i hi
    obtain ⟨n, hn⟩ := horderly.own_of_runs hi
    refine ⟨by simp [hn], fun hcalm => ?_⟩
    rcases hplaced.kept hcalm i n hn with ⟨rfl, hfile⟩ | hlost
    · exact .inl ⟨hn, hfile.present⟩
    · exact .inr hlost.overdue
  refine ⟨hkeeps, hruns, fun hcalm i j hi hj => ?_, fun i q next htask hlooked t ht => ?_,
    fun htimely t hold => ?_, fun w' hs i hsome hnew j hj => ?_⟩
  · rcases (hruns i hi).2 hcalm with hi' | hi'
    · rcases (hruns j hj).2 hcalm with hj' | hj'
      · exact .inl (hkeeps i j hi' hj')
      · exact .inr (.inr hj')
    · exact .inr (.inl hi')
  · obtain ⟨m, hk, hobeys⟩ := horderly.heeds i
    rw [htask] at hobeys
    have hseen := hk.seen hlooked t ht
    rcases hobeys.1.2 with ⟨now, hnow, u, hu, hlt⟩ | ⟨hmade, a, ha, hall⟩
    · rw [hseen] at hu
      cases hu
      exact .inl ⟨now, hk.asOf now hnow, hlt⟩
    · have hown : w.own i ≠ none := by
        rw [hk.made, Option.isSome_map] at hmade
        exact Option.isSome_iff_ne_none.mp hmade
      obtain rfl : t = w.born i := (hall t hseen).trans (hk.taken a ha)
      exact .inr ⟨hown, rfl, fun hcalm htimely j hj => hplaced.eq_of_keeps hcalm htimely hown hj ht⟩
  · obtain ⟨now, hnow, hlt⟩ := hold
    exact Instant.lt_since_of_le hlt (hplaced.past htimely now hnow)
  · obtain ⟨n, hn⟩ := Option.ne_none_iff_exists'.mp hsome
    -- Only the making of a file gives one to a task, and then none was there.
    have hsame : w.own i = some n → False := fun hold => hnew (hn.trans hold.symm)
    cases hs with
    | @acts i' o next x e htask hx =>
      obtain ⟨m, hk, hobeys⟩ := horderly.heeds i'
      rw [htask] at hobeys
      rcases own_after hn with ⟨hold, -⟩ | ⟨-, -, hmade⟩
      · exact hsame hold
      · exact ((hx.touches (SharedLock.concerns_of_watch hobeys.1)).of_made hmade).1 hj.2
    | accesses _ => exact hsame hn
    | setsOut t _ _ => exact hsame (eq_some_of_update hn)
    | tends _ => exact hsame hn
    | others _ => exact hsame hn

/-! ## A lock that is kept too long -/

/-- Lets a task do its next operation or access. -/
def act (p : Path) (w : JobRace ι) (i : ι) : JobRace ι :=
  match w.task i with
  | .done _ => w
  | .access change next => w.accessed i (change w.keeper) (next w.keeper)
  | .step o next =>
    w.after p i o (w.disk.perform o).1 (w.disk.perform o).2 (next (w.disk.perform o).1)

theorem Reaches.act (h : Reaches c w) (i : ι) : Reaches c (w.act c.lock.path i) := by
  unfold JobRace.act
  split
  · exact h
  · next htask => exact .step h (.accesses htask)
  · next htask => exact .step h (.acts htask (.inl rfl))

theorem Reaches.along (h : Reaches c w) (is : List ι) :
    Reaches c (is.foldl (JobRace.act c.lock.path) w) := by
  induction is generalizing w with
  | nil => exact h
  | cons i is ih => exact ih (h.act i)

theorem Reaches.sent (h : Reaches c w) {g : Option LockGuard} (t : SharedTask)
    {y : Thread Keeper (Option LockGuard)} (htask : w.task i = .done g) (hy : c.setOut g t = some y) :
    Reaches c (w.sent i t y) :=
  .step h (.setsOut t htask hy)

end Events

/-- The lock of a keeper in the current directory. -/
abbrev newLock : SharedLock := LockRace.newcomer.shared

/-- Two jobs want the lock. -/
def eager : JobRace Bool :=
  let y := (newLock.setOut none (.lock .acquire)).getD (.done none)
  ((start (.empty ⟨0⟩) LockRace.newcomer).sent false (.lock .acquire) y).sent true (.lock .acquire) y

/-- One has taken it. -/
def taken : JobRace Bool := (List.replicate 3 false).foldl (act newLock.lock.path) eager

/-- It is still at its updates long after that. -/
def kept : JobRace Bool := taken.beside newLock.lock.path (taken.disk.tick (.ofSeconds 50000))

/-- The other has taken the lock over. -/
def takenOver : JobRace Bool := (List.replicate 12 true).foldl (act newLock.lock.path) kept

theorem reaches_takenOver : Reaches newLock takenOver := by
  have hstart : Reaches newLock (start (.empty ⟨0⟩) LockRace.newcomer : JobRace Bool) :=
    .start _ rfl rfl
  have htaken : Reaches newLock taken :=
    ((hstart.sent (.lock .acquire) rfl rfl).sent (.lock .acquire) rfl rfl).along _
  have hsame : (taken.disk.tick (.ofSeconds 50000)).view newLock.lock.path =
      taken.disk.view newLock.lock.path := view_clock _ _ _
  have hkept : Reaches newLock kept := .step htaken (.others (.leaves fun n => by rw [hsame]))
  exact hkept.along _

/-- Both jobs run, and only the second keeps its lock: so the first has had one for too long. -/
theorem running_jobs_keep_locks_takenOver :
    Reaches newLock takenOver ∧ takenOver.runs false ∧ takenOver.runs true ∧
      takenOver.Keeps newLock.lock.path true ∧ takenOver.Overdue newLock.maxAge false ∧
      newLock.maxAge < takenOver.disk.clock.since (takenOver.born false) := by
  have hruns : takenOver.runs false ∧ takenOver.runs true := by decide +kernel
  have hcalm : takenOver.strayed = false := by decide +kernel
  have hkeeps : takenOver.Keeps newLock.lock.path true := by
    unfold Keeps
    decide +kernel
  have htimely : takenOver.timely = true := by decide +kernel
  obtain ⟨halone, hlocks, -, -, hages, -⟩ := running_jobs_keep_locks reaches_takenOver
  have hoverdue : takenOver.Overdue newLock.maxAge false := by
    refine ((hlocks false hruns.1).2 hcalm).resolve_left fun hfirst => ?_
    cases halone false true hfirst hkeeps
  exact ⟨reaches_takenOver, hruns.1, hruns.2, hkeeps, hoverdue, hages htimely _ hoverdue⟩

end JobRace

end SensorCache
