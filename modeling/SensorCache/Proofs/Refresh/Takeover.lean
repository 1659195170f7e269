import SensorCache.Proofs.Refresh.Errands
import Mathlib.Logic.Function.Basic

/-!
# Processes at one lock

Any number of processes take the lock of one directory, check it and give it back, each with a
keeper of its own, and act on the disk one operation at a time in any order (`LockRace`). A check
removes a file by its path, some time after it has seen its age. If another lock file has come into
that place meanwhile, then that is removed, whatever its age, and its owner has company
(`checks_collide`). This is the only way in which two come to own the lock, as long as no owner
keeps it beyond its age (`one_owner`).
-/

namespace SensorCache

open Disk Time

variable {p : Path} {limit : Span}

/-! ## Processes -/

/-- What a process is about with the lock. -/
inductive Errand where
  | acquire
  | check
  | release
  deriving DecidableEq

/-- A process on an errand: the guard it had when it set out, and what it still has to do. That ends
with the guard that it has then, and its keeper. -/
structure Process where
  errand : Errand
  guard : Option LockGuard
  rest : Routine (Option LockGuard × Keeper)

/-- What a process may set out to do: to take the lock, to let a check of its monitor have its time,
to look at a lock that is in the way, or to give back its own. -/
inductive LockTask where
  | acquire
  | fire (check : Nat)
  | recover
  | release
  deriving DecidableEq

namespace Process

/-- A process that is about nothing. -/
def atRest (g : Option LockGuard) (k : Keeper) : Process := ⟨.check, g, .done (g, k)⟩

/-- The process has taken the lock and not given it back. -/
def owns (y : Process) : Bool :=
  match y.rest with
  | .done a => a.1.isSome
  | .step .. => y.guard.isSome

/-- The process is about to remove a lock for its age. -/
def AboutToRemove (y : Process) : Prop :=
  y.errand ≠ .release ∧ ∃ q next, y.rest = .step (.remove q) next

/-- How a process with the guard `g` sets out, if it can. -/
def setOut (g : Option LockGuard) (k : Keeper) : LockTask → Option Process
  | .acquire =>
    match g with
    | some _ => none
    | none => some ⟨.acquire, none, do let (r, k) ← k.acquire; return (r.toOption.join, k)⟩
  | .fire check => some ⟨.check, g, do let k ← k.fire check; return (g, k)⟩
  | .recover => some ⟨.check, g, do let (_, k) ← k.recover; return (g, k)⟩
  | .release =>
    match g with
    | some h => some ⟨.release, g, do let (_, k) ← k.release h; return (none, k)⟩
    | none => none

end Process

/-- Processes at one lock. The rest is for telling what happens: the lock files that came into its
place are numbered; of each process it is known which of them it saw there last, since it set out,
and when its own was made. -/
structure LockRace (ι : Type) where
  disk : Disk
  process : ι → Process
  /-- The number of the last lock file. -/
  file : Nat
  /-- The process that made it. -/
  maker : Option ι
  looked : ι → Option Nat
  born : ι → Instant
  /-- A check has removed another file than it saw last. -/
  strayed : Bool

namespace LockRace

variable {ι : Type} [DecidableEq ι] {w w' : LockRace ι} {i j : ι}

/-- After a process got the answer `x` to an operation, with `rest` left to do. -/
def after (p : Path) (w : LockRace ι) (i : ι) (o : Op) (x : o.Answer) (e : Disk)
    (rest : Routine (Option LockGuard × Keeper)) : LockRace ι where
  disk := e
  process := Function.update w.process i { w.process i with rest := rest }
  file := if e.Present p ∧ ¬w.disk.Present p then w.file + 1 else w.file
  maker := if e.Present p ∧ ¬w.disk.Present p then (o.made x).map fun _ => i else w.maker
  looked := Function.update w.looked i
    (match o.saw p x with
    | some seen => seen.map fun _ => w.file
    | none => w.looked i)
  born := Function.update w.born i ((o.made x).getD (w.born i))
  strayed := w.strayed ||
    (o.took x && (w.process i).errand != .release && w.looked i != some w.file)

/-- After a process set out, or came to be about something else. -/
def become (w : LockRace ι) (i : ι) (y : Process) : LockRace ι :=
  { w with
    process := Function.update w.process i y
    looked := Function.update w.looked i none }

/-- What may happen: an operation of a process, which may also fail for a reason of its own; a
process sets out, or changes what does not concern the lock; a process dies and another takes its
place; and others, who leave the lock file alone, do something, or time passes. -/
inductive Step (p : Path) (limit : Span) : LockRace ι → LockRace ι → Prop where
  | acts {w : LockRace ι} {i : ι} {o : Op} {next : o.Answer → Routine (Option LockGuard × Keeper)}
    {x : o.Answer} {e : Disk} : (w.process i).rest = .step o next →
      Answers w.disk o x e → Step p limit w (w.after p i o x e (next x))
  | setsOut {w : LockRace ι} {i : ι} {g : Option LockGuard} {k : Keeper} (t : LockTask) {y : Process} :
    (w.process i).rest = .done (g, k) → Process.setOut g k t = some y → Step p limit w (w.become i y)
  | tends {w : LockRace ι} {i : ι} {g : Option LockGuard} {k k' : Keeper} :
    (w.process i).rest = .done (g, k) → Keeper.Alike k k' →
      Step p limit w (w.become i (.atRest g k'))
  | restarts {w : LockRace ι} (i : ι) {k : Keeper} : k.Tends p limit →
    Step p limit w (w.become i (.atRest none k))
  | others {w : LockRace ι} {e : Disk} : (∀ n, e.view p = .ok n ↔ w.disk.view p = .ok n) →
    w.disk.clock ≤ e.clock → Step p limit w { w with disk := e }

/-- No process owns a lock beyond its age. -/
def Timely (limit : Span) (w : LockRace ι) : Prop :=
  ∀ i, (w.process i).owns → w.disk.clock.since (w.born i) ≤ limit

/-- Processes at rest, on any disk. A lock file that is there is nobody's. -/
def start (d : Disk) (k : ι → Keeper) : LockRace ι :=
  ⟨d, fun i => .atRest none (k i), 0, none, fun _ => none, fun _ => d.clock, false⟩

/-- What processes may come to while no owner keeps the lock too long. -/
inductive Reaches (p : Path) (limit : Span) : LockRace ι → Prop where
  | start (d : Disk) {k : ι → Keeper} : (∀ i, (k i).Tends p limit) → Reaches p limit (start d k)
  | step {w w' : LockRace ι} : Reaches p limit w → Step p limit w w' → Timely limit w' →
    Reaches p limit w'

/-! ## What processes know -/

/-- What a process with this mind knows of the present: the times it read have come, and the lock
file that it saw last has not been changed. -/
structure Knows (p : Path) (w : LockRace ι) (i : ι) (m : LockMind) : Prop where
  past : ∀ t ∈ m.times, t ≤ w.disk.clock
  seen : w.looked i = some w.file → ∀ t, w.disk.FileOf p t → m.seen = some t

end LockRace

/-- The process does what its errand allows, from what it knows. -/
def Process.Heeds (p : Path) (limit : Span) (knows : LockMind → Prop) (y : Process) : Prop :=
  match y.errand with
  | .acquire => y.guard = none ∧ ∃ m, knows m ∧ y.rest.Obeys (lockWatch p limit)
      (fun m a => m.made = a.1.isSome ∧ a.2.Tends p limit) m
  | .check => ∃ m, knows m ∧ y.rest.Obeys (lockWatch p limit)
      (fun m a => m.made = false ∧ a.1 = y.guard ∧ a.2.Tends p limit) m
  | .release => y.guard.isSome ∧ y.rest.Obeys (returnWatch p)
      (fun _ a => a.1 = none ∧ a.2.Tends p limit) false

namespace Process

variable {y : Process} {knows knows' : LockMind → Prop} {o : Op}
  {next : o.Answer → Routine (Option LockGuard × Keeper)}

theorem owns_done {a : Option LockGuard × Keeper} (h : y.rest = .done a) :
    y.owns ↔ a.1.isSome := by
  rw [owns, h]

theorem owns_step (h : y.rest = .step o next) : y.owns ↔ y.guard.isSome := by
  rw [owns, h]

theorem heeds_atRest {k : Keeper} (hk : k.Tends p limit) (g : Option LockGuard)
    (hblank : knows .blank) : (atRest g k).Heeds p limit knows :=
  ⟨.blank, hblank, rfl, rfl, hk⟩

theorem Heeds.mono (h : y.Heeds p limit knows) (hknows : ∀ m, knows m → knows' m) :
    y.Heeds p limit knows' := by
  unfold Heeds at h ⊢
  split at h
  · obtain ⟨hguard, m, hm, hrest⟩ := h
    exact ⟨hguard, m, hknows m hm, hrest⟩
  · obtain ⟨m, hm, hrest⟩ := h
    exact ⟨m, hknows m hm, hrest⟩
  · exact h

theorem Heeds.tends (h : y.Heeds p limit knows) {g : Option LockGuard} {k : Keeper}
    (hrest : y.rest = .done (g, k)) : k.Tends p limit := by
  unfold Heeds at h
  rw [hrest] at h
  split at h
  · obtain ⟨-, m, -, -, hk⟩ := h
    exact hk
  · obtain ⟨m, -, -, -, hk⟩ := h
    exact hk
  · exact h.2.2

/-- Who sets out does what its errand allows, and owns no more than before. -/
theorem heeds_setOut {g : Option LockGuard} {k : Keeper} (hk : k.Tends p limit) (t : LockTask)
    (h : setOut g k t = some y) :
    (∀ knows : LockMind → Prop, knows .blank → y.Heeds p limit knows) ∧ (y.owns → g.isSome) := by
  have hcheck : ∀ {rest : Routine (Option LockGuard × Keeper)},
      rest.Obeys (lockWatch p limit) (fun m a => m.made = false ∧ a.1 = g ∧ a.2.Tends p limit) .blank →
      (∀ knows : LockMind → Prop, knows .blank → (Process.mk .check g rest).Heeds p limit knows) ∧
        ((Process.mk .check g rest).owns → g.isSome) := by
    intro rest hrest
    refine ⟨fun _ hblank => ⟨.blank, hblank, hrest⟩, fun howns => ?_⟩
    cases rest with
    | done a => rwa [owns_done rfl, hrest.2.1] at howns
    | step o next => exact howns
  have hacquire : ∀ {rest : Routine (Option LockGuard × Keeper)},
      rest.Obeys (lockWatch p limit) (fun m a => m.made = a.1.isSome ∧ a.2.Tends p limit) .blank →
      (∀ knows : LockMind → Prop, knows .blank →
        (Process.mk .acquire none rest).Heeds p limit knows) ∧
        ¬(Process.mk .acquire none rest).owns := by
    intro rest hrest
    refine ⟨fun _ hblank => ⟨rfl, .blank, hblank, hrest⟩, fun howns => ?_⟩
    cases rest with
    | done a =>
      rw [owns_done rfl, ← hrest.1] at howns
      cases howns
    | step o next => cases howns
  cases t with
  | acquire =>
    cases g with
    | some g => cases h
    | none =>
      cases h
      refine And.imp_right (fun hnot howns => absurd howns hnot) (hacquire ?_)
      exact Routine.Obeys.bind (Keeper.obeys_acquire hk rfl) fun m a ha => ha
  | fire check =>
    cases h
    exact hcheck (Routine.Obeys.bind (Keeper.obeys_fire hk check rfl) fun m k' hk' =>
      ⟨hk'.1, rfl, hk'.2⟩)
  | recover =>
    cases h
    exact hcheck (Routine.Obeys.bind (Keeper.obeys_recover hk rfl) fun m a ha => ⟨ha.1, rfl, ha.2⟩)
  | release =>
    cases g with
    | none => cases h
    | some g =>
      cases h
      exact ⟨fun _ _ => ⟨rfl, Routine.Obeys.bind (Keeper.obeys_release hk g) fun m a ha => ⟨rfl, ha⟩⟩,
        fun _ => rfl⟩

/-- What a process on another errand than giving the lock back does next is allowed by what it knows.
It owns more than before only when it has made the lock file. -/
theorem Heeds.watched (h : y.Heeds p limit knows) (hrest : y.rest = .step o next)
    (herrand : y.errand ≠ .release) :
    ∃ m, knows m ∧ (lockWatch p limit).allows m o ∧ ∀ x (knows' : LockMind → Prop),
      knows' ((lockWatch p limit).note m o x) →
        ({ y with rest := next x } : Process).Heeds p limit knows' ∧
        (({ y with rest := next x } : Process).owns → y.owns ∨ (o.made x).isSome) := by
  obtain ⟨errand, guard, rest⟩ := y
  dsimp only at hrest herrand ⊢
  subst hrest
  cases errand with
  | release => exact absurd rfl herrand
  | acquire =>
    obtain ⟨rfl, m, hm, hallows, hnext⟩ := h
    refine ⟨m, hm, hallows, fun x knows' hknows => ⟨⟨rfl, _, hknows, hnext x⟩, fun howns => ?_⟩⟩
    have hx := hnext x
    cases hn : next x with
    | step o' next' =>
      rw [owns_step hn] at howns
      cases howns
    | done a =>
      rw [hn] at hx
      rw [owns_done hn, ← hx.1, made_note, hallows.1, Bool.false_or] at howns
      exact .inr howns
  | check =>
    obtain ⟨m, hm, hallows, hnext⟩ := h
    refine ⟨m, hm, hallows, fun x knows' hknows => ⟨⟨_, hknows, hnext x⟩, fun howns => .inl ?_⟩⟩
    have hx := hnext x
    rw [owns_step rfl]
    cases hn : next x with
    | step o' next' => rwa [owns_step hn] at howns
    | done a =>
      rw [hn] at hx
      rwa [owns_done hn, hx.2.1] at howns

/-- A process that gives the lock back owns it until it tries to remove the file. -/
theorem Heeds.returns (h : y.Heeds p limit knows) (hrest : y.rest = .step o next)
    (herrand : y.errand = .release) :
    y.owns ∧ (returnWatch p).allows false o ∧ ∀ x (knows' : LockMind → Prop),
      ({ y with rest := next x } : Process).Heeds p limit knows' ∧
      (({ y with rest := next x } : Process).owns → o.took x = false) := by
  obtain ⟨errand, guard, rest⟩ := y
  dsimp only at hrest herrand ⊢
  subst hrest herrand
  obtain ⟨hguard, hallows, hnext⟩ := h
  refine ⟨(owns_step rfl).mpr hguard, hallows, fun x knows' => ?_⟩
  have hx := hnext x
  cases hn : next x with
  | done a =>
    rw [hn] at hx
    refine ⟨⟨hguard, hx⟩, fun howns => ?_⟩
    rw [owns_done rfl, hx.1] at howns
    cases howns
  | step o' next' =>
    rw [hn] at hx
    -- More is to come, so this was not the removal.
    have hnote : (returnWatch p).note false o x = false := hx.1.1
    rw [hnote] at hx
    refine ⟨⟨hguard, hx⟩, fun _ => ?_⟩
    cases o <;> first | rfl | cases hnote

end Process

namespace LockRace

variable {ι : Type} {w w' : LockRace ι} {i j : ι}

/-- Each process does what it may, and while no check strayed, an owner is the maker of the file that
is there. -/
structure Orderly (p : Path) (limit : Span) (w : LockRace ι) : Prop where
  looked_le : ∀ i n, w.looked i = some n → n ≤ w.file
  heeds : ∀ i, (w.process i).Heeds p limit (w.Knows p i)
  owners : w.strayed = false → ∀ i, (w.process i).owns →
    w.maker = some i ∧ w.disk.FileOf p (w.born i)

/-- While nothing strayed, a check that takes a lock file takes one that nobody owns. -/
theorem Orderly.nobody {m : LockMind} (h : Orderly p limit w) (htime : Timely limit w)
    (hcalm : w.strayed = false) (hk : Knows p w i m) (hlooked : w.looked i = some w.file)
    (hold : m.TooOld limit) (j : ι) : ¬(w.process j).owns := by
  intro howns
  obtain ⟨-, hfile⟩ := h.owners hcalm j howns
  obtain ⟨now, hnow, t, ht, hlt⟩ := hold
  have hseen := hk.seen hlooked _ hfile
  rw [hseen] at ht
  cases ht
  -- Its age has passed by a time that has come, so its owner kept it too long.
  have hage : (w.disk.clock.since (w.born j)).nanos ≤ limit.nanos := htime j howns
  exact absurd (Instant.lt_since_of_le hlt (hk.past now hnow)) (Nat.not_lt_of_le hage)

theorem Orderly.others {e : Disk} (h : Orderly p limit w)
    (hsame : ∀ n, e.view p = .ok n ↔ w.disk.view p = .ok n) (hclock : w.disk.clock ≤ e.clock) :
    Orderly p limit { w with disk := e } := by
  refine ⟨h.looked_le, fun j => (h.heeds j).mono fun m hm => ⟨fun t ht => ?_, fun hseen t hfile => ?_⟩,
    fun hcalm j hj => ?_⟩
  · exact Int.le_trans (hm.past t ht) hclock
  · exact hm.seen hseen t ((fileOf_of_leaves hsame).mp hfile)
  · obtain ⟨hmaker, hfile⟩ := h.owners hcalm j hj
    exact ⟨hmaker, (fileOf_of_leaves hsame).mpr hfile⟩

theorem orderly_start (d : Disk) {k : ι → Keeper} (hk : ∀ i, (k i).Tends p limit) :
    Orderly p limit (start d k) :=
  ⟨fun _ _ hn => (nomatch hn),
    fun i => Process.heeds_atRest (hk i) none ⟨fun _ ht => (nomatch ht), fun hseen => (nomatch hseen)⟩,
    fun _ _ hj => (nomatch hj)⟩

section After

variable [DecidableEq ι] {o : Op} {x : o.Answer} {e : Disk} {rest : Routine (Option LockGuard × Keeper)}
  {m : LockMind}

theorem after_of_stays (h : e.Present p → w.disk.Present p) :
    (w.after p i o x e rest).file = w.file ∧ (w.after p i o x e rest).maker = w.maker :=
  ⟨if_neg fun hboth => hboth.2 (h hboth.1), if_neg fun hboth => hboth.2 (h hboth.1)⟩

theorem after_of_makes (hd : ¬w.disk.Present p) (he : e.Present p) :
    (w.after p i o x e rest).file = w.file + 1 ∧
      (w.after p i o x e rest).maker = (o.made x).map fun _ => i :=
  ⟨if_pos ⟨he, hd⟩, if_pos ⟨he, hd⟩⟩

/-- A process that did not look still knows what it knew. -/
theorem Knows.stays (hk : Knows p w j m) (h : Orderly p limit w) (hx : Answers w.disk o x e)
    (htouch : Touches p x w.disk e)
    (hlooked : (w.after p i o x e rest).looked j = w.looked j) :
    Knows p (w.after p i o x e rest) j m := by
  refine ⟨fun t ht => ?_, fun hseen t hfile => ?_⟩
  · show t ≤ e.clock
    rw [hx.clock]
    exact hk.past t ht
  · rw [hlooked] at hseen
    cases htouch with
    | leaves hsame _ _ =>
      rw [(after_of_stays (present_of_leaves hsame)).1] at hseen
      exact hk.seen hseen t ((fileOf_of_leaves hsame).mp hfile)
    | makes hd he _ _ =>
      -- It cannot have seen a file that came only now.
      rw [(after_of_makes hd he).1] at hseen
      have hle := h.looked_le j _ hseen
      omega
    | takes _ habsent _ _ => exact absurd hfile.present habsent

/-- A process that got an answer knows what that tells. -/
theorem Knows.learns (hk : Knows p w i m) (h : Orderly p limit w) (hx : Answers w.disk o x e)
    (htouch : Touches p x w.disk e) :
    Knows p (w.after p i o x e rest) i ((lockWatch p limit).note m o x) := by
  have hlooked : (w.after p i o x e rest).looked i =
      match o.saw p x with
      | some seen => seen.map fun _ => w.file
      | none => w.looked i := Function.update_self ..
  refine ⟨fun t ht => ?_, fun hseen t hfile => ?_⟩
  · show t ≤ e.clock
    rw [hx.clock]
    rw [times_note, List.mem_append, Option.mem_toList] at ht
    rcases ht with hread | hold
    · rw [hx.timeRead_eq hread]
      exact Int.le_refl _
    · exact hk.past t hold
  · rw [seen_note]
    cases hsaw : o.saw p x with
    | none =>
      rw [hsaw] at hlooked
      exact (hk.stays h hx htouch hlooked).seen hseen t hfile
    | some seen =>
      rw [hlooked, hsaw] at hseen
      have hsome : seen.isSome := by
        cases seen with
        | none => cases hseen
        | some _ => rfl
      exact hx.seen_eq hsaw hsome hfile

theorem le_file_after : w.file ≤ (w.after p i o x e rest).file := by
  show w.file ≤ if _ then _ else _
  split
  · exact Nat.le_succ _
  · exact Nat.le_refl _

theorem looked_after_le (h : Orderly p limit w) (j : ι) {n : Nat}
    (hn : (w.after p i o x e rest).looked j = some n) : n ≤ (w.after p i o x e rest).file := by
  refine Nat.le_trans ?_ le_file_after
  by_cases hj : j = i
  · subst hj
    rw [show (w.after p j o x e rest).looked j = _ from Function.update_self ..] at hn
    split at hn
    · next seen hseen =>
      cases seen with
      | none => cases hn
      | some t =>
        cases hn
        exact Nat.le_refl _
    · exact h.looked_le j n hn
  · rw [show (w.after p i o x e rest).looked j = w.looked j from Function.update_of_ne hj ..] at hn
    exact h.looked_le j n hn

/-- What an operation of a process comes to: the process goes on as its errand allows; it owns the
lock only if it did or has made it; and if the lock file was taken, without straying, then nobody
owns one. -/
theorem Orderly.goes_on {next : o.Answer → Routine (Option LockGuard × Keeper)}
    (h : Orderly p limit w) (htime : Timely limit w) (hrest : (w.process i).rest = .step o next)
    (hx : Answers w.disk o x e) :
    Touches p x w.disk e ∧
    ({ w.process i with rest := next x } : Process).Heeds p limit
      ((w.after p i o x e (next x)).Knows p i) ∧
    (({ w.process i with rest := next x } : Process).owns → (w.process i).owns ∨ (o.made x).isSome) ∧
    (o.took x = true → (w.after p i o x e (next x)).strayed = false →
      (∀ j, j ≠ i → ¬(w.process j).owns) ∧
        (({ w.process i with rest := next x } : Process).owns → (o.made x).isSome)) := by
  by_cases herrand : (w.process i).errand = .release
  · obtain ⟨howns, hallows, hnext⟩ := (h.heeds i).returns hrest herrand
    obtain ⟨hheeds, hnot⟩ := hnext x ((w.after p i o x e (next x)).Knows p i)
    refine ⟨hx.touches (concerns_of_returnWatch hallows), hheeds, fun _ => .inl howns,
      fun htook hcalm => ⟨fun j hj hjowns => ?_, fun h' => ?_⟩⟩
    · have hcalm' : w.strayed = false := (Bool.or_eq_false_iff.mp hcalm).1
      have hi := (h.owners hcalm' i howns).1
      rw [(h.owners hcalm' j hjowns).1] at hi
      exact hj (Option.some.inj hi)
    · rw [hnot h'] at htook
      cases htook
  · obtain ⟨m, hk, hallows, hnext⟩ := (h.heeds i).watched hrest herrand
    have htouch := hx.touches (concerns_of_lockWatch hallows)
    obtain ⟨hheeds, howns⟩ := hnext x _ (hk.learns h hx htouch)
    refine ⟨htouch, hheeds, howns, fun htook hcalm => ?_⟩
    obtain ⟨hcalm', hnostray⟩ := Bool.or_eq_false_iff.mp hcalm
    have hlooked : w.looked i = some w.file := by simpa [htook, herrand] using hnostray
    have hold : m.TooOld limit := by
      cases o with
      | remove q => exact hallows.2.2
      | _ => cases htook
    have hnobody := h.nobody htime hcalm' hk hlooked hold
    exact ⟨fun j _ => hnobody j, fun h' => (howns h').resolve_left (hnobody i)⟩

theorem Orderly.acts {next : o.Answer → Routine (Option LockGuard × Keeper)}
    (h : Orderly p limit w) (htime : Timely limit w) (hrest : (w.process i).rest = .step o next)
    (hx : Answers w.disk o x e) : Orderly p limit (w.after p i o x e (next x)) := by
  obtain ⟨htouch, hheeds, howns, htaken⟩ := h.goes_on htime hrest hx
  have hself : (w.after p i o x e (next x)).process i = { w.process i with rest := next x } :=
    Function.update_self ..
  have hother : ∀ j, j ≠ i → (w.after p i o x e (next x)).process j = w.process j :=
    fun j hj => Function.update_of_ne hj ..
  have hborn : ∀ j, j ≠ i → (w.after p i o x e (next x)).born j = w.born j :=
    fun j hj => Function.update_of_ne hj ..
  have hborn' : (w.after p i o x e (next x)).born i = (o.made x).getD (w.born i) :=
    Function.update_self ..
  refine ⟨fun j n => looked_after_le h j, fun j => ?_, fun hcalm j hj => ?_⟩
  · by_cases hji : j = i
    · subst hji
      rw [hself]
      exact hheeds
    · rw [hother j hji]
      have hlooked : (w.after p i o x e (next x)).looked j = w.looked j :=
        Function.update_of_ne hji ..
      exact (h.heeds j).mono fun m hm => hm.stays h hx htouch hlooked
  · have hcalm' : w.strayed = false := (Bool.or_eq_false_iff.mp hcalm).1
    cases htouch with
    | leaves hsame hmade htook =>
      rw [(after_of_stays (present_of_leaves hsame)).2]
      by_cases hji : j = i
      · subst hji
        rw [hself] at hj
        obtain ⟨hmaker, hfile⟩ := h.owners hcalm' j ((howns hj).resolve_right (by simp [hmade]))
        rw [hborn', hmade]
        exact ⟨hmaker, (fileOf_of_leaves hsame).mpr hfile⟩
      · rw [hother j hji] at hj
        obtain ⟨hmaker, hfile⟩ := h.owners hcalm' j hj
        rw [hborn j hji]
        exact ⟨hmaker, (fileOf_of_leaves hsame).mpr hfile⟩
    | makes hd he htook hmade =>
      -- An owner's file would have been in the way.
      have hnobody : ∀ j, ¬(w.process j).owns := fun j hj => hd (h.owners hcalm' j hj).2.present
      by_cases hji : j = i
      · subst hji
        rw [hself] at hj
        obtain ⟨t, ht⟩ := Option.isSome_iff_exists.mp ((howns hj).resolve_left (hnobody j))
        rw [(after_of_makes hd he).2, hborn', ht]
        exact ⟨rfl, (hmade t ht).1⟩
      · rw [hother j hji] at hj
        exact absurd hj (hnobody j)
    | takes hfile habsent htook hmade =>
      obtain ⟨hothers, hmine⟩ := htaken htook hcalm
      by_cases hji : j = i
      · subst hji
        rw [hself] at hj
        have hsome := hmine hj
        rw [hmade] at hsome
        cases hsome
      · rw [hother j hji] at hj
        exact absurd hj (hothers j hji)

end After

variable [DecidableEq ι]

theorem Orderly.becomes (h : Orderly p limit w) {y : Process}
    (hy : ∀ {knows : LockMind → Prop}, knows .blank → y.Heeds p limit knows)
    (howns : y.owns → (w.process i).owns) : Orderly p limit (w.become i y) := by
  refine ⟨fun j n hn => ?_, fun j => ?_, fun hcalm j hj => ?_⟩
  · by_cases hji : j = i
    · subst hji
      rw [show (w.become j y).looked j = none from Function.update_self ..] at hn
      cases hn
    · rw [show (w.become i y).looked j = w.looked j from Function.update_of_ne hji ..] at hn
      exact h.looked_le j n hn
  · by_cases hji : j = i
    · subst hji
      rw [show (w.become j y).process j = y from Function.update_self ..]
      refine hy ⟨fun t ht => (nomatch ht), fun hseen => ?_⟩
      rw [show (w.become j y).looked j = none from Function.update_self ..] at hseen
      cases hseen
    · rw [show (w.become i y).process j = w.process j from Function.update_of_ne hji ..]
      refine (h.heeds j).mono fun m hm => ⟨hm.past, fun hseen => ?_⟩
      rw [show (w.become i y).looked j = w.looked j from Function.update_of_ne hji ..] at hseen
      exact hm.seen hseen
  · refine h.owners hcalm j ?_
    by_cases hji : j = i
    · subst hji
      rw [show (w.become j y).process j = y from Function.update_self ..] at hj
      exact howns hj
    · rwa [show (w.become i y).process j = w.process j from Function.update_of_ne hji ..] at hj

theorem Orderly.step (h : Orderly p limit w) (htime : Timely limit w) (hs : Step p limit w w') :
    Orderly p limit w' := by
  cases hs with
  | acts hrest hx => exact h.acts htime hrest hx
  | setsOut t hrest hy =>
    have hk := (h.heeds _).tends hrest
    obtain ⟨hheeds, howns⟩ := Process.heeds_setOut hk t hy
    exact h.becomes (fun hblank => hheeds _ hblank) fun hj =>
      (Process.owns_done hrest).mpr (howns hj)
  | tends hrest halike =>
    have hk := ((h.heeds _).tends hrest).same halike.same
    exact h.becomes (fun hblank => Process.heeds_atRest hk _ hblank) fun hj =>
      (Process.owns_done hrest).mpr hj
  | restarts i hk =>
    exact h.becomes (fun hblank => Process.heeds_atRest hk _ hblank) fun hj => nomatch hj
  | others hsame hclock => exact h.others hsame hclock

theorem Reaches.orderly (h : Reaches p limit w) : Orderly p limit w ∧ Timely limit w := by
  induction h with
  | start d hk => exact ⟨orderly_start d hk, fun i hi => nomatch hi⟩
  | step _ hs htime ih => exact ⟨ih.1.step ih.2 hs, htime⟩

/-- While no check has removed another lock file than it looked at, at most one process owns the
lock; and a check that is about to remove the file that it looked at removes one that is too old. -/
theorem one_owner (h : Reaches p limit w) :
    (w.strayed = false → ∀ i j, (w.process i).owns → (w.process j).owns → i = j) ∧
    (∀ i, (w.process i).AboutToRemove → w.looked i = some w.file →
      ∀ t, w.disk.FileOf p t → limit < w.disk.clock.since t) := by
  obtain ⟨horderly, -⟩ := h.orderly
  refine ⟨fun hcalm i j hi hj => ?_, fun i hremove hlooked t hfile => ?_⟩
  · have hmaker := (horderly.owners hcalm i hi).1
    rw [(horderly.owners hcalm j hj).1] at hmaker
    exact (Option.some.inj hmaker).symm
  · obtain ⟨herrand, q, next, hrest⟩ := hremove
    obtain ⟨m, hk, hallows, -⟩ := (horderly.heeds i).watched hrest herrand
    obtain ⟨-, -, now, hnow, u, hu, hold⟩ := hallows
    rw [hk.seen hlooked t hfile] at hu
    cases hu
    exact Instant.lt_since_of_le hold (hk.past now hnow)

/-! ## Two checks at once -/

/-- Lets a process do its next operation. -/
def act (p : Path) (w : LockRace ι) (i : ι) : LockRace ι :=
  match (w.process i).rest with
  | .done _ => w
  | .step o next =>
    w.after p i o (w.disk.perform o).1 (w.disk.perform o).2 (next (w.disk.perform o).1)

theorem Reaches.act (h : Reaches p limit w) (i : ι) (htime : Timely limit (w.act p i)) :
    Reaches p limit (w.act p i) := by
  unfold LockRace.act at htime ⊢
  split at htime
  · exact h
  · next o next hrest => exact .step h (.acts hrest (.inl rfl)) htime

instance (w : LockRace Bool) : Decidable (Timely limit w) :=
  inferInstanceAs (Decidable (∀ _, _ → _))

/-- No process owns a lock beyond its age while the processes take turns like this. -/
def timelyAlong (p : Path) (limit : Span) : LockRace Bool → List Bool → Bool
  | _, [] => true
  | w, i :: is => decide (Timely limit (w.act p i)) && timelyAlong p limit (w.act p i) is

theorem Reaches.along {w : LockRace Bool} (h : Reaches p limit w) {is : List Bool}
    (htime : timelyAlong p limit w is) : Reaches p limit (is.foldl (LockRace.act p) w) := by
  induction is generalizing w with
  | nil => exact h
  | cons i is ih =>
    obtain ⟨hnow, hrest⟩ := Bool.and_eq_true_iff.mp htime
    exact ih (h.act i (of_decide_eq_true hnow)) hrest

/-- A keeper in the current directory. -/
def newcomer : Keeper := .new ⟨⟨UpdateLock.fileName⟩⟩ {} false

/-- Two processes that want the lock, which somebody left long ago. -/
def heirs : LockRace Bool :=
  let d := (Disk.empty (.ofSeconds 50000)).put [UpdateLock.fileName] (.file .empty ⟨0⟩)
  let y := (Process.setOut none newcomer .acquire).getD (.atRest none newcomer)
  ((start d fun _ => newcomer).become false y).become true y

/-- What they may come to. -/
abbrev HeirsReach : LockRace Bool → Prop :=
  Reaches newcomer.lock.path newcomer.monitor.settings.maxLockAge

theorem reaches_heirs : HeirsReach heirs := by
  have hstart : HeirsReach (start
      ((Disk.empty (.ofSeconds 50000)).put [UpdateLock.fileName] (.file .empty ⟨0⟩)) fun _ => newcomer) :=
    .start _ fun _ => ⟨rfl, rfl⟩
  refine .step (.step hstart (.setsOut .acquire rfl rfl) ?_) (.setsOut .acquire rfl rfl) ?_
  · decide +kernel
  · decide +kernel

/-- One after the other: the second finds the new lock of the first, and leaves it alone. -/
def inTurn : List Bool := List.replicate 7 false ++ List.replicate 5 true

/-- Both see the old lock before one of them removes it. -/
def crossed : List Bool :=
  List.replicate 5 false ++ List.replicate 5 true ++ List.replicate 2 false ++ List.replicate 2 true

/-- The first owns the lock, so the second does not. -/
theorem one_owner_inTurn : ∃ w, HeirsReach w ∧ w.strayed = false ∧ (w.process false).owns ∧
    ¬(w.process true).owns := by
  have hreach : HeirsReach (inTurn.foldl (LockRace.act newcomer.lock.path) heirs) :=
    reaches_heirs.along (by decide +kernel)
  have hcalm : (inTurn.foldl (LockRace.act newcomer.lock.path) heirs).strayed = false := by
    decide +kernel
  have howns : ((inTurn.foldl (LockRace.act newcomer.lock.path) heirs).process false).owns := by
    decide +kernel
  refine ⟨_, hreach, hcalm, howns, fun h => ?_⟩
  cases (one_owner hreach).1 hcalm false true howns h

/-- The second check removes the new lock of the process that was first, and then both own one. -/
theorem checks_collide :
    ∃ w, HeirsReach w ∧ (w.process false).owns ∧ (w.process true).owns := by
  have hreach : HeirsReach (crossed.foldl (LockRace.act newcomer.lock.path) heirs) :=
    reaches_heirs.along (by decide +kernel)
  exact ⟨_, hreach, by decide +kernel, by decide +kernel⟩

end LockRace

end SensorCache
