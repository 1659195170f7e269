import SensorCache.Disk.Edit
import SensorCache.Proofs.Refresh.JobRuns

/-!
# What jobs come to

All that happens to a job, in its turns and with whatever else the scheduler and others do between
them, is a run of it (`JobHistory.run`). So a job updates its targets in order until one fails or it
is found interrupted, its outcome tells which, and when it is over it has given the lock back
(`JobHistory.updates_in_order_and_gives_back`).

The file of the lock may be there all the same. A job is over even if the removal of the file fails,
and it does not take a file for its own that was last changed at another time
(`Rehearsal.job_leaves_lock`).
-/

namespace SensorCache

open Disk Time

variable {σ : Type} {fine : Disk → Prop} {times : LockTimes} {l : UpdateLock} {d e : Disk}
  {may : Conduct}

namespace Scheduler

variable {s s' : Scheduler σ} {id : Nat} {ts rest : List (Target σ)} {held : Option Holding}
  {stage : JobStage σ} {ns : UpdateNotes σ} {t : Target σ}

/-! ## Histories -/

/-- `JobHistory … s d`: the job `id`, which waited for its first turn with the targets `ts`, has had
one or more turns when the scheduler is `s` and the disk `d`. Until it was over the scheduler made
other moves between them, and others changed the disk. The job is interrupted by such a move, or by
a target at any step of its update. -/
inductive JobHistory (may : Conduct) (fine : Disk → Prop) (times : LockTimes) (l : UpdateLock)
    (id : Nat) (ts : List (Target σ)) : Scheduler σ → Disk → Prop where
  | first {s s' : Scheduler σ} {d e : Disk} : s.Awaits fine times l id ts d →
    (s.jobTurn id).Ends may d s' e → JobHistory may fine times l id ts s' e
  | move {s s' : Scheduler σ} {d e : Disk} {m : Move} : JobHistory may fine times l id ts s d →
    s.end? id = none → (s.move m).Ends may d s' e → JobHistory may fine times l id ts s' e
  | others {s : Scheduler σ} {d e : Disk} : JobHistory may fine times l id ts s d →
    Neighbourly fine times.theirs False l.path d e → JobHistory may fine times l id ts s e

/-- At the end of a turn the job is over, or waits in an update. -/
theorem AtStage.waiting_of_end? (ha : AtStage fine times l id ts held stage ns s d) (hr : stage.Rests)
    (hend : s.end? id = none) : ∃ t b, stage = .waiting t b := by
  have hover : ∀ {x}, Ended fine times l id held x s d → False := by
    intro x hx
    rw [hx.ended] at hend
    cases hend
  cases stage with
  | refused =>
    obtain ⟨-, -, o, hdone, -⟩ := ha
    exact (hover hdone.ended).elim
  | between rest => exact hr.elim
  | within t c rest => exact hr.elim
  | waiting t b => exact ⟨t, b, rfl⟩
  | completed => exact (hover ha.2.2.2.ended).elim
  | interrupted => exact (hover ha.2.2.2.ended).elim
  | failed =>
    obtain ⟨oks, t, x, rest, -, -, -, -, hdone⟩ := ha
    exact (hover hdone.ended).elim
  | crashed => exact (hover ha).elim
  | killed => exact (hover ha).elim

/-- A job that waits goes on with its run in each of its turns. -/
theorem JobRun.ends_jobTurn (hw : Neighbourhood may l fine times False) {b : BlockedUpdate σ}
    (hrun : JobRun may fine times l id ts held (.waiting t b) ns s d)
    (hx : (s.jobTurn id).Ends may d s' e) : RunsOn may fine times l id ts held s' e := by
  obtain ⟨k, rfl, hg, ⟨hguard, hcache, hupdated⟩, -⟩ := hrun.atStage hw
  unfold jobTurn at hx
  rw [hg.sound.task _ rfl] at hx
  dsimp only [Option.map_some] at hx
  split at hx
  · next w hwake =>
    obtain ⟨⟨r, s₁⟩, m, hplay, hafter⟩ := Routine.ends_seq.mp hx
    rw [hguard, hcache, hupdated] at hafter
    refine (hrun.resumes hwake).ends_afterUpdate hplay (fun hbetween hgoes => ?_) hafter
    refine hbetween.ends_updateAll ?_
    rwa [List.length_append]
  · obtain ⟨rfl, rfl⟩ := Routine.ends_pure.mp hx
    exact ⟨.waiting t b, ns, trivial, hrun⟩

/-- All that happens to a job is a run of it. -/
theorem JobHistory.run (hw : Neighbourhood may l fine times False)
    (hh : JobHistory may fine times l id ts s d) :
    ∃ held, RunsOn may fine times l id ts held s d := by
  induction hh with
  | first ha hx =>
    unfold jobTurn at hx
    rw [ha.sound.task _ rfl] at hx
    exact ha.ends_begin hw hx
  | @move s s' d e m _ hend hx ih =>
    obtain ⟨held, stage, ns, hr, hrun⟩ := ih
    obtain ⟨t, b, rfl⟩ := (hrun.atStage hw).waiting_of_end? hr hend
    obtain ⟨k, rfl, -⟩ := hrun.atStage hw
    by_cases hm : m.IsAbout id
    · unfold Move.IsAbout at hm
      split at hm
      · subst hm
        exact ⟨some k, hrun.ends_jobTurn hw hx⟩
      · subst hm
        exact ⟨some k, .killed, ns, trivial, hrun.killed hx⟩
      · exact hm.elim
    · exact ⟨some k, .waiting t b, ns, trivial, hrun.bystands hm hx⟩
  | others _ hr ih =>
    obtain ⟨held, stage, ns, hrests, hrun⟩ := ih
    exact ⟨held, stage, ns, hrests, hrun.others hr⟩

/-! ## Outcomes -/

/-- What an outcome tells of the updates `ns` of a job for the targets `ts` that had the lock:
`found` says that the job was found interrupted before another target. -/
structure Tells (ts : List (Target σ)) (ns : UpdateNotes σ) (found : Prop) (o : RefreshOutcome) :
    Prop where
  updated : ns.targets <+: ts
  oks : UpdateNotes.AllOk ns.dropLast
  completed : ∀ n, o = .completed n ↔ n = ts.length ∧ ns.length = ts.length ∧ ns.AllOk
  aborted : ∀ cache error, o = .aborted cache error ↔ ∃ t x, ns.getLast? = some (t, .error x) ∧
    x ≠ .cancelled ∧ cache = t.name ∧ error = x.message
  cancelled : o = .cancelled ↔ (∃ t, ns.getLast? = some (t, .error .cancelled)) ∨ found
  skipped : o ≠ .skipped

theorem length_targets (ns : UpdateNotes σ) : ns.targets.length = ns.length := List.length_map _

/-- Where all updates succeeded the last one did. -/
theorem getLast?_of_allOk (hoks : ns.AllOk) (t : Target σ) (x : RefreshError) :
    ns.getLast? ≠ some (t, .error x) := by
  intro hlast
  obtain ⟨n, hn⟩ := hoks _ (List.mem_of_getLast? hlast)
  cases hn

theorem allOk_dropLast (hoks : ns.AllOk) : UpdateNotes.AllOk ns.dropLast :=
  fun r hr => hoks r (List.dropLast_subset ns hr)

theorem tells_completed {found : Prop} (hfound : ¬found) (hts : ns.targets = ts) (hoks : ns.AllOk) :
    Tells ts ns found (.completed ns.length) := by
  have hlength : ns.length = ts.length := by rw [← hts, length_targets]
  refine ⟨by simp [hts], allOk_dropLast hoks, ?_, ?_, ?_, by simp⟩
  · intro n
    constructor
    · intro h
      cases h
      exact ⟨hlength, hlength, hoks⟩
    · rintro ⟨rfl, hn, -⟩
      rw [hn]
  · intro cache error
    constructor
    · intro h
      cases h
    · rintro ⟨t, x, hlast, -⟩
      exact absurd hlast (getLast?_of_allOk hoks t x)
  · constructor
    · intro h
      cases h
    · rintro (⟨t, hlast⟩ | h)
      · exact absurd hlast (getLast?_of_allOk hoks t _)
      · exact absurd h hfound

theorem tells_interrupted {found : Prop} (hfound : found) (hts : ts = ns.targets ++ t :: rest)
    (hoks : ns.AllOk) : Tells ts ns found .cancelled := by
  refine ⟨⟨t :: rest, hts.symm⟩, allOk_dropLast hoks, ?_, ?_, ?_, by simp⟩
  · intro n
    constructor
    · intro h
      cases h
    · rintro ⟨-, hn, -⟩
      rw [hts, List.length_append, length_targets, List.length_cons] at hn
      omega
  · intro cache error
    constructor
    · intro h
      cases h
    · rintro ⟨t, x, hlast, -⟩
      exact absurd hlast (getLast?_of_allOk hoks t x)
  · exact ⟨fun _ => .inr hfound, fun _ => rfl⟩

theorem tells_failed {found : Prop} (hfound : ¬found) (hoks : ns.AllOk)
    (hts : ts = ns.targets ++ t :: rest) (x : RefreshError) :
    Tells ts (ns ++ [(t, .error x)]) found (.ofError t x) := by
  have hlast : (ns ++ [(t, Except.error x)]).getLast? = some (t, .error x) := by simp
  have hnot : ¬UpdateNotes.AllOk (ns ++ [(t, .error x)]) :=
    fun h => getLast?_of_allOk h t x hlast
  refine ⟨⟨rest, ?_⟩, ?_, ?_, ?_, ?_, ?_⟩
  · rw [hts]
    simp [UpdateNotes.targets]
  · simpa using hoks
  · intro n
    constructor
    · intro h
      cases x <;> cases h
    · rintro ⟨-, -, h⟩
      exact absurd h hnot
  · intro cache error
    rw [hlast]
    constructor
    · intro h
      refine ⟨t, x, rfl, ?_⟩
      cases x <;> cases h <;> exact ⟨RefreshError.noConfusion, rfl, rfl⟩
    · rintro ⟨u, y, heq, hy, rfl, rfl⟩
      cases heq
      cases x <;> first | rfl | exact absurd rfl hy
  · rw [hlast]
    constructor
    · intro h
      refine .inl ⟨t, ?_⟩
      cases x <;> cases h
      rfl
    · rintro (⟨u, heq⟩ | h)
      · cases heq
        rfl
      · exact absurd h hfound
  · intro h
    cases x <;> cases h

/-- How the run of a job ended: `x` fits its stage, and with an outcome the job is idle and finished.
Without the lock nothing was updated; with it the outcome tells what was. -/
inductive EndedWith (id : Nat) (ts : List (Target σ)) (held : Option Holding) (stage : JobStage σ)
    (ns : UpdateNotes σ) (s : Scheduler σ) : JobEnd → Prop where
  | crashed : stage = .crashed → EndedWith id ts held stage ns s .panicked
  | killed : stage = .killed → EndedWith id ts held stage ns s .killed
  | outcome {o : RefreshOutcome} :
    (∃ j, s.keeper.job? id = some j ∧ j.state = .idle ∧ j.finished = true) →
    (held = none → ns = [] ∧
      (o = .skipped ∨ ∃ x : OsError, o = .aborted UpdateLock.fileName x.message)) →
    (held.isSome → Tells ts ns (stage = .interrupted) o) →
    EndedWith id ts held stage ns s (.outcome o)

/-- The lock file of an acquisition was given back. One with its time is there only if others brought
it, if the removal of such a file failed, or if the process holds another that it made at that
time. -/
def GaveBack (times : LockTimes) (l : UpdateLock) (k : Holding) (s : Scheduler σ) (d : Disk) : Prop :=
  d.FileOf l.path k.created → times.theirs k.created ∨ times.stuck k.created ∨
    ∃ j, s.keeper.ownership.holding = some j ∧ j.generation ≠ k.generation ∧ j.created = k.created

theorem Ended.gaveBack {x : JobEnd} (hx : Ended fine times l id held x s d) {k : Holding}
    (hk : k ∈ held) : s.GaveBack times l k d := by
  intro hfile
  rcases hx.knows.knows.file _ hfile with ht | ht | ⟨j, hj, hcreated⟩
  · exact .inl ht
  · exact .inr (.inl ht)
  · exact .inr (.inr ⟨j, hj, hx.released k hk j hj, hcreated⟩)

theorem AtStage.endedWith (ha : AtStage fine times l id ts held stage ns s d) (hr : stage.Rests)
    {x : JobEnd} (hx : s.end? id = some x) :
    EndedWith id ts held stage ns s x ∧ ∀ k ∈ held, s.GaveBack times l k d := by
  have hsame : ∀ {y}, Ended fine times l id held y s d →
      x = y ∧ ∀ k ∈ held, s.GaveBack times l k d := by
    intro y hy
    have hend := hy.ended
    rw [hx] at hend
    exact ⟨Option.some.inj hend, fun k hk => hy.gaveBack hk⟩
  -- With the lock nothing is to say of a job without it.
  have hlocked : ∀ {o}, held.isSome → Done fine times l id held o s d →
      Tells ts ns (stage = .interrupted) o →
      EndedWith id ts held stage ns s x ∧ ∀ k ∈ held, s.GaveBack times l k d := by
    intro o hheld hdone htells
    obtain ⟨rfl, hgone⟩ := hsame hdone.ended
    refine ⟨.outcome hdone.idle (fun hnone => ?_) fun _ => htells, hgone⟩
    rw [hnone] at hheld
    cases hheld
  cases stage with
  | refused =>
    obtain ⟨hheld, hns, o, hdone, ho⟩ := ha
    obtain ⟨rfl, hgone⟩ := hsame hdone.ended
    refine ⟨.outcome hdone.idle (fun _ => ⟨hns, ho⟩) fun hsome => ?_, hgone⟩
    rw [hheld] at hsome
    cases hsome
  | between rest => exact hr.elim
  | within t c rest => exact hr.elim
  | waiting t b =>
    obtain ⟨k, -, hg, -⟩ := ha
    unfold end? at hx
    rw [hg.sound.task _ rfl] at hx
    cases hx
  | completed =>
    obtain ⟨hts, hoks, hheld, hdone⟩ := ha
    exact hlocked hheld hdone (tells_completed nofun hts hoks)
  | interrupted =>
    obtain ⟨⟨t, rest, hts⟩, hoks, hheld, hdone⟩ := ha
    exact hlocked hheld hdone (tells_interrupted rfl hts hoks)
  | failed =>
    obtain ⟨oks, t, x, rest, rfl, hoks, hts, hheld, hdone⟩ := ha
    exact hlocked hheld hdone (tells_failed nofun hoks hts x)
  | crashed =>
    obtain ⟨rfl, hgone⟩ := hsame ha
    exact ⟨.crashed rfl, hgone⟩
  | killed =>
    obtain ⟨rfl, hgone⟩ := hsame ha
    exact ⟨.killed rfl, hgone⟩

/-- Whatever happens to a job is a run of it, also where operations fail. Unless one of its updates
waits, the job is over and has given back the lock file that it made; it ended with an outcome that
tells which of its targets were updated, the first in their order, unless an update crashed or the
job was taken down. -/
theorem JobHistory.updates_in_order_and_gives_back (hw : Neighbourhood may l fine times False)
    (hh : JobHistory may fine times l id ts s d) :
    ∃ held stage ns, JobRun may fine times l id ts held stage ns s d ∧
      (s.end? id = none → ∃ t b, stage = .waiting t b) ∧
      ∀ x, s.end? id = some x →
        EndedWith id ts held stage ns s x ∧ ∀ k ∈ held, s.GaveBack times l k d := by
  obtain ⟨held, stage, ns, hrests, hrun⟩ := hh.run hw
  have ha := hrun.atStage hw
  exact ⟨held, stage, ns, hrun, ha.waiting_of_end? hrests, fun x hx => ha.endedWith hrests hx⟩

end Scheduler

namespace Rehearsal

/-- The second of three targets fails. -/
def stumbling : List (Target Rehearsal) :=
  [target "units" true [.tells], target "corners" true [.ends (.error (.source "gone"))],
    target "periods" true [.tells]]

/-- A lock file that nobody took away lies in the current directory. -/
def abandoned : Disk :=
  { Disk.empty (.ofSeconds 100000) with nodes := [(["cache.lock"], .file .empty ⟨0⟩)] }

/-- A job for the targets has just been asked for. -/
def asked (ts : List (Target Rehearsal)) (d : Disk) : Scheduler Rehearsal × Disk :=
  ((Scheduler.idle lockKeeper .empty).spawn ts).run d

/-- Its first turn is also its last. -/
def stumbled : Scheduler Rehearsal × Disk :=
  ((asked stumbling abandoned).1.jobTurn 1).run (asked stumbling abandoned).2

theorem awaits_asked {times : LockTimes} {ts : List (Target Rehearsal)} {d : Disk}
    (hts : ∀ t ∈ ts, t.UpdateKeeps (Neighbourly (fun _ => True) times.theirs False
      lockKeeper.lock.path))
    (hthere : TheirsOrStuck times lockKeeper.lock.path d) :
    (asked ts d).1.Awaits (fun _ => True) times lockKeeper.lock 1 ts (asked ts d).2 where
  sound := by
    refine ⟨⟨rfl, nofun, trivial, fun t ht => (hthere t ht).imp_right .inl, nofun, nofun⟩,
      fun _ ht => (nomatch ht), ?_, ?_, False.elim, ?_, ?_⟩
    · intro u hu
      obtain rfl := List.mem_singleton.mp hu
      exact hts
    · intro i hi
      obtain rfl := List.mem_singleton.mp hi
      exact Nat.le_refl 1
    · rintro t ⟨⟩
      rfl
    · rintro t ⟨⟩
      exact .head _
  handle := ⟨_, rfl, rfl⟩

/-- Of other processes there is only what they left. -/
abbrev leftTimes : LockTimes := .faultless (· = ⟨0⟩) fun _ => True

/-- The job removes the lock that was left behind, takes it, and gives it back when its second update
fails. -/
theorem updates_in_order_and_gives_back_stumbling : ∃ k stage ns,
    Scheduler.JobHistory (.alone fun _ => True) (fun _ => True) leftTimes lockKeeper.lock 1 stumbling
      stumbled.1 stumbled.2 ∧
    Scheduler.JobRun (.alone fun _ => True) (fun _ => True) leftTimes lockKeeper.lock 1 stumbling
      (some k) stage ns stumbled.1 stumbled.2 ∧
    Scheduler.Tells stumbling ns (stage = .interrupted)
      (.aborted "corners" "source failure: gone") ∧
    stumbled.1.GaveBack leftTimes lockKeeper.lock k stumbled.2 ∧
    ¬stumbled.2.Present lockKeeper.lock.path := by
  have hworld : Neighbourhood (.alone fun _ => True) lockKeeper.lock (fun _ => True) leftTimes
      False := neighbourhood_alone (by decide +kernel) _
  have htame : ∀ t ∈ stumbling, t.UpdateKeeps (Neighbourly (fun _ => True) leftTimes.theirs False
      lockKeeper.lock.path) := by
    intro t ht limits
    simp only [stumbling, List.mem_cons, List.not_mem_nil, or_false] at ht
    rcases ht with rfl | rfl | rfl <;> exact fun _ => keeps_play .refl limits _
  have hleft : TheirsOrStuck leftTimes lockKeeper.lock.path abandoned := by
    intro t ht
    exact .inl (ht.unique (by decide +kernel))
  have hperform : ∀ o d, Conduct.alone (fun _ => True) o d (d.perform o).1 (d.perform o).2 :=
    fun _ _ => ⟨rfl, trivial⟩
  have hturn := Routine.ends_run hperform ((asked stumbling abandoned).1.jobTurn 1)
    (asked stumbling abandoned).2
  have hhistory := Scheduler.JobHistory.first (awaits_asked htame hleft) hturn
  obtain ⟨held, stage, ns, hrun, -, hend⟩ :=
    hhistory.updates_in_order_and_gives_back hworld
  have hover : stumbled.1.end? 1 = some (.outcome (.aborted "corners" "source failure: gone")) := by
    decide +kernel
  obtain ⟨hwith, hgave⟩ := hend _ hover
  cases hwith with
  | outcome _ hnone htells =>
    cases held with
    | none =>
      obtain ⟨-, h | ⟨x, h⟩⟩ := hnone rfl
      · cases h
      · simp [UpdateLock.fileName] at h
    | some k =>
      exact ⟨k, stage, ns, hhistory, hrun, htells rfl, hgave k rfl, by decide +kernel⟩

/-! ## Locks that are left -/

/-- Nothing may be removed. -/
def withhold (o : Op) (d : Disk) : o.Answer × Disk :=
  match o with
  | .remove _ => (.error (.other "Permission denied (os error 13)"), d)
  | o => d.perform o

/-- The job for a target whose update takes a day has the lock. -/
def morning (answer : (o : Op) → Disk → o.Answer × Disk) : Scheduler Rehearsal × Disk :=
  ((asked [dayLong] (.empty ⟨0⟩)).1.jobTurn 1).runBy answer (asked [dayLong] (.empty ⟨0⟩)).2

/-- A day later it goes on. -/
def evening (answer : (o : Op) → Disk → o.Answer × Disk) (x : Scheduler Rehearsal × Disk) :
    Scheduler Rehearsal × Disk :=
  ((x.1.passTo (x.1.keeper.elapsed + .ofSeconds 86400)).jobTurn 1).runBy answer x.2

/-- It could not remove its lock file. -/
def stuckDay : Scheduler Rehearsal × Disk := evening withhold (morning withhold)

/-- The job has the lock, and then somebody dates its lock file otherwise. -/
def redated : Scheduler Rehearsal × Disk :=
  let x := morning fun o d => d.perform o
  (x.1, (x.2.edit lockKeeper.lock.path (.touch ⟨7⟩)).2)

/-- It does not know the file for its own. -/
def redatedDay : Scheduler Rehearsal × Disk := evening (fun o d => d.perform o) redated

abbrev DayHistory (answer : (o : Op) → Disk → o.Answer × Disk) (theirs : Instant → Prop)
    (x : Scheduler Rehearsal × Disk) : Prop :=
  Scheduler.JobHistory (.by answer) (fun _ => True) (.faultless theirs fun _ => True) lockKeeper.lock
    1 [dayLong] x.1 x.2

theorem dayHistory_morning (answer : (o : Op) → Disk → o.Answer × Disk) (theirs : Instant → Prop) :
    DayHistory answer theirs (morning answer) := by
  refine .first (awaits_asked ?_ ?_) (Routine.ends_runBy answer _ _)
  · intro t ht limits
    obtain rfl := List.mem_singleton.mp ht
    exact fun _ => keeps_play .refl limits _
  · rintro t ⟨c, hc⟩
    cases hc

theorem DayHistory.evening {answer : (o : Op) → Disk → o.Answer × Disk} {theirs : Instant → Prop}
    {x : Scheduler Rehearsal × Disk} (h : DayHistory answer theirs x) (hx : x.1.end? 1 = none) :
    DayHistory answer theirs (evening answer x) := by
  have hpassed : DayHistory answer theirs
      (x.1.passTo (x.1.keeper.elapsed + .ofSeconds 86400), x.2) :=
    h.move (m := .event (.pass (.ofSeconds 86400))) hx (Routine.ends_pure.mpr ⟨rfl, rfl⟩)
  exact hpassed.move (m := .event (.job 1)) hx (Routine.ends_runBy answer _ _)

/-- A job may be over and its lock file still there, though nobody has replaced it: the file could not
be removed, or it was dated otherwise. -/
theorem job_leaves_lock :
    (DayHistory withhold (fun _ => False) stuckDay ∧
      (morning withhold).1.keeper.ownership.holding = some ⟨1, ⟨0⟩⟩ ∧
      stuckDay.1.end? 1 = some (.outcome (.completed 1)) ∧
      stuckDay.2.FileOf lockKeeper.lock.path ⟨0⟩) ∧
    DayHistory (fun o d => d.perform o) (· = ⟨7⟩) redatedDay ∧
    redated.1.keeper.ownership.holding = some ⟨1, ⟨0⟩⟩ ∧
    redatedDay.1.end? 1 = some (.outcome (.completed 1)) ∧
    redatedDay.2.FileOf lockKeeper.lock.path ⟨7⟩ := by
  have hredates : Neighbourly (fun _ => True) (· = ⟨7⟩) False lockKeeper.lock.path
      (morning fun o d => d.perform o).2 redated.2 :=
    fun _ => ⟨trivial, fun t ht => .inr (ht.unique (by decide +kernel)), False.elim⟩
  have hstuck : DayHistory withhold (fun _ => False) stuckDay :=
    (dayHistory_morning _ _).evening (by decide +kernel)
  have hredated : DayHistory (fun o d => d.perform o) (· = ⟨7⟩) redated :=
    (dayHistory_morning _ _).others hredates
  refine ⟨⟨hstuck, ?_, ?_, ?_⟩, hredated.evening (by decide +kernel), ?_, ?_, ?_⟩ <;>
    decide +kernel

end Rehearsal

end SensorCache
