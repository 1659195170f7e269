import SensorCache.Proofs.Refresh.Looks
import SensorCache.Proofs.Refresh.Overlap

/-!
# What all moves of a scheduler keep

A scheduler does few things to its keeper: it looks at the lock (`Keeper.Looks`), takes it and gives
it back, marks its jobs, and arms and stops checks. What each of these keeps (`Keeper.Steady`) is
kept by every move of the scheduler, whatever its targets do, as long as their updates and the
changes that others make keep it too (`Scheduler.Well.leads_move`). A move that is not about a job
leaves that job its task and its handle.
-/

namespace SensorCache

open Disk Time

variable {σ : Type} {may : Conduct} {Q R : Disk → Disk → Prop} {timely ended : Prop}
  {d e m : Disk} {I : Keeper → Disk → Prop}

/-! ## What all that is done to a keeper keeps -/

/-- Whatever a scheduler does to its keeper keeps `I`, in a world where others make changes `R` and
updates of targets changes `Q`. -/
structure Keeper.Steady (may : Conduct) (Q R : Disk → Disk → Prop) (timely : Prop)
    (I : Keeper → Disk → Prop) : Prop where
  within : may.Within R
  updates {d e : Disk} : Q d e → R d e
  refl (d : Disk) : R d d
  trans {a b c : Disk} : R a b → R b c → R a c
  look {k k' : Keeper} {d e : Disk} : LookStep may R timely (k, d) (k', e) → I k d → I k' e
  tries {k k' : Keeper} {d e : Disk} {r : Except OsError (Option LockGuard)} :
    k.tryAcquire.Ends may d (r, k') e → I k d → I k' e
  releases {k k' : Keeper} {g : LockGuard} {d e : Disk} {r : Except OsError Bool} :
    (k.release g).Ends may d (r, k') e → I k d → I k' e
  releasesHeld {k k' : Keeper} {d e : Disk} {r : Except OsError Bool} :
    k.releaseIfHeld.Ends may d (r, k') e → I k d → I k' e
  arms {k : Keeper} {d : Disk} (id : Nat) : I k d → I (k.arm id) d
  marks {k : Keeper} {d : Disk} (jobs : List JobHandle) : I k d → I { k with jobs := jobs } d
  stops {k : Keeper} {d : Disk} : I k d → I k.stop.disarm d
  passes {k : Keeper} {d : Disk} (t : Span) : I k d → I { k with elapsed := k.elapsed + t } d

namespace Keeper.Steady

variable {k k' : Keeper}

theorem glances (hI : Steady may Q R timely I) : may.Glances R timely :=
  have hwithin : may.Within R := hI.within
  hwithin.glances hI.trans hI.refl timely

theorem waits (hI : Steady may Q R timely I) (hr : R d e) (hk : I k d) : I k e :=
  hI.look (.waits hr) hk

theorem looks (hI : Steady may Q R timely I) {x y : Keeper × Disk} (h : Looks may R timely x y)
    (hx : I x.1 x.2) : I y.1 y.2 := by
  induction h with
  | refl => exact hx
  | tail _ hstep ih => exact hI.look hstep ih

/-- A keeper that gets the lock gets it by a try, the first or one after a look at what was in the
way. -/
theorem leads_acquire (hI : Steady may Q R timely I) (hk : I k d) :
    k.acquire.Leads may d fun x e => I x.2 e ∧ x.2.states = k.states ∧
      ∀ g, x.1 = .ok (some g) → ∃ k₁ m, I k₁ m ∧ k₁.tryAcquire.Ends may m x e := by
  have htry : ∀ {k : Keeper} {d e : Disk} {x : Except OsError (Option LockGuard) × Keeper},
      k.tryAcquire.Ends may d x e → I k d → I x.2 e ∧ x.2.states = k.states := by
    rintro k d e ⟨r, k'⟩ h hk
    obtain ⟨o, -, rfl⟩ := ends_owning h
    exact ⟨hI.tries h hk, rfl⟩
  intro x e h
  rcases Keeper.leads_acquire hI.glances k d x e h with
    hfirst | ⟨k₁, m₁, k₂, n, hfirst, hlooks, hsecond⟩
  · obtain ⟨hx, hstates⟩ := htry hfirst hk
    exact ⟨hx, hstates, fun _ _ => ⟨k, d, hk, hfirst⟩⟩
  · obtain ⟨hk₁, hstates₁⟩ := htry hfirst hk
    have hk₂ := hI.looks hlooks hk₁
    have hstates₂ := hlooks.looked.states.trans hstates₁
    rcases hsecond with hsecond | ⟨rfl, rfl⟩
    · obtain ⟨hx, hstates⟩ := htry hsecond hk₂
      exact ⟨hx, hstates.trans hstates₂, fun _ _ => ⟨k₂, n, hk₂, hsecond⟩⟩
    · exact ⟨hk₂, hstates₂, fun _ hg => nomatch hg⟩

end Keeper.Steady

/-! ### What lasts whatever the disk answers -/

namespace Keeper

variable {k k' : Keeper} {P : Keeper → Prop}

/-- Whatever a scheduler does to its keeper keeps `P`, in any world. -/
structure Lasting (P : Keeper → Prop) : Prop where
  look {may : Conduct} {R : Disk → Disk → Prop} {timely : Prop} {k k' : Keeper} {d e : Disk} :
    LookStep may R timely (k, d) (k', e) → P k → P k'
  owns {k : Keeper} (o : Ownership) : P k → P { k with ownership := o }
  arms {k : Keeper} (id : Nat) : P k → P (k.arm id)
  marks {k : Keeper} (jobs : List JobHandle) : P k → P { k with jobs := jobs }
  stops {k : Keeper} : P k → P k.stop.disarm
  passes {k : Keeper} (t : Span) : P k → P { k with elapsed := k.elapsed + t }

theorem Steady.and_lasting (hI : Steady may Q R timely I) (hP : Lasting P) :
    Steady may Q R timely fun k d => I k d ∧ P k where
  within := hI.within
  updates := hI.updates
  refl := hI.refl
  trans := hI.trans
  look hlook h := ⟨hI.look hlook h.1, hP.look hlook h.2⟩
  tries htry h := by
    obtain ⟨o, -, rfl⟩ := ends_owning htry
    exact ⟨hI.tries htry h.1, hP.owns o h.2⟩
  releases hrelease h := by
    obtain ⟨o, -, rfl⟩ := ends_owning hrelease
    exact ⟨hI.releases hrelease h.1, hP.owns o h.2⟩
  releasesHeld hrelease h := by
    obtain ⟨o, -, rfl⟩ := ends_owning hrelease
    exact ⟨hI.releasesHeld hrelease h.1, hP.owns o h.2⟩
  arms id h := ⟨hI.arms id h.1, hP.arms id h.2⟩
  marks jobs h := ⟨hI.marks jobs h.1, hP.marks jobs h.2⟩
  stops h := ⟨hI.stops h.1, hP.stops h.2⟩
  passes t h := ⟨hI.passes t h.1, hP.passes t h.2⟩

/-- Who has stopped does not begin again. -/
theorem lasting_stopped : Lasting fun k => k.stopped = true where
  look hlook h := hlook.looked.stopped.trans h
  owns _ h := h
  arms _ h := h
  marks _ h := h
  stops _ := rfl
  passes _ h := h

/-- The checks of the keeper are as they should be, and go by the age `limit`. -/
structure Tended (limit : Span) (k : Keeper) : Prop where
  watched : k.Watched
  age : k.monitor.settings.maxLockAge = limit

/-- What does not concern the monitor neither makes checks nor takes them away. -/
theorem Tended.of_monitor {limit : Span} (h : k.Tended limit) (hmonitor : k'.monitor = k.monitor)
    (helapsed : k'.elapsed = k.elapsed) (hstopped : k'.stopped = k.stopped) : k'.Tended limit := by
  refine ⟨⟨?_, ?_⟩, ?_⟩
  · rw [hmonitor, helapsed]
    exact h.watched.sound
  · rw [hmonitor, hstopped]
    exact h.watched.stopped
  · rw [hmonitor]
    exact h.age

theorem lasting_tended (limit : Span) : Lasting (Tended limit) where
  look {_ _ _ k _ _ _} hlook h := by
    cases hlook with
    | waits _ => exact h
    | looks _ hcheck =>
      obtain ⟨hsame, -⟩ := sameChecks_of_checkAt hcheck
      exact ⟨hsame.watched h.watched, by rw [hsame.settings]; exact h.age⟩
    | begins hlive => exact ⟨h.watched.begin hlive, h.age⟩
    | rearms => exact ⟨h.watched.reschedule, (alike_reschedule k).same.settings ▸ h.age⟩
    | ensures => exact ⟨h.watched.ensureArmed, (alike_ensureArmed k).same.settings ▸ h.age⟩
    | asks => exact h.of_monitor rfl rfl rfl
  owns _ h := h.of_monitor rfl rfl rfl
  arms {k} id h := ⟨h.watched.arm id, (alike_arm k id).same.settings ▸ h.age⟩
  marks _ h := h.of_monitor rfl rfl rfl
  stops {k} h := ⟨h.watched.stop.disarm, (cancelPending_eq k.monitor.stop).1 ▸ h.age⟩
  passes t h := ⟨h.watched.passes t, h.age⟩

end Keeper

/-! ## Schedulers -/

/-- Updates of the target keep `R`, whatever their limits. -/
def Target.UpdateKeeps (R : Disk → Disk → Prop) (t : Target σ) : Prop :=
  ∀ limits, (t.update limits).Keeps R

/-- So do those that a job has still to do. -/
def JobPhase.UpdatesKeep (R : Disk → Disk → Prop) : JobPhase σ → Prop
  | .queued ts => ∀ t ∈ ts, t.UpdateKeeps R
  | .blocked b => (∀ t ∈ b.rest, t.UpdateKeeps R) ∧ ∀ w, (b.next w).Keeps R
  | .over _ => True

/-- The move is the job's own turn, or takes the job down. -/
def Move.IsAbout (id : Nat) : Move → Prop
  | .event (.job i) => i = id
  | .event (.kill i) => i = id
  | _ => False

namespace Scheduler

variable {s s' : Scheduler σ} {id i : Nat} {g : LockGuard}

/-! ### Tasks by their ids -/

theorem task?_setPhase (s : Scheduler σ) (i id : Nat) (p : JobPhase σ) :
    (s.setPhase i p).task? id = (s.task? id).map fun t => if t.id = i then ⟨i, p⟩ else t := by
  show (s.tasks.map _).find? _ = _
  rw [List.find?_map]
  have hsame : ((fun t : JobTask σ => t.id == id) ∘ fun t => if t.id = i then ⟨i, p⟩ else t) =
      fun t => t.id == id := by
    funext t
    show ((if t.id = i then (⟨i, p⟩ : JobTask σ) else t).id == id) = _
    split
    · next hid => rw [hid]
    · rfl
  rw [hsame]
  rfl

theorem id_of_task? {t : JobTask σ} (ht : s.task? id = some t) : t.id = id :=
  beq_iff_eq.mp (List.find?_some (p := fun t : JobTask σ => t.id == id) ht)

theorem mem_of_task? {t : JobTask σ} (ht : s.task? id = some t) : t ∈ s.tasks :=
  List.mem_of_find?_eq_some ht

/-- A job that got the lock marks that and lets a check be made later. -/
def begun (s : Scheduler σ) (id : Nat) : Scheduler σ :=
  let s := s.updateJob id fun j => j.setState .lockAcquired
  let s := { s with keeper := s.keeper.arm id }
  s.updateJob id fun j => j.setState .running

/-! ### Marks -/

/-- A scheduler whose keeper has the property `I`, whose jobs and targets keep `Q` by all that they
do, whose handles are numbered no further than its jobs, and whose loop has come to its end if it has
`ended`. The task `kept` is one of its tasks, if there is any, and has its handle. -/
structure Well (Q : Disk → Disk → Prop) (I : Keeper → Disk → Prop) (ended : Prop)
    (kept : Option (JobTask σ)) (s : Scheduler σ) (d : Disk) : Prop where
  keeper : I s.keeper d
  targets : ∀ t ∈ s.targets, t.UpdateKeeps Q
  phases : ∀ t ∈ s.tasks, t.phase.UpdatesKeep Q
  ids : ∀ i ∈ s.keeper.ids, i ≤ s.tasks.length
  loop : ended → s.loop = .stopped
  task : ∀ t ∈ kept, s.task? t.id = some t
  handle : ∀ t ∈ kept, t.id ∈ s.keeper.ids

namespace Well

variable {kept : Option (JobTask σ)} (hI : Keeper.Steady may Q R timely I)

theorem keeps (hs : s.Well Q I ended kept d) {k : Keeper} (hk : I k e) (hids : k.ids = s.keeper.ids) :
    ({ s with keeper := k } : Scheduler σ).Well Q I ended kept e :=
  { hs with
    keeper := hk
    ids := fun i hi => hs.ids i (hids ▸ hi)
    handle := fun t ht => hids ▸ hs.handle t ht }

include hI in
theorem waits (hs : s.Well Q I ended kept d) (hr : R d e) : s.Well Q I ended kept e :=
  hs.keeps (hI.waits hr hs.keeper) rfl

include hI in
theorem looks (hs : s.Well Q I ended kept d) {k : Keeper}
    (h : Keeper.Looks may R timely (s.keeper, d) (k, e)) :
    ({ s with keeper := k } : Scheduler σ).Well Q I ended kept e :=
  hs.keeps (hI.looks h hs.keeper) h.looked.ids

include hI in
theorem updateJob (hs : s.Well Q I ended kept d) (i : Nat) {f : JobHandle → JobHandle}
    (hf : ∀ j, (f j).id = j.id) : (s.updateJob i f).Well Q I ended kept d :=
  hs.keeps (hI.marks _ hs.keeper) (Keeper.ids_updateJob s.keeper i hf)

include hI in
theorem withScene (hs : s.Well Q I ended kept d) (c : Scene σ) :
    (s.withScene c).Well Q I ended kept d :=
  have hset := hs.keeps (hI.marks _ hs.keeper) (Keeper.ids_setJob s.keeper c.job)
  { hset with }

/-- No task of a job is kept. -/
theorem forgets (hs : s.Well Q I ended kept d) : s.Well Q I ended none d :=
  { hs with
    task := nofun
    handle := nofun }

theorem setPhase (hs : s.Well Q I ended kept d) (hi : ∀ t ∈ kept, t.id ≠ i) {p : JobPhase σ}
    (hp : p.UpdatesKeep Q) : (s.setPhase i p).Well Q I ended kept d := by
  refine { hs with phases := fun t ht => ?_, ids := fun j hj => ?_, task := fun t ht => ?_ }
  · obtain ⟨u, hu, rfl⟩ := List.mem_map.mp ht
    split
    · exact hp
    · exact hs.phases u hu
  · show j ≤ (s.tasks.map _).length
    rw [List.length_map]
    exact hs.ids j hj
  · rw [task?_setPhase, hs.task t ht, Option.map_some, if_neg (hi t ht)]

/-- A task that is kept may be brought to another phase. -/
theorem rephase {t : JobTask σ} (hs : s.Well Q I ended (some t) d) {p : JobPhase σ}
    (hp : p.UpdatesKeep Q) : (s.setPhase t.id p).Well Q I ended (some ⟨t.id, p⟩) d := by
  refine { hs.forgets.setPhase nofun hp with task := ?_, handle := ?_ }
  · rintro u ⟨⟩
    rw [task?_setPhase, hs.task t rfl, Option.map_some, if_pos rfl]
  · rintro u ⟨⟩
    exact hs.handle t rfl

include hI in
theorem giveWay (hs : s.Well Q I ended kept d) (hi : ∀ t ∈ kept, t.id ≠ i) (o : RefreshOutcome) :
    (s.giveWay i o).Well Q I ended kept d :=
  (hs.updateJob hI i (f := JobHandle.finish) fun _ => rfl).setPhase hi trivial

include hI in
theorem begun (hs : s.Well Q I ended kept d) (i : Nat) : (s.begun i).Well Q I ended kept d := by
  have hacquired := hs.updateJob hI i (f := fun j => j.setState .lockAcquired) fun _ => rfl
  exact (hacquired.keeps (hI.arms i hacquired.keeper) rfl).updateJob hI i fun _ => rfl

/-! ### Turns of jobs -/

section

include hI

theorem leads_play (hs : s.Well Q I ended kept d) {c : Course σ (Except RefreshError Nat)}
    (hc : c.Keeps Q) :
    (s.play i c).Leads may d fun x e => x.2.Well Q I ended kept e ∧ x.1.Keeps Q := by
  unfold play
  split
  · exact Routine.leads_pure ⟨hs, trivial⟩
  · refine Routine.Leads.bind (P := fun x e => R d e ∧ x.1.Keeps Q) ?_ fun x m hx => ?_
    · rintro ⟨r, c'⟩ e hx
      have hmono : c.Keeps R := hc.mono fun _ _ => hI.updates
      exact ⟨(hmono.ends_proceed hI.within hI.refl hI.trans hx).1, hc.ends_proceed_rest hx⟩
    · exact Routine.leads_pure ⟨(hs.waits hI hx.1).withScene hI _, hx.2⟩

theorem leads_giveBack (hs : s.Well Q I ended kept d) :
    (s.giveBack g).Leads may d fun s' e => s'.Well Q I ended kept e := by
  refine Routine.Leads.bind (P := fun x e => x.2.Well Q I ended kept e) ?_
    fun x m hx => Routine.leads_pure hx
  refine Routine.Leads.bind (P := fun x e => I x.2 e ∧ x.2.ids = s.keeper.ids) ?_ fun x m hx => ?_
  · rintro ⟨r, k⟩ e h
    obtain ⟨o, -, rfl⟩ := Keeper.ends_owning h
    exact ⟨hI.releases h hs.keeper, rfl⟩
  · exact Routine.leads_pure (hs.keeps hx.1 hx.2)

theorem leads_finish (hs : s.Well Q I ended kept d) (hi : ∀ t ∈ kept, t.id ≠ i)
    (o : RefreshOutcome) :
    (s.finish i g o).Leads may d fun s' e => s'.Well Q I ended kept e := by
  have hset := hs.updateJob hI i (f := fun j => j.setState (finalState o)) fun _ => rfl
  refine (hset.leads_giveBack hI).bind fun s₁ m hs₁ => Routine.leads_pure ?_
  have hidle := hs₁.updateJob hI i
    (f := fun j => ((j.setState .lockReleased).finish).setState .idle) fun _ => rfl
  exact hidle.setPhase hi trivial

theorem leads_breakOff (hs : s.Well Q I ended kept d) (hi : ∀ t ∈ kept, t.id ≠ i) (x : JobEnd) :
    (s.breakOff i g x).Leads may d fun s' e => s'.Well Q I ended kept e := by
  have hset := hs.updateJob hI i (f := JobHandle.endWaiting) fun _ => rfl
  exact (hset.leads_giveBack hI).bind fun s₁ m hs₁ => Routine.leads_pure (hs₁.setPhase hi trivial)

theorem leads_afterUpdate (hs : s.Well Q I ended kept d) (hi : ∀ t ∈ kept, t.id ≠ i)
    {cache : String} {updated : Nat}
    {rest : List (Target σ)} (hrest : ∀ t ∈ rest, t.UpdateKeeps Q)
    {r : CourseStop σ (Except RefreshError Nat)} (hr : r.Keeps Q)
    {next : Scheduler σ → Routine (Scheduler σ)}
    (hnext : (next s).Leads may d fun s' e => s'.Well Q I ended kept e) :
    (s.afterUpdate i g cache updated rest r next).Leads may d fun s' e => s'.Well Q I ended kept e := by
  unfold afterUpdate
  split
  · exact hnext
  · exact hs.leads_finish hI hi _
  · exact hs.leads_finish hI hi _
  · exact hs.leads_breakOff hI hi _
  · exact Routine.leads_pure (hs.setPhase hi ⟨hrest, hr⟩)

theorem leads_updateAll {ts : List (Target σ)} (hts : ∀ t ∈ ts, t.UpdateKeeps Q) {updated : Nat}
    (hs : s.Well Q I ended kept d) (hi : ∀ t ∈ kept, t.id ≠ i) :
    (updateAll i g ts updated s).Leads may d fun s' e => s'.Well Q I ended kept e := by
  induction ts generalizing updated s d with
  | nil => exact hs.leads_finish hI hi _
  | cons t rest ih =>
    unfold updateAll
    split
    · exact hs.leads_finish hI hi _
    · have hrest : ∀ t ∈ rest, t.UpdateKeeps Q := fun t ht => hts t (.tail _ ht)
      refine (hs.leads_play hI (hts t (.head _) s.limits)).bind ?_
      rintro ⟨r, s₁⟩ m ⟨hs₁, hr⟩
      exact hs₁.leads_afterUpdate hI hi hrest hr (ih hrest hs₁)

theorem leads_acquire (hs : s.Well Q I ended kept d) :
    (s.keep Keeper.acquire).Leads may d fun x e =>
      ∃ k, x.2 = { s with keeper := k } ∧ x.2.Well Q I ended kept e ∧
        k.states = s.keeper.states ∧
        ∀ g, x.1 = .ok (some g) → ∃ k₁ m, I k₁ m ∧ k₁.tryAcquire.Ends may m (x.1, k) e := by
  refine (hI.leads_acquire hs.keeper).bind fun x m hx => Routine.leads_pure ?_
  obtain ⟨hk, hstates, hgot⟩ := hx
  exact ⟨x.2, rfl, hs.keeps hk (Keeper.ids_of_states hstates), hstates, hgot⟩

theorem leads_begin (hs : s.Well Q I ended kept d) (hi : ∀ t ∈ kept, t.id ≠ i)
    {ts : List (Target σ)} (hts : ∀ t ∈ ts, t.UpdateKeeps Q) :
    (s.begin i ts).Leads may d fun s' e => s'.Well Q I ended kept e := by
  refine (hs.leads_acquire hI).bind ?_
  rintro ⟨r, s₁⟩ m ⟨-, -, hs₁, -⟩
  rcases r with x | _ | g
  · exact Routine.leads_pure (hs₁.giveWay hI hi _)
  · exact Routine.leads_pure (hs₁.giveWay hI hi _)
  · exact (hs₁.begun hI i).leads_updateAll hI hts hi

theorem leads_resume (hs : s.Well Q I ended kept d) (hi : ∀ t ∈ kept, t.id ≠ i) {b : BlockedUpdate σ}
    (hb : (JobPhase.blocked b).UpdatesKeep Q) (w : Woken) :
    (s.resume i b w).Leads may d fun s' e => s'.Well Q I ended kept e := by
  refine (hs.leads_play hI (hb.2 w)).bind ?_
  rintro ⟨r, s₁⟩ m ⟨hs₁, hr⟩
  exact hs₁.leads_afterUpdate hI hi hb.1 hr (hs₁.leads_updateAll hI hb.1 hi)

theorem leads_jobTurn (hs : s.Well Q I ended kept d) (hi : ∀ t ∈ kept, t.id ≠ i) :
    (s.jobTurn i).Leads may d fun s' e => s'.Well Q I ended kept e := by
  unfold jobTurn
  split
  · next ts hp =>
    obtain ⟨t, ht, -, hphase⟩ := phase_eq_some hp
    have hts := hs.phases t ht
    rw [hphase] at hts
    exact hs.leads_begin hI hi hts
  · next b hp =>
    obtain ⟨t, ht, -, hphase⟩ := phase_eq_some hp
    have hb := hs.phases t ht
    rw [hphase] at hb
    split
    · exact hs.leads_resume hI hi hb _
    · exact Routine.leads_pure hs
  · exact Routine.leads_pure hs

theorem leads_kill (hs : s.Well Q I ended kept d) (hi : ∀ t ∈ kept, t.id ≠ i) :
    (s.kill i).Leads may d fun s' e => s'.Well Q I ended kept e := by
  unfold kill
  split
  · exact Routine.leads_pure (hs.setPhase hi trivial)
  · exact hs.leads_breakOff hI hi _
  · exact Routine.leads_pure hs

/-! ### Requests, the loop and the checks -/

theorem leads_spawn (hs : s.Well Q I ended kept d) {ts : List (Target σ)}
    (hts : ∀ t ∈ ts, t.UpdateKeeps Q) :
    (s.spawn ts).Leads may d fun s' e => s'.Well Q I ended kept e := by
  refine (Keeper.leads_now hI.glances).bind fun now m hm => Routine.leads_pure ?_
  have hids : Keeper.ids _ = _ := Keeper.ids_addJob s.keeper (s.lastJob + 1) now
  refine { hs with
    keeper := hI.marks _ (hI.waits hm.1 hs.keeper)
    phases := fun t ht => ?_
    ids := fun j hj => ?_
    task := fun t ht => ?_
    handle := fun t ht => ?_ }
  · rcases List.mem_append.mp ht with ht | ht
    · exact hs.phases t ht
    · obtain rfl := List.mem_singleton.mp ht
      exact hts
  · show j ≤ (s.tasks ++ _).length
    rw [List.length_append, List.length_singleton]
    rw [hids] at hj
    rcases List.mem_append.mp hj with hj | hj
    · exact Nat.le_succ_of_le (hs.ids j hj)
    · exact Nat.le_of_eq (List.mem_singleton.mp hj)
  · show (s.tasks ++ _).find? _ = some t
    rw [List.find?_append, show s.tasks.find? _ = some t from hs.task t ht]
    rfl
  · rw [hids]
    exact List.mem_append_left _ (hs.handle t ht)

theorem leads_forceUpdate (hs : s.Well Q I ended kept d) :
    s.forceUpdate.Leads may d fun x e => x.2.Well Q I ended kept e := by
  have hrun : ∀ {s₁ : Scheduler σ} {m : Disk}, s₁.Well Q I ended kept m →
      (do return (true, ← s₁.runNow) : Routine (Bool × Scheduler σ)).Leads may m
        fun x e => x.2.Well Q I ended kept e :=
    fun hs₁ => (hs₁.leads_spawn hI hs₁.targets).bind fun s₂ m hs₂ => Routine.leads_pure hs₂
  refine (Keeper.leads_isLocked hI.glances _).bind fun locked m hm => ?_
  have hs₁ := hs.waits hI hm
  split
  · refine Routine.Leads.bind (P := fun x e => x.2.Well Q I ended kept e) ?_ ?_
    · exact (Keeper.leads_recover hI.glances s.keeper m).bind
        fun x n hx => Routine.leads_pure (hs₁.looks hI hx)
    · rintro ⟨gone, s₂⟩ n hs₂
      cases gone
      · exact Routine.leads_pure hs₂
      · exact hrun hs₂
  · exact hrun hs₁

theorem leads_listen (hs : s.Well Q I ended kept d) (hopen : ¬ended) (next : Moment) :
    (s.listen next).Leads may d fun s' e => s'.Well Q I ended kept e := by
  refine (Keeper.leads_now hI.glances).bind fun now m hm => Routine.leads_pure ?_
  exact { hs.waits hI hm.1 with loop := fun h => absurd h hopen }

theorem leads_listenAfter (hs : s.Well Q I ended kept d) (hopen : ¬ended) (start : Moment) :
    (s.listenAfter start).Leads may d fun s' e => s'.Well Q I ended kept e := by
  unfold listenAfter
  split
  · exact hs.leads_listen hI hopen _
  · exact Routine.leads_pure { hs with loop := fun _ => rfl }

theorem leads_loopTurn (hs : s.Well Q I ended kept d) :
    s.loopTurn.Leads may d fun s' e => s'.Well Q I ended kept e := by
  -- A loop that has come to its end has no turn any more.
  have hopen : s.loop ≠ .stopped → ¬ended := fun hne h => hne (hs.loop h)
  unfold loopTurn
  split
  · exact Routine.leads_pure hs
  · next hloop =>
    have hopen := hopen (by rw [hloop]; nofun)
    exact (Keeper.leads_now hI.glances).bind
      fun now m hm => (hs.waits hI hm.1).leads_listenAfter hI hopen _
  · next next due hloop =>
    have hopen := hopen (by rw [hloop]; nofun)
    split
    · exact Routine.leads_pure { hs with loop := fun _ => rfl }
    · split
      · next t _ =>
        have hasked : ({ s with keeper := { s.keeper with trigger := t } } :
            Scheduler σ).Well Q I ended kept d := hs.looks hI (.single (.asks s.keeper d t))
        exact (hasked.leads_forceUpdate hI).bind fun x m hx => hx.leads_listen hI hopen _
      · split
        · refine (hs.leads_spawn hI hs.targets).bind fun s₁ m hs₁ => ?_
          exact (Keeper.leads_now hI.glances).bind
            fun now m hm => (hs₁.waits hI hm.1).leads_listenAfter hI hopen _
        · exact Routine.leads_pure hs

theorem leads_fire (hs : s.Well Q I ended kept d) (check : Nat) :
    (s.fire check).Leads may d fun s' e => s'.Well Q I ended kept e :=
  (Keeper.leads_fire hI.glances s.keeper check d).bind
    fun _ _ hk => Routine.leads_pure (hs.looks hI hk)

theorem leads_releaseLeft (hs : s.Well Q I ended kept d) :
    s.releaseLeft.Leads may d fun s' e =>
      s'.Well Q I ended kept e ∧ s'.keeper.ownership.holding = none ∧ s'.tasks = s.tasks := by
  refine Routine.Leads.bind (P := fun x e => x.2.Well Q I ended kept e ∧
    x.2.keeper.ownership.holding = none ∧ x.2.tasks = s.tasks) ?_ fun x m hx => Routine.leads_pure hx
  refine Routine.Leads.bind (P := fun x e => I x.2 e ∧ x.2.ids = s.keeper.ids ∧
    x.2.ownership.holding = none) ?_ fun x m hx => ?_
  · rintro ⟨r, k⟩ e h
    obtain ⟨o, hheld, rfl⟩ := Keeper.ends_owning h
    obtain ⟨x, m, -, hend⟩ := Routine.ends_seq.mp hheld
    obtain ⟨heq, rfl⟩ := Routine.ends_pure.mp hend
    cases heq
    exact ⟨hI.releasesHeld h hs.keeper, rfl, rfl⟩
  · exact Routine.leads_pure ⟨hs.keeps hx.1 hx.2.1, hx.2.2, rfl⟩

theorem stop (hs : s.Well Q I ended kept d) : s.stop.Well Q I ended kept d :=
  hs.keeps (hI.stops hs.keeper) (Keeper.ids_stop s.keeper)

end

/-! ### All moves -/

/-- Every move leaves all well, and a task that it is not about. Who is timely is not told to go by a
time that is made up. -/
theorem leads_move (hI : Keeper.Steady may Q R timely I) (hs : s.Well Q I ended kept d) {x : Move}
    (hx : timely → ∀ now, x ≠ .checkAt now) (hkept : ∀ t ∈ kept, ¬x.IsAbout t.id) :
    (s.move x).Leads may d fun s' e => s'.Well Q I ended kept e := by
  cases x with
  | checkAt now =>
    refine Routine.Leads.bind (P := fun x e => x.2.Well Q I ended kept e) ?_
      fun x m hx => Routine.leads_pure hx
    refine Routine.Leads.bind
      (P := fun x e => Keeper.Looks may R timely (s.keeper, d) (x.2, e)) ?_
      fun x m hx => Routine.leads_pure (hs.looks hI hx)
    rintro ⟨r, k⟩ e h
    exact .single (.looks (fun ht => absurd rfl (hx ht now)) h)
  | event x =>
    cases x with
    | job i => exact hs.leads_jobTurn hI fun t ht => (hkept t ht).imp Eq.symm
    | loop => exact hs.leads_loopTurn hI
    | check i => exact hs.leads_fire hI i
    | force => exact (hs.leads_forceUpdate hI).bind fun x m hx => Routine.leads_pure hx
    | request => exact Routine.leads_pure (hs.looks hI (.single (.asks s.keeper d _)))
    | run => exact hs.leads_spawn hI hs.targets
    | kill i => exact hs.leads_kill hI fun t ht => (hkept t ht).imp Eq.symm
    | stop => exact Routine.leads_pure (hs.stop hI)
    | releaseLeft => exact (hs.leads_releaseLeft hI).mono fun s' e h => h.1
    | pass t => exact Routine.leads_pure (hs.keeps (hI.passes t hs.keeper) rfl)

end Well

end Scheduler

end SensorCache
