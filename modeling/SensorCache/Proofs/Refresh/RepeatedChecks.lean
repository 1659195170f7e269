import SensorCache.Proofs.Refresh.Looks

/-!
# Checks that are repeated

A check of the lock reads the lock file and the watched job under two clocks, the time that it is
asked for and that of the disk. Where nothing else happens (`Settled`) it finds one of four things
(`Monitor.Findings`): no lock, one that is young enough, one that it cannot remove, or one that it
removes. Whatever it finds, a second check at the same time finds nothing more to do
(`checks_harmless`).

A keeper counts the locks that its checks removed, whatever else it does in between (`Reports`).
-/

namespace SensorCache

open Disk Time

variable {may : Conduct} {d e f : Disk}

/-! ## Worlds where nothing else happens -/

/-- Nobody else changes the disk. An operation comes out as it does on the disk or fails for a reason
of its own, and if it does so once it always does. -/
structure Disk.Conduct.Settled (may : Conduct) : Prop where
  within : may.Within Eq
  answers (o : Op) (d : Disk) : ∃ x e, may o d x e
  same {o : Op} {d e f : Disk} {x y : o.Answer} : may o d x e → may o d y f → y = x ∧ f = e

theorem Disk.Conduct.settled_alone : (Conduct.among Eq).Settled where
  within := within_among Eq
  answers o d := ⟨_, _, d, rfl, rfl⟩
  same := by
    rintro o d e f x y ⟨_, rfl, hx⟩ ⟨_, rfl, hy⟩
    rw [hx] at hy
    cases hy
    exact ⟨rfl, rfl⟩

namespace Routine

variable {α : Type} {r : Routine α} {a b : α}

theorem exists_ends (hmay : may.Settled) (r : Routine α) (d : Disk) : ∃ a e, r.Ends may d a e := by
  induction r generalizing d with
  | done a => exact ⟨a, d, .done a d⟩
  | step o next ih =>
    obtain ⟨x, m, hx⟩ := hmay.answers o d
    obtain ⟨a, e, ha⟩ := ih x m
    exact ⟨a, e, .step hx ha⟩

end Routine

namespace Disk.Conduct.Settled

variable {p : Path} {n : Node}

theorem now (hmay : may.Settled) {t : Instant} (h : may .now d t e) : t = d.clock ∧ e = d := by
  obtain ⟨m, rfl, hp | ⟨hfault, -⟩⟩ := hmay.within h
  · cases hp
    exact ⟨rfl, rfl⟩
  · exact hfault.elim

theorem find (hmay : may.Settled) {x : Except OsError Node} (h : may (.find p) d x e) :
    e = d ∧ ∀ n, x = .ok n → d.view p = .ok n := by
  obtain ⟨m, rfl, hp | ⟨⟨t, rfl⟩, rfl⟩⟩ := hmay.within h
  · have he : e = d := by rw [← perform_find d p, hp]
    refine ⟨he, fun n hn => ?_⟩
    show (d.perform (.find p)).1 = _
    rw [hp]
    exact hn
  · exact ⟨rfl, nofun⟩

theorem remove (hmay : may.Settled) {x : Except OsError Unit} (h : may (.remove p) d x e) :
    x = .ok () ∧ d.perform (.remove p) = (.ok (), e) ∨ (∃ y, x = .error y) ∧ e = d := by
  obtain ⟨m, rfl, hp | ⟨⟨t, rfl⟩, rfl⟩⟩ := hmay.within h
  · cases x with
    | ok u => exact .inl ⟨rfl, hp⟩
    | error y => exact .inr ⟨⟨y, rfl⟩, remove_of_error hp⟩
  · exact .inr ⟨⟨_, rfl⟩, rfl⟩

theorem ends_look (hmay : may.Settled) {x : Option Node} (h : (look p).Ends may d x e) :
    e = d ∧ ∃ y : Except OsError Node, may (.find p) d y d ∧ x = y.toOption := by
  obtain ⟨y, m, hy, hend⟩ := Routine.ends_bind.mp h
  obtain ⟨rfl, rfl⟩ := Routine.ends_done.mp hend
  have hfind := Routine.ends_op.mp hy
  obtain ⟨rfl, -⟩ := hmay.find hfind
  exact ⟨rfl, y, hfind, rfl⟩

end Disk.Conduct.Settled

/-! ## What a check finds -/

namespace Monitor

variable {m : Monitor} {l : UpdateLock} {o o' : Ownership} {job : Option JobHandle}
  {now : Instant} {r : MonitorReport}

/-- The lock file is seen and was last changed at `t`. -/
def Seen (may : Conduct) (l : UpdateLock) (d : Disk) (t : Instant) : Prop :=
  ∃ n, may (.find l.path) d (.ok n) d ∧ d.view l.path = .ok n ∧ n.modified = t

/-- What a check may find: what it reports, what it remembers of the lock, and the disk after it. -/
inductive Findings (may : Conduct) (m : Monitor) (l : UpdateLock) (o : Ownership)
    (job : Option JobHandle) (now : Instant) (d : Disk) : MonitorReport → Ownership → Disk → Prop where
  | free : (∀ t, ¬Seen may l d t) → Findings may m l o job now d ⟨false, false, false⟩ o d
  | young {t : Instant} : Seen may l d t → ¬m.settings.maxLockAge < now.since t →
    Findings may m l o job now d ⟨true, job.any (m.interrupts d.clock), false⟩ o d
  | stuck {t : Instant} {x : OsError} : Seen may l d t → m.settings.maxLockAge < now.since t →
    may (.remove l.path) d (.error x) d →
    Findings may m l o job now d ⟨true, job.any (m.interrupts d.clock), false⟩ o.cleared d
  | removed {t : Instant} {e : Disk} : Seen may l d t → m.settings.maxLockAge < now.since t →
    may (.remove l.path) d (.ok ()) e → d.perform (.remove l.path) = (.ok (), e) →
    Findings may m l o job now d ⟨true, job.any (m.interrupts d.clock), true⟩ o.cleared e

end Monitor

theorem UpdateLock.ends_forceRelease_settled (hmay : may.Settled) {l : UpdateLock} {o o' : Ownership}
    {x : Except OsError Bool} (h : (l.forceRelease o).Ends may d (x, o') e) :
    o' = o.cleared ∧
      (x = .ok true ∧ may (.remove l.path) d (.ok ()) e ∧
          d.perform (.remove l.path) = (.ok (), e) ∨
        x ≠ .ok true ∧ e = d ∧ ∃ y, may (.remove l.path) d (.error y) d) := by
  obtain ⟨y, m, hy, hend⟩ := Routine.ends_seq.mp h
  obtain ⟨heq, rfl⟩ := Routine.ends_pure.mp hend
  cases heq
  refine ⟨rfl, ?_⟩
  rcases Attempt.ends_bind.mp hy with ⟨z, m, hz, hrest⟩ | ⟨_, hbad, _⟩
  · obtain ⟨w, hw, hzw⟩ := Attempt.ends_caught.mp hz
    obtain rfl : z = w := Except.ok.inj hzw
    have hremove := Routine.ends_op.mp hw
    rcases hmay.remove hremove with ⟨rfl, hperform⟩ | ⟨⟨err, rfl⟩, rfl⟩
    · obtain ⟨rfl, rfl⟩ := Attempt.ends_pure.mp hrest
      exact .inl ⟨rfl, hremove, hperform⟩
    · cases err with
      | notFound =>
        obtain ⟨rfl, rfl⟩ := Attempt.ends_pure.mp hrest
        exact .inr ⟨by simp, rfl, _, hremove⟩
      | _ =>
        obtain ⟨rfl, rfl⟩ := Attempt.ends_fail.mp hrest
        exact .inr ⟨by simp, rfl, _, hremove⟩
  · obtain ⟨w, -, hbad⟩ := Attempt.ends_caught.mp hbad
    cases hbad

namespace Monitor

variable {m : Monitor} {l : UpdateLock} {o o' : Ownership} {job : Option JobHandle}
  {now : Instant} {r : MonitorReport}

theorem findings_of_checkAt (hmay : may.Settled)
    (h : (m.checkAt l o job now).Ends may d (r, o') e) : Findings may m l o job now d r o' e := by
  obtain ⟨locked, n₁, hlocked, hrest⟩ := Routine.ends_seq.mp h
  obtain ⟨x, n₂, hlook, hend⟩ := Routine.ends_seq.mp hlocked
  obtain ⟨rfl, rfl⟩ := Routine.ends_pure.mp hend
  obtain ⟨rfl, y, hy, rfl⟩ := hmay.ends_look hlook
  cases y with
  | error err =>
    obtain ⟨heq, rfl⟩ := Routine.ends_pure.mp hrest
    cases heq
    refine .free ?_
    rintro t ⟨n, hn, -⟩
    cases (hmay.same hy hn).1
  | ok n =>
    have hseen : Seen may l n₁ n.modified := ⟨n, hy, (hmay.find hy).2 n rfl, rfl⟩
    obtain ⟨clock, n₂, hnow, hrest⟩ := Routine.ends_seq.mp hrest
    obtain ⟨rfl, rfl⟩ := hmay.now (Routine.ends_op.mp hnow)
    obtain ⟨age, n₃, hage, hrest⟩ := Routine.ends_seq.mp hrest
    obtain ⟨x, n₄, hlook', hend⟩ := Routine.ends_seq.mp hage
    obtain ⟨rfl, rfl⟩ := Routine.ends_pure.mp hend
    obtain ⟨rfl, y, hy', rfl⟩ := hmay.ends_look hlook'
    -- The second look sees what the first did.
    obtain ⟨rfl, -⟩ := hmay.same hy hy'
    dsimp only [Except.toOption, Option.map_some] at hrest
    split at hrest
    · next hold =>
      obtain ⟨⟨z, o₁⟩, n₅, hforce, hend⟩ := Routine.ends_seq.mp hrest
      obtain ⟨rfl, ⟨rfl, hremove, hperform⟩ | ⟨hfailed, rfl, err, hremove⟩⟩ :=
        UpdateLock.ends_forceRelease_settled hmay hforce
      · obtain ⟨heq, rfl⟩ := Routine.ends_pure.mp hend
        cases heq
        exact .removed hseen hold hremove hperform
      · rcases z with z | z | z
        · obtain ⟨heq, rfl⟩ := Routine.ends_pure.mp hend
          cases heq
          exact .stuck hseen hold hremove
        · obtain ⟨heq, rfl⟩ := Routine.ends_pure.mp hend
          cases heq
          exact .stuck hseen hold hremove
        · exact absurd rfl hfailed
    · next hyoung =>
      obtain ⟨heq, rfl⟩ := Routine.ends_pure.mp hrest
      cases heq
      exact .young hseen hyoung

theorem Seen.unique {t u : Instant} (h : Seen may l d t) (h' : Seen may l d u) : t = u := by
  obtain ⟨n, -, hn, rfl⟩ := h
  obtain ⟨n', -, hn', rfl⟩ := h'
  rw [hn] at hn'
  cases hn'
  rfl

theorem Seen.present {t : Instant} (h : Seen may l d t) : d.Present l.path :=
  have ⟨n, _, hn, _⟩ := h
  ⟨n, hn⟩

/-- What is found once more, at the same time: the lock and what is remembered of it stay as they
are, and only a job that the first look passed over is interrupted. -/
theorem Findings.again (hmay : may.Settled) {m' : Monitor} {job' : Option JobHandle}
    {o'' : Ownership} {r' : MonitorReport} (hsettings : m'.settings = m.settings)
    (h : Findings may m l o job now d r o' e) (h' : Findings may m' l o' job' now e r' o'' f) :
    f = e ∧ o'' = o' ∧ r'.lockRemoved = false ∧
      (r'.interrupted = true → r.interrupted = job.any (m.interrupts d.clock) ∧
        job'.any (m'.interrupts d.clock) = true) := by
  cases h with
  | free hfree =>
    cases h' with
    | free _ => exact ⟨rfl, rfl, rfl, nofun⟩
    | young hseen _ => exact absurd hseen (hfree _)
    | stuck hseen _ _ => exact absurd hseen (hfree _)
    | removed hseen _ _ _ => exact absurd hseen (hfree _)
  | young hseen hyoung =>
    have hage {u : Instant} (hu : Seen may l d u) : ¬m'.settings.maxLockAge < now.since u := by
      rw [hsettings, hu.unique hseen]
      exact hyoung
    cases h' with
    | free _ => exact ⟨rfl, rfl, rfl, nofun⟩
    | young _ _ => exact ⟨rfl, rfl, rfl, fun hj => ⟨rfl, hj⟩⟩
    | stuck hu hold _ => exact absurd hold (hage hu)
    | removed hu hold _ _ => exact absurd hold (hage hu)
  | stuck hseen _ hremove =>
    cases h' with
    | free _ => exact ⟨rfl, rfl, rfl, nofun⟩
    | young _ _ => exact ⟨rfl, rfl, rfl, fun hj => ⟨rfl, hj⟩⟩
    | stuck _ _ _ => exact ⟨rfl, rfl, rfl, fun hj => ⟨rfl, hj⟩⟩
    | removed _ _ hok _ => cases (hmay.same hremove hok).1
  | removed _ _ _ hperform =>
    have hgone {u : Instant} (hu : Seen may l e u) : False := (remove_of_ok hperform).2 hu.present
    cases h' with
    | free _ => exact ⟨rfl, rfl, rfl, nofun⟩
    | young hu _ => exact (hgone hu).elim
    | stuck hu _ _ => exact (hgone hu).elim
    | removed hu _ _ _ => exact (hgone hu).elim

/-- Only a lock that is older than the settings allow is removed, and else the disk stays as it
is. -/
theorem Findings.removes (h : Findings may m l o job now d r o' e) :
    r.lockRemoved = false ∧ e = d ∨
      r.lockRemoved = true ∧ ∃ n, d.view l.path = .ok n ∧
        m.settings.maxLockAge < now.since n.modified ∧ d.perform (.remove l.path) = (.ok (), e) := by
  cases h with
  | free _ => exact .inl ⟨rfl, rfl⟩
  | young _ _ => exact .inl ⟨rfl, rfl⟩
  | stuck _ _ _ => exact .inl ⟨rfl, rfl⟩
  | removed hseen hold _ hperform =>
    obtain ⟨n, -, hn, rfl⟩ := hseen
    exact .inr ⟨rfl, n, hn, hold, hperform⟩

theorem Findings.interrupts (h : Findings may m l o job now d r o' e) (hr : r.interrupted = true) :
    job.any (m.interrupts d.clock) = true := by
  cases h with
  | free _ => cases hr
  | young _ _ => exact hr
  | stuck _ _ _ => exact hr
  | removed _ _ _ _ => exact hr

/-- A job that a check interrupts: it is not over and not yet interrupted, and has waited for the
threshold or longer. -/
structure Stalled (m : Monitor) (clock : Instant) (j : JobHandle) : Prop where
  unfinished : j.finished = false
  heedless : j.interrupted = false
  waiting : j.waiting = true
  stalled : m.settings.stallThreshold ≤ clock.since j.lastProgress

theorem interrupts_iff {clock : Instant} {j : JobHandle} :
    m.interrupts clock j = true ↔ m.Stalled clock j := by
  unfold interrupts JobHandle.isBlocked
  simp only [Bool.and_eq_true, Bool.not_eq_true', decide_eq_true_eq]
  constructor
  · rintro ⟨⟨hfinished, hinterrupted⟩, hwaiting, hstalled⟩
    exact ⟨hfinished, hinterrupted, hwaiting, hstalled⟩
  · rintro ⟨hfinished, hinterrupted, hwaiting, hstalled⟩
    exact ⟨⟨hfinished, hinterrupted⟩, hwaiting, hstalled⟩

end Monitor

namespace Keeper

variable {k k' k'' : Keeper} {now : Instant} {r : MonitorReport} {rs rs' : List MonitorReport}

/-! ## Checks of a keeper -/

/-- The job that checks may interrupt. -/
def watchedJob? (k : Keeper) : Option JobHandle := k.monitor.watched.bind k.job?

theorem ends_checkAt_iff : (k.checkAt now).Ends may d (r, k') e ↔
    ∃ o, (k.monitor.checkAt k.lock k.ownership k.watchedJob? now).Ends may d (r, o) e ∧
      k' = k.reported r o := by
  constructor
  · intro h
    obtain ⟨⟨r', o⟩, m, hcheck, hend⟩ := Routine.ends_seq.mp h
    obtain ⟨heq, rfl⟩ := Routine.ends_pure.mp hend
    cases heq
    exact ⟨o, hcheck, rfl⟩
  · rintro ⟨o, hcheck, rfl⟩
    exact Routine.ends_seq.mpr ⟨_, _, hcheck, Routine.ends_pure.mpr ⟨rfl, rfl⟩⟩

theorem reported_eq (k : Keeper) (r : MonitorReport) (o : Ownership) :
    (k.reported r o).lock = k.lock ∧ (k.reported r o).ownership = o ∧
      (k.reported r o).monitor = k.monitor.record r := by
  unfold reported
  dsimp only
  split
  · split <;> exact ⟨rfl, rfl, rfl⟩
  · exact ⟨rfl, rfl, rfl⟩

/-- A check that removed nothing, interrupted nobody and forgot nothing has changed nothing. -/
theorem reported_of_quiet (hremoved : r.lockRemoved = false) (hinterrupted : r.interrupted = false)
    {o : Ownership} (ho : k.ownership = o) : k.reported r o = k := by
  subst ho
  unfold reported Monitor.record
  rw [if_neg (by rw [hremoved]; exact Bool.false_ne_true)]
  dsimp only
  split
  · rw [if_neg (by rw [hinterrupted]; exact Bool.false_ne_true)]
  · rfl

theorem jobs_reported_of_quiet (hinterrupted : r.interrupted = false) (o : Ownership) :
    (k.reported r o).jobs = k.jobs := by
  unfold reported
  dsimp only
  split
  · rw [if_neg (by rw [hinterrupted]; exact Bool.false_ne_true)]
  · rfl

/-- A check that interrupted a job has interrupted the watched one. -/
theorem jobs_reported_of_interrupted {id : Nat} (hwatched : k.monitor.watched = some id)
    (hinterrupted : r.interrupted = true) (o : Ownership) :
    (k.reported r o).jobs = (k.updateJob id JobHandle.interrupt).jobs := by
  unfold reported
  dsimp only
  rw [watched_record, hwatched]
  dsimp only
  rw [if_pos hinterrupted]
  rfl

/-- The watched job is not stalled any more after a check that interrupts it if it is. -/
theorem watchedJob?_reported (o : Ownership) {clock : Instant}
    (hr : r.interrupted = k.watchedJob?.any (k.monitor.interrupts clock)) :
    (k.reported r o).watchedJob?.any ((k.reported r o).monitor.interrupts clock) = false := by
  obtain ⟨-, -, hmonitor⟩ := reported_eq k r o
  have hsame : (k.reported r o).monitor.interrupts clock = k.monitor.interrupts clock := by
    funext j
    unfold Monitor.interrupts
    rw [hmonitor, settings_record]
  rw [hsame]
  have hwatched : (k.reported r o).monitor.watched = k.monitor.watched := by
    rw [hmonitor, watched_record]
  cases hi : r.interrupted with
  | false =>
    have hjob : (k.reported r o).watchedJob? = k.watchedJob? := by
      unfold watchedJob? job?
      rw [hwatched, jobs_reported_of_quiet hi]
    rw [hjob, ← hr, hi]
  | true =>
    cases hw : k.monitor.watched with
    | none =>
      unfold watchedJob?
      rw [hwatched, hw]
      rfl
    | some id =>
      have hjob : (k.reported r o).watchedJob? = (k.job? id).map JobHandle.interrupt := by
        unfold watchedJob?
        rw [hwatched, hw, Option.bind_some, ← job?_updateJob k id (f := JobHandle.interrupt) fun _ => rfl]
        unfold job?
        rw [jobs_reported_of_interrupted hw hi]
      rw [hjob]
      cases k.job? id with
      | none => rfl
      | some j => simp [Monitor.interrupts, JobHandle.interrupt]

/-- A second check at the same time, when nothing else has happened, has nothing to do. -/
theorem checkAt_again (hmay : may.Settled) {r' : MonitorReport}
    (h : (k.checkAt now).Ends may d (r, k') e) (h' : (k'.checkAt now).Ends may e (r', k'') f) :
    k'' = k' ∧ f = e ∧ r'.interrupted = false ∧ r'.lockRemoved = false := by
  obtain ⟨o, hcheck, rfl⟩ := ends_checkAt_iff.mp h
  obtain ⟨o', hcheck', rfl⟩ := ends_checkAt_iff.mp h'
  obtain ⟨hlock, hownership, hmonitor⟩ := reported_eq k r o
  have hfound := Monitor.findings_of_checkAt hmay hcheck
  have hfound' := Monitor.findings_of_checkAt hmay hcheck'
  rw [hlock, hownership] at hfound'
  have hsettings : (k.reported r o).monitor.settings = k.monitor.settings := by
    rw [hmonitor, settings_record]
  obtain ⟨rfl, rfl, hremoved, hagain⟩ := hfound.again hmay hsettings hfound'
  have hquiet : r'.interrupted = false := by
    rw [← Bool.not_eq_true]
    intro hi
    obtain ⟨hr, hj⟩ := hagain hi
    rw [watchedJob?_reported o' hr] at hj
    cases hj
  exact ⟨reported_of_quiet hremoved hquiet hownership, rfl, hquiet, hremoved⟩

/-- A check interrupts only the watched job, and only if that is stalled. -/
theorem jobs_of_checkAt (hmay : may.Settled) (h : (k.checkAt now).Ends may d (r, k') e) :
    r.interrupted = false ∧ k'.jobs = k.jobs ∨
      r.interrupted = true ∧ ∃ id j, k.monitor.watched = some id ∧ k.job? id = some j ∧
        k.monitor.Stalled d.clock j ∧ k'.jobs = (k.updateJob id JobHandle.interrupt).jobs := by
  obtain ⟨o, hcheck, rfl⟩ := ends_checkAt_iff.mp h
  cases hi : r.interrupted with
  | false => exact .inl ⟨rfl, jobs_reported_of_quiet hi o⟩
  | true =>
    have hjob := (Monitor.findings_of_checkAt hmay hcheck).interrupts hi
    rw [Option.any_eq_true] at hjob
    obtain ⟨j, hj, hstalled⟩ := hjob
    obtain ⟨id, hid, hj⟩ := Option.bind_eq_some_iff.mp hj
    exact .inr ⟨rfl, id, j, hid, hj, Monitor.interrupts_iff.mp hstalled,
      jobs_reported_of_interrupted hid hi o⟩

/-! ## The count of removed locks -/

/-- What happens to a keeper between its checks: locks are created and given back, checks are
scheduled and cancelled, jobs are watched, come and get on, and others do what they like. -/
inductive Deed (may : Conduct) : Keeper → Disk → Keeper → Disk → Prop where
  | others {k : Keeper} {d : Disk} (e : Disk) : Deed may k d k e
  | tries {k k' : Keeper} {d e : Disk} {x : Except OsError (Option LockGuard)} :
    k.tryAcquire.Ends may d (x, k') e → Deed may k d k' e
  | releases {k k' : Keeper} {d e : Disk} {g : LockGuard} {x : Except OsError Bool} :
    (k.release g).Ends may d (x, k') e → Deed may k d k' e
  | releasesHeld {k k' : Keeper} {d e : Disk} {x : Except OsError Bool} :
    k.releaseIfHeld.Ends may d (x, k') e → Deed may k d k' e
  | forces {k : Keeper} {d e : Disk} {x : Except OsError Bool} {o : Ownership} :
    (k.lock.forceRelease k.ownership).Ends may d (x, o) e →
      Deed may k d { k with ownership := o } e
  | watches {k : Keeper} {d : Disk} (job : Nat) :
    Deed may k d { k with monitor := k.monitor.watch job } d
  | arms {k : Keeper} {d : Disk} (job : Nat) : Deed may k d (k.arm job) d
  | ensures {k : Keeper} {d : Disk} : Deed may k d k.ensureArmed d
  | rearms {k : Keeper} {d : Disk} :
    Deed may k d { k with monitor := k.monitor.reschedule k.elapsed } d
  | begins {k : Keeper} {d : Disk} (check : Nat) :
    Deed may k d { k with monitor := k.monitor.begin check } d
  | disarms {k : Keeper} {d : Disk} : Deed may k d k.disarm d
  | stops {k : Keeper} {d : Disk} : Deed may k d k.stop d
  | jobs {k : Keeper} {d : Disk} (js : List JobHandle) : Deed may k d { k with jobs := js } d
  | asks {k : Keeper} {d : Disk} (t : Trigger) : Deed may k d { k with trigger := t } d
  | passes {k : Keeper} {d : Disk} (t : Span) : Deed may k d { k with elapsed := k.elapsed + t } d

/-- What a keeper comes to from `k₀`, with the reports of its checks. -/
inductive Reports (may : Conduct) (k₀ : Keeper) (d₀ : Disk) :
    List MonitorReport → Keeper → Disk → Prop where
  | none : Reports may k₀ d₀ [] k₀ d₀
  | deed {rs : List MonitorReport} {k k' : Keeper} {d e : Disk} :
    Reports may k₀ d₀ rs k d → Deed may k d k' e → Reports may k₀ d₀ rs k' e
  | check {rs : List MonitorReport} {k k' : Keeper} {d e : Disk} {now : Instant}
      {r : MonitorReport} :
    Reports may k₀ d₀ rs k d → (k.checkAt now).Ends may d (r, k') e →
      Reports may k₀ d₀ (rs ++ [r]) k' e

/-- How many of some reports tell of a lock that was removed. -/
def removals (rs : List MonitorReport) : Nat := rs.countP MonitorReport.lockRemoved

theorem Deed.recovered (h : Deed may k d k' e) :
    k'.monitor.recovered = k.monitor.recovered := by
  cases h with
  | tries h =>
    obtain ⟨o, -, rfl⟩ := ends_owning h
    rfl
  | releases h =>
    obtain ⟨o, -, rfl⟩ := ends_owning h
    rfl
  | releasesHeld h =>
    obtain ⟨o, -, rfl⟩ := ends_owning h
    rfl
  | arms job => exact (alike_arm k job).recovered
  | ensures => exact (alike_ensureArmed k).recovered
  | rearms => exact (alike_reschedule k).recovered
  | disarms => exact (cancelPending_eq k.monitor).2
  | _ => rfl

theorem recovered_of_checkAt (h : (k.checkAt now).Ends may d (r, k') e) :
    k'.monitor.recovered = k.monitor.recovered + removals [r] := by
  obtain ⟨o, -, rfl⟩ := ends_checkAt_iff.mp h
  obtain ⟨-, -, hmonitor⟩ := reported_eq k r o
  rw [hmonitor, Monitor.record, removals, List.countP_singleton]
  split <;> rfl

/-- In any world, a keeper counts one lock for each report that tells of a removal. -/
theorem Reports.recovered {k₀ : Keeper} {d₀ : Disk} (h : Reports may k₀ d₀ rs k d) :
    k.monitor.recovered = k₀.monitor.recovered + removals rs := by
  induction h with
  | none => rfl
  | deed _ hdeed ih => exact hdeed.recovered.trans ih
  | check _ hcheck ih =>
    rw [recovered_of_checkAt hcheck, ih, Nat.add_assoc, removals, removals, removals,
      List.countP_append]

/-! ### Whole operations -/

section

variable {k₀ : Keeper} {d₀ : Disk}

/-- Looking at the lock comes down to checks and deeds. -/
theorem Reports.looks {timely : Prop} {R : Disk → Disk → Prop} {x y : Keeper × Disk}
    (hx : Reports may k₀ d₀ rs x.1 x.2) (h : Looks may R timely x y) :
    ∃ rs', Reports may k₀ d₀ rs' y.1 y.2 := by
  induction h with
  | refl => exact ⟨rs, hx⟩
  | tail _ hstep ih =>
    obtain ⟨rs', hrs⟩ := ih
    cases hstep with
    | waits _ => exact ⟨rs', hrs.deed (.others _)⟩
    | looks _ hcheck => exact ⟨_, hrs.check hcheck⟩
    | begins _ => exact ⟨rs', hrs.deed (.begins _)⟩
    | rearms => exact ⟨rs', hrs.deed .rearms⟩
    | ensures => exact ⟨rs', hrs.deed .ensures⟩
    | asks => exact ⟨rs', hrs.deed (.asks _)⟩

theorem Reports.fire (hk : Reports may k₀ d₀ rs k d) {i : Nat} (h : (k.fire i).Ends may d k' e) :
    ∃ rs', Reports may k₀ d₀ rs' k' e :=
  hk.looks (x := (k, d)) (leads_fire (Conduct.glances_any may) k i d _ _ h)

theorem Reports.recover (hk : Reports may k₀ d₀ rs k d) {b : Bool}
    (h : k.recover.Ends may d (b, k') e) : ∃ rs', Reports may k₀ d₀ rs' k' e :=
  hk.looks (x := (k, d)) (leads_recover (Conduct.glances_any may) k d _ _ h)

theorem Reports.acquire (hk : Reports may k₀ d₀ rs k d) {x : Except OsError (Option LockGuard)}
    (h : k.acquire.Ends may d (x, k') e) : ∃ rs', Reports may k₀ d₀ rs' k' e := by
  rcases leads_acquire (Conduct.glances_any may) k d _ _ h with htry | ⟨k₁, m, k₂, n, htry, hrest⟩
  · exact ⟨rs, hk.deed (.tries htry)⟩
  · obtain ⟨hlooks, hlast⟩ := hrest
    obtain ⟨rs', hrs⟩ := (hk.deed (.tries htry)).looks (x := (k₁, m)) hlooks
    rcases hlast with hagain | ⟨heq, rfl⟩
    · exact ⟨rs', hrs.deed (.tries hagain)⟩
    · cases heq
      exact ⟨rs', hrs⟩

end

/-! ## All checks -/

/-- **Checks are harmless.** A check removes the lock only if that is older at the given time than
the settings allow, and interrupts only the watched job, and that only if it is unfinished, not yet
interrupted and has waited for the threshold or longer. A second one at the same time, when nothing
else has happened, leaves all as it is and reports neither. In every run, and in every world, as many
locks are counted as reports tell of a removal. -/
theorem checks_harmless (hmay : may.Settled) (h : (k.checkAt now).Ends may d (r, k') e) :
    (r.lockRemoved = false ∧ e = d ∨
      r.lockRemoved = true ∧ ∃ n, d.view k.lock.path = .ok n ∧
        k.monitor.settings.maxLockAge < now.since n.modified ∧
        d.perform (.remove k.lock.path) = (.ok (), e)) ∧
    (r.interrupted = false ∧ k'.jobs = k.jobs ∨
      r.interrupted = true ∧ ∃ id j, k.monitor.watched = some id ∧ k.job? id = some j ∧
        k.monitor.Stalled d.clock j ∧ k'.jobs = (k.updateJob id JobHandle.interrupt).jobs) ∧
    ((∃ x f, (k'.checkAt now).Ends may e x f) ∧
      ∀ r' k'' f, (k'.checkAt now).Ends may e (r', k'') f →
        k'' = k' ∧ f = e ∧ r'.interrupted = false ∧ r'.lockRemoved = false) ∧
    (∀ (may : Conduct) (lock : UpdateLock) (settings : MonitorSettings) (requests : Bool)
      (d₀ : Disk) (rs : List MonitorReport) (k : Keeper) (d : Disk),
      Reports may (.new lock settings requests) d₀ rs k d → k.monitor.recovered = removals rs) := by
  refine ⟨?_, jobs_of_checkAt hmay h, ⟨?_, fun r' k'' f => checkAt_again hmay h⟩, ?_⟩
  · obtain ⟨o, hcheck, -⟩ := ends_checkAt_iff.mp h
    exact (Monitor.findings_of_checkAt hmay hcheck).removes
  · obtain ⟨⟨r', k''⟩, f, hagain⟩ := Routine.exists_ends hmay (k'.checkAt now) e
    exact ⟨(r', k''), f, hagain⟩
  · intro may lock settings requests d₀ rs k d hrs
    rw [hrs.recovered]
    exact Nat.zero_add _

/-- A lock of a day ago, whose job is stuck. -/
def neglected : Keeper :=
  { (new ⟨⟨"cache.lock"⟩⟩ {} true).arm 1 with
    jobs := [(JobHandle.new 1 ⟨0⟩).beginWaiting ⟨0⟩] }

/-- A day after the lock was created. -/
def dayAfter : Disk := ⟨[(["cache.lock"], .file .empty ⟨0⟩)], [], .ofSeconds 86400⟩

/-- The check removes the lock and interrupts the job, and the next one has nothing to do. -/
theorem checks_harmless_neglected :
    ∃ r k' e, (neglected.checkAt (.ofSeconds 86400)).Ends (.among Eq) dayAfter (r, k') e ∧
      r = ⟨true, true, true⟩ ∧ ¬e.Present neglected.lock.path ∧ k'.monitor.recovered = 1 ∧
      ∀ r' k'' f, (k'.checkAt (.ofSeconds 86400)).Ends (.among Eq) e (r', k'') f →
        k'' = k' ∧ f = e ∧ r'.interrupted = false ∧ r'.lockRemoved = false := by
  have hcheck : (neglected.checkAt (.ofSeconds 86400)).Ends (.among Eq) dayAfter _ _ :=
    Routine.ends_run (fun o d => ⟨d, rfl, rfl⟩) _ _
  obtain ⟨-, -, ⟨-, hagain⟩, -⟩ := checks_harmless Conduct.settled_alone hcheck
  exact ⟨_, _, _, hcheck, by decide +kernel, by decide +kernel, by decide +kernel, hagain⟩

end Keeper

end SensorCache
