import SensorCache.Proofs.Cache.Contents
import SensorCache.Proofs.Source.Calls

/-!
# What a sink counts

A population is a story of calls and of what lies between them (`Sink.Story`): entities are refused
by the cache, the work file cannot be opened for a while, somebody gives the population up in the
middle of a call, the failure is taken. Each step is noted, and the work file, the sink, the job and
the failure that is kept tell of the same notes (`Sink.Tallied`), so they tell of each other
(`Sink.counters_mirror_workFile`).
-/

namespace SensorCache

open Disk

variable {α : Type} {may : Conduct} {d e : Disk} {p : Path}

/-! ## The bytes of a file -/

namespace Disk

/-- The bytes of the file at a path, and none where no file is. -/
def contentAt (d : Disk) (p : Path) : ByteArray :=
  match d.view p with
  | .ok (.file b _) => b
  | _ => .empty

/-- From `d` to `e` nobody wrote to the file at `p`. -/
def SameContent (p : Path) (d e : Disk) : Prop := e.contentAt p = d.contentAt p

namespace SameContent

theorem refl (d : Disk) : SameContent p d d := rfl

theorem trans {f : Disk} (h : SameContent p d e) (k : SameContent p e f) : SameContent p d f :=
  Eq.trans k h

end SameContent

theorem contentAt_of_node? {l : Place} (hl : d.locate p = .ok l) {b : ByteArray} {t : Instant}
    (hn : d.node? l = some (.file b t)) : d.contentAt p = b := by
  rw [contentAt, view_eq_ok.mpr ⟨l, hl, hn⟩]

theorem contentAt_of_missing {l : Place} (hl : d.locate p = .ok l) (hn : d.node? l = none) :
    d.contentAt p = .empty := by
  have hview : d.view p = .error .notFound := by
    show (d.onPlace p fun l => (d.find l, d)).1 = _
    simp [onPlace, hl, find, hn]
  rw [contentAt, hview]

/-- A file that is put where no directory is has its bytes. -/
theorem contentAt_put {l : Place} (hl : d.locate p = .ok l) (hne : l ≠ [])
    (hd : d.isDirectoryAt l = false) (b : ByteArray) (t : Instant) :
    (d.put l (.file b t)).contentAt p = b := by
  refine contentAt_of_node? ((SameDirectories.put_file hne hd b t).locate_ok hl) (t := t) ?_
  rw [node?_put hne, if_pos rfl]

/-- Bytes are added to those of the file, or nothing happens. -/
theorem contentAt_append {bytes : ByteArray} {x : Except OsError Unit}
    (h : d.perform (.append p bytes) = (x, e)) :
    (x = .ok () ∧ e.contentAt p = d.contentAt p ++ bytes) ∨ ((∃ y, x = .error y) ∧ e = d) := by
  have h' : d.onPlace p (fun l => d.appendFile l bytes) = (x, e) := h
  unfold onPlace at h'
  split at h'
  · cases h'
    exact .inr ⟨⟨_, rfl⟩, rfl⟩
  · next l hl =>
    have hne : d.node? l ≠ some (.directory ⟨0⟩) → l ≠ [] := by
      rintro hdir rfl
      exact hdir rfl
    unfold appendFile at h'
    cases hn : d.node? l with
    | none =>
      simp only [hn] at h'
      cases h'
      refine .inl ⟨rfl, ?_⟩
      rw [contentAt_of_missing hl hn, ByteArray.empty_append]
      exact contentAt_put hl (hne (by simp [hn])) (isDirectoryAt_of_not (by simp [hn])) _ _
    | some n =>
      cases n with
      | directory t =>
        simp only [hn] at h'
        cases h'
        exact .inr ⟨⟨_, rfl⟩, rfl⟩
      | file b t =>
        simp only [hn] at h'
        cases h'
        refine .inl ⟨rfl, ?_⟩
        rw [contentAt_of_node? hl hn]
        split
        · next hz =>
          rw [ByteArray.size_eq_zero_iff.mp (beq_iff_eq.mp hz), ByteArray.append_empty]
          exact contentAt_of_node? hl hn
        · exact contentAt_put hl (hne (by simp [hn])) (isDirectoryAt_of_not (by simp [hn])) _ _

end Disk

variable [Entity α] {c : EntityCache α}

/-- The work file gets the line of the entity, or the attempt fails and the file stays. -/
theorem CacheFiles.ends_appendWork {f : CacheFiles} (hmay : may.Within (SameContent f.work)) {a : α}
    {x : Except CacheError Unit} (h : (f.appendWork a).Ends may d x e) :
    (x = .ok () ∧ Record.Accepted a ∧
        e.contentAt f.work = d.contentAt f.work ++ Record.logBytes [a]) ∨
      ((∃ y, x = .error y) ∧ SameContent f.work d e) := by
  unfold appendWork at h
  split at h
  · obtain ⟨rfl, rfl⟩ := Attempt.ends_fail.mp h
    exact .inr ⟨⟨_, rfl⟩, .refl _⟩
  · next l hl =>
    obtain ⟨haccepted, rfl⟩ := Record.encode_eq_ok.mp hl
    obtain ⟨y, hy, rfl⟩ := Attempt.ends_because.mp h
    obtain ⟨m, hm, hp | ⟨⟨t, rfl⟩, hf⟩⟩ := hmay (Routine.ends_op.mp hy)
    · rcases contentAt_append hp with ⟨rfl, hcontent⟩ | ⟨⟨z, rfl⟩, rfl⟩
      · refine .inl ⟨rfl, haccepted, ?_⟩
        rw [hcontent, hm]
        rfl
      · exact .inr ⟨⟨_, rfl⟩, hm⟩
    · exact .inr ⟨⟨_, rfl⟩, hm.trans hf⟩

namespace Sink

variable {a : α} {s t : Sink} {j k : JobHandle} {b : Bool}

/-! ## Stories -/

/-- What a population consists of as it goes on. -/
structure Streaming where
  sink : Sink
  job : JobHandle
  disk : Disk

/-- Whether the population was given up. -/
def Streaming.stopped (x : Streaming) : Bool := x.sink.isStopped x.job

/-- A population is given up by itself or with its job. -/
inductive Cancellation where
  | ofSink
  | ofJob

def Streaming.cancel (x : Streaming) : Cancellation → Streaming
  | .ofSink => { x with sink := x.sink.stop }
  | .ofJob => { x with job := x.job.interrupt }

theorem stopped_cancel (x : Streaming) (k : Cancellation) : (x.cancel k).stopped = true := by
  cases k with
  | ofSink => rfl
  | ofJob => exact Bool.or_true _

/-- What is noted of a population: calls with the fate of their entities and whether the producer may
go on, that it was given up, and that the failure was taken. -/
inductive Note (α : Type) where
  | item (a : α) (fate : Fate) (goesOn : Bool)
  | cancelled
  | taken

/-- What may happen to a population. It may be given up in the middle of a call, and more than once;
the delivery looks at that only before it does anything, so all this comes before the answer. Others
leave the work file alone. -/
inductive Step (may : Conduct) (c : EntityCache α) : Streaming → List (Note α) → Streaming → Prop where
  | item {x y : Streaming} {a : α} {b : Bool} (cs : List Cancellation) :
    (deliver c a x.sink x.job).Ends may x.disk (b, y.sink, y.job) y.disk →
      Step may c x (.item a (fate x.stopped b) (b && !(cs.foldl Streaming.cancel y).stopped) ::
        cs.map fun _ => .cancelled) (cs.foldl Streaming.cancel y)
  | cancels {x : Streaming} (k : Cancellation) : Step may c x [.cancelled] (x.cancel k)
  | expects {x : Streaming} (n : Nat) : Step may c x [] { x with sink := x.sink.expect n }
  | takes {x : Streaming} : Step may c x [.taken] { x with sink := x.sink.takeFailure.2 }
  | others {x : Streaming} {e : Disk} : SameContent c.files.work x.disk e →
      Step may c x [] { x with disk := e }

/-- What a population may come to from `x`, with the notes of it. -/
inductive Story (may : Conduct) (c : EntityCache α) (x : Streaming) :
    List (Note α) → Streaming → Prop where
  | begins : Story may c x [] x
  | goesOn {log notes : List (Note α)} {y z : Streaming} : Story may c x log y →
      Step may c y notes z → Story may c x (log ++ notes) z

/-- A call that nothing comes between is one of the steps. -/
theorem step_of_item {x : Streaming} (h : (item c a x.sink x.job).Ends may x.disk (b, t, k) e) :
    ∃ f, Step may c x [.item a f b] ⟨t, k, e⟩ ∧ Delivers may c a x.sink x.job x.disk f t k e := by
  obtain ⟨⟨stored, s, j⟩, m, hdeliver, hend⟩ := Routine.ends_seq.mp h
  obtain ⟨heq, rfl⟩ := Routine.ends_pure.mp hend
  cases heq
  exact ⟨_, .item (y := ⟨t, k, e⟩) [] hdeliver, delivers_of_ends hdeliver⟩

/-! ## Tallies -/

section Notes

omit [Entity α]

/-- The entities that were stored. -/
def stored (log : List (Note α)) : List α :=
  log.filterMap fun
    | .item a .stored _ => some a
    | _ => none

/-- Whether a failure is kept after a note. -/
def Note.keeps (kept : Bool) : Note α → Bool
  | .item _ .failed _ => true
  | .taken => false
  | _ => kept

variable {log : List (Note α)}

theorem stored_append (l m : List (Note α)) : stored (l ++ m) = stored l ++ stored m :=
  List.filterMap_append

theorem keeps_true (h : .taken ∉ log) : log.foldl Note.keeps true = true := by
  induction log with
  | nil => rfl
  | cons n log ih =>
    obtain ⟨hn, hlog⟩ := not_or.mp (mt List.mem_cons.mpr h)
    have hkeeps : n.keeps true = true := by
      unfold Note.keeps
      split
      · rfl
      · exact absurd rfl hn
      · rfl
    rw [List.foldl_cons, hkeeps, ih hlog]

theorem keeps_false (h : ∀ a g, .item a .failed g ∉ log) : log.foldl Note.keeps false = false := by
  induction log with
  | nil => rfl
  | cons n log ih =>
    have hkeeps : n.keeps false = false := by
      unfold Note.keeps
      split
      · exact absurd List.mem_cons_self (h _ _)
      · rfl
      · rfl
    rw [List.foldl_cons, hkeeps, ih fun a g hmem => h a g (List.mem_cons_of_mem n hmem)]

end Notes

/-- From `x` to `y` the work file, the sink and the job tell of the same notes. A population that was
given up stays so. -/
structure Tallied (c : EntityCache α) (x : Streaming) (log : List (Note α)) (y : Streaming) :
    Prop where
  file : y.disk.contentAt c.files.work =
    x.disk.contentAt c.files.work ++ Record.logBytes (stored log)
  accepted : ∀ a ∈ stored log, Record.Accepted a
  received : y.sink.received = x.sink.received + (stored log).length
  progress : y.job.progress = x.job.progress + (stored log).length
  stopped : x.stopped = true → stored log = [] ∧ y.stopped = true
  cancelled : ∀ before after, log = before ++ .cancelled :: after →
    stored after = [] ∧ y.stopped = true
  goesOn : ∀ a f, .item a f true ∈ log → f = .stored
  failure : y.sink.failure.isSome = log.foldl Note.keeps x.sink.failure.isSome

namespace Tallied

variable {x y z : Streaming} {l m log : List (Note α)}

/-- What is not noted concerns nothing that is counted. -/
theorem unnoted (hfile : SameContent c.files.work x.disk y.disk)
    (hreceived : y.sink.received = x.sink.received) (hfailure : y.sink.failure = x.sink.failure)
    (hjob : y.job = x.job) (hstopped : y.sink.stopped = x.sink.stopped) : Tallied c x [] y where
  file := Eq.trans hfile ByteArray.append_empty.symm
  accepted _ h := nomatch h
  received := hreceived
  progress := by rw [hjob]; rfl
  stopped h := ⟨rfl, by rwa [Streaming.stopped, isStopped, hstopped, hjob]⟩
  cancelled _ _ h := by simp at h
  goesOn _ _ h := nomatch h
  failure := by rw [hfailure]; rfl

/-- One note that does not give the population up. -/
theorem single {n : Note α} (hn : n ≠ .cancelled)
    (hfile : y.disk.contentAt c.files.work =
      x.disk.contentAt c.files.work ++ Record.logBytes (stored [n]))
    (haccepted : ∀ a ∈ stored [n], Record.Accepted a)
    (hreceived : y.sink.received = x.sink.received + (stored [n]).length)
    (hprogress : y.job.progress = x.job.progress + (stored [n]).length)
    (hstopped : x.stopped = true → stored [n] = [] ∧ y.stopped = true)
    (hgoesOn : ∀ a f, n = .item a f true → f = .stored)
    (hfailure : y.sink.failure.isSome = n.keeps x.sink.failure.isSome) : Tallied c x [n] y where
  file := hfile
  accepted := haccepted
  received := hreceived
  progress := hprogress
  stopped := hstopped
  cancelled before after heq := by
    have hmem : .cancelled ∈ [n] := by rw [heq]; simp
    exact absurd (List.mem_singleton.mp hmem).symm hn
  goesOn a f hmem := hgoesOn a f (List.mem_singleton.mp hmem).symm
  failure := hfailure

theorem trans (h : Tallied c x l y) (k : Tallied c y m z) : Tallied c x (l ++ m) z where
  file := by
    rw [k.file, h.file, stored_append, Record.logBytes_append, ByteArray.append_assoc]
  accepted a ha := by
    rw [stored_append, List.mem_append] at ha
    exact ha.elim (h.accepted a) (k.accepted a)
  received := by rw [k.received, h.received, stored_append, List.length_append, Nat.add_assoc]
  progress := by rw [k.progress, h.progress, stored_append, List.length_append, Nat.add_assoc]
  stopped hx := by
    obtain ⟨hl, hy⟩ := h.stopped hx
    obtain ⟨hm, hz⟩ := k.stopped hy
    exact ⟨by rw [stored_append, hl, hm]; rfl, hz⟩
  cancelled before after heq := by
    rcases List.append_eq_append_iff.mp heq with ⟨as, -, hm⟩ | ⟨bs, hl, hm⟩
    · exact k.cancelled as after hm
    · cases bs with
      | nil => exact k.cancelled [] after hm.symm
      | cons n bs =>
        obtain ⟨rfl, rfl⟩ := List.cons.inj hm
        obtain ⟨hbs, hy⟩ := h.cancelled before bs hl
        obtain ⟨hm, hz⟩ := k.stopped hy
        refine ⟨?_, hz⟩
        show stored (bs ++ m) = []
        rw [stored_append, hbs, hm]
        rfl
  goesOn a f hmem := (List.mem_append.mp hmem).elim (h.goesOn a f) (k.goesOn a f)
  failure := by rw [k.failure, h.failure, List.foldl_append]

theorem cancel (x : Streaming) (k : Cancellation) : Tallied c x [.cancelled] (x.cancel k) where
  file := by cases k <;> exact ByteArray.append_empty.symm
  accepted _ h := nomatch h
  received := by cases k <;> rfl
  progress := by cases k <;> rfl
  stopped _ := ⟨rfl, stopped_cancel x k⟩
  cancelled before after heq := by
    have hlength := congrArg List.length heq
    simp only [List.length_append, List.length_cons, List.length_nil] at hlength
    obtain rfl : after = [] := List.length_eq_zero_iff.mp (by omega)
    exact ⟨rfl, stopped_cancel x k⟩
  goesOn a f h := by cases List.mem_singleton.mp h
  failure := by cases k <;> rfl

theorem cancels (x : Streaming) (cs : List Cancellation) :
    Tallied c x (cs.map fun _ => .cancelled) (cs.foldl Streaming.cancel x) := by
  induction cs generalizing x with
  | nil => exact unnoted (.refl _) rfl rfl rfl rfl
  | cons k cs ih => exact (cancel x k).trans (ih (x.cancel k))

end Tallied

variable {x y : Streaming} {f : Fate} {g : Bool} {log notes : List (Note α)}

theorem Delivers.tallied (hmay : may.Within (SameContent c.files.work))
    (h : Delivers may c a x.sink x.job x.disk f t k e) (hg : g = true → f = .stored) :
    Tallied c x [.item a f g] ⟨t, k, e⟩ := by
  have hgoesOn : ∀ b h, .item a f g = Note.item b h true → h = .stored := by
    intro b h heq
    cases heq
    exact hg rfl
  cases h with
  | stored hgoes hstore hnow =>
    have hnow := (Routine.keeps_op fun d => .refl d : Disk.now.Keeps _).ends hmay .refl .trans hnow
    rcases CacheFiles.ends_appendWork hmay hstore with ⟨-, haccepted, hcontent⟩ | ⟨⟨_, herror⟩, -⟩
    · refine .single nofun (Eq.trans hnow hcontent) (fun b hb => ?_) rfl rfl (fun hx => ?_) hgoesOn rfl
      · rw [List.mem_singleton.mp hb]
        exact haccepted
      · exact absurd hx (Bool.eq_false_iff.mp hgoes)
    · cases herror
  | refused hstopped =>
    exact .single nofun ByteArray.append_empty.symm nofun rfl rfl (fun hx => ⟨rfl, hx⟩) hgoesOn rfl
  | failed hgoes hstore =>
    rcases CacheFiles.ends_appendWork hmay hstore with ⟨hok, -⟩ | ⟨-, hsame⟩
    · cases hok
    · exact .single nofun (Eq.trans hsame ByteArray.append_empty.symm) nofun rfl rfl
        (fun hx => absurd hx (Bool.eq_false_iff.mp hgoes)) hgoesOn rfl

theorem Step.tallied (hmay : may.Within (SameContent c.files.work)) (h : Step may c x notes y) :
    Tallied c x notes y := by
  cases h with
  | item cs hdeliver =>
    refine ((delivers_of_ends hdeliver).tallied hmay fun hg => ?_).trans (l := [_]) (.cancels _ cs)
    exact fate_eq_stored.mpr (Bool.and_eq_true_iff.mp hg).1
  | cancels k => exact .cancel x k
  | expects n => exact .unnoted (.refl _) rfl rfl rfl rfl
  | takes =>
    exact .single nofun ByteArray.append_empty.symm nofun rfl rfl (fun hx => ⟨rfl, hx⟩) nofun rfl
  | others hsame => exact .unnoted hsame rfl rfl rfl rfl

theorem Story.tallied (hmay : may.Within (SameContent c.files.work)) (h : Story may c x log y) :
    Tallied c x log y := by
  induction h with
  | begins => exact .unnoted (.refl _) rfl rfl rfl rfl
  | goesOn _ hstep ih => exact ih.trans (hstep.tallied hmay)

/-- **The counters mirror the work file.** Whatever happens to a population, the work file gets the
lines of the stored entities, in their order, and the sink and the job count just these. Nothing is
stored any more once the population was given up, and only who stored an entity may go on. A call
that could not store its entity changes neither the file nor the counters; its failure is there until
it is taken, and there is none without such a call. -/
theorem counters_mirror_workFile (hmay : may.Within (SameContent c.files.work))
    (h : Story may c x log y) :
    y.disk.contentAt c.files.work =
      x.disk.contentAt c.files.work ++ Record.logBytes (stored log) ∧
    (∀ a ∈ stored log, Record.Accepted a) ∧
    y.sink.received = x.sink.received + (stored log).length ∧
    y.job.progress = x.job.progress + (stored log).length ∧
    (x.stopped = true → stored log = []) ∧
    (∀ before after, log = before ++ .cancelled :: after → stored after = []) ∧
    (∀ a f, .item a f true ∈ log → f = .stored) ∧
    (∀ before a g after, log = before ++ .item a .failed g :: after → .taken ∉ after →
      ∃ z, y.sink.takeFailure.1 = some z) ∧
    (∀ before after, log = before ++ .taken :: after → (∀ a g, .item a .failed g ∉ after) →
      y.sink.takeFailure.1 = none) ∧
    (x.sink.failure = none → (∀ a g, .item a .failed g ∉ log) → y.sink.takeFailure.1 = none) ∧
    (∀ a g t k e, (item c a y.sink y.job).Ends may y.disk (g, t, k) e →
      ∃ f, Story may c x (log ++ [.item a f g]) ⟨t, k, e⟩ ∧
        Delivers may c a y.sink y.job y.disk f t k e) ∧
    (∀ a t k e, Delivers may c a y.sink y.job y.disk .failed t k e →
      SameContent c.files.work y.disk e ∧ t.received = y.sink.received ∧ k = y.job) := by
  have htallied := h.tallied hmay
  have hfailure := htallied.failure
  have hnone : y.sink.failure.isSome = false → y.sink.takeFailure.1 = none := fun h =>
    Option.isNone_iff_eq_none.mp (Option.isSome_eq_false_iff.mp h)
  refine ⟨htallied.file, htallied.accepted, htallied.received, htallied.progress,
    fun hx => (htallied.stopped hx).1, fun before after heq => (htallied.cancelled _ _ heq).1,
    htallied.goesOn, fun before a g after heq hafter => ?_, fun before after heq hafter => ?_,
    fun hbefore hlog => ?_, fun a g t k e hitem => ?_, fun a t k e hfailed => ?_⟩
  · rw [heq, List.foldl_append, List.foldl_cons] at hfailure
    exact Option.isSome_iff_exists.mp (hfailure.trans (keeps_true hafter))
  · rw [heq, List.foldl_append, List.foldl_cons] at hfailure
    exact hnone (hfailure.trans (keeps_false hafter))
  · rw [hbefore] at hfailure
    exact hnone (hfailure.trans (keeps_false hlog))
  · obtain ⟨f, hstep, hdelivers⟩ := step_of_item hitem
    exact ⟨f, h.goesOn hstep, hdelivers⟩
  · cases hfailed with
    | failed hgoes hstore =>
      rcases CacheFiles.ends_appendWork hmay hstore with ⟨hok, -⟩ | ⟨-, hsame⟩
      · cases hok
      · exact ⟨hsame, rfl, rfl⟩

/-! ## A story -/

/-- Nobody interferes, but operations may fail. -/
def faulty : Conduct := fun o d x e => d.perform o = (x, e) ∨ (o.Fault x ∧ e = d)

theorem within_faulty (p : Path) : faulty.Within (SameContent p) := by
  rintro o d x e (hp | ⟨hf, rfl⟩)
  · exact ⟨d, .refl d, .inl hp⟩
  · exact ⟨_, .refl _, .inr ⟨hf, .refl _⟩⟩

/-- A cache of units, whose files are not there yet. -/
def units : EntityCache UnitMapping := ⟨⟨⟨"units"⟩, ⟨"work"⟩⟩, {}⟩

/-- What a delivery answers and does when nothing fails. -/
def delivered (u : UnitMapping) (x : Streaming) : Bool × Streaming :=
  let ((b, s, j), d) := (deliver units u x.sink x.job).run x.disk
  (b, ⟨s, j, d⟩)

theorem step_delivered {u : UnitMapping} {x : Streaming} (cs : List Cancellation)
    (hf : fate x.stopped (delivered u x).1 = f)
    (hg : ((delivered u x).1 && !(cs.foldl Streaming.cancel (delivered u x).2).stopped) = g) :
    Step faulty units x (.item u f g :: cs.map fun _ => .cancelled)
      (cs.foldl Streaming.cancel (delivered u x).2) := by
  subst hf hg
  exact .item cs (Routine.ends_run (fun o d => .inl rfl) (deliver units u x.sink x.job) x.disk)

/-- The work file cannot be opened. -/
theorem step_unopened {u : UnitMapping} {x : Streaming} (hgoes : x.stopped = false)
    (hu : Record.Accepted u) (message : String) :
    Step faulty units x [.item u .failed false]
      { x with sink.failure := some (.io units.files.work (.other message)) } := by
  have hstore : (units.storeOne u).Ends faulty x.disk
      (.error (.io units.files.work (.other message))) x.disk := by
    show (CacheFiles.appendWork _ _).Ends _ _ _ _
    rw [CacheFiles.appendWork, Record.encode_eq_ok.mpr ⟨hu, rfl⟩]
    exact Attempt.ends_because.mpr ⟨_, Routine.ends_op.mpr (.inr ⟨⟨_, rfl⟩, rfl⟩), rfl⟩
  have hdeliver : (deliver units u x.sink x.job).Ends faulty x.disk
      (false, { x.sink with failure := some (.io units.files.work (.other message)) }, x.job)
      x.disk := by
    have hgoes : x.sink.isStopped x.job = false := hgoes
    rw [deliver, hgoes]
    exact Routine.ends_seq.mpr ⟨_, _, hstore, .done _ _⟩
  have hstep := Step.item (y := ⟨_, x.job, x.disk⟩) [] hdeliver
  rwa [hgoes] at hstep

/-- A population that begins where no file is. -/
def opened : Streaming := ⟨.new, .new 1 ⟨0⟩, .empty ⟨5⟩⟩

/-- Of five calls, two store their entities: one entity has a key that is not allowed, for one the
work file cannot be opened, and in the middle of the last but one the job is interrupted. -/
theorem counters_mirror_workFile_units :
    ∃ y, Story faulty units opened
      [.item ⟨"depth", "m"⟩ .stored true, .item ⟨"a\tb", "m"⟩ .failed false,
        .item ⟨"speed", "m/s"⟩ .failed false, .taken, .item ⟨"width", "m"⟩ .stored false,
        .cancelled, .item ⟨"level", "m"⟩ .refused false] y ∧
      y.disk.contentAt units.files.work =
        opened.disk.contentAt units.files.work ++
          Record.logBytes [(⟨"depth", "m"⟩ : UnitMapping), ⟨"width", "m"⟩] ∧
      y.sink.received = 2 ∧ y.job.progress = 2 ∧ y.sink.takeFailure.1 = none := by
  let x₁ := (delivered ⟨"depth", "m"⟩ opened).2
  let x₂ := (delivered ⟨"a\tb", "m"⟩ x₁).2
  let x₃ : Streaming :=
    { x₂ with sink.failure := some (.io units.files.work (.other "Permission denied")) }
  let x₄ : Streaming := { x₃ with sink := x₃.sink.takeFailure.2 }
  let x₅ := (delivered ⟨"width", "m"⟩ x₄).2.cancel .ofJob
  have h₁ : Step faulty units opened [.item _ .stored true] x₁ :=
    step_delivered [] (by decide +kernel) (by decide +kernel)
  have h₂ : Step faulty units x₁ [.item _ .failed false] x₂ :=
    step_delivered [] (by decide +kernel) (by decide +kernel)
  have h₃ : Step faulty units x₂ [.item ⟨"speed", "m/s"⟩ .failed false] x₃ :=
    step_unopened (by decide +kernel) (by decide +kernel) _
  have h₄ : Step faulty units x₃ [.taken] x₄ := .takes
  have h₅ : Step faulty units x₄ [.item _ .stored false, .cancelled] x₅ :=
    step_delivered [.ofJob] (by decide +kernel) (by decide +kernel)
  have h₆ : Step faulty units x₅ [.item ⟨"level", "m"⟩ .refused false] _ :=
    step_delivered [] (by decide +kernel) (by decide +kernel)
  have hstory := (((((Story.begins.goesOn h₁).goesOn h₂).goesOn h₃).goesOn h₄).goesOn h₅).goesOn h₆
  obtain ⟨hfile, -, hreceived, hprogress, -, -, -, -, htaken, -, -⟩ :=
    counters_mirror_workFile (within_faulty _) hstory
  exact ⟨_, hstory, hfile, hreceived, hprogress, htaken [_, _, _] _ rfl (by simp)⟩

end Sink

end SensorCache
