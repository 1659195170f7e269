import SensorCache.Proofs.Cache.Promotion
import SensorCache.Proofs.Refresh.Courses
import SensorCache.Proofs.Source.Calls
import SensorCache.Refresh.Target

/-!
# Updates that fail

An update that ends with a failure has left the snapshot as it was. Only the last step of either way
to update replaces it, and all before that step goes on at the work file: so the courses are taken
apart into a beginning that keeps the snapshot and an end whose failures do
(`Course.Keeps.failureKeeps`).

A streamed update does not get to that step after an entity was refused: either it could not be
stored, and the sink has kept that failure, or the job is interrupted, and stays so.
-/

namespace SensorCache

open Disk Time

variable {α ρ σ τ : Type}

/-! ## Calls -/

namespace SourceCall

variable {W : Surroundings σ} {R : Disk → Disk → Prop} {s t : Scene σ} {d e : Disk}
  {h : Receiver α τ} {start : JobHandle → τ} {job : τ → JobHandle} {limit : Span}
  {c : SourceCall α ρ}

theorem keeps_awaited (hh : ∀ a x, (h.accept a x).Keeps R) (hc : c.Keeps R) :
    (c.awaited h start job limit : Course σ (Awaited ρ τ)).Keeps R := by
  refine Course.Keeps.bind (c := Course.wait _ _) (fun _ => trivial) fun w => ?_
  cases w with
  | timeUp => trivial
  | interrupted => trivial
  | ready =>
    refine (Course.keeps_modify _).bind fun _ => ?_
    refine Course.Keeps.bind (c := Course.look) (fun _ => trivial) fun sc => ?_
    refine (Course.keeps_ofRoutine (hc.run hh _)).bind fun x => ?_
    refine (Course.keeps_modify _).bind fun _ => ?_
    refine Course.Keeps.bind (c := Course.wait _ _) (fun _ => trivial) fun w => ?_
    cases w with
    | ready => exact (Course.keeps_modify _).bind fun _ => by split <;> trivial
    | timeUp => exact (Course.keeps_modify _).bind fun _ => trivial
    | interrupted => exact (Course.keeps_modify _).bind fun _ => trivial

/-- A call that returned was run, and the marks that its hearer made of the job are there. -/
theorem ends_awaited {r : Except SourceError ρ} {heard : τ}
    (hends : (c.awaited h start job limit).Ends W s d (.returned r heard) t e) :
    ∃ j m n, (c.run h (start j)).Ends W.disk m (.returned r, heard) n ∧
      ((job heard).interrupted = true → t.job.interrupted = true) := by
  obtain ⟨w, s₁, d₁, -, hends⟩ := Course.ends_seq.mp hends
  cases w with
  | timeUp => cases (Course.ends_pure.mp hends).1
  | interrupted => cases (Course.ends_pure.mp hends).1
  | ready =>
    obtain ⟨-, s₂, d₂, -, hends⟩ := Course.ends_seq.mp hends
    obtain ⟨sc, s₃, d₃, -, hends⟩ := Course.ends_seq.mp hends
    obtain ⟨⟨x, heard'⟩, s₄, d₄, hrun, hends⟩ := Course.ends_seq.mp hends
    obtain ⟨-, hrun⟩ := Course.ends_ofRoutine.mp hrun
    obtain ⟨_, s₅, d₅, hmark, hends⟩ := Course.ends_seq.mp hends
    obtain ⟨w, s₆, d₆, hwait, hends⟩ := Course.ends_seq.mp hends
    cases w with
    | timeUp =>
      obtain ⟨_, _, _, -, hends⟩ := Course.ends_seq.mp hends
      cases (Course.ends_pure.mp hends).1
    | interrupted =>
      obtain ⟨_, _, _, -, hends⟩ := Course.ends_seq.mp hends
      cases (Course.ends_pure.mp hends).1
    | ready =>
      obtain ⟨_, s₇, d₇, hfinish, hends⟩ := Course.ends_seq.mp hends
      cases x with
      | crashed => cases (Course.ends_pure.mp hends).1
      | hung => cases (Course.ends_pure.mp hends).1
      | returned r' =>
        obtain ⟨heq, rfl, rfl⟩ := Course.ends_pure.mp hends
        cases heq
        refine ⟨_, _, _, hrun, fun hi => ?_⟩
        obtain ⟨m₁, -, rfl, -⟩ := Course.ends_modify.mp hmark
        obtain ⟨hs₆, -, -⟩ := Course.ends_wait.mp hwait
        obtain ⟨m₂, hm₂, rfl, -⟩ := Course.ends_modify.mp hfinish
        exact W.interrupted (t := m₂) hm₂ (W.interrupted hs₆ hi)

/-- What holds of a hearer's state as it makes its marks holds when the call is over. -/
theorem run_invariant {may : Conduct} (I : τ → Prop) (hinterrupt : ∀ x, I x → I (h.interrupt x))
    (hannounce : ∀ n x, I x → I (h.announce n x))
    (haccept : ∀ {a x b y d e}, I x → (h.accept a x).Ends may d (b, y) e → I y) {x y : τ}
    (hx : I x) {r : CallEnd ρ} (hrun : (c.run h x).Ends may d (r, y) e) : I y := by
  induction c generalizing x d with
  | returns q =>
    obtain ⟨heq, -⟩ := Routine.ends_done.mp hrun
    cases heq
    exact hx
  | crashes =>
    obtain ⟨heq, -⟩ := Routine.ends_done.mp hrun
    cases heq
    exact hx
  | hangs =>
    obtain ⟨heq, -⟩ := Routine.ends_done.mp hrun
    cases heq
    exact hx
  | interrupts next ih => exact ih (hinterrupt x hx) hrun
  | performs o next ih =>
    obtain ⟨z, m, -, hn⟩ := Routine.ends_step.mp hrun
    exact ih z hx hn
  | announces n next ih => exact ih (hannounce n x hx) hrun
  | delivers a next ih =>
    obtain ⟨⟨b, z⟩, m, ha, hn⟩ := Routine.ends_bind.mp hrun
    exact ih b (haccept hx ha) hn

end SourceCall

/-! ## The way that fetches everything -/

namespace EntityCache

variable [Entity α] {c : EntityCache α} {src : Source α} {W : Surroundings σ}

theorem keeps_item {R : Disk → Disk → Prop} (hw : c.files.WorkKeeps R) (a : α) (x : Sink)
    (j : JobHandle) : (Sink.item c a x j).Keeps R := by
  refine Routine.Keeps.bind ?_ fun _ => trivial
  unfold Sink.deliver
  split
  · trivial
  · refine Routine.Keeps.bind (hw.appendWork a) fun z => ?_
    cases z with
    | error _ => trivial
    | ok _ => exact (Routine.keeps_op hw.refl).bind fun _ => trivial

section Failures

variable (hf : c.files.Siblings) (hmay : W.disk.Within (Spares c.files.snapshot))
  (hre : c.files.Recreates W.disk) (hsrc : src.Keeps (Spares c.files.snapshot))
include hf hmay hre

theorem failureKeeps_storeFetched (as : List α) :
    (c.storeFetched as : Course σ (Except RefreshError Nat)).FailureKeeps W
      (Spares c.files.snapshot) := by
  refine Course.keeps_isInterrupted.failureKeeps hmay .refl .trans fun b => ?_
  split
  · exact Course.failureKeeps_pure .refl _
  · refine (Course.keeps_markNow .refl _).failureKeeps hmay .refl .trans fun _ => ?_
    exact Course.failureKeeps_ofAttempt fun h => storeAll_error hf hmay hre h

include hsrc in
theorem failureKeeps_updateBulk (limit : Span) :
    (c.updateBulk src limit : Course σ (Except RefreshError Nat)).FailureKeeps W
      (Spares c.files.snapshot) := by
  refine (Course.keeps_markNow .refl _).failureKeeps hmay .refl .trans fun _ => ?_
  refine (SourceCall.keeps_awaited (fun a _ => nomatch a) hsrc.fetch).failureKeeps hmay .refl .trans
    fun r => ?_
  refine (Course.keeps_modify _).failureKeeps hmay .refl .trans fun _ => ?_
  split
  · exact Course.failureKeeps_pure .refl _
  · exact Course.failureKeeps_pure .refl _
  · exact Course.failureKeeps_pure .refl _
  · exact failureKeeps_storeFetched hf hmay hre _

/-! ## The way that streams -/

theorem failureKeeps_promoteStreamed :
    (c.promoteStreamed : Course σ (Except RefreshError Nat)).FailureKeeps W
      (Spares c.files.snapshot) := by
  refine Course.keeps_isInterrupted.failureKeeps hmay .refl .trans fun b => ?_
  split
  · exact Course.failureKeeps_pure .refl _
  · exact Course.failureKeeps_ofAttempt fun h => promoteWorkFile_error hf hmay hre h

include hsrc in
theorem failureKeeps_updateStreaming (limit : Span) :
    (c.updateStreaming src limit : Course σ (Except RefreshError Nat)).FailureKeeps W
      (Spares c.files.snapshot) := by
  refine (Course.keeps_ofRoutine hf.workKeeps.clearWork).failureKeeps hmay .refl .trans
    fun x => ?_
  split
  · exact Course.failureKeeps_pure .refl _
  · refine (Course.keeps_markNow .refl _).failureKeeps hmay .refl .trans fun _ => ?_
    refine (SourceCall.keeps_awaited (fun a x => keeps_item hf.workKeeps a x.1 x.2)
      hsrc.stream).failureKeeps hmay .refl .trans fun r => ?_
    refine (Course.keeps_modify _).failureKeeps hmay .refl .trans fun _ => ?_
    split
    · exact Course.failureKeeps_pure .refl _
    · exact Course.failureKeeps_pure .refl _
    · split
      · exact Course.failureKeeps_pure .refl _
      · exact Course.failureKeeps_pure .refl _
      · exact failureKeeps_promoteStreamed hf hmay hre

include hsrc in
theorem failureKeeps_update (limits : CallLimits) :
    (c.update src limits : Course σ (Except RefreshError Nat)).FailureKeeps W
      (Spares c.files.snapshot) := by
  unfold update
  split
  · exact failureKeeps_updateStreaming hf hmay hre hsrc _
  · exact failureKeeps_updateBulk hf hmay hre hsrc _

end Failures

/-! ## Refused entities -/

/-- A streamed update whose hearer notes what it did with each entity. Nothing is known of the
entities of a call that was not waited for to its end. -/
def updateStreamingNoting (c : EntityCache α) (src : Source α) (limit : Span) :
    Course σ (Except RefreshError Nat × List (α × Bool)) := do
  match ← c.beginStreaming.outcome with
  | .error e => return (.error (.cache e), [])
  | .ok _ =>
    Course.markNow JobHandle.beginWaiting
    let r ← src.stream.awaited (Receiver.ofSink c).noting (fun j => ((Sink.new, j), []))
      (fun x => x.1.2) limit
    Course.mark JobHandle.endWaiting
    match r with
    | .interrupted => return (.error .cancelled, [])
    | .failed e => return (.error (.ofCall e), [])
    | .returned r ((sink, _), noted) =>
      match sink.failure, r with
      | some e, _ => return (.error (.cache e), noted)
      | none, .error e => return (.error (.ofSource e), noted)
      | none, .ok _ => return (← c.promoteStreamed, noted)

/-- The update with its notes; one that fetches everything has none. -/
def updateNoting (c : EntityCache α) (src : Source α) (limits : CallLimits) :
    Course σ (Except RefreshError Nat × List (α × Bool)) :=
  if src.streams then c.updateStreamingNoting src limits.streaming
  else (c.updateBulk src limits.call).bind fun x => .ends (x, [])

omit [Entity α] in
/-- A call whose hearer notes things goes as it goes without. -/
theorem awaited_noting (h : Receiver α τ) (start : JobHandle → τ) (job : τ → JobHandle)
    (limit : Span) (call : SourceCall α ρ) :
    (call.awaited h.noting (fun j => (start j, [])) (fun x => job x.1) limit).bind (fun r =>
        .ends (match r with
          | .returned r x => .returned r x.1
          | .failed e => .failed e
          | .interrupted => .interrupted)) =
      (call.awaited h start job limit : Course σ (Awaited ρ τ)) := by
  show Course.waits _ _ _ _ = Course.waits _ _ _ _
  congr 1
  funext w
  cases w with
  | timeUp => rfl
  | interrupted => rfl
  | ready =>
    show Course.looks _ = Course.looks _
    congr 1
    funext s₁
    show Course.puts _ (Course.looks _) = Course.puts _ (Course.looks _)
    congr 2
    funext s₂
    show ((Course.ofRoutine (call.run h.noting (start s₂.job, []))).bind _).bind _ =
      (Course.ofRoutine (call.run h (start s₂.job))).bind _
    rw [← SourceCall.run_noting h call (start s₂.job) [], Course.ofRoutine_bind, Course.bind_assoc,
      Course.bind_assoc]
    congr 1
    funext x
    show Course.looks _ = Course.looks _
    congr 1
    funext s₃
    show Course.puts _ (Course.waits _ _ _ _) = Course.puts _ (Course.waits _ _ _ _)
    congr 2
    funext w
    cases w with
    | timeUp => rfl
    | interrupted => rfl
    | ready => cases x.1 <;> rfl

/-- An entity was taken when it was stored; one that was not has left its reason. -/
theorem ends_item {may : Conduct} {a : α} {x y : Sink} {j k : JobHandle} {b : Bool} {d e : Disk}
    (h : (Sink.item c a x j).Ends may d (b, y, k) e) :
    y.stopped = x.stopped ∧ (x.failure.isSome = true → y.failure.isSome = true) ∧
      (j.interrupted = true → k.interrupted = true) ∧
      (b = false → x.stopped = true ∨ y.failure.isSome = true ∨ k.interrupted = true) ∧
      (b = true → ∃ m, (c.storeOne a).Ends may d (.ok ()) m) := by
  obtain ⟨⟨stored, x', j'⟩, m, hdeliver, hanswer⟩ := Routine.ends_bind.mp h
  obtain ⟨heq, rfl⟩ := Routine.ends_pure.mp hanswer
  cases heq
  have hdelivers := Sink.delivers_of_ends hdeliver
  generalize hfate : Sink.fate (x.isStopped j) stored = f at hdelivers
  have hstored : stored = true ↔ f = .stored := hfate ▸ Sink.fate_eq_stored.symm
  cases hdelivers with
  | stored hgoes hstore =>
    refine ⟨rfl, id, id, fun hb => ?_, fun _ => ⟨_, hstore⟩⟩
    -- Storing an entity gives no new reason to stop.
    have hsame : ∀ now, x.count.isStopped (j.recordProgress now) = x.isStopped j := fun _ => rfl
    rw [hstored.mpr rfl, hsame, hgoes] at hb
    cases hb
  | refused hstopped =>
    rw [Sink.isStopped, Bool.or_eq_true] at hstopped
    exact ⟨rfl, id, id, fun _ => hstopped.imp id .inr, fun hb => by simp [hstored] at hb⟩
  | failed =>
    exact ⟨rfl, fun _ => rfl, id, fun _ => .inr (.inl rfl), fun hb => by simp [hstored] at hb⟩

/-- The sink and the job of a population whose refused entities have left a reason that fails it. -/
structure HeedsRefusals (x : (Sink × JobHandle) × List (α × Bool)) : Prop where
  running : x.1.1.stopped = false
  refused : (∃ i ∈ x.2, i.2 = false) → x.1.1.failure.isSome = true ∨ x.1.2.interrupted = true

theorem heedsRefusals_run {may : Conduct} {call : SourceCall α ρ} {j : JobHandle} {r : CallEnd ρ}
    {x : (Sink × JobHandle) × List (α × Bool)} {d e : Disk}
    (h : (call.run (Receiver.ofSink c).noting ((Sink.new, j), [])).Ends may d (r, x) e) :
    HeedsRefusals x := by
  refine SourceCall.run_invariant HeedsRefusals ?_ ?_ ?_ ⟨rfl, fun hi => ?_⟩ h
  · rintro ⟨⟨x, j⟩, noted⟩ hx
    exact ⟨hx.running, fun _ => .inr rfl⟩
  · rintro n ⟨⟨x, j⟩, noted⟩ hx
    exact ⟨hx.running, hx.refused⟩
  · rintro a ⟨⟨x, j⟩, noted⟩ b y d e hx h
    obtain ⟨⟨b', y', k⟩, m, hitem, hnote⟩ := Routine.ends_bind.mp h
    obtain ⟨heq, -⟩ := Routine.ends_pure.mp hnote
    cases heq
    obtain ⟨hstopped, hfailure, hjob, hfalse, -⟩ := ends_item hitem
    refine ⟨hstopped.trans hx.running, ?_⟩
    rintro ⟨i, hi, hif⟩
    -- A reason to stop that an earlier item gave is still there after this one.
    rcases List.mem_append.mp hi with hi | hi
    · exact (hx.refused ⟨i, hi, hif⟩).imp hfailure hjob
    · obtain rfl := List.mem_singleton.mp hi
      rcases hfalse hif with hbad | hreason
      · rw [hx.running] at hbad
        cases hbad
      · exact hreason
  · obtain ⟨i, hi, -⟩ := hi
    cases hi

/-- What is noted besides leaves an update as it is. -/
theorem updateNoting_result (c : EntityCache α) (src : Source α) (limits : CallLimits) :
    Prod.fst <$> c.updateNoting src limits = (c.update src limits : Course σ _) := by
  -- Step by step the two courses are the same, up to the call and what is noted of it.
  show (c.updateNoting src limits).bind (fun x => .ends x.1) = _
  unfold updateNoting update
  split
  · show (Course.bind _ _).bind _ = Course.bind _ _
    rw [Course.bind_assoc]
    congr 1
    funext x
    cases x with
    | error e => rfl
    | ok u =>
      show (Course.bind _ _).bind _ = Course.bind _ _
      rw [Course.bind_assoc]
      congr 1
      funext _
      show (Course.bind _ _).bind _ = Course.bind _ _
      rw [Course.bind_assoc, ← awaited_noting (Receiver.ofSink c) (fun j => (Sink.new, j)) Prod.snd,
        Course.bind_assoc]
      congr 1
      funext r
      show Course.looks _ = Course.looks _
      congr 1
      funext s
      show Course.puts _ _ = Course.puts _ _
      congr 1
      cases r with
      | interrupted => rfl
      | failed e => rfl
      | returned r x =>
        obtain ⟨⟨sink, j⟩, noted⟩ := x
        dsimp only
        cases sink.failure <;> cases r
        · rfl
        · exact (Course.bind_assoc c.promoteStreamed _ _).trans (Course.bind_ends _)
        · rfl
        · rfl
  · rw [Course.bind_assoc]
    exact Course.bind_ends _

/-- The entities streamed for a job that was interrupted are not promoted. -/
theorem interrupted_of_promoteStreamed_ok {s t : Scene σ} {d e : Disk} {n : Nat}
    (h : (c.promoteStreamed).Ends W s d (.ok n) t e) : s.job.interrupted = false := by
  obtain ⟨b, s₁, d₁, hasked, h⟩ := Course.ends_seq.mp h
  obtain ⟨hs, rfl, -⟩ := Course.ends_isInterrupted.mp hasked
  cases hint : s.job.interrupted with
  | false => rfl
  | true =>
    rw [if_pos (W.interrupted hs hint)] at h
    cases (Course.ends_pure.mp h).1

/-- An update that ends well has refused no entity. -/
theorem all_taken_of_ok {limits : CallLimits} {s t : Scene σ} {d e : Disk} {n : Nat}
    {noted : List (α × Bool)}
    (h : (c.updateNoting src limits).Ends W s d (.ok n, noted) t e) : ∀ i ∈ noted, i.2 = true := by
  unfold updateNoting at h
  split at h
  · obtain ⟨x, s₁, d₁, -, h⟩ := Course.ends_seq.mp h
    cases x with
    | error y => cases (Course.ends_pure.mp h).1
    | ok u =>
      obtain ⟨_, s₂, d₂, -, h⟩ := Course.ends_seq.mp h
      obtain ⟨r, s₃, d₃, hcall, h⟩ := Course.ends_seq.mp h
      obtain ⟨_, s₄, d₄, hmark, h⟩ := Course.ends_seq.mp h
      cases r with
      | interrupted => cases (Course.ends_pure.mp h).1
      | failed y => cases (Course.ends_pure.mp h).1
      | returned r x =>
        -- The call has returned, so what its hearer noted is what it did.
        obtain ⟨j, m, m', hrun, hjob⟩ := SourceCall.ends_awaited hcall
        have hheeds := heedsRefusals_run hrun
        obtain ⟨⟨sink, k⟩, noted'⟩ := x
        obtain ⟨s₅, hs₅, rfl, -⟩ := Course.ends_modify.mp hmark
        cases hfailure : sink.failure with
        | some y =>
          simp only [hfailure] at h
          cases (Course.ends_pure.mp h).1
        | none =>
          simp only [hfailure] at h
          cases r with
          | error y => cases (Course.ends_pure.mp h).1
          | ok u =>
            obtain ⟨z, s₆, d₆, hpromote, h⟩ := Course.ends_seq.mp h
            obtain ⟨heq, -, -⟩ := Course.ends_pure.mp h
            cases heq
            intro i hi
            cases hif : i.2 with
            | true => rfl
            | false =>
              -- The refusal left its reason: there is no failure, so the job is interrupted.
              rcases hheeds.refused ⟨i, hi, hif⟩ with hbad | hint
              · rw [hfailure] at hbad
                cases hbad
              · have hrunning := interrupted_of_promoteStreamed_ok hpromote
                have hseen : s₅.job.interrupted = true := W.interrupted hs₅ (hjob hint)
                cases hseen.symm.trans hrunning
  · obtain ⟨x, s₁, d₁, -, h⟩ := Course.ends_bind.mp h
    cases (Course.ends_pure.mp h).1
    intro i hi
    cases hi

/-! ## The snapshot of a failed update -/

/-- Let the cache lie in any directory, whatever its files hold; let others do anything but change
its snapshot and make or remove directories, let operations fail for reasons of their own, except
for making the work file anew after a rename, and the source do anything but change the snapshot.
Then an update that fails leaves at the path of the snapshot what was there, with its time; and one
of whose entities any was refused does fail. -/
theorem update_error_keeps_snapshot [PlainKind α] {dir : Path} {policy : CachePolicy}
    {limits : CallLimits} (hc : c = inDirectory α dir policy)
    (hmay : W.disk.Within (Spares c.files.snapshot)) (hre : c.files.Recreates W.disk)
    (hsrc : src.Keeps (Spares c.files.snapshot)) :
    (∀ {s t : Scene σ} {d e : Disk} {y : RefreshError},
        (c.update src limits).Ends W s d (.error y) t e →
          e.view c.files.snapshot = d.view c.files.snapshot) ∧
      Prod.fst <$> c.updateNoting src limits = (c.update src limits : Course σ _) ∧
      ∀ {s t : Scene σ} {d e : Disk} {x : Except RefreshError Nat} {noted : List (α × Bool)},
        (c.updateNoting src limits).Ends W s d (x, noted) t e → (∃ i ∈ noted, i.2 = false) →
          (∃ y, x = .error y) ∧ e.view c.files.snapshot = d.view c.files.snapshot := by
  have hf : c.files.Siblings := hc ▸ siblings_inDirectory α dir policy
  refine ⟨fun h => (failureKeeps_update hf hmay hre hsrc limits h).view,
    updateNoting_result c src limits, ?_⟩
  rintro s t d e x noted h ⟨i, hi, hif⟩
  have herr : ∃ y, x = .error y := by
    cases x with
    | error y => exact ⟨y, rfl⟩
    | ok n =>
      have htaken := all_taken_of_ok h i hi
      rw [hif] at htaken
      cases htaken
  refine ⟨herr, ?_⟩
  obtain ⟨y, rfl⟩ := herr
  have hupdate : (c.update src limits).Ends W s d (.error y) t e := by
    rw [← updateNoting_result]
    exact h.bind (.ends _ _ _)
  exact (failureKeeps_update hf hmay hre hsrc limits hupdate).view

/-- A cache of units with other files around it, and a source that goes on when an empty key is
refused. -/
def unitsApart : EntityCache UnitMapping := inDirectory UnitMapping ⟨"/units"⟩ {}

def heedless : Source UnitMapping :=
  .ofScript true [.delivers [⟨"", "m"⟩, ⟨"depth", "m"⟩] true]

/-- The update fails when it is over, and the snapshot stays. -/
theorem update_error_keeps_snapshot_emptyKey :
    ∃ (s t : Scene Unit) (d e : Disk) (y : RefreshError) (noted : List (UnitMapping × Bool)),
      (unitsApart.updateNoting heedless ⟨⟨5⟩, ⟨5⟩⟩).Ends (.among (Spares unitsApart.files.snapshot)) s d
        (.error y, noted) t e ∧
      (⟨"", "m"⟩, false) ∈ noted ∧
      (unitsApart.update heedless ⟨⟨5⟩, ⟨5⟩⟩).Ends (.among (Spares unitsApart.files.snapshot)) s d
        (.error y) t e ∧
      e.view unitsApart.files.snapshot = d.view unitsApart.files.snapshot := by
  let W : Surroundings Unit := .among (Spares unitsApart.files.snapshot)
  have hmay : W.disk.Within (Spares unitsApart.files.snapshot) := Conduct.within_among _
  have hre : unitsApart.files.Recreates W.disk :=
    CacheFiles.recreates_among (siblings_inDirectory UnitMapping _ _)
  have hsrc : heedless.Keeps (Spares unitsApart.files.snapshot) := Source.keeps_ofScript _ _
  let s : Scene Unit := ⟨.new 1 ⟨0⟩, .new, ()⟩
  let d : Disk := ⟨[(["units"], .directory ⟨0⟩),
    (["units", "unit_mappings.cache"], .file "depth\t{}\n".toUTF8 ⟨1⟩)], [], ⟨5⟩⟩
  have hruns := Course.ends_of_endsAlone
    (W := W) (p := fun x : Except RefreshError Nat × List (UnitMapping × Bool) =>
      decide ((⟨"", "m"⟩, false) ∈ x.2))
    (c := unitsApart.updateNoting heedless ⟨⟨5⟩, ⟨5⟩⟩) (s := s) (d := d)
    (fun _ => rfl) (fun o d => ⟨d, .refl d, rfl⟩) (by decide +kernel)
  obtain ⟨⟨x, noted⟩, t, e, h, hnoted⟩ := hruns
  have hmem : (⟨"", "m"⟩, false) ∈ noted := of_decide_eq_true hnoted
  -- One refused entity makes it fail, and so it is an update that fails.
  obtain ⟨hkeeps, hresult, hrefused⟩ := update_error_keeps_snapshot (c := unitsApart) rfl hmay hre hsrc
  obtain ⟨⟨y, rfl⟩, -⟩ := hrefused h ⟨_, hmem, rfl⟩
  have hupdate : (unitsApart.update heedless ⟨⟨5⟩, ⟨5⟩⟩).Ends W s d (.error y) t e := by
    rw [← hresult]
    exact h.bind (.ends _ _ _)
  exact ⟨s, t, d, e, y, noted, h, hmem, hupdate, hkeeps hupdate⟩

end EntityCache

end SensorCache
