import SensorCache.Proofs.Refresh.Successions

/-!
# Producers that come too late

What a producer may store when its update has ended: the steps of `Goes` that lead from such a
producer to a snapshot with its entity (`Succession.leaks`), and with them how far populations of
one cache are kept apart (`populations_apart`).

A population that nobody interferes with goes as the update of the cache does by itself
(`Succession.goes_as_update`).
-/

namespace SensorCache

open Disk Relation Time

variable {α σ : Type} [Entity α] {c : EntityCache α} {first : List α}

namespace Succession

variable {s t : Succession α} {i : Nat} {p : Populating α}

/-! ## Steps that leave no producer behind -/

/-- A step after which no producer may store too late that could not before. -/
def GoesCalmly (c : EntityCache α) (s t : Succession α) : Prop := Goes c s t ∧ (s.Quiet → t.Quiet)

theorem reaches_of_calmly (h : ReflTransGen (GoesCalmly c) s t) : ReflTransGen (Goes c) s t :=
  ReflTransGen.mono (fun _ _ hstep => hstep.1) _ _ h

/-- From a quiet state such steps lead through quiet states only. -/
theorem reaches_quietly (h : ReflTransGen (GoesCalmly c) s t) (hs : s.Quiet) :
    ReflTransGen (fun s t => Goes c s t ∧ t.Quiet) s t := by
  suffices h : ReflTransGen (fun s t => Goes c s t ∧ t.Quiet) s t ∧ t.Quiet from h.1
  induction h with
  | refl => exact ⟨.refl, hs⟩
  | tail _ hstep ih => exact ⟨ih.1.tail ⟨hstep.1, hstep.2 ih.2⟩, hstep.2 ih.2⟩

/-- A producer that is told to stop does not find anything more to store. -/
theorem calmly_produces {q : Producer α} {x : Sink} {j : JobHandle} {e : Disk}
    (hp : s.populations[i]? = some p)
    (hrun : (p.producer.step c (p.sink, p.job)).run s.disk = ((q, x, j), e)) :
    GoesCalmly c s { (s.wrote i p).put i { p with producer := q, sink := x, job := j } with
      disk := e } := by
  refine ⟨.produces hp hrun, fun hquiet => forall_put hquiet fun hended => ?_⟩
  obtain ⟨hstopped, hnone⟩ := hquiet p (mem_of_get hp) hended
  have hbecomes : Becomes c p { p with producer := q, sink := x, job := j } _ := .goes hrun
  obtain ⟨hstopped', hprefix⟩ := hbecomes.stopped hstopped
  rw [hnone] at hprefix
  exact ⟨hstopped', (List.append_eq_nil_iff.mp (List.prefix_nil.mp hprefix)).2⟩

/-! ## Steps of one producer -/

/-- Whatever a producer does by itself may be what happens next. -/
theorem goes_alone {a z : Producer α × Sink × JobHandle} {d e : Disk} {ws : List α}
    (h : Producer.Alone c a d ws z e) (hd : s.disk = d) (hp : s.populations[i]? = some p)
    (ha : a = (p.producer, p.sink, p.job)) :
    ∃ t, ReflTransGen (GoesCalmly c) s t ∧ t.disk = e ∧ t.written = s.written ++ ws.map (i, ·) ∧
      t.emptied = s.emptied ∧ t.promoted = s.promoted ∧ ∀ k, t.populations[k]? =
        if k = i then some { p with producer := z.1, sink := z.2.1, job := z.2.2 }
        else s.populations[k]? := by
  induction h generalizing s p with
  | here x d =>
    subst ha
    refine ⟨s, .refl, hd, (List.append_nil _).symm, rfl, rfl, fun k => ?_⟩
    split
    · next hk => rw [hk, hp]
    · rfl
  | @step q x y z d m e ws hstep _ ih =>
    obtain ⟨q, x, j⟩ := y
    cases ha
    subst hd
    let p' : Populating α := { p with producer := q, sink := x, job := j }
    let s' : Succession α := { (s.wrote i p).put i p' with disk := m }
    have hs' := getElem?_put (s := s.wrote i p) (q := p') hp
    obtain ⟨t, hreach, hdisk, hwritten, hemptied, hpromoted, hpop⟩ :=
      ih (s := s') rfl ((hs' i).trans (if_pos rfl)) rfl
    refine ⟨t, .head (calmly_produces hp hstep) hreach, hdisk, ?_, hemptied, hpromoted, fun k => ?_⟩
    · rw [hwritten, List.map_append, ← List.append_assoc]
      rfl
    · refine (hpop k).trans ?_
      split
      · rfl
      · next hk => exact (hs' k).trans (if_neg hk)

/-- A population can always begin when all updates have ended. -/
theorem Sound.begins (h : Sound c first s) (hf : c.files.Siblings) :
    ∃ e, c.beginStreaming.run s.disk = (.ok (), e) := by
  obtain ⟨ds, hsaves, -⟩ := h.files
  obtain ⟨e, he, -⟩ := CacheFiles.run_clearWork hf hsaves
  exact ⟨e, he⟩

variable [KeyedEntity α]

/-- The update of a producer that came to a good end goes on to promote the work file. -/
theorem goes_promoting (h : Sound c first s) (hf : c.files.Siblings)
    (hp : s.populations[i]? = some p) (hstage : p.stage = .waits)
    (hfinished : p.producer = .finished (.returned (.ok ()))) (hfailure : p.sink.failure = none)
    (hrunning : p.sink.isStopped p.job = false) :
    ∃ t n, ReflTransGen (GoesCalmly c) s t ∧ c.promoteWorkFile.run s.disk = (.ok n, t.disk) ∧
      t.promoted = s.promoted ++ [(i, s.log)] ∧
      ∀ k, t.populations[k]? =
        if k = i then some { p with stage := .ended .heard } else s.populations[k]? := by
  obtain ⟨n, e, -, hrun, -⟩ := h.run_promoteWorkFile hf hp
  have hheard : p.hears (.returned (.ok ())) = { p with stage := .promotes } := by
    simp [Populating.hears, hfailure, hrunning]
  have hhears : GoesCalmly c s (s.put i { p with stage := .promotes }) :=
    ⟨hheard ▸ .turns hp (.hears hstage hfinished rfl), fun hquiet =>
      forall_put hquiet fun ⟨_, hx⟩ => nomatch hx⟩
  have hp' := (getElem?_put (q := { p with stage := .promotes }) hp i).trans (if_pos rfl)
  have hpromotes : GoesCalmly c (s.put i { p with stage := .promotes }) _ :=
    ⟨.promotes hp' rfl hrun, fun hquiet =>
      forall_put hquiet fun _ => ⟨.inr ⟨_, hfinished⟩, congrArg Producer.writes hfinished⟩⟩
  refine ⟨_, n, .tail (.single hhears) hpromotes, hrun, rfl, fun k => ?_⟩
  refine (getElem?_put (s := (s.put i _).promotedBy i) hp' k).trans ?_
  split
  · rfl
  · next hk => exact (getElem?_put hp k).trans (if_neg hk)

/-- What a producer is about to store when its update has ended may get into the snapshot of the
next population. -/
theorem leaks (h : Sound c first s) (hf : c.files.Siblings) (hidle : s.Idle)
    (hp : s.populations[i]? = some p) :
    ∃ t, ReflTransGen (Goes c) s t ∧
      t.promoted.getLast? = some (s.populations.length, p.producer.writes.map (i, ·)) := by
  obtain ⟨hi, -⟩ := List.getElem?_eq_some_iff.mp hp
  -- The next population begins,
  obtain ⟨d₁, hbegin⟩ := h.begins hf
  let new : Populating α := ⟨.calls (.returns (.ok ())), .new, .new 0 ⟨0⟩, .waits⟩
  let s₁ : Succession α := { s.begun (.returns (.ok ())) (.new 0 ⟨0⟩) with disk := d₁ }
  have h₁ : Goes c s s₁ := .begins _ hidle trivial hbegin
  have hp₁ : s₁.populations[i]? = some p := (List.getElem?_append_left hi).trans hp
  -- the producer that is too late stores what it was about to store,
  rcases hstep : (p.producer.step c (p.sink, p.job)).run d₁ with ⟨⟨q, x, j⟩, d₂⟩
  let s₂ : Succession α :=
    { (s₁.wrote i p).put i { p with producer := q, sink := x, job := j } with disk := d₂ }
  have h₂ : Goes c s₁ s₂ := .produces hp₁ hstep
  have hne : s.populations.length ≠ i := Nat.ne_of_gt hi
  have hnew : s₂.populations[s.populations.length]? = some new := by
    refine (getElem?_put (s := s₁.wrote i p) hp₁ _).trans ((if_neg hne).trans ?_)
    simp [s₁, begun, wrote, new]
  have hlog : s₂.log = p.producer.writes.map (i, ·) := by
    refine (log_wrote (s := s₁) (Nat.le_refl s.written.length)).trans ?_
    show s.written.drop s.written.length ++ _ = _
    rw [List.drop_length, List.nil_append]
  -- and the new one, whose producer has nothing to deliver, promotes it.
  have hfinished : Producer.Alone c (new.producer, new.sink, new.job) s₂.disk [] _ _ := .single rfl
  obtain ⟨s₃, h₃, -, hwritten, hemptied, -, hp₃⟩ := goes_alone hfinished rfl hnew rfl
  have hreach : ReflTransGen (Goes c) s s₃ :=
    (ReflTransGen.head h₁ (.single h₂)).trans (reaches_of_calmly h₃)
  obtain ⟨t, n, ht, -, hpromoted, -⟩ :=
    goes_promoting (h.reaches hf hreach) hf ((hp₃ _).trans (if_pos rfl)) rfl rfl rfl rfl
  have hlog₃ : s₃.log = s₂.log := by
    rw [log, log, hwritten, hemptied, List.map_nil, List.append_nil]
  refine ⟨t, hreach.trans (reaches_of_calmly ht), ?_⟩
  rw [hpromoted, List.getLast?_append, hlog₃, hlog]
  rfl

/-! ## An update that nobody interferes with -/

omit [KeyedEntity α] in
/-- Nothing in a call gives the population up. -/
theorem stopped_of_run {call : SourceCall α Unit} {x y : Sink × JobHandle} {r : CallEnd Unit}
    {d e : Disk} (h : (call.run (.ofSink c) x).run d = ((r, y), e)) (hx : x.1.stopped = false) :
    y.1.stopped = false := by
  have hends : (call.run (.ofSink c) x).Ends (.among (· = ·)) d _ _ :=
    Routine.ends_run (fun o d => ⟨d, rfl, rfl⟩) _ d
  rw [h] at hends
  exact SourceCall.run_invariant (fun x => x.1.stopped = false) (fun _ hx => hx) (fun _ _ hx => hx)
    (fun hx ha => (EntityCache.ends_item ha).1.trans hx) hx hends

omit [Entity α] [KeyedEntity α] in
/-- All have ended when the next one has. -/
theorem Idle.next (hs : s.Idle) {q : Populating α} (hq : q.HasEnded) (ht : ∀ k, t.populations[k]? =
    if k = s.populations.length then some q else s.populations[k]?) : t.Idle := by
  intro u hu
  obtain ⟨k, hk⟩ := List.mem_iff_getElem?.mp hu
  rw [ht] at hk
  split at hk
  · cases hk
    exact hq
  · exact hs u (mem_of_get hk)

omit [KeyedEntity α] in
/-- The next population begins, and its producer comes to its end by itself. -/
theorem goes_finishing (hidle : s.Idle) {call : SourceCall α Unit}
    (hcall : call.Keeps c.files.Untouched) {m n : Disk}
    (hbegin : c.beginStreaming.run s.disk = (.ok (), m)) {r : CallEnd Unit} {x : Sink}
    {j₀ j : JobHandle} (hrun : (call.run (.ofSink c) (.new, j₀)).run m = ((r, x, j), n)) :
    ∃ t, ReflTransGen (GoesCalmly c) s t ∧ t.disk = n ∧ t.promoted = s.promoted ∧
      ∀ k, t.populations[k]? =
        if k = s.populations.length then some ⟨.finished r, x, j, .waits⟩
        else s.populations[k]? := by
  let s₁ : Succession α := { s.begun call j₀ with disk := m }
  have h₁ : GoesCalmly c s s₁ := by
    refine ⟨.begins _ hidle hcall hbegin, fun hquiet q hq ⟨x, hx⟩ => ?_⟩
    rcases List.mem_append.mp hq with hq | hq
    · exact hquiet q hq ⟨x, hx⟩
    · rw [List.mem_singleton.mp hq] at hx
      cases hx
  have hpops₁ : s₁.populations = s.populations ++ [⟨.calls call, .new, j₀, .waits⟩] := rfl
  have hnew : s₁.populations[s.populations.length]? = some ⟨.calls call, .new, j₀, .waits⟩ := by
    simp [hpops₁]
  obtain ⟨ws, hws⟩ := Producer.alone_of_run hrun
  obtain ⟨t, ht, hdisk, -, -, hpromoted, hpops⟩ := goes_alone hws rfl hnew rfl
  refine ⟨t, .head h₁ ht, hdisk, hpromoted, fun k => (hpops k).trans ?_⟩
  split
  · rfl
  · next hk =>
    -- Nothing else has come to the list of populations.
    rw [hpops₁, List.getElem?_append]
    split
    · rfl
    · next hlt =>
      rw [List.getElem?_eq_none (by simp; omega), List.getElem?_eq_none (by omega)]

omit [KeyedEntity α] in
/-- An update that does not promote ends when it has heard what its producer came to. -/
theorem calmly_hears {r : Except SourceError Unit} (hp : s.populations[i]? = some p)
    (hstage : p.stage = .waits) (hfinished : p.producer = .finished (.returned r))
    (hheard : p.hears (.returned r) = { p with stage := .ended .heard }) :
    GoesCalmly c s (s.put i { p with stage := .ended .heard }) :=
  ⟨hheard ▸ .turns hp (.hears hstage hfinished rfl), fun hquiet =>
    forall_put hquiet fun _ => ⟨.inr ⟨_, hfinished⟩, congrArg Producer.writes hfinished⟩⟩

/-- The next update goes as by itself when nothing else happens: it begins, its producer comes to
its end, and it is heard and, if all is well, promotes. No producer is left behind by it. -/
theorem goes_as_update (h : Sound c first s) (hf : c.files.Siblings) (hidle : s.Idle)
    {src : Source α} (hsrc : src.stream.Keeps c.files.Untouched) {scene : Scene σ}
    (hscene : scene.Free) {m n : Disk} (hbegin : c.beginStreaming.run s.disk = (.ok (), m))
    {r : Except SourceError Unit} {x : Sink} {j : JobHandle}
    (hrun : (src.stream.run (.ofSink c) (.new, scene.job.beginWaiting m.clock)).run m =
      ((.returned r, x, j), n)) (hj : j.interrupted = false) (limit : Span) :
    ∃ t z l, ReflTransGen (GoesCalmly c) s t ∧ t.Idle ∧
      (∃ q, t.populations[s.populations.length]? = some q ∧ q.stage = .ended .heard) ∧
      (c.updateStreaming src limit).Prompt scene s.disk z t.disk ∧
      t.promoted = s.promoted ++ l ∧ ((∃ n, z = .ok n) ↔ l ≠ []) := by
  obtain ⟨s₂, h₂, rfl, hpromoted, hpops⟩ := goes_finishing hidle hsrc hbegin hrun
  have hp : s₂.populations[s.populations.length]? =
      some ⟨.finished (.returned r), x, j, .waits⟩ := (hpops _).trans (if_pos rfl)
  have hall : ∀ {t : Succession α} {q : Populating α}, q.HasEnded → (∀ k, t.populations[k]? =
      if k = s.populations.length then some q else s₂.populations[k]?) → t.Idle :=
    fun hq ht => hidle.next hq fun k => (ht k).trans <| by
      split
      · rfl
      · next hk => exact (hpops k).trans (if_neg hk)
  -- An update that does not promote ends with what it has heard.
  have hends : ∀ {z : RefreshError},
      ((⟨.finished (.returned r), x, j, .waits⟩ : Populating α).hears (.returned r)) =
        ⟨.finished (.returned r), x, j, .ended .heard⟩ →
      (∀ s : Scene σ, s.Free →
        (EntityCache.settleStreamed .ascending c x r).Prompt s s₂.disk (.error z) s₂.disk) →
      ∃ t z l, ReflTransGen (GoesCalmly c) s t ∧ t.Idle ∧
        (∃ q, t.populations[s.populations.length]? = some q ∧ q.stage = .ended .heard) ∧
        (c.updateStreaming src limit).Prompt scene s.disk z t.disk ∧
        t.promoted = s.promoted ++ l ∧ ((∃ n, z = .ok n) ↔ l ≠ []) := by
    intro z hheard hsettle
    refine ⟨_, .error z, [], h₂.tail (calmly_hears hp rfl rfl hheard),
      hall ⟨_, rfl⟩ (getElem?_put hp), ⟨_, (getElem?_put hp _).trans (if_pos rfl), rfl⟩,
      EntityCache.prompt_updateStreamingIn (o := .ascending) hscene hbegin hrun hj limit hsettle, ?_,
      by simp⟩
    rw [List.append_nil]
    exact hpromoted
  cases hfailure : x.failure with
  | some y =>
    refine hends (z := .cache y) (by simp [Populating.hears, hfailure]) fun s hs => ?_
    unfold EntityCache.settleStreamed
    rw [hfailure]
    exact Course.prompt_pure hs _ _
  | none =>
    cases r with
    | error y =>
      refine hends (z := .ofSource y) (by simp [Populating.hears, hfailure]) fun s hs => ?_
      unfold EntityCache.settleStreamed
      rw [hfailure]
      exact Course.prompt_pure hs _ _
    | ok u =>
      have hrunning : x.isStopped j = false :=
        Sink.isStopped_eq_false (stopped_of_run hrun rfl) hj
      obtain ⟨t, k, ht, hpromote, hlist, hpop⟩ :=
        goes_promoting (h.reaches hf (reaches_of_calmly h₂)) hf hp rfl rfl hfailure hrunning
      refine ⟨t, .ok k, [(s.populations.length, s₂.log)], h₂.trans ht, hall ⟨_, rfl⟩ hpop,
        ⟨_, (hpop _).trans (if_pos rfl), rfl⟩,
        EntityCache.prompt_updateStreamingIn (o := .ascending) hscene hbegin hrun hj limit
          fun s hs => ?_, ?_, by simp⟩
      · unfold EntityCache.settleStreamed
        rw [hfailure]
        exact EntityCache.prompt_promoteStreamedIn (o := .ascending) hs hpromote
      · rw [hlist, hpromoted]

/-! ## How far populations are kept apart -/

/-- Let a cache have any snapshot. Then at every point of the populations that follow one another,
whatever order their steps come in, the work file is the log of what was written since it was
emptied, and the snapshot of a cache that does not keep what was there before is the log that was
promoted last. When an update has ended, and was not dropped without its job having been
interrupted, its producer writes at most the one entity that it was about to store just then, and
none when the update has heard from it; that one may be promoted by the next population. A producer
whose update was dropped goes on as if it were waited for. As long as no producer can write when its
update has ended, whatever is promoted was written by the population that promotes it. -/
theorem populations_apart [PlainKind α] (dir : Path) (policy : CachePolicy) {d : Disk}
    (hsaves : (EntityCache.inDirectory α dir policy).files.Saves d first)
    (hfirst : ∀ a ∈ first, Record.Accepted a) :
    (∀ s, ReflTransGen (Goes (.inDirectory α dir policy)) (start d) s →
      Sound (.inDirectory α dir policy) first s ∧
      ∀ i p, s.populations[i]? = some p →
        (∀ x, p.stage = .ended x → x ≠ .dropped ∨ p.job.interrupted = true →
          ∀ t, ReflTransGen (Goes (.inDirectory α dir policy)) s t →
            ∃ late, t.written = s.written ++ late ∧ partOf i late <+: p.producer.writes) ∧
        (p.stage = .ended .heard → p.producer.writes = []) ∧
        (s.Idle → ∃ t, ReflTransGen (Goes (.inDirectory α dir policy)) s t ∧
          t.promoted.getLast? = some (s.populations.length, p.producer.writes.map (i, ·))) ∧
        ∀ ws z e, Producer.Alone (.inDirectory α dir policy) (p.producer, p.sink, p.job) s.disk
            ws z e →
          ∃ t, ReflTransGen (Goes (.inDirectory α dir policy)) s t ∧
            t.written = s.written ++ ws.map (i, ·)) ∧
    ∀ s, ReflTransGen (fun s t => Goes (.inDirectory α dir policy) s t ∧ t.Quiet) (start d) s →
      s.Own := by
  have hf := EntityCache.siblings_inDirectory α dir policy
  have hstart : Sound (.inDirectory α dir policy) first (start d) := sound_start hsaves hfirst
  refine ⟨fun s hs => ⟨hstart.reaches hf hs, fun i p hp => ⟨?_, ?_, ?_, ?_⟩⟩, fun s hs => ?_⟩
  · intro x hx hnot t ht
    have hstopped : p.Stopped := by
      rcases ((orderly_start d).reaches hs).stopped p (mem_of_get hp) with hw | hd | hstopped
      · cases hx.symm.trans hw
      · rcases hnot with hne | hjob
        · exact absurd (UpdateStage.ended.inj (hx.symm.trans hd)) hne
        · exact .inl (by rw [Sink.isStopped, hjob, Bool.or_true])
      · exact hstopped
    obtain ⟨q, late, -, -, hlate, hprefix⟩ := late_of_stopped ht hp hstopped
    exact ⟨late, hlate, (List.prefix_append _ _).trans hprefix⟩
  · intro hheard
    obtain ⟨r, hr⟩ := ((orderly_start d).reaches hs).heard p (mem_of_get hp) (.inr hheard)
    rw [hr]
    rfl
  · intro hidle
    exact leaks (hstart.reaches hf hs) hf hidle hp
  · intro ws z e halone
    obtain ⟨t, ht, -, hwritten, -⟩ := goes_alone halone rfl hp rfl
    exact ⟨t, reaches_of_calmly ht, hwritten⟩
  · -- Each step keeps the ownership, for it is made from a quiet state.
    have hmono : ∀ {s}, ReflTransGen (fun s t => Goes (.inDirectory α dir policy) s t ∧ t.Quiet)
        (start d) s → ReflTransGen (Goes (.inDirectory α dir policy)) (start d) s :=
      ReflTransGen.mono (fun _ _ hstep => hstep.1) _ _
    suffices h : s.Own ∧ s.Quiet from h.1
    induction hs with
    | refl =>
      exact ⟨⟨List.forall_mem_nil _, List.forall_mem_nil _⟩, List.forall_mem_nil _⟩
    | tail hs hstep ih =>
      exact ⟨ih.1.goes (hstart.reaches hf (hmono hs)) ((orderly_start d).reaches (hmono hs)) ih.2
        hstep.1, hstep.2⟩

/-- A source that delivers one unit. -/
def deliversDepth : Source UnitMapping :=
  ⟨true, .hangs, SourceCall.deliverEach [⟨"depth", "m"⟩]⟩

/-- In a new cache of units an update streams one and promotes it, and then its producer has come to
its end, and what was promoted is its own, as it is as long as all is quiet. -/
theorem populations_apart_units :
    ∃ (d : Disk) (s : Succession UnitMapping) (p : Populating UnitMapping) (n : Nat),
      (EntityCache.openIn UnitMapping ⟨""⟩ {}).run (.empty ⟨5⟩) =
        (.ok (.inDirectory UnitMapping ⟨""⟩ {}), d) ∧
      ReflTransGen (Goes (.inDirectory UnitMapping ⟨""⟩ {})) (start d) s ∧
      ((EntityCache.inDirectory UnitMapping ⟨""⟩ {}).updateStreaming deliversDepth ⟨5⟩).Prompt
        (⟨.new 0 ⟨0⟩, .new, ()⟩ : Scene Unit) d (.ok n) s.disk ∧
      s.promoted ≠ [] ∧ s.populations[0]? = some p ∧ p.stage = .ended .heard ∧
      Sound (.inDirectory UnitMapping ⟨""⟩ {}) [] s ∧ p.producer.writes = [] ∧ s.Own ∧
      ∀ t, ReflTransGen (fun s t => Goes (.inDirectory UnitMapping ⟨""⟩ {}) s t ∧ t.Quiet)
        (start d) t → t.Own := by
  have hf := EntityCache.siblings_inDirectory UnitMapping ⟨""⟩ {}
  obtain ⟨d, hopen, hholds⟩ := EntityCache.run_openIn_empty (α := UnitMapping) {} ⟨5⟩
  have hscene : (⟨.new 0 ⟨0⟩, .new, ()⟩ : Scene Unit).Free := ⟨rfl, rfl⟩
  have haccepted : ∀ a ∈ [(⟨"depth", "m"⟩ : UnitMapping)], Record.Accepted a := by decide
  obtain ⟨m, hbegin, hm⟩ := CacheFiles.run_clearWork hf hholds.saves
  obtain ⟨n, hn, hdeliver⟩ := SourceCall.run_deliverEach hf hm haccepted
  obtain ⟨x, j, hx, hj, hrun⟩ := hdeliver (s := .new) (j := .beginWaiting (.new 0 ⟨0⟩) m.clock)
    ⟨rfl, rfl⟩ rfl
  have hkeeps : deliversDepth.stream.Keeps
      (EntityCache.inDirectory UnitMapping ⟨""⟩ {}).files.Untouched := SourceCall.keeps_deliverEach _
  replace hrun : (deliversDepth.stream.run (.ofSink (.inDirectory UnitMapping ⟨""⟩ {}))
      (Sink.new, (JobHandle.new 0 ⟨0⟩).beginWaiting m.clock)).run m =
        ((.returned (.ok ()), x, j), n) := hrun
  obtain ⟨s, z, l, hcalm, -, ⟨p, hp, hheard⟩, hprompt, hpromoted, hok⟩ :=
    goes_as_update (sound_start hholds.saves (List.forall_mem_nil _)) hf (List.forall_mem_nil _)
      hkeeps hscene hbegin hrun hj ⟨5⟩
  -- Promoting does not fail, whatever order it writes in.
  obtain ⟨e, hpromote, -⟩ := EntityCache.holds_promoteWorkFileIn (o := .ascending) hf hn
    (List.forall_mem_nil _) haccepted
  have hsettle : ∀ t : Scene Unit, t.Free →
      (EntityCache.settleStreamed .ascending _ x (.ok ())).Prompt t n _ e := fun t ht => by
    unfold EntityCache.settleStreamed
    rw [hx.unfailed]
    exact EntityCache.prompt_promoteStreamedIn ht hpromote
  have hprompt' := EntityCache.prompt_updateStreamingIn hscene hbegin hrun hj ⟨5⟩ hsettle
  obtain ⟨rfl, -⟩ := hprompt.unique hprompt'
  have hreach := reaches_of_calmly hcalm
  obtain ⟨hall, hown⟩ := populations_apart ⟨""⟩ {} hholds.saves (List.forall_mem_nil _)
  obtain ⟨hsound, hlate⟩ := hall s hreach
  refine ⟨d, s, p, _, hopen, hreach, hprompt, ?_, hp, hheard, hsound, (hlate 0 p hp).2.1 hheard,
    hown s (reaches_quietly hcalm (List.forall_mem_nil _)), hown⟩
  rw [hpromoted]
  exact hok.mp ⟨_, rfl⟩

/-- The update is dropped when its producer has delivered `a`. The producer goes on, stores `b` when
the next update has begun, and that one, whose producer delivers nothing, promotes it. -/
theorem dropped_population_leaks :
    ∃ (d : Disk) (s t : Succession UnitMapping) (p : Populating UnitMapping) (b : UnitMapping)
      (k : Nat),
      (EntityCache.openIn UnitMapping ⟨""⟩ {}).run (.empty ⟨5⟩) =
        (.ok (.inDirectory UnitMapping ⟨""⟩ {}), d) ∧
      ReflTransGen (Goes (.inDirectory UnitMapping ⟨""⟩ {})) (start d) s ∧
      s.populations[0]? = some p ∧ p.stage = .ended .dropped ∧ (0, b) ∉ s.written ∧
      ReflTransGen (Goes (.inDirectory UnitMapping ⟨""⟩ {})) s t ∧
      t.promoted.getLast? = some (k, [(0, b)]) ∧ k ≠ 0 ∧
      ((EntityCache.inDirectory UnitMapping ⟨""⟩ {}).get .new).run t.disk =
        ((.ok (EntityCache.batchOf [b]), .new), t.disk) := by
  let a : UnitMapping := ⟨"depth", "m"⟩
  let b : UnitMapping := ⟨"late", "m"⟩
  have hf := EntityCache.siblings_inDirectory UnitMapping ⟨""⟩ {}
  obtain ⟨d, hopen, hholds⟩ := EntityCache.run_openIn_empty (α := UnitMapping) {} ⟨5⟩
  have hsound : Sound (.inDirectory UnitMapping ⟨""⟩ {}) [] (start d) :=
    sound_start hholds.saves (List.forall_mem_nil _)
  obtain ⟨m, hbegin, hm⟩ := CacheFiles.run_clearWork hf hholds.saves
  let s₁ : Succession UnitMapping :=
    { (start d).begun (SourceCall.deliverEach [a, b]) (.new 0 ⟨0⟩) with disk := m }
  have h₁ : Goes (.inDirectory UnitMapping ⟨""⟩ {}) (start d) s₁ :=
    .begins _ (List.forall_mem_nil _) (SourceCall.keeps_deliverEach _) hbegin
  obtain ⟨n, -, hitem⟩ := Sink.run_item hf hm (a := a) (by decide)
  obtain ⟨k, hk, hrun⟩ := hitem (s := .new) (j := .new 0 ⟨0⟩) ⟨rfl, rfl⟩ rfl
  obtain ⟨ws, hws, halone⟩ : ∃ ws, ws ⊆ [a] ∧ Producer.Alone (.inDirectory UnitMapping ⟨""⟩ {})
      (.calls (SourceCall.deliverEach [a, b]), .new, .new 0 ⟨0⟩) m ws
      (.calls (SourceCall.deliverEach [b]), Sink.new.count, k) n := Producer.alone_of_item hrun
  obtain ⟨s₂, h₂, -, hwritten, -, -, hpops₂⟩ := goes_alone (i := 0) halone (s := s₁) rfl rfl rfl
  replace h₂ := reaches_of_calmly h₂
  let p : Populating UnitMapping :=
    ⟨.calls (SourceCall.deliverEach [b]), Sink.new.count, k, .ended .dropped⟩
  have hp₂ := (hpops₂ 0).trans (if_pos rfl)
  have h₃ : Goes (.inDirectory UnitMapping ⟨""⟩ {}) s₂ (s₂.put 0 p) := .turns hp₂ (.drops rfl)
  have hp₃ : (s₂.put 0 p).populations[0]? = some p := (getElem?_put hp₂ 0).trans (if_pos rfl)
  -- The token of the sink is not stopped, so the producer is told to go on.
  have hasked : Producer.Alone (.inDirectory UnitMapping ⟨""⟩ {}) (p.producer, p.sink, p.job)
      (s₂.put 0 p).disk [] (.stores b _, p.sink, p.job) (s₂.put 0 p).disk :=
    .single ((Producer.run_step_delivers b _ _ _).trans (by
      rw [if_neg (by rw [Sink.isStopped_eq_false rfl hk]; decide)]))
  obtain ⟨s₄, h₄, -, -, -, -, hpops₄⟩ := goes_alone (i := 0) hasked rfl hp₃ rfl
  replace h₄ := reaches_of_calmly h₄
  have hreach : ReflTransGen (Goes (.inDirectory UnitMapping ⟨""⟩ {})) (start d) (s₂.put 0 p) :=
    (ReflTransGen.head h₁ h₂).tail h₃
  have hidle : s₄.Idle := by
    have hended : p.HasEnded := ⟨.dropped, rfl⟩
    intro q hq
    obtain ⟨i, hi⟩ := List.mem_iff_getElem?.mp hq
    rw [hpops₄] at hi
    split at hi
    · cases hi
      exact hended
    · next hne =>
      rw [getElem?_put hp₂, if_neg hne, hpops₂, if_neg hne] at hi
      obtain _ | i := i
      · exact absurd rfl hne
      · cases hi
  obtain ⟨t, ht, hpromoted⟩ := leaks (hsound.reaches hf (hreach.trans h₄)) hf hidle
    ((hpops₄ 0).trans (if_pos rfl))
  have hb : Record.keyAllowed (Entity.key b) = true := by decide
  simp only [Producer.writes, hb, if_true, List.map_cons, List.map_nil] at hpromoted
  refine ⟨d, s₂.put 0 p, t, p, b, s₄.populations.length, hopen, hreach, hp₃, rfl, ?_, h₄.trans ht,
    hpromoted, ?_, ?_⟩
  · intro hmem
    replace hmem : (0, b) ∈ s₂.written := hmem
    rw [hwritten] at hmem
    obtain ⟨x, hx, heq⟩ :=
      List.mem_map.mp ((List.mem_append.mp hmem).resolve_left List.not_mem_nil)
    rw [List.mem_singleton.mp (hws hx)] at heq
    exact absurd heq (by decide)
  · have h0 := (List.getElem?_eq_some_iff.mp ((hpops₄ 0).trans (if_pos rfl))).1
    omega
  · obtain ⟨ds, hsaves, -, -, hdurable⟩ := (hsound.reaches hf (hreach.trans (h₄.trans ht))).files
    obtain rfl : ds = [b] := by
      rw [hdurable rfl, durable, hpromoted]
      rfl
    have hread : Record.reread [b] = EntityCache.batchOf [b] :=
      Record.readable_of_readsBack hb trivial
    rw [EntityCache.run_get_durable hf hsaves (by simp), hread]

end Succession

end SensorCache
