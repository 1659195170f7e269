import Mathlib.Logic.Relation
import SensorCache.Proofs.Refresh.TwoWays
import SensorCache.Proofs.Source.Producers

/-!
# Populations one after another

Updates of one cache from sources that stream follow one another: one begins when all before it have
ended. Its producer need not have ended then. `Goes` says what may happen next, in any order: a step
of any producer, the end of the update that is waiting in each of the ways it can end, a promotion,
the beginning of the next.

What a producer may still do when its update has ended is in `late_of_stopped` and
`Succession.Quiet`: a population that was stopped gets at most the one entity into the work file
that its producer was about to store.
-/

namespace SensorCache

open Disk Relation

variable {α : Type}

/-! ## States -/

/-- How an update that waited for a producer has ended. -/
inductive UpdateEnding where
  /-- The producer came to its end, and was heard. -/
  | heard
  /-- The time was up or the job interrupted, and the population was stopped. -/
  | givenUp
  /-- Nobody goes on with the update. -/
  | dropped
  deriving DecidableEq

/-- How far an update has come. -/
inductive UpdateStage where
  | waits
  /-- It has heard that all is well, and is about to promote. -/
  | promotes
  | ended (e : UpdateEnding)
  deriving DecidableEq

/-- A streamed population with its update. -/
structure Populating (α : Type) where
  producer : Producer α
  sink : Sink
  job : JobHandle
  stage : UpdateStage

/-- The populations of a cache in the order of their beginnings, and their traces: every entity that
was added to the work file and every log that was promoted, with the number of the population that
did it. -/
structure Succession (α : Type) where
  disk : Disk
  populations : List (Populating α)
  written : List (Nat × α)
  /-- How many entities had been written when the work file was emptied last. -/
  emptied : Nat
  promoted : List (Nat × List (Nat × α))

namespace Populating

def HasEnded (p : Populating α) : Prop := ∃ e, p.stage = .ended e

/-- The producer is told to stop, or needs not be told. -/
def Stopped (p : Populating α) : Prop :=
  p.sink.isStopped p.job = true ∨ ∃ r, p.producer = .finished r

/-- What comes of the update when the producer has ended with `r`. -/
def hears (p : Populating α) (r : CallEnd Unit) : Populating α :=
  match p.sink.failure, r with
  | none, .returned (.ok _) =>
    { p with stage := if p.sink.isStopped p.job then .ended .heard else .promotes }
  | _, _ => { p with stage := .ended .heard }

/-- What may happen to a population besides the steps of its producer. -/
inductive Turns : Populating α → Populating α → Prop where
  /-- The monitor or a shutdown interrupts the job. -/
  | interrupted (p : Populating α) : Turns p { p with job := p.job.interrupt }
  | givesUp {p : Populating α} : p.stage = .waits →
    Turns p { p with sink := p.sink.stop, stage := .ended .givenUp }
  | drops {p : Populating α} : p.stage = .waits → Turns p { p with stage := .ended .dropped }
  | hears {p : Populating α} {r : CallEnd Unit} : p.stage = .waits → p.producer = .finished r →
    r.isOver = true → Turns p (p.hears r)

variable {p q : Populating α}

theorem Turns.producer (h : p.Turns q) : q.producer = p.producer := by
  cases h with
  | hears =>
    unfold Populating.hears
    split <;> rfl
  | _ => rfl

theorem Turns.stopped (h : p.Turns q) (hp : p.Stopped) : q.Stopped := by
  cases h with
  | interrupted => exact .inl (Bool.or_true _)
  | givesUp => exact .inl (Bool.true_or _)
  | drops => exact hp
  | hears =>
    unfold Populating.hears
    split <;> exact hp

theorem Turns.hasEnded (h : p.Turns q) (hp : p.HasEnded) : q.HasEnded := by
  obtain ⟨x, hx⟩ := hp
  cases h with
  | interrupted => exact ⟨x, hx⟩
  | givesUp hw | drops hw | hears hw =>
    rw [hx] at hw
    cases hw

end Populating

namespace Succession

/-- Before the first population. -/
def start (d : Disk) : Succession α := ⟨d, [], [], 0, []⟩

/-- What is in the work file, and from which populations. -/
def log (s : Succession α) : List (Nat × α) := s.written.drop s.emptied

/-- The snapshot of a cache that does not keep what was there before. -/
def durable (first : List α) (s : Succession α) : List α :=
  s.promoted.getLast?.elim first fun p => p.2.map Prod.snd

/-- All updates have ended. -/
def Idle (s : Succession α) : Prop := ∀ p ∈ s.populations, p.HasEnded

def put (s : Succession α) (i : Nat) (p : Populating α) : Succession α :=
  { s with populations := s.populations.set i p }

/-- With a new population, whose job is `j`. -/
def begun (s : Succession α) (call : SourceCall α Unit) (j : JobHandle) : Succession α :=
  { s with
    populations := s.populations ++ [⟨.calls call, .new, j, .waits⟩]
    emptied := s.written.length }

/-- With the log promoted by the population under the number `i`. -/
def promotedBy (s : Succession α) (i : Nat) : Succession α :=
  { s with emptied := s.written.length, promoted := s.promoted ++ [(i, s.log)] }

variable [Entity α]

/-- With what the population `p` under the number `i` writes next. -/
def wrote (s : Succession α) (i : Nat) (p : Populating α) : Succession α :=
  { s with written := s.written ++ p.producer.writes.map (i, ·) }

/-! ## Steps -/

/-- What may happen next. Each use of the files by a population, from emptying the work file to a
promotion, is one step. -/
inductive Goes (c : EntityCache α) : Succession α → Succession α → Prop where
  | begins {s : Succession α} {call : SourceCall α Unit} {e : Disk} (j : JobHandle) :
    s.Idle → call.Keeps c.files.Untouched → c.beginStreaming.run s.disk = (.ok (), e) →
      Goes c s { s.begun call j with disk := e }
  /-- An update may also end before it has a population. -/
  | beginsNot {s : Succession α} {x : CacheError} {e : Disk} :
    s.Idle → c.beginStreaming.run s.disk = (.error x, e) → Goes c s { s with disk := e }
  | produces {s : Succession α} {i : Nat} {p : Populating α} {q : Producer α} {x : Sink}
    {j : JobHandle} {e : Disk} :
    s.populations[i]? = some p → (p.producer.step c (p.sink, p.job)).run s.disk = ((q, x, j), e) →
      Goes c s { (s.wrote i p).put i { p with producer := q, sink := x, job := j } with disk := e }
  | turns {s : Succession α} {i : Nat} {p q : Populating α} :
    s.populations[i]? = some p → p.Turns q → Goes c s (s.put i q)
  | promotes {s : Succession α} {i : Nat} {p : Populating α} {n : Nat} {e : Disk} :
    s.populations[i]? = some p → p.stage = .promotes →
    c.promoteWorkFile.run s.disk = (.ok n, e) →
      Goes c s { (s.promotedBy i).put i { p with stage := .ended .heard } with disk := e }
  | promotesNot {s : Succession α} {i : Nat} {p : Populating α} {x : CacheError} {e : Disk} :
    s.populations[i]? = some p → p.stage = .promotes →
    c.promoteWorkFile.run s.disk = (.error x, e) →
      Goes c s { s.put i { p with stage := .ended .heard } with disk := e }
  /-- Whatever happens to other files. -/
  | meanwhile {s : Succession α} {e : Disk} : c.files.Untouched s.disk e →
      Goes c s { s with disk := e }

/-! ## Populations that were stopped -/

/-- What the population under the number `i` wrote. -/
def partOf (i : Nat) (l : List (Nat × α)) : List α := (l.filter fun x => x.1 = i).map Prod.snd

variable {c : EntityCache α} {s t u : Succession α} {i k : Nat} {p q : Populating α}

omit [Entity α] in
theorem getElem?_put (h : s.populations[i]? = some p) (k : Nat) :
    (s.put i q).populations[k]? = if k = i then some q else s.populations[k]? := by
  obtain ⟨hi, -⟩ := List.getElem?_eq_some_iff.mp h
  by_cases hk : k = i
  · subst hk
    simp [put, hi]
  · simp [put, hk, List.getElem?_set_ne (Ne.symm hk)]

omit [Entity α] in
theorem partOf_append (i : Nat) (a b : List (Nat × α)) :
    partOf i (a ++ b) = partOf i a ++ partOf i b := by
  simp [partOf]

omit [Entity α] in
theorem partOf_numbered (i k : Nat) (as : List α) :
    partOf i (as.map (k, ·)) = if k = i then as else [] := by
  by_cases h : k = i <;> simp [partOf, List.filter_map, h, Function.comp_def]

/-- What may become of a population in one step, and what its producer writes in it. -/
inductive Becomes (c : EntityCache α) (p q : Populating α) : List α → Prop where
  | rests : q.producer = p.producer → (p.Stopped → q.Stopped) → Becomes c p q []
  | goes {d e : Disk} : (p.producer.step c (p.sink, p.job)).run d =
      ((q.producer, q.sink, q.job), e) → Becomes c p q p.producer.writes

theorem Becomes.refl (c : EntityCache α) (p : Populating α) : Becomes c p p [] := .rests rfl id

theorem Goes.population (h : Goes c s t) (hp : s.populations[i]? = some p) :
    ∃ q new, t.populations[i]? = some q ∧ t.written = s.written ++ new ∧
      Becomes c p q (partOf i new) := by
  -- Where another population is put, or none, this one stays as it is.
  have hput : ∀ {k : Nat} {q r : Populating α}, s.populations[k]? = some q →
      (p = q → Becomes c p r []) → ∃ q', (s.put k r).populations[i]? = some q' ∧
        Becomes c p q' [] := by
    intro k q r hk hr
    rw [getElem?_put hk]
    split
    · next hik =>
      subst hik
      exact ⟨r, rfl, hr (Option.some.inj (hp.symm.trans hk))⟩
    · exact ⟨p, hp, .refl c p⟩
  cases h with
  | begins j _ _ _ =>
    refine ⟨p, [], ?_, (List.append_nil _).symm, .refl c p⟩
    rw [begun, List.getElem?_append_left (List.getElem?_eq_some_iff.mp hp).1]
    exact hp
  | beginsNot | meanwhile => exact ⟨p, [], hp, (List.append_nil _).symm, .refl c p⟩
  | @produces k q q' x j e hk hrun =>
    by_cases hik : k = i
    · subst hik
      obtain rfl : p = q := Option.some.inj (hp.symm.trans hk)
      refine ⟨{ p with producer := q', sink := x, job := j }, _, ?_, rfl, ?_⟩
      · exact (getElem?_put (s := s.wrote k p) hk k).trans (if_pos rfl)
      · rw [partOf_numbered, if_pos rfl]
        exact .goes hrun
    · refine ⟨p, _, ?_, rfl, ?_⟩
      · exact ((getElem?_put (s := s.wrote k q) hk i).trans (if_neg (Ne.symm hik))).trans hp
      · rw [partOf_numbered, if_neg hik]
        exact .refl c p
  | turns hk hturn =>
    obtain ⟨q', hq', hb⟩ := hput hk fun hpq => .rests (hpq ▸ hturn.producer) (hpq ▸ hturn.stopped)
    exact ⟨q', [], hq', (List.append_nil _).symm, hb⟩
  | @promotes k q _ _ hk _ _ | @promotesNot k q _ _ hk _ _ =>
    obtain ⟨q', hq', hb⟩ := hput (r := { q with stage := .ended .heard }) hk fun hpq => by
      subst hpq
      exact .rests rfl id
    exact ⟨q', [], hq', (List.append_nil _).symm, hb⟩

/-- The producer of a population that was stopped stores at most what it was about to store. -/
theorem Becomes.stopped {ws : List α} (h : Becomes c p q ws) (hp : p.Stopped) :
    q.Stopped ∧ ws ++ q.producer.writes <+: p.producer.writes := by
  cases h with
  | rests hproducer hstopped =>
    rw [hproducer]
    exact ⟨hstopped hp, List.prefix_rfl⟩
  | goes hrun =>
    rcases hp with hp | ⟨r, hr⟩
    · obtain ⟨hq, hnone⟩ := Producer.stopped_of_step hp hrun
      rw [hnone, List.append_nil]
      exact ⟨.inl hq, List.prefix_rfl⟩
    · rw [hr] at hrun ⊢
      have hq : .finished r = q.producer := (Prod.mk.inj (Prod.mk.inj hrun).1).1
      refine ⟨.inr ⟨r, hq.symm⟩, ?_⟩
      rw [← hq]
      exact List.prefix_rfl

theorem late_of_stopped (h : ReflTransGen (Goes c) s t) (hp : s.populations[i]? = some p)
    (hs : p.Stopped) : ∃ q late, t.populations[i]? = some q ∧ q.Stopped ∧
      t.written = s.written ++ late ∧ partOf i late ++ q.producer.writes <+: p.producer.writes := by
  induction h with
  | refl => exact ⟨p, [], hp, hs, (List.append_nil _).symm, List.prefix_rfl⟩
  | tail _ hstep ih =>
    obtain ⟨q, late, hq, hstopped, hlate, hprefix⟩ := ih
    obtain ⟨q', new, hq', hnew, hbecomes⟩ := hstep.population hq
    obtain ⟨hstopped', hprefix'⟩ := hbecomes.stopped hstopped
    refine ⟨q', late ++ new, hq', hstopped', ?_, ?_⟩
    · rw [hnew, hlate, List.append_assoc]
    · rw [partOf_append, List.append_assoc]
      exact ((List.prefix_append_right_inj _).mpr hprefix').trans hprefix

/-! ## What the files hold -/

omit [Entity α] in
theorem forall_put {P : Populating α → Prop} (h : ∀ r ∈ s.populations, P r) (hq : P q) :
    ∀ r ∈ (s.put i q).populations, P r := fun r hr =>
  (List.mem_or_eq_of_mem_set hr).elim (h r) fun heq => heq ▸ hq

omit [Entity α] in
theorem mem_of_get (h : s.populations[i]? = some p) : p ∈ s.populations :=
  List.mem_of_getElem? h

theorem log_wrote (h : s.emptied ≤ s.written.length) :
    (s.wrote i p).log = s.log ++ p.producer.writes.map (i, ·) :=
  List.drop_append_of_le_length h

omit [Entity α] in
theorem durable_promotedBy (first : List α) (s : Succession α) (i : Nat) :
    (s.promotedBy i).durable first = s.log.map Prod.snd := by
  simp [durable, promotedBy]

/-- The work file is the log of what was written since it was emptied, and the snapshot of a cache
that does not keep what was there before is the log that was promoted last. -/
structure Sound (c : EntityCache α) (first : List α) (s : Succession α) : Prop where
  files : ∃ ds, c.files.Saves s.disk ds ∧
    (s.populations ≠ [] → c.files.Holds s.disk ds (s.log.map Prod.snd)) ∧
    (∀ a ∈ ds, Record.Accepted a) ∧ (c.policy.keepsPrevious = false → ds = s.durable first)
  accepted : ∀ x ∈ s.written, Record.Accepted x.2
  emptied : s.emptied ≤ s.written.length
  sources : ∀ p ∈ s.populations, p.producer.Keeps c.files.Untouched

variable {first : List α}

theorem sound_start {d : Disk} (h : c.files.Saves d first)
    (hfirst : ∀ a ∈ first, Record.Accepted a) : Sound c first (start d) where
  files := ⟨first, h, fun hne => absurd rfl hne, hfirst, fun _ => rfl⟩
  accepted _ hx := nomatch hx
  emptied := Nat.le_refl 0
  sources _ hp := nomatch hp

theorem Sound.accepted_log (h : Sound c first s) : ∀ a ∈ s.log.map Prod.snd, Record.Accepted a := by
  intro a ha
  obtain ⟨x, hx, rfl⟩ := List.mem_map.mp ha
  exact h.accepted x (List.mem_of_mem_drop hx)

variable [KeyedEntity α]

/-- A promotion does not fail. -/
theorem Sound.run_promoteWorkFile (h : Sound c first s) (hf : c.files.Siblings)
    (hp : s.populations[i]? = some p) :
    ∃ n e ds, c.promoteWorkFile.run s.disk = (.ok n, e) ∧ c.files.Holds e ds [] ∧
      (∀ a ∈ ds, Record.Accepted a) ∧
      (c.policy.keepsPrevious = false → ds = s.log.map Prod.snd) := by
  obtain ⟨ds, -, hholds, hds, -⟩ := h.files
  obtain ⟨e, hrun, he⟩ := EntityCache.holds_promoteWorkFileIn (o := .ascending) hf
    (hholds (List.ne_nil_of_mem (mem_of_get hp))) hds h.accepted_log
  refine ⟨_, e, _, hrun, he, ?_, fun hk => ?_⟩
  · unfold EntityCache.streamedLog
    split
    · exact EntityCache.forall_mergedWith (fun a => Record.accepted_reread hds)
        fun a => Record.accepted_reread h.accepted_log
    · exact h.accepted_log
  · rw [EntityCache.streamedLog, hk]
    rfl

theorem Sound.goes (h : Sound c first s) (hf : c.files.Siblings) (hstep : Goes c s t) :
    Sound c first t := by
  obtain ⟨ds, hsaves, hholds, hds, hdurable⟩ := h.files
  have hsome : ∀ {i : Nat} {p : Populating α}, s.populations[i]? = some p → s.populations ≠ [] :=
    fun hp => List.ne_nil_of_mem (mem_of_get hp)
  cases hstep with
  | @begins call e j hidle hcall hrun =>
    obtain ⟨e', hrun', he⟩ := CacheFiles.run_clearWork hf hsaves
    obtain rfl : e' = e := congrArg Prod.snd (hrun'.symm.trans hrun)
    refine ⟨⟨ds, he.saves, fun _ => ?_, hds, hdurable⟩, h.accepted, Nat.le_refl _, ?_⟩
    · show c.files.Holds e' ds ((s.written.drop s.written.length).map Prod.snd)
      rwa [List.drop_length]
    · intro p hp
      rcases List.mem_append.mp hp with hp | hp
      · exact h.sources p hp
      · rw [List.mem_singleton.mp hp]
        exact hcall
  | beginsNot _ hrun =>
    obtain ⟨e', hrun', -⟩ := CacheFiles.run_clearWork hf hsaves
    cases hrun'.symm.trans hrun
  | @produces i p q x j e hp hrun =>
    have hkeeps := h.sources p (mem_of_get hp)
    have he := Producer.holds_of_step hf hkeeps (hholds (hsome hp)) hrun
    have hlog : (s.wrote i p).log.map Prod.snd = s.log.map Prod.snd ++ p.producer.writes := by
      rw [log_wrote h.emptied, List.map_append, List.map_map]
      simp
    refine ⟨⟨ds, he.saves, fun _ => ?_, hds, hdurable⟩, ?_, ?_, ?_⟩
    · rw [← hlog] at he
      exact he
    · intro y hy
      rcases List.mem_append.mp hy with hy | hy
      · exact h.accepted y hy
      · obtain ⟨a, ha, rfl⟩ := List.mem_map.mp hy
        exact Producer.accepted_of_mem_writes ha
    · show s.emptied ≤ (s.written ++ _).length
      rw [List.length_append]
      exact Nat.le_add_right_of_le h.emptied
    · exact forall_put h.sources (hkeeps.step hrun)
  | turns hp hturn =>
    refine ⟨⟨ds, hsaves, fun _ => hholds (hsome hp), hds, hdurable⟩, h.accepted, h.emptied, ?_⟩
    exact forall_put h.sources (hturn.producer ▸ h.sources _ (mem_of_get hp))
  | @promotes i p n e hp _ hrun =>
    obtain ⟨n', e', ds', hrun', he, hds', hlog⟩ := h.run_promoteWorkFile hf hp
    obtain rfl : e' = e := congrArg Prod.snd (hrun'.symm.trans hrun)
    refine ⟨⟨ds', he.saves, fun _ => ?_, hds', fun hk => ?_⟩, h.accepted, Nat.le_refl _, ?_⟩
    · show c.files.Holds e' ds' ((s.written.drop s.written.length).map Prod.snd)
      rwa [List.drop_length]
    · exact (hlog hk).trans (durable_promotedBy first s i).symm
    · exact forall_put h.sources (h.sources p (mem_of_get hp))
  | promotesNot hp _ hrun =>
    obtain ⟨n', e', -, hrun', -⟩ := h.run_promoteWorkFile hf hp
    cases hrun'.symm.trans hrun
  | meanwhile hsame =>
    exact ⟨⟨ds, hsame.saves hsaves, fun hne => hsame.holds (hholds hne), hds, hdurable⟩, h.accepted,
      h.emptied, h.sources⟩

theorem Sound.reaches (h : Sound c first s) (hf : c.files.Siblings)
    (hr : ReflTransGen (Goes c) s t) : Sound c first t := by
  induction hr with
  | refl => exact h
  | tail _ hstep ih => exact ih.goes hf hstep

/-! ## Whose the entities are -/

/-- Only the last update may still go on, a population whose update has ended was stopped, if it was
not dropped, and the producer of an update that has heard from it has come to its end. -/
structure Orderly (s : Succession α) : Prop where
  last : ∀ {i p}, s.populations[i]? = some p → p.HasEnded ∨ i + 1 = s.populations.length
  stopped : ∀ p ∈ s.populations, p.stage = .waits ∨ p.stage = .ended .dropped ∨ p.Stopped
  heard : ∀ p ∈ s.populations, p.stage = .promotes ∨ p.stage = .ended .heard →
    ∃ r, p.producer = .finished r

omit [Entity α] [KeyedEntity α] in
theorem orderly_start (d : Disk) : (start d : Succession α).Orderly :=
  ⟨(fun h => nomatch h), (fun _ h => nomatch h), fun _ h => nomatch h⟩

omit [Entity α] [KeyedEntity α] in
/-- A population is put in the place of one that is no further. -/
theorem Orderly.put (h : s.Orderly) (hp : s.populations[i]? = some p)
    (hended : p.HasEnded → q.HasEnded)
    (hq : q.stage = .waits ∨ q.stage = .ended .dropped ∨ q.Stopped)
    (hheard : q.stage = .promotes ∨ q.stage = .ended .heard → ∃ r, q.producer = .finished r) :
    (s.put i q).Orderly where
  last {k r} hr := by
    have hlength : (s.put i q).populations.length = s.populations.length := List.length_set
    rw [getElem?_put hp] at hr
    rw [hlength]
    split at hr
    · next hk =>
      obtain rfl := Option.some.inj hr
      subst hk
      exact (h.last hp).imp_left hended
    · exact h.last hr
  stopped := forall_put h.stopped hq
  heard := forall_put h.heard hheard

omit [KeyedEntity α] in
theorem Orderly.goes (h : s.Orderly) (hstep : Goes c s t) : t.Orderly := by
  cases hstep with
  | @begins call e j hidle =>
    constructor
    · intro k r hr
      rcases Nat.lt_or_ge k s.populations.length with hk | hk
      · rw [begun, List.getElem?_append_left hk] at hr
        exact .inl (hidle r (mem_of_get hr))
      · have hlt := (List.getElem?_eq_some_iff.mp hr).1
        simp only [begun, List.length_append, List.length_singleton] at hlt ⊢
        exact .inr (by omega)
    · intro r hr
      rcases List.mem_append.mp hr with hr | hr
      · exact h.stopped r hr
      · rw [List.mem_singleton.mp hr]
        exact .inl rfl
    · intro r hr
      rcases List.mem_append.mp hr with hr | hr
      · exact h.heard r hr
      · rw [List.mem_singleton.mp hr]
        rintro (hstage | hstage) <;> cases hstage
  | beginsNot | meanwhile => exact ⟨h.last, h.stopped, h.heard⟩
  | @produces i p q x j e hp hrun =>
    have hbecomes : Becomes c p { p with producer := q, sink := x, job := j } _ := .goes hrun
    have hput := Orderly.put (s := s.wrote i p) ⟨h.last, h.stopped, h.heard⟩ hp
      (q := { p with producer := q, sink := x, job := j }) id
      (by
        rcases h.stopped p (mem_of_get hp) with hw | hd | hs
        · exact .inl hw
        · exact .inr (.inl hd)
        · exact .inr (.inr (hbecomes.stopped hs).1))
      (fun hstage => by
        obtain ⟨r, hr⟩ := h.heard p (mem_of_get hp) hstage
        rw [hr] at hrun
        exact ⟨r, (Prod.mk.inj (Prod.mk.inj hrun).1).1.symm⟩)
    exact ⟨hput.last, hput.stopped, hput.heard⟩
  | @turns i p q hp hturn =>
    have hbefore := h.heard p (mem_of_get hp)
    refine h.put hp hturn.hasEnded ?_ ?_
    · cases hturn with
      | interrupted => exact .inr (.inr (.inl (Bool.or_true _)))
      | givesUp => exact .inr (.inr (.inl (Bool.true_or _)))
      | drops => exact .inr (.inl rfl)
      | @hears r _ hfinished =>
        have hs : Populating.Stopped _ := .inr ⟨r, hfinished⟩
        refine .inr (.inr ?_)
        unfold Populating.hears
        split <;> exact hs
    · rw [hturn.producer]
      cases hturn with
      | interrupted => exact hbefore
      | givesUp | drops => rintro (hstage | hstage) <;> cases hstage
      | @hears r _ hfinished => exact fun _ => ⟨r, hfinished⟩
  | @promotes i p n e hp hstage | @promotesNot i p n e hp hstage =>
    obtain ⟨r, hr⟩ := h.heard p (mem_of_get hp) (.inl hstage)
    have hput := h.put hp (q := { p with stage := .ended .heard }) (fun _ => ⟨_, rfl⟩)
      (.inr (.inr (.inr ⟨r, hr⟩))) fun _ => ⟨r, hr⟩
    exact ⟨hput.last, hput.stopped, hput.heard⟩

omit [KeyedEntity α] in
theorem Orderly.reaches (h : s.Orderly) (hr : ReflTransGen (Goes c) s t) : t.Orderly := by
  induction hr with
  | refl => exact h
  | tail _ hstep ih => exact ih.goes hstep

/-- No producer whose update has ended stores anything more. -/
def Quiet (s : Succession α) : Prop :=
  ∀ p ∈ s.populations, p.HasEnded → p.Stopped ∧ p.producer.writes = []

/-- Whatever was promoted is from the population that promoted it, and so far the work file is from
the last one. -/
structure Own (s : Succession α) : Prop where
  log : ∀ x ∈ s.log, x.1 + 1 = s.populations.length
  promoted : ∀ y ∈ s.promoted, ∀ x ∈ y.2, x.1 = y.1

omit [KeyedEntity α] in
theorem Own.goes (h : s.Own) (hs : Sound c first s) (ho : s.Orderly) (hquiet : s.Quiet)
    (hstep : Goes c s t) : t.Own := by
  have hlength : ∀ {i : Nat} {q : Populating α}, (s.put i q).populations.length =
      s.populations.length := List.length_set
  cases hstep with
  | begins =>
    refine ⟨fun x hx => ?_, h.promoted⟩
    replace hx : x ∈ s.written.drop s.written.length := hx
    rw [List.drop_length] at hx
    cases hx
  | beginsNot | meanwhile => exact ⟨h.log, h.promoted⟩
  | @produces i p q x j e hp hrun =>
    refine ⟨fun y hy => ?_, h.promoted⟩
    replace hy : y ∈ (s.wrote i p).log := hy
    show y.1 + 1 = (s.put i _).populations.length
    rw [hlength]
    rw [log_wrote hs.emptied] at hy
    rcases List.mem_append.mp hy with hy | hy
    · exact h.log y hy
    · obtain ⟨a, ha, rfl⟩ := List.mem_map.mp hy
      rcases ho.last hp with hended | hlast
      · rw [(hquiet p (mem_of_get hp) hended).2] at ha
        cases ha
      · exact hlast
  | turns hp hturn => exact ⟨fun x hx => (h.log x hx).trans hlength.symm, h.promoted⟩
  | @promotes i p n e hp hstage hrun =>
    have hlast : i + 1 = s.populations.length := by
      rcases ho.last hp with ⟨x, hx⟩ | hlast
      · cases hstage.symm.trans hx
      · exact hlast
    constructor
    · intro x hx
      replace hx : x ∈ s.written.drop s.written.length := hx
      rw [List.drop_length] at hx
      cases hx
    · intro y hy x hx
      rcases List.mem_append.mp hy with hy | hy
      · exact h.promoted y hy x hx
      · rw [List.mem_singleton.mp hy] at hx ⊢
        have hown := h.log x hx
        show x.1 = i
        omega
  | promotesNot hp _ _ => exact ⟨fun x hx => (h.log x hx).trans hlength.symm, h.promoted⟩

end Succession

end SensorCache
