import SensorCache.Proofs.Cache.Durability
import SensorCache.Proofs.Disk.Elsewhere
import SensorCache.Proofs.Source.Deliveries
import SensorCache.Source.Export

/-!
# What exports hold, and what their calls make of it

An export holds unit mappings if its file of them is text that is read as such, and offerings if
every line of its file of them is blank or read as one. A fetch then returns them, and a call that
streams offerings delivers them one by one. Where a line is no offering, those before it are
delivered and the call fails (`eachOffering_error`).
-/

namespace SensorCache

open Disk

variable {α ρ σ τ ε : Type} {d e : Disk}

/-! ## Calls that read -/

namespace SourceCall

variable {c : SourceCall α ρ} {f : ρ → SourceCall α σ} {h : Receiver α τ}

theorem bind_assoc {π : Type} (c : SourceCall α ρ) (f : ρ → SourceCall α σ)
    (g : σ → SourceCall α π) : (c.bind f).bind g = c.bind fun r => (f r).bind g := by
  induction c with
  | returns r => cases r <;> rfl
  | crashes | hangs => rfl
  | interrupts next ih => exact congrArg interrupts ih
  | performs o next ih => exact congrArg (performs o) (funext ih)
  | announces n next ih => exact congrArg (announces n) ih
  | delivers a next ih => exact congrArg (delivers a) (funext ih)

theorem run_ofRoutine (h : Receiver α τ) (r : Routine ρ) (t : τ) (d : Disk) :
    ((ofRoutine r).run h t).run d = ((.returned (.ok (r.run d).1), t), (r.run d).2) := by
  induction r generalizing d with
  | done a => rfl
  | step o next ih => exact ih _ _

/-- An attempt in a call does what it does by itself, and its failure becomes the call's. -/
theorem run_ofAttempt (h : Receiver α τ) (cause : ε → SourceError) {r : Attempt ε ρ}
    {x : Except ε ρ} (hr : r.run d = (x, e)) (t : τ) :
    ((ofAttempt cause r).run h t).run d = ((.returned (x.mapError cause), t), e) := by
  have hroutine := run_ofRoutine h r.outcome t d
  rw [show r.outcome.run d = (x, e) from hr] at hroutine
  refine (run_bind_ok hroutine).trans ?_
  cases x <;> rfl

end SourceCall

namespace ExportDirectory

variable {x : ExportDirectory}

/-! ## Unit mappings -/

/-- The file of unit mappings is text, and that is read as `us`. -/
def HoldsUnits (x : ExportDirectory) (d : Disk) (us : List UnitMapping) : Prop :=
  ∃ b s, (d.perform (.read (x.path / ⟨unitMappingsFile⟩))).1 = .ok b ∧
    String.fromUTF8? b = some s ∧ unitMappings? s.toList = some us

theorem HoldsUnits.unique {us vs : List UnitMapping} (hu : x.HoldsUnits d us)
    (hv : x.HoldsUnits d vs) : us = vs := by
  obtain ⟨b, s, hb, hs, hus⟩ := hu
  obtain ⟨b', s', hb', hs', hvs⟩ := hv
  cases hb.symm.trans hb'
  cases hs.symm.trans hs'
  exact Option.some.inj (hus.symm.trans hvs)

theorem holdsUnits_iff {ns : List String} {us : List UnitMapping} (h : Elsewhere ns d e)
    (hns : unitMappingsFile ∉ ns) : x.HoldsUnits e us ↔ x.HoldsUnits d us :=
  exists_congr fun b => exists_congr fun s => and_congr_left' <|
    h.read_eq_ok ⟨by decide, by decide, by decide, by decide⟩ hns

/-- The call returns what the export holds, or fails with a message. -/
theorem fetches_unitMappings (x : ExportDirectory) (d : Disk) :
    (∃ us, x.HoldsUnits d us ∧ x.fetchUnitMappings.Fetches d (.ok us) d) ∨
      (∀ us, ¬x.HoldsUnits d us) ∧
        ∃ m, x.fetchUnitMappings.Fetches d (.error (.backend m)) d := by
  cases hb : (d.perform (.read (x.path / ⟨unitMappingsFile⟩))).1 with
  | error y =>
    have htext : (readText (x.path / ⟨unitMappingsFile⟩)).run d = (.error y, d) :=
      Attempt.run_bind_error (run_readBytes hb)
    refine .inr ⟨?_, _, fun j => SourceCall.run_bind_error
      (SourceCall.run_ofAttempt _ (failure "read" _) htext j)⟩
    rintro us ⟨b, s, hread, -⟩
    cases hb.symm.trans hread
  | ok b =>
    have htext : (readText (x.path / ⟨unitMappingsFile⟩)).run d = _ :=
      Attempt.run_bind_ok (run_readBytes hb)
    cases hs : String.fromUTF8? b with
    | none =>
      rw [hs] at htext
      refine .inr ⟨?_, _, fun j => SourceCall.run_bind_error
        (SourceCall.run_ofAttempt _ (failure "read" _) htext j)⟩
      rintro us ⟨b', s, hread, hs', -⟩
      cases hb.symm.trans hread
      cases hs.symm.trans hs'
    | some s =>
      rw [hs] at htext
      have hcall : ∀ j, (x.fetchUnitMappings.run .ofJob j).run d = _ := fun j =>
        SourceCall.run_bind_ok (SourceCall.run_ofAttempt _ (failure "read" _) htext j)
      cases hus : unitMappings? s.toList with
      | some us =>
        rw [hus] at hcall
        exact .inl ⟨us, ⟨b, s, hb, hs, hus⟩, hcall⟩
      | none =>
        rw [hus] at hcall
        refine .inr ⟨?_, _, hcall⟩
        rintro us ⟨b', s', hread, hs', hus'⟩
        cases hb.symm.trans hread
        cases hs.symm.trans hs'
        cases hus.symm.trans hus'

/-! ## Offerings -/

/-- Every line of the file of offerings is text and blank or read as an offering, and these are
`os`. -/
def HoldsOfferings (x : ExportDirectory) (d : Disk) (os : List Offering) : Prop :=
  ∃ b, (d.perform (.read (x.path / ⟨offeringsFile⟩))).1 = .ok b ∧
    offeringsOf (x.path / ⟨offeringsFile⟩) 1 (Text.byteLines b.data.toList) = .ok os

theorem HoldsOfferings.unique {os ps : List Offering} (ho : x.HoldsOfferings d os)
    (hp : x.HoldsOfferings d ps) : os = ps := by
  obtain ⟨b, hb, hos⟩ := ho
  obtain ⟨b', hb', hps⟩ := hp
  cases hb.symm.trans hb'
  exact Except.ok.inj (hos.symm.trans hps)

theorem holdsOfferings_iff {ns : List String} {os : List Offering} (h : Elsewhere ns d e)
    (hns : offeringsFile ∉ ns) : x.HoldsOfferings e os ↔ x.HoldsOfferings d os :=
  exists_congr fun b => and_congr_left' <|
    h.read_eq_ok ⟨by decide, by decide, by decide, by decide⟩ hns

/-- The file is opened and read, or the call fails with a message. -/
theorem run_readOfferings (x : ExportDirectory) (d : Disk) :
    ∃ r : Except SourceError (List UInt8),
      (∀ {α τ : Type} (h : Receiver α τ) (t : τ),
        (x.readOfferings.run h t).run d = ((.returned r, t), d)) ∧
      ((∃ b, (d.perform (.read (x.path / ⟨offeringsFile⟩))).1 = .ok b ∧ r = .ok b.data.toList) ∨
        (∀ b, (d.perform (.read (x.path / ⟨offeringsFile⟩))).1 ≠ .ok b) ∧
          ∃ m, r = .error (.backend m)) := by
  have hstat : (stat (x.path / ⟨offeringsFile⟩)).run d = (d.view (x.path / ⟨offeringsFile⟩), d) :=
    Prod.ext rfl (perform_find d _)
  cases hn : d.view (x.path / ⟨offeringsFile⟩) with
  | error y =>
    rw [hn] at hstat
    refine ⟨_, fun h t => SourceCall.run_bind_error
      (SourceCall.run_ofAttempt h (failure "open" _) hstat t), .inr ⟨fun b hb => ?_, _, rfl⟩⟩
    obtain ⟨u, hu⟩ := Disk.read_eq_ok.mp hb
    cases hn.symm.trans hu
  | ok n =>
    rw [hn] at hstat
    have hcall : ∀ {α τ : Type} (h : Receiver α τ) (t : τ), (x.readOfferings.run h t).run d = _ :=
      fun h t => SourceCall.run_bind_ok (SourceCall.run_ofAttempt h (failure "open" _) hstat t)
    cases hb : (d.perform (.read (x.path / ⟨offeringsFile⟩))).1 with
    | error y =>
      exact ⟨_, fun h t => (hcall h t).trans <| SourceCall.run_bind_error
        (SourceCall.run_ofAttempt h (failure "read" _) (run_readBytes hb) t),
        .inr ⟨(fun _ hok => nomatch hok), _, rfl⟩⟩
    | ok b =>
      exact ⟨.ok b.data.toList, fun h t => (hcall h t).trans <| SourceCall.run_bind_ok
        (SourceCall.run_ofAttempt h (failure "read" _) (run_readBytes hb) t), .inl ⟨b, rfl, rfl⟩⟩

variable {p : Path} {n : Nat} {ls : List (List UInt8)} {os : List Offering}

theorem lineText_error {l : List UInt8} {y : SourceError} (h : lineText p l = .error y) :
    ∃ m, y = .backend m := by
  unfold lineText at h
  split at h
  · cases h
  · cases h
    exact ⟨_, rfl⟩

theorem countLines_error {y : SourceError} (h : countLines p ls = .error y) :
    ∃ m, y = .backend m := by
  induction ls with
  | nil => cases h
  | cons l ls ih =>
    unfold countLines at h
    cases hl : lineText p l with
    | error z =>
      rw [hl] at h
      cases h
      exact lineText_error hl
    | ok s =>
      rw [hl] at h
      cases hr : countLines p ls with
      | error z =>
        rw [hr] at h
        cases h
        exact ih hr
      | ok k =>
        rw [hr] at h
        cases h

theorem offeringsOf_cons {l : List UInt8} (h : offeringsOf p n (l :: ls) = .ok os) :
    ∃ o os', offeringOf p n l = .ok o ∧ offeringsOf p (n + 1) ls = .ok os' ∧
      os = o.toList ++ os' := by
  unfold offeringsOf at h
  cases ho : offeringOf p n l with
  | error y =>
    rw [ho] at h
    cases h
  | ok o =>
    rw [ho] at h
    cases hr : offeringsOf p (n + 1) ls with
    | error y =>
      rw [hr] at h
      cases h
    | ok os' =>
      rw [hr] at h
      exact ⟨o, os', rfl, rfl, (Except.ok.inj h).symm⟩

/-- As many lines are counted as there are offerings. -/
theorem countLines_eq_length (h : offeringsOf p n ls = .ok os) :
    countLines p ls = .ok os.length := by
  induction ls generalizing n os with
  | nil =>
    cases h
    rfl
  | cons l ls ih =>
    obtain ⟨o, os', ho, hr, rfl⟩ := offeringsOf_cons h
    unfold offeringOf at ho
    rw [countLines, ih hr]
    cases hl : lineText p l with
    | error y =>
      rw [hl] at ho
      cases ho
    | ok s =>
      rw [hl] at ho
      dsimp only at ho ⊢
      split at ho
      · next hblank =>
        cases ho
        rw [if_pos hblank]
        rfl
      · next hblank =>
        rw [if_neg hblank]
        split at ho
        · cases ho
          rfl
        · cases ho

theorem eachOffering_ok (h : offeringsOf p n ls = .ok os) :
    eachOffering p SourceCall.deliver n ls = SourceCall.deliverEach os := by
  induction ls generalizing n os with
  | nil =>
    cases h
    rfl
  | cons l ls ih =>
    obtain ⟨o, os', ho, hr, rfl⟩ := offeringsOf_cons h
    unfold eachOffering
    rw [ho]
    cases o with
    | none => exact ih hr
    | some o =>
      show _ = (SourceCall.deliver o >>= fun _ => SourceCall.deliverEach os')
      rw [← ih hr]

/-- A line that is no offering is told with a message. -/
theorem offeringOf_error {l : List UInt8} {y : SourceError} (h : offeringOf p n l = .error y) :
    ∃ m, y = .backend m := by
  unfold offeringOf at h
  cases hl : lineText p l with
  | error z =>
    rw [hl] at h
    cases h
    exact lineText_error hl
  | ok s =>
    rw [hl] at h
    dsimp only at h
    split at h
    · cases h
    · split at h
      · cases h
      · cases h
        exact ⟨_, rfl⟩

/-- The offerings before a line that is none are delivered. -/
theorem eachOffering_error {y : SourceError} (h : offeringsOf p n ls = .error y) :
    ∃ os m, y = .backend m ∧ eachOffering p SourceCall.deliver n ls =
      (SourceCall.deliverEach os).bind fun _ => .fail y := by
  induction ls generalizing n with
  | nil => cases h
  | cons l ls ih =>
    unfold offeringsOf at h
    unfold eachOffering
    cases ho : offeringOf p n l with
    | error z =>
      rw [ho] at h
      cases h
      obtain ⟨m, rfl⟩ := offeringOf_error ho
      exact ⟨[], m, rfl, rfl⟩
    | ok o =>
      rw [ho] at h
      cases hr : offeringsOf p (n + 1) ls with
      | ok os =>
        rw [hr] at h
        cases h
      | error z =>
        rw [hr] at h
        cases h
        obtain ⟨os, m, hm, hos⟩ := ih hr
        cases o with
        | none => exact ⟨os, m, hm, hos⟩
        | some o =>
          refine ⟨o :: os, m, hm, ?_⟩
          rw [SourceCall.deliverEach]
          refine Eq.trans ?_ (SourceCall.bind_assoc (SourceCall.deliver o) _ _).symm
          exact congrArg (SourceCall.deliver o).bind (funext fun _ => hos)

/-! ## Streaming offerings -/

variable {c : EntityCache Offering} {ds ws : List Offering} {s : Sink} {j : JobHandle}

/-- The end of a call that failed, by itself or on an entity that was refused. -/
def Fails (s : Sink) (y : SourceError) : Prop :=
  (∃ m, y = .backend m) ∨ ∃ z, s.failure = some z

/-- The call of an export that holds offerings delivers them. -/
theorem run_streamOfferings (hd : x.HoldsOfferings d os) (hs : s.Open) (j : JobHandle) :
    ∃ t : Sink, t.Open ∧ (x.offerings.stream.run (.ofSink c) (s, j)).run d =
      ((SourceCall.deliverEach os).run (.ofSink c) (t, j)).run d := by
  obtain ⟨b, hb, hos⟩ := hd
  obtain ⟨r, hread, ⟨b', hb', rfl⟩ | ⟨hbad, -⟩⟩ := x.run_readOfferings d
  · cases hb.symm.trans hb'
    refine ⟨s.expect os.length, ⟨hs.running, hs.unfailed⟩, (SourceCall.run_bind_ok (hread _ _)).trans ?_⟩
    rw [countLines_eq_length hos]
    refine (SourceCall.run_bind_ok (hread _ (s.expect os.length, j))).trans ?_
    rw [eachOffering_ok hos]
  · exact absurd hb (hbad b)

/-- Deliveries end at an offering that is refused, whatever was to come after it. -/
theorem run_deliverEach_unaccepted (hf : c.files.Siblings) (h : c.files.Holds d ds ws)
    (hos : ∃ o ∈ os, ¬Record.Accepted o) :
    ∃ e ws', c.files.Holds e ds ws' ∧ ∀ {s : Sink} {j : JobHandle}, s.Open →
      j.interrupted = false → ∃ t k, (∃ z, t.failure = some z) ∧ k.interrupted = false ∧
        ((SourceCall.deliverEach os).run (.ofSink c) (s, j)).run d =
          ((.returned (.error .cancelled), (t, k)), e) := by
  obtain ⟨kept, o, rest, rfl, hkept, ho⟩ := EntityCache.split_refused hos
  obtain ⟨e, he, hrun⟩ := SourceCall.run_deliverEach_refused hf h rest hkept ho
  refine ⟨e, _, he, fun {s j} hs hj => ?_⟩
  obtain ⟨t, k, ht, hk, hend⟩ := hrun hs hj
  exact ⟨t, k, ⟨_, ht⟩, hk, hend⟩

/-- A call that is to fail after its deliveries fails, if not before. -/
theorem run_deliverEach_fails (hf : c.files.Siblings) (h : c.files.Holds d ds ws)
    (os : List Offering) (m : String) :
    ∃ e ws', c.files.Holds e ds ws' ∧ ∀ {s : Sink} {j : JobHandle}, s.Open →
      j.interrupted = false → ∃ y t k, Fails t y ∧ k.interrupted = false ∧
        (((SourceCall.deliverEach os).bind fun _ =>
          (.fail (.backend m) : SourceCall Offering Unit)).run (.ofSink c) (s, j)).run d =
            ((.returned (.error y), (t, k)), e) := by
  by_cases hall : ∀ o ∈ os, Record.Accepted o
  · obtain ⟨e, he, hrun⟩ := SourceCall.run_deliverEach hf h hall
    refine ⟨e, _, he, fun {s j} hs hj => ?_⟩
    obtain ⟨t, k, -, hk, hend⟩ := hrun hs hj
    exact ⟨_, t, k, .inl ⟨m, rfl⟩, hk, SourceCall.run_bind_ok hend⟩
  · have hsome : ∃ o ∈ os, ¬Record.Accepted o := by simpa using hall
    obtain ⟨e, ws', he, hrun⟩ := run_deliverEach_unaccepted hf h hsome
    refine ⟨e, ws', he, fun {s j} hs hj => ?_⟩
    obtain ⟨t, k, hfails, hk, hend⟩ := hrun hs hj
    exact ⟨_, t, k, .inr hfails, hk, SourceCall.run_bind_error hend⟩

/-- Unless an export holds offerings that are all accepted its call fails. -/
theorem run_streamOfferings_error (hf : c.files.Siblings) (h : c.files.Holds d ds ws)
    (hd : ∀ os, x.HoldsOfferings d os → ∃ o ∈ os, ¬Record.Accepted o) :
    ∃ e ws', c.files.Holds e ds ws' ∧ ∀ {s : Sink} {j : JobHandle}, s.Open →
      j.interrupted = false → ∃ y t k, Fails t y ∧ k.interrupted = false ∧
        (x.offerings.stream.run (.ofSink c) (s, j)).run d =
          ((.returned (.error y), (t, k)), e) := by
  obtain ⟨r, hread, ⟨b, hb, rfl⟩ | ⟨-, m, rfl⟩⟩ := x.run_readOfferings d
  · cases hos : offeringsOf (x.path / ⟨offeringsFile⟩) 1 (Text.byteLines b.data.toList) with
    | ok os =>
      obtain ⟨e, ws', he, hrun⟩ := run_deliverEach_unaccepted hf h (hd os ⟨b, hb, hos⟩)
      refine ⟨e, ws', he, fun {s j} hs hj => ?_⟩
      obtain ⟨t, ht, hcall⟩ := run_streamOfferings (c := c) ⟨b, hb, hos⟩ hs j
      obtain ⟨t', k, hfails, hk, hend⟩ := hrun ht hj
      exact ⟨_, t', k, .inr hfails, hk, hcall.trans hend⟩
    | error y =>
      obtain ⟨os, m, rfl, heach⟩ := eachOffering_error hos
      cases hk : countLines (x.path / ⟨offeringsFile⟩) (Text.byteLines b.data.toList) with
      | error z =>
        -- The file is not even read to its end when its lines are counted.
        refine ⟨d, ws, h, fun {s j} hs hj => ⟨z, s, j, .inl (countLines_error hk), hj, ?_⟩⟩
        refine (SourceCall.run_bind_ok (hread _ _)).trans ?_
        rw [hk]
        rfl
      | ok k =>
        obtain ⟨e, ws', he, hrun⟩ := run_deliverEach_fails hf h os m
        refine ⟨e, ws', he, fun {s j} hs hj => ?_⟩
        obtain ⟨y, t, k', hfails, hk', hend⟩ := hrun (s := s.expect k) ⟨hs.running, hs.unfailed⟩ hj
        refine ⟨y, t, k', hfails, hk', (SourceCall.run_bind_ok (hread _ _)).trans ?_⟩
        rw [hk]
        refine (SourceCall.run_bind_ok (hread _ (s.expect k, j))).trans ?_
        rw [heach]
        exact hend
  · exact ⟨d, ws, h, fun {s j} hs hj =>
      ⟨_, s, j, .inl ⟨m, rfl⟩, hj, SourceCall.run_bind_error (hread _ _)⟩⟩

end ExportDirectory

end SensorCache
