import SensorCache.Proofs.Cache.Locking

/-!
# One operation at the lock file

What an operation tells of the lock file (`Op.saw`, `Op.made`, `Op.took`) and what it does to it: it
leaves it as it is, makes it where nothing was, or takes it away (`Disk.Touches`). An operation may
also fail for a reason of its own, and then does nothing (`Disk.Answers`).
-/

namespace SensorCache

open Disk

/-! ## What an operation tells -/

namespace Disk.Op

/-- The time that was read from the clock. -/
def timeRead : (o : Op) → o.Answer → Option Instant
  | .now, t => some t
  | _, _ => none

/-- What was seen at a path, if that was looked at: when what is there was changed last. -/
def saw (p : Path) : (o : Op) → o.Answer → Option (Option Instant)
  | .find q, x => if q = p then some (x.toOption.map Node.modified) else none
  | _, _ => none

/-- When a file was made, if one was. -/
def made : (o : Op) → o.Answer → Option Instant
  | .create _, x => x.toOption
  | _, _ => none

/-- Whether a file was removed. -/
def took : (o : Op) → o.Answer → Bool
  | .remove _, x => x.isOk
  | _, _ => false

/-- What there is to do at a lock file `p`: looking about, making directories and the file itself,
and removing it. -/
def Concerns (p : Path) : Op → Prop
  | .now => True
  | .find _ => True
  | .makeDirectory _ => True
  | .create q => q = p
  | .remove q => q = p
  | _ => False

end Disk.Op

/-! ## What an operation does to the lock file -/

namespace Disk

variable {p : Path} {d e : Disk} {o : Op} {x : o.Answer}

/-- What became of the file at `p` by an operation with the answer `x`: it is as it was, it was made,
or it was taken away. -/
inductive Touches (p : Path) {o : Op} (x : o.Answer) (d e : Disk) : Prop where
  | leaves : (∀ n, e.view p = .ok n ↔ d.view p = .ok n) → o.made x = none → o.took x = false →
      Touches p x d e
  | makes : ¬d.Present p → e.Present p → o.took x = false →
      (∀ t, o.made x = some t → e.FileOf p t ∧ t = d.clock) → Touches p x d e
  | takes : (∃ t, d.FileOf p t) → ¬e.Present p → o.took x = true → o.made x = none →
      Touches p x d e

theorem present_of_leaves (h : ∀ n, e.view p = .ok n ↔ d.view p = .ok n) (he : e.Present p) :
    d.Present p :=
  have ⟨n, hn⟩ := he
  ⟨n, (h n).mp hn⟩

theorem fileOf_of_leaves {t : Instant} (h : ∀ n, e.view p = .ok n ↔ d.view p = .ok n) :
    e.FileOf p t ↔ d.FileOf p t := by
  simp only [FileOf, h]

/-- Nothing is replaced at once: what is at `p` stays, or nothing was there, or nothing is. -/
def Gradual (p : Path) (d e : Disk) : Prop :=
  (∀ n, e.view p = .ok n ↔ d.view p = .ok n) ∨ ¬d.Present p ∨ ¬e.Present p

theorem Touches.gradual (h : Touches p x d e) : Gradual p d e := by
  cases h with
  | leaves hsame _ _ => exact .inl hsame
  | makes hd _ _ _ => exact .inr (.inl hd)
  | takes _ he _ _ => exact .inr (.inr he)

/-- What was made was not there before, and was made at this time. -/
theorem Touches.of_made {t : Instant} (h : Touches p x d e) (ht : o.made x = some t) :
    ¬d.Present p ∧ e.FileOf p t ∧ t = d.clock := by
  cases h with
  | leaves _ hnone _ => cases hnone.symm.trans ht
  | makes hd _ _ hmade => exact ⟨hd, hmade t ht⟩
  | takes _ _ _ hnone => cases hnone.symm.trans ht

/-- An operation at the lock file touches it in one of these ways. -/
theorem touches_of_perform (ho : o.Concerns p) (h : d.perform o = (x, e)) : Touches p x d e := by
  have hsame : ∀ {o : Op} {x : o.Answer}, e = d → o.made x = none → o.took x = false →
      Touches p x d e := by
    rintro o x rfl hmade htook
    exact .leaves (fun _ => .rfl) hmade htook
  cases o with
  | now =>
    cases h
    exact hsame rfl rfl rfl
  | find q =>
    have he := perform_find d q
    rw [h] at he
    exact hsame he rfl rfl
  | create q =>
    obtain rfl : q = p := ho
    cases x with
    | ok t =>
      have hview := file_of_create h
      refine .makes (fun hp => ?_) ⟨_, hview⟩ rfl fun u hu => ?_
      · rw [create_of_present hp] at h
        cases h
      · cases hu
        exact ⟨⟨_, hview⟩, clock_of_create h⟩
    | error y => exact hsame (create_of_error h) rfl rfl
  | remove q =>
    obtain rfl : q = p := ho
    cases x with
    | ok u =>
      obtain ⟨hfile, habsent⟩ := remove_of_ok h
      exact .takes hfile habsent rfl rfl
    | error y => exact hsame (remove_of_error h) rfl rfl
  | makeDirectory q =>
    have hkeep := fun n (hn : d.view p = .ok n) => view_makeDirectory hn q
    rw [h] at hkeep
    by_cases hd : d.Present p
    · obtain ⟨n, hn⟩ := hd
      refine .leaves (fun k => ⟨fun hk => ?_, hkeep k⟩) rfl rfl
      rw [hkeep n hn] at hk
      cases hk
      exact hn
    · by_cases he : e.Present p
      · exact .makes hd he rfl fun _ ht => nomatch ht
      · exact .leaves (fun n => ⟨fun hn => absurd ⟨n, hn⟩ he, fun hn => absurd ⟨n, hn⟩ hd⟩) rfl rfl
  | read q => exact ho.elim
  | truncate q => exact ho.elim
  | append q b => exact ho.elim
  | rename q r => exact ho.elim

/-- One that fails for a reason of its own does nothing. -/
theorem touches_of_fault (h : o.Fault x) : Touches p x d d := by
  refine .leaves (fun _ => .rfl) ?_ ?_
  · cases o <;> first | rfl | (obtain ⟨t, rfl⟩ := h; rfl)
  · cases o <;> first | rfl | (obtain ⟨t, rfl⟩ := h; rfl)

/-- An operation is done, or fails for a reason of its own. -/
def Answers (d : Disk) (o : Op) (x : o.Answer) (e : Disk) : Prop :=
  d.perform o = (x, e) ∨ o.Fault x ∧ e = d

theorem Answers.clock (hx : Answers d o x e) : e.clock = d.clock := by
  rcases hx with hx | ⟨-, rfl⟩
  · have hclock := clock_perform d o
    rwa [hx] at hclock
  · rfl

theorem Answers.le_clock (hx : Answers d o x e) : d.clock ≤ e.clock := by
  rw [hx.clock]
  exact Int.le_refl _

theorem Answers.touches (hx : Answers d o x e) (ho : o.Concerns p) : Touches p x d e := by
  rcases hx with hx | ⟨hfault, rfl⟩
  · exact touches_of_perform ho hx
  · exact touches_of_fault hfault

/-- What was seen of a file that is there is its time. -/
theorem Answers.seen_eq {seen : Option Instant} {t : Instant} (hx : Answers d o x e)
    (hsaw : o.saw p x = some seen) (hseen : seen.isSome) (ht : e.FileOf p t) : seen = some t := by
  cases o with
  | find q =>
    by_cases hq : q = p
    · subst hq
      have hmodified : (x : Except OsError Node).toOption.map Node.modified = seen := by
        simpa [Op.saw] using hsaw
      rcases hx with hx | ⟨⟨u, rfl⟩, -⟩
      · have he : e = d := by rw [← perform_find d q, hx]
        obtain ⟨c, hc⟩ := ht
        have hview : x = .ok (.file c t) := by rw [← hc, he, view, hx]
        rw [← hmodified, hview]
        rfl
      · rw [← hmodified] at hseen
        cases hseen
    · simp [Op.saw, hq] at hsaw
  | _ => cases hsaw

/-- What was read from the clock is its time. -/
theorem Answers.timeRead_eq {t : Instant} (hx : Answers d o x e) (ht : o.timeRead x = some t) :
    t = d.clock := by
  cases o with
  | now =>
    rcases hx with hx | ⟨hfault, -⟩
    · cases hx
      exact (Option.some.inj ht).symm
    · exact hfault.elim
  | _ => cases ht

end Disk

end SensorCache
