import SensorCache.Proofs.Cache.Ownership

/-!
# What a process believes to hold

A process believes to hold the lock while it remembers a lock file that it created and there is a
lock file. Nothing tells it that its file was taken away, so it goes on believing until it looks at
the times of files, and a file that another process makes meanwhile passes for its own: it has been
robbed (`Robbed`). In every other state what it believes is true, and a shutdown removes a lock file
(`isHeld_iff`).
-/

namespace SensorCache

open Disk

variable {d : Disk} {dir : Path} {o : Ownership}

namespace UpdateLock

theorem run_isHeld (l : UpdateLock) (o : Ownership) (d : Disk) :
    (l.isHeld o).run d = (o.holding.isSome && decide (d.Present l.path), d) := by
  unfold isHeld
  split
  · next ho =>
    have hlooked : l.isLocked.run d = ((d.view l.path).toOption.isSome, d) := by
      simp only [isLocked, Routine.run_bind, run_look, Routine.run_pure]
    have hpresent : (d.view l.path).toOption.isSome = decide (d.Present l.path) := by
      rw [Bool.eq_iff_iff, decide_eq_true_iff]
      unfold Present
      cases d.view l.path <;> simp [Except.toOption]
    rw [hlooked, hpresent, ho, Bool.true_and]
  · next ho =>
    rw [Bool.not_eq_true] at ho
    rw [ho, Bool.false_and, Routine.run_pure]

end UpdateLock

namespace LockStory

variable {s : LockStory}

/-- Whether an event lets the process go on believing what it did. A process that acquires and finds
a lock file, or releases another guard than its newest, looks at no file that it has made. -/
def Unnoticed (l : UpdateLock) (s : LockStory) : LockEvent → Prop
  | .acquire => s.disk.Present l.path
  | .release n => s.guards.length ≠ n + 1
  | .releaseIfHeld | .forceRelease => False
  | .othersAcquire | .othersRemove | .clock _ => True

/-- The process's lock file was taken away by others, and it has not noticed. -/
inductive Robbed (dir : Path) : LockStory → Prop where
  | taken {s : LockStory} {n : Nat} : Reaches dir s → s.maker = some (.ours n) →
      Robbed dir (s.happen (.inDirectory dir) .othersRemove)
  | still {s : LockStory} (v : LockEvent) : Robbed dir s → Unnoticed (.inDirectory dir) s v →
      Fresh (.inDirectory dir) s (s.happen (.inDirectory dir) v) →
      Robbed dir (s.happen (.inDirectory dir) v)

theorem Attributed.present_iff (h : Attributed dir s) :
    s.disk.Present (UpdateLock.inDirectory dir).path ↔ s.maker ≠ none := by
  constructor
  · exact fun hp hn => (h.nobodys hn).not_present hp
  · intro hn
    cases hmaker : s.maker with
    | none => exact absurd hmaker hn
    | some who =>
      cases who with
      | ours n =>
        obtain ⟨t, ht, -⟩ := h.ours n hmaker
        exact ht.present
      | others =>
        obtain ⟨t, ht, -⟩ := h.others hmaker
        exact ht.present

theorem Robbed.reaches (h : Robbed dir s) : Reaches dir s := by
  induction h with
  | taken hs hn =>
    refine .next .othersRemove hs (.inl (hs.attributed.present_iff.mpr ?_))
    rw [hn]
    exact Option.some_ne_none _
  | still v _ _ hfresh ih => exact .next v ih hfresh

/-! ## What is remembered -/

/-- What a process remembers is a file of its newest guard. -/
def Newest (s : LockStory) : Prop :=
  ∀ k, s.ownership.holding = some k → k.generation = s.guards.length

/-- Under another guard than the newest nothing is held. -/
theorem Newest.heldBy_eq_none (hnewest : Newest s) (h : Attributed dir s) {n : Nat} {g : LockGuard}
    (hg : s.guards[n]? = some g) (hn : s.guards.length ≠ n + 1) : s.ownership.heldBy g = none := by
  cases hk : s.ownership.heldBy g with
  | none => rfl
  | some k =>
    obtain ⟨hk, hgen⟩ := holding_of_heldBy hk
    exact absurd ((hnewest k hk).symm.trans (hgen.trans (h.guards n g hg))) hn

/-- An event that is not noticed changes nothing that is remembered, and it leaves this process's
lock file, unless others take it away. -/
theorem Newest.unnoticed (hnewest : Newest s) (h : Attributed dir s) {v : LockEvent}
    (hv : Unnoticed (.inDirectory dir) s v) :
    (s.happen (.inDirectory dir) v).ownership = s.ownership ∧
      (s.happen (.inDirectory dir) v).guards = s.guards ∧
      ∀ n, s.maker = some (.ours n) →
        (s.happen (.inDirectory dir) v).maker = some (.ours n) ∨ v = .othersRemove := by
  -- What is done over a lock file that stays leaves it to its maker.
  have hstays : ∀ {who o n}, s.maker = some (.ours n) →
      (s.after (.inDirectory dir) who o s.disk).maker = some (.ours n) := by
    intro who o n hn
    obtain ⟨t, ht, -⟩ := h.ours n hn
    rw [after_same _ ht]
    exact hn
  cases v with
  | acquire =>
    obtain ⟨t, ht⟩ := h.workable.missing_or_file.resolve_left fun hm => hm.not_present hv
    simp only [happen, UpdateLock.run_tryAcquire_file h.workable ht s.ownership]
    exact ⟨rfl, rfl, fun n hn => .inl (hstays hn)⟩
  | release m =>
    simp only [happen]
    cases hg : s.guards[m]? with
    | none => exact ⟨rfl, rfl, fun n hn => .inl hn⟩
    | some g =>
      simp only [UpdateLock.run_release, hnewest.heldBy_eq_none h hg hv]
      exact ⟨rfl, rfl, fun n hn => .inl (hstays hn)⟩
  | releaseIfHeld => exact hv.elim
  | forceRelease => exact hv.elim
  | othersAcquire =>
    refine ⟨rfl, rfl, fun n hn => .inl ?_⟩
    obtain ⟨t, ht, -⟩ := h.ours n hn
    simp only [happen, UpdateLock.run_tryAcquire_file h.workable ht]
    exact hstays hn
  | othersRemove => exact ⟨rfl, rfl, fun n hn => .inr rfl⟩
  | clock t => exact ⟨rfl, rfl, fun n hn => .inl hn⟩

/-- An event that is noticed makes a new lock file, or leaves nothing that is remembered. -/
theorem Newest.noticed (hnewest : Newest s) (h : Attributed dir s) {v : LockEvent}
    (hv : ¬Unnoticed (.inDirectory dir) s v) :
    (∃ t n, (s.happen (.inDirectory dir) v).ownership = s.ownership.acquired t ∧
      (s.happen (.inDirectory dir) v).guards.length = s.guards.length + 1 ∧
      (s.happen (.inDirectory dir) v).maker = some (.ours n)) ∨
    (s.happen (.inDirectory dir) v).ownership.holding = none := by
  cases v with
  | acquire =>
    obtain hm | ⟨t, ht⟩ := h.workable.missing_or_file
    · obtain ⟨t, e, hrun, -, ht⟩ := UpdateLock.run_tryAcquire_missing h.workable hm s.ownership
      refine .inl ⟨t, s.guards.length, ?_⟩
      simp only [happen, hrun]
      rw [after_made _ hm ht]
      exact ⟨rfl, List.length_append, rfl⟩
    · exact absurd ht.present hv
  | release n =>
    have hlast : s.guards.length = n + 1 := Decidable.not_not.mp hv
    obtain ⟨g, hg⟩ : ∃ g, s.guards[n]? = some g := by
      rw [List.getElem?_eq_getElem (by omega)]
      exact ⟨_, rfl⟩
    refine .inr ?_
    simp only [happen, hg, UpdateLock.run_release, after]
    cases hk : s.ownership.holding with
    | none => cases s.ownership.heldBy g <;> simp [Ownership.cleared, hk]
    | some k =>
      have hgen : k.generation = g.generation := by rw [hnewest k hk, hlast, h.guards n g hg]
      rw [heldBy_of_holding hk hgen]
      rfl
  | releaseIfHeld =>
    refine .inr ?_
    simp only [happen, UpdateLock.run_releaseIfHeld]
    rfl
  | forceRelease =>
    refine .inr ?_
    simp only [happen, UpdateLock.run_forceRelease]
    rfl
  | othersAcquire => exact absurd trivial hv
  | othersRemove => exact absurd trivial hv
  | clock t => exact absurd trivial hv

theorem Reaches.newest (h : Reaches dir s) : Newest s := by
  induction h with
  | start hw => exact fun _ hk => nomatch hk
  | @next s v hs _ ih =>
    intro k hk
    by_cases hv : Unnoticed (.inDirectory dir) s v
    · obtain ⟨ho, hg, -⟩ := ih.unnoticed hs.attributed hv
      rw [ho] at hk
      rw [hg]
      exact ih k hk
    · rcases ih.noticed hs.attributed hv with ⟨t, n, ho, hg, -⟩ | hnone
      · rw [ho] at hk
        cases hk
        rw [hg, ← hs.attributed.generations]
      · rw [hnone] at hk
        cases hk

/-- Who is robbed remembers a lock file. -/
theorem Robbed.remembers (h : Robbed dir s) : s.ownership.holding.isSome = true := by
  induction h with
  | taken hs hn =>
    obtain ⟨t, -, hholding⟩ := hs.attributed.ours _ hn
    exact Option.isSome_iff_exists.mpr ⟨_, hholding⟩
  | still v h hv _ ih => rwa [(h.reaches.newest.unnoticed h.reaches.attributed hv).1]

/-- A lock file that is remembered is there as this process's, or was taken from it. -/
theorem Reaches.ours_or_robbed (h : Reaches dir s) (hsome : s.ownership.holding.isSome = true) :
    (∃ n, s.maker = some (.ours n)) ∨ Robbed dir s := by
  induction h with
  | start hw => cases hsome
  | @next s v hs hfresh ih =>
    by_cases hv : Unnoticed (.inDirectory dir) s v
    · obtain ⟨ho, -, hmaker⟩ := hs.newest.unnoticed hs.attributed hv
      rw [ho] at hsome
      rcases ih hsome with ⟨n, hn⟩ | hrobbed
      · rcases hmaker n hn with hn' | rfl
        · exact .inl ⟨n, hn'⟩
        · exact .inr (.taken hs hn)
      · exact .inr (.still v hrobbed hv hfresh)
    · rcases hs.newest.noticed hs.attributed hv with ⟨t, n, -, -, hn⟩ | hnone
      · exact .inl ⟨n, hn⟩
      · rw [hnone] at hsome
        cases hsome

/-! ## What is believed -/

/-- In every history of a lock, with others who make and remove its file, a process believes to hold
the lock exactly when the lock file is one that it has made, or one of others after it was robbed
without noticing. What a shutdown removes is a file that the process has made and no other, so the
two agree but for the files of others in the place of a stolen one. -/
theorem isHeld_iff (h : Reaches dir s) :
    (∃ b, ((UpdateLock.inDirectory dir).isHeld s.ownership).run s.disk = (b, s.disk) ∧
      (b = true ↔ (∃ n, s.maker = some (.ours n)) ∨ s.maker = some .others ∧ Robbed dir s)) ∧
    RemovesJust (.inDirectory dir) s (∃ n, s.maker = some (.ours n))
      ((UpdateLock.inDirectory dir).releaseIfHeld s.ownership) := by
  have ha := h.attributed
  constructor
  · refine ⟨_, UpdateLock.run_isHeld _ _ _, ?_⟩
    rw [Bool.and_eq_true, decide_eq_true_iff, ha.present_iff]
    constructor
    · rintro ⟨hsome, hthere⟩
      cases hmaker : s.maker with
      | none => exact absurd hmaker hthere
      | some who =>
        cases who with
        | ours n => exact .inl ⟨n, rfl⟩
        | others =>
          rcases h.ours_or_robbed hsome with ⟨n, hn⟩ | hrobbed
          · rw [hmaker] at hn
            cases hn
          · exact .inr ⟨rfl, hrobbed⟩
    · rintro (⟨n, hn⟩ | ⟨hothers, hrobbed⟩)
      · obtain ⟨t, -, hholding⟩ := ha.ours n hn
        rw [hholding, hn]
        exact ⟨rfl, Option.some_ne_none _⟩
      · rw [hothers]
        exact ⟨hrobbed.remembers, Option.some_ne_none _⟩
  · refine ha.removesJust s.ownership.holding ?_ (UpdateLock.run_releaseIfHeld _ _ _)
    constructor
    · rintro ⟨n, hn⟩
      obtain ⟨t, ht, hholding⟩ := ha.ours n hn
      exact ⟨_, hholding, ht⟩
    · rintro ⟨k, hk, hfile⟩
      obtain ⟨n, hn, -⟩ := ha.ours_of_held hk hfile
      exact ⟨n, hn⟩

/-- A process whose second lock file was taken away, and replaced by another process's, still
believes to hold the lock, so it has been robbed. -/
theorem isHeld_iff_replaced :
    ((UpdateLock.inDirectory ⟨"c"⟩).isHeld replacedTwice.ownership).run replacedTwice.disk =
      (true, replacedTwice.disk) ∧ Robbed ⟨"c"⟩ replacedTwice := by
  obtain ⟨⟨b, hrun, hb⟩, -⟩ := isHeld_iff reaches_replacedTwice
  have hmaker : replacedTwice.maker = some .others := by decide +kernel
  have hheld : (((UpdateLock.inDirectory ⟨"c"⟩).isHeld replacedTwice.ownership).run
      replacedTwice.disk).1 = true := by decide +kernel
  rw [hrun] at hheld
  obtain rfl : b = true := hheld
  rcases hb.mp rfl with ⟨n, hn⟩ | ⟨-, hrobbed⟩
  · rw [hmaker] at hn
    cases hn
  · exact ⟨hrun, hrobbed⟩

/-- What is believed to be held need not be the process's own; a shutdown then removes nothing. -/
theorem isHeld_after_theft :
    Reaches ⟨"c"⟩ replacedTwice ∧ replacedTwice.maker = some .others ∧
      (((UpdateLock.inDirectory ⟨"c"⟩).isHeld replacedTwice.ownership).run
        replacedTwice.disk).1 = true ∧
      (((UpdateLock.inDirectory ⟨"c"⟩).releaseIfHeld replacedTwice.ownership).run
        replacedTwice.disk).1.1 = .ok false ∧
      (((UpdateLock.inDirectory ⟨"c"⟩).releaseIfHeld replacedTwice.ownership).run
        replacedTwice.disk).2.Present (UpdateLock.inDirectory ⟨"c"⟩).path := by
  refine ⟨reaches_replacedTwice, ?_, ?_, ?_, ?_⟩ <;> decide +kernel

end LockStory

end SensorCache
