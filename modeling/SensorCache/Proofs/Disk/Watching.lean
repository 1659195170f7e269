import SensorCache.Disk.Routine

/-!
# Routines under watch

A way to tell what a routine does before it does it, whatever the disk answers: a watch remembers
something of the operations so far and of their answers, and says which operation may come next. A
routine obeys it if each operation that it may come to is allowed (`Routine.Obeys`). Unlike what is
said of how a routine ends, this holds of the rest of a routine at every point at which others may
act.
-/

namespace SensorCache

/-- What is remembered of operations and their answers, and which operations it allows. -/
structure Watch (μ : Type) where
  allows : μ → Disk.Op → Prop
  note : μ → (o : Disk.Op) → o.Answer → μ

variable {μ α β ε δ : Type} {w : Watch μ} {m : μ}

namespace Routine

/-- Whatever the answers are, the operations are allowed and the result comes to `post`. -/
def Obeys (w : Watch μ) (post : μ → α → Prop) : Routine α → μ → Prop
  | .done a, m => post m a
  | .step o next, m => w.allows m o ∧ ∀ x, (next x).Obeys w post (w.note m o x)

variable {post post' : μ → α → Prop} {after : μ → β → Prop}

theorem obeys_op {o : Disk.Op} {post : μ → o.Answer → Prop} :
    (op o).Obeys w post m ↔ w.allows m o ∧ ∀ x, post (w.note m o x) x := .rfl

theorem Obeys.bind {r : Routine α} {f : α → Routine β} (h : r.Obeys w post m)
    (hf : ∀ m a, post m a → (f a).Obeys w after m) : (r.bind f).Obeys w after m := by
  induction r generalizing m with
  | done a => exact hf m a h
  | step o next ih => exact ⟨h.1, fun x => ih x (h.2 x)⟩

end Routine

namespace Attempt

def Obeys (w : Watch μ) (post : μ → Except ε α → Prop) (r : Attempt ε α) (m : μ) : Prop :=
  r.outcome.Obeys w post m

variable {post : μ → Except ε α → Prop} {after : μ → Except ε β → Prop}

/-- What follows is done only if there was no failure. -/
theorem Obeys.bind {r : Attempt ε α} {f : α → Attempt ε β} (h : r.Obeys w post m)
    (hf : ∀ m a, post m (.ok a) → (f a).Obeys w after m)
    (hfail : ∀ m x, post m (.error x) → after m (.error x)) : (r >>= f).Obeys w after m :=
  Routine.Obeys.bind (r := r.outcome) h fun m x hx =>
    match x with
    | .ok a => hf m a hx
    | .error y => hfail m y hx

theorem Obeys.always {r : Routine α} {post : μ → α → Prop} (h : r.Obeys w post m) :
    (always r : Attempt ε α).Obeys w (fun m x => ∃ a, x = .ok a ∧ post m a) m :=
  Routine.Obeys.bind h fun _ a ha => ⟨a, rfl, ha⟩

theorem Obeys.caught {r : Attempt δ α} {post : μ → Except δ α → Prop} (h : r.Obeys w post m) :
    (caught r : Attempt ε (Except δ α)).Obeys w (fun m x => ∃ y, x = .ok y ∧ post m y) m :=
  Obeys.always h

end Attempt

namespace Disk

/-- Looking at something. -/
theorem obeys_look {p : Path} {post : μ → Option Node → Prop} (hallows : w.allows m (.find p))
    (hpost : ∀ x : Except OsError Node, post (w.note m (.find p) x) x.toOption) :
    (look p).Obeys w post m :=
  ⟨hallows, hpost⟩

/-- What allows looking and making directories, and is not changed by these, allows making a
directory with all those it lies in. -/
theorem obeys_ensureDirectory {idle : μ → Prop}
    (hmake : ∀ q m, idle m → w.allows m (.makeDirectory q) ∧ ∀ x, idle (w.note m (.makeDirectory q) x))
    (hfind : ∀ q m, idle m → w.allows m (.find q) ∧ ∀ x, idle (w.note m (.find q) x)) (p : Path)
    (hm : idle m) : (ensureDirectory p).Obeys w (fun m _ => idle m) m := by
  have hone : ∀ q m, idle m → (makeDirectory q).Obeys w (fun m _ => idle m) m :=
    fun q m hm => hmake q m hm
  have hsettle : ∀ q x m, idle m → (settleDirectory q x).Obeys w (fun m _ => idle m) m := by
    intro q x m hm
    have hlook : (look q).Obeys w (fun m _ => idle m) m :=
      obeys_look (hfind q m hm).1 (hfind q m hm).2
    refine (Attempt.Obeys.always hlook).bind (fun m y hy => ?_) fun m y hy => ?_
    · obtain ⟨z, hz, hm⟩ := hy
      split
      · split
        · exact hm
        · exact hm
      · exact hm
    · obtain ⟨z, hz, -⟩ := hy
      cases hz
  unfold ensureDirectory
  generalize p.text.length + 1 = n
  induction n generalizing p m with
  | zero => exact hm
  | succ n ih =>
    unfold makeDirectories
    split
    · exact hm
    · refine (hone p m hm).caught.bind (fun m x hx => ?_) fun m x hx => ?_
      · obtain ⟨y, -, hm⟩ := hx
        split
        · exact hm
        · refine (ih _ hm).bind (fun m _ hm => ?_) fun _ _ hm => hm
          refine (hone p m hm).caught.bind (fun m x hx => ?_) fun m x hx => ?_
          · obtain ⟨y, -, hm⟩ := hx
            split
            · exact hm
            · exact hsettle _ _ _ hm
          · obtain ⟨y, hy, -⟩ := hx
            cases hy
        · exact hsettle _ _ _ hm
      · obtain ⟨y, hy, -⟩ := hx
        cases hy

end Disk

end SensorCache
