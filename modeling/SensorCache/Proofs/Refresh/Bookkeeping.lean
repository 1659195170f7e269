import SensorCache.Proofs.Refresh.Keeping

/-!
# Handles of jobs

A keeper has the handles of its jobs. What is done to one leaves the ids of all as they are
(`Keeper.ids_updateJob`), and an interruption leaves their states, too (`Keeper.states_interrupt`).
-/

namespace SensorCache

namespace Keeper

variable {k k' : Keeper}

/-- The ids of the jobs. -/
def ids (k : Keeper) : List Nat := k.jobs.map JobHandle.id

/-- The jobs with their states. -/
def states (k : Keeper) : List (Nat × JobState) := k.jobs.map fun j => (j.id, j.state)

theorem ids_of_states (hs : k'.states = k.states) : k'.ids = k.ids := by
  have hfst : ∀ k : Keeper, k.ids = k.states.map Prod.fst := fun k => by
    unfold ids states
    rw [List.map_map]
    rfl
  rw [hfst, hfst, hs]

/-- Where no job changed its state, one that was idle is. -/
theorem state_of_states (hs : k'.states = k.states) {id : Nat} {j j' : JobHandle}
    (hj : k.job? id = some j) (hj' : k'.job? id = some j') : j'.state = j.state := by
  have hfind : ∀ k : Keeper, (k.job? id).map JobHandle.state =
      (k.states.find? fun p => p.1 == id).map Prod.snd := by
    intro k
    unfold states job?
    rw [List.find?_map, Option.map_map]
    rfl
  have hsame := (hfind k').trans ((congrArg _ (congrArg _ hs)).trans (hfind k).symm)
  rw [hj, hj'] at hsame
  exact Option.some.inj hsame

theorem mem_ids_iff {id : Nat} : id ∈ k.ids ↔ ∃ j, k.job? id = some j := by
  unfold ids job?
  rw [List.mem_map, ← Option.isSome_iff_exists, List.find?_isSome]
  simp only [beq_iff_eq]

theorem ids_updateJob (k : Keeper) (id : Nat) {f : JobHandle → JobHandle}
    (hf : ∀ j, (f j).id = j.id) : (k.updateJob id f).ids = k.ids := by
  show (k.jobs.map _).map _ = k.jobs.map _
  rw [List.map_map]
  refine List.map_congr_left fun j _ => ?_
  show (if j.id = id then f j else j).id = j.id
  split
  · exact hf j
  · rfl

theorem ids_setJob (k : Keeper) (j : JobHandle) : (k.setJob j).ids = k.ids := by
  show (k.jobs.map _).map _ = k.jobs.map _
  rw [List.map_map]
  refine List.map_congr_left fun i _ => ?_
  show (if i.id = j.id then j else i).id = i.id
  split
  · next hid => exact hid.symm
  · rfl

theorem ids_addJob (k : Keeper) (id : Nat) (now : Instant) :
    (k.addJob id now).ids = k.ids ++ [id] := by
  show (k.jobs ++ [_]).map _ = k.jobs.map _ ++ _
  rw [List.map_append, List.map_singleton]
  split <;> rfl

theorem ids_stop (k : Keeper) : k.stop.ids = k.ids := by
  show (k.jobs.map _).map _ = k.jobs.map _
  rw [List.map_map]
  rfl

theorem job?_updateJob (k : Keeper) (id : Nat) {f : JobHandle → JobHandle}
    (hf : ∀ j, (f j).id = j.id) : (k.updateJob id f).job? id = (k.job? id).map f := by
  show (k.jobs.map _).find? _ = _
  rw [List.find?_map]
  have hsame : ((fun j : JobHandle => j.id == id) ∘ fun j => if j.id = id then f j else j) =
      fun j => j.id == id := by
    funext j
    show ((if j.id = id then f j else j).id == id) = _
    split
    · rw [hf j]
    · rfl
  rw [hsame]
  cases hfound : k.jobs.find? fun j => j.id == id with
  | none => simp [job?, hfound]
  | some j =>
    have hid : (j.id == id) = true := List.find?_some (p := fun j : JobHandle => j.id == id) hfound
    simp [job?, hfound, beq_iff_eq.mp hid]

theorem states_interrupt (k : Keeper) (id : Nat) :
    (k.updateJob id JobHandle.interrupt).states = k.states := by
  show (k.jobs.map _).map _ = k.jobs.map _
  rw [List.map_map]
  refine List.map_congr_left fun j _ => ?_
  show ((if j.id = id then j.interrupt else j).id, (if j.id = id then j.interrupt else j).state) = _
  split <;> rfl

end Keeper

end SensorCache
