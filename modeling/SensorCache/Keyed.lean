/-!
# Maps from texts

A finite map from texts, kept as a list in strictly ascending order of keys. Keys are compared by
code points, which is also the order of their UTF-8 bytes. There is one list for each map, so two
maps with the same entries are equal.
-/

namespace SensorCache

/-- Whether the keys of a list ascend strictly. -/
def Ascending {α : Type} : List (String × α) → Prop
  | [] => True
  | [_] => True
  | a :: b :: r => a.1 < b.1 ∧ Ascending (b :: r)

/-- A map from texts to `α`. -/
structure Keyed (α : Type) where
  entries : List (String × α)
  ascending : Ascending entries

namespace Keyed

variable {α : Type}

instance [DecidableEq α] : DecidableEq (Keyed α) := fun a b =>
  if h : a.entries = b.entries then
    isTrue (by cases a; cases b; cases h; rfl)
  else isFalse fun e => h (by rw [e])

def empty : Keyed α := ⟨[], trivial⟩

instance : Inhabited (Keyed α) := ⟨empty⟩

def size (m : Keyed α) : Nat := m.entries.length

def isEmpty (m : Keyed α) : Bool := m.entries.isEmpty

def keys (m : Keyed α) : List String := m.entries.map (·.1)

def values (m : Keyed α) : List α := m.entries.map (·.2)

def get? (m : Keyed α) (k : String) : Option α := m.entries.lookup k

/-- Puts an entry into an ascending list, in the place of one with its key. -/
def insertEntry (k : String) (v : α) : List (String × α) → List (String × α)
  | [] => [(k, v)]
  | (l, w) :: r =>
    if k < l then (k, v) :: (l, w) :: r
    else if k = l then (k, v) :: r
    else (l, w) :: insertEntry k v r

theorem ascending_tail {a : String × α} {r : List (String × α)} (h : Ascending (a :: r)) :
    Ascending r := by
  cases r with
  | nil => trivial
  | cons b r => exact h.2

theorem lt_of_not_lt_of_ne {a b : String} (h : ¬a < b) (hne : ¬a = b) : b < a := by
  rcases Std.lt_trichotomy a b with h1 | h1 | h1
  · exact absurd h1 h
  · exact absurd h1 hne
  · exact h1

/-- An insertion keeps a list ascending: the new entry stands before the first greater key. -/
theorem ascending_insertEntry (k : String) (v : α) :
    ∀ l : List (String × α), Ascending l → Ascending (insertEntry k v l)
  | [], _ => trivial
  | [(l, w)], _ => by
    simp only [insertEntry]
    split
    · next h => exact ⟨h, trivial⟩
    · next h =>
      split
      · trivial
      · next hne => exact ⟨lt_of_not_lt_of_ne h hne, trivial⟩
  | (l, w) :: (m, x) :: r, h => by
    have ih := ascending_insertEntry k v ((m, x) :: r) h.2
    simp only [insertEntry] at ih ⊢
    split
    · next hlt => exact ⟨hlt, h⟩
    · next hlt =>
      split
      · next heq => subst heq; exact h
      · next hne =>
        have hl : l < k := lt_of_not_lt_of_ne hlt hne
        split
        · next hkm =>
          rw [if_pos hkm] at ih
          exact ⟨hl, ih⟩
        · next hkm =>
          rw [if_neg hkm] at ih
          split
          · next hkm2 =>
            rw [if_pos hkm2] at ih
            exact ⟨hl, ih⟩
          · next hkm2 =>
            rw [if_neg hkm2] at ih
            exact ⟨h.1, ih⟩

/-- Puts an entry in, in the place of an earlier one with its key. -/
def insert (m : Keyed α) (k : String) (v : α) : Keyed α :=
  ⟨insertEntry k v m.entries, ascending_insertEntry k v m.entries m.ascending⟩

/-- All entries of a list; of two with one key the later is kept. -/
def ofList (l : List (String × α)) : Keyed α := l.foldl (fun m e => m.insert e.1 e.2) empty

/-- The entries of both maps, those of `b` in the place of those of `a` with their key. -/
def overlay (a b : Keyed α) : Keyed α := b.entries.foldl (fun m e => m.insert e.1 e.2) a

end Keyed

end SensorCache
