import Mathlib.Tactic.SplitIfs

/-!
# The order of bytes

Texts are compared by code points. UTF-8 is made so that their bytes then compare alike: of two
characters the lesser has the lesser bytes, whatever follows.
-/

namespace SensorCache.Text

open List String

theorem utf8EncodeChar_ne_nil (c : Char) : utf8EncodeChar c ≠ [] := by
  unfold utf8EncodeChar
  dsimp only
  split_ifs <;> simp

theorem utf8EncodeChar_lt {c d : Char} (h : c < d) (r s : List UInt8) :
    utf8EncodeChar c ++ r < utf8EncodeChar d ++ s := by
  have hcd : c.val.toNat < d.val.toNat := h
  have hmax : d.val.toNat < 0x110000 := by
    rcases d.valid with h | h <;> omega
  unfold utf8EncodeChar
  dsimp only
  generalize c.val.toNat = m at *
  generalize d.val.toNat = n at *
  -- The bytes of a character are made of its digits to base 64.
  have hdigits : ∀ k, k / 4096 = k / 64 / 64 ∧ k / 262144 = k / 64 / 64 / 64 := by omega
  rw [(hdigits m).1, (hdigits m).2, (hdigits n).1, (hdigits n).2]
  split_ifs <;>
    simp only [cons_append, nil_append, cons_lt_cons_iff, UInt8.lt_iff_toNat_lt,
      ← UInt8.toNat_inj, UInt8.toNat_ofNat'] <;> omega

theorem flatMap_utf8EncodeChar_lt : ∀ {a b : List Char}, a < b →
    a.flatMap utf8EncodeChar < b.flatMap utf8EncodeChar
  | [], [], h => absurd h (List.lt_irrefl _)
  | [], c :: b, _ => by
    rw [flatMap_cons]
    cases hc : utf8EncodeChar c with
    | nil => exact absurd hc (utf8EncodeChar_ne_nil c)
    | cons x s => exact nil_lt_cons _ _
  | c :: a, [], h => absurd h (not_lt_nil _)
  | c :: a, d :: b, h => by
    rw [flatMap_cons, flatMap_cons]
    rcases cons_lt_cons_iff.mp h with hlt | ⟨rfl, htail⟩
    · exact utf8EncodeChar_lt hlt _ _
    · exact append_left_lt (flatMap_utf8EncodeChar_lt htail)

/-- The bytes of a text. -/
def bytes (s : String) : List UInt8 := s.toUTF8.data.toList

theorem bytes_eq (s : String) : bytes s = s.toList.flatMap utf8EncodeChar := by
  rw [bytes, toUTF8_eq_toByteArray, ← ofList_toList (s := s), toByteArray_ofList]
  simp [utf8Encode]

/-- The lesser of two texts has the lesser bytes. -/
theorem bytes_lt {a b : String} (h : a < b) : bytes a < bytes b := by
  rw [bytes_eq, bytes_eq]
  exact flatMap_utf8EncodeChar_lt h

end SensorCache.Text
