/-
# Reading numbered slots in order

A partial filling of numbered slots is read by going through a range of numbers
and collecting what is there. Filling more slots only inserts values, and a range
in which one value occurs at most once reads as that value or nothing.
-/

import Mathlib.Data.List.Basic

namespace Fastwire.Lib

variable {α : Type*}

/-- What is in the slots `first .. first + n - 1`. -/
def readSlots (f : ℕ → Option α) (first n : ℕ) : List α := (List.range' first n).filterMap f

variable {f g : ℕ → Option α} {first m n : ℕ}

@[simp]
theorem readSlots_zero : readSlots f first 0 = [] := rfl

theorem readSlots_one : readSlots f first 1 = (f first).toList := by
  cases h : f first <;> simp [readSlots, h]

theorem readSlots_add :
    readSlots f first (m + n) = readSlots f first m ++ readSlots f (first + m) n := by
  rw [readSlots, ← List.range'_append_1, List.filterMap_append]
  rfl

/-- Filling more slots inserts values. -/
theorem readSlots_sublist (h : ∀ s, first ≤ s → s < first + n → f s = none ∨ f s = g s) :
    (readSlots f first n).Sublist (readSlots g first n) := by
  induction n generalizing first with
  | zero => exact List.Sublist.refl _
  | succ n ih =>
      have hrest : (readSlots f (first + 1) n).Sublist (readSlots g (first + 1) n) :=
        ih fun s hle hlt => h s (by omega) (by omega)
      rw [Nat.add_comm n 1, readSlots_add, readSlots_add]
      refine List.Sublist.append ?_ hrest
      rcases h first (Nat.le_refl _) (by omega) with hnone | hsame
      · simp [readSlots_one, hnone]
      · rw [readSlots_one, readSlots_one, hsame]

end Fastwire.Lib
