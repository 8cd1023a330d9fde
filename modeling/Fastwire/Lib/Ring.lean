/-
# Rings

A ring writes its entries round and round into a fixed number of cells; once all cells
are in use, every write replaces the oldest entry. Read from the newest entry backwards
a ring is a list to which a write adds at the front and from which it drops the end.
-/

import Mathlib.Data.List.Basic

namespace Fastwire.Lib.Ring

universe u

variable {α : Type u} {n head : ℕ}

def next (n i : ℕ) : ℕ := if i + 1 < n then i + 1 else 0

/-- The cell of the entry that is `i` writes older than the newest one, with the next
write going to `head`. -/
def slot (n head i : ℕ) : ℕ := if i + 1 ≤ head then head - (i + 1) else n + head - (i + 1)

theorem slot_lt {i : ℕ} (hhead : head < n) : slot n head i < n := by
  unfold slot
  split <;> omega

theorem slot_injective {i j : ℕ} (hi : i < n) (hj : j < n)
    (heq : slot n head i = slot n head j) : i = j := by
  unfold slot at heq
  split at heq <;> split at heq <;> omega

theorem next_lt (hhead : head < n) : next n head < n := by
  unfold next
  split <;> omega

theorem slot_next_zero (hhead : head < n) : slot n (next n head) 0 = head := by
  unfold slot next
  split <;> split <;> omega

/-- After a write every entry is one write older. -/
theorem slot_next_succ {i : ℕ} (hhead : head < n) (hi : i + 1 < n) :
    slot n (next n head) (i + 1) = slot n head i := by
  unfold slot next
  split <;> split <;> split <;> omega

theorem slot_ne_head {i : ℕ} (hi : i + 1 < n) : slot n head i ≠ head := by
  unfold slot
  split <;> omega

/-- One entry further back. -/
theorem slot_succ {i : ℕ} (hhead : head < n) (hi : i + 1 < n) :
    slot n head (i + 1) = if slot n head i = 0 then n - 1 else slot n head i - 1 := by
  unfold slot
  split <;> split <;> split <;> omega

/-- The entries, newest first, are those of the list. -/
structure Shows (cells : List α) (head : ℕ) (entries : List α) : Prop where
  head_lt : head < cells.length
  length_le : entries.length ≤ cells.length
  cell_eq : ∀ i < entries.length, cells[slot cells.length head i]? = entries[i]?

variable {cells entries : List α}

/-- An empty ring shows nothing. -/
theorem shows_nil (hhead : head < cells.length) : Shows cells head [] where
  head_lt := hhead
  length_le := Nat.zero_le _
  cell_eq := by simp

/-- A write puts an entry in front and drops what is over. -/
theorem Shows.push (h : Shows cells head entries) (a : α) :
    Shows (cells.set head a) (next cells.length head) ((a :: entries).take cells.length) where
  head_lt := by
    rw [List.length_set]
    exact next_lt h.head_lt
  length_le := by
    rw [List.length_set]
    exact List.length_take_le _ _
  cell_eq i hi := by
    have hhead := h.head_lt
    rw [List.length_take, List.length_cons] at hi
    rw [List.length_set, List.getElem?_take_of_lt (by omega)]
    cases i with
    | zero =>
        rw [slot_next_zero hhead, List.getElem?_set_self hhead]
        rfl
    | succ i =>
        have hne : head ≠ slot cells.length head i := Ne.symm (slot_ne_head (by omega))
        rw [slot_next_succ hhead (by omega), List.getElem?_set_ne hne, List.getElem?_cons_succ,
          h.cell_eq i (by omega)]

/-- Replacing an entry. -/
theorem Shows.update (h : Shows cells head entries) {i : ℕ} (hi : i < entries.length) (a : α) :
    Shows (cells.set (slot cells.length head i) a) head (entries.set i a) where
  head_lt := by
    rw [List.length_set]
    exact h.head_lt
  length_le := by
    rw [List.length_set, List.length_set]
    exact h.length_le
  cell_eq j hj := by
    have hhead := h.head_lt
    have hlength := h.length_le
    rw [List.length_set] at hj
    rw [List.length_set]
    by_cases hij : i = j
    · subst hij
      rw [List.getElem?_set_self (slot_lt hhead), List.getElem?_set_self hi]
    · have hne : slot cells.length head i ≠ slot cells.length head j := by
        intro heq
        exact hij (slot_injective (by omega) (by omega) heq)
      rw [List.getElem?_set_ne hne, List.getElem?_set_ne hij, h.cell_eq j hj]

end Fastwire.Lib.Ring
