/-
# Sliding windows

Of a growing set of positive numbers a receiver often keeps only the largest
one, the *top*, and one bit for each of the numbers just below it. This module
says what it means for such a record to be exact and how the two moves that
maintain it act: advancing the top by a shift, and marking a number inside the
window.

Offsets are counted downwards from the top in truncated subtraction. An offset
beyond the top lands on `0`, which is never a member, so no side condition on
small tops is needed anywhere.
-/

import Mathlib.Data.Set.Insert

namespace Fastwire.Lib

/-- The record `(top, bit)` is exact for `seen` on a window of the given width:
`top` is the largest member, and bit `d` tells whether `top - d` is one. -/
structure Tracks (width top : ℕ) (bit : ℕ → Prop) (seen : Set ℕ) : Prop where
  zero_notMem : 0 ∉ seen
  le_top : ∀ n ∈ seen, n ≤ top
  top_mem : top ≠ 0 → top ∈ seen
  bit_iff : ∀ d < width, bit d ↔ top - d ∈ seen

namespace Tracks

variable {width top n : ℕ} {bit bit' : ℕ → Prop} {seen : Set ℕ}

/-- Nothing seen yet. -/
theorem empty (hbit : ∀ d < width, ¬ bit d) : Tracks width 0 bit ∅ where
  zero_notMem := Set.notMem_empty 0
  le_top := by simp
  top_mem h := absurd rfl h
  bit_iff d hd := by simpa using hbit d hd

/-- Inside the window membership is exactly what the bit says. -/
theorem mem_iff (h : Tracks width top bit seen) (hle : n ≤ top) (hin : top - n < width) :
    n ∈ seen ↔ bit (top - n) := by
  rw [h.bit_iff _ hin, Nat.sub_sub_self hle]

/-- A number above the top has not been seen. -/
theorem notMem_of_top_lt (h : Tracks width top bit seen) (hlt : top < n) : n ∉ seen := by
  intro hmem
  exact absurd (h.le_top n hmem) (Nat.not_le.mpr hlt)

/-- A new largest number: every old bit moves up by the distance, and bit `0`
is the new top itself. Old members that leave the window are forgotten. -/
theorem advance (h : Tracks width top bit seen) (hlt : top < n)
    (hbit : ∀ d < width, bit' d ↔ d = 0 ∨ (n - top ≤ d ∧ bit (d - (n - top)))) :
    Tracks width n bit' (insert n seen) where
  zero_notMem := by
    have hpos : (0 : ℕ) ≠ n := by omega
    simp [hpos, h.zero_notMem]
  le_top m hm := by
    rcases hm with rfl | hm
    · exact Nat.le_refl _
    · exact Nat.le_trans (h.le_top m hm) hlt.le
  top_mem _ := Set.mem_insert _ _
  bit_iff d hd := by
    rw [hbit d hd, Set.mem_insert_iff]
    rcases Nat.eq_zero_or_pos d with rfl | hpos
    · simp
    · have hne : n - d ≠ n := by omega
      have hd0 : d ≠ 0 := by omega
      simp only [hne, hd0, false_or]
      by_cases hle : n - top ≤ d
      · -- the offset still points below the old top: read the old bit there
        have hback : top - (d - (n - top)) = n - d := by omega
        simp only [hle, true_and]
        rw [h.bit_iff _ (by omega), hback]
      · -- the offset points between the old top and the new one
        have habove : top < n - d := by omega
        simp only [hle, false_and, false_iff]
        exact h.notMem_of_top_lt habove

/-- A number inside the window: its bit is set and nothing else changes. -/
theorem mark (h : Tracks width top bit seen) (hpos : n ≠ 0) (hle : n ≤ top)
    (hbit : ∀ d < width, bit' d ↔ d = top - n ∨ bit d) :
    Tracks width top bit' (insert n seen) where
  zero_notMem := by simp [hpos.symm, h.zero_notMem]
  le_top m hm := by
    rcases hm with rfl | hm
    · exact hle
    · exact h.le_top m hm
  top_mem htop := Set.mem_insert_of_mem _ (h.top_mem htop)
  bit_iff d hd := by
    rw [hbit d hd, h.bit_iff d hd, Set.mem_insert_iff]
    constructor
    · rintro (rfl | hmem)
      · exact .inl (Nat.sub_sub_self hle)
      · exact .inr hmem
    · rintro (heq | hmem)
      · exact .inl (by omega)
      · exact .inr hmem

/-- A number that has left the window: no bit says anything about it. -/
theorem forget (h : Tracks width top bit seen) (hpos : n ≠ 0) (hold : n + width ≤ top) :
    Tracks width top bit (insert n seen) where
  zero_notMem := by simp [hpos.symm, h.zero_notMem]
  le_top m hm := by
    rcases hm with rfl | hm
    · omega
    · exact h.le_top m hm
  top_mem htop := Set.mem_insert_of_mem _ (h.top_mem htop)
  bit_iff d hd := by
    have hne : top - d ≠ n := by omega
    rw [h.bit_iff d hd, Set.mem_insert_iff, or_iff_right hne]

end Tracks

/-! ## Single-bit masks

A window kept in machine words is read and written through masks `1 <<< k`. -/

variable {w k : ℕ}

/-- Testing a mask reads the bit. -/
theorem and_mask_eq_zero (x : BitVec w) (hk : k < w) :
    x &&& (1#w <<< k) = 0#w ↔ x.getLsbD k = false := by
  rw [← BitVec.twoPow_eq, BitVec.and_twoPow]
  cases hbit : x.getLsbD k with
  | false => simp
  | true =>
      simp only [↓reduceIte, Bool.true_eq_false, iff_false]
      intro hzero
      have hone : (BitVec.twoPow w k).getLsbD k = (0#w).getLsbD k := by rw [hzero]
      simp [hk] at hone

/-- Setting a mask sets that bit and keeps the others. -/
theorem getLsbD_or_mask (x : BitVec w) (hk : k < w) (i : ℕ) :
    (x ||| (1#w <<< k)).getLsbD i = true ↔ i = k ∨ x.getLsbD i = true := by
  rw [BitVec.getLsbD_or, ← BitVec.twoPow_eq, BitVec.getLsbD_twoPow]
  simp only [hk, decide_true, Bool.true_and, Bool.or_eq_true, decide_eq_true_eq]
  constructor
  · rintro (hbit | heq)
    · exact .inr hbit
    · exact .inl heq.symm
  · rintro (heq | hbit)
    · exact .inr heq.symm
    · exact .inl hbit

end Fastwire.Lib
