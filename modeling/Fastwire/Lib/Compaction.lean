/-
# Filtering a slice in place

A loop reads the slots from left to right and writes what it keeps to the next free slot
on the left. The slots it writes to have been read before, so that it reads the
original slice; in the end the kept elements are the first slots. For each removed
element it updates an accumulator.
-/

import Mathlib.Data.List.TakeDrop

namespace Fastwire.Lib

universe u v

/-- The loop variables: the slots, the number of kept elements and the accumulator. -/
structure Compaction (α : Type u) (β : Type v) where
  slots : List α
  kept : ℕ
  acc : β

namespace Compaction

variable {α : Type u} {β : Type v} (gone : α → Bool) (remove : β → α → β)

/-- One round. The index is always in range. -/
def round (l : Compaction α β) (i : ℕ) : Compaction α β :=
  match l.slots[i]? with
  | none => l
  | some a =>
      if gone a then { l with acc := remove l.acc a }
      else { l with slots := l.slots.set l.kept a, kept := l.kept + 1 }

def rounds (xs : List α) (acc : β) (n : ℕ) : Compaction α β :=
  (List.range n).foldl (round gone remove) ⟨xs, 0, acc⟩

/-- The slice and the accumulator after the loop. -/
def compact (xs : List α) (acc : β) : List α × β :=
  let l := rounds gone remove xs acc xs.length
  (l.slots.take l.kept, l.acc)

/-- What the rounds keep up: the kept elements stand on the left, and what has not been
read is still in its place. -/
structure Compacted (xs : List α) (acc : β) (n : ℕ) (l : Compaction α β) : Prop where
  length_eq : l.slots.length = xs.length
  kept_le : l.kept ≤ n
  take_eq : l.slots.take l.kept = (xs.take n).filter fun a => !gone a
  drop_eq : l.slots.drop n = xs.drop n
  acc_eq : l.acc = ((xs.take n).filter gone).foldl remove acc

variable {gone remove} {xs : List α} {acc : β} {n : ℕ} {l : Compaction α β}

theorem Compacted.round (h : Compacted gone remove xs acc n l) (hn : n < xs.length) :
    Compacted gone remove xs acc (n + 1) (round gone remove l n) := by
  have hread : l.slots[n]? = some xs[n] := by
    have hhead := congrArg (fun ys => ys[0]?) h.drop_eq
    simpa [List.getElem?_drop, List.getElem?_eq_getElem hn] using hhead
  have htake : xs.take (n + 1) = xs.take n ++ [xs[n]] := by rw [List.take_succ_eq_append_getElem hn]
  have hdrop : l.slots.drop (n + 1) = xs.drop (n + 1) := by
    rw [← List.drop_drop, ← List.drop_drop, h.drop_eq]
  rw [Compaction.round, hread]
  dsimp only
  by_cases hgone : gone xs[n] = true
  · rw [if_pos hgone]
    refine ⟨h.length_eq, Nat.le_succ_of_le h.kept_le, ?_, hdrop, ?_⟩
    · rw [h.take_eq, htake, List.filter_append]
      simp [hgone]
    · rw [h.acc_eq, htake, List.filter_append, List.foldl_append]
      simp [hgone]
  · rw [if_neg hgone]
    have hlt : l.kept < l.slots.length := by
      rw [h.length_eq]
      exact Nat.lt_of_le_of_lt h.kept_le hn
    refine ⟨by rw [List.length_set, h.length_eq], Nat.succ_le_succ h.kept_le, ?_, ?_, ?_⟩
    · have hprior : (l.slots.set l.kept xs[n]).take l.kept = l.slots.take l.kept :=
        List.take_set_of_le (Nat.le_refl _)
      rw [List.take_succ_eq_append_getElem (by rw [List.length_set]; exact hlt), hprior, h.take_eq,
        List.getElem_set_self, htake, List.filter_append]
      simp [hgone]
    · -- the slot written to has been read already
      rw [List.drop_set_of_lt (Nat.lt_succ_of_le h.kept_le), hdrop]
    · rw [h.acc_eq, htake, List.filter_append, List.foldl_append]
      simp [hgone]

theorem compacted_rounds (hn : n ≤ xs.length) :
    Compacted gone remove xs acc n (rounds gone remove xs acc n) := by
  induction n with
  | zero => exact ⟨rfl, Nat.le_refl 0, rfl, rfl, rfl⟩
  | succ n ih =>
      rw [rounds, List.range_succ, List.foldl_append]
      exact (ih (Nat.le_of_succ_le hn)).round hn

/-- The loop filters. -/
theorem compact_eq (xs : List α) (acc : β) :
    compact gone remove xs acc =
      (xs.filter fun a => !gone a, (xs.filter gone).foldl remove acc) := by
  have h : Compacted gone remove xs acc xs.length (rounds gone remove xs acc xs.length) :=
    compacted_rounds (Nat.le_refl xs.length)
  rw [compact, h.take_eq, h.acc_eq, List.take_length]

end Compaction

end Fastwire.Lib
