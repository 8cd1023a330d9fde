/-
# Least recently used

A bounded collection in which every use brings an element to the front and a use of a
new element at capacity drops the last one. Uses are recorded in a log, newest first,
so that the place of an element in the log tells how recently it was used: the
collection is always in the order of these places, and what it drops is the element
whose last use is furthest back.
-/

import Mathlib.Data.List.Perm.Subperm

namespace Fastwire.Lib.Recency

universe u

variable {α : Type u} [DecidableEq α]

/-- One use: a hit moves the element to the front, a new element goes in front and at
capacity takes the place of the last one. -/
def use (capacity : ℕ) (l : List α) (a : α) : List α :=
  if a ∈ l then a :: l.erase a
  else if capacity ≤ l.length then a :: l.dropLast
  else a :: l

/-- The elements have been used, and stand in the order of their last uses. -/
structure MostRecentFirst (log l : List α) : Prop where
  used : ∀ a ∈ l, a ∈ log
  ordered : l.Pairwise fun a b => log.idxOf a < log.idxOf b

namespace MostRecentFirst

variable {log l l' : List α} {a b : α}

theorem nil (log : List α) : MostRecentFirst log [] := ⟨by simp, .nil⟩

theorem sublist (h : MostRecentFirst log l) (hsub : l'.Sublist l) : MostRecentFirst log l' :=
  ⟨fun a ha => h.used a (hsub.subset ha), h.ordered.sublist hsub⟩

theorem nodup (h : MostRecentFirst log l) : l.Nodup := by
  apply h.ordered.imp
  rintro a _ hlt rfl
  exact Nat.lt_irrefl _ hlt

/-- A use puts all other elements one place back in the log. -/
theorem cons (h : MostRecentFirst log l) (hnew : a ∉ l) :
    MostRecentFirst (a :: log) (a :: l) := by
  have hback : ∀ b ∈ l, (a :: log).idxOf b = log.idxOf b + 1 := by
    intro b hb
    apply List.idxOf_cons_ne
    rintro rfl
    exact hnew hb
  constructor
  · intro b hb
    rcases List.mem_cons.mp hb with rfl | hb
    · exact List.mem_cons_self
    · exact List.mem_cons_of_mem _ (h.used b hb)
  · apply List.Pairwise.cons
    · intro b hb
      rw [List.idxOf_cons_self, hback b hb]
      exact Nat.succ_pos _
    · apply h.ordered.imp_of_mem
      intro b c hb hc hlt
      rw [hback b hb, hback c hc]
      exact Nat.succ_lt_succ hlt

theorem use (h : MostRecentFirst log l) (capacity : ℕ) (a : α) :
    MostRecentFirst (a :: log) (use capacity l a) := by
  unfold Recency.use
  split_ifs with hmem hfull
  · apply (h.sublist List.erase_sublist).cons
    exact h.nodup.not_mem_erase
  · apply (h.sublist (List.dropLast_sublist l)).cons
    intro hlast
    exact hmem (List.dropLast_subset l hlast)
  · exact h.cons hmem

/-- The last element is the one used least recently. -/
theorem idxOf_lt_last {front : List α} (h : MostRecentFirst log (front ++ [b])) (ha : a ∈ front) :
    log.idxOf a < log.idxOf b :=
  (List.pairwise_append.mp h.ordered).2.2 a ha b List.mem_cons_self

end MostRecentFirst

/-- The capacity is kept. -/
theorem length_use_le {capacity : ℕ} {l : List α} (hpos : 0 < capacity)
    (hle : l.length ≤ capacity) (a : α) : (use capacity l a).length ≤ capacity := by
  unfold use
  split_ifs with hmem hfull
  · have hlength := List.length_pos_of_mem hmem
    rw [List.length_cons, List.length_erase_of_mem hmem]
    omega
  · rw [List.length_cons, List.length_dropLast]
    omega
  · rw [List.length_cons]
    omega

/-- A new element at capacity takes the place of the one used least recently, and of
no other. -/
theorem mem_use_full {capacity : ℕ} {log l : List α} {a : α} (h : MostRecentFirst log l)
    (hpos : 0 < capacity) (hfull : capacity ≤ l.length) (hnew : a ∉ l) :
    ∃ lru ∈ l, (∀ b ∈ l, b ≠ lru → log.idxOf b < log.idxOf lru) ∧
      ∀ b, b ∈ use capacity l a ↔ b = a ∨ b ∈ l ∧ b ≠ lru := by
  obtain ⟨front, lru, rfl⟩ : ∃ front lru, l = front ++ [lru] := by
    have hne : l ≠ [] := List.ne_nil_of_length_pos (Nat.lt_of_lt_of_le hpos hfull)
    exact ⟨l.dropLast, l.getLast hne, (List.dropLast_append_getLast hne).symm⟩
  have hlast : lru ∉ front := by
    intro hmem
    exact (List.nodup_append.mp h.nodup).2.2 lru hmem lru List.mem_cons_self rfl
  refine ⟨lru, List.mem_append_right _ List.mem_cons_self, ?_, ?_⟩
  · intro b hb hne
    rcases List.mem_append.mp hb with hb | hb
    · exact h.idxOf_lt_last hb
    · exact absurd (List.mem_singleton.mp hb) hne
  · intro b
    rw [use, if_neg hnew, if_pos hfull, List.dropLast_concat, List.mem_cons, List.mem_append,
      List.mem_singleton]
    constructor
    · rintro (rfl | hb)
      · exact .inl rfl
      · right
        refine ⟨.inl hb, ?_⟩
        rintro rfl
        exact hlast hb
    · rintro (rfl | ⟨hb | rfl, hne⟩)
      · exact .inl rfl
      · exact .inr hb
      · exact absurd rfl hne

end Fastwire.Lib.Recency
