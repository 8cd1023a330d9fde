/-
# The loss tracker as a list

The tracker keeps the last hundred reliable packets in a ring. Read from the newest
one backwards the ring is a list, sending adds to its front, and an acknowledgement
marks the first entry with its number. The two counters are the length of the list and
the number of marked entries, so that they always fit together.

A tracker is determined by the calls made on it, and what one entry looks like depends
on the calls behind its own send only.
-/

import Fastwire.Lib.Ring
import Fastwire.Stats

namespace Fastwire

open Lib

inductive LossCall
  | send (seq : ℕ)
  | ack (seq : ℕ)
  deriving DecidableEq, Repr

namespace LossTracker

def call (lt : LossTracker) : LossCall → LossTracker
  | .send seq => lt.recordSend seq
  | .ack seq => lt.recordAck seq

/-- `Loss`, from the two counters it loads. -/
def ratio (count ackCount : ℤ) : ℚ := if count = 0 then 0 else 1 - ackCount / count

/-! ## The list -/

/-- The mark of an acknowledgement: the first entry with the number. -/
def mark (seq : ℕ) : List LossEntry → List LossEntry
  | [] => []
  | e :: es => if e.seq = seq then ⟨seq, true⟩ :: es else e :: mark seq es

/-- The last hundred packets after calls, newest first; the calls are newest first,
too. -/
def window : List LossCall → List LossEntry
  | [] => []
  | .send seq :: log => (⟨seq, false⟩ :: window log).take 100
  | .ack seq :: log => mark seq (window log)

/-- The tracker stands for the list. -/
structure Stands (lt : LossTracker) (w : List LossEntry) : Prop where
  ring : Ring.Shows lt.entries.toList lt.head.val w
  count : lt.count = w.length
  ackCount : lt.ackCount = w.countP LossEntry.acked

theorem stands_init : Stands .init [] where
  ring := Ring.shows_nil (by simp [init])
  count := rfl
  ackCount := rfl

/-- The head moves on by one cell. -/
theorem val_add_one (i : Fin 100) : (i + 1).val = Ring.next 100 i.val := by
  have hi := i.isLt
  have hone : (1 : Fin 100).val = 1 := rfl
  rw [Fin.val_add, hone, Ring.next]
  split <;> omega

/-- The scan goes back by one cell. -/
theorem val_sub_one (i : Fin 100) : (i - 1).val = if i.val = 0 then 99 else i.val - 1 := by
  have hi := i.isLt
  have hone : (1 : Fin 100).val = 1 := rfl
  rw [Fin.val_sub, hone]
  split <;> omega

variable {lt : LossTracker} {w : List LossEntry}

theorem Stands.length_le (h : Stands lt w) : w.length ≤ 100 := by
  have hlength := h.ring.length_le
  rwa [Vector.length_toList] at hlength

/-- The cell of an entry of the list. -/
theorem Stands.cell_eq (h : Stands lt w) {i : ℕ} (hi : i < w.length) (idx : Fin 100)
    (hidx : idx.val = Ring.slot 100 lt.head.val i) : lt.entries[idx] = w[i] := by
  have hcell := h.ring.cell_eq i hi
  rw [Vector.length_toList, ← hidx, Vector.getElem?_toList, List.getElem?_eq_getElem hi] at hcell
  have hlt : idx.val < 100 := idx.isLt
  rw [Vector.getElem?_eq_getElem hlt, Option.some.injEq] at hcell
  exact hcell

/-- What a full list loses when an entry is put in front of it. -/
theorem countP_push (hfull : w.length = 100) (seq : ℕ) :
    (((⟨seq, false⟩ :: w).take 100).countP LossEntry.acked : ℤ) =
      w.countP LossEntry.acked - if (w[99].acked) then 1 else 0 := by
  have hsplit : w = w.take 99 ++ [w[99]] := by
    rw [List.take_append_getElem, List.take_of_length_le (by omega)]
  have htake : (⟨seq, false⟩ :: w).take 100 = ⟨seq, false⟩ :: w.take 99 := rfl
  have hcount : w.countP LossEntry.acked =
      (w.take 99).countP LossEntry.acked + [w[99]].countP LossEntry.acked := by
    rw [← List.countP_append, ← hsplit]
  rw [htake, List.countP_cons_of_neg (by simp), hcount, List.countP_singleton]
  split <;> simp

/-- A send puts an entry in front. The counter of acknowledgements goes down if the
entry that is dropped was acknowledged. -/
theorem Stands.recordSend (h : Stands lt w) (seq : ℕ) :
    Stands (lt.recordSend seq) ((⟨seq, false⟩ :: w).take 100) := by
  have hlength := h.length_le
  have hcells : lt.entries.toList.length = 100 := Vector.length_toList
  have hpush := h.ring.push ⟨seq, false⟩
  rw [hcells] at hpush
  constructor
  · simp only [LossTracker.recordSend, Vector.toList_set, val_add_one]
    exact hpush
  · simp only [LossTracker.recordSend, List.length_take, List.length_cons, h.count]
    split <;> omega
  · simp only [LossTracker.recordSend]
    by_cases hfull : w.length = 100
    · -- the cell that is written holds the oldest entry
      have hoverwritten : lt.entries[lt.head] = w[99] := by
        apply h.cell_eq (by omega)
        have hhead := lt.head.isLt
        unfold Ring.slot
        split <;> omega
      rw [countP_push hfull, h.ackCount, h.count, hoverwritten]
      simp only [hfull, true_and]
      split <;> simp
    · have hroom : ¬ lt.count = 100 := by
        rw [h.count]
        exact hfull
      rw [List.take_of_length_le (by simp only [List.length_cons]; omega),
        List.countP_cons_of_neg (by simp), h.ackCount, if_neg (fun hboth => hroom hboth.1)]

/-- Marking an entry that was not marked. -/
theorem Stands.markAt (h : Stands lt w) {i : ℕ} (hi : i < w.length) (idx : Fin 100)
    (hidx : idx.val = Ring.slot 100 lt.head.val i) {seq : ℕ} (hacked : w[i].acked = false) :
    Stands { lt with entries := lt.entries.set idx ⟨seq, true⟩, ackCount := lt.ackCount + 1 }
      (w.set i ⟨seq, true⟩) := by
  have hcells : lt.entries.toList.length = 100 := Vector.length_toList
  have hupdate := h.ring.update hi ⟨seq, true⟩
  rw [hcells, ← hidx] at hupdate
  constructor
  · simp only [Vector.toList_set]
    exact hupdate
  · simp only [List.length_set]
    exact h.count
  · rw [List.countP_set hi]
    simp [hacked, h.ackCount]

/-- The scan of `RecordAck`, from the entry at place `i` on. -/
theorem Stands.recordAckFrom (h : Stands lt w) (seq k i : ℕ) (idx : Fin 100)
    (hk : i + k = w.length) (hidx : 0 < k → idx.val = Ring.slot 100 lt.head.val i) :
    Stands (lt.recordAckFrom seq k idx) (w.take i ++ mark seq (w.drop i)) := by
  induction k generalizing i idx with
  | zero =>
      rw [LossTracker.recordAckFrom, List.drop_eq_nil_of_le (by omega), mark, List.append_nil,
        List.take_of_length_le (by omega)]
      exact h
  | succ k ih =>
      have hi : i < w.length := by omega
      have hlength := h.length_le
      have hcell := h.cell_eq hi idx (hidx (by omega))
      rw [LossTracker.recordAckFrom, hcell, List.drop_eq_getElem_cons hi, mark]
      by_cases hseq : w[i].seq = seq
      · have hset : w.take i ++ ⟨seq, true⟩ :: w.drop (i + 1) = w.set i ⟨seq, true⟩ :=
          (List.set_eq_take_append_cons_drop.trans (if_pos hi)).symm
        rw [if_pos hseq, if_pos hseq, hset]
        by_cases hacked : w[i].acked = true
        · have hsame : w.set i ⟨seq, true⟩ = w := by
            have hentry : (⟨seq, true⟩ : LossEntry) = w[i] := by rw [← hseq, ← hacked]
            rw [hentry, List.set_getElem_self]
          rw [if_pos hacked, hsame]
          exact h
        · rw [if_neg hacked]
          exact h.markAt hi idx (hidx (by omega)) (Bool.not_eq_true _ ▸ hacked)
      · rw [if_neg hseq, if_neg hseq]
        have hstep : 0 < k → (idx - 1).val = Ring.slot 100 lt.head.val (i + 1) := by
          intro hpos
          rw [val_sub_one, hidx (by omega), Ring.slot_succ lt.head.isLt (by omega)]
        have hrest := ih (i + 1) (idx - 1) (by omega) hstep
        rw [List.take_succ_eq_append_getElem hi, List.append_assoc] at hrest
        exact hrest

theorem Stands.recordAck (h : Stands lt w) (seq : ℕ) : Stands (lt.recordAck seq) (mark seq w) := by
  have hstart : 0 < lt.count → (lt.head - 1).val = Ring.slot 100 lt.head.val 0 := by
    intro _
    have hhead := lt.head.isLt
    rw [val_sub_one, Ring.slot]
    split <;> split <;> omega
  have hscan := h.recordAckFrom seq lt.count 0 (lt.head - 1) (by rw [h.count, Nat.zero_add]) hstart
  rw [List.take_zero, List.drop_zero, List.nil_append] at hscan
  exact hscan

theorem length_mark (seq : ℕ) (w : List LossEntry) : (mark seq w).length = w.length := by
  induction w with
  | nil => rfl
  | cons e es ih =>
      rw [mark]
      split
      · rfl
      · rw [List.length_cons, List.length_cons, ih]

/-- A tracker is determined by the calls made on it. -/
theorem stands_window (log : List LossCall) :
    Stands (log.foldr (fun c lt => call lt c) init) (window log) := by
  induction log with
  | nil => exact stands_init
  | cons c log ih =>
      cases c with
      | send seq => exact ih.recordSend seq
      | ack seq => exact ih.recordAck seq

/-- No loss is reported exactly if every entry is acknowledged. -/
theorem Stands.ratio_eq_zero_iff (h : Stands lt w) :
    ratio lt.count lt.ackCount = 0 ↔ lt.ackCount = lt.count := by
  rw [ratio]
  split
  · rename_i hzero
    have hempty : w = [] := by
      rw [h.count] at hzero
      exact List.eq_nil_of_length_eq_zero (by exact_mod_cast hzero)
    rw [h.ackCount, h.count, hempty]
    simp
  · rename_i hne
    have hne' : ((lt.count : ℤ) : ℚ) ≠ 0 := by exact_mod_cast hne
    rw [sub_eq_zero, eq_comm, div_eq_one_iff_eq hne']
    exact_mod_cast Iff.rfl

end LossTracker

end Fastwire
