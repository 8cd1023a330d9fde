/-
# Reading the loss while it changes

`RecordSend` and `RecordAck` hold the lock; `Loss` does not. It loads the two counters
one after the other, and between the loads packets may be sent and acknowledged. The
first counter is then too small for the second one, and the ratio leaves its range.

Only a growing window does this: in a full one a send evicts an entry, and the
counters stay within the count that was loaded.
-/

import Fastwire.Lib.Run
import Fastwire.Loss.Window

namespace Fastwire

open Lib

/-- A tracker, the counts that calls of `Loss` have loaded so far, and the pairs that
finished calls have loaded. -/
structure ReadState where
  tracker : LossTracker
  loaded : List ℤ
  pairs : List (ℤ × ℤ)

/-- A call under the lock, the first load of a call of `Loss`, or the second load of a
call which loaded `count` before. -/
inductive ReadStep
  | call (c : LossCall)
  | loadCount
  | loadAckCount (count : ℤ)

namespace ReadState

def next (s : ReadState) : ReadStep → Option ReadState
  | .call c => some { s with tracker := s.tracker.call c }
  | .loadCount => some { s with loaded := s.tracker.count :: s.loaded }
  | .loadAckCount count =>
      if count ∈ s.loaded then
        some { s with
          loaded := s.loaded.erase count
          pairs := (count, s.tracker.ackCount) :: s.pairs }
      else none

/-- Any number of goroutines around one tracker. -/
def system : System ReadState ReadStep where
  init s := s = ⟨.init, [], []⟩
  step s l t := s.next l = some t

/-- The window does not grow while a call of `Loss` that found packets is between its
loads. -/
def Settled (s : ReadState) : ReadStep → Prop
  | .call (.send _) => s.tracker.count = 100 ∨ ∀ count ∈ s.loaded, count = 0
  | .call (.ack _) => True
  | .loadCount => True
  | .loadAckCount _ => True

instance (s : ReadState) (l : ReadStep) : Decidable (s.Settled l) :=
  match l with
  | .call (.send _) =>
      inferInstanceAs (Decidable (s.tracker.count = 100 ∨ ∀ count ∈ s.loaded, count = 0))
  | .call (.ack _) => inferInstanceAs (Decidable True)
  | .loadCount => inferInstanceAs (Decidable True)
  | .loadAckCount _ => inferInstanceAs (Decidable True)

/-- A pair that `Loss` turns into a ratio between 0 and 1. -/
def InRange (pair : ℤ × ℤ) : Prop :=
  (0 < pair.1 → pair.2 ≤ pair.1) ∧
    0 ≤ LossTracker.ratio pair.1 pair.2 ∧ LossTracker.ratio pair.1 pair.2 ≤ 1

theorem inRange_zero (ackCount : ℤ) : InRange (0, ackCount) := by
  refine ⟨fun h => absurd h (lt_irrefl _), ?_, ?_⟩
  · rw [LossTracker.ratio, if_pos rfl]
  · rw [LossTracker.ratio, if_pos rfl]
    exact zero_le_one

theorem inRange_of_le {count ackCount : ℤ} (hpos : 0 < count) (hnonneg : 0 ≤ ackCount)
    (hle : ackCount ≤ count) : InRange (count, ackCount) := by
  have hcount : (0 : ℚ) < count := by exact_mod_cast hpos
  have hlower : (0 : ℚ) ≤ ackCount / count := div_nonneg (by exact_mod_cast hnonneg) hcount.le
  have hupper : (ackCount : ℚ) / count ≤ 1 := by
    rw [div_le_one hcount]
    exact_mod_cast hle
  refine ⟨fun _ => hle, ?_, ?_⟩
  · rw [LossTracker.ratio, if_neg hpos.ne']
    exact sub_nonneg.mpr hupper
  · rw [LossTracker.ratio, if_neg hpos.ne']
    exact sub_le_self 1 hlower

/-- What the goroutines keep up: the counters fit together, and a count that was loaded
and is not zero is still the count. -/
structure Consistent (s : ReadState) : Prop where
  stands : ∃ w, LossTracker.Stands s.tracker w
  current : ∀ count ∈ s.loaded, count = 0 ∨ count = s.tracker.count
  inRange : ∀ pair ∈ s.pairs, InRange pair

variable {s t : ReadState}

theorem Consistent.call (h : Consistent s) {c : LossCall} (hguard : s.Settled (.call c)) :
    Consistent { s with tracker := s.tracker.call c } := by
  obtain ⟨w, hw⟩ := h.stands
  cases c with
  | send seq =>
      refine ⟨⟨_, hw.recordSend seq⟩, ?_, h.inRange⟩
      intro count hcount
      rcases hguard with hfull | hzero
      · have hsame : (s.tracker.recordSend seq).count = s.tracker.count := by
          rw [LossTracker.recordSend]
          exact if_neg (by omega)
        show count = 0 ∨ count = (s.tracker.recordSend seq).count
        rw [hsame]
        exact h.current count hcount
      · exact .inl (hzero count hcount)
  | ack seq =>
      have hmarked := hw.recordAck seq
      refine ⟨⟨_, hmarked⟩, ?_, h.inRange⟩
      have hsame : (s.tracker.recordAck seq).count = s.tracker.count := by
        rw [hmarked.count, hw.count, LossTracker.length_mark]
      show ∀ count ∈ s.loaded, count = 0 ∨ count = (s.tracker.recordAck seq).count
      rw [hsame]
      exact h.current

theorem Consistent.loadCount (h : Consistent s) :
    Consistent { s with loaded := s.tracker.count :: s.loaded } := by
  refine ⟨h.stands, ?_, h.inRange⟩
  intro count hcount
  rcases List.mem_cons.mp hcount with rfl | hold
  · exact .inr rfl
  · exact h.current count hold

theorem Consistent.loadAckCount (h : Consistent s) {count : ℤ} (hcount : count ∈ s.loaded) :
    Consistent { s with
      loaded := s.loaded.erase count
      pairs := (count, s.tracker.ackCount) :: s.pairs } := by
  obtain ⟨w, hw⟩ := h.stands
  refine ⟨h.stands, fun count' hmem => h.current count' (List.mem_of_mem_erase hmem), ?_⟩
  intro pair hpair
  rcases List.mem_cons.mp hpair with rfl | hold
  · have hle : s.tracker.ackCount ≤ s.tracker.count := by
      rw [hw.ackCount, hw.count]
      exact_mod_cast List.countP_le_length
    have hnonneg : 0 ≤ s.tracker.ackCount := by
      rw [hw.ackCount]
      exact Int.natCast_nonneg _
    by_cases hzero : count = 0
    · rw [hzero]
      exact inRange_zero _
    · have hcurrent := (h.current count hcount).resolve_left hzero
      rw [hcurrent] at hzero ⊢
      exact inRange_of_le (by omega) hnonneg hle
  · exact h.inRange pair hold

theorem Consistent.next (h : Consistent s) {l : ReadStep} (hguard : s.Settled l)
    (hstep : system.step s l t) : Consistent t := by
  cases l with
  | call c =>
      cases hstep
      exact h.call hguard
  | loadCount =>
      cases hstep
      exact h.loadCount
  | loadAckCount count =>
      change s.next (.loadAckCount count) = some t at hstep
      rw [ReadState.next] at hstep
      split at hstep
      · rename_i hcount
        cases hstep
        exact h.loadAckCount hcount
      · cases hstep

/-- **The loss ratio under concurrency.** In every interleaving in which the window does
not grow while a call of `Loss` that found packets is between its loads, every pair that
`Loss` loads has at most as many acknowledgements as packets, and every ratio lies
between 0 and 1. -/
theorem loss_in_range {hist : List (ReadState × ReadStep)} (hrun : system.Run hist s)
    (hsettled : System.Guarded Settled hist) : ∀ pair ∈ s.pairs, InRange pair := by
  have hinit : ∀ s, system.init s → Consistent s := by
    rintro s rfl
    exact ⟨⟨[], LossTracker.stands_init⟩, fun _ h => absurd h List.not_mem_nil,
      fun _ h => absurd h List.not_mem_nil⟩
  have hstep : ∀ hist s l t, system.Run hist s → Consistent s → Settled s l →
      system.step s l t → Consistent t := by
    intro _ s l t _ h hguard htaken
    exact h.next hguard htaken
  exact (hrun.guarded_invariant hinit hstep hsettled).inRange

/-- Two packets, of which one is acknowledged between the two loads. -/
theorem loss_in_range_half :
    ∃ hist s, system.Run hist s ∧ System.Guarded Settled hist ∧ s.pairs = [(2, 1)] ∧
      ∀ pair ∈ s.pairs, InRange pair := by
  obtain ⟨hist, s, hrun, hsettled, hpairs⟩ :=
    System.exists_history (S := system) (fun s l t h => h) (s := ⟨.init, [], []⟩) rfl
      [.call (.send 1), .call (.send 2), .loadCount, .call (.ack 1), .loadAckCount 2]
      (fun hist s => System.Guarded Settled hist ∧ s.pairs = [(2, 1)])
      (by decide +kernel)
  exact ⟨hist, s, hrun, hsettled, hpairs, loss_in_range hrun hsettled⟩

/-- One packet is counted; before the acknowledgements are, a second packet is sent and
both are acknowledged. `Loss` returns -1. -/
theorem loss_below_zero :
    ∃ hist s, system.Run hist s ∧ s.pairs = [(1, 2)] ∧ LossTracker.ratio 1 2 = -1 := by
  obtain ⟨hist, s, hrun, hpairs⟩ :=
    System.exists_history (S := system) (fun s l t h => h) (s := ⟨.init, [], []⟩) rfl
      [.call (.send 1), .loadCount, .call (.send 2), .call (.ack 1), .call (.ack 2),
        .loadAckCount 1]
      (fun _ s => s.pairs = [(1, 2)])
      (by decide +kernel)
  refine ⟨hist, s, hrun, hpairs, ?_⟩
  rw [LossTracker.ratio]
  norm_num

end ReadState

end Fastwire
