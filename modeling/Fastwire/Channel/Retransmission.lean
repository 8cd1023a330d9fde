/-
# The retransmission queue

The queue of sent and unacknowledged packets under everything that can happen to it:
packets are added, acknowledgements take packets out, retransmission checks find packets
due, teardown empties it. Acknowledgements filter the slice in place; a check updates
packets through pointers and stops at the first one out of retries, with the packets
in front of it already updated and none of them returned.

An acknowledgement of 0 says that nothing was received and takes nothing out, not even
the packet with number 0 that a counter run over produces.
-/

import Fastwire.Channel.Basic
import Fastwire.Lib.Compaction
import Fastwire.Lib.Run

namespace Fastwire

open Lib

namespace Channel

/-! ## Acknowledgements -/

/-- What the loop of `processAcks` does with an acknowledged packet: the numbers
returned, the counter and the estimator. -/
def settlePacket (now : ℤ) (acc : List ℕ × ℤ × Rtt) (p : PendingPacket) : List ℕ × ℤ × Rtt :=
  (acc.1 ++ [p.sequence], acc.2.1 - 1, sampleRtt now acc.2.2 p)

/-- `processAcks` with its loop over the slice. -/
def processAcksInPlace (ch : Channel) (now : ℤ) (ack : ℕ) (ackField : BitVec 32) (r : Rtt) :
    Channel × List ℕ × Rtt :=
  if ack = 0 ∨ ch.pendingSend = [] then (ch, [], r)
  else
    let (pendingSend, acked, pending, rtt) :=
      Compaction.compact (fun p => isAcked p.sequence ack ackField) (settlePacket now)
        ch.pendingSend ([], ch.pending, r)
    ({ ch with pendingSend := pendingSend, pending := pending }, acked, rtt)

theorem foldl_settlePacket (now : ℤ) (ps : List PendingPacket) (acked : List ℕ) (pending : ℤ)
    (r : Rtt) :
    ps.foldl (settlePacket now) (acked, pending, r) =
      (acked ++ ps.map PendingPacket.sequence, pending - ps.length,
        ps.foldl (sampleRtt now) r) := by
  induction ps generalizing acked pending r with
  | nil => simp
  | cons p ps ih =>
      rw [List.foldl_cons, settlePacket, ih, List.append_assoc, List.length_cons]
      simp only [List.map_cons, List.singleton_append, List.foldl_cons, Prod.mk.injEq, true_and,
        and_true]
      push_cast
      ring

/-- The loop in place computes `processAcks`. -/
theorem processAcksInPlace_eq (ch : Channel) (now : ℤ) (ack : ℕ) (ackField : BitVec 32) (r : Rtt) :
    ch.processAcksInPlace now ack ackField r = ch.processAcks now ack ackField r := by
  rw [processAcksInPlace, processAcks]
  by_cases hnothing : ack = 0 ∨ ch.pendingSend = []
  · rw [if_pos hnothing, if_pos hnothing]
  · rw [if_neg hnothing, if_neg hnothing, Compaction.compact_eq, foldl_settlePacket,
      List.nil_append]

/-- Karn's rule, in terms of what was never retransmitted. -/
theorem foldl_sampleRtt (now : ℤ) {ps : List PendingPacket}
    (hfirst : ∀ p ∈ ps, p.firstTransmit = true ↔ p.retransmitCount = 0) (r : Rtt) :
    ps.foldl (sampleRtt now) r =
      ((ps.filter fun p => p.retransmitCount = 0).map fun p => now - p.sendTime).foldl
        Rtt.addSample r := by
  induction ps generalizing r with
  | nil => rfl
  | cons p ps ih =>
      rw [List.forall_mem_cons] at hfirst
      rw [List.foldl_cons, ih hfirst.2, sampleRtt]
      by_cases hzero : p.retransmitCount = 0
      · simp [hzero, hfirst.1]
      · simp [hzero, hfirst.1]

/-- The counter is the length of the queue. -/
def Counted (ch : Channel) : Prop := ch.pending = ch.pendingSend.length

/-- What `processAcks` takes out of the queue it returns. -/
theorem processAcks_perm (ch : Channel) (now : ℤ) (ack : ℕ) (ackField : BitVec 32) (r : Rtt) :
    ((ch.processAcks now ack ackField r).2.1 ++
      (ch.processAcks now ack ackField r).1.pendingSend.map PendingPacket.sequence).Perm
      (ch.pendingSend.map PendingPacket.sequence) := by
  rw [processAcks]
  split
  · exact List.Perm.refl _
  · rw [← List.map_append]
    exact (List.filter_append_perm _ _).map _

theorem processAcks_sublist (ch : Channel) (now : ℤ) (ack : ℕ) (ackField : BitVec 32) (r : Rtt) :
    (ch.processAcks now ack ackField r).1.pendingSend.Sublist ch.pendingSend := by
  rw [processAcks]
  split
  · exact List.Sublist.refl _
  · exact List.filter_sublist

theorem processAcks_pending (ch : Channel) (now : ℤ) (ack : ℕ) (ackField : BitVec 32) (r : Rtt) :
    (ch.processAcks now ack ackField r).1.pending =
      ch.pending - (ch.processAcks now ack ackField r).2.1.length := by
  rw [processAcks]
  split
  · simp
  · simp

theorem Counted.processAcks {ch : Channel} (h : ch.Counted) (now : ℤ) (ack : ℕ)
    (ackField : BitVec 32) (r : Rtt) : (ch.processAcks now ack ackField r).1.Counted := by
  have hlength := (processAcks_perm ch now ack ackField r).length_eq
  rw [List.length_append, List.length_map, List.length_map] at hlength
  rw [Counted, processAcks_pending, h, ← hlength]
  push_cast
  ring

theorem Counted.addPending {ch : Channel} (h : ch.Counted) (p : PendingPacket) :
    (ch.addPending p).Counted := by
  rw [Counted, Channel.addPending, h, List.length_append, List.length_singleton]
  push_cast
  rfl

theorem Counted.pendingCount {ch : Channel} (h : ch.Counted)
    (hfew : ch.pendingSend.length < 2 ^ 31) : ch.pendingCount = ch.pendingSend.length := by
  rw [Channel.pendingCount, h]
  apply Int.bmod_eq_of_le
  · omega
  · omega

/-! ## Retransmission checks -/

/-- A packet that is due, as a check sends it again. -/
def retried (now rto : ℤ) (p : PendingPacket) : PendingPacket :=
  { p with
    retransmitCount := p.retransmitCount + 1
    firstTransmit := false
    nextRetransmit := now + rto }

/-- The packet is due and has no retry left. -/
def Exhausted (now maxRetries : ℤ) (p : PendingPacket) : Prop :=
  p.nextRetransmit ≤ now ∧ maxRetries < p.retransmitCount + 1

/-- The loop keeps the numbers and the plaintexts. -/
theorem map_checkPending (now rto maxRetries : ℤ) (ps : List PendingPacket) :
    (checkPending now rto maxRetries ps).1.map (fun q => (q.sequence, q.raw)) =
      ps.map fun q => (q.sequence, q.raw) := by
  induction ps with
  | nil => rfl
  | cons p ps ih =>
      rw [checkPending]
      split
      · rw [List.map_cons, List.map_cons, ih]
      · dsimp only
        split
        · rfl
        · rw [List.map_cons, List.map_cons, ih]

theorem map_sequence_checkPending (now rto maxRetries : ℤ) (ps : List PendingPacket) :
    (checkPending now rto maxRetries ps).1.map PendingPacket.sequence =
      ps.map PendingPacket.sequence := by
  have hpairs := congrArg (List.map Prod.fst) (map_checkPending now rto maxRetries ps)
  rwa [List.map_map, List.map_map] at hpairs

/-- A check kills the connection exactly if a packet that is due has no retry left. -/
theorem checkPending_kill_iff (now rto maxRetries : ℤ) (ps : List PendingPacket) :
    (checkPending now rto maxRetries ps).2.2 = true ↔ ∃ p ∈ ps, Exhausted now maxRetries p := by
  induction ps with
  | nil => simp [checkPending]
  | cons p ps ih =>
      rw [checkPending, List.exists_mem_cons_iff, ← ih]
      by_cases hearly : now < p.nextRetransmit
      · have hnot : ¬ Exhausted now maxRetries p := fun h => absurd h.1 (not_le.mpr hearly)
        rw [if_pos hearly]
        simp [hnot]
      · rw [if_neg hearly]
        dsimp only
        by_cases hover : ((p.retransmitCount + 1 : ℕ) : ℤ) > maxRetries
        · have hout : Exhausted now maxRetries p := ⟨not_lt.mp hearly, by exact_mod_cast hover⟩
          rw [if_pos hover]
          simp [hout]
        · have hnot : ¬ Exhausted now maxRetries p := fun h => hover (by exact_mod_cast h.2)
          rw [if_neg hover]
          simp [hnot]

/-- A check that kills the connection returns nothing. -/
theorem checkPending_kill {now rto maxRetries : ℤ} {ps : List PendingPacket}
    (hkill : (checkPending now rto maxRetries ps).2.2 = true) :
    (checkPending now rto maxRetries ps).2.1 = [] := by
  induction ps with
  | nil => rfl
  | cons p ps ih =>
      rw [checkPending] at hkill ⊢
      split
      · rename_i hearly
        rw [if_pos hearly] at hkill
        exact ih hkill
      · rename_i hdue
        rw [if_neg hdue] at hkill
        dsimp only at hkill ⊢
        split
        · rfl
        · rename_i hretry
          rw [if_neg hretry] at hkill
          exact if_pos hkill

/-- A check that does not kill the connection updates and returns the packets that are
due. -/
theorem checkPending_alive {now rto maxRetries : ℤ} {ps : List PendingPacket}
    (halive : (checkPending now rto maxRetries ps).2.2 = false) :
    (checkPending now rto maxRetries ps).1 =
        ps.map (fun p => if now < p.nextRetransmit then p else retried now rto p) ∧
      (checkPending now rto maxRetries ps).2.1 =
        (ps.filter fun p => p.nextRetransmit ≤ now).map (retried now rto) := by
  induction ps with
  | nil => exact ⟨rfl, rfl⟩
  | cons p ps ih =>
      rw [checkPending] at halive ⊢
      by_cases hearly : now < p.nextRetransmit
      · rw [if_pos hearly] at halive ⊢
        obtain ⟨hkept, hdue⟩ := ih halive
        rw [List.map_cons, if_pos hearly, List.filter_cons_of_neg (by simpa using hearly)]
        exact ⟨congrArg _ hkept, hdue⟩
      · rw [if_neg hearly] at halive ⊢
        dsimp only at halive ⊢
        split
        · rename_i hover
          rw [if_pos hover] at halive
          cases halive
        · rename_i hretry
          rw [if_neg hretry] at halive
          obtain ⟨hkept, hdue⟩ := ih halive
          rw [List.map_cons, if_neg hearly, List.filter_cons_of_pos (by simpa using hearly), halive,
            List.map_cons, hkept, hdue]
          exact ⟨rfl, rfl⟩

/-- What a check makes of one packet. -/
def Touched (now rto maxRetries : ℤ) (p p' : PendingPacket) : Prop :=
  p' = p ∨ p' = retried now rto p ∨
    p' = { p with retransmitCount := p.retransmitCount + 1 } ∧ maxRetries < p.retransmitCount + 1

theorem exists_touched {now rto maxRetries : ℤ} {ps : List PendingPacket} {q : PendingPacket}
    (hq : q ∈ (checkPending now rto maxRetries ps).1) :
    ∃ p ∈ ps, Touched now rto maxRetries p q := by
  induction ps with
  | nil => cases hq
  | cons p ps ih =>
      have hrest : q ∈ (checkPending now rto maxRetries ps).1 →
          ∃ p' ∈ p :: ps, Touched now rto maxRetries p' q := by
        intro hmem
        obtain ⟨p', hp', htouched⟩ := ih hmem
        exact ⟨p', List.mem_cons_of_mem _ hp', htouched⟩
      rw [checkPending] at hq
      split at hq
      · rcases List.mem_cons.mp hq with rfl | hmem
        · exact ⟨q, List.mem_cons_self, .inl rfl⟩
        · exact hrest hmem
      · dsimp only at hq
        split at hq
        · rename_i hover
          rcases List.mem_cons.mp hq with rfl | hmem
          · exact ⟨p, List.mem_cons_self, .inr (.inr ⟨rfl, by exact_mod_cast hover⟩)⟩
          · exact ⟨q, List.mem_cons_of_mem _ hmem, .inl rfl⟩
        · rcases List.mem_cons.mp hq with rfl | hmem
          · exact ⟨p, List.mem_cons_self, .inr (.inl rfl)⟩
          · exact hrest hmem

theorem Touched.sequence_eq {now rto maxRetries : ℤ} {p p' : PendingPacket}
    (h : Touched now rto maxRetries p p') : p'.sequence = p.sequence := by
  rcases h with rfl | rfl | ⟨rfl, -⟩ <;> rfl

theorem Touched.count_le {now rto maxRetries : ℤ} {p p' : PendingPacket}
    (h : Touched now rto maxRetries p p') : p.retransmitCount ≤ p'.retransmitCount := by
  rcases h with rfl | rfl | ⟨rfl, -⟩
  · exact Nat.le_refl _
  · exact Nat.le_succ _
  · exact Nat.le_succ _

/-- A packet that runs out of retries has been retried before. -/
theorem Touched.first {now rto maxRetries : ℤ} (hmax : 1 ≤ maxRetries) {p p' : PendingPacket}
    (h : Touched now rto maxRetries p p')
    (hfirst : p.firstTransmit = true ↔ p.retransmitCount = 0) :
    p'.firstTransmit = true ↔ p'.retransmitCount = 0 := by
  rcases h with rfl | rfl | ⟨rfl, hover⟩
  · exact hfirst
  · simp [retried]
  · have hpositive : p.retransmitCount ≠ 0 := by omega
    simp [hfirst, hpositive]

/-- What a check returns is part of the queue, in its order. -/
theorem checkPending_returned (now rto maxRetries : ℤ) (ps : List PendingPacket) :
    ((checkPending now rto maxRetries ps).2.1.map PendingPacket.sequence).Sublist
      (ps.map PendingPacket.sequence) := by
  cases hkill : (checkPending now rto maxRetries ps).2.2 with
  | true =>
      rw [checkPending_kill hkill]
      exact List.nil_sublist _
  | false =>
      rw [(checkPending_alive hkill).2, List.map_map]
      exact List.filter_sublist.map _

end Channel

/-! ## Runs -/

/-- A channel, the estimator, the numbers of the packets added so far and the numbers of
the packets returned for retransmission, as often as they were. -/
structure QueueState where
  channel : Channel
  rtt : Rtt
  used : List ℕ
  returned : List ℕ

inductive QueueStep
  | add (p : PendingPacket)
  | acks (now : ℤ) (ack : UInt32) (ackField : BitVec 32)
  | check (now rto : ℤ)
  | release

namespace QueueState

/-- The packet is fresh and has a number of its own. -/
def Fresh (s : QueueState) (p : PendingPacket) : Prop :=
  p.retransmitCount = 0 ∧ p.firstTransmit = true ∧ p.sequence < 2 ^ 32 ∧ p.sequence ∉ s.used

instance (s : QueueState) (p : PendingPacket) : Decidable (s.Fresh p) :=
  inferInstanceAs (Decidable (_ ∧ _ ∧ _ ∧ _))

def next (maxRetries : ℤ) (s : QueueState) : QueueStep → Option QueueState
  | .add p =>
      if s.Fresh p then
        some { s with channel := s.channel.addPending p, used := p.sequence :: s.used }
      else none
  | .acks now ack ackField =>
      let (ch, _, rtt) := s.channel.processAcksInPlace now ack.toNat ackField s.rtt
      some { s with channel := ch, rtt := rtt }
  | .check now rto =>
      let (ch, retransmit, _) := s.channel.checkRetransmissions now rto maxRetries
      some { s with
        channel := ch
        returned := retransmit.map PendingPacket.sequence ++ s.returned }
  | .release => some { s with channel := s.channel.releasePendingBuffers }

/-- The queue of a channel under any operations. -/
def system (maxRetries : ℤ) : System QueueState QueueStep where
  init s := (∃ mode streamIndex window, s.channel = .init mode streamIndex window) ∧
    s.used = [] ∧ s.returned = []
  step s l t := next maxRetries s l = some t

/-- What every operation keeps up. -/
structure Kept (maxRetries : ℤ) (s : QueueState) : Prop where
  counted : s.channel.Counted
  first : ∀ p ∈ s.channel.pendingSend, p.firstTransmit = true ↔ p.retransmitCount = 0
  nodup : (s.channel.pendingSend.map PendingPacket.sequence).Nodup
  used : ∀ seq ∈ s.channel.pendingSend.map PendingPacket.sequence ++ s.returned, seq ∈ s.used
  tried : ∀ p ∈ s.channel.pendingSend, s.returned.count p.sequence ≤ p.retransmitCount
  bounded : ∀ seq, (s.returned.count seq : ℤ) ≤ maxRetries

variable {maxRetries : ℤ} {s t : QueueState}

theorem kept_init (hmax : 1 ≤ maxRetries) (h : (system maxRetries).init s) :
    Kept maxRetries s := by
  obtain ⟨⟨mode, streamIndex, window, hchannel⟩, -, hreturned⟩ := h
  have hempty : s.channel.pendingSend = [] := by rw [hchannel]; rfl
  constructor
  · rw [hchannel]
    rfl
  · simp [hempty]
  · simp [hempty]
  · simp [hempty, hreturned]
  · simp [hempty]
  · intro seq
    rw [hreturned, List.count_nil]
    omega

theorem Kept.add (h : Kept maxRetries s) {p : PendingPacket} (hfresh : s.Fresh p) :
    Kept maxRetries
      { s with channel := s.channel.addPending p, used := p.sequence :: s.used } := by
  obtain ⟨hcount, hfirst, -, hnew⟩ := hfresh
  have hqueue : (s.channel.addPending p).pendingSend = s.channel.pendingSend ++ [p] := rfl
  have hunused : ∀ seq ∈ s.channel.pendingSend.map PendingPacket.sequence ++ s.returned,
      seq ≠ p.sequence := by
    rintro seq hseq rfl
    exact hnew (h.used _ hseq)
  have hreturned : s.returned.count p.sequence = 0 := by
    apply List.count_eq_zero.mpr
    intro hmem
    exact hunused _ (List.mem_append_right _ hmem) rfl
  constructor
  · exact h.counted.addPending p
  · intro q hq
    rw [hqueue] at hq
    rcases List.mem_append.mp hq with hold | hlast
    · exact h.first q hold
    · rw [List.mem_singleton.mp hlast]
      simp [hcount, hfirst]
  · rw [hqueue, List.map_append, List.nodup_append]
    refine ⟨h.nodup, List.nodup_singleton _, ?_⟩
    intro seq hseq seq' hseq'
    rw [List.mem_singleton.mp hseq']
    exact hunused seq (List.mem_append_left _ hseq)
  · intro seq hseq
    rw [hqueue, List.map_append, List.append_assoc, List.mem_append, List.map_singleton,
      List.mem_append, List.mem_singleton] at hseq
    rcases hseq with hold | rfl | hold
    · exact List.mem_cons_of_mem _ (h.used seq (List.mem_append_left _ hold))
    · exact List.mem_cons_self
    · exact List.mem_cons_of_mem _ (h.used seq (List.mem_append_right _ hold))
  · intro q hq
    rw [hqueue] at hq
    rcases List.mem_append.mp hq with hold | hlast
    · exact h.tried q hold
    · rw [List.mem_singleton.mp hlast, hreturned]
      exact Nat.zero_le _
  · exact h.bounded

/-- Taking packets out of the queue keeps everything up. -/
theorem Kept.sublist (h : Kept maxRetries s) {ch : Channel} (hcounted : ch.Counted)
    (hsub : ch.pendingSend.Sublist s.channel.pendingSend) (rtt : Rtt) :
    Kept maxRetries { s with channel := ch, rtt := rtt } where
  counted := hcounted
  first p hp := h.first p (hsub.subset hp)
  nodup := h.nodup.sublist (hsub.map _)
  used seq hseq := h.used seq (((hsub.map _).append (List.Sublist.refl _)).subset hseq)
  tried p hp := h.tried p (hsub.subset hp)
  bounded := h.bounded

/-- A check returns no number twice. -/
theorem Kept.count_returned (h : Kept maxRetries s) (now rto : ℤ) (seq : ℕ) :
    ((s.channel.checkRetransmissions now rto maxRetries).2.1.map
      PendingPacket.sequence).count seq ≤ 1 :=
  List.nodup_iff_count_le_one.mp
    (h.nodup.sublist (Channel.checkPending_returned now rto maxRetries _)) seq

/-- A returned packet is due, has a retry left, and is counted. -/
theorem Kept.returned_spec (h : Kept maxRetries s) {now rto : ℤ} {p : PendingPacket}
    (hp : p ∈ s.channel.pendingSend)
    (hseq : p.sequence ∈ (s.channel.checkRetransmissions now rto maxRetries).2.1.map
      PendingPacket.sequence) :
    (s.channel.checkRetransmissions now rto maxRetries).2.2 = false ∧ p.nextRetransmit ≤ now ∧
      (p.retransmitCount + 1 : ℤ) ≤ maxRetries := by
  have halive : (Channel.checkPending now rto maxRetries s.channel.pendingSend).2.2 = false := by
    cases hkill : (Channel.checkPending now rto maxRetries s.channel.pendingSend).2.2 with
    | false => rfl
    | true =>
        rw [Channel.checkRetransmissions, Channel.checkPending_kill hkill] at hseq
        cases hseq
  refine ⟨halive, ?_⟩
  have hdue : p.nextRetransmit ≤ now := by
    rw [Channel.checkRetransmissions, (Channel.checkPending_alive halive).2, List.map_map] at hseq
    obtain ⟨q, hq, heq⟩ := List.mem_map.mp hseq
    obtain ⟨hmem, hnow⟩ := List.mem_filter.mp hq
    -- the numbers in the queue are distinct
    have hsame : q = p := List.inj_on_of_nodup_map h.nodup hmem hp heq
    rw [← hsame]
    exact of_decide_eq_true hnow
  refine ⟨hdue, ?_⟩
  by_contra hover
  have hkill := (Channel.checkPending_kill_iff now rto maxRetries s.channel.pendingSend).mpr
    ⟨p, hp, hdue, not_le.mp hover⟩
  rw [halive] at hkill
  cases hkill

/-- A check counts a packet before it returns it. -/
theorem Kept.check_tried (h : Kept maxRetries s) (now rto : ℤ) {q : PendingPacket}
    (hq : q ∈ (s.channel.checkRetransmissions now rto maxRetries).1.pendingSend) :
    ((s.channel.checkRetransmissions now rto maxRetries).2.1.map PendingPacket.sequence ++
      s.returned).count q.sequence ≤ q.retransmitCount := by
  obtain ⟨p, hp, htouched⟩ := Channel.exists_touched hq
  have htried := h.tried p hp
  have hle := htouched.count_le
  rw [List.count_append, htouched.sequence_eq]
  by_cases hseq : p.sequence ∈ (s.channel.checkRetransmissions now rto maxRetries).2.1.map
      PendingPacket.sequence
  · obtain ⟨halive, hdue, -⟩ := h.returned_spec hp hseq
    have honce := h.count_returned now rto p.sequence
    have hcounted : q.retransmitCount = p.retransmitCount + 1 := by
      change q ∈ (Channel.checkPending now rto maxRetries s.channel.pendingSend).1 at hq
      rw [(Channel.checkPending_alive halive).1] at hq
      obtain ⟨p', hp', heq⟩ := List.mem_map.mp hq
      have hseqs : p'.sequence = p.sequence := by
        rw [← htouched.sequence_eq, ← heq]
        split <;> rfl
      obtain rfl : p' = p := List.inj_on_of_nodup_map h.nodup hp' hp hseqs
      rw [if_neg (not_lt.mpr hdue)] at heq
      rw [← heq]
      rfl
    omega
  · rw [List.count_eq_zero.mpr hseq]
    omega

theorem Kept.check (h : Kept maxRetries s) (hmax : 1 ≤ maxRetries) (now rto : ℤ) :
    Kept maxRetries { s with
      channel := (s.channel.checkRetransmissions now rto maxRetries).1
      returned := (s.channel.checkRetransmissions now rto maxRetries).2.1.map
        PendingPacket.sequence ++ s.returned } := by
  have hseqs := Channel.map_sequence_checkPending now rto maxRetries s.channel.pendingSend
  constructor
  · have hlength := congrArg List.length hseqs
    rw [List.length_map, List.length_map] at hlength
    show s.channel.pending = _
    rw [h.counted, ← hlength]
    rfl
  · intro q hq
    obtain ⟨p, hp, htouched⟩ := Channel.exists_touched hq
    exact htouched.first hmax (h.first p hp)
  · show (List.map _ (Channel.checkPending now rto maxRetries s.channel.pendingSend).1).Nodup
    rw [hseqs]
    exact h.nodup
  · intro seq hseq
    have hmem : seq ∈ s.channel.pendingSend.map PendingPacket.sequence ++ s.returned := by
      rcases List.mem_append.mp hseq with hqueued | hreturned
      · exact List.mem_append_left _ (hseqs ▸ hqueued)
      · rcases List.mem_append.mp hreturned with hnow | hbefore
        · exact List.mem_append_left _
            ((Channel.checkPending_returned now rto maxRetries _).subset hnow)
        · exact List.mem_append_right _ hbefore
    exact h.used seq hmem
  · intro q hq
    exact h.check_tried now rto hq
  · intro seq
    have hbefore := h.bounded seq
    rw [List.count_append]
    by_cases hseq : seq ∈ (s.channel.checkRetransmissions now rto maxRetries).2.1.map
        PendingPacket.sequence
    · obtain ⟨p, hp, rfl⟩ := List.mem_map.mp
        ((Channel.checkPending_returned now rto maxRetries _).subset hseq)
      obtain ⟨-, -, hroom⟩ := h.returned_spec hp hseq
      have honce := h.count_returned now rto p.sequence
      have htried := h.tried p hp
      push_cast
      omega
    · rw [List.count_eq_zero.mpr hseq]
      push_cast
      omega

theorem kept_of_run (hmax : 1 ≤ maxRetries) {hist : List (QueueState × QueueStep)}
    (hrun : (system maxRetries).Run hist s) : Kept maxRetries s := by
  have hstep : ∀ s l t, Kept maxRetries s → (system maxRetries).step s l t →
      Kept maxRetries t := by
    intro s l t h hnext
    change next maxRetries s l = some t at hnext
    cases l with
    | add p =>
        rw [next] at hnext
        split at hnext
        · rename_i hfresh
          cases hnext
          exact h.add hfresh
        · cases hnext
    | acks now ack ackField =>
        rw [next, Channel.processAcksInPlace_eq] at hnext
        obtain rfl := Option.some.inj hnext
        exact h.sublist (h.counted.processAcks now ack.toNat ackField s.rtt)
          (s.channel.processAcks_sublist now ack.toNat ackField s.rtt) _
    | check now rto =>
        cases hnext
        exact h.check hmax now rto
    | release =>
        cases hnext
        have hempty : s.channel.releasePendingBuffers.Counted := rfl
        exact h.sublist hempty (List.nil_sublist _) s.rtt
  exact hrun.invariant (fun s hs => kept_init hmax hs) hstep

/-- The result of taking out packets: the others stay in order, the numbers taken out are
returned, and the round trip is measured on those that were never sent again. -/
def Removes (gone : PendingPacket → Bool) (now : ℤ) (ch : Channel) (r : Rtt)
    (result : Channel × List ℕ × Rtt) : Prop :=
  result.1.pendingSend = ch.pendingSend.filter (fun p => !gone p) ∧
    result.2.1 = (ch.pendingSend.filter gone).map PendingPacket.sequence ∧
    result.2.2 = (((ch.pendingSend.filter gone).filter fun p => p.retransmitCount = 0).map
      fun p => now - p.sendTime).foldl Rtt.addSample r

theorem removes_processAcks {ch : Channel}
    (hfirst : ∀ p ∈ ch.pendingSend, p.firstTransmit = true ↔ p.retransmitCount = 0)
    (now : ℤ) {ack : ℕ} (hack : ack ≠ 0) (ackField : BitVec 32) (r : Rtt) :
    Removes (fun p => Channel.isAcked p.sequence ack ackField) now ch r
      (ch.processAcks now ack ackField r) := by
  rw [Channel.processAcks]
  by_cases hempty : ch.pendingSend = []
  · rw [if_pos (.inr hempty), Removes, hempty]
    exact ⟨rfl, rfl, rfl⟩
  · have hsome : ¬ (ack = 0 ∨ ch.pendingSend = []) := not_or.mpr ⟨hack, hempty⟩
    rw [if_neg hsome]
    exact ⟨rfl, rfl, Channel.foldl_sampleRtt now
      (fun p hp => hfirst p (List.mem_filter.mp hp).1) r⟩

/-- **The retransmission queue.** In every state of every run:
the counter is the length of the queue, read as a 32-bit integer;
an acknowledgement other than 0 takes out exactly the packets it covers, an
acknowledgement of 0 none;
`firstTransmit` marks the packets without a retry, and none of them was returned;
no packet was returned more than `maxRetries` times, and a check that finds a packet due
which was returned that often kills the connection instead. -/
theorem retransmission_queue (hmax : 1 ≤ maxRetries) {hist : List (QueueState × QueueStep)}
    (hrun : (system maxRetries).Run hist s) :
    s.channel.pendingCount = (s.channel.pendingSend.length : ℤ).bmod (2 ^ 32) ∧
      (s.channel.pendingSend.length < 2 ^ 31 →
        s.channel.pendingCount = s.channel.pendingSend.length) ∧
      (∀ now ack ackField r, ack ≠ 0 →
        Removes (fun p => Channel.isAcked p.sequence ack ackField) now s.channel r
          (s.channel.processAcksInPlace now ack ackField r)) ∧
      (∀ now ackField r, s.channel.processAcksInPlace now 0 ackField r = (s.channel, [], r)) ∧
      (∀ p ∈ s.channel.pendingSend, (p.firstTransmit = true ↔ p.retransmitCount = 0) ∧
        (p.firstTransmit = true → p.sequence ∉ s.returned)) ∧
      (∀ seq, (s.returned.count seq : ℤ) ≤ maxRetries) ∧
      ∀ now rto, ∀ p ∈ s.channel.pendingSend, p.nextRetransmit ≤ now →
        (s.returned.count p.sequence : ℤ) = maxRetries →
        ∃ ch, s.channel.checkRetransmissions now rto maxRetries = (ch, [], true) := by
  have h := kept_of_run hmax hrun
  refine ⟨?_, h.counted.pendingCount, ?_, ?_, ?_, h.bounded, ?_⟩
  · rw [Channel.pendingCount, h.counted]
  · intro now ack ackField r hack
    rw [Channel.processAcksInPlace_eq]
    exact removes_processAcks h.first now hack ackField r
  · intro now ackField r
    rw [Channel.processAcksInPlace, if_pos (.inl rfl)]
  · intro p hp
    refine ⟨h.first p hp, ?_⟩
    intro hfirst hmem
    have htried := h.tried p hp
    have hpositive := List.count_pos_iff.mpr hmem
    rw [(h.first p hp).mp hfirst] at htried
    omega
  · intro now rto p hp hdue hall
    have htried := h.tried p hp
    have hkill := (Channel.checkPending_kill_iff now rto maxRetries s.channel.pendingSend).mpr
      ⟨p, hp, hdue, by omega⟩
    exact ⟨_, Prod.ext rfl (Prod.ext (Channel.checkPending_kill hkill) hkill)⟩

/-- A packet is sent again once and acknowledged after that. -/
theorem retransmission_queue_retried :
    ∃ hist s, (system 1).Run hist s ∧ s.returned = [1] ∧ s.channel.pendingSend = [] ∧
      s.channel.pendingCount = 0 ∧ ∀ seq, (s.returned.count seq : ℤ) ≤ 1 := by
  obtain ⟨hist, s, hrun, hreturned, hqueue⟩ :=
    System.exists_history (S := system 1) (fun s l t h => h)
      (s := ⟨.init .reliableOrdered 0 0, .init, [], []⟩) ⟨⟨_, _, _, rfl⟩, rfl, rfl⟩
      [.add ⟨[], 0, 0, 10, true, 1⟩, .check 10 10, .acks 15 1 0]
      (fun _ s => s.returned = [1] ∧ s.channel.pendingSend = [])
      (by decide +kernel)
  obtain ⟨-, hcount, -, -, -, hbounded, -⟩ := retransmission_queue (le_refl 1) hrun
  refine ⟨hist, s, hrun, hreturned, hqueue, ?_, hbounded⟩
  rw [hcount (by rw [hqueue]; decide), hqueue]
  rfl

/-- Any number of packets up to the number of numbers can be queued. -/
theorem exists_queued (n : ℕ) (hn : n ≤ 2 ^ 32) :
    ∃ hist s, (system 1).Run hist s ∧ s.channel.pendingSend.length = n ∧
      ∀ seq ∈ s.used, seq < n := by
  induction n with
  | zero =>
      exact ⟨[], ⟨.init .reliableOrdered 0 0, .init, [], []⟩, .start ⟨⟨_, _, _, rfl⟩, rfl, rfl⟩,
        rfl, fun _ h => absurd h List.not_mem_nil⟩
  | succ n ih =>
      obtain ⟨hist, s, hrun, hlength, hused⟩ := ih (by omega)
      have hfresh : s.Fresh ⟨[], 0, 0, 0, true, n⟩ :=
        ⟨rfl, rfl, hn, fun hmem => lt_irrefl n (hused n hmem)⟩
      have hstep : (system 1).step s (.add ⟨[], 0, 0, 0, true, n⟩) _ := if_pos hfresh
      refine ⟨_, _, .step hrun hstep, ?_, ?_⟩
      · show (s.channel.pendingSend ++ [_]).length = n + 1
        rw [List.length_append, hlength, List.length_singleton]
      · intro seq hseq
        rcases List.mem_cons.mp hseq with rfl | hold
        · exact Nat.lt_succ_self _
        · exact Nat.lt_succ_of_lt (hused seq hold)

/-- A packet with number 0 is covered by an acknowledgement of 0, and stays queued. And
with 2^31 packets in the queue the counter reads -2^31. -/
theorem ack_zero_and_counter_wrap :
    (∃ hist s, (system 1).Run hist s ∧ s.channel.pendingSend.map PendingPacket.sequence = [0] ∧
      Channel.isAcked 0 0 0 = true ∧
      (s.channel.processAcksInPlace 0 0 0 .init).1.pendingSend = s.channel.pendingSend ∧
      (s.channel.processAcksInPlace 0 0 0 .init).2.1 = []) ∧
    ∃ hist s, (system 1).Run hist s ∧ s.channel.pendingSend.length = 2 ^ 31 ∧
      s.channel.pendingCount = -2 ^ 31 := by
  constructor
  · obtain ⟨hist, s, hrun, hqueue⟩ :=
      System.exists_history (S := system 1) (fun s l t h => h)
        (s := ⟨.init .reliableOrdered 0 0, .init, [], []⟩) ⟨⟨_, _, _, rfl⟩, rfl, rfl⟩
        [.add ⟨[], 0, 0, 10, true, 0⟩]
        (fun _ s => s.channel.pendingSend.map PendingPacket.sequence = [0])
        (by decide +kernel)
    refine ⟨hist, s, hrun, hqueue, by decide, ?_, ?_⟩
    · rw [Channel.processAcksInPlace, if_pos (.inl rfl)]
    · rw [Channel.processAcksInPlace, if_pos (.inl rfl)]
  · obtain ⟨hist, s, hrun, hlength, -⟩ := exists_queued (2 ^ 31) (by norm_num)
    refine ⟨hist, s, hrun, hlength, ?_⟩
    rw [Channel.pendingCount, (kept_of_run (le_refl 1) hrun).counted, hlength]
    decide

end QueueState

end Fastwire
