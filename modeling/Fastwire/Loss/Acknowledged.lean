/-
# Loss once everything is acknowledged

A connection has one loss tracker for all its channels, but every channel numbers its
packets itself. Two packets of different channels may therefore stand in the window
under one number, and an acknowledgement of either marks the newer one. The tracker
reports no loss after all packets have been acknowledged exactly if this never happened:
between two sends with one number an acknowledgement of it was recorded.
-/

import Fastwire.Channel.Retransmission
import Fastwire.Connection.Congestion
import Fastwire.Lib.Run
import Fastwire.Loss.Calls
import Mathlib.Algebra.Order.BigOperators.Group.List

namespace Fastwire

open Lib

/-! ## Acknowledgements in two sections -/

namespace Connection

/-- `processAcks` and the congestion window. The tracker learns the numbers one by one
afterwards, and another goroutine may send in between. -/
def takeAcks (c : Connection) (now : ℤ) (id : UInt8) (ack : UInt32) (ackField : BitVec 32) :
    Connection × List ℕ :=
  match c.channel id with
  | none => (c, [])
  | some ch =>
      let (ch, seqs, rtt) := ch.processAcks now ack.toNat ackField c.rttState
      let c := { c.setChannel id ch with rttState := rtt }
      (if seqs = [] then c else { c with cc := c.cc.onAck seqs.length }, seqs)

/-- The two sections in sequence. -/
theorem applyAcks_eq_takeAcks (c : Connection) (now : ℤ) (id : UInt8) (ack : UInt32)
    (ackField : BitVec 32) :
    (c.applyAcks now id ack ackField).1 =
      { (c.takeAcks now id ack ackField).1 with
        loss := (c.takeAcks now id ack ackField).2.foldl LossTracker.recordAck c.loss } := by
  rw [applyAcks, takeAcks]
  cases c.channel id with
  | none => rfl
  | some ch =>
      dsimp only
      generalize ch.processAcks now ack.toNat ackField c.rttState = result
      obtain ⟨ch', seqs, rtt⟩ := result
      dsimp only
      rw [countAcked]
      by_cases hnone : seqs = []
      · rw [if_pos hnone, if_pos hnone, hnone]
        rfl
      · rw [if_neg hnone, if_neg hnone]
        rfl

end Connection

/-! ## Packets in flight -/

namespace Channel

def carrying (seq : ℕ) (ch : Channel) : ℤ := (ch.pendingSend.map PendingPacket.sequence).count seq

theorem processAcks_carrying (ch : Channel) (now : ℤ) (ack : ℕ) (ackField : BitVec 32) (r : Rtt)
    (seq : ℕ) :
    ((ch.processAcks now ack ackField r).2.1.count seq : ℤ) +
      (ch.processAcks now ack ackField r).1.carrying seq = ch.carrying seq := by
  have hcount := (processAcks_perm ch now ack ackField r).count_eq seq
  rw [List.count_append] at hcount
  rw [carrying, carrying, ← hcount]
  exact (Nat.cast_add _ _).symm

theorem addPending_carrying (ch : Channel) (p : PendingPacket) (seq : ℕ) :
    (ch.addPending p).carrying seq = ch.carrying seq + if p.sequence = seq then 1 else 0 := by
  rw [carrying, carrying, Channel.addPending, List.map_append, List.count_append,
    List.map_singleton, List.count_singleton]
  by_cases heq : p.sequence = seq
  · simp [heq]
  · simp [heq]

end Channel

namespace Connection

/-- The packets with a number that are in flight on any channel. -/
def carrying (seq : ℕ) (c : Connection) : ℤ := (c.channels.map (Channel.carrying seq)).sum

def NoneInFlight (c : Connection) : Prop := ∀ ch ∈ c.channels, ch.pendingSend = []

instance : DecidablePred NoneInFlight :=
  fun c => inferInstanceAs (Decidable (∀ ch ∈ c.channels, ch.pendingSend = []))

theorem carrying_nonneg (seq : ℕ) (c : Connection) : 0 ≤ c.carrying seq := by
  apply List.sum_nonneg
  intro n hn
  obtain ⟨ch, -, rfl⟩ := List.mem_map.mp hn
  exact Int.natCast_nonneg _

theorem NoneInFlight.carrying_eq {c : Connection} (h : c.NoneInFlight) (seq : ℕ) :
    c.carrying seq = 0 := by
  apply List.sum_eq_zero
  intro n hn
  obtain ⟨ch, hch, rfl⟩ := List.mem_map.mp hn
  rw [Channel.carrying, h ch hch]
  rfl

/-- A step that leaves the tracker and the numbers in the queues alone. -/
def KeepsQueues (c c' : Connection) : Prop :=
  c'.loss = c.loss ∧
    c'.channels.map (fun ch => ch.pendingSend.map PendingPacket.sequence) =
      c.channels.map fun ch => ch.pendingSend.map PendingPacket.sequence

/-- Writing back a channel with the same queue is such a step: a number is taken, a
packet is received or delivered, a packet is retransmitted. -/
theorem keepsQueues_setChannel {c : Connection} {id : UInt8} {ch ch' : Channel}
    (found : c.channel id = some ch)
    (hseqs : ch'.pendingSend.map PendingPacket.sequence =
      ch.pendingSend.map PendingPacket.sequence) : c.KeepsQueues (c.setChannel id ch') :=
  ⟨rfl, map_set_channel found _ hseqs⟩

theorem keepsQueues_checkRetransmissions {c : Connection} {id : UInt8} {ch : Channel}
    (found : c.channel id = some ch) (now rto maxRetries : ℤ) :
    c.KeepsQueues (c.setChannel id (ch.checkRetransmissions now rto maxRetries).1) :=
  keepsQueues_setChannel found
    (Channel.map_sequence_checkPending now rto maxRetries ch.pendingSend)

theorem KeepsQueues.carrying_eq {c c' : Connection} (h : c.KeepsQueues c') (seq : ℕ) :
    c'.carrying seq = c.carrying seq := by
  have hmaps := congrArg (List.map fun q : List ℕ => (q.count seq : ℤ)) h.2
  rw [List.map_map, List.map_map] at hmaps
  exact congrArg List.sum hmaps

end Connection

/-! ## Runs -/

/-- A connection, the acknowledged numbers of which the tracker has not been told yet, and
the calls on the tracker, newest first. -/
structure LossState where
  conn : Connection
  recording : List ℕ
  log : List LossCall

/-- A packet is queued, acknowledgements arrive, the tracker is told of one, or the
connection does something else. -/
inductive LossStep
  | queue (p : Stamped) (now : ℤ)
  | acks (now : ℤ) (id : UInt8) (ack : UInt32) (ackField : BitVec 32)
  | record (seq : ℕ)
  | rest (c : Connection)

namespace LossState

def queueCalls (c : Connection) (p : Stamped) : List LossCall :=
  match c.channel p.channel with
  | none => []
  | some ch => if ch.mode.reliable then [.send p.sequence] else []

/-- The steps of the goroutines. -/
def next (s : LossState) : LossStep → Option LossState
  | .queue p now => some ⟨s.conn.queuePacket p now, s.recording, queueCalls s.conn p ++ s.log⟩
  | .acks now id ack ackField =>
      let (c, seqs) := s.conn.takeAcks now id ack ackField
      some ⟨c, s.recording ++ seqs, s.log⟩
  | .record seq =>
      if seq ∈ s.recording then
        some ⟨{ s.conn with loss := s.conn.loss.recordAck seq }, s.recording.erase seq,
          .ack seq :: s.log⟩
      else none
  | .rest _ => none

/-- A live connection with any channels. A packet leaves a queue only by being
acknowledged. -/
def system (input : ConnectionInput) (start : ℤ) : System LossState LossStep where
  init s := s = ⟨newConnection input start, [], []⟩
  step s l t := s.next l = some t ∨
    ∃ c, l = .rest c ∧ s.conn.KeepsQueues c ∧ t = { s with conn := c }

/-- The books of a run: the tracker is what the calls make of it, and a packet sent is
in flight, on its way to the tracker, or recorded. -/
structure Tallied (s : LossState) : Prop where
  replay : s.conn.loss = s.log.foldr (fun c lt => LossTracker.call lt c) .init
  owed : LossTracker.Owed s.log
  tally : ∀ seq, (s.log.count (.send seq) : ℤ) =
    s.log.count (.ack seq) + s.recording.count seq + s.conn.carrying seq

variable {s t : LossState}

theorem tallied_init (input : ConnectionInput) (start : ℤ) :
    Tallied ⟨newConnection input start, [], []⟩ where
  replay := rfl
  owed := by
    intro older holder seq
    rw [List.suffix_nil.mp holder]
    exact Nat.le_refl _
  tally := by
    intro seq
    have hnone : (newConnection input start).NoneInFlight := by
      intro ch hch
      obtain ⟨entry, -, rfl⟩ := List.mem_map.mp hch
      rfl
    rw [hnone.carrying_eq seq]
    rfl

theorem owed_cons {c : LossCall} {log : List LossCall} (h : LossTracker.Owed log)
    (hcount : ∀ seq, (c :: log).count (.ack seq) ≤ (c :: log).count (.send seq)) :
    LossTracker.Owed (c :: log) := by
  intro older holder
  rcases List.suffix_cons_iff.mp holder with rfl | hsuffix
  · exact hcount
  · exact h older hsuffix

/-- A reliable packet is queued. -/
theorem Tallied.send (h : Tallied s) {id : UInt8} {ch : Channel}
    (found : s.conn.channel id = some ch) (p : PendingPacket) :
    Tallied ⟨{ s.conn.setChannel id (ch.addPending p) with
      loss := s.conn.loss.recordSend p.sequence }, s.recording, .send p.sequence :: s.log⟩ := by
  constructor
  · show LossTracker.recordSend _ _ = _
    rw [h.replay]
    rfl
  · apply owed_cons h.owed
    intro seq
    have howed := h.owed s.log List.suffix_rfl seq
    rw [LossTracker.count_ack_cons, LossTracker.count_send_cons, if_neg (by simp)]
    omega
  · intro seq
    have htally := h.tally seq
    rw [Connection.carrying] at htally
    show _ = _ + _ + ((s.conn.setChannel id _).channels.map _).sum
    rw [Connection.sum_setChannel found, Channel.addPending_carrying, LossTracker.count_ack_cons,
      LossTracker.count_send_cons, if_neg (by simp : LossCall.send p.sequence ≠ .ack seq)]
    simp only [LossCall.send.injEq]
    split <;> push_cast <;> omega

theorem Tallied.queue (h : Tallied s) (p : Stamped) (now : ℤ) :
    Tallied ⟨s.conn.queuePacket p now, s.recording, queueCalls s.conn p ++ s.log⟩ := by
  rw [Connection.queuePacket, queueCalls]
  cases hch : s.conn.channel p.channel with
  | none => exact h
  | some ch =>
      dsimp only
      by_cases hreliable : ch.mode.reliable = true
      · rw [if_pos hreliable, if_pos hreliable, List.singleton_append]
        exact h.send hch ⟨p.raw, now, 0, now + s.conn.retransmitTimeout, true, p.sequence⟩
      · rw [if_neg hreliable, if_neg hreliable]
        exact h

theorem Tallied.acks (h : Tallied s) (now : ℤ) (id : UInt8) (ack : UInt32)
    (ackField : BitVec 32) :
    Tallied ⟨(s.conn.takeAcks now id ack ackField).1,
      s.recording ++ (s.conn.takeAcks now id ack ackField).2, s.log⟩ := by
  rw [Connection.takeAcks]
  cases hch : s.conn.channel id with
  | none =>
      dsimp only
      rw [List.append_nil]
      exact h
  | some ch =>
      dsimp only
      have hcarrying := ch.processAcks_carrying now ack.toNat ackField s.conn.rttState
      generalize ch.processAcks now ack.toNat ackField s.conn.rttState = result at hcarrying ⊢
      obtain ⟨ch', seqs, rtt⟩ := result
      dsimp only at hcarrying ⊢
      -- the congestion window does not matter
      have hcongestion : ∀ c : Connection, c.loss = s.conn.loss →
          c.channels = (s.conn.setChannel id ch').channels →
          Tallied ⟨c, s.recording ++ seqs, s.log⟩ := by
        intro c hloss hchannels
        constructor
        · rw [hloss]
          exact h.replay
        · exact h.owed
        · intro seq
          have htally := h.tally seq
          have hcount := hcarrying seq
          have hsum := Connection.sum_setChannel hch (Channel.carrying seq) ch'
          rw [Connection.carrying] at htally
          rw [Connection.carrying, hchannels, hsum, List.count_append]
          push_cast
          omega
      split
      · exact hcongestion _ rfl rfl
      · exact hcongestion _ rfl rfl

theorem Tallied.record (h : Tallied s) {seq : ℕ} (hseq : seq ∈ s.recording) :
    Tallied ⟨{ s.conn with loss := s.conn.loss.recordAck seq }, s.recording.erase seq,
      .ack seq :: s.log⟩ := by
  have hpositive : 0 < s.recording.count seq := List.count_pos_iff.mpr hseq
  have herase : ∀ seq', (s.recording.erase seq).count seq' =
      s.recording.count seq' - if seq = seq' then 1 else 0 := by
    intro seq'
    rw [List.count_erase]
    simp only [beq_iff_eq]
  constructor
  · show LossTracker.recordAck _ _ = _
    rw [h.replay]
    rfl
  · apply owed_cons h.owed
    intro seq'
    have howed := h.owed s.log List.suffix_rfl seq'
    have htally := h.tally seq'
    have hflight := s.conn.carrying_nonneg seq'
    rw [LossTracker.count_ack_cons, LossTracker.count_send_cons, if_neg (by simp :
      LossCall.ack seq ≠ .send seq')]
    simp only [LossCall.ack.injEq]
    split
    · subst_vars
      omega
    · omega
  · intro seq'
    have htally := h.tally seq'
    show _ = _ + _ + s.conn.carrying seq'
    rw [LossTracker.count_ack_cons, LossTracker.count_send_cons, herase, if_neg (by simp :
      LossCall.ack seq ≠ .send seq')]
    simp only [LossCall.ack.injEq]
    split
    · subst_vars
      omega
    · omega

theorem Tallied.rest (h : Tallied s) {c : Connection} (hc : s.conn.KeepsQueues c) :
    Tallied { s with conn := c } where
  replay := hc.1.trans h.replay
  owed := h.owed
  tally := by
    intro seq
    rw [hc.carrying_eq seq]
    exact h.tally seq

theorem tallied_of_run {input : ConnectionInput} {start : ℤ}
    {hist : List (LossState × LossStep)} (hrun : (system input start).Run hist s) : Tallied s := by
  have hinit : ∀ s, (system input start).init s → Tallied s := by
    rintro s rfl
    exact tallied_init input start
  have hstep : ∀ s l t, Tallied s → (system input start).step s l t → Tallied t := by
    rintro s l t h (hnext | ⟨c, -, hc, rfl⟩)
    · cases l with
      | queue p now =>
          cases hnext
          exact h.queue p now
      | acks now id ack ackField =>
          cases hnext
          exact h.acks now id ack ackField
      | record seq =>
          rw [next] at hnext
          split at hnext
          · rename_i hseq
            cases hnext
            exact h.record hseq
          · cases hnext
      | rest c => cases hnext
    · exact h.rest hc
  exact hrun.invariant hinit hstep

/-- Once nothing is in flight, every packet has been acknowledged. -/
theorem Tallied.count_eq (h : Tallied s) (hflight : s.conn.NoneInFlight)
    (hrecorded : s.recording = []) (seq : ℕ) :
    s.log.count (.ack seq) = s.log.count (.send seq) := by
  have htally := h.tally seq
  rw [hrecorded, List.count_nil, hflight.carrying_eq seq] at htally
  omega

/-- **Loss once everything is acknowledged.** In every run of a connection, when no
reliable packet is in flight and the tracker has been told of every acknowledgement, the
tracker counts all packets of its window as acknowledged, and reports no loss, exactly if
sends with equal numbers were kept apart by an acknowledgement. -/
theorem all_acked_no_loss_iff {input : ConnectionInput} {start : ℤ}
    {hist : List (LossState × LossStep)} (hrun : (system input start).Run hist s)
    (hflight : s.conn.NoneInFlight) (hrecorded : s.recording = []) :
    (s.conn.loss.ackCount = s.conn.loss.count ↔ LossTracker.Apart s.log) ∧
      (LossTracker.ratio s.conn.loss.count s.conn.loss.ackCount = 0 ↔
        LossTracker.Apart s.log) := by
  have h := tallied_of_run hrun
  have hstands := LossTracker.stands_window s.log
  rw [← h.replay] at hstands
  have hall : s.conn.loss.ackCount = s.conn.loss.count ↔ LossTracker.Apart s.log := by
    rw [← LossTracker.all_acked_iff_apart h.owed (h.count_eq hflight hrecorded), hstands.ackCount,
      hstands.count, Nat.cast_inj, List.countP_eq_length]
  refine ⟨hall, ?_⟩
  rw [← hall]
  exact hstands.ratio_eq_zero_iff

def twoChannels : ConnectionInput :=
  plainInput [(.reliableOrdered, 0), (.reliableUnordered, 0)]

/-- One packet on each channel, the second one queued after the first one has been
acknowledged: no acknowledgement is missing. -/
theorem no_loss_one_after_another :
    ∃ hist s, (system twoChannels 0).Run hist s ∧ s.conn.NoneInFlight ∧
      s.recording = [] ∧ s.conn.loss.count = 2 ∧ s.conn.loss.ackCount = 2 ∧
      LossTracker.Apart s.log := by
  obtain ⟨hist, s, hrun, hflight, hrecorded, hcount, hacked⟩ :=
    System.exists_history (S := system twoChannels 0) (fun s l t h => .inl h)
      (s := ⟨newConnection twoChannels 0, [], []⟩) rfl
      [.queue ⟨0, 1, []⟩ 0, .acks 1 0 1 0, .record 1, .queue ⟨1, 1, []⟩ 2, .acks 3 1 1 0, .record 1]
      (fun _ s => s.conn.NoneInFlight ∧ s.recording = [] ∧ s.conn.loss.count = 2 ∧
        s.conn.loss.ackCount = 2)
      (by decide +kernel)
  refine ⟨hist, s, hrun, hflight, hrecorded, hcount, hacked, ?_⟩
  apply (all_acked_no_loss_iff hrun hflight hrecorded).1.mp
  rw [hcount, hacked]
  rfl

/-- The first packets of two channels share the number 1. Both are acknowledged, the
tracker is told so twice, and it still reports that half of the packets were lost. -/
theorem all_acked_half_lost :
    (∀ ch ∈ (newConnection twoChannels 0).channels, ch.nextSequence.2 = 1) ∧
      ∃ hist s, (system twoChannels 0).Run hist s ∧ s.conn.NoneInFlight ∧
      s.recording = [] ∧ s.log = [.ack 1, .ack 1, .send 1, .send 1] ∧
      s.conn.loss.count = 2 ∧ s.conn.loss.ackCount = 1 ∧
      LossTracker.ratio s.conn.loss.count s.conn.loss.ackCount = 1 / 2 := by
  obtain ⟨hist, s, hrun, hflight, hrecorded, hlog, hcount, hacked⟩ :=
    System.exists_history (S := system twoChannels 0) (fun s l t h => .inl h)
      (s := ⟨newConnection twoChannels 0, [], []⟩) rfl
      [.queue ⟨0, 1, []⟩ 0, .queue ⟨1, 1, []⟩ 0, .acks 1 0 1 0, .record 1, .acks 1 1 1 0, .record 1]
      (fun _ s => s.conn.NoneInFlight ∧ s.recording = [] ∧
        s.log = [.ack 1, .ack 1, .send 1, .send 1] ∧ s.conn.loss.count = 2 ∧
        s.conn.loss.ackCount = 1)
      (by decide +kernel)
  refine ⟨by decide +kernel, hist, s, hrun, hflight, hrecorded, hlog, hcount, hacked, ?_⟩
  rw [hcount, hacked, LossTracker.ratio]
  norm_num

end LossState

end Fastwire
