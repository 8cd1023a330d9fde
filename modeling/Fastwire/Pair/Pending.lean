/-
# Acknowledged packets that still wait

A packet is put into the retransmission queue after it was written. The goroutine
that reads may process the acknowledgement in between: it finds nothing to remove,
and the packet is queued afterwards although nobody will acknowledge it again. If
this does not happen, no packet is left behind: what was acknowledged was sealed, and
from then on its number is neither with a send nor in the queue.
-/

import Fastwire.Endpoint.Places
import Fastwire.Pair.AckSound

namespace Fastwire

open Lib

namespace Endpoint

def applies (e : Endpoint) : Act → List MultiAckEntry
  | .packet _ data => e.conn.appliedIn data
  | _ => []

def toQueue (e : Endpoint) (sent : Stamped) : Bool :=
  (e.conn.channel sent.channel).any fun ch => ch.mode.reliable

/-- The act applies no acknowledgement of a packet that is written and not in its
retransmission queue yet. -/
def queuedFirst (e : Endpoint) (a : Act) : Bool :=
  e.transmitted.all fun sent => !e.toQueue sent ||
    (e.applies a).all fun entry => !decide (entry.Covers sent.channel.toNat sent.sequence)

variable {e e' : Endpoint} {a : Act}

theorem not_covers_of_queuedFirst (h : e.queuedFirst a = true) {sent : Stamped}
    (hsent : sent ∈ e.transmitted) (hqueue : e.toQueue sent = true) {entry : MultiAckEntry}
    (hentry : entry ∈ e.applies a) : ¬ entry.Covers sent.channel.toNat sent.sequence := by
  have hall := List.all_eq_true.mp h sent hsent
  rw [hqueue, Bool.not_true, Bool.false_or] at hall
  simpa using List.all_eq_true.mp hall entry hentry

/-- The modes of the channels are fixed. -/
theorem toQueue_step (hstep : e.step a = some e') {sent : Stamped}
    (h : e'.toQueue sent = true) : e.toQueue sent = true := by
  obtain ⟨ch', hch', hmode⟩ := (Option.any_eq_true ..).mp h
  obtain ⟨ch, hch, hkept⟩ := send_step hstep hch'
  rw [hkept.mode_eq] at hmode
  exact (Option.any_eq_true ..).mpr ⟨ch, hch, hmode⟩

theorem sealed_of_unmarshal {raw : Bytes} {hdr : PacketHeader} {n : ℕ}
    (hraw : raw ∈ e.conn.sendCipher.sealed) (hparse : unmarshalHeader raw = .ok (hdr, n))
    (hdata : hdr.flags &&& flagControl = 0) : e.Sealed (hdr.channel, hdr.sequence.toNat) :=
  ⟨raw, hraw, by simp [dataNumber, hparse, hdata]⟩

/-- A number that is out of the way: it was sealed, no send is about to queue it, and it
is not in the queue. -/
structure Done (e : Endpoint) (id : UInt8) (seq : ℕ) : Prop where
  sealed : e.Sealed (id, seq)
  transmitted : ∀ sent ∈ e.transmitted, e.toQueue sent = true → sent.key ≠ (id, seq)
  pending : ∀ ch, e.conn.channel id = some ch → ∀ q ∈ ch.pendingSend, q.sequence ≠ seq

/-- **What is done stays done.** A send can only seal numbers that are not sealed. -/
theorem Done.step {id : UInt8} {seq : ℕ} (h : e.Done id seq) (hplaced : e.Placed)
    (hstep : e.step a = some e') : e'.Done id seq where
  sealed := h.sealed.step hstep
  transmitted := by
    intro sent hsent hqueue
    rcases (moves_step hstep).transmitted sent hsent with hold | hstamped
    · exact h.transmitted sent hold (toQueue_step hstep hqueue)
    · rintro heq
      exact hplaced.apart _ h.sealed (heq ▸ Placed.mem_unsent hstamped)
  pending := by
    intro ch' hch' q hq
    obtain ⟨ch, hch, hkept⟩ := send_step hstep hch'
    rcases hkept.pending q hq with ⟨q₀, hq₀, hseq, -⟩ | ⟨sent, now, -, hsent, hid, hmode, hseq, -⟩
    · rw [← hseq]
      exact h.pending ch hch q₀ hq₀
    · obtain rfl : sent.channel = id := UInt8.toNat_inj.mp hid
      have hqueue : e.toQueue sent = true := (Option.any_eq_true ..).mpr ⟨ch, hch, hmode⟩
      intro heq
      exact h.transmitted sent hsent hqueue (Prod.ext rfl (hseq.symm.trans heq))

/-- A number that is acknowledged is done, if its packet was queued in time. -/
theorem done_of_applies {id : UInt8} {seq : ℕ} (hsealed : e.Sealed (id, seq))
    (hfirst : e.queuedFirst a = true) (hstep : e.step a = some e') {entry : MultiAckEntry}
    (hentry : entry ∈ e.applies a) (hcovers : entry.Covers id.toNat seq) : e'.Done id seq := by
  cases a with
  | packet now data =>
      refine ⟨hsealed.step hstep, fun sent hsent hqueue heq => ?_, fun ch' hch' q hq => ?_⟩
      · rw [transmitted_step hstep (by simp) (by simp)] at hsent
        obtain ⟨rfl, rfl⟩ : sent.channel = id ∧ sent.sequence = seq := Prod.mk.inj heq
        exact not_covers_of_queuedFirst hfirst hsent (toQueue_step hstep hqueue) hentry hcovers
      · simp only [step] at hstep
        split at hstep <;> cases hstep
        rename_i c events hok
        rintro rfl
        exact Connection.processPacket_clears hok hentry id.toNat ch' hch' q hq hcovers
  | _ => cases hentry

end Endpoint

namespace Pair

variable {hist : List (Pair × (Side × Act))} {p p' : Pair} {s : Side}

/-- An acknowledgement of the number has been processed. -/
def Processed (s : Side) (hist : List (Pair × (Side × Act))) (id : UInt8) (seq : ℕ) : Prop :=
  ∃ past ∈ hist, past.2.1 = s ∧
    ∃ entry ∈ (past.1.get s).applies past.2.2, entry.Covers id.toNat seq

instance (s : Side) (hist : List (Pair × (Side × Act))) (id : UInt8) (seq : ℕ) :
    Decidable (Processed s hist id seq) :=
  inferInstanceAs (Decidable (∃ past ∈ hist, _))

/-- The condition on a step: packets are queued before their acknowledgements are
processed, and no counter comes round. -/
structure Timely (s : Side) (p : Pair) (move : Side × Act) : Prop where
  queued : move.1 = s → (p.get s).queuedFirst move.2 = true
  counts : move.1 = s → (p.get s).counts move.2 = true

instance (s : Side) (p : Pair) (move : Side × Act) : Decidable (Timely s p move) :=
  decidable_of_iff ((move.1 = s → (p.get s).queuedFirst move.2 = true) ∧
    (move.1 = s → (p.get s).counts move.2 = true)) ⟨fun h => ⟨h.1, h.2⟩, fun h => ⟨h.1, h.2⟩⟩

/-- What one end has accepted, the other end has sealed. -/
def Answered (s : Side) (p : Pair) : Prop :=
  ∀ id, ∀ seq ∈ acceptedOn (p.get s.other).trace id, (p.get s).Sealed (id, seq)

theorem answered_of_run (hrun : system.Run hist p) (s : Side) : Answered s p := by
  induction hrun with
  | start starts =>
      obtain ⟨input, now, heq, -⟩ := starts s.other
      intro id seq hseq
      rw [heq] at hseq
      cases hseq
  | @step hist p p' move prior taken ih =>
      obtain ⟨side, a⟩ := move
      obtain ⟨hauth, e', hstep, rfl⟩ := step_eq_some_iff.mp taken
      intro id seq hseq
      by_cases hside : side = s
      · subst hside
        rw [get_other_set] at hseq
        rw [get_set]
        exact (ih id seq hseq).step hstep
      · obtain rfl := Side.eq_other_of_ne hside
        rw [get_set] at hseq
        rw [get_set_other]
        rcases Endpoint.step_cases hstep with hidle |
          ⟨now, data, hdr, body, ch, _, _, _, _, events, rfl, hpacket, hacc, heq⟩
        · rw [hidle.acceptedOn_eq] at hseq
          exact ih id seq hseq
        · rw [heq, acceptedOn_append, hacc.acceptedOn_events] at hseq
          rcases hseq with hold | hnew
          · exact ih id seq hold
          · obtain ⟨hopen, -, hdata, -⟩ := Connection.acceptedPacket_eq_some_iff.mp hpacket
            obtain ⟨plaintext, n, hsealed, hparse, -⟩ := sealed_of_openPacket hauth hopen
            split at hnew
            · rename_i hid
              obtain rfl := hid
              obtain rfl : seq = hdr.sequence.toNat := hnew
              have hback : s.other.other = s := by cases s <;> rfl
              rw [hback] at hsealed
              exact Endpoint.sealed_of_unmarshal hsealed hparse hdata
            · cases hnew

theorem placed_of_init (hinit : system.init p) (s : Side) : (p.get s).Placed := by
  obtain ⟨input, now, heq, hsealed⟩ := hinit s
  rw [heq]
  refine Endpoint.placed_start fun raw hraw => ?_
  obtain ⟨token, htoken⟩ := hsealed raw hraw
  rw [dataNumber]
  split
  · rfl
  · rename_i hdr n hparse
    exact if_neg (control_of_buildControlPacket htoken hparse)

/-- Every number whose acknowledgement was processed is done. -/
theorem done_of_processed (hrun : system.Run hist p) (hguard : System.Guarded (Timely s) hist) :
    (p.get s).Placed ∧ ∀ id seq, Processed s hist id seq → (p.get s).Done id seq := by
  induction hrun with
  | start starts =>
      refine ⟨placed_of_init starts s, ?_⟩
      rintro id seq ⟨past, hpast, -⟩
      cases hpast
  | @step hist p p' move prior taken ih =>
      obtain ⟨side, a⟩ := move
      rw [System.guarded_cons] at hguard
      obtain ⟨htimely, hguard⟩ := hguard
      obtain ⟨hplaced, hdone⟩ := ih hguard
      obtain ⟨hauth, e', hstep, rfl⟩ := step_eq_some_iff.mp taken
      by_cases hside : side = s
      · subst hside
        rw [get_set]
        refine ⟨hplaced.step (htimely.counts rfl) hstep, ?_⟩
        rintro id seq ⟨past, hpast, hwho, entry, hentry, hcovers⟩
        rcases List.mem_cons.mp hpast with rfl | hold
        · have hsealed : (p.get side).Sealed (id, seq) := by
            refine answered_of_run prior side id seq ?_
            cases a with
            | packet now data =>
                have hread := Connection.acksIn_of_appliedIn hentry
                exact accepted_of_covers prior hauth hread hcovers
            | _ => cases hentry
          exact Endpoint.done_of_applies hsealed (htimely.queued rfl) hstep hentry hcovers
        · exact (hdone id seq ⟨past, hold, hwho, entry, hentry, hcovers⟩).step hplaced hstep
      · refine ⟨?_, ?_⟩
        · obtain rfl := Side.eq_other_of_ne hside
          rw [get_set_other]
          exact hplaced
        · rintro id seq ⟨past, hpast, hwho, hentry⟩
          rcases List.mem_cons.mp hpast with rfl | hold
          · exact absurd hwho hside
          · obtain rfl := Side.eq_other_of_ne hside
            rw [get_set_other]
            exact hdone id seq ⟨past, hold, hwho, hentry⟩

/-- In every run in which packets are queued before their acknowledgements are processed
and no counter comes round, no packet waits in a retransmission queue after an
acknowledgement of its number has been processed. -/
theorem no_acknowledged_packet_waits (hrun : system.Run hist p)
    (hguard : System.Guarded (Timely s) hist) {id : UInt8} {ch : Channel}
    (hch : (p.get s).conn.channel id = some ch) :
    ∀ q ∈ ch.pendingSend, ¬ Processed s hist id q.sequence := by
  intro q hq hprocessed
  exact ((done_of_processed hrun hguard).2 id q.sequence hprocessed).pending ch hch q hq rfl

/-! ## One packet and its acknowledgement -/

def firstPacket : Stamped := ⟨0, 1, [0, 0, 1, 0, 0, 0, 0, 0, 7]⟩

/-- The left end writes the packet. -/
def writesFirst : List (Side × Act) :=
  [(.left, .number 0), (.left, .stamp 0 1 false [7]), (.left, .transmit firstPacket true)]

/-- It arrives, and the acknowledgement comes back. -/
def answersFirst : List (Side × Act) :=
  [(.right, .packet 0 firstPacket.raw), (.right, .sealAcks [0]),
    (.left, .packet 0 [2, 0, 0, 0, 0, 0, 0, 0, 9, 1, 0, 1, 0, 0, 0, 0])]

/-- The left end enters it into the retransmission queue. -/
def queuesFirst : List (Side × Act) := [(.left, .queue firstPacket 0)]

/-- The packet is queued in time, and its acknowledgement removes it. -/
theorem no_acknowledged_packet_waits_first :
    ∃ hist p ch, system.Run hist p ∧ p.left.conn.channel 0 = some ch ∧
      Processed .left hist 0 1 ∧ ∀ q ∈ ch.pendingSend, q.sequence ≠ 1 := by
  obtain ⟨hist, p, hrun, hguard, hprocessed, hsome⟩ := System.exists_history (S := system)
    (fun _ _ _ hstep => hstep) (init_plain [(.reliableOrdered, 0)])
    (writesFirst ++ queuesFirst ++ answersFirst)
    (fun hist p => System.Guarded (Timely .left) hist ∧ Processed .left hist 0 1 ∧
      (p.left.conn.channel 0).isSome = true) (by decide +kernel)
  obtain ⟨ch, hch⟩ := Option.isSome_iff_exists.mp hsome
  refine ⟨hist, p, ch, hrun, hch, hprocessed, ?_⟩
  rintro q hq heq
  have hnone := no_acknowledged_packet_waits (s := .left) hrun hguard hch q hq
  exact hnone (heq ▸ hprocessed)

/-- The acknowledgement is processed between the write and the queueing. The packet
waits, although its acknowledgement has been processed. -/
theorem acknowledged_packet_waits :
    ∃ hist p ch q, system.Run hist p ∧ p.left.conn.channel 0 = some ch ∧
      ch.mode.reliable = true ∧ q ∈ ch.pendingSend ∧ Processed .left hist 0 q.sequence ∧
      System.Guarded (fun p move => move.1 = .left → p.left.counts move.2 = true) hist := by
  obtain ⟨hist, p, hrun, hguard, hwaits⟩ := System.exists_history (S := system)
    (fun _ _ _ hstep => hstep) (init_plain [(.reliableOrdered, 0)])
    (writesFirst ++ answersFirst ++ queuesFirst)
    (fun hist p =>
      System.Guarded (fun p move => move.1 = .left → p.left.counts move.2 = true) hist ∧
      ((p.left.conn.channel 0).any fun ch => ch.mode.reliable &&
        ch.pendingSend.any fun q => Processed .left hist 0 q.sequence) = true) (by decide +kernel)
  obtain ⟨ch, hch, hwaits⟩ := (Option.any_eq_true ..).mp hwaits
  obtain ⟨hmode, hwaits⟩ := Bool.and_eq_true_iff.mp hwaits
  obtain ⟨q, hq, hprocessed⟩ := List.any_eq_true.mp hwaits
  exact ⟨hist, p, ch, q, hrun, hch, hmode, hq, of_decide_eq_true hprocessed, hguard⟩

end Pair

end Fastwire
