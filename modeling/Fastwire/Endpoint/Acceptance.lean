/-
# Which packets are accepted, and which are acknowledged again

Two windows decide whether a reliable channel takes a packet: the receive window
above `recvNextDeliver` and the 32 bits below `recvAck`. The second is the
narrower one, so a packet that the receive window still expects can be too old
for good. And a packet that is refused does not ask for an acknowledgement, even
when it is refused because it was accepted before.
-/

import Fastwire.Endpoint.Invariant

namespace Fastwire.Endpoint

open Lib

variable {hist : List (Endpoint × Act)} {e : Endpoint} {id : UInt8} {ch : Channel}

/-- Inside the receive window of an ordered channel, and anywhere on an
unordered one, a sequence number that is new is accepted exactly when it is not
more than 32 below the highest accepted one. -/
theorem recordReceive_fresh_iff (hrun : system.Run hist e) (hch : e.conn.channel id = some ch)
    {seq : ℕ} (hnew : seq ∉ acceptedOn e.trace id) :
    (ch.mode = .reliableOrdered → 0 < ch.maxReorderWindow → ch.recvNextDeliver ≤ seq →
        seq < ch.recvNextDeliver + ch.maxReorderWindow →
        ((ch.recordReceive seq).2 = true ↔ seq ≠ 0 ∧ ch.recvAck ≤ seq + 32)) ∧
      (ch.mode = .reliableUnordered → seq ≠ 0 →
        ((ch.recordReceive seq).2 = true ↔ ch.recvAck ≤ seq + 32)) := by
  have hexact := (sound_of_run hrun id ch hch).exact
  rw [Channel.recordReceive_iff hexact]
  constructor
  · intro hmode hwindow hle hlt
    have hinside : ch.beyondWindow seq = false := by
      simp only [Channel.beyondWindow, decide_eq_false_iff_not]
      omega
    simp [hinside, hnew]
  · intro hmode hzero
    have hinside : ch.beyondWindow seq = false := by
      simp [Channel.beyondWindow, hmode]
    simp [hinside, hnew, hzero]

/-- Number 20 has arrived on an ordered and on an unordered channel, number 1 on neither.
Both channels accept it. -/
theorem recordReceive_fresh_twenty :
    ∃ hist e ch ch', system.Run hist e ∧ e.conn.channel 0 = some ch ∧
      ch.mode = .reliableOrdered ∧ 20 ∈ acceptedOn e.trace 0 ∧ 1 ∉ acceptedOn e.trace 0 ∧
      (ch.recordReceive 1).2 = true ∧ e.conn.channel 1 = some ch' ∧
      ch'.mode = .reliableUnordered ∧ 20 ∈ acceptedOn e.trace 1 ∧ 1 ∉ acceptedOn e.trace 1 ∧
      (ch'.recordReceive 1).2 = true := by
  obtain ⟨hist, e, hrun, hres⟩ := exists_run
    (plainInput [(.reliableOrdered, 0), (.reliableUnordered, 0)]) 0
    [.packet 0 [0, 0, 20, 0, 0, 0, 0, 0, 7], .packet 0 [0, 1, 20, 0, 0, 0, 0, 0, 7]]
    (fun e => (e.conn.channel 0).any (fun ch => (e.conn.channel 1).any fun ch' =>
        (ch.mode, ch.maxReorderWindow, ch.recvNextDeliver, ch.recvAck) =
            (.reliableOrdered, 1024, 1, 20) ∧
          (ch'.mode, ch'.recvAck) = (.reliableUnordered, 20)) ∧
      (20 ∈ acceptedOn e.trace 0 ∧ 1 ∉ acceptedOn e.trace 0) ∧
      20 ∈ acceptedOn e.trace 1 ∧ 1 ∉ acceptedOn e.trace 1) (by decide +kernel)
  obtain ⟨hany, ⟨hseen, hnew⟩, hseen', hnew'⟩ := of_decide_eq_true hres
  obtain ⟨ch, hch, hany⟩ := (Option.any_eq_true ..).mp hany
  obtain ⟨ch', hch', hany⟩ := (Option.any_eq_true ..).mp hany
  simp only [Prod.mk.injEq, decide_eq_true_eq] at hany
  obtain ⟨⟨hmode, hwindow, hnext, hack⟩, hmode', hack'⟩ := hany
  have hordered := (recordReceive_fresh_iff hrun hch hnew).1 hmode (by omega) (by omega) (by omega)
  have hunordered := (recordReceive_fresh_iff hrun hch' hnew').2 hmode' (by omega)
  exact ⟨hist, e, ch, ch', hrun, hch, hmode, hseen, hnew, hordered.mpr (by omega), hch', hmode',
    hseen', hnew', hunordered.mpr (by omega)⟩

/-- One early packet is enough: after number 34 has arrived first, number 1 is
refused although the channel waits for it and it is well inside the window. -/
theorem lost_packet_refused :
    ∃ hist e ch, system.Run hist e ∧ e.conn.channel 0 = some ch ∧ ch.mode = .reliableOrdered ∧
      ch.maxReorderWindow = 1024 ∧ ch.recvNextDeliver = 1 ∧ 1 ∉ acceptedOn e.trace 0 ∧
      (ch.recordReceive 1).2 = false := by
  obtain ⟨hist, e, hrun, hres⟩ := exists_run (plainInput [(.reliableOrdered, 0)]) 0
    [.packet 0 [0, 0, 34, 0, 0, 0, 0, 0, 7]]
    (fun e => (e.conn.channel 0).any fun ch =>
      ch.mode = .reliableOrdered ∧ ch.maxReorderWindow = 1024 ∧ ch.recvNextDeliver = 1 ∧
        1 ∉ acceptedOn e.trace 0 ∧ (ch.recordReceive 1).2 = false) (by decide +kernel)
  cases hch : e.conn.channel 0 with
  | none => simp [hch] at hres
  | some ch => exact ⟨hist, e, ch, hrun, hch, by simpa [hch] using hres⟩

/-! ## Acknowledging again -/

/-- A data packet whose number was accepted before leaves `needsAck` as it
was. -/
theorem needsAck_of_duplicate (hrun : system.Run hist e) {data : Bytes} {hdr : PacketHeader}
    {body : Bytes} (hopen : e.conn.openPacket data = some (hdr, body))
    (hdata : hdr.flags &&& flagControl = 0) (hch : e.conn.channel hdr.channel = some ch)
    (hdup : hdr.sequence.toNat ∈ acceptedOn e.trace hdr.channel) (now : ℤ) :
    ∃ e' ch', e.step (.packet now data) = some e' ∧ e'.conn.channel hdr.channel = some ch' ∧
      (ch'.needsAck = true ↔ ch.needsAck = true) := by
  have hrefused : (ch.recordReceive hdr.sequence.toNat).2 = false := by
    rw [← Bool.not_eq_true, Channel.recordReceive_iff (sound_of_run hrun _ ch hch).exact]
    exact fun hfresh => hfresh.2.2.1 hdup
  obtain ⟨c', events, hok, hquiet⟩ := Connection.processPacket_refused hopen hdata hch hrefused now
  obtain ⟨ch', hch', -, hneeds⟩ := hquiet.channel _ ch hch
  exact ⟨_, ch', step_packet e hok, hch', by rw [hneeds]⟩

/-- The first data packet of channel 0, with one byte of payload. -/
def firstPacket : Bytes := [0, 0, 1, 0, 0, 0, 0, 0, 7]

/-- The same packet twice. -/
theorem needsAck_of_duplicate_first :
    ∃ hist e e' ch ch', system.Run hist e ∧ e.conn.channel 0 = some ch ∧
      1 ∈ acceptedOn e.trace 0 ∧ e.step (.packet 0 firstPacket) = some e' ∧
      e'.conn.channel 0 = some ch' ∧ (ch'.needsAck = true ↔ ch.needsAck = true) := by
  obtain ⟨hist, e, hrun, hres⟩ := exists_run (plainInput [(.reliableOrdered, 0)]) 0
    [.packet 0 firstPacket]
    (fun e => (e.conn.channel 0).isSome ∧ 1 ∈ acceptedOn e.trace 0 ∧
      e.conn.openPacket firstPacket = some (⟨0, 0, 1, 0, 0⟩, [7])) (by decide +kernel)
  obtain ⟨hsome, hdup, hopen⟩ := by simpa using hres
  obtain ⟨ch, hch⟩ := Option.isSome_iff_exists.mp hsome
  obtain ⟨e', ch', hstep, hch', hneeds⟩ := needsAck_of_duplicate hrun hopen rfl hch hdup 0
  exact ⟨hist, e, e', ch, ch', hrun, hch, hdup, hstep, hch', hneeds⟩

/-- After the tick has sent its acknowledgement, a retransmission of the first
packet asks for none. -/
theorem retransmission_not_acknowledged :
    ∃ hist e e' ch', system.Run hist e ∧ 1 ∈ acceptedOn e.trace 0 ∧
      e.conn.openPacket firstPacket = some (⟨0, 0, 1, 0, 0⟩, [7]) ∧
      e.step (.packet 0 firstPacket) = some e' ∧ e'.conn.channel 0 = some ch' ∧
      ch'.mode = .reliableOrdered ∧ ch'.needsAck = false := by
  obtain ⟨hist, e, hrun, hres⟩ := exists_run (plainInput [(.reliableOrdered, 0)]) 0
    [.packet 0 firstPacket, .clearAck 0, .sealAcks [0]]
    (fun e => 1 ∈ acceptedOn e.trace 0 ∧
      e.conn.openPacket firstPacket = some (⟨0, 0, 1, 0, 0⟩, [7]) ∧
      ((e.step (.packet 0 firstPacket)).bind fun e' => e'.conn.channel 0).any fun ch' =>
        ch'.mode = .reliableOrdered ∧ ch'.needsAck = false) (by decide +kernel)
  obtain ⟨hdup, hopen, hany⟩ : _ ∧ _ ∧ _ := by simpa only [decide_eq_true_eq] using hres
  cases hstep : e.step (.packet 0 firstPacket) with
  | none => simp [hstep] at hany
  | some e' =>
      cases hch' : e'.conn.channel 0 with
      | none => simp [hstep, hch'] at hany
      | some ch' =>
          exact ⟨hist, e, e', ch', hrun, hdup, hopen, hstep, hch',
            by simpa [hstep, hch'] using hany⟩

end Fastwire.Endpoint
