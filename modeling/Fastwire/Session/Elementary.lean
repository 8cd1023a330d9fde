/-
# Elementary changes of a connection

Whatever a server, a client or the application does to a connection is one of a
few operations, and every operation is a chain of elementary changes: a number is
taken, a packet is sealed and written, an acknowledgement is applied, a timestamp
is set. The pipeline rules speak about the part of a connection that the wire
depends on; the changes here keep all of it, with the clock reading of the operation.
-/

import Fastwire.Connection.Pipeline
import Fastwire.Endpoint.Basic
import Fastwire.Interleaving.Work
import Mathlib.Logic.Relation

namespace Fastwire

open Crypto

/-- What can be done to a connection. -/
inductive Op
  /-- A section of the tick goroutine. -/
  | work (w : Work)
  | close
  | sendImmediate (data : Bytes) (channel : UInt8)
  | send (data : Bytes) (channel : UInt8)
  /-- `tryMigration` swaps the address. -/
  | relocate (addr : AddrPort)
  /-- `releasePendingBuffers` outside a tick. -/
  | release
  /-- `setState(StateDisconnected)` outside a tick. -/
  | disconnect
  /-- `OnDisconnect` with `DisconnectGraceful` outside a tick. -/
  | notify
  deriving DecidableEq

/-- The connection after an operation, what was written and what was reported. -/
def Op.apply (c : Connection) (cfg : TickConfig) (s : Socket) (now : ℤ) :
    Op → Except GoPanic (Connection × Socket × List Event)
  | .work w =>
      match w.advance c cfg s now with
      | .error p => .error p
      | .ok (c, s, _, events) => .ok (c, s, events)
  | .close => .ok ((c.close s now).1, (c.close s now).2.1, [])
  | .sendImmediate data channel =>
      .ok ((c.sendImmediate s data channel now).1, (c.sendImmediate s data channel now).2.1, [])
  | .send data channel => .ok ((c.enqueueSend data channel).1, s, [])
  | .relocate addr => .ok ({ c with remoteAddr := addr }, s, [])
  | .release => .ok (c.releasePendingBuffers, s, [])
  | .disconnect => .ok ({ c with state := .disconnected }, s, [])
  | .notify => .ok (c, s, [.onDisconnect .graceful])

/-- The operation handles a packet that `Decrypt` has accepted. -/
def Op.hears : Op → Bool
  | .work (.handling _ _) => true
  | _ => false

/-- The state that the operation, if it is a tick, goes by. -/
def Op.ticking : Op → Option ConnState
  | .work (.ticking seen) => some seen
  | _ => none

theorem Op.ticking_eq_some {op : Op} {seen : ConnState} (h : op.ticking = some seen) :
    op = .work (.ticking seen) := by
  cases op with
  | work w =>
      cases w with
      | ticking seen' =>
          cases h
          rfl
      | _ => cases h
  | _ => cases h

namespace Connection

/-- One elementary change in the course of an operation at a given time, with the writes
it makes. -/
inductive Elementary (cfg : TickConfig) (now : ℤ) (op : Op) :
    Connection × Socket → Connection × Socket → Prop
  /-- `nextSequence`. -/
  | number {c s id ch} (found : c.channel id = some ch) :
      Elementary cfg now op (c, s) (c.setChannel id ch.nextSequence.1, s)
  /-- A data packet is sealed and written, or queued for the batch. -/
  | transmit {c s raw} (short : raw.length ≤ maxPlaintext) :
      Elementary cfg now op (c, s) ((c.transmitPacket s raw).1, (c.transmitPacket s raw).2.1)
  /-- A data packet waits for its acknowledgement. -/
  | queue {c s p} (short : p.raw.length ≤ maxPlaintext) :
      Elementary cfg now op (c, s) (c.queuePacket p now, s)
  | touchSend {c s} : Elementary cfg now op (c, s) ({ c with lastSend := now }, s)
  | fragmentID {c s} : Elementary cfg now op (c, s) (c.nextFragmentID.1, s)
  | skipBatch {c s} (skip : Bool) :
      Elementary cfg now op (c, s) ({ c with skipBatch := skip }, s)
  | sendQueue {c s} (msgs : List OutgoingMessage) :
      Elementary cfg now op (c, s) ({ c with sendQueue := msgs }, s)
  /-- `checkRetransmissions` on one channel, unless it kills the connection. -/
  | check {c s i ch} (found : c.channels[i]? = some ch)
      (alive : (ch.checkRetransmissions now c.retransmitTimeout cfg.maxRetransmits).2.2 = false) :
      Elementary cfg now op (c, s) (c.setIndex i
        (ch.checkRetransmissions now c.retransmitTimeout cfg.maxRetransmits).1, s)
  /-- A packet that waits is sealed and written again. -/
  | resend {c s raw} (unacked : c.Unacked raw) :
      Elementary cfg now op (c, s) (c.retransmitPacket s raw now)
  | flush {c s} :
      Elementary cfg now op (c, s) ((c.flushBatch s cfg.mtu).1, (c.flushBatch s cfg.mtu).2.1)
  | clearNeedsAck {c s i ch} (found : c.channels[i]? = some ch) :
      Elementary cfg now op (c, s) (c.setIndex i ch.clearNeedsAck.1, s)
  /-- An acknowledgement or a heartbeat. -/
  | acks {c s} (ids : List UInt8) :
      Elementary cfg now op (c, s) ((c.sendMultiChannelHeartbeat s ids now).1,
        (c.sendMultiChannelHeartbeat s ids now).2.1)
  /-- A tick writes the disconnect packet again. -/
  | repeatDisconnect {c s packet} (waiting : c.disconnectPacket = some packet)
      (ticks : op.ticking ≠ none) :
      Elementary cfg now op (c, s) ({ c with
        disconnectRetries := c.disconnectRetries + 1
        nextDisconnectRetry := now + c.rttState.timeout }, (s.write packet).1)
  | close {c s} (live : c.state = .connected) :
      Elementary cfg now op (c, s) ((c.close s now).1, (c.close s now).2.1)
  | shutDown {c s} : Elementary cfg now op (c, s) (c.shutDown, s)
  | release {c s} (outside : op = .release) :
      Elementary cfg now op (c, s) (c.releasePendingBuffers, s)
  | disconnect {c s} : Elementary cfg now op (c, s) ({ c with state := .disconnected }, s)
  | relocate {c s} (addr : AddrPort) :
      Elementary cfg now op (c, s) ({ c with remoteAddr := addr }, s)
  /-- `Decrypt` accepts a packet. -/
  | accept {c s packet plaintext cipher}
      (opens : c.recvCipher.decrypt packet = .ok (plaintext, cipher)) :
      Elementary cfg now op (c, s) (c.withRecvCipher cipher, s)
  | touchRecv {c s} (hears : op.hears = true) :
      Elementary cfg now op (c, s) (c.touchRecv now, s)
  | applyAcks {c s} (id : UInt8) (ack : UInt32) (field : BitVec 32) :
      Elementary cfg now op (c, s) ((c.applyAcks now id ack field).1, s)
  /-- `recordReceive` or `deliver`: no packet begins to wait. -/
  | receive {c s id ch ch'} (found : c.channel id = some ch)
      (fewer : ch'.pendingSend ⊆ ch.pendingSend) (same : ch'.buffering = ch.buffering) :
      Elementary cfg now op (c, s) (c.setChannel id ch', s)
  | store {c s} (store : ReassemblyStore) :
      Elementary cfg now op (c, s) ({ c with reassembly := store }, s)

abbrev Chain (cfg : TickConfig) (now : ℤ) (op : Op) :
    Connection × Socket → Connection × Socket → Prop :=
  Relation.ReflTransGen (Elementary cfg now op)

/-- A call is a chain of elementary changes. -/
abbrev Leads {α : Type} (cfg : TickConfig) (now : ℤ) (op : Op) (c : Connection) (s : Socket)
    (result : Connection × Socket × α) : Prop :=
  Chain cfg now op (c, s) (result.1, result.2.1)

variable {cfg : TickConfig} {now : ℤ} {op : Op} {c : Connection} {s : Socket}

/-- What every elementary change keeps, a chain keeps. -/
theorem Chain.invariant {I : Connection × Socket → Prop} {x y : Connection × Socket}
    (hchain : Chain cfg now op x y)
    (hstep : ∀ x y, Elementary cfg now op x y → I x → I y) (h : I x) : I y := by
  induction hchain with
  | refl => exact h
  | tail _ last ih => exact hstep _ _ last ih

/-- What the pipeline rules keep, every elementary change keeps. -/
theorem Elementary.pipeline {I : Connection → Socket → Prop} (htick : TickInvariant cfg.mtu I)
    (hreceive : ∀ s, ReceiveInvariant fun c => I c s)
    (hwire : ∀ {c c' s}, I c s → c'.wire = c.wire → I c' s) {x y : Connection × Socket}
    (hstep : Elementary cfg now op x y) (h : I x.1 x.2) : I y.1 y.2 := by
  cases hstep with
  | number found => exact htick.number found h
  | transmit short => exact htick.transmit short h
  | queue short => exact htick.queue now short h
  | check found => exact htick.check now _ cfg.maxRetransmits found h
  | resend unacked => exact htick.resend now unacked h
  | flush => exact htick.flush h
  | clearNeedsAck found => exact htick.clear found h
  | acks ids => exact htick.acks ids now h
  | repeatDisconnect waiting => exact htick.books (htick.repeatDisconnect waiting h) rfl
  | close => exact htick.close now h
  | shutDown => exact htick.shutDown h
  | release => exact hwire (htick.shutDown h) rfl
  | applyAcks id ack field => exact (hreceive _).applyAcks now id ack field h
  | receive found fewer same => exact (hreceive _).channel found fewer same h
  | _ => exact hwire h rfl

/-! ## The state and the timers -/

/-- The announcement of a close, how often it was repeated and when it is due again. -/
def leaving (c : Connection) : Slice × ℕ × ℤ :=
  (c.disconnectPacket, c.disconnectRetries, c.nextDisconnectRetry)

/-- What a change can do to the state, to the timers and to the number of packets sealed. -/
structure Effect (now : ℤ) (op : Op) (c c' : Connection) : Prop where
  sealed_le : c.sendCipher.sealed.length ≤ c'.sendCipher.sealed.length
  rttState : c'.rttState = c.rttState ∨ ∃ ch ack field,
    c'.rttState = (Channel.processAcks ch now ack field c.rttState).2.2
  /-- Only a packet of the peer is a sign of life. -/
  lastRecv : c'.lastRecv = c.lastRecv ∨ op.hears = true ∧ c'.lastRecv = now
  /-- Nobody goes back to the connected state. -/
  connected : c'.state = .connected → c.state = .connected
  /-- Nobody comes back from the disconnected state. -/
  disconnected : c.state = .disconnected → c'.state = .disconnected
  /-- A close is left to the ticks. -/
  closing : c.state = .disconnecting → op.ticking = none → op ≠ .release →
    c'.state = .disconnected ∨ c'.state = .disconnecting ∧ c'.leaving = c.leaving

/-- What the effects are about, the cipher apart. -/
def vitals (c : Connection) : ConnState × Rtt × ℤ × Slice × ℕ × ℤ :=
  (c.state, c.rttState, c.lastRecv, c.leaving)

theorem Effect.of_vitals {c' : Connection} (h : c'.vitals = c.vitals)
    (hsealed : c.sendCipher.sealed.length ≤ c'.sendCipher.sealed.length) :
    Effect now op c c' := by
  simp only [vitals, Prod.mk.injEq] at h
  obtain ⟨hstate, hrtt, hrecv, hleaving⟩ := h
  refine ⟨hsealed, .inl hrtt, .inl hrecv, fun hc => hstate ▸ hc, fun hc => hstate ▸ hc, ?_⟩
  intro hc _ _
  exact .inr ⟨hstate ▸ hc, hleaving⟩

/-- A change of the state alone. -/
theorem Effect.of_down {c' : Connection} (hstate : c'.state = .disconnected)
    (h : (c'.sendCipher, c'.rttState, c'.lastRecv) = (c.sendCipher, c.rttState, c.lastRecv)) :
    Effect now op c c' := by
  simp only [Prod.mk.injEq] at h
  obtain ⟨hcipher, hrtt, hrecv⟩ := h
  refine ⟨by rw [hcipher], .inl hrtt, .inl hrecv, ?_, fun _ => hstate, fun _ _ _ => .inl hstate⟩
  intro hlive
  rw [hstate] at hlive
  cases hlive

theorem Effect.applyAcks (c : Connection) (now : ℤ) (id : UInt8) (ack : UInt32)
    (field : BitVec 32) : Effect now op c (c.applyAcks now id ack field).1 := by
  rw [Connection.applyAcks]
  split
  · exact .of_vitals rfl le_rfl
  · rename_i ch _
    dsimp only
    rw [countAcked]
    split <;> exact ⟨le_rfl, .inr ⟨ch, ack.toNat, field, rfl⟩, .inl rfl, fun hc => hc,
      fun hc => hc, fun hc _ _ => .inr ⟨hc, rfl⟩⟩

theorem Effect.close (hlive : c.state = .connected) (s : Socket) (now : ℤ) :
    Effect now op c (c.close s now).1 := by
  obtain ⟨state, sendCipher, packet, retries, next, heq, hmore⟩ := c.close_books s now
  rw [heq]
  refine ⟨hmore, .inl rfl, .inl rfl, fun _ => hlive, ?_, ?_⟩
  · intro hdown
    rw [hlive] at hdown
    cases hdown
  · intro hclosing
    rw [hlive] at hclosing
    cases hclosing

theorem Elementary.effect {x y : Connection × Socket} (hstep : Elementary cfg now op x y) :
    Effect now op x.1 y.1 := by
  cases hstep with
  | @transmit c s raw short =>
      obtain ⟨batchBuf, transmissions, heq⟩ := c.transmitPacket_books s raw
      rw [heq]
      exact .of_vitals rfl (by simp)
  | @queue c s p short =>
      obtain ⟨channels, loss, heq⟩ := c.queuePacket_books p now
      rw [heq]
      exact .of_vitals rfl le_rfl
  | resend unacked => exact .of_vitals rfl (by simp [retransmitPacket])
  | @acks c s ids =>
      obtain ⟨sendCipher, lastSend, heq, hmore⟩ := c.acks_books s ids now
      rw [heq]
      exact .of_vitals rfl hmore
  | repeatDisconnect waiting ticks =>
      exact ⟨le_rfl, .inl rfl, .inl rfl, id, id, fun _ hnone => absurd hnone ticks⟩
  | close live => exact .close live _ now
  | shutDown => exact .of_down rfl rfl
  | release outside =>
      exact ⟨le_rfl, .inl rfl, .inl rfl, id, id, fun _ _ hother => absurd outside hother⟩
  | disconnect => exact .of_down rfl rfl
  | touchRecv hears =>
      exact ⟨le_rfl, .inl rfl, .inr ⟨hears, rfl⟩, id, id, fun hc _ _ => .inr ⟨hc, rfl⟩⟩
  | applyAcks id ack field => exact .applyAcks _ now id ack field
  | _ => exact .of_vitals rfl le_rfl

/-- A connection that is up at the end of a chain has been up all along. -/
theorem Chain.connected {x y : Connection × Socket} (hchain : Chain cfg now op x y)
    (hlive : y.1.state = .connected) : x.1.state = .connected := by
  induction hchain with
  | refl => exact hlive
  | tail _ last ih => exact ih (last.effect.connected hlive)

/-! ## Sending -/

theorem chain_sendPacket {ch : Channel} {id : UInt8} (found : c.channel id = some ch)
    (flags : UInt8) {body : Bytes} (hbody : body.length ≤ bodyLimit) :
    Leads cfg now op c s (c.sendPacket s ch id flags body now) := by
  have hstamp : Chain cfg now op (c, s) ((c.stampPacket ch id flags body).1, s) :=
    .single (.number found)
  have hshort : ∀ p, (c.stampPacket ch id flags body).2 = .ok p →
      p.raw.length ≤ maxPlaintext := by
    intro p hp
    obtain ⟨q, hq, -, -, hlen⟩ := buildPacket_ok ch.nextSequence.1 id flags ch.nextSequence.2 body
    cases hq.symm.trans hp
    exact hlen.trans (Nat.add_le_add_left hbody _)
  rw [sendPacket]
  split
  · rename_i heq
    rwa [heq] at hstamp
  · rename_i c₁ p heq
    rw [heq] at hstamp
    have hp := hshort p (congrArg Prod.snd heq)
    have htransmit := hstamp.tail (.transmit hp)
    split
    · rename_i heq'
      rwa [heq'] at htransmit
    · rename_i heq'
      rw [heq'] at htransmit
      exact htransmit.tail (.queue hp)

theorem chain_sendSinglePacket {ch : Channel} {id : UInt8} (found : c.channel id = some ch)
    {payload : Bytes} (hpayload : payload.length ≤ maxFragmentPayload) :
    Leads cfg now op c s (c.sendSinglePacket s ch id payload now) := by
  have hsend : Chain cfg now op (c, s) _ :=
    chain_sendPacket found 0 (Nat.le_add_left_of_le hpayload)
  rw [sendSinglePacket]
  split
  · rename_i heq
    rwa [heq] at hsend
  · rename_i heq
    rw [heq] at hsend
    exact hsend.tail .touchSend

theorem chain_sendFragments (id : UInt8) {fragments : List Bytes}
    (hfragments : ∀ frag ∈ fragments, frag.length ≤ bodyLimit) :
    Leads cfg now op c s (sendFragments id now c s fragments) := by
  induction fragments generalizing c s with
  | nil => exact .single .touchSend
  | cons frag fragments ih =>
      rw [List.forall_mem_cons] at hfragments
      rw [sendFragments]
      split
      · exact .refl
      · rename_i ch found
        have hsend : Chain cfg now op (c, s) _ :=
          chain_sendPacket found flagFragment hfragments.1
        split
        · rename_i heq
          rwa [heq] at hsend
        · rename_i heq
          rw [heq] at hsend
          exact hsend.trans (ih hfragments.2)

theorem chain_sendMessage (data : Bytes) (id : UInt8) :
    Leads cfg now op c s (c.sendMessage s data id now) := by
  rw [sendMessage]
  split
  · exact .refl
  · rename_i ch found
    split
    · exact .refl
    · split
      · have hnext : Chain cfg now op (c, s) (c.nextFragmentID.1, s) := .single .fragmentID
        rw [sendFragmented]
        dsimp only
        split
        · exact hnext
        · rename_i fragments hsplit
          exact hnext.trans (chain_sendFragments id (splitMessage_length_le hsplit))
      · rename_i hsmall
        exact chain_sendSinglePacket found (by omega)

theorem chain_sendImmediate (data : Bytes) (id : UInt8) :
    Leads cfg now op c s (c.sendImmediate s data id now) := by
  rw [sendImmediate]
  split
  · exact .refl
  · split
    · exact .refl
    · have hskip : Chain cfg now op (c, s) ({ c with skipBatch := true }, s) :=
        .single (.skipBatch true)
      exact (hskip.trans (chain_sendMessage data id)).tail (.skipBatch false)

theorem chain_enqueueSend (data : Bytes) (id : UInt8) :
    Chain cfg now op (c, s) ((c.enqueueSend data id).1, s) := by
  rw [enqueueSend]
  split
  · exact .refl
  · split
    · exact .refl
    · exact .single (.sendQueue _)

theorem chain_close : Leads cfg now op c s (c.close s now) := by
  by_cases hlive : c.state = .connected
  · exact .single (.close hlive)
  · rw [close, if_pos hlive]

/-! ## The tick -/

theorem chain_retransmitPackets {ps : List PendingPacket}
    (unacked : ∀ p ∈ ps, c.Unacked p.raw) :
    Chain cfg now op (c, s) (retransmitPackets now c s ps) := by
  induction ps generalizing c s with
  | nil => exact .refl
  | cons p ps ih =>
      rw [List.forall_mem_cons] at unacked
      exact .head (.resend unacked.1) (ih unacked.2)

theorem retransmitTimeout_retransmitPackets (now : ℤ) (c : Connection) (s : Socket)
    (ps : List PendingPacket) :
    (retransmitPackets now c s ps).1.retransmitTimeout = c.retransmitTimeout := by
  induction ps generalizing c s with
  | nil => rfl
  | cons p ps ih =>
      have hkept : (c.retransmitPacket s p.raw now).1.retransmitTimeout = c.retransmitTimeout := by
        have hhalves : c.cc.onLoss.halvesRTO = c.cc.halvesRTO := by cases c.cc <;> rfl
        rw [retransmitTimeout, retransmitTimeout, ← hhalves]
        rfl
      exact (ih _ _).trans hkept

/-- What is due on a channel waits there, and the check keeps the plaintexts. -/
theorem unacked_checkRetransmissions {i : ℕ} {ch : Channel} {rto maxRetransmits : ℤ}
    (found : c.channels[i]? = some ch) :
    ∀ p ∈ (ch.checkRetransmissions now rto maxRetransmits).2.1,
      (c.setIndex i (ch.checkRetransmissions now rto maxRetransmits).1).Unacked p.raw := by
  intro p hp
  obtain ⟨q, hq, -, hraw⟩ := Channel.mem_checkPending now rto maxRetransmits (.inr hp)
  have hkept : p.raw ∈ (ch.checkRetransmissions now rto maxRetransmits).1.pendingSend.map
      PendingPacket.raw := by
    show p.raw ∈ (Channel.checkPending now rto maxRetransmits ch.pendingSend).1.map _
    rw [Channel.map_raw_checkPending, ← hraw]
    exact List.mem_map_of_mem hq
  obtain ⟨q', hq', hraw'⟩ := List.mem_map.mp hkept
  exact ⟨_, List.mem_set (List.getElem?_eq_some_iff.mp found).1 _, q', hq', hraw'⟩

/-- A teardown leaves nothing of a check. -/
theorem shutDown_checkRetransmissions {i : ℕ} {ch : Channel} (found : c.channels[i]? = some ch)
    (now rto maxRetransmits : ℤ) :
    (c.setIndex i (ch.checkRetransmissions now rto maxRetransmits).1).shutDown = c.shutDown := by
  have hchannels : (c.channels.set i (ch.checkRetransmissions now rto maxRetransmits).1).map
      Channel.releasePendingBuffers = c.channels.map Channel.releasePendingBuffers :=
    map_set_channel found _ rfl
  simp only [shutDown, releasePendingBuffers, setIndex, hchannels]

theorem chain_retransmitChannels {rto : ℤ} (hrto : rto = c.retransmitTimeout) (is : List ℕ) :
    Leads cfg now op c s (retransmitChannels now rto cfg.maxRetransmits c s is) := by
  induction is generalizing c s with
  | nil => exact .refl
  | cons i is ih =>
      rw [retransmitChannels]
      split
      · exact ih hrto
      · rename_i ch found
        dsimp only
        split
        · have hgone := shutDown_checkRetransmissions found now rto cfg.maxRetransmits
          rw [setIndex] at hgone
          rw [hgone]
          exact .single .shutDown
        · rename_i hkill
          have hcheck : Chain cfg now op (c, s)
              (c.setIndex i (ch.checkRetransmissions now rto cfg.maxRetransmits).1, s) := by
            rw [hrto] at hkill ⊢
            exact .single (.check found (Bool.eq_false_iff.mpr hkill))
          refine (hcheck.trans
            (chain_retransmitPackets (unacked_checkRetransmissions found))).trans (ih ?_)
          rw [retransmitTimeout_retransmitPackets]
          exact hrto

theorem chain_drainQueue (msgs : List OutgoingMessage) :
    Leads cfg now op c s (drainQueue now c s msgs) := by
  induction msgs generalizing c s with
  | nil => exact .refl
  | cons msg msgs ih =>
      rw [drainQueue]
      split
      · have hsent : Chain cfg now op (c, s) _ := chain_sendMessage msg.data msg.channel
        have hrest := hsent.trans ih
        dsimp only
        split <;> exact hrest
      · exact .single (.sendQueue _)

theorem chain_flushStage : Leads cfg now op c s (c.flushStage cfg s) := by
  have hflush : Chain cfg now op (c, s) _ := .single .flush
  rw [flushStage]
  split
  · split <;> rename_i heq <;> rwa [heq] at hflush
  · exact .refl

theorem chain_collectAcks (is : List ℕ) :
    Chain cfg now op (c, s) ((collectAcks c is).1, s) := by
  induction is generalizing c with
  | nil => exact .refl
  | cons i is ih =>
      rw [collectAcks]
      split
      · exact ih
      · rename_i ch found
        exact .head (.clearNeedsAck found) ih

theorem chain_flushAcks : Chain cfg now op (c, s) (c.flushAcks s now) := by
  have hcollected : Chain cfg now op (c, s) _ := chain_collectAcks (List.range c.channels.length)
  rw [flushAcks]
  dsimp only
  split
  · exact hcollected
  · exact hcollected.tail (.acks _)

theorem chain_heartbeatStage : Chain cfg now op (c, s) (c.heartbeatStage cfg s now) := by
  rw [heartbeatStage]
  split
  · exact .single (.acks [0])
  · exact .refl

theorem chain_tickSend : Leads cfg now op c s (c.tickSend cfg s now) := by
  have htaken : Chain cfg now op (c, s) ({ c with sendQueue := [] }, s) :=
    .single (.sendQueue [])
  have hdrained := htaken.trans (chain_drainQueue c.sendQueue)
  rw [tickSend_eq]
  dsimp only
  generalize drainQueue now { c with sendQueue := [] } s c.sendQueue = drained at hdrained ⊢
  have hflushed := hdrained.trans chain_flushStage
  generalize drained.1.flushStage cfg drained.2.1 = flushed at hflushed ⊢
  have hbeaten := (hflushed.trans chain_flushAcks).trans chain_heartbeatStage
  exact hbeaten.tail (.store _)

/-- The tick of a connection that was found connected does nothing that only a tick may
do. -/
theorem chain_tickConnected : Leads cfg now op c s (c.tickSeen cfg s now .connected) := by
  rw [tickSeen]
  split
  · exact .single .shutDown
  · have hchecked : Chain cfg now op (c, s) _ :=
      chain_retransmitChannels rfl (List.range c.channels.length)
    split
    · rename_i heq
      rwa [heq] at hchecked
    · rename_i heq
      rw [heq] at hchecked
      exact hchecked.trans chain_tickSend

theorem chain_tickSeen (seen : ConnState) :
    Leads cfg now (.work (.ticking seen)) c s (c.tickSeen cfg s now seen) := by
  cases seen with
  | connected => exact chain_tickConnected
  | disconnected => exact .refl
  | connecting => exact .refl
  | disconnecting =>
      rw [tickSeen, tickDisconnecting]
      split
      · exact .single .shutDown
      · split
        · rename_i packet waiting
          split
          · exact .single (.repeatDisconnect waiting (by simp [Op.ticking]))
          · exact .refl
        · exact .refl

/-! ## Receiving -/

theorem chain_applyMultiAck (entries : List MultiAckEntry) :
    Chain cfg now op (c, s) ((applyMultiAck now c entries).1, s) := by
  induction entries generalizing c with
  | nil => exact .refl
  | cons e es ih => exact .head (.applyAcks e.channel e.ack e.ackField) ih

theorem chain_handleControl (body : Bytes) :
    Chain cfg now op (c, s) ((c.handleControl now body).1, s) := by
  rw [handleControl.eq_def]
  split
  · exact .refl
  · split
    · split
      · exact .refl
      · exact chain_applyMultiAck _
    · exact .single .shutDown
    · exact .refl

theorem chain_receiveData (hdr : PacketHeader) (body : Bytes) :
    Chain cfg now op (c, s) ((c.receiveData now hdr body).1, s) := by
  rw [receiveData]
  split
  · exact .refl
  · rename_i ch found
    dsimp only
    split
    · have hset : Chain cfg now op (c, s)
          (c.setChannel hdr.channel (ch.recordReceive hdr.sequence.toNat).1, s) := by
        refine .single (.receive found ?_ (ch.buffering_recordReceive _))
        rw [Channel.recordReceive_pendingSend]
        exact List.Subset.refl _
      split <;> exact hset.tail (.store _)
    · exact .refl

theorem chain_receive (hop : op.hears = true) (decrypted : Bytes) :
    Chain cfg now op (c, s) ((c.receive now decrypted).1, s) := by
  rw [receive]
  split
  · exact .refl
  · rename_i hdr n _
    have htouched : Chain cfg now op (c, s) (c.touchRecv now, s) := .single (.touchRecv hop)
    dsimp only
    split
    · exact htouched
    · have hacked := htouched.tail (.applyAcks hdr.channel hdr.ack hdr.ackField)
      split
      · exact hacked.trans (chain_handleControl _)
      · exact hacked.trans (chain_receiveData hdr _)

theorem chain_finish {verdict : Verdict} {c' : Connection} {events : List Event}
    (hok : c.finish verdict = .ok (c', events)) : Chain cfg now op (c, s) (c', s) := by
  rw [finish.eq_def] at hok
  split at hok
  · cases hok
    exact .refl
  · split at hok
    · cases hok
      exact .refl
    · rename_i ch found
      split at hok
      · cases hok
      · rename_i hdeliver
        cases hok
        refine .single (.receive found ?_ (Channel.buffering_deliver hdeliver))
        rw [(Channel.deliver_frame hdeliver).2.2]
        exact List.Subset.refl _

end Connection

/-! ## Operations -/

open Connection

theorem Work.chain_advance {cfg : TickConfig} {now : ℤ} {c c' : Connection} {s s' : Socket}
    {w : Work} {w' : Option Work} {events : List Event}
    (hok : w.advance c cfg s now = .ok (c', s', w', events)) :
    Chain cfg now (.work w) (c, s) (c', s') := by
  cases w with
  | datagram data =>
      rw [Work.advance] at hok
      split at hok <;> cases hok <;> exact .refl
  | packets ps =>
      cases ps with
      | nil =>
          cases hok
          exact .refl
      | cons packet rest =>
          rw [Work.advance] at hok
          split at hok
          · cases hok
            exact .refl
          · rename_i hopens
            cases hok
            exact .single (.accept hopens)
  | handling plaintext rest =>
      cases hok
      exact chain_receive rfl plaintext
  | delivering verdict rest =>
      rw [Work.advance] at hok
      split at hok
      · cases hok
      · rename_i hfinish
        cases hok
        exact chain_finish hfinish
  | ticking seen =>
      cases hok
      exact chain_tickSeen seen

/-- Every operation is a chain of elementary changes. -/
theorem Op.chain_apply {cfg : TickConfig} {now : ℤ} {c c' : Connection} {s s' : Socket} {op : Op}
    {events : List Event} (hok : op.apply c cfg s now = .ok (c', s', events)) :
    Chain cfg now op (c, s) (c', s') := by
  cases op with
  | work w =>
      rw [Op.apply] at hok
      split at hok
      · cases hok
      · rename_i hadvance
        cases hok
        exact Work.chain_advance hadvance
  | close =>
      cases hok
      exact chain_close
  | sendImmediate data channel =>
      cases hok
      exact chain_sendImmediate data channel
  | send data channel =>
      cases hok
      exact chain_enqueueSend data channel
  | relocate addr =>
      cases hok
      exact .single (.relocate addr)
  | release =>
      cases hok
      exact .single (.release rfl)
  | disconnect =>
      cases hok
      exact .single .disconnect
  | notify =>
      cases hok
      exact .refl

end Fastwire
