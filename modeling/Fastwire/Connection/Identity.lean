/-
# What a connection is known by

A server finds a connection by its address and its migration token, and reads
its datagrams by its features and its receiving cipher. No pipeline of the
connection itself changes any of these; only migration and `Decrypt` do, and
they belong to the owner. The pipelines leave the send queue alone as well, which
is filled by the application and drained by the tick.
-/

import Fastwire.Connection.Pipeline

namespace Fastwire

open Crypto

namespace Connection

/-- The fields the owner of a connection goes by. -/
def identity (c : Connection) : AddrPort × UInt8 × Bytes × Bool × CipherState :=
  (c.remoteAddr, c.features, c.migrationToken, c.batchEnabled, c.recvCipher)

/-- What the pipelines leave alone. -/
def kept (c : Connection) :
    (AddrPort × UInt8 × Bytes × Bool × CipherState) × List OutgoingMessage :=
  (c.identity, c.sendQueue)

/-! ## The steps -/

section

variable (c : Connection)

theorem kept_of_core {c c' : Connection} (same : c'.core = c.core) : c'.kept = c.kept := by
  simp only [core, wire, Prod.mk.injEq] at same
  simp only [kept, identity, same]

theorem kept_transmitPacket (s : Socket) (raw : Bytes) :
    (c.transmitPacket s raw).1.kept = c.kept := by
  obtain ⟨_, _, heq⟩ := c.transmitPacket_books s raw
  rw [heq]
  rfl

theorem kept_queuePacket (p : Stamped) (now : ℤ) : (c.queuePacket p now).kept = c.kept := by
  obtain ⟨_, _, heq⟩ := c.queuePacket_books p now
  rw [heq]
  rfl

theorem kept_sendMultiChannelHeartbeat (s : Socket) (ids : List UInt8) (now : ℤ) :
    (c.sendMultiChannelHeartbeat s ids now).1.kept = c.kept := by
  obtain ⟨_, _, heq, -⟩ := c.acks_books s ids now
  rw [heq]
  rfl

theorem kept_close (s : Socket) (now : ℤ) : (c.close s now).1.kept = c.kept := by
  obtain ⟨_, _, _, _, _, heq, -⟩ := c.close_books s now
  rw [heq]
  rfl

end

section

variable (mtu : ℤ) (view : (AddrPort × UInt8 × Bytes × Bool × CipherState) × List OutgoingMessage)
  (names : AddrPort × UInt8 × Bytes × Bool × CipherState)

theorem sendInvariant_kept : SendInvariant mtu fun c _ => c.kept = view where
  books h same := (kept_of_core same).trans h
  number _ h := h
  transmit _ h := (kept_transmitPacket _ _ _).trans h
  queue now _ h := (kept_queuePacket _ _ now).trans h
  check _ _ _ _ h := h
  resend _ _ h := h
  flush h := h

theorem ackInvariant_kept : AckInvariant fun c _ => c.kept = view where
  clear _ h := h
  acks ids now h := (kept_sendMultiChannelHeartbeat _ _ ids now).trans h

theorem tickInvariant_identity : TickInvariant mtu fun c _ => c.identity = names where
  books h same := (congrArg Prod.fst (kept_of_core same)).trans h
  number _ h := h
  transmit _ h := (congrArg Prod.fst (kept_transmitPacket _ _ _)).trans h
  queue now _ h := (congrArg Prod.fst (kept_queuePacket _ _ now)).trans h
  check _ _ _ _ h := h
  resend _ _ h := h
  flush h := h
  clear _ h := h
  acks ids now h := (congrArg Prod.fst (kept_sendMultiChannelHeartbeat _ _ ids now)).trans h
  backlog _ h := h
  shutDown h := h
  repeatDisconnect _ h := h
  close now h := (congrArg Prod.fst (kept_close _ _ now)).trans h

theorem receiveInvariant_identity : ReceiveInvariant fun c => c.identity = names where
  books h same := (congrArg Prod.fst (kept_of_core same)).trans h
  channel _ _ _ h := h

end

/-! ## The send queue -/

section

variable (c : Connection)

theorem kept_sendMessage (s : Socket) (data : Bytes) (id : UInt8) (now : ℤ) :
    (c.sendMessage s data id now).1.kept = c.kept :=
  (sendInvariant_kept 0 c.kept).sendMessage data id now (s := s) rfl

/-- Behind the drain a tick leaves the send queue alone. -/
theorem kept_tickSend (cfg : TickConfig) (s : Socket) (now : ℤ) :
    (c.tickSend cfg s now).1.kept =
      (drainQueue now { c with sendQueue := [] } s c.sendQueue).1.kept := by
  rw [tickSend_eq]
  dsimp only
  generalize drainQueue now { c with sendQueue := [] } s c.sendQueue = drained
  have hflushed := (sendInvariant_kept cfg.mtu drained.1.kept).flushStage cfg rfl (s := drained.2.1)
    rfl
  generalize drained.1.flushStage cfg drained.2.1 = flushed at hflushed ⊢
  have hacks := ackInvariant_kept drained.1.kept
  exact hacks.heartbeatStage cfg now (hacks.flushAcks (s := flushed.2.1) now hflushed)

/-- A tick drains the send queue once, or leaves it alone. -/
theorem kept_tickSeen (cfg : TickConfig) (s : Socket) (now : ℤ) (seen : ConnState) :
    (c.tickSeen cfg s now seen).1.kept = c.kept ∨
      ∃ (c' : Connection) (s' : Socket), c'.kept = c.kept ∧
        (c.tickSeen cfg s now seen).1.kept =
          (drainQueue now { c' with sendQueue := [] } s' c'.sendQueue).1.kept := by
  rw [tickSeen.eq_def]
  split
  · rw [tickDisconnecting]
    split
    · exact .inl rfl
    · split
      · split <;> exact .inl rfl
      · exact .inl rfl
  · split
    · exact .inl rfl
    · obtain ⟨halive, hkilled⟩ := (sendInvariant_kept cfg.mtu c.kept).retransmitChannels now
        c.retransmitTimeout cfg.maxRetransmits (List.range c.channels.length) (s := s) rfl
      split
      · rename_i heq
        rw [heq] at hkilled
        obtain ⟨c', hkept, heq'⟩ := hkilled rfl
        exact .inl ((congrArg kept heq').trans hkept)
      · rename_i c' s' heq
        rw [heq] at halive
        exact .inr ⟨c', s', halive rfl, kept_tickSend c' cfg s' now⟩
  · exact .inl rfl

/-! ## What the owner relies on -/

theorem identity_receive (now : ℤ) (decrypted : Bytes) :
    (c.receive now decrypted).1.identity = c.identity :=
  (receiveInvariant_identity c.identity).receive id now decrypted rfl

theorem identity_finish {verdict : Verdict} {c' : Connection} {events : List Event}
    (hok : c.finish verdict = .ok (c', events)) : c'.identity = c.identity :=
  (receiveInvariant_identity c.identity).finish hok rfl

theorem identity_handleDecrypted {now : ℤ} {decrypted : Bytes} {c' : Connection}
    {events : List Event} (hok : c.handleDecrypted now decrypted = .ok (c', events)) :
    c'.identity = c.identity :=
  (receiveInvariant_identity c.identity).handleDecrypted id hok rfl

theorem identity_sendImmediate (s : Socket) (data : Bytes) (id : UInt8) (now : ℤ) :
    (c.sendImmediate s data id now).1.identity = c.identity :=
  (tickInvariant_identity 0 c.identity).sendImmediate data id now (s := s) rfl

theorem identity_enqueueSend (data : Bytes) (id : UInt8) :
    (c.enqueueSend data id).1.identity = c.identity := by
  rw [enqueueSend]
  split
  · rfl
  · split <;> rfl

theorem identity_close (s : Socket) (now : ℤ) : (c.close s now).1.identity = c.identity :=
  congrArg Prod.fst (kept_close c s now)

theorem identity_tickSeen (cfg : TickConfig) (s : Socket) (now : ℤ) (seen : ConnState) :
    (c.tickSeen cfg s now seen).1.identity = c.identity :=
  (tickInvariant_identity cfg.mtu c.identity).tickSeen cfg rfl now seen (s := s) rfl

end

end Connection

end Fastwire
