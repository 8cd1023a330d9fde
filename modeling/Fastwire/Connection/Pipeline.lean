/-
# Invariants of the send pipeline

Everything a connection does on its own account, between two packets that it
receives, is made of a few elementary steps: number a packet, seal and write it,
queue it for retransmission, check a retransmission queue, write a packet again,
flush the batch. What each of these steps keeps, the pipeline keeps.

A property that no step of the kind breaks is stated once for the steps: `SendInvariant`
for what sends, `AckInvariant` for the end of a tick, `StageInvariant` and
`TickInvariant` for the whole tick without and with its teardowns, `ReceiveInvariant`
for what arrives.
-/

import Fastwire.Channel.Ack
import Fastwire.Channel.Retransmission
import Fastwire.Connection.ReceiveSpec
import Fastwire.Connection.Tick

namespace Fastwire

namespace Channel

/-! ## Reorder buffers -/

/-- The mode of a channel and whether its reorder buffer is there. -/
def buffering (ch : Channel) : DeliveryMode × Bool := (ch.mode, ch.recvBuffer.isSome)

section

variable (ch : Channel)

theorem buffering_processAcks (now : ℤ) (ack : ℕ) (field : BitVec 32) (r : Rtt) :
    (ch.processAcks now ack field r).1.buffering = ch.buffering := by
  rw [processAcks]
  split <;> rfl

theorem buffering_recordReceive (seq : ℕ) : (ch.recordReceive seq).1.buffering = ch.buffering := by
  rw [buffering, recordReceive_mode, recordReceive_recvBuffer]
  rfl

theorem buffering_clearNeedsAck : ch.clearNeedsAck.1.buffering = ch.buffering := by
  rw [clearNeedsAck]
  split <;> rfl

variable {ch}

/-- A delivery that succeeds found the buffer there and leaves it there. -/
theorem buffering_deliver {seq : ℕ} {payload : Slice} {ch' : Channel} {msgs : List Slice}
    (hok : ch.deliver seq payload = .ok (ch', msgs)) : ch'.buffering = ch.buffering := by
  rw [deliver] at hok
  split at hok
  · rename_i hmode
    rw [deliverReliableOrdered] at hok
    split at hok
    · cases hok
    · rename_i buffer hbuffer
      cases hok
      simp [buffering, hbuffer]
  · cases hok
    rfl
  · cases hok
    rfl
  · have heq : ch' = (ch.deliverUnreliableSequenced seq payload).1 := by rw [Except.ok.inj hok]
    rw [heq, deliverUnreliableSequenced]
    split <;> rfl

end

/-! ## Retransmission checks -/

/-- The loop only updates the timers of the queued packets, and what it finds
due is queued. -/
theorem mem_checkPending (now rto maxRetries : ℤ) {ps : List PendingPacket}
    {q : PendingPacket} (hq : q ∈ (checkPending now rto maxRetries ps).1 ∨
      q ∈ (checkPending now rto maxRetries ps).2.1) :
    ∃ q₀ ∈ ps, q₀.sequence = q.sequence ∧ q₀.raw = q.raw := by
  induction ps with
  | nil => simp [checkPending] at hq
  | cons p ps ih =>
      have hrest : q ∈ (checkPending now rto maxRetries ps).1 ∨
          q ∈ (checkPending now rto maxRetries ps).2.1 →
          ∃ q₀ ∈ p :: ps, q₀.sequence = q.sequence ∧ q₀.raw = q.raw := by
        intro h
        obtain ⟨q₀, hq₀, hsame⟩ := ih h
        exact ⟨q₀, List.mem_cons_of_mem p hq₀, hsame⟩
      rw [checkPending] at hq
      split at hq
      · rcases hq with hkept | hdue
        · rcases List.mem_cons.mp hkept with rfl | htail
          · exact ⟨q, List.mem_cons_self, rfl, rfl⟩
          · exact hrest (.inl htail)
        · exact hrest (.inr hdue)
      · dsimp only at hq
        split at hq
        · rcases hq with hkept | hdue
          · rcases List.mem_cons.mp hkept with rfl | htail
            · exact ⟨p, List.mem_cons_self, rfl, rfl⟩
            · exact ⟨q, List.mem_cons_of_mem p htail, rfl, rfl⟩
          · cases hdue
        · rcases hq with hkept | hdue
          · rcases List.mem_cons.mp hkept with rfl | htail
            · exact ⟨p, List.mem_cons_self, rfl, rfl⟩
            · exact hrest (.inl htail)
          · split at hdue
            · cases hdue
            · rcases List.mem_cons.mp hdue with rfl | htail
              · exact ⟨p, List.mem_cons_self, rfl, rfl⟩
              · exact hrest (.inr htail)

theorem map_raw_checkPending (now rto maxRetries : ℤ) (ps : List PendingPacket) :
    (checkPending now rto maxRetries ps).1.map PendingPacket.raw =
      ps.map PendingPacket.raw := by
  have hpairs := congrArg (List.map Prod.snd) (map_checkPending now rto maxRetries ps)
  rwa [List.map_map, List.map_map] at hpairs

end Channel

namespace Connection

/-! ## The size of a packet -/

/-- The bodies of data packets are at most one fragment long. -/
def bodyLimit : ℕ := fragmentHeaderSize + maxFragmentPayload

theorem buildPacket_ok (ch : Channel) (id flags : UInt8) (seq : ℕ) (body : Bytes) :
    ∃ p, buildPacket ch id flags seq body = .ok p ∧ p.channel = id ∧ p.sequence = seq ∧
      p.raw.length ≤ maxHeaderSize + body.length := by
  obtain ⟨header, hheader⟩ : ∃ header,
      marshalHeader (maxHeaderSize + body.length) (dataHeader ch id flags seq) = .ok header :=
    marshalHeader_ok _ (Nat.le_add_right _ _)
  have hlen := marshalHeader_length_le hheader
  refine ⟨⟨id, seq, header ++ body⟩, ?_, rfl, rfl, ?_⟩
  · rw [buildPacket, hheader]
    rfl
  · rw [List.length_append]
    exact Nat.add_le_add_right hlen _

/-- A fragment is a header and a chunk. -/
theorem splitMessage_length_le {payload : Bytes} {fragmentID : UInt16} {flags : UInt8}
    {fragments : List Bytes} (hok : splitMessage payload fragmentID flags = .ok fragments) :
    ∀ frag ∈ fragments, frag.length ≤ bodyLimit := by
  intro frag hfrag
  obtain ⟨i, hi⟩ := List.getElem?_of_mem hfrag
  obtain ⟨-, -, hget⟩ := splitMessage_ok hok
  have hchunk := congrArg List.length (hget i frag hi).2
  have hsize : (chunk payload i).length ≤ maxFragmentPayload := List.length_take_le _ _
  rw [List.length_drop] at hchunk
  rw [bodyLimit]
  omega

def maxPlaintext : ℕ := maxHeaderSize + bodyLimit

/-! ## What the larger steps change -/

section

variable (c : Connection) (s : Socket)

theorem transmitPacket_books (raw : Bytes) :
    ∃ batchBuf transmissions, (c.transmitPacket s raw).1 =
      { c with
        sendCipher := (c.sendCipher.encrypt raw).1
        batchBuf := batchBuf
        transmissions := transmissions } := by
  rw [transmitPacket]
  dsimp only
  rw [writeEncrypted]
  split <;> exact ⟨_, _, rfl⟩

theorem queuePacket_books (p : Stamped) (now : ℤ) :
    ∃ channels loss, c.queuePacket p now = { c with channels := channels, loss := loss } := by
  rw [queuePacket]
  split
  · exact ⟨_, _, rfl⟩
  · split <;> exact ⟨_, _, rfl⟩

theorem acks_books (ids : List UInt8) (now : ℤ) :
    ∃ sendCipher lastSend, (c.sendMultiChannelHeartbeat s ids now).1 =
      { c with sendCipher := sendCipher, lastSend := lastSend } ∧
      c.sendCipher.sealed.length ≤ sendCipher.sealed.length := by
  rw [sendMultiChannelHeartbeat]
  dsimp only
  split
  · exact ⟨_, _, rfl, le_rfl⟩
  · split
    · exact ⟨_, _, rfl, le_rfl⟩
    · split <;> exact ⟨_, _, rfl, by simp⟩

theorem close_books (now : ℤ) :
    ∃ state sendCipher packet retries next, (c.close s now).1 =
      { c with
        state := state
        sendCipher := sendCipher
        disconnectPacket := packet
        disconnectRetries := retries
        nextDisconnectRetry := next } ∧
      c.sendCipher.sealed.length ≤ sendCipher.sealed.length := by
  rw [close]
  split
  · exact ⟨_, _, _, _, _, rfl, le_rfl⟩
  · dsimp only
    split
    · exact ⟨_, _, _, _, _, rfl, le_rfl⟩
    · exact ⟨_, _, _, _, _, rfl, by simp⟩

theorem applyAcks_books (now : ℤ) (id : UInt8) (ack : UInt32) (field : BitVec 32) :
    ∃ channels rttState cc loss, (c.applyAcks now id ack field).1 =
      { c with channels := channels, rttState := rttState, cc := cc, loss := loss } := by
  rw [applyAcks]
  split
  · exact ⟨_, _, _, _, rfl⟩
  · dsimp only
    rw [countAcked]
    split <;> exact ⟨_, _, _, _, rfl⟩

end

/-! ## Elementary steps -/

/-- What the datagrams of a connection are made from. -/
def wire (c : Connection) :
    Crypto.CipherState × List Channel × Bool × List Bytes × Slice × UInt8 × Bytes :=
  (c.sendCipher, c.channels, c.batchEnabled, c.batchBuf, c.disconnectPacket, c.features,
    c.migrationToken)

/-- All but timers, estimators, counters and the reassembly store. -/
def core (c : Connection) :
    (Crypto.CipherState × List Channel × Bool × List Bytes × Slice × UInt8 × Bytes) ×
      ConnState × AddrPort × Crypto.CipherState × List OutgoingMessage × CompressorPool :=
  (c.wire, c.state, c.remoteAddr, c.recvCipher, c.sendQueue, c.compress)

/-- The plaintext waits on some channel to be acknowledged. -/
def Unacked (c : Connection) (raw : Bytes) : Prop :=
  ∃ ch ∈ c.channels, ∃ p ∈ ch.pendingSend, p.raw = raw

/-- Every elementary step of the send pipeline keeps `I`, with batches packed for
the given MTU. -/
structure SendInvariant (mtu : ℤ) (I : Connection → Socket → Prop) : Prop where
  books {c c' : Connection} {s : Socket} (h : I c s) (same : c'.core = c.core) : I c' s
  number {c : Connection} {s : Socket} {id : UInt8} {ch : Channel} (found : c.channel id = some ch)
    (h : I c s) : I (c.setChannel id ch.nextSequence.1) s
  transmit {c : Connection} {s : Socket} {raw : Bytes} (short : raw.length ≤ maxPlaintext)
    (h : I c s) : I (c.transmitPacket s raw).1 (c.transmitPacket s raw).2.1
  queue {c : Connection} {s : Socket} {p : Stamped} (now : ℤ)
    (short : p.raw.length ≤ maxPlaintext) (h : I c s) : I (c.queuePacket p now) s
  check {c : Connection} {s : Socket} {i : ℕ} {ch : Channel} (now rto maxRetries : ℤ)
    (found : c.channels[i]? = some ch) (h : I c s) :
    I { c with channels := c.channels.set i (ch.checkRetransmissions now rto maxRetries).1 } s
  resend {c : Connection} {s : Socket} {raw : Bytes} (now : ℤ) (unacked : c.Unacked raw)
    (h : I c s) : I (c.retransmitPacket s raw now).1 (c.retransmitPacket s raw now).2
  flush {c : Connection} {s : Socket} (h : I c s) :
    I (c.flushBatch s mtu).1 (c.flushBatch s mtu).2.1

namespace SendInvariant

variable {mtu : ℤ} {I : Connection → Socket → Prop} (hI : SendInvariant mtu I)

include hI

section

variable {c : Connection} {s : Socket}

/-! ## Sending -/

theorem sendPacket {ch : Channel} {id : UInt8} (found : c.channel id = some ch) (flags : UInt8)
    {body : Bytes} (hbody : body.length ≤ bodyLimit) (now : ℤ)
    (h : I c s) :
    I (c.sendPacket s ch id flags body now).1 (c.sendPacket s ch id flags body now).2.1 := by
  have hstamp : I (c.stampPacket ch id flags body).1 s := hI.number found h
  have hshort : ∀ p, (c.stampPacket ch id flags body).2 = .ok p → p.raw.length ≤ maxPlaintext := by
    intro p hp
    obtain ⟨q, hq, -, -, hlen⟩ := buildPacket_ok ch.nextSequence.1 id flags ch.nextSequence.2 body
    cases hq.symm.trans hp
    exact hlen.trans (Nat.add_le_add_left hbody _)
  rw [Connection.sendPacket]
  split
  · rename_i heq
    rwa [heq] at hstamp
  · rename_i c₁ p heq
    rw [heq] at hstamp
    have hp := hshort p (congrArg Prod.snd heq)
    have htransmit := hI.transmit hp hstamp
    split
    · rename_i heq'
      rwa [heq'] at htransmit
    · rename_i heq'
      rw [heq'] at htransmit
      exact hI.queue now hp htransmit

theorem sendSinglePacket {ch : Channel} {id : UInt8} (found : c.channel id = some ch)
    {payload : Bytes} (hpayload : payload.length ≤ maxFragmentPayload) (now : ℤ) (h : I c s) :
    I (c.sendSinglePacket s ch id payload now).1 (c.sendSinglePacket s ch id payload now).2.1 := by
  have hsend := hI.sendPacket found 0 (Nat.le_add_left_of_le hpayload) now h
  rw [Connection.sendSinglePacket]
  split
  · rename_i heq
    rwa [heq] at hsend
  · rename_i heq
    rw [heq] at hsend
    exact hI.books hsend rfl

theorem sendFragments (id : UInt8) (now : ℤ) {fragments : List Bytes}
    (hfragments : ∀ frag ∈ fragments, frag.length ≤ bodyLimit)
    (h : I c s) :
    I (sendFragments id now c s fragments).1 (sendFragments id now c s fragments).2.1 := by
  induction fragments generalizing c s with
  | nil => exact hI.books h rfl
  | cons frag fragments ih =>
      rw [List.forall_mem_cons] at hfragments
      rw [Connection.sendFragments]
      split
      · exact h
      · rename_i ch found
        have hsend := hI.sendPacket found flagFragment hfragments.1 now h
        split
        · rename_i heq
          rwa [heq] at hsend
        · rename_i heq
          rw [heq] at hsend
          exact ih hfragments.2 hsend

theorem sendMessage (data : Bytes) (id : UInt8) (now : ℤ) (h : I c s) :
    I (c.sendMessage s data id now).1 (c.sendMessage s data id now).2.1 := by
  rw [Connection.sendMessage]
  split
  · exact h
  · rename_i ch found
    split
    · exact h
    · rename_i compressed fragFlags _
      split
      · have hnext : I c.nextFragmentID.1 s := hI.books h rfl
        rw [sendFragmented]
        dsimp only
        split
        · exact hnext
        · rename_i fragments hsplit
          exact hI.sendFragments id now (splitMessage_length_le hsplit) hnext
      · rename_i hsmall
        exact hI.sendSinglePacket found (by omega) now h

theorem sendImmediate (data : Bytes) (id : UInt8) (now : ℤ) (h : I c s) :
    I (c.sendImmediate s data id now).1 (c.sendImmediate s data id now).2.1 := by
  rw [Connection.sendImmediate]
  split
  · exact h
  · split
    · exact h
    · have hskip : I { c with skipBatch := true } s := hI.books h rfl
      exact hI.books (hI.sendMessage data id now hskip) rfl

/-! ## The tick up to the acknowledgements -/

theorem retransmitPackets (now : ℤ) {ps : List PendingPacket}
    (unacked : ∀ p ∈ ps, c.Unacked p.raw) (h : I c s) :
    I (retransmitPackets now c s ps).1 (retransmitPackets now c s ps).2 := by
  induction ps generalizing c s with
  | nil => exact h
  | cons p ps ih =>
      rw [List.forall_mem_cons] at unacked
      exact ih unacked.2 (hI.resend now unacked.1 h)

/-- A check that kills the connection tears down what it has found. -/
theorem retransmitChannels (now rto maxRetransmits : ℤ) (is : List ℕ) (h : I c s) :
    ((retransmitChannels now rto maxRetransmits c s is).2.2 = false →
      I (retransmitChannels now rto maxRetransmits c s is).1
        (retransmitChannels now rto maxRetransmits c s is).2.1) ∧
    ((retransmitChannels now rto maxRetransmits c s is).2.2 = true →
      ∃ c', I c' (retransmitChannels now rto maxRetransmits c s is).2.1 ∧
        (retransmitChannels now rto maxRetransmits c s is).1 = c'.shutDown) := by
  induction is generalizing c s with
  | nil => exact ⟨fun _ => h, by simp [Connection.retransmitChannels]⟩
  | cons i is ih =>
      rw [Connection.retransmitChannels]
      split
      · exact ih h
      · rename_i ch found
        have hcheck := hI.check now rto maxRetransmits found h
        dsimp only
        split
        · exact ⟨by simp, fun _ => ⟨_, hcheck, rfl⟩⟩
        · refine ih (hI.retransmitPackets now ?_ hcheck)
          intro p hp
          -- what is due is queued, and the check keeps the plaintexts
          obtain ⟨q, hq, -, hraw⟩ :=
            Channel.mem_checkPending now rto maxRetransmits (.inr hp)
          have hkept : p.raw ∈
              (ch.checkRetransmissions now rto maxRetransmits).1.pendingSend.map
                PendingPacket.raw := by
            show p.raw ∈ (Channel.checkPending now rto maxRetransmits ch.pendingSend).1.map _
            rw [Channel.map_raw_checkPending, ← hraw]
            exact List.mem_map_of_mem hq
          obtain ⟨q', hq', hraw'⟩ := List.mem_map.mp hkept
          have hlt := (List.getElem?_eq_some_iff.mp found).1
          exact ⟨_, List.mem_set hlt _, q', hq', hraw'⟩

theorem drainQueue
    (backlog : ∀ {c : Connection} {s : Socket} (msgs : List OutgoingMessage), I c s →
      I { c with sendQueue := msgs } s)
    (now : ℤ) (msgs : List OutgoingMessage) (h : I c s) :
    I (drainQueue now c s msgs).1 (drainQueue now c s msgs).2.1 := by
  induction msgs generalizing c s with
  | nil => exact h
  | cons msg msgs ih =>
      rw [Connection.drainQueue]
      split
      · have hrest := ih (hI.sendMessage msg.data msg.channel now h)
        dsimp only
        split <;> exact hrest
      · exact backlog _ h

theorem flushStage (cfg : TickConfig) (hmtu : cfg.mtu = mtu) (h : I c s) :
    I (c.flushStage cfg s).1 (c.flushStage cfg s).2.1 := by
  have hflush := hI.flush h
  rw [← hmtu] at hflush
  rw [Connection.flushStage]
  split
  · split <;> rename_i heq <;> rwa [heq] at hflush
  · exact h

end

end SendInvariant

/-! ## Acknowledgements and heartbeats -/

/-- The steps of the last part of a tick keep `I`. -/
structure AckInvariant (I : Connection → Socket → Prop) : Prop where
  clear {c : Connection} {s : Socket} {i : ℕ} {ch : Channel} (found : c.channels[i]? = some ch)
    (h : I c s) : I { c with channels := c.channels.set i ch.clearNeedsAck.1 } s
  acks {c : Connection} {s : Socket} (ids : List UInt8) (now : ℤ) (h : I c s) :
    I (c.sendMultiChannelHeartbeat s ids now).1 (c.sendMultiChannelHeartbeat s ids now).2.1

namespace AckInvariant

variable {I : Connection → Socket → Prop} (hI : AckInvariant I)

include hI

section

variable {c : Connection} {s : Socket}

theorem collectAcks (is : List ℕ) (h : I c s) : I (collectAcks c is).1 s := by
  induction is generalizing c with
  | nil => exact h
  | cons i is ih =>
      rw [Connection.collectAcks]
      split
      · exact ih h
      · rename_i ch found
        exact ih (hI.clear found h)

theorem flushAcks (now : ℤ) (h : I c s) : I (c.flushAcks s now).1 (c.flushAcks s now).2 := by
  have hcollected := hI.collectAcks (List.range c.channels.length) h
  rw [Connection.flushAcks]
  dsimp only
  split
  · exact hcollected
  · exact hI.acks _ now hcollected

theorem heartbeatStage (cfg : TickConfig) (now : ℤ) (h : I c s) :
    I (c.heartbeatStage cfg s now).1 (c.heartbeatStage cfg s now).2 := by
  rw [Connection.heartbeatStage]
  split
  · exact hI.acks [0] now h
  · exact h

end

end AckInvariant

/-! ## The whole tick and the close -/

/-- Every step of a tick that tears nothing down keeps `I`. -/
structure StageInvariant (mtu : ℤ) (I : Connection → Socket → Prop) : Prop
    extends SendInvariant mtu I, AckInvariant I where
  backlog {c : Connection} {s : Socket} (msgs : List OutgoingMessage) (h : I c s) :
    I { c with sendQueue := msgs } s

theorem StageInvariant.tickSend {mtu : ℤ} {I : Connection → Socket → Prop}
    (hI : StageInvariant mtu I) {c : Connection} {s : Socket} (cfg : TickConfig)
    (hmtu : cfg.mtu = mtu) (now : ℤ) (h : I c s) :
    I (c.tickSend cfg s now).1 (c.tickSend cfg s now).2.1 := by
  have htaken : I { c with sendQueue := [] } s := hI.backlog [] h
  have hdrained := hI.drainQueue hI.backlog now c.sendQueue htaken
  rw [tickSend_eq]
  dsimp only
  generalize drainQueue now { c with sendQueue := [] } s c.sendQueue = drained at hdrained ⊢
  have hflushed := hI.flushStage cfg hmtu hdrained
  generalize drained.1.flushStage cfg drained.2.1 = flushed at hflushed ⊢
  have hbeaten := hI.heartbeatStage cfg now (hI.flushAcks now hflushed)
  exact hI.books hbeaten rfl

/-- Every step of a tick and of the close keeps `I`. -/
structure TickInvariant (mtu : ℤ) (I : Connection → Socket → Prop) : Prop
    extends StageInvariant mtu I where
  shutDown {c : Connection} {s : Socket} (h : I c s) : I c.shutDown s
  repeatDisconnect {c : Connection} {s : Socket} {packet : Bytes}
    (waiting : c.disconnectPacket = some packet) (h : I c s) : I c (s.write packet).1
  close {c : Connection} {s : Socket} (now : ℤ) (h : I c s) :
    I (c.close s now).1 (c.close s now).2.1

theorem TickInvariant.tickSeen {mtu : ℤ} {I : Connection → Socket → Prop}
    (hI : TickInvariant mtu I) {c : Connection} {s : Socket} (cfg : TickConfig)
    (hmtu : cfg.mtu = mtu) (now : ℤ) (seen : ConnState) (h : I c s) :
    I (c.tickSeen cfg s now seen).1 (c.tickSeen cfg s now seen).2.1 := by
  rw [Connection.tickSeen.eq_def]
  split
  · rw [tickDisconnecting]
    split
    · exact hI.shutDown h
    · split
      · rename_i packet waiting
        split
        · exact hI.books (hI.repeatDisconnect waiting h) rfl
        · exact h
      · exact h
  · split
    · exact hI.shutDown h
    · obtain ⟨halive, hkilled⟩ := hI.retransmitChannels now c.retransmitTimeout
        cfg.maxRetransmits (List.range c.channels.length) h
      split
      · rename_i heq
        rw [heq] at hkilled
        obtain ⟨c', hc', heq'⟩ := hkilled rfl
        dsimp only at heq' ⊢
        rw [heq']
        exact hI.shutDown hc'
      · rename_i heq
        rw [heq] at halive
        exact hI.tickSend cfg hmtu now (halive rfl)
  · exact h

/-! ## Receiving -/

/-- What receiving changes in a channel keeps `I`: packets leave the retransmission
queue, and no reorder buffer comes or goes. -/
structure ReceiveInvariant (I : Connection → Prop) : Prop where
  books {c c' : Connection} (h : I c) (same : c'.core = c.core) : I c'
  channel {c : Connection} {id : UInt8} {ch ch' : Channel} (found : c.channel id = some ch)
    (fewer : ch'.pendingSend ⊆ ch.pendingSend) (same : ch'.buffering = ch.buffering) (h : I c) :
    I (c.setChannel id ch')

namespace ReceiveInvariant

variable {I : Connection → Prop} (hI : ReceiveInvariant I)

include hI

section

variable {c : Connection}

theorem applyAcks (now : ℤ) (id : UInt8) (ack : UInt32) (field : BitVec 32) (h : I c) :
    I (c.applyAcks now id ack field).1 := by
  rw [Connection.applyAcks]
  split
  · exact h
  · rename_i ch found
    obtain ⟨ps, n, heq, hsub, -⟩ := ch.processAcks_eq now ack.toNat field c.rttState
    have hset : I (c.setChannel id (ch.processAcks now ack.toNat field c.rttState).1) := by
      refine hI.channel found ?_ (ch.buffering_processAcks now _ _ _) h
      rw [heq]
      exact hsub.subset
    refine hI.books hset ?_
    dsimp only
    rw [countAcked]
    split <;> rfl

theorem applyMultiAck (now : ℤ) (entries : List MultiAckEntry) (h : I c) :
    I (applyMultiAck now c entries).1 := by
  induction entries generalizing c with
  | nil => exact h
  | cons e es ih => exact ih (hI.applyAcks now e.channel e.ack e.ackField h)

theorem receiveData (now : ℤ) (hdr : PacketHeader) (body : Bytes) (h : I c) :
    I (c.receiveData now hdr body).1 := by
  rw [Connection.receiveData]
  split
  · exact h
  · rename_i ch found
    have hset : I (c.setChannel hdr.channel (ch.recordReceive hdr.sequence.toNat).1) := by
      refine hI.channel found ?_ (ch.buffering_recordReceive _) h
      rw [Channel.recordReceive_pendingSend]
      exact List.Subset.refl _
    dsimp only
    split
    · split <;> exact hI.books hset rfl
    · exact h

theorem finish {verdict : Verdict} {c' : Connection} {events : List Event}
    (hok : c.finish verdict = .ok (c', events)) (h : I c) : I c' := by
  rw [Connection.finish.eq_def] at hok
  split at hok
  · cases hok
    exact h
  · split at hok
    · cases hok
      exact h
    · rename_i ch found
      split at hok
      · cases hok
      · rename_i hdeliver
        cases hok
        refine hI.channel found ?_ (Channel.buffering_deliver hdeliver) h
        rw [(Channel.deliver_frame hdeliver).2.2]
        exact List.Subset.refl _

variable (shutDown : ∀ {c : Connection}, I c → I c.shutDown)

include shutDown

theorem handleControl (now : ℤ) (body : Bytes) (h : I c) : I (c.handleControl now body).1 := by
  rw [Connection.handleControl.eq_def]
  split
  · exact h
  · split
    · split
      · exact h
      · exact hI.applyMultiAck now _ h
    · exact shutDown h
    · exact h

theorem receive (now : ℤ) (decrypted : Bytes) (h : I c) : I (c.receive now decrypted).1 := by
  rw [Connection.receive]
  split
  · exact h
  · rename_i hdr n _
    have htouched : I (c.touchRecv now) := hI.books h rfl
    dsimp only
    split
    · exact htouched
    · have hacked := hI.applyAcks now hdr.channel hdr.ack hdr.ackField htouched
      split
      · exact hI.handleControl shutDown now _ hacked
      · exact hI.receiveData now hdr _ hacked

theorem handleDecrypted {now : ℤ} {decrypted : Bytes} {c' : Connection} {events : List Event}
    (hok : c.handleDecrypted now decrypted = .ok (c', events)) (h : I c) : I c' := by
  obtain ⟨events', hfinish, -⟩ := handleDecrypted_inv hok
  exact hI.finish hfinish (hI.receive shutDown now decrypted h)

/-- With whatever `Decrypt` makes of the replay window. -/
theorem processPacket
    (accept : ∀ {c : Connection} (cipher : Crypto.CipherState), I c → I (c.withRecvCipher cipher))
    {now : ℤ} {data : Bytes} {c' : Connection} {events : List Event}
    (hok : c.processPacket now data = .ok (c', events)) (h : I c) : I c' := by
  rw [Connection.processPacket] at hok
  split at hok
  · cases hok
    exact h
  · rename_i decrypted cipher _
    exact hI.handleDecrypted shutDown hok (accept cipher h)

end

end ReceiveInvariant

end Connection

end Fastwire
