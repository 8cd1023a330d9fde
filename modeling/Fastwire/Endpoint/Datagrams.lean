/-
# The size of datagrams

The read buffer of the peer is made for the configured MTU, while messages are
cut for the default MTU of 1200 bytes. Here is what a connection hands to the
socket, over a whole run: the longest data packet with everything that is put
around it, or a batch, which is packed for the configured MTU.

So all datagrams fit the read buffer if the longest data packet does.
-/

import Fastwire.Connection.AckFlush
import Fastwire.Endpoint.Basic
import Fastwire.Handshake.Packets

namespace Fastwire

open Crypto Lib

/-! ## Sizes -/

/-- The bytes that encryption adds (`WireOverhead`). -/
def sealSize (aead : Option Aead) : ℕ := if aead.isSome then nonceSize + tagSize else 0

def frameSize (batched : Bool) : ℕ := if batched then batchHeaderSize + batchLenSize else 0

theorem singleFrame_length (packet : Bytes) :
    (singleFrame packet).length = packet.length + (batchHeaderSize + batchLenSize) := by
  simp [singleFrame, batchEntry, batchHeaderSize, batchLenSize]

namespace Connection

/-- What decides about the size of datagrams and never changes. -/
def shape (c : Connection) : Option Aead × Bool × UInt8 × Bytes :=
  (c.sendCipher.aead, c.batchEnabled, c.features, c.migrationToken)

def maxFramed (shape : Option Aead × Bool × UInt8 × Bytes) : ℕ :=
  maxPlaintext + sealSize shape.1 + frameSize shape.2.1

/-- Everything that waits to be sent is short enough, and so is everything that has
been written. -/
structure Sized (shape : Option Aead × Bool × UInt8 × Bytes) (limit : ℤ) (c : Connection)
    (s : Socket) : Prop where
  shape_eq : c.shape = shape
  unacked : ∀ raw, c.Unacked raw → raw.length ≤ maxPlaintext
  batched : ∀ packet ∈ c.batchBuf,
    c.batchEnabled = true ∧ packet.length ≤ maxPlaintext + sealSize shape.1
  disconnect : ∀ packet, c.disconnectPacket = some packet → (packet.length : ℤ) ≤ limit
  written : ∀ datagram ∈ s.written, (datagram.length : ℤ) ≤ limit

/-- The datagrams of a flush are made for the MTU, or hold one packet. -/
theorem packBatch_length_le {mtu limit : ℤ} (hmtu : mtu ≤ limit) {packets : List Bytes}
    (hpackets : ∀ p ∈ packets, ((singleFrame p).length : ℤ) ≤ limit) :
    ∀ d ∈ packBatch mtu 0 [] packets, (d.length : ℤ) ≤ limit := by
  obtain ⟨groups, hpack, hflatten, hgroups⟩ :=
    packBatch_groups mtu [] packets (by simp)
  intro d hd
  rw [show packBatch mtu 0 [] packets = groups.map batchFrame from hpack] at hd
  obtain ⟨group, hgroup, rfl⟩ := List.mem_map.mp hd
  rcases (hgroups group hgroup).fits with hfits | ⟨p, rfl, -⟩
  · exact hfits.trans hmtu
  · have hp : p ∈ [] ++ packets := hflatten ▸ List.mem_flatten.mpr ⟨[p], hgroup, by simp⟩
    simpa [singleFrame, batchFrame] using hpackets p hp

theorem writeAll_written (s : Socket) (datagrams : List Bytes) :
    ∀ d ∈ (writeAll s datagrams).1.written, d ∈ s.written ∨ d ∈ datagrams := by
  induction datagrams generalizing s with
  | nil => exact fun d hd => .inl hd
  | cons datagram datagrams ih =>
      intro d hd
      rw [writeAll, Socket.write_eq] at hd
      cases htakes : s.takes with
      | false =>
          simp only [htakes, Bool.false_eq_true, if_false] at hd
          exact .inl hd
      | true =>
          simp only [htakes, if_true] at hd
          rcases ih _ d hd with hold | hnew
          · rcases List.mem_append.mp hold with hold | hone
            · exact .inl hold
            · exact .inr (List.mem_cons.mpr (.inl (List.mem_singleton.mp hone)))
          · exact .inr (List.mem_cons_of_mem _ hnew)

namespace Sized

variable {shape : Option Aead × Bool × UInt8 × Bytes} {limit : ℤ} {c c' : Connection} {s : Socket}

theorem of_wire (h : Sized shape limit c s) (same : c'.wire = c.wire) :
    Sized shape limit c' s := by
  simp only [wire, Prod.mk.injEq] at same
  obtain ⟨hcipher, hchannels, hbatch, hbuf, hdisconnect, hfeatures, htoken⟩ := same
  constructor
  · rw [← h.shape_eq, Connection.shape, Connection.shape, hcipher, hbatch, hfeatures, htoken]
  · intro raw hraw
    rw [Unacked, hchannels] at hraw
    exact h.unacked raw hraw
  · rw [hbuf, hbatch]
    exact h.batched
  · rw [hdisconnect]
    exact h.disconnect
  · exact h.written

/-- The send side of one channel gets a packet that is short enough, or none. -/
theorem set_channel (h : Sized shape limit c s) {i : ℕ} {ch ch' : Channel}
    (found : c.channels[i]? = some ch)
    (hpending : ∀ p ∈ ch'.pendingSend, p.raw.length ≤ maxPlaintext ∨
      ∃ q ∈ ch.pendingSend, q.raw = p.raw) :
    Sized shape limit { c with channels := c.channels.set i ch' } s where
  shape_eq := h.shape_eq
  unacked raw hraw := by
    obtain ⟨chk, hchk, p, hp, rfl⟩ := hraw
    rcases List.mem_or_eq_of_mem_set hchk with hold | rfl
    · exact h.unacked p.raw ⟨chk, hold, p, hp, rfl⟩
    · rcases hpending p hp with hshort | ⟨q, hq, hraw⟩
      · exact hshort
      · exact h.unacked p.raw ⟨ch, List.mem_of_getElem? found, q, hq, hraw⟩
  batched := h.batched
  disconnect := h.disconnect
  written := h.written

theorem write (h : Sized shape limit c s) {datagram : Bytes}
    (hshort : (datagram.length : ℤ) ≤ limit) : Sized shape limit c (s.write datagram).1 where
  shape_eq := h.shape_eq
  unacked := h.unacked
  batched := h.batched
  disconnect := h.disconnect
  written d hd := by
    rw [Socket.write_eq] at hd
    cases htakes : s.takes with
    | false =>
        simp only [htakes, Bool.false_eq_true, if_false] at hd
        exact h.written d hd
    | true =>
        simp only [htakes, if_true] at hd
        rcases List.mem_append.mp hd with hold | hnew
        · exact h.written d hold
        · rw [List.mem_singleton.mp hnew]
          exact hshort

/-- A plaintext is sealed. -/
theorem after_seal (h : Sized shape limit c s) (raw : Bytes) :
    Sized shape limit { c with sendCipher := (c.sendCipher.encrypt raw).1 } s where
  shape_eq := by
    rw [← h.shape_eq, Connection.shape, c.sendCipher.encrypt_aead raw]
    rfl
  unacked := h.unacked
  batched := h.batched
  disconnect := h.disconnect
  written := h.written

theorem encrypt_length_le (h : Sized shape limit c s) {raw : Bytes}
    (hraw : raw.length ≤ maxPlaintext) :
    (c.sendCipher.encrypt raw).2.length ≤ maxPlaintext + sealSize shape.1 := by
  have hlength := c.sendCipher.encrypt_length raw
  have haead : c.sendCipher.aead = shape.1 := congrArg Prod.fst h.shape_eq
  rw [hlength, haead]
  exact Nat.add_le_add_right hraw _

theorem framed_length_le (h : Sized shape limit c s) (hlimit : (maxFramed shape : ℤ) ≤ limit)
    {encrypted : Bytes} (hshort : encrypted.length ≤ maxPlaintext + sealSize shape.1) :
    ((if c.batchEnabled then singleFrame encrypted else encrypted).length : ℤ) ≤ limit := by
  have hbatch : c.batchEnabled = shape.2.1 := congrArg (fun v => v.2.1) h.shape_eq
  rw [hbatch]
  rw [maxFramed, frameSize] at hlimit
  split
  · rename_i hon
    rw [if_pos hon] at hlimit
    rw [singleFrame_length]
    omega
  · rename_i hoff
    rw [if_neg hoff] at hlimit
    omega

theorem sendFramed (h : Sized shape limit c s) (hlimit : (maxFramed shape : ℤ) ≤ limit)
    {encrypted : Bytes} (hshort : encrypted.length ≤ maxPlaintext + sealSize shape.1) :
    Sized shape limit c (c.sendFramed s encrypted).1 :=
  h.write (h.framed_length_le hlimit hshort)

theorem after_shutDown (h : Sized shape limit c s) : Sized shape limit c.shutDown s where
  shape_eq := h.shape_eq
  unacked := by
    rintro raw ⟨ch, hch, p, hp, rfl⟩
    obtain ⟨ch₀, -, rfl⟩ := List.mem_map.mp hch
    cases hp
  batched := by simp [shutDown, releasePendingBuffers]
  disconnect := by simp [shutDown, releasePendingBuffers]
  written := h.written

theorem transmitPacket (h : Sized shape limit c s) (hlimit : (maxFramed shape : ℤ) ≤ limit)
    {raw : Bytes} (short : raw.length ≤ maxPlaintext) :
    Sized shape limit (c.transmitPacket s raw).1 (c.transmitPacket s raw).2.1 := by
  have hsealed := h.encrypt_length_le short
  rw [Connection.transmitPacket]
  dsimp only
  rw [writeEncrypted]
  split
  · rename_i hqueue
    refine ⟨(h.after_seal raw).shape_eq, h.unacked, ?_, h.disconnect, h.written⟩
    intro packet hpacket
    rcases List.mem_append.mp hpacket with hold | hnew
    · exact h.batched packet hold
    · rw [List.mem_singleton.mp hnew]
      exact ⟨hqueue.1, hsealed⟩
  · exact ((h.after_seal raw).sendFramed hlimit hsealed).of_wire rfl

theorem queuePacket (h : Sized shape limit c s) {p : Stamped} (now : ℤ)
    (short : p.raw.length ≤ maxPlaintext) : Sized shape limit (c.queuePacket p now) s := by
  rw [Connection.queuePacket]
  split
  · exact h
  · rename_i ch found
    split
    · have hadded : ∀ q ∈ (ch.addPending ⟨p.raw, now, 0, now + c.retransmitTimeout, true,
          p.sequence⟩).pendingSend, q.raw.length ≤ maxPlaintext ∨
            ∃ q' ∈ ch.pendingSend, q'.raw = q.raw := by
        intro q hq
        rcases List.mem_append.mp hq with hold | hnew
        · exact .inr ⟨q, hold, rfl⟩
        · rw [List.mem_singleton.mp hnew]
          exact .inl short
      exact (h.set_channel found hadded).of_wire rfl
    · exact h

theorem flushBatch (h : Sized shape limit c s) (hlimit : (maxFramed shape : ℤ) ≤ limit) {mtu : ℤ}
    (hmtu : mtu ≤ limit) : Sized shape limit (c.flushBatch s mtu).1 (c.flushBatch s mtu).2.1 := by
  refine ⟨h.shape_eq, h.unacked, by simp [Connection.flushBatch], h.disconnect, ?_⟩
  have hframes : ∀ p ∈ c.batchBuf, ((singleFrame p).length : ℤ) ≤ limit := by
    intro p hp
    obtain ⟨hon, hlen⟩ := h.batched p hp
    have hframed := h.framed_length_le hlimit hlen
    rwa [if_pos hon] at hframed
  intro d hd
  rcases writeAll_written s _ d hd with hold | hnew
  · exact h.written d hold
  · exact packBatch_length_le hmtu hframes d hnew

theorem sendMultiChannelHeartbeat (h : Sized shape limit c s)
    (hlimit : (maxFramed shape : ℤ) ≤ limit) (ids : List UInt8) (now : ℤ) :
    Sized shape limit (c.sendMultiChannelHeartbeat s ids now).1
      (c.sendMultiChannelHeartbeat s ids now).2.1 := by
  rw [Connection.sendMultiChannelHeartbeat]
  dsimp only
  split
  · exact h
  · split
    · exact h
    · rename_i packet hpacket
      have hlen := multiAckPacket_length_le hpacket
      have hshort : packet.length ≤ maxPlaintext := hlen.trans (by decide)
      have hsent := (h.after_seal packet).sendFramed hlimit (h.encrypt_length_le hshort)
      split
      · rename_i heq
        rwa [heq] at hsent
      · rename_i heq
        rw [heq] at hsent
        exact hsent.of_wire rfl

theorem close (h : Sized shape limit c s) (hlimit : (maxFramed shape : ℤ) ≤ limit) (now : ℤ) :
    Sized shape limit (c.close s now).1 (c.close s now).2.1 := by
  rw [Connection.close]
  split
  · exact h
  · dsimp only
    split
    · exact h.of_wire rfl
    · rename_i plaintext hplaintext
      have hshort : plaintext.length ≤ maxPlaintext := by
        have hbuilt : disconnectPlaintext.toOption.all fun p => p.length ≤ maxPlaintext := by
          decide
        rw [hplaintext] at hbuilt
        exact of_decide_eq_true hbuilt
      have hpacket := h.framed_length_le hlimit (h.encrypt_length_le hshort)
      have hwritten := (h.after_seal plaintext).write hpacket
      refine ⟨hwritten.shape_eq, hwritten.unacked, hwritten.batched, ?_, hwritten.written⟩
      rintro packet ⟨⟩
      exact hpacket

end Sized

/-- The steps of the send pipeline keep the sizes. -/
theorem tickInvariant_sized {shape : Option Aead × Bool × UInt8 × Bytes} {mtu limit : ℤ}
    (hmtu : mtu ≤ limit) (hlimit : (maxFramed shape : ℤ) ≤ limit) :
    TickInvariant mtu (Sized shape limit) where
  books h same := h.of_wire (congrArg Prod.fst same)
  number found h := h.set_channel found fun p hp => .inr ⟨p, hp, rfl⟩
  transmit short h := h.transmitPacket hlimit short
  queue now short h := h.queuePacket now short
  check {c s i ch} now rto maxRetries found h := by
    refine h.set_channel found fun p hp => .inr ?_
    obtain ⟨q, hq, -, hraw⟩ := Channel.mem_checkPending now rto maxRetries (.inl hp)
    exact ⟨q, hq, hraw⟩
  resend {c s raw} now unacked h := by
    have hshort := h.unacked raw unacked
    exact ((h.after_seal raw).sendFramed hlimit (h.encrypt_length_le hshort)).of_wire rfl
  flush h := h.flushBatch hlimit hmtu
  shutDown h := h.after_shutDown
  clear {c s i ch} found h := by
    refine h.set_channel found fun p hp => .inr ⟨p, ?_, rfl⟩
    rwa [clearNeedsAck_eq] at hp
  acks ids now h := h.sendMultiChannelHeartbeat hlimit ids now
  repeatDisconnect waiting h := h.write (h.disconnect _ waiting)
  backlog _ h := h.of_wire rfl
  close now h := h.close hlimit now

/-- What receiving leaves of it. -/
theorem receiveInvariant_sized (shape : Option Aead × Bool × UInt8 × Bytes) (limit : ℤ)
    (s : Socket) :
    ReceiveInvariant fun c => Sized shape limit c s where
  books h same := h.of_wire (congrArg Prod.fst same)
  channel found fewer _ h := h.set_channel found fun p hp => .inr ⟨p, fewer hp, rfl⟩

end Connection

/-! ## Runs -/

/-- The read buffer of the peer. -/
def readBufferSize (mtu : ℤ) : ℤ :=
  mtu + (nonceSize + tagSize : ℕ) + migrationTokenSize + batchHeaderSize

/-- One end of a connection with everything it has handed to the socket. -/
structure Line where
  conn : Connection
  /-- The client puts the migration token in front of its datagrams. -/
  client : Bool
  sent : List Bytes

namespace Line

/-- What happens at one end. The list of outcomes is for the writes of the step. -/
inductive Action
  | receive (now : ℤ) (data : Bytes)
  | tick (now : ℤ) (failures : List Bool)
  | sendImmediate (now : ℤ) (data : Bytes) (channel : UInt8) (failures : List Bool)
  | send (data : Bytes) (channel : UInt8)
  | close (now : ℤ) (failures : List Bool)

section

variable (l : Line)

/-- `sendFunc` of the client and of the server. -/
def sendFunc (datagram : Bytes) : Bytes :=
  if l.client && migrates l.conn.features then l.conn.migrationToken ++ datagram else datagram

/-- The connection after a call, and what the call wrote. -/
def written (c : Connection) (s : Socket) : Line :=
  { l with conn := c, sent := l.sent ++ s.written.map l.sendFunc }

def next (cfg : TickConfig) : Action → Option Line
  | .receive now data =>
      match l.conn.processPacket now data with
      | .error _ => none
      | .ok (c, _) => some { l with conn := c }
  | .tick now failures =>
      let after := l.conn.tickConnection cfg ⟨failures, []⟩ now
      some (l.written after.1 after.2.1)
  | .sendImmediate now data channel failures =>
      let after := l.conn.sendImmediate ⟨failures, []⟩ data channel now
      some (l.written after.1 after.2.1)
  | .send data channel => some { l with conn := (l.conn.enqueueSend data channel).1 }
  | .close now failures =>
      let after := l.conn.close ⟨failures, []⟩ now
      some (l.written after.1 after.2.1)

/-- The bytes in front of every datagram. -/
def tokenSize : ℕ := if l.client && migrates l.conn.features then migrationTokenSize else 0

/-- The longest data packet fits the read buffer with all that is put around it. -/
def Roomy (cfg : TickConfig) : Prop :=
  (Connection.maxFramed l.conn.shape + l.tokenSize : ℤ) ≤ readBufferSize cfg.mtu

end

/-- The runs of one end, from a new connection on. -/
def system (cfg : TickConfig) : System Line Action where
  init l := ∃ input now, input.token.length = migrationTokenSize ∧
    l.conn = newConnection input now ∧ l.sent = []
  step l a l' := l.next cfg a = some l'

variable {cfg : TickConfig} {l l' : Line}

/-- What is left of the read buffer for the datagrams of the connection. -/
def limit (cfg : TickConfig) (l : Line) : ℤ := readBufferSize cfg.mtu - l.tokenSize

/-- Everything that waits is short enough, and everything that was sent fits. -/
structure Fits (cfg : TickConfig) (l : Line) : Prop where
  token_length : l.conn.migrationToken.length = migrationTokenSize
  sized : Connection.Sized l.conn.shape (limit cfg l) l.conn ⟨[], []⟩
  sent : ∀ d ∈ l.sent, (d.length : ℤ) ≤ readBufferSize cfg.mtu

theorem mtu_le_limit (cfg : TickConfig) (l : Line) : cfg.mtu ≤ limit cfg l := by
  have htoken : l.tokenSize ≤ migrationTokenSize := by
    rw [tokenSize]
    split
    · exact le_rfl
    · exact Nat.zero_le _
  rw [limit, readBufferSize]
  omega

theorem sendFunc_length (h : l.conn.migrationToken.length = migrationTokenSize) (d : Bytes) :
    (l.sendFunc d).length = l.tokenSize + d.length := by
  rw [sendFunc, tokenSize]
  split
  · rw [List.length_append, h]
  · rw [Nat.zero_add]

theorem fits_start (h : (system cfg).init l) : Fits cfg l := by
  obtain ⟨input, now, htoken, hconn, hsent⟩ := h
  refine ⟨by rw [hconn]; exact htoken, ⟨rfl, ?_, ?_, ?_, ?_⟩, by simp [hsent]⟩
  · rintro raw ⟨ch, hch, p, hp, -⟩
    rw [hconn] at hch
    obtain ⟨d, -, rfl⟩ := List.mem_map.mp hch
    cases hp
  · simp [hconn, newConnection]
  · simp [hconn, newConnection]
  · simp

/-- A call that keeps the connection sized keeps everything. -/
theorem Fits.written (h : Fits cfg l) {c : Connection} {s : Socket}
    (hsized : Connection.Sized l.conn.shape (limit cfg l) c s) : Fits cfg (l.written c s) := by
  have hshape := hsized.shape_eq
  have htoken : c.migrationToken = l.conn.migrationToken := congrArg (fun v => v.2.2.2) hshape
  have hfeatures : c.features = l.conn.features := congrArg (fun v => v.2.2.1) hshape
  have hlimit : limit cfg (l.written c s) = limit cfg l := by
    simp only [limit, tokenSize, Line.written, hfeatures]
  constructor
  · rw [← h.token_length, ← htoken]
    rfl
  · rw [hlimit]
    refine ⟨rfl, hsized.unacked, ?_, hsized.disconnect, by simp⟩
    intro packet hpacket
    show _ ∧ _ ≤ _ + sealSize c.shape.1
    rw [hshape]
    exact hsized.batched packet hpacket
  · intro d hd
    rcases List.mem_append.mp hd with hold | hnew
    · exact h.sent d hold
    · obtain ⟨datagram, hdatagram, rfl⟩ := List.mem_map.mp hnew
      have hlen := hsized.written datagram hdatagram
      rw [sendFunc_length h.token_length]
      rw [limit] at hlen
      push_cast
      omega

theorem Fits.next {a : Action} (h : Fits cfg l) (hroomy : l.Roomy cfg)
    (hnext : l.next cfg a = some l') : Fits cfg l' := by
  have hlimit : (Connection.maxFramed l.conn.shape : ℤ) ≤ limit cfg l := by
    rw [Roomy] at hroomy
    rw [limit]
    omega
  have htick := Connection.tickInvariant_sized (mtu_le_limit cfg l) hlimit
  have hquiet : ∀ {c : Connection}, Connection.Sized l.conn.shape (limit cfg l) c ⟨[], []⟩ →
      Fits cfg { l with conn := c } := by
    intro c hsized
    have hwritten := h.written hsized
    simpa [Line.written] using hwritten
  have hfailures : ∀ failures,
      Connection.Sized l.conn.shape (limit cfg l) l.conn ⟨failures, []⟩ :=
    fun failures => ⟨rfl, h.sized.unacked, h.sized.batched, h.sized.disconnect, by simp⟩
  cases a with
  | receive now data =>
      rw [Line.next] at hnext
      split at hnext
      · cases hnext
      · rename_i c events hok
        cases hnext
        exact hquiet
          ((Connection.receiveInvariant_sized l.conn.shape (limit cfg l) _).processPacket
            (fun hc => hc.after_shutDown) (fun _ hc => hc.of_wire rfl) hok h.sized)
  | tick now failures =>
      cases hnext
      exact h.written (htick.tickSeen cfg rfl now l.conn.state (hfailures failures))
  | sendImmediate now data channel failures =>
      cases hnext
      exact h.written (htick.sendImmediate data channel now (hfailures failures))
  | send data channel =>
      cases hnext
      refine hquiet (h.sized.of_wire ?_)
      rw [Connection.enqueueSend]
      split
      · rfl
      · split <;> rfl
  | close now failures =>
      cases hnext
      exact h.written (htick.close now (hfailures failures))

/-- In every run in which the longest data packet fits the read buffer of the
peer, every datagram does. -/
theorem datagrams_fit {hist : List (Line × Action)} (hrun : (system cfg).Run hist l)
    (hroomy : System.Guarded (fun l _ => l.Roomy cfg) hist) :
    ∀ d ∈ l.sent, (d.length : ℤ) ≤ readBufferSize cfg.mtu := by
  have hstart : ∀ l, (system cfg).init l → Fits cfg l := fun _ => fits_start
  have hstep : ∀ hist l a l', (system cfg).Run hist l → Fits cfg l → l.Roomy cfg →
      (system cfg).step l a l' → Fits cfg l' := fun _ _ _ _ _ h hroomy hnext => h.next hroomy hnext
  exact (hrun.guarded_invariant hstart hstep hroomy).sent

/-- An MTU of 1178 bytes is enough for every connection. -/
theorem roomy_of_le (h : 1178 ≤ cfg.mtu) (l : Line) : l.Roomy cfg := by
  have hseal : sealSize l.conn.shape.1 ≤ 24 := by
    rw [sealSize]
    split <;> decide
  have hframe : frameSize l.conn.shape.2.1 ≤ 3 := by
    rw [frameSize]
    split <;> decide
  have htoken : l.tokenSize ≤ 8 := by
    rw [tokenSize]
    split <;> decide
  have hplain : Connection.maxPlaintext = 1176 := rfl
  have hbuffer : readBufferSize cfg.mtu = cfg.mtu + 33 := by
    simp only [readBufferSize, nonceSize, tagSize, migrationTokenSize, batchHeaderSize]
    omega
  rw [Roomy, Connection.maxFramed, hplain, hbuffer]
  push_cast
  omega

def batchingClient : Line where
  conn := newConnection
    { plainInput [(.reliableOrdered, 0)] with
      features := featureSendBatching ||| featureConnectionMigration
      token := List.replicate migrationTokenSize 3 } 0
  client := true
  sent := []

theorem batchingClient_init (cfg : TickConfig) : (system cfg).init batchingClient :=
  ⟨_, 0, List.length_replicate, rfl, rfl⟩

/-- Two messages that leave in one batch. -/
theorem datagrams_fit_batch : ∃ hist l, (system ⟨1200, 10, 10, 10, 10⟩).Run hist l ∧
    l.sent.length = 1 ∧ ∀ d ∈ l.sent, (d.length : ℤ) ≤ 1233 := by
  have hexec : (System.exec (fun l a => next l ⟨1200, 10, 10, 10, 10⟩ a) batchingClient
      [.send (List.replicate 100 7) 0, .send [8] 0, .tick 0 []]).any
        (fun l => decide (l.sent.length = 1)) = true := by
    decide +kernel
  obtain ⟨hist, l, hrun, hsent⟩ := System.exists_run (S := system ⟨1200, 10, 10, 10, 10⟩)
    (fun _ _ _ h => h) (batchingClient_init _) _ _ hexec
  refine ⟨hist, l, hrun, of_decide_eq_true hsent, ?_⟩
  exact datagrams_fit hrun fun taken _ => roomy_of_le (by decide) taken.1

/-- With an MTU of 500 bytes a message of 1000 bytes leaves in one datagram that
the peer cannot read. -/
theorem datagram_exceeds_buffer : ∃ hist l, (system ⟨500, 10, 10, 10, 10⟩).Run hist l ∧
    ∃ d ∈ l.sent, readBufferSize 500 < (d.length : ℤ) := by
  have hexec : (System.exec (fun l a => next l ⟨500, 10, 10, 10, 10⟩ a) batchingClient
      [.sendImmediate 0 (List.replicate 1000 7) 0 []]).any
        (fun l => l.sent.any fun d => decide (readBufferSize 500 < (d.length : ℤ))) = true := by
    decide +kernel
  obtain ⟨hist, l, hrun, hsent⟩ := System.exists_run (S := system ⟨500, 10, 10, 10, 10⟩)
    (fun _ _ _ h => h) (batchingClient_init _) _ _ hexec
  obtain ⟨d, hd, hlong⟩ := List.any_eq_true.mp hsent
  exact ⟨hist, l, hrun, d, hd, of_decide_eq_true hlong⟩

end Line

end Fastwire
