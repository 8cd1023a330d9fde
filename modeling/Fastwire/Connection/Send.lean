/-
# The send pipeline

From a message to the packets on the wire: compress, split, number, seal,
write, and remember for retransmission. Sending one packet is cut into the
sections between which other goroutines may run: `nextSequence` allocates the
number, `buildPacket` snapshots the acknowledgement state and builds the
plaintext, `transmitPacket` seals and writes it, `queuePacket` enters it into the
retransmission queue.

The socket is a script of the outcomes of the coming writes together with the
datagrams written so far.
-/

import Fastwire.Connection.Receive

namespace Fastwire

/-- The write side of a socket. -/
structure Socket where
  failures : List Bool
  written : List Bytes

/-- One write. Beyond the script every write succeeds. -/
def Socket.write (s : Socket) (datagram : Bytes) : Socket × Except Err Unit :=
  match s.failures with
  | true :: rest => ({ s with failures := rest }, .error .socket)
  | _ => (⟨s.failures.tail, s.written ++ [datagram]⟩, .ok ())

/-- A packet between the allocation of its number and the end of its send. -/
structure Stamped where
  channel : UInt8
  sequence : ℕ
  raw : Bytes
  deriving DecidableEq, Repr

def maxHeaderSize : ℕ := 16

def maxBatchQueueSize : ℕ := 256

namespace Connection

variable (c : Connection)

/-! ## One packet -/

def sendFramed (s : Socket) (encrypted : Bytes) : Socket × Except Err Unit :=
  s.write (if c.batchEnabled then singleFrame encrypted else encrypted)

/-- `writeEncrypted`: queue for the batch if there is room, else write. -/
def writeEncrypted (s : Socket) (encrypted : Bytes) : Connection × Socket × Except Err Unit :=
  if c.batchEnabled ∧ ¬ c.skipBatch ∧ c.batchBuf.length < maxBatchQueueSize then
    ({ c with batchBuf := c.batchBuf ++ [encrypted] }, s, .ok ())
  else (c, c.sendFramed s encrypted)

def dataHeader (ch : Channel) (id flags : UInt8) (seq : ℕ) : PacketHeader where
  flags := flags
  channel := id
  sequence := UInt32.ofNat seq
  ack := UInt32.ofNat ch.ackState.1
  ackField := ch.ackState.2

/-- The plaintext of a data packet that carries the channel's current
acknowledgement state. -/
def buildPacket (ch : Channel) (id flags : UInt8) (seq : ℕ) (body : Bytes) : Except Err Stamped :=
  (marshalHeader (maxHeaderSize + body.length) (dataHeader ch id flags seq)).map
    fun header => ⟨id, seq, header ++ body⟩

/-- The start of `sendSinglePacket` and of the loop of `sendFragmented`: take a
number and build the plaintext. -/
def stampPacket (ch : Channel) (id flags : UInt8) (body : Bytes) :
    Connection × Except Err Stamped :=
  let (ch, seq) := ch.nextSequence
  (c.setChannel id ch, buildPacket ch id flags seq body)

def transmitPacket (s : Socket) (raw : Bytes) : Connection × Socket × Except Err Unit :=
  let (cipher, encrypted) := c.sendCipher.encrypt raw
  let transmissions := c.transmissions ++ [⟨raw, c.inFlightCount⟩]
  ({ c with sendCipher := cipher, transmissions := transmissions }).writeEncrypted s encrypted

/-- Reliable packets are kept until they are acknowledged. -/
def queuePacket (p : Stamped) (now : ℤ) : Connection :=
  match c.channel p.channel with
  | none => c
  | some ch =>
      if ch.mode.reliable then
        let entry : PendingPacket := ⟨p.raw, now, 0, now + c.retransmitTimeout, true, p.sequence⟩
        { c.setChannel p.channel (ch.addPending entry) with
          loss := c.loss.recordSend p.sequence }
      else c

/-- The sections in sequence. -/
def sendPacket (s : Socket) (ch : Channel) (id flags : UInt8) (body : Bytes) (now : ℤ) :
    Connection × Socket × Except Err Unit :=
  match c.stampPacket ch id flags body with
  | (c, .error e) => (c, s, .error e)
  | (c, .ok p) =>
      match c.transmitPacket s p.raw with
      | (c, s, .error e) => (c, s, .error e)
      | (c, s, .ok ()) => (c.queuePacket p now, s, .ok ())

/-! ## One message -/

def sendSinglePacket (s : Socket) (ch : Channel) (id : UInt8) (payload : Bytes) (now : ℤ) :
    Connection × Socket × Except Err Unit :=
  match c.sendPacket s ch id 0 payload now with
  | (c, s, .error e) => (c, s, .error e)
  | (c, s, .ok ()) => ({ c with lastSend := now }, s, .ok ())

/-- The loop of `sendFragmented`. -/
def sendFragments (id : UInt8) (now : ℤ) :
    Connection → Socket → List Bytes → Connection × Socket × Except Err Unit
  | c, s, [] => ({ c with lastSend := now }, s, .ok ())
  | c, s, frag :: frags =>
      match c.channel id with
      | none => (c, s, .error .invalidChannel)
      | some ch =>
          match c.sendPacket s ch id flagFragment frag now with
          | (c, s, .error e) => (c, s, .error e)
          | (c, s, .ok ()) => sendFragments id now c s frags

/-- `sendFragmented`. The fragment identifier is used up even if the message is
too large. -/
def sendFragmented (s : Socket) (id : UInt8) (compressed : Bytes) (fragFlags : UInt8) (now : ℤ) :
    Connection × Socket × Except Err Unit :=
  let (c, fragmentID) := c.nextFragmentID
  match splitMessage compressed fragmentID fragFlags with
  | .error e => (c, s, .error e)
  | .ok fragments => sendFragments id now c s fragments

def sendMessage (s : Socket) (data : Bytes) (id : UInt8) (now : ℤ) :
    Connection × Socket × Except Err Unit :=
  match c.channel id with
  | none => (c, s, .error .invalidChannel)
  | some ch =>
      match c.compress.compressPayload data with
      | .error e => (c, s, .error e)
      | .ok (compressed, fragFlags) =>
          if compressed.length > maxFragmentPayload ∨ fragFlags ≠ 0 then
            c.sendFragmented s id compressed fragFlags now
          else c.sendSinglePacket s ch id compressed now

/-! ## Acknowledgements and heartbeats -/

def multiAckEntries (ids : List UInt8) : List MultiAckEntry :=
  ids.filterMap fun id => (c.channel id).map fun ch =>
    ⟨id, UInt32.ofNat ch.ackState.1, ch.ackState.2⟩

def multiAckPacket (entries : List MultiAckEntry) : Except Err Bytes :=
  match marshalMultiAck 256 entries with
  | .error e => .error e
  | .ok payload => buildControlPacket (64 + payload.length) ⟨flagControl, 0, 0, 0, 0⟩ payload

/-- The packet holds its entries. -/
theorem multiAckPacket_ok {entries : List MultiAckEntry} {raw : Bytes}
    (hok : multiAckPacket entries = .ok raw) :
    ∃ room tail, buildControlPacket room ⟨flagControl, 0, 0, 0, 0⟩
        (ControlType.multiAck.toByte :: tail) = .ok raw ∧
      unmarshalMultiAck tail = .ok (entries, tail.length) := by
  rw [multiAckPacket] at hok
  split at hok
  · cases hok
  · rename_i payload hpayload
    have hcount := marshalMultiAck_count (by decide) hpayload
    obtain ⟨tail, rfl, hparse⟩ := unmarshalMultiAck_marshalMultiAck [] hcount hpayload
    rw [List.append_nil] at hparse
    exact ⟨_, tail, hok, hparse⟩

def sendMultiChannelHeartbeat (s : Socket) (ids : List UInt8) (now : ℤ) :
    Connection × Socket × Except Err Unit :=
  let entries := c.multiAckEntries ids
  if entries = [] then (c, s, .ok ())
  else
    match multiAckPacket entries with
    | .error e => (c, s, .error e)
    | .ok packet =>
        let (cipher, encrypted) := c.sendCipher.encrypt packet
        let c := { c with sendCipher := cipher }
        match c.sendFramed s encrypted with
        | (s, .error e) => (c, s, .error e)
        | (s, .ok ()) => ({ c with lastSend := now }, s, .ok ())

/-- `sendHeartbeat`: channel 0 only. -/
def sendHeartbeat (s : Socket) (now : ℤ) : Connection × Socket × Except Err Unit :=
  c.sendMultiChannelHeartbeat s [0] now

/-! ## Batches -/

/-- The datagram collected so far, if there is anything in it. -/
def closeDatagram (count : ℕ) (entries : Bytes) : List Bytes :=
  if count = 0 then [] else [UInt8.ofNat count :: entries]

/-- The datagrams `flushBatch` makes of the queued packets: `count` packets,
already encoded in `entries`, wait in the current one. -/
def packBatch (mtu : ℤ) : (count : ℕ) → (entries : Bytes) → List Bytes → List Bytes
  | count, entries, [] => closeDatagram count entries
  | count, entries, pkt :: pkts =>
      let entry := batchEntry pkt
      if (batchHeaderSize + entry.length : ℤ) > mtu then
        closeDatagram count entries ++ singleFrame pkt :: packBatch mtu 0 [] pkts
      else if (batchHeaderSize + entries.length + entry.length : ℤ) > mtu ∨ count ≥ 255 then
        closeDatagram count entries ++ packBatch mtu 1 entry pkts
      else packBatch mtu (count + 1) (entries ++ entry) pkts

/-- Write datagrams until one fails; the rest is dropped. -/
def writeAll : Socket → List Bytes → Socket × Except Err Unit
  | s, [] => (s, .ok ())
  | s, d :: ds =>
      match s.write d with
      | (s, .error e) => (s, .error e)
      | (s, .ok ()) => writeAll s ds

def flushBatch (s : Socket) (mtu : ℤ) : Connection × Socket × Except Err Unit :=
  ({ c with batchBuf := [] }, writeAll s (packBatch mtu 0 [] c.batchBuf))

end Connection

/-! ## Reading what was built -/

/-- A data packet that was built is read back as it was. -/
theorem unmarshalHeader_buildPacket {ch : Channel} {id flags : UInt8} {seq : ℕ} {body : Bytes}
    {p : Stamped} (hok : Connection.buildPacket ch id flags seq body = .ok p) :
    ∃ n, unmarshalHeader p.raw = .ok (Connection.dataHeader ch id flags seq, n) ∧
      p.raw.drop n = body := by
  rw [Connection.buildPacket] at hok
  cases hhdr : marshalHeader (maxHeaderSize + body.length)
      (Connection.dataHeader ch id flags seq) with
  | error err => simp [hhdr, Except.map] at hok
  | ok header =>
      simp only [hhdr, Except.map, Except.ok.injEq] at hok
      subst hok
      exact ⟨header.length, unmarshalHeader_marshalHeader body hhdr, List.drop_left⟩

/-- What a receiver reads off a data packet. -/
theorem read_buildPacket {ch : Channel} {id : UInt8} {fragment : Bool} {seq : ℕ} {body : Bytes}
    {p : Stamped} (hlt : seq < 2 ^ 32)
    (hok : Connection.buildPacket ch id (if fragment then flagFragment else 0) seq body = .ok p)
    {hdr : PacketHeader} {n : ℕ} (hparse : unmarshalHeader p.raw = .ok (hdr, n)) :
    hdr.channel = id ∧ hdr.sequence.toNat = seq ∧ p.raw.drop n = body ∧
      (hdr.flags &&& flagFragment = 0 ↔ fragment = false) := by
  obtain ⟨n', hparse', hdrop⟩ := unmarshalHeader_buildPacket hok
  rw [hparse, Except.ok.injEq, Prod.mk.injEq] at hparse'
  obtain ⟨rfl, rfl⟩ := hparse'
  refine ⟨rfl, ?_, hdrop, ?_⟩
  · rw [Connection.dataHeader, UInt32.toNat_ofNat', Nat.mod_eq_of_lt hlt]
  · cases fragment <;> simp [Connection.dataHeader, flagFragment]

/-- A control packet is read back as a control packet. -/
theorem unmarshalHeader_buildControlPacket {room : ℕ} {payload raw : Bytes}
    (hok : buildControlPacket room ⟨flagControl, 0, 0, 0, 0⟩ payload = .ok raw) :
    ∃ n, unmarshalHeader raw = .ok (⟨flagControl, 0, 0, 0, 0⟩, n) ∧ raw.drop n = payload := by
  rw [buildControlPacket] at hok
  split at hok
  · cases hok
  · rename_i header hhdr
    split at hok <;> cases hok
    exact ⟨header.length, unmarshalHeader_marshalHeader payload hhdr, List.drop_left⟩

/-- A control packet is not taken for a data packet. -/
theorem control_of_buildControlPacket {room n : ℕ} {payload raw : Bytes} {hdr : PacketHeader}
    (hok : buildControlPacket room ⟨flagControl, 0, 0, 0, 0⟩ payload = .ok raw)
    (hparse : unmarshalHeader raw = .ok (hdr, n)) : hdr.flags &&& flagControl ≠ 0 := by
  obtain ⟨n', hparse', -⟩ := unmarshalHeader_buildControlPacket hok
  rw [hparse, Except.ok.injEq, Prod.mk.injEq] at hparse'
  rw [hparse'.1]
  decide

end Fastwire
