/-
# The tick of a connection

What the owner of a connection does for it on every tick, and the graceful
close. Server and client run the same code; what they unregister when the
connection is shut down is signalled by the disconnect event.

The connections modelled have their send function installed, as `setupConnection`
and `Connect` do before they hand the connection out. The nil branches of `Close`,
`SendImmediate` and the disconnect retry are left out, and so is the call of a nil
function in `sendFramed`.
-/

import Fastwire.Connection.Send

namespace Fastwire

def maxDisconnectRetries : ℕ := 3

/-- The part of the server and client configuration a tick reads. -/
structure TickConfig where
  mtu : ℤ
  connTimeout : ℤ
  maxRetransmits : ℤ
  heartbeatInterval : ℤ
  fragmentTimeout : ℤ

namespace Connection

variable (c : Connection)

/-! ## Retransmission -/

/-- Seal one packet again and write it. A failed write is ignored. -/
def retransmitPacket (s : Socket) (raw : Bytes) (now : ℤ) : Connection × Socket :=
  let (cipher, encrypted) := c.sendCipher.encrypt raw
  let c := { c with sendCipher := cipher }
  ({ c with lastSend := now, cc := c.cc.onLoss }, (c.sendFramed s encrypted).1)

/-- The packets that are due on one channel. -/
def retransmitPackets (now : ℤ) :
    Connection → Socket → List PendingPacket → Connection × Socket
  | c, s, [] => (c, s)
  | c, s, p :: ps =>
      let (c, s) := c.retransmitPacket s p.raw now
      retransmitPackets now c s ps

/-- The retransmission check over the channels in order; the flag says that the
connection was killed. -/
def retransmitChannels (now rto maxRetransmits : ℤ) :
    Connection → Socket → List ℕ → Connection × Socket × Bool
  | c, s, [] => (c, s, false)
  | c, s, i :: is =>
      match c.channels[i]? with
      | none => retransmitChannels now rto maxRetransmits c s is
      | some ch =>
          let (ch, retransmits, kill) := ch.checkRetransmissions now rto maxRetransmits
          let c := { c with channels := c.channels.set i ch }
          if kill then (c.shutDown, s, true)
          else
            let (c, s) := retransmitPackets now c s retransmits
            retransmitChannels now rto maxRetransmits c s is

/-! ## The send queue -/

/-- The drain of the send queue. The congestion gate puts the rest back. -/
def drainQueue (now : ℤ) :
    Connection → Socket → List OutgoingMessage → Connection × Socket × List Event
  | c, s, [] => (c, s, [])
  | c, s, msg :: msgs =>
      if c.cc.canSend c.inFlightCount then
        let (c, s, result) := c.sendMessage s msg.data msg.channel now
        let (c, s, events) := drainQueue now c s msgs
        match result with
        | .error e => (c, s, .onError e :: events)
        | .ok () => (c, s, events)
      else ({ c with sendQueue := msg :: msgs ++ c.sendQueue }, s, [])

/-- A message that the gate lets through. -/
theorem drainQueue_of_room (s : Socket) (now : ℤ) {msg : OutgoingMessage}
    {msgs : List OutgoingMessage} (hroom : c.cc.canSend c.inFlightCount = true) :
    (drainQueue now c s (msg :: msgs)).1 =
      (drainQueue now (c.sendMessage s msg.data msg.channel now).1
        (c.sendMessage s msg.data msg.channel now).2.1 msgs).1 := by
  rw [drainQueue, if_pos hroom]
  dsimp only
  split <;> rfl

theorem drainQueue_of_full (s : Socket) (now : ℤ) {msg : OutgoingMessage}
    {msgs : List OutgoingMessage} (hfull : c.cc.canSend c.inFlightCount = false) :
    drainQueue now c s (msg :: msgs) =
      ({ c with sendQueue := msg :: msgs ++ c.sendQueue }, s, []) := by
  rw [drainQueue, if_neg (by simp [hfull])]

def enqueueSend (data : Bytes) (id : UInt8) : Connection × Except Err Unit :=
  if c.state ≠ .connected then (c, .error .connectionClosed)
  else if c.channels.length ≤ id.toNat then (c, .error .invalidChannel)
  else ({ c with sendQueue := c.sendQueue ++ [⟨data, id⟩] }, .ok ())

/-- `SendImmediate`: past the send queue and the batch queue. -/
def sendImmediate (s : Socket) (data : Bytes) (id : UInt8) (now : ℤ) :
    Connection × Socket × Except Err Unit :=
  if c.state ≠ .connected then (c, s, .error .connectionClosed)
  else if c.channels.length ≤ id.toNat then (c, s, .error .invalidChannel)
  else
    let (c, s, result) := ({ c with skipBatch := true }).sendMessage s data id now
    ({ c with skipBatch := false }, s, result)

/-! ## Acknowledgements -/

/-- `clearNeedsAck` over the channels: the connection and the channels that
wanted an acknowledgement. -/
def collectAcks : Connection → List ℕ → Connection × List UInt8
  | c, [] => (c, [])
  | c, i :: is =>
      match c.channels[i]? with
      | none => collectAcks c is
      | some ch =>
          let (ch, wanted) := ch.clearNeedsAck
          let (c, ids) := collectAcks { c with channels := c.channels.set i ch } is
          (c, if wanted then UInt8.ofNat i :: ids else ids)

/-- The coalesced acknowledgement of a tick. A failed send is ignored. -/
def flushAcks (s : Socket) (now : ℤ) : Connection × Socket :=
  let (c, ids) := collectAcks c (List.range c.channels.length)
  if ids = [] then (c, s)
  else
    let (c, s, _) := c.sendMultiChannelHeartbeat s ids now
    (c, s)

/-! ## Disconnecting -/

def disconnectPlaintext : Except Err Bytes :=
  buildControlPacket 64 ⟨flagControl, 0, 0, 0, 0⟩ [ControlType.disconnect.toByte]

/-- `Connection.Close`: enter the disconnecting state and send the first
disconnect packet, which the ticks repeat. -/
def close (s : Socket) (now : ℤ) : Connection × Socket × Except Err Unit :=
  if c.state ≠ .connected then (c, s, .error .connectionClosed)
  else
    let c := { c with state := .disconnecting }
    match disconnectPlaintext with
    | .error _ => (c, s, .ok ())
    | .ok plaintext =>
        let (cipher, encrypted) := c.sendCipher.encrypt plaintext
        let packet := if c.batchEnabled then singleFrame encrypted else encrypted
        ({ c with
            sendCipher := cipher
            disconnectPacket := some packet
            disconnectRetries := 0
            nextDisconnectRetry := now + c.rttState.timeout },
          (s.write packet).1, .ok ())

def tickDisconnecting (s : Socket) (now : ℤ) : Connection × Socket × List Event :=
  if c.disconnectRetries ≥ maxDisconnectRetries then
    (c.shutDown, s, [.onDisconnect .graceful])
  else
    match c.disconnectPacket with
    | some packet =>
        if now > c.nextDisconnectRetry then
          ({ c with
              disconnectRetries := c.disconnectRetries + 1
              nextDisconnectRetry := now + c.rttState.timeout }, (s.write packet).1, [])
        else (c, s, [])
    | none => (c, s, [])

/-! ## The tick -/

/-- The flush of a tick: a failed write is reported. -/
def flushStage (cfg : TickConfig) (s : Socket) : Connection × Socket × List Event :=
  if c.batchEnabled then
    match c.flushBatch s cfg.mtu with
    | (c, s, .error e) => (c, s, [.onError e])
    | (c, s, .ok ()) => (c, s, [])
  else (c, s, [])

/-- The heartbeat of a tick. A failed write is ignored. -/
def heartbeatStage (cfg : TickConfig) (s : Socket) (now : ℤ) : Connection × Socket :=
  if c.state = .connected ∧ now - c.lastSend ≥ cfg.heartbeatInterval then
    let (c, s, _) := c.sendHeartbeat s now
    (c, s)
  else (c, s)

/-- What follows the retransmission check on a live connection. -/
def tickSend (cfg : TickConfig) (s : Socket) (now : ℤ) : Connection × Socket × List Event :=
  let msgs := c.sendQueue
  let (c, s, events) := drainQueue now { c with sendQueue := [] } s msgs
  let (c, s, events') := c.flushStage cfg s
  let (c, s) := c.flushAcks s now
  let (c, s) := c.heartbeatStage cfg s now
  ({ c with reassembly := c.reassembly.cleanup now cfg.fragmentTimeout }, s, events ++ events')

/-- `tickConnection` behind its read of the state. Another goroutine may have
changed the state since. -/
def tickSeen (cfg : TickConfig) (s : Socket) (now : ℤ) :
    ConnState → Connection × Socket × List Event
  | .disconnecting => c.tickDisconnecting s now
  | .connected =>
      if now - c.lastRecv ≥ cfg.connTimeout then (c.shutDown, s, [.onDisconnect .timeout])
      else
        match retransmitChannels now c.retransmitTimeout cfg.maxRetransmits c s
            (List.range c.channels.length) with
        | (c, s, true) => (c, s, [.onError .maxRetransmits, .onDisconnect .error])
        | (c, s, false) => c.tickSend cfg s now
  | _ => (c, s, [])

/-- `tickConnection`. -/
def tickConnection (cfg : TickConfig) (s : Socket) (now : ℤ) :
    Connection × Socket × List Event :=
  c.tickSeen cfg s now c.state

/-- A tick goes through its stages one after another. -/
theorem tickSend_eq (cfg : TickConfig) (s : Socket) (now : ℤ) :
    c.tickSend cfg s now =
      let drained := drainQueue now { c with sendQueue := [] } s c.sendQueue
      let flushed := drained.1.flushStage cfg drained.2.1
      let acked := flushed.1.flushAcks flushed.2.1 now
      let beaten := acked.1.heartbeatStage cfg acked.2 now
      ({ beaten.1 with reassembly := beaten.1.reassembly.cleanup now cfg.fragmentTimeout },
        beaten.2, drained.2.2 ++ flushed.2.2) := rfl

end Connection

end Fastwire
