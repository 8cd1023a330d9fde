/-
# The server

The tables of a server and what its tick goroutine does with them: datagrams are
routed by address, by pending handshake and by migration token, connections are
created, moved and removed.

Connections are objects in the code: a table entry is a reference, and a
connection that is in no table any more can still be held by somebody. The heap
of the model keeps every connection that was ever created, and the tables hold
positions in it. What the code draws at random, the verdict of the rate limiter
and the outcomes of socket writes are inputs of a step.

Callbacks are reported as events. Two internal facts are reported with them: that
`Decrypt` accepted a packet, and what was written to which address.
-/

import Fastwire.Connection.Identity
import Fastwire.Connection.Lifecycle
import Fastwire.Handshake.Exchange

namespace Fastwire

open Crypto Lib

def featuresFromConfig (batching migration : Bool) : UInt8 :=
  (if batching then featureSendBatching else 0) |||
    (if migration then featureConnectionMigration else 0)

/-- `ServerConfig`, as far as the modelled functions read it. -/
structure ServerConfig where
  appVersion : UInt16
  maxConnections : ℤ
  maxPendingHandshakes : ℤ
  handshakeTimeout : ℤ
  layout : List (DeliveryMode × UInt8)
  compression : CompressionConfig
  cc : Congestion
  settings : ConnSettings
  sendBatching : Bool
  connectionMigration : Bool
  tick : TickConfig

/-- The part a handshake reads. -/
def ServerConfig.handshake (config : ServerConfig) : HandshakeConfig where
  appVersion := config.appVersion
  compression := config.compression
  layout := config.layout
  cc := config.cc
  settings := config.settings
  serverFeatures := featuresFromConfig config.sendBatching config.connectionMigration

/-- The tables of a server. A connection is known by its position in the heap. -/
structure Server where
  heap : List Connection
  conns : Table AddrPort ℕ
  pending : Table AddrPort PendingHandshake
  tokens : Table Bytes ℕ

/-- What a server does that can be seen. -/
inductive ServerEvent
  | onConnect (conn : ℕ)
  /-- `Decrypt` accepted a packet that came from the address. -/
  | opened (conn : ℕ) (nonce : ℕ) (addr : AddrPort)
  /-- A callback or an internal call of the connection. -/
  | conn (conn : ℕ) (event : Event)
  /-- A datagram was written. -/
  | sent (addr : AddrPort) (data : Bytes)
  deriving DecidableEq, Repr

namespace Server

def empty : Server := ⟨[], ∅, ∅, ∅⟩

variable (s : Server)

/-! ## Connections -/

def setConn (i : ℕ) (c : Connection) : Server := { s with heap := s.heap.set i c }

def removeConnection (c : Connection) : Server :=
  { s with
    conns := s.conns.erase c.remoteAddr
    tokens := if migrates c.features then s.tokens.erase c.migrationToken else s.tokens }

/-- What follows a call into a connection: it is written back, and removed from
the tables if the call tore it down. -/
def settle (i : ℕ) (c : Connection) (events : List Event) : Server × List ServerEvent :=
  let s := s.setConn i c
  (if events.any Event.isDisconnect then s.removeConnection c else s, events.map (.conn i))

/-! ## Datagrams of known connections -/

def handleDecrypted (now : ℤ) (i : ℕ) (decrypted : Bytes) :
    Except GoPanic (Server × List ServerEvent) :=
  match s.heap[i]? with
  | none => .ok (s, [])
  | some c =>
      match c.handleDecrypted now decrypted with
      | .error p => .error p
      | .ok (c, events) => .ok (s.settle i c events)

def processPacket (now : ℤ) (addr : AddrPort) (i : ℕ) (data : Bytes) :
    Except GoPanic (Server × List ServerEvent) :=
  match s.heap[i]? with
  | none => .ok (s, [])
  | some c =>
      match c.recvCipher.decrypt data with
      | .error e => .ok (s, [.conn i (.onError e)])
      | .ok (decrypted, cipher) =>
          match (s.setConn i (c.withRecvCipher cipher)).handleDecrypted now i decrypted with
          | .error p => .error p
          | .ok (s, events) => .ok (s, .opened i (CipherState.wireNonce data) addr :: events)

def processPackets (now : ℤ) (addr : AddrPort) (i : ℕ) :
    Server → List Bytes → Except GoPanic (Server × List ServerEvent)
  | s, [] => .ok (s, [])
  | s, packet :: packets =>
      match s.processPacket now addr i packet with
      | .error p => .error p
      | .ok (s, events) =>
          match processPackets now addr i s packets with
          | .error p => .error p
          | .ok (s, events') => .ok (s, events ++ events')

/-- The packets in a datagram without its token. -/
def datagramPackets (c : Connection) (data : Bytes) : Except Err (List Bytes) :=
  if c.batchEnabled then unmarshalBatch data else .ok [data]

def processConnData (now : ℤ) (addr : AddrPort) (i : ℕ) (c : Connection) (data : Bytes) :
    Except GoPanic (Server × List ServerEvent) :=
  if migrates c.features ∧ data.length < migrationTokenSize then .ok (s, [])
  else
    let data := if migrates c.features then data.drop migrationTokenSize else data
    match datagramPackets c data with
    | .error e => .ok (s, [.conn i (.onError e)])
    | .ok packets => s.processPackets now addr i packets

/-! ## Migration -/

/-- The swap of the address. -/
def moveTo (i : ℕ) (c : Connection) (newAddr : AddrPort) : Server :=
  if c.remoteAddr ≠ newAddr then
    { s with
      heap := s.heap.set i { c with remoteAddr := newAddr }
      conns := (s.conns.erase c.remoteAddr).insert newAddr i }
  else s

/-- `tryMigration`: the first packet is authenticated before anything changes. -/
def tryMigration (now : ℤ) (newAddr : AddrPort) (i : ℕ) (c : Connection) (data : Bytes) :
    Except GoPanic (Server × List ServerEvent) :=
  match datagramPackets c (data.drop migrationTokenSize) with
  | .error _ => .ok (s, [])
  | .ok [] => .ok (s, [])
  | .ok (first :: rest) =>
      match c.recvCipher.decrypt first with
      | .error _ => .ok (s, [])
      | .ok (decrypted, cipher) =>
          let c := c.withRecvCipher cipher
          match ((s.setConn i c).moveTo i c newAddr).handleDecrypted now i decrypted with
          | .error p => .error p
          | .ok (s, events) =>
              match s.processPackets now newAddr i rest with
              | .error p => .error p
              | .ok (s, events') =>
                  .ok (s, .opened i (CipherState.wireNonce first) newAddr :: (events ++ events'))

/-! ## Handshakes -/

/-- The verdict of `pendingTable.put`: a replacement is always allowed. -/
def pendingFull (config : ServerConfig) (addr : AddrPort) : Bool :=
  addr ∉ s.pending ∧ config.maxPendingHandshakes > 0 ∧
    (s.pending.keys.length : ℤ) ≥ config.maxPendingHandshakes

def rejectReply (addr : AddrPort) : List ServerEvent :=
  match buildRejectPacket 64 .serverFull with
  | .error _ => []
  | .ok reply => [.sent addr reply]

section

variable (P : Primitives) (codecs : Codecs) (config : ServerConfig)

/-- `handleHandshake`, with the verdict of the rate limiter. -/
def handleHandshake (random : HandshakeRandom P) (allowed : Bool) (now : ℤ) (addr : AddrPort)
    (data : Bytes) : Server × List ServerEvent :=
  match parseControlPacket data with
  | .error _ => (s, [])
  | .ok (_, ct, _) =>
      if ct ≠ ControlType.connect.toByte then (s, [])
      else if !allowed then (s, [])
      else if (s.conns.keys.length : ℤ) ≥ config.maxConnections then (s, rejectReply addr)
      else
        match serverProcessConnect P config.handshake random now data with
        | .error failure => (s, (failure.reply.map (ServerEvent.sent addr)).toList)
        | .ok (pending, challenge) =>
            if s.pendingFull config addr then (s, [])
            else ({ s with pending := s.pending.insert addr pending }, [.sent addr challenge])

/-- The connection of a completed handshake enters the tables. -/
def register (addr : AddrPort) (c : Connection) : Server where
  heap := s.heap ++ [c]
  conns := s.conns.insert addr s.heap.length
  pending := s.pending.erase addr
  tokens :=
    if migrates c.features then s.tokens.insert c.migrationToken s.heap.length else s.tokens

def processResponse (now : ℤ) (addr : AddrPort) (ph : PendingHandshake) (data : Bytes) :
    Server × List ServerEvent :=
  match serverProcessResponse P codecs data ph addr now with
  | .error _ => (s, [])
  | .ok c =>
      (s.register addr c, [.opened s.heap.length (CipherState.wireNonce data) addr,
        .onConnect s.heap.length])

/-- The connection a datagram from an unknown address names by its token. -/
def migrating (data : Bytes) : Option ℕ :=
  if config.connectionMigration ∧ data.length ≥ migrationTokenSize then
    s.tokens.lookup (data.take migrationTokenSize)
  else none

def processIncoming (random : HandshakeRandom P) (allowed : Bool) (now : ℤ) (addr : AddrPort)
    (data : Bytes) : Except GoPanic (Server × List ServerEvent) :=
  match (s.conns.lookup addr).bind fun i => s.heap[i]?.map fun c => (i, c) with
  | some (i, c) => s.processConnData now addr i c data
  | none =>
      match s.pending.lookup addr with
      | some ph => .ok (s.processResponse P codecs now addr ph data)
      | none =>
          match (s.migrating config data).bind fun i => s.heap[i]?.map fun c => (i, c) with
          | some (i, c) => s.tryMigration now addr i c data
          | none => .ok (s.handleHandshake P config random allowed now addr data)

/-! ## Ticks and calls of the application -/

/-- A call into a connection that writes to its address. -/
def callConn (i : ℕ) (failures : List Bool)
    (call : Connection → Socket → Connection × Socket × List Event) :
    Server × List ServerEvent :=
  match s.heap[i]? with
  | none => (s, [])
  | some c =>
      let (c', socket, events) := call c ⟨failures, []⟩
      let (s, events) := s.settle i c' events
      (s, socket.written.map (.sent c.remoteAddr) ++ events)

def tickConnection (now : ℤ) (i : ℕ) (failures : List Bool) : Server × List ServerEvent :=
  s.callConn i failures fun c socket => c.tickConnection config.tick socket now

/-- `pendingTable.cleanup`. -/
def cleanup (now : ℤ) : Server :=
  { s with pending := s.pending.filter fun ph => !ph.isExpired now config.handshakeTimeout }

/-- What can happen to a server: the steps of its tick, and calls of the
application on a connection. -/
inductive Move (P : Primitives)
  | incoming (now : ℤ) (addr : AddrPort) (data : Bytes) (random : HandshakeRandom P)
      (allowed : Bool)
  | tick (now : ℤ) (i : ℕ) (failures : List Bool)
  | cleanup (now : ℤ)
  | close (now : ℤ) (i : ℕ) (failures : List Bool)
  | sendImmediate (now : ℤ) (i : ℕ) (data : Bytes) (channel : UInt8) (failures : List Bool)
  | send (i : ℕ) (data : Bytes) (channel : UInt8)

def step : Move P → Except GoPanic (Server × List ServerEvent)
  | .incoming now addr data random allowed =>
      s.processIncoming P codecs config random allowed now addr data
  | .tick now i failures => .ok (s.tickConnection config now i failures)
  | .cleanup now => .ok (s.cleanup config now, [])
  | .close now i failures =>
      .ok (s.callConn i failures fun c socket =>
        ((c.close socket now).1, (c.close socket now).2.1, []))
  | .sendImmediate now i data channel failures =>
      .ok (s.callConn i failures fun c socket =>
        ((c.sendImmediate socket data channel now).1,
          (c.sendImmediate socket data channel now).2.1, []))
  | .send i data channel =>
      .ok (s.callConn i [] fun c socket => ((c.enqueueSend data channel).1, socket, []))

end

end Server

end Fastwire
