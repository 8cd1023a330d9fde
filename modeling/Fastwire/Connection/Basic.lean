/-
# Connections

The record both ends keep for a connection, with everything the send and
receive pipelines read: ciphers, channels, reassembly store, estimators and the
send and disconnect queues. Byte counters and bandwidth estimates are left out:
they are written for statistics and never read.
-/

import Fastwire.Channel.Ordered
import Fastwire.Compress
import Fastwire.Crypto.Cipher
import Fastwire.Fragment.Message
import Fastwire.Wire.Batch

namespace Fastwire

open Crypto Lib

inductive ConnState
  | disconnected
  | connecting
  | connected
  | disconnecting
  deriving DecidableEq, Repr

/-- `DisconnectReason`, as far as the modelled functions use it. -/
inductive DisconnectReason
  | graceful
  | timeout
  | error
  deriving DecidableEq, Repr

/-- `netip.AddrPort`. IPv6 zones are left out, and an IPv4 address is the same as the
IPv6 address it is mapped to. -/
structure AddrPort where
  addr : BitVec 128
  port : UInt16
  deriving DecidableEq, Repr

structure OutgoingMessage where
  data : Bytes
  channel : UInt8
  deriving DecidableEq, Repr

def featureSendBatching : UInt8 := 1

def featureConnectionMigration : UInt8 := 2

/-- The first transmission of a data packet: its plaintext and `InFlightCount` at that
moment. -/
structure Transmission where
  raw : Bytes
  inFlight : ℤ
  deriving DecidableEq, Repr

/-- A connection to a remote peer. -/
structure Connection where
  state : ConnState
  remoteAddr : AddrPort
  sendCipher : CipherState
  recvCipher : CipherState
  channels : List Channel
  rttState : Rtt
  reassembly : ReassemblyStore
  compress : CompressorPool
  cc : Congestion
  /-- A 32-bit counter of which the low half is used. -/
  fragmentID : ℕ
  lastSend : ℤ
  lastRecv : ℤ
  sendQueue : List OutgoingMessage
  loss : LossTracker
  disconnectRetries : ℕ
  nextDisconnectRetry : ℤ
  disconnectPacket : Slice
  features : UInt8
  migrationToken : Bytes
  batchEnabled : Bool
  batchBuf : List Bytes
  skipBatch : Bool
  /-- A log of the first transmissions, oldest first. No function reads it. -/
  transmissions : List Transmission

structure ConnSettings where
  maxReorderWindow : ℤ
  maxReassemblyBuffers : ℤ
  maxReassemblyBytes : ℤ
  fragmentTimeout : ℤ

/-- `connectionInput`, with the compressor pool already built. -/
structure ConnectionInput where
  addr : AddrPort
  sendCipher : CipherState
  recvCipher : CipherState
  layout : List (DeliveryMode × UInt8)
  compress : CompressorPool
  cc : Congestion
  features : UInt8
  token : Bytes
  settings : ConnSettings

/-- `cmp.Or` on integers: a zero value takes the default. -/
def orDefault (value default : ℤ) : ℤ := if value = 0 then default else value

def newChannels (layout : List (DeliveryMode × UInt8)) (maxReorderWindow : ℤ) : List Channel :=
  layout.map fun d => Channel.init d.1 d.2 maxReorderWindow

def newConnection (input : ConnectionInput) (now : ℤ) : Connection where
  state := .connected
  remoteAddr := input.addr
  sendCipher := input.sendCipher
  recvCipher := input.recvCipher
  channels := newChannels input.layout (orDefault input.settings.maxReorderWindow 1024)
  rttState := Rtt.init
  reassembly := ReassemblyStore.init (orDefault input.settings.fragmentTimeout (5 * second))
    (orDefault input.settings.maxReassemblyBuffers 64)
    (orDefault input.settings.maxReassemblyBytes (4 * 1024 * 1024))
  compress := input.compress
  cc := input.cc
  fragmentID := 0
  lastSend := now
  lastRecv := now
  sendQueue := []
  loss := LossTracker.init
  disconnectRetries := 0
  nextDisconnectRetry := 0
  disconnectPacket := none
  features := input.features
  migrationToken := input.token
  batchEnabled := input.features &&& featureSendBatching ≠ 0
  batchBuf := []
  skipBatch := false
  transmissions := []

/-- A connection without encryption and compression and with default limits. -/
def plainInput (layout : List (DeliveryMode × UInt8)) : ConnectionInput where
  addr := ⟨0, 0⟩
  sendCipher := .init none
  recvCipher := .init none
  layout := layout
  compress := .init .none 0 none
    ⟨fun _ => none, fun _ _ => none, fun _ => none, fun _ src => src, fun _ _ _ => none⟩
  cc := .aggressive 0
  features := 0
  token := []
  settings := ⟨0, 0, 0, 0⟩

def plainWindow (cwnd : ℚ) : Connection :=
  newConnection { plainInput [(.reliableOrdered, 0)] with cc := .conservative cwnd } 0

namespace Connection

variable (c : Connection)

/-- `channel`: nothing if the identifier is out of range. -/
def channel (id : UInt8) : Option Channel := c.channels[id.toNat]?

def setChannel (id : UInt8) (ch : Channel) : Connection :=
  { c with channels := c.channels.set id.toNat ch }

def inFlightCount : ℤ := (c.channels.map Channel.pendingCount).sum

def nextFragmentID : Connection × UInt16 :=
  let id := (c.fragmentID + 1) % 2 ^ 32
  ({ c with fragmentID := id }, UInt16.ofNat id)

def touchRecv (now : ℤ) : Connection := { c with lastRecv := now }

def retransmitTimeout : ℤ :=
  if c.cc.halvesRTO then c.rttState.timeout.tdiv 2 else c.rttState.timeout

/-- `releasePendingBuffers`: teardown of everything the connection holds. -/
def releasePendingBuffers : Connection :=
  { c with
    channels := c.channels.map Channel.releasePendingBuffers
    reassembly := c.reassembly.reset
    disconnectPacket := none
    batchBuf := [] }

/-- The end of every teardown path. -/
def shutDown : Connection := { c.releasePendingBuffers with state := .disconnected }

/-! ## Reading a channel back -/

variable {c} {id : UInt8} {ch ch' : Channel}

/-- A view of the channels that the new channel shares with the old one. -/
theorem map_set_channel {α : Type} {channels : List Channel} {i : ℕ}
    (h : channels[i]? = some ch) (f : Channel → α) (hf : f ch' = f ch) :
    (channels.set i ch').map f = channels.map f := by
  apply List.ext_getElem?
  intro j
  rw [List.getElem?_map, List.getElem?_map]
  by_cases hj : i = j
  · rw [← hj, List.getElem?_set_self (List.getElem?_eq_some_iff.mp h).1, h, Option.map_some, hf,
      Option.map_some]
  · rw [List.getElem?_set_ne hj]

theorem getElem?_setChannel (h : c.channel id = some ch') (ch : Channel) (i : ℕ) :
    (c.setChannel id ch).channels[i]? = if i = id.toNat then some ch else c.channels[i]? := by
  have hlt : id.toNat < c.channels.length := (List.getElem?_eq_some_iff.mp h).1
  simp only [setChannel, List.getElem?_set]
  by_cases hi : i = id.toNat
  · simp [hi, hlt]
  · simp [hi, Ne.symm hi]

theorem channel_setChannel (h : c.channel id = some ch') (k : UInt8) :
    (c.setChannel id ch).channel k = if k = id then some ch else c.channel k := by
  rw [channel, getElem?_setChannel h]
  simp only [UInt8.toNat_inj]
  rfl

/-- Writing back what is there changes nothing. -/
theorem setChannel_self (h : c.channel id = some ch) : c.setChannel id ch = c := by
  obtain ⟨hlt, hget⟩ := List.getElem?_eq_some_iff.mp h
  simp only [setChannel, ← hget, List.set_getElem_self]

theorem channel_newConnection (input : ConnectionInput) (now : ℤ)
    (h : (newConnection input now).channel id = some ch) :
    ∃ mode streamIndex window, ch = Channel.init mode streamIndex window := by
  simp only [channel, newConnection, newChannels, List.getElem?_map, Option.map_eq_some_iff] at h
  obtain ⟨d, -, rfl⟩ := h
  exact ⟨_, _, _, rfl⟩

end Connection

end Fastwire
