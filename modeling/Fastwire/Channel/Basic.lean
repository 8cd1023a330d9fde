/-
# Channels

One logical channel of a connection: its sequence counter, the acknowledgement
state of what it has received, the packets it has sent and not yet seen
acknowledged, and the reorder buffer of the ordered mode.

Sequence numbers are natural numbers; where the code lets a 32-bit counter run
over, the definition reduces it. The reorder buffer is an optional table,
because teardown sets it to nil and a write to a nil map ends the process.
-/

import Fastwire.Lib.Table
import Fastwire.Wire.VarInt
import Fastwire.Stats

namespace Fastwire

open Lib

/-- How a channel delivers messages. -/
inductive DeliveryMode
  | reliableOrdered
  | reliableUnordered
  | unreliable
  | unreliableSequenced
  deriving DecidableEq, Repr

/-- The modes whose packets are kept for retransmission. -/
def DeliveryMode.reliable : DeliveryMode → Bool
  | reliableOrdered => true
  | reliableUnordered => true
  | unreliable => false
  | unreliableSequenced => false

/-- The runtime errors that end the process. -/
inductive GoPanic
  | nilMapAssignment
  deriving DecidableEq, Repr

/-- A sent packet that has not been acknowledged. -/
structure PendingPacket where
  raw : Bytes
  sendTime : ℤ
  retransmitCount : ℕ
  nextRetransmit : ℤ
  firstTransmit : Bool
  sequence : ℕ
  deriving DecidableEq, Repr

/-- The reorder buffer. A nil payload stands for a fragment that did not
complete its message. -/
abbrev ReorderBuffer := Table ℕ Slice

structure Channel where
  mode : DeliveryMode
  streamIndex : UInt8
  /-- `0` means unbounded. -/
  maxReorderWindow : ℕ
  sendSeq : ℕ
  pending : ℤ
  recvAck : ℕ
  recvAckField : BitVec 32
  pendingSend : List PendingPacket
  recvBuffer : Option ReorderBuffer
  recvNextDeliver : ℕ
  lastRecvSeq : ℕ
  needsAck : Bool

namespace Channel

/-- One channel as `newChannels` builds it. -/
def init (mode : DeliveryMode) (streamIndex : UInt8) (maxReorderWindow : ℤ) : Channel where
  mode := mode
  streamIndex := streamIndex
  maxReorderWindow := maxReorderWindow.toNat % 2 ^ 32
  sendSeq := 0
  pending := 0
  recvAck := 0
  recvAckField := 0
  pendingSend := []
  recvBuffer := if mode = .reliableOrdered then some ∅ else none
  recvNextDeliver := 1
  lastRecvSeq := 0
  needsAck := false

/-- `nextSequence`: the first call returns 1. -/
def nextSequence (ch : Channel) : Channel × ℕ :=
  let seq := (ch.sendSeq + 1) % 2 ^ 32
  ({ ch with sendSeq := seq }, seq)

/-! ## Receive-side acknowledgement state -/

/-- The receive window of ordered channels: is the packet too far ahead? -/
def beyondWindow (ch : Channel) (seq : ℕ) : Bool :=
  ch.mode = .reliableOrdered ∧ ch.maxReorderWindow > 0 ∧ seq ≥ ch.recvNextDeliver ∧
    seq - ch.recvNextDeliver ≥ ch.maxReorderWindow

/-- `recordReceive`: `false` for a duplicate, a packet that is too old and one
that is beyond the receive window. -/
def recordReceive (ch : Channel) (seq : ℕ) : Channel × Bool :=
  if seq = 0 then (ch, false)
  else if ch.beyondWindow seq then (ch, false)
  else if ch.recvAck = 0 then
    ({ ch with recvAck := seq, recvAckField := 0, needsAck := true }, true)
  else if seq > ch.recvAck then
    let diff := seq - ch.recvAck
    let field := if diff ≤ 32 then (ch.recvAckField <<< diff) ||| (1#32 <<< (diff - 1)) else 0
    ({ ch with recvAck := seq, recvAckField := field, needsAck := true }, true)
  else if seq = ch.recvAck then (ch, false)
  else
    let diff := ch.recvAck - seq
    if diff ≤ 32 then
      let bit := 1#32 <<< (diff - 1)
      if ch.recvAckField &&& bit ≠ 0#32 then (ch, false)
      else ({ ch with recvAckField := ch.recvAckField ||| bit, needsAck := true }, true)
    else (ch, false)

/-- `ackState`, the snapshot put into outgoing headers. -/
def ackState (ch : Channel) : ℕ × BitVec 32 := (ch.recvAck, ch.recvAckField)

def clearNeedsAck (ch : Channel) : Channel × Bool :=
  if ch.needsAck then ({ ch with needsAck := false }, true) else (ch, false)

/-! ## Send-side acknowledgement state -/

def isAcked (seq ack : ℕ) (ackField : BitVec 32) : Bool :=
  if seq = ack then true
  else if seq < ack then
    let diff := ack - seq
    if diff ≤ 32 then ackField &&& (1#32 <<< (diff - 1)) != 0#32 else false
  else false

/-- Karn's rule: only packets that were never retransmitted are measured. -/
def sampleRtt (now : ℤ) (r : Rtt) (p : PendingPacket) : Rtt :=
  if p.firstTransmit then r.addSample (now - p.sendTime) else r

/-- `processAcks`: the channel, the acknowledged sequence numbers and the
round-trip estimator. -/
def processAcks (ch : Channel) (now : ℤ) (ack : ℕ) (ackField : BitVec 32) (r : Rtt) :
    Channel × List ℕ × Rtt :=
  if ack = 0 ∨ ch.pendingSend = [] then (ch, [], r)
  else
    let acked := ch.pendingSend.filter fun p => isAcked p.sequence ack ackField
    ({ ch with
        pendingSend := ch.pendingSend.filter fun p => !isAcked p.sequence ack ackField
        pending := ch.pending - acked.length },
      acked.map PendingPacket.sequence, acked.foldl (sampleRtt now) r)

def addPending (ch : Channel) (p : PendingPacket) : Channel :=
  { ch with pendingSend := ch.pendingSend ++ [p], pending := ch.pending + 1 }

/-- `pendingCount`: the counter is an `atomic.Int32`. -/
def pendingCount (ch : Channel) : ℤ := ch.pending.bmod (2 ^ 32)

/-- The loop of `checkRetransmissions`. A packet out of retries stops it: the
packets behind it are not looked at. -/
def checkPending (now rto maxRetries : ℤ) :
    List PendingPacket → List PendingPacket × List PendingPacket × Bool
  | [] => ([], [], false)
  | p :: ps =>
      if now < p.nextRetransmit then
        let (ps, retransmit, kill) := checkPending now rto maxRetries ps
        (p :: ps, retransmit, kill)
      else
        let p := { p with retransmitCount := p.retransmitCount + 1 }
        if (p.retransmitCount : ℤ) > maxRetries then (p :: ps, [], true)
        else
          let p := { p with firstTransmit := false, nextRetransmit := now + rto }
          let (ps, retransmit, kill) := checkPending now rto maxRetries ps
          (p :: ps, if kill then [] else p :: retransmit, kill)

/-- `checkRetransmissions`: the packets to send again, or the order to kill the
connection. -/
def checkRetransmissions (ch : Channel) (now rto maxRetries : ℤ) :
    Channel × List PendingPacket × Bool :=
  let (pendingSend, retransmit, kill) := checkPending now rto maxRetries ch.pendingSend
  ({ ch with pendingSend := pendingSend }, retransmit, kill)

/-- `releasePendingBuffers`: teardown. The reorder buffer becomes nil. -/
def releasePendingBuffers (ch : Channel) : Channel :=
  { ch with pendingSend := [], recvBuffer := none, pending := 0 }

/-! ## Delivery -/

/-- The 32-bit increment of `recvNextDeliver`. -/
def succSeq (seq : ℕ) : ℕ := (seq + 1) % 2 ^ 32

/-- `deliverReliableOrdered`: buffer, drain, and copy what stays buffered. The
copy of a nil slice is an empty slice that is not nil. -/
def deliverReliableOrdered (ch : Channel) (seq : ℕ) (payload : Slice) :
    Except GoPanic (Channel × List Slice) :=
  match ch.recvBuffer with
  | none => .error .nilMapAssignment
  | some buffer =>
      let buffer := buffer.insert seq payload
      let (result, buffer, next) := Table.drain succSeq buffer.keys.length buffer ch.recvNextDeliver
      let buffer := if seq ∈ buffer then buffer.insert seq (some (payload.getD [])) else buffer
      .ok ({ ch with recvBuffer := some buffer, recvNextDeliver := next }, result)

/-- `deliverUnreliableSequenced`: only what is newer than everything before. -/
def deliverUnreliableSequenced (ch : Channel) (seq : ℕ) (payload : Slice) : Channel × List Slice :=
  if seq > ch.lastRecvSeq then ({ ch with lastRecvSeq := seq }, [payload]) else (ch, [])

/-- `deliver`: the payloads that are ready for the application. -/
def deliver (ch : Channel) (seq : ℕ) (payload : Slice) : Except GoPanic (Channel × List Slice) :=
  match ch.mode with
  | .reliableOrdered => ch.deliverReliableOrdered seq payload
  | .reliableUnordered => .ok (ch, [payload])
  | .unreliable => .ok (ch, [payload])
  | .unreliableSequenced => .ok (ch.deliverUnreliableSequenced seq payload)

end Channel

end Fastwire
