/-
# One end of a connection

The state machine of an endpoint. Several goroutines work on a connection: the
tick reads packets, retransmits and acknowledges, and any number of callers
send. Its acts are the sections that the locks and atomics of the code make
indivisible, so a run is an interleaving of goroutines; sending one packet, for
instance, is four acts. What the acts leave open (the queues, the estimators,
the addresses: nothing a channel reads) is set by `bookkeep`.

The state carries the packets that are on their way through the acts of a send,
and the trace of what has happened.
-/

import Fastwire.Connection.ReceiveSpec
import Fastwire.Connection.Tick
import Fastwire.Lib.Run

namespace Fastwire

open Lib

/-! ## Traces -/

namespace Event

/-- The message of a callback on the given channel. -/
def message? (id : UInt8) : Event → Option Bytes
  | .onMessage id' message => if id' = id then some message else none
  | _ => none

/-- The payload that was handed to `deliver` for the given slot. -/
def handed? (id : UInt8) (seq : ℕ) : Event → Option Slice
  | .handed id' seq' payload => if id' = id ∧ seq' = seq then some payload else none
  | _ => none

end Event

/-- The sequence numbers `recordReceive` has accepted on a channel. -/
def acceptedOn (trace : List Event) (id : UInt8) : Set ℕ := { seq | .accepted id seq ∈ trace }

instance (trace : List Event) (id : UInt8) (seq : ℕ) : Decidable (seq ∈ acceptedOn trace id) :=
  inferInstanceAs (Decidable (.accepted id seq ∈ trace))

/-- What `deliver` was called with for a slot. -/
def payloadAt (trace : List Event) (id : UInt8) (seq : ℕ) : Option Slice :=
  trace.findSome? (Event.handed? id seq)

/-- The messages passed to the application for a channel, in order. -/
def delivered (trace : List Event) (id : UInt8) : List Bytes := trace.filterMap (Event.message? id)

/-! ## States and acts -/

/-- A connection in the middle of things. -/
structure Endpoint where
  conn : Connection
  /-- Numbers that are allocated and not yet put on a packet. -/
  numbered : List (UInt8 × ℕ)
  /-- Packets that are built and not yet sealed. -/
  stamped : List Stamped
  /-- Packets that are written and not yet in the retransmission queue. -/
  transmitted : List Stamped
  /-- Plaintexts a retransmission check has found due. -/
  due : List Bytes
  /-- Oldest first. -/
  trace : List Event

/-- The indivisible sections of the code. -/
inductive Act
  /-- `processPacket`. -/
  | packet (now : ℤ) (data : Bytes)
  /-- `nextFragmentID`. -/
  | nextFragmentID
  /-- `nextSequence`. -/
  | number (id : UInt8)
  /-- Build the packet for a number; `ackState` is read here. -/
  | stamp (id : UInt8) (seq : ℕ) (fragment : Bool) (body : Bytes)
  /-- Seal a packet and write it; the write may fail. -/
  | transmit (p : Stamped) (written : Bool)
  /-- `addPending`. -/
  | queue (p : Stamped) (now : ℤ)
  /-- `checkRetransmissions` on the channel with the given index. -/
  | check (i : ℕ) (now rto maxRetries : ℤ)
  /-- Seal a due packet again. -/
  | resend (raw : Bytes)
  /-- `clearNeedsAck` on the channel with the given index. -/
  | clearAck (i : ℕ)
  /-- Seal a multi-channel acknowledgement. -/
  | sealAcks (ids : List UInt8)
  /-- Seal a disconnect packet. -/
  | sealDisconnect
  /-- `cleanup` of the reassembly store. -/
  | cleanup (now timeout : ℤ)
  /-- Teardown by the tick or by the application. -/
  | shutDown (reason : DisconnectReason)
  /-- An error of the tick is reported. -/
  | report (error : Err)
  /-- Everything else. -/
  | bookkeep (books : Connection)

namespace Connection

variable (c : Connection)

def sealPlaintext (raw : Bytes) : Connection :=
  { c with sendCipher := (c.sendCipher.encrypt raw).1 }

def setIndex (i : ℕ) (ch : Channel) : Connection := { c with channels := c.channels.set i ch }

/-- Take over all fields that neither a channel nor reassembly reads. -/
def withBooks (books : Connection) : Connection :=
  { books with
    sendCipher := c.sendCipher
    recvCipher := c.recvCipher
    channels := c.channels
    reassembly := c.reassembly
    compress := c.compress
    fragmentID := c.fragmentID }

end Connection

namespace Endpoint

variable (e : Endpoint)

def start (input : ConnectionInput) (now : ℤ) : Endpoint :=
  ⟨newConnection input now, [], [], [], [], []⟩

/-- One act. It is undefined if the act is not enabled, and if a packet ends the
process. -/
def step (e : Endpoint) : Act → Option Endpoint
  | .packet now data =>
      match e.conn.processPacket now data with
      | .error _ => none
      | .ok (c, events) => some { e with conn := c, trace := e.trace ++ events }
  | .nextFragmentID => some { e with conn := e.conn.nextFragmentID.1 }
  | .number id => do
      let ch ← e.conn.channel id
      let (ch, seq) := ch.nextSequence
      some { e with conn := e.conn.setChannel id ch, numbered := (id, seq) :: e.numbered }
  | .stamp id seq fragment body => do
      let ch ← e.conn.channel id
      if (id, seq) ∈ e.numbered then
        let flags := if fragment then flagFragment else 0
        some { e with
          numbered := e.numbered.erase (id, seq)
          stamped := (Connection.buildPacket ch id flags seq body).toOption.toList ++ e.stamped }
      else none
  | .transmit p written =>
      if p ∈ e.stamped then
        some { e with
          conn := e.conn.sealPlaintext p.raw
          stamped := e.stamped.erase p
          transmitted := if written then p :: e.transmitted else e.transmitted }
      else none
  | .queue p now =>
      if p ∈ e.transmitted then
        some { e with conn := e.conn.queuePacket p now, transmitted := e.transmitted.erase p }
      else none
  | .check i now rto maxRetries => do
      let ch ← e.conn.channels[i]?
      let (ch, retransmits, _) := ch.checkRetransmissions now rto maxRetries
      some { e with
        conn := e.conn.setIndex i ch
        due := retransmits.map PendingPacket.raw ++ e.due }
  | .resend raw =>
      if raw ∈ e.due then
        some { e with conn := e.conn.sealPlaintext raw, due := e.due.erase raw }
      else none
  | .clearAck i => do
      let ch ← e.conn.channels[i]?
      some { e with conn := e.conn.setIndex i ch.clearNeedsAck.1 }
  | .sealAcks ids => do
      let packet ← (Connection.multiAckPacket (e.conn.multiAckEntries ids)).toOption
      some { e with conn := e.conn.sealPlaintext packet }
  | .sealDisconnect => do
      let packet ← Connection.disconnectPlaintext.toOption
      some { e with conn := e.conn.sealPlaintext packet }
  | .cleanup now timeout =>
      some { e with
        conn := { e.conn with reassembly := e.conn.reassembly.cleanup now timeout } }
  | .shutDown reason =>
      some { e with conn := e.conn.shutDown, trace := e.trace ++ [.onDisconnect reason] }
  | .report error => some { e with trace := e.trace ++ [.onError error] }
  | .bookkeep books => some { e with conn := e.conn.withBooks books }

theorem step_packet {c : Connection} {events : List Event} {now : ℤ} {data : Bytes}
    (hok : e.conn.processPacket now data = .ok (c, events)) :
    e.step (.packet now data) = some { e with conn := c, trace := e.trace ++ events } := by
  rw [step, hok]

/-- The acts that work on the list of channels. -/
def onChannels : Act → Bool
  | .packet _ _ | .number _ | .queue _ _ | .check _ _ _ _ | .clearAck _ | .shutDown _ => true
  | _ => false

/-- All other acts leave the channels alone. -/
theorem channels_step {e e' : Endpoint} {a : Act} (hstep : e.step a = some e')
    (hother : onChannels a = false) : e'.conn.channels = e.conn.channels := by
  cases a with
  | stamp id seq fragment body =>
      simp only [step, Option.bind_eq_bind, Option.bind_eq_some_iff] at hstep
      obtain ⟨ch, -, hstep⟩ := hstep
      split at hstep <;> cases hstep
      rfl
  | transmit p written =>
      simp only [step] at hstep
      split at hstep <;> cases hstep
      rfl
  | resend raw =>
      simp only [step] at hstep
      split at hstep <;> cases hstep
      rfl
  | sealAcks ids =>
      simp only [step, Option.bind_eq_bind, Option.bind_eq_some_iff] at hstep
      obtain ⟨packet, -, hstep⟩ := hstep
      cases hstep
      rfl
  | sealDisconnect =>
      simp only [step, Option.bind_eq_bind, Option.bind_eq_some_iff] at hstep
      obtain ⟨packet, -, hstep⟩ := hstep
      cases hstep
      rfl
  | nextFragmentID | cleanup now timeout | report error | bookkeep books =>
      cases hstep
      rfl
  | _ => cases hother

def system : System Endpoint Act where
  init e := ∃ input now, e = start input now
  step e a e' := e.step a = some e'

def exec (e : Endpoint) (acts : List Act) : Option Endpoint := System.exec step e acts

/-- Executing acts is a run. -/
theorem run_exec {hist : List (Endpoint × Act)} {e e' : Endpoint} (hrun : system.Run hist e)
    {acts : List Act} (hexec : e.exec acts = some e') : ∃ hist', system.Run hist' e' :=
  System.Run.exec (fun _ _ _ hstep => hstep) hrun hexec

/-- A run given by its acts, for a property that can be evaluated. -/
theorem exists_run (input : ConnectionInput) (now : ℤ) (acts : List Act) (P : Endpoint → Bool)
    (h : ((start input now).exec acts).any P = true) :
    ∃ hist e, system.Run hist e ∧ P e = true :=
  System.exists_run (S := system) (fun _ _ _ hstep => hstep) ⟨input, now, rfl⟩ acts P h

end Endpoint

end Fastwire
