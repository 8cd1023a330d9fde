/-
# The receive pipeline

From the decrypted bytes of one packet to the callbacks. Server and client run
the same code here; they differ in what they unregister after a disconnect,
which is their own business.

The pipeline is cut at the call of `deliver`: `receive` is everything before
it, `finish` is the call and the callbacks after it. The cut is where another
goroutine can tear the connection down, and `deliver` is the one step that can
fail. Besides the callbacks the pipeline reports the internal calls that the
specifications speak about.
-/

import Fastwire.Connection.Basic

namespace Fastwire

/-- What processing a packet does, in order. The first three are internal
calls, the others are callbacks of the application. -/
inductive Event
  /-- `recordReceive` returned true. -/
  | accepted (channel : UInt8) (seq : ℕ)
  /-- `deliver` was called; a nil payload is a fragment placeholder. -/
  | handed (channel : UInt8) (seq : ℕ) (payload : Slice)
  /-- `processAcks` removed these packets. -/
  | acked (channel : UInt8) (seqs : List ℕ)
  | onMessage (channel : UInt8) (message : Bytes)
  | onError (error : Err)
  | onDisconnect (reason : DisconnectReason)
  deriving DecidableEq, Repr

/-- What is left to do with a packet after `receive`. With `emit` the drained
payloads go to the application, without it they are discarded. -/
inductive Verdict
  | done
  | deliver (channel : UInt8) (seq : ℕ) (payload : Slice) (emit : Bool)
  deriving DecidableEq, Repr

namespace Connection

variable (c : Connection)

/-! ## Acknowledgements -/

/-- The congestion window and the loss tracker learn about acknowledgements. -/
def countAcked (seqs : List ℕ) : Connection :=
  if seqs = [] then c
  else { c with cc := c.cc.onAck seqs.length, loss := seqs.foldl LossTracker.recordAck c.loss }

/-- `processAcks` on one channel and what follows from it. -/
def applyAcks (now : ℤ) (id : UInt8) (ack : UInt32) (ackField : BitVec 32) :
    Connection × List Event :=
  match c.channel id with
  | none => (c, [])
  | some ch =>
      let (ch, seqs, rtt) := ch.processAcks now ack.toNat ackField c.rttState
      (({ c.setChannel id ch with rttState := rtt }).countAcked seqs, [.acked id seqs])

/-- The entries of a multi-channel acknowledgement, one after another. -/
def applyMultiAck (now : ℤ) : Connection → List MultiAckEntry → Connection × List Event
  | c, [] => (c, [])
  | c, e :: es =>
      let (c, events) := c.applyAcks now e.channel e.ack e.ackField
      let (c, events') := applyMultiAck now c es
      (c, events ++ events')

/-! ## Control packets -/

/-- The control dispatch. A disconnect tears the connection down. -/
def handleControl (now : ℤ) : Bytes → Connection × List Event
  | [] => (c, [])
  | ct :: data =>
      match ControlType.ofByte ct with
      | some .multiAck =>
          match unmarshalMultiAck data with
          | .error _ => (c, [])
          | .ok (entries, _) => applyMultiAck now c entries
      | some .disconnect => (c.shutDown, [.onDisconnect .graceful])
      | _ => (c, [])

/-! ## Data packets -/

/-- What becomes of the body of an accepted packet: the store, and either the
error that ends the packet or the payload for `deliver`. A fragment that does
not complete its message hands in a nil placeholder whose drained payloads are
not looked at. -/
def reassemble (now : ℤ) (hdr : PacketHeader) (body : Bytes) :
    ReassemblyStore × Except Err (Slice × Bool) :=
  if hdr.flags &&& flagFragment = 0 then (c.reassembly, .ok (some body, true))
  else
    match unmarshalFragmentHeader body with
    | .error e => (c.reassembly, .error e)
    | .ok (fh, fn) =>
        match c.reassembly.addFragment now fh (body.drop fn) with
        | (store, .error e) => (store, .error e)
        | (store, .ok none) => (store, .ok (none, false))
        | (store, .ok (some assembled)) =>
            match c.compress.decompressPayload assembled fh.fragmentFlags with
            | .error e => (store, .error e)
            | .ok payload => (store, .ok (payload, true))

/-- A data packet. A duplicate ends at the check. -/
def receiveData (now : ℤ) (hdr : PacketHeader) (body : Bytes) :
    Connection × List Event × Verdict :=
  match c.channel hdr.channel with
  | none => (c, [], .done)
  | some ch =>
      let (ch, fresh) := ch.recordReceive hdr.sequence.toNat
      if fresh then
        let c := c.setChannel hdr.channel ch
        let (store, result) := c.reassemble now hdr body
        let c := { c with reassembly := store }
        let accepted := Event.accepted hdr.channel hdr.sequence.toNat
        match result with
        | .error e => (c, [accepted, .onError e], .done)
        | .ok (payload, emit) =>
            (c, [accepted], .deliver hdr.channel hdr.sequence.toNat payload emit)
      else (c, [], .done)

/-- `handleDecrypted` up to the call of `deliver`. -/
def receive (now : ℤ) (decrypted : Bytes) : Connection × List Event × Verdict :=
  match unmarshalHeader decrypted with
  | .error e => (c, [.onError e], .done)
  | .ok (hdr, n) =>
      let c := c.touchRecv now
      match c.channel hdr.channel with
      | none => (c, [], .done)
      | some _ =>
          let (c, events) := c.applyAcks now hdr.channel hdr.ack hdr.ackField
          if hdr.flags &&& flagControl ≠ 0 then
            let (c, events') := c.handleControl now (decrypted.drop n)
            (c, events ++ events', .done)
          else
            let (c, events', verdict) := c.receiveData now hdr (decrypted.drop n)
            (c, events ++ events', verdict)

/-! ## Delivery -/

/-- The callbacks for the drained payloads; nil ones are skipped. -/
def messageEvents (id : UInt8) (msgs : List Slice) : List Event :=
  msgs.filterMap fun msg => msg.map (.onMessage id)

/-- The call of `deliver` and the callbacks after it. -/
def finish : Verdict → Except GoPanic (Connection × List Event)
  | .done => .ok (c, [])
  | .deliver id seq payload emit =>
      match c.channel id with
      | none => .ok (c, [])
      | some ch =>
          match ch.deliver seq payload with
          | .error p => .error p
          | .ok (ch, msgs) =>
              .ok (c.setChannel id ch,
                .handed id seq payload :: if emit then messageEvents id msgs else [])

/-- `handleDecrypted`. -/
def handleDecrypted (now : ℤ) (decrypted : Bytes) : Except GoPanic (Connection × List Event) :=
  let (c, events, verdict) := c.receive now decrypted
  (c.finish verdict).map fun (c, events') => (c, events ++ events')

variable {c} in
theorem handleDecrypted_inv {now : ℤ} {decrypted : Bytes} {c' : Connection} {events : List Event}
    (hok : c.handleDecrypted now decrypted = .ok (c', events)) :
    ∃ events', (c.receive now decrypted).1.finish (c.receive now decrypted).2.2 =
      .ok (c', events') ∧ events = (c.receive now decrypted).2.1 ++ events' := by
  simp only [handleDecrypted] at hok
  cases hfinish : (c.receive now decrypted).1.finish (c.receive now decrypted).2.2 with
  | error p => simp [hfinish, Except.map] at hok
  | ok result =>
      simp only [hfinish, Except.map, Except.ok.injEq, Prod.mk.injEq] at hok
      obtain ⟨rfl, rfl⟩ := hok
      exact ⟨result.2, rfl, rfl⟩

/-- The connection after `Decrypt` has updated the replay window. -/
def withRecvCipher (cipher : Crypto.CipherState) : Connection := { c with recvCipher := cipher }

/-- `processPacket`: decrypt, then run the pipeline. -/
def processPacket (now : ℤ) (data : Bytes) : Except GoPanic (Connection × List Event) :=
  match c.recvCipher.decrypt data with
  | .error e => .ok (c, [.onError e])
  | .ok (decrypted, cipher) => (c.withRecvCipher cipher).handleDecrypted now decrypted

end Connection

end Fastwire
