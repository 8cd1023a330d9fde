/-
# Messages on all channels at once

The left end of a pair sends messages of any size on any of its channels. `Send`
may be called by several goroutines, so any number of messages can be underway at
the same time, also on one channel, and all of them share the identifiers of the
connection and the reassembly store of the receiver. Everything else goes on
around them: the ticks of both ends, acknowledgements, retransmissions, timeouts
and caps of the reassembly store, teardown, and the network of the pair.

The compression libraries of both ends are the same, and a decoder never makes
another text of what the encoder wrote; whether it can decode is left open. How many
packets are sent on a channel does not matter, since a number that comes round again
is not accepted again. How many identifiers are taken does matter, and results say
what they assume about them.
-/

import Fastwire.Pair.Basic
import Fastwire.Lib.Entries

namespace Fastwire

open Lib

/-- A message passed to `Send`: its compressed form, the bodies of its packets
and the numbers these have got so far. -/
structure Letter where
  channel : UInt8
  data : Bytes
  payload : Bytes
  flags : UInt8
  /-- The identifier, if the message is fragmented. -/
  fragmentID : Option UInt16
  bodies : List Bytes
  seqs : List ℕ
  deriving DecidableEq, Repr

namespace Letter

variable (m : Letter)

/-- The next packet: is it a fragment, and its body. -/
def nextPacket : Option (Bool × Bytes) :=
  m.bodies[m.seqs.length]?.map fun body => (m.fragmentID.isSome, body)

/-- The message after its next packet has been built. -/
def build (seq : ℕ) : Letter := { m with seqs := m.seqs ++ [seq] }

end Letter

/-- Two ends and the messages sent so far, oldest first. -/
structure Traffic where
  pair : Pair
  letters : List Letter

/-- What can happen: `Send` is called, it builds the next packet of a message
with a number it has taken, or one of the ends acts. -/
inductive TrafficMove
  | post (id : UInt8) (data : Bytes)
  | build (i : ℕ) (seq : ℕ)
  | act (side : Side) (a : Act)

namespace Traffic

variable (s : Traffic)

def sentOn (id : UInt8) : List Bytes := (s.letters.filter (·.channel = id)).map Letter.data

/-- `Send` up to the first packet: compress, take an identifier if the message
needs one, split. A message with too many fragments is rejected; its identifier
is used up. -/
def post (id : UInt8) (data : Bytes) : Option Traffic :=
  if (s.pair.left.conn.channel id).isSome then
    match s.pair.left.conn.compress.compressPayload data with
    | .error _ => none
    | .ok (payload, flags) =>
        if payload.length > maxFragmentPayload ∨ flags ≠ 0 then
          let (conn, fragmentID) := s.pair.left.conn.nextFragmentID
          let pair := s.pair.set .left { s.pair.left with conn := conn }
          match splitMessage payload fragmentID flags with
          | .error _ => some ⟨pair, s.letters⟩
          | .ok bodies =>
              some ⟨pair, s.letters ++ [⟨id, data, payload, flags, some fragmentID, bodies, []⟩]⟩
        else some ⟨s.pair, s.letters ++ [⟨id, data, payload, flags, none, [payload], []⟩]⟩
  else none

/-- The acts of the sender other than those of `Send`. -/
def mayAct : Act → Bool
  | .nextFragmentID => false
  | .stamp _ _ _ _ => false
  | _ => true

def step : TrafficMove → Option Traffic
  | .post id data => s.post id data
  | .build i seq => do
      let m ← s.letters[i]?
      let (fragment, body) ← m.nextPacket
      let pair ← s.pair.step (.left, .stamp m.channel seq fragment body)
      some ⟨pair, s.letters.set i (m.build seq)⟩
  | .act .left a =>
      if mayAct a then (s.pair.step (.left, a)).map fun pair => ⟨pair, s.letters⟩ else none
  | .act .right a => (s.pair.step (.right, a)).map fun pair => ⟨pair, s.letters⟩

def system : System Traffic TrafficMove where
  init s := Pair.system.init s.pair ∧ s.letters = [] ∧
    s.pair.left.conn.compress.codecs.Faithful ∧
    s.pair.right.conn.compress.codecs = s.pair.left.conn.compress.codecs
  step s move s' := s.step move = some s'

/-- At most 2^16 identifiers have been taken, so that none has come round again. -/
def Few : Prop := s.pair.left.conn.fragmentID ≤ 2 ^ 16

instance : DecidablePred Few := fun _ => inferInstanceAs (Decidable (_ ≤ _))

/-- Two ends with the same configuration. -/
theorem init_same (input : ConnectionInput) (hsealed : input.sendCipher.sealed = [])
    (hlaw : input.compress.codecs.Faithful) :
    system.init ⟨⟨.start input 0, .start input 0⟩, []⟩ := by
  refine ⟨fun side => ⟨input, 0, ?_, fun raw hraw => ?_⟩, rfl, hlaw, rfl⟩
  · cases side <;> rfl
  · rw [hsealed] at hraw
    cases hraw

end Traffic

end Fastwire
