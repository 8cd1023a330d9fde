/-
# Sessions

A connection from its creation on, together with everything it has written and
reported and when: the record over which its behaviour as a whole is stated. A step
is an operation of its owner or of the application at some reading of the clock.
The operations may come in any order, and the readings are not even assumed to go
forward: a tick works with the reading it took before it handled the datagrams that
had come in. Results that need the readings to be close to each other say so.
-/

import Fastwire.Lib.Run
import Fastwire.Session.Elementary

namespace Fastwire

open Crypto Lib

namespace Crypto.CipherState

/-- The counter is the number of packets sealed so far. -/
def Counted (state : CipherState) : Prop :=
  ∀ a, state.aead = some a → state.nonce = state.sealed.length % 2 ^ 64

end Crypto.CipherState

/-- A connection and what has become visible of it, oldest first. -/
structure Session where
  conn : Connection
  /-- The latest reading of the clock so far. -/
  clock : ℤ
  /-- The reading of the last tick, or of the creation. -/
  lastTick : ℤ
  /-- The states since the last tick, one of which the next tick has read. -/
  states : List ConnState
  wire : List (ℤ × Bytes)
  log : List (ℤ × Event)

namespace Session

/-- An operation, the reading of the clock it works with and the outcomes of its writes. -/
structure Call where
  now : ℤ
  failures : List Bool
  op : Op

def start (input : ConnectionInput) (now : ℤ) : Session :=
  ⟨newConnection input now, now, now, [.connected], [], []⟩

/-- The session after a call that has returned. -/
def record (σ : Session) (call : Call) (c : Connection) (s : Socket) (events : List Event) :
    Session where
  conn := c
  clock := max σ.clock call.now
  lastTick := if call.op.ticking.isSome then call.now else σ.lastTick
  states := c.state :: if call.op.ticking.isSome then [] else σ.states
  wire := σ.wire ++ s.written.map fun d => (call.now, d)
  log := σ.log ++ events.map fun ev => (call.now, ev)

variable (cfg : TickConfig)

/-- The session after a call, unless the call panics. -/
def next (σ : Session) (call : Call) : Option Session :=
  match call.op.apply σ.conn cfg ⟨call.failures, []⟩ call.now with
  | .error _ => none
  | .ok (c, s, events) => some (σ.record call c s events)

/-- The runs of a connection. The handshake may have used the ciphers before. -/
def system : System Session Call where
  init σ := ∃ input now, input.sendCipher.Counted ∧ σ = start input now
  step σ call σ' := σ.next cfg call = some σ'

variable {cfg} {σ σ' : Session} {call : Call}

theorem lastTick_record_tick {seen : ConnState} (h : call.op.ticking = some seen)
    (c : Connection) (s : Socket) (events : List Event) :
    (σ.record call c s events).lastTick = call.now := by
  rw [record, h]
  rfl

theorem lastTick_record_other (h : call.op.ticking = none) (c : Connection) (s : Socket)
    (events : List Event) : (σ.record call c s events).lastTick = σ.lastTick := by
  rw [record, h]
  rfl

theorem states_record_tick {seen : ConnState} (h : call.op.ticking = some seen)
    (c : Connection) (s : Socket) (events : List Event) :
    (σ.record call c s events).states = [c.state] := by
  rw [record, h]
  rfl

theorem states_record_other (h : call.op.ticking = none) (c : Connection) (s : Socket)
    (events : List Event) : (σ.record call c s events).states = c.state :: σ.states := by
  rw [record, h]
  rfl

/-- What a call does. -/
theorem next_inv (hnext : σ.next cfg call = some σ') :
    ∃ c s events, call.op.apply σ.conn cfg ⟨call.failures, []⟩ call.now = .ok (c, s, events) ∧
      σ' = σ.record call c s events := by
  rw [next] at hnext
  split at hnext
  · cases hnext
  · rename_i c s events hok
    exact ⟨c, s, events, hok, (Option.some.inj hnext).symm⟩

end Session

end Fastwire
