/-
# A client among other goroutines

The tick goroutine of a connected client, one section at a time, and everything
that can run between two sections: calls of the application on the connection,
and any number of calls of `Client.Close`, each of which goes through five
sections of its own. The tick looks at `c.server` once for a datagram and once
for the tick, and keeps the connection it has found.
-/

import Fastwire.Interleaving.Work
import Fastwire.Lib.Run

namespace Fastwire

open Lib

namespace Client

/-- What a call of `Client.Close` does next. -/
inductive Closer
  /-- `conn.Close()`. -/
  | closing
  /-- `conn.releasePendingBuffers()`. -/
  | releasing
  /-- `conn.setState(StateDisconnected)`. -/
  | marking
  /-- `c.server = nil`. -/
  | clearing
  /-- `OnDisconnect`. -/
  | reporting
  deriving DecidableEq, Repr

/-- A client after `Connect`: the connection, whether `c.server` still points to
it, what the tick goroutine is in the middle of, and the calls of
`Client.Close`. -/
structure Machine where
  conn : Connection
  server : Bool
  task : Option Work
  closers : List Closer
  log : List Event

/-- A step of the tick goroutine, of the application or of `Client.Close`. -/
inductive Action
  /-- The tick takes a datagram from the queue. -/
  | take (data : Bytes)
  /-- `tickConnection` reads the state. -/
  | tick
  /-- The tick goroutine goes on. -/
  | advance (now : ℤ) (failures : List Bool)
  | close (now : ℤ) (failures : List Bool)
  | sendImmediate (now : ℤ) (data : Bytes) (channel : UInt8) (failures : List Bool)
  | send (data : Bytes) (channel : UInt8)
  /-- `Client.Close` reads `c.server`. -/
  | closeCall
  | closeStep (k : ℕ) (now : ℤ) (failures : List Bool)

namespace Machine

variable (m : Machine)

def closeStep (k : ℕ) (now : ℤ) (failures : List Bool) : Closer → Machine
  | .closing => { m with
      conn := (m.conn.close ⟨failures, []⟩ now).1
      closers := m.closers.set k .releasing }
  | .releasing => { m with
      conn := m.conn.releasePendingBuffers
      closers := m.closers.set k .marking }
  | .marking => { m with
      conn := { m.conn with state := .disconnected }
      closers := m.closers.set k .clearing }
  | .clearing => { m with server := false, closers := m.closers.set k .reporting }
  | .reporting => { m with
      closers := m.closers.eraseIdx k
      log := m.log ++ [.onDisconnect .graceful] }

section

variable (cfg : TickConfig)

/-- The machine after an action, if it is possible and does not panic. -/
def next : Action → Option Machine
  | .take data =>
      if m.task.isNone then
        some { m with task := if m.server then some (.datagram data) else none }
      else none
  | .tick =>
      if m.task.isNone then
        some { m with task := if m.server then some (.ticking m.conn.state) else none }
      else none
  | .advance now failures =>
      m.task.bind fun w =>
        match w.advance m.conn cfg ⟨failures, []⟩ now with
        | .error _ => none
        | .ok (c, _, w', events) =>
            some { m with
              conn := c
              server := m.server && !events.any Event.isDisconnect
              task := w'
              log := m.log ++ events }
  | .close now failures => some { m with conn := (m.conn.close ⟨failures, []⟩ now).1 }
  | .sendImmediate now data channel failures =>
      some { m with conn := (m.conn.sendImmediate ⟨failures, []⟩ data channel now).1 }
  | .send data channel => some { m with conn := (m.conn.enqueueSend data channel).1 }
  | .closeCall =>
      some { m with closers := if m.server then m.closers ++ [.closing] else m.closers }
  | .closeStep k now failures => m.closers[k]?.map (m.closeStep k now failures)

def system : System Machine Action where
  init m := ∃ input now, m = ⟨newConnection input now, true, none, [], []⟩
  step m a m' := m.next cfg a = some m'

end

/-! ## What an action does -/

section

variable {cfg : TickConfig} {m m' : Machine}

theorem take_inv {data : Bytes} (hnext : m.next cfg (.take data) = some m') :
    m.task = none ∧ m' = { m with task := if m.server then some (.datagram data) else none } := by
  simp only [next, Option.isNone_iff_eq_none, Option.ite_none_right_eq_some,
    Option.some.injEq] at hnext
  exact ⟨hnext.1, hnext.2.symm⟩

theorem tick_inv (hnext : m.next cfg .tick = some m') :
    m.task = none ∧
      m' = { m with task := if m.server then some (.ticking m.conn.state) else none } := by
  simp only [next, Option.isNone_iff_eq_none, Option.ite_none_right_eq_some,
    Option.some.injEq] at hnext
  exact ⟨hnext.1, hnext.2.symm⟩

theorem advance_inv {now : ℤ} {failures : List Bool}
    (hnext : m.next cfg (.advance now failures) = some m') :
    ∃ w c socket w' events, m.task = some w ∧
      w.advance m.conn cfg ⟨failures, []⟩ now = .ok (c, socket, w', events) ∧
      m' = { m with
        conn := c
        server := m.server && !events.any Event.isDisconnect
        task := w'
        log := m.log ++ events } := by
  simp only [next, Option.bind_eq_some_iff] at hnext
  obtain ⟨w, hbusy, hadvance⟩ := hnext
  split at hadvance
  · cases hadvance
  · rename_i hok
    exact ⟨w, _, _, _, _, hbusy, hok, (Option.some.inj hadvance).symm⟩

theorem closeStep_inv {k : ℕ} {now : ℤ} {failures : List Bool}
    (hnext : m.next cfg (.closeStep k now failures) = some m') :
    ∃ closer, m.closers[k]? = some closer ∧ m' = m.closeStep k now failures closer := by
  simp only [next, Option.map_eq_some_iff] at hnext
  obtain ⟨closer, hk, rfl⟩ := hnext
  exact ⟨closer, hk, rfl⟩

/-- What a call of the application leaves alone. -/
structure Kept (c c' : Connection) : Prop where
  aead_eq : c'.recvCipher.aead = c.recvCipher.aead
  buffers_eq : c'.life.2 = c.life.2
  stays : c.state = .disconnected → c'.state = .disconnected

theorem close_kept (c : Connection) (s : Socket) (now : ℤ) : Kept c (c.close s now).1 := by
  have haead : (c.close s now).1.recvCipher.aead = c.recvCipher.aead :=
    congrArg (fun identity => identity.2.2.2.2.aead) (c.identity_close s now)
  rcases c.close_life s now with heq | ⟨live, hlife⟩
  · exact ⟨haead, by rw [heq], by rw [heq]; exact id⟩
  · exact ⟨haead, by rw [hlife], by simp [live]⟩

theorem sendImmediate_kept (c : Connection) (s : Socket) (data : Bytes) (id : UInt8) (now : ℤ) :
    Kept c (c.sendImmediate s data id now).1 := by
  have hlife := c.life_sendImmediate s data id now
  exact ⟨congrArg (fun identity => identity.2.2.2.2.aead) (c.identity_sendImmediate s data id now),
    by rw [hlife], fun hstate => (congrArg Prod.fst hlife).trans hstate⟩

theorem enqueueSend_kept (c : Connection) (data : Bytes) (id : UInt8) :
    Kept c (c.enqueueSend data id).1 := by
  have hlife := c.life_enqueueSend data id
  exact ⟨congrArg (fun identity => identity.2.2.2.2.aead) (c.identity_enqueueSend data id),
    by rw [hlife], fun hstate => (congrArg Prod.fst hlife).trans hstate⟩

/-- Under any interleaving, a connection that is disconnected stays so. -/
theorem disconnected_next {a : Action} (hnext : m.next cfg a = some m')
    (hstate : m.conn.state = .disconnected) : m'.conn.state = .disconnected := by
  cases a with
  | take data =>
      obtain ⟨-, rfl⟩ := take_inv hnext
      exact hstate
  | tick =>
      obtain ⟨-, rfl⟩ := tick_inv hnext
      exact hstate
  | advance now failures =>
      obtain ⟨w, c, socket, w', events, -, hok, rfl⟩ := advance_inv hnext
      exact (Work.advance_lifecycle hok).disconnected hstate
  | close now failures =>
      cases hnext
      exact (close_kept _ _ now).stays hstate
  | sendImmediate now data channel failures =>
      cases hnext
      exact (sendImmediate_kept _ _ data channel now).stays hstate
  | send data channel =>
      cases hnext
      exact (enqueueSend_kept _ data channel).stays hstate
  | closeCall =>
      cases hnext
      exact hstate
  | closeStep k now failures =>
      obtain ⟨closer, -, rfl⟩ := closeStep_inv hnext
      cases closer with
      | closing => exact (close_kept _ _ now).stays hstate
      | marking => rfl
      | _ => exact hstate

end

end Machine

end Client

end Fastwire
