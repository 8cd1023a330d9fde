/-
# The send queue among other goroutines

Any goroutine may call `Send` or `SendOwned` while the tick is draining the queue.
The tick takes the whole queue under the lock, then looks at the congestion window in
front of every message, and puts back what the window does not let through, in front
of what was enqueued in the meantime.

The sections of `sendMessage` and everything else that runs do not touch the queue.
They are one action here, which may change anything else about the connection.
-/

import Fastwire.Connection.Identity
import Fastwire.Lib.Run

namespace Fastwire

open Lib

namespace Connection

def drainSendQueue (c : Connection) : Connection × List OutgoingMessage :=
  ({ c with sendQueue := [] }, c.sendQueue)

def requeue (c : Connection) (msgs : List OutgoingMessage) : Connection :=
  { c with sendQueue := msgs ++ c.sendQueue }

/-- What a successful call has enqueued. -/
theorem enqueueSend_queue (c : Connection) (data : Bytes) (id : UInt8) :
    (∃ e, c.enqueueSend data id = (c, .error e)) ∨
      c.enqueueSend data id = ({ c with sendQueue := c.sendQueue ++ [⟨data, id⟩] }, .ok ()) := by
  rw [enqueueSend]
  split
  · exact .inl ⟨_, rfl⟩
  · split
    · exact .inl ⟨_, rfl⟩
    · exact .inr rfl

end Connection

namespace SendQueue

/-- Where the tick is in its drain loop, with the messages it still has in hand. -/
inductive Drain
  | idle
  /-- In front of the next message. -/
  | looping (msgs : List OutgoingMessage)
  /-- Inside `sendMessage`. -/
  | sending (msgs : List OutgoingMessage)
  /-- The window is full. -/
  | refused (msgs : List OutgoingMessage)
  deriving DecidableEq

/-- The messages that are neither passed to `sendMessage` nor in the queue. -/
def Drain.inHand : Drain → List OutgoingMessage
  | .idle => []
  | .looping msgs => msgs
  | .sending msgs => msgs
  | .refused msgs => msgs

/-- A connection and its tick, with the messages that were enqueued and those that
were passed to `sendMessage`, both oldest first. -/
structure Machine where
  conn : Connection
  drain : Drain
  enqueued : List OutgoingMessage
  passed : List OutgoingMessage

/-- A section of a goroutine. -/
inductive Action
  /-- A call of `Send` or `SendOwned`. -/
  | send (data : Bytes) (channel : UInt8)
  | drainSendQueue
  /-- The head of the loop: `CanSend` for the next message, or the end. -/
  | canSend
  /-- `sendMessage` returns. -/
  | returned
  | requeue
  /-- A section that leaves the queue alone, of `sendMessage` or of anything else. -/
  | other (conn : Connection)

namespace Machine

variable (m : Machine)

/-- The machine after a section, if the goroutine is there. -/
def next : Action → Option Machine
  | .send data channel =>
      match m.conn.enqueueSend data channel with
      | (c, .error _) => some { m with conn := c }
      | (c, .ok ()) => some { m with conn := c, enqueued := m.enqueued ++ [⟨data, channel⟩] }
  | .drainSendQueue =>
      match m.drain with
      | .idle =>
          let (c, msgs) := m.conn.drainSendQueue
          some { m with conn := c, drain := .looping msgs }
      | _ => none
  | .canSend =>
      match m.drain with
      | .looping [] => some { m with drain := .idle }
      | .looping (msg :: msgs) =>
          if m.conn.cc.canSend m.conn.inFlightCount then
            some { m with drain := .sending msgs, passed := m.passed ++ [msg] }
          else some { m with drain := .refused (msg :: msgs) }
      | _ => none
  | .returned =>
      match m.drain with
      | .sending msgs => some { m with drain := .looping msgs }
      | _ => none
  | .requeue =>
      match m.drain with
      | .refused msgs => some { m with conn := m.conn.requeue msgs, drain := .idle }
      | _ => none
  | .other c => if c.sendQueue = m.conn.sendQueue then some { m with conn := c } else none

/-- The interleavings of a connection's tick with the application. -/
def system : System Machine Action where
  init m := ∃ input now, m = ⟨newConnection input now, .idle, [], []⟩
  step m a m' := m.next a = some m'

/-! ## Nothing is lost -/

/-- Every enqueued message has been passed on, is in hand or waits, in this order. -/
def Accounted (m : Machine) : Prop :=
  m.passed ++ (m.drain.inHand ++ m.conn.sendQueue) = m.enqueued

variable {m} {m' : Machine}

/-- One section. -/
theorem Accounted.next (h : m.Accounted) {a : Action} (hstep : m.next a = some m') :
    m'.Accounted := by
  obtain ⟨conn, drain, enqueued, passed⟩ := m
  rw [Accounted] at h ⊢
  dsimp only at h
  cases a with
  | send data channel =>
      rw [Machine.next] at hstep
      rcases conn.enqueueSend_queue data channel with ⟨e, herror⟩ | hok
      · simp only [herror, Option.some.injEq] at hstep
        subst hstep
        exact h
      · simp only [hok, Option.some.injEq] at hstep
        subst hstep
        dsimp only
        rw [← h]
        simp only [List.append_assoc]
  | drainSendQueue =>
      cases drain <;> cases hstep
      simpa [Drain.inHand, Connection.drainSendQueue] using h
  | canSend =>
      cases drain with
      | looping msgs =>
          cases msgs with
          | nil =>
              cases hstep
              exact h
          | cons msg msgs =>
              simp only [Machine.next] at hstep
              split at hstep <;> cases hstep
              · simpa [Drain.inHand] using h
              · exact h
      | _ => cases hstep
  | returned =>
      cases drain <;> cases hstep
      exact h
  | requeue =>
      cases drain <;> cases hstep
      simpa [Drain.inHand, Connection.requeue] using h
  | other c =>
      simp only [Machine.next, Option.ite_none_right_eq_some, Option.some.injEq] at hstep
      obtain ⟨hqueue, rfl⟩ := hstep
      dsimp only
      rw [hqueue]
      exact h

theorem accounted_of_run {hist : List (Machine × Action)} (hrun : system.Run hist m) :
    m.Accounted := by
  refine hrun.invariant ?_ fun _ _ _ h hstep => h.next hstep
  rintro m ⟨input, now, rfl⟩
  rfl

/-- **The send queue is first in, first out, and loses nothing.** Whenever the tick is
not in its drain loop, what was passed to `sendMessage`, followed by what is queued, is
what was enqueued. -/
theorem send_queue_fifo {hist : List (Machine × Action)} (hrun : system.Run hist m)
    (hidle : m.drain = .idle) : m.passed ++ m.conn.sendQueue = m.enqueued := by
  have h := accounted_of_run hrun
  rw [Accounted, hidle] at h
  exact h

/-- A connection with a window of one packet that has sent the first of three
messages. -/
def firstSent : Connection :=
  ({ plainWindow 1 with sendQueue := [⟨[3], 0⟩] }.sendMessage ⟨[], []⟩ [1] 0 0).1

/-- The second of three messages is put back in front of the third, which was enqueued
in the meantime. -/
theorem send_queue_fifo_requeue :
    ∃ hist m, system.Run hist m ∧ m.drain = .idle ∧ m.conn.sendQueue = [⟨[2], 0⟩, ⟨[3], 0⟩] ∧
      m.passed ++ m.conn.sendQueue = m.enqueued := by
  obtain ⟨hist, m, hrun, hend⟩ := System.exists_run (S := system) (fun _ _ _ h => h)
    ⟨{ plainInput [(.reliableOrdered, 0)] with cc := .conservative 1 }, 0, rfl⟩
    [.send [1] 0, .send [2] 0, .drainSendQueue, .send [3] 0, .canSend, .other firstSent, .returned,
      .canSend, .requeue]
    (fun m => m.drain = .idle ∧ m.conn.sendQueue = [⟨[2], 0⟩, ⟨[3], 0⟩]) (by decide +kernel)
  simp only [decide_eq_true_eq] at hend
  exact ⟨hist, m, hrun, hend.1, hend.2, send_queue_fifo hrun hend.1⟩

/-! ## The tick as a run -/

/-- What leaves the queue alone may happen at any time. -/
theorem next_other {c : Connection} (hkept : c.kept = m.conn.kept) :
    m.next (.other c) = some { m with conn := c } :=
  if_pos (congrArg Prod.snd hkept)

section

variable (c : Connection) (s : Socket) (now : ℤ) (enqueued passed : List OutgoingMessage)

/-- The drain loop goes through the sections. -/
theorem exec_drainQueue (msgs : List OutgoingMessage) :
    ∃ actions passed', System.exec Machine.next ⟨c, .looping msgs, enqueued, passed⟩ actions =
      some ⟨(Connection.drainQueue now c s msgs).1, .idle, enqueued, passed'⟩ := by
  induction msgs generalizing c s passed with
  | nil => exact ⟨[.canSend], passed, rfl⟩
  | cons msg msgs ih =>
      cases hroom : c.cc.canSend c.inFlightCount with
      | true =>
          have hkept := c.kept_sendMessage s msg.data msg.channel now
          rw [c.drainQueue_of_room s now hroom]
          generalize c.sendMessage s msg.data msg.channel now = sent at hkept
          obtain ⟨actions, passed', hexec⟩ := ih sent.1 sent.2.1 (passed ++ [msg])
          refine ⟨.canSend :: .other sent.1 :: .returned :: actions, passed', ?_⟩
          have hgate : Machine.next ⟨c, .looping (msg :: msgs), enqueued, passed⟩ .canSend =
              some ⟨c, .sending msgs, enqueued, passed ++ [msg]⟩ := if_pos hroom
          have hother : Machine.next ⟨c, .sending msgs, enqueued, passed ++ [msg]⟩
              (.other sent.1) = some ⟨sent.1, .sending msgs, enqueued, passed ++ [msg]⟩ :=
            next_other hkept
          rw [← hexec]
          simp only [System.exec, hgate, hother, Option.bind_some]
          rfl
      | false =>
          refine ⟨[.canSend, .requeue], passed, ?_⟩
          have hgate : Machine.next ⟨c, .looping (msg :: msgs), enqueued, passed⟩ .canSend =
              some ⟨c, .refused (msg :: msgs), enqueued, passed⟩ := if_neg (by simp [hroom])
          rw [c.drainQueue_of_full s now hroom]
          simp only [System.exec, hgate, Option.bind_some]
          rfl

/-- **A tick goes through the sections**, whatever state of the connection it has
read. -/
theorem exec_tickSeen (cfg : TickConfig) (seen : ConnState) :
    ∃ actions passed', System.exec Machine.next ⟨c, .idle, enqueued, passed⟩ actions =
      some ⟨(c.tickSeen cfg s now seen).1, .idle, enqueued, passed'⟩ := by
  rcases c.kept_tickSeen cfg s now seen with hkept | ⟨c', s', hsame, hdrained⟩
  · refine ⟨[.other (c.tickSeen cfg s now seen).1], passed, ?_⟩
    rw [System.exec, next_other hkept]
    rfl
  · obtain ⟨actions, passed', hexec⟩ :=
      exec_drainQueue { c' with sendQueue := [] } s' now enqueued passed c'.sendQueue
    refine ⟨.other c' :: .drainSendQueue ::
      (actions ++ [.other (c.tickSeen cfg s now seen).1]), passed', ?_⟩
    have hbefore : Machine.next ⟨c, .idle, enqueued, passed⟩ (.other c') =
        some ⟨c', .idle, enqueued, passed⟩ := next_other hsame
    have hdrain : Machine.next ⟨c', .idle, enqueued, passed⟩ .drainSendQueue =
        some ⟨{ c' with sendQueue := [] }, .looping c'.sendQueue, enqueued, passed⟩ := rfl
    have hafter : Machine.next ⟨(Connection.drainQueue now { c' with sendQueue := [] } s'
          c'.sendQueue).1, .idle, enqueued, passed'⟩ (.other (c.tickSeen cfg s now seen).1) =
        some ⟨(c.tickSeen cfg s now seen).1, .idle, enqueued, passed'⟩ := next_other hdrained
    simp only [System.exec, hbefore, hdrain, Option.bind_some, System.exec_append, hexec, hafter]

end

end Machine

end SendQueue

end Fastwire
