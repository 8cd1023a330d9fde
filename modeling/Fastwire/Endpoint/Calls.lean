/-
# Calls as acts

The acts of an endpoint are the sections of the code; here they are put together
again. Whatever `sendMessage`, `SendImmediate`, `Close` and a tick do to a
connection, and the events they report, is what a sequence of acts does. So what
holds along every run of acts holds for calls that run one after another, and an
interleaving of calls is an interleaving of their acts.
-/

import Fastwire.Connection.Pipeline
import Fastwire.Endpoint.SendSide

namespace Fastwire

open Lib

namespace Connection

def worked (c : Connection) :
    Crypto.CipherState × Crypto.CipherState × List Channel × ReassemblyStore × CompressorPool × ℕ :=
  (c.sendCipher, c.recvCipher, c.channels, c.reassembly, c.compress, c.fragmentID)

theorem withBooks_eq {c c' : Connection} (same : c'.worked = c.worked) : c.withBooks c' = c' := by
  simp only [worked, Prod.mk.injEq] at same
  obtain ⟨htx, hrx, hchannels, hstore, hpool, hid⟩ := same
  rw [withBooks, ← htx, ← hrx, ← hchannels, ← hstore, ← hpool, ← hid]

theorem worked_transmitPacket (c : Connection) (s : Socket) (raw : Bytes) :
    (c.transmitPacket s raw).1.worked = (c.sealPlaintext raw).worked := by
  obtain ⟨_, _, heq⟩ := c.transmitPacket_books s raw
  rw [heq]
  rfl

/-- A packet that cannot be written is the socket's fault. -/
theorem transmitPacket_error {c c' : Connection} {s s' : Socket} {raw : Bytes} {err : Err}
    (h : c.transmitPacket s raw = (c', s', .error err)) : err = .socket := by
  simp only [transmitPacket, writeEncrypted] at h
  split at h
  · cases h
  · simp only [sendFramed, Socket.write] at h
    split at h <;> cases h
    rfl

end Connection

namespace Endpoint

/-! ## Sequences of acts -/

/-- Acts take every endpoint with the first connection to the second one and report
the events; they leave nothing on its way. A write may fail if `fails` says so. -/
def Performs (fails : Prop) (c c' : Connection) (events : List Event) : Prop :=
  ∀ e : Endpoint, e.conn = c → ∃ acts, (∀ p, .transmit p false ∈ acts → fails) ∧
    e.exec acts = some { e with conn := c', trace := e.trace ++ events }

namespace Performs

variable {fails : Prop} {c c' c'' : Connection} {events events' : List Event}

theorem refl (c : Connection) : Performs fails c c [] := by
  rintro e rfl
  exact ⟨[], nofun, by simp [exec, System.exec]⟩

theorem trans (h : Performs fails c c' events) (h' : Performs fails c' c'' events') :
    Performs fails c c'' (events ++ events') := by
  rintro e rfl
  obtain ⟨acts, hfails, hexec⟩ := h e rfl
  obtain ⟨acts', hfails', hexec'⟩ := h' { e with conn := c', trace := e.trace ++ events } rfl
  refine ⟨acts ++ acts', ?_, ?_⟩
  · intro p hp
    exact (List.mem_append.mp hp).elim (hfails p) (hfails' p)
  · rw [exec, System.exec_append, ← exec, hexec, Option.bind_some, ← exec, hexec',
      List.append_assoc]

theorem mono {fails' : Prop} (h : Performs fails c c' events) (himp : fails → fails') :
    Performs fails' c c' events := by
  intro e he
  obtain ⟨acts, hfails, hexec⟩ := h e he
  exact ⟨acts, fun p hp => himp (hfails p hp), hexec⟩

/-- One act that writes nothing. -/
theorem of_step {a : Act} (hother : ∀ p, a ≠ .transmit p false)
    (h : ∀ e : Endpoint, e.conn = c →
      e.step a = some { e with conn := c', trace := e.trace ++ events }) :
    Performs fails c c' events := by
  intro e he
  refine ⟨[a], ?_, ?_⟩
  · intro p hp
    exact absurd (List.mem_singleton.mp hp).symm (hother p)
  · rw [exec, System.exec, h e he]
    rfl

theorem bookkeep (same : c'.worked = c.worked) : Performs fails c c' [] := by
  refine of_step (a := .bookkeep c') (by simp) ?_
  rintro e rfl
  rw [step, Connection.withBooks_eq same, List.append_nil]

theorem report (c : Connection) (err : Err) : Performs fails c c [.onError err] := by
  refine of_step (a := .report err) (by simp) ?_
  rintro e rfl
  rfl

theorem shutDown (c : Connection) (reason : DisconnectReason) :
    Performs fails c c.shutDown [.onDisconnect reason] := by
  refine of_step (a := .shutDown reason) (by simp) ?_
  rintro e rfl
  rfl

end Performs

/-- From a state that is reached, a call leads to a state that is reached. -/
theorem run_performs {fails : Prop} {c : Connection} {events : List Event} {e : Endpoint}
    {hist : List (Endpoint × Act)} (hrun : system.Run hist e)
    (h : Performs fails e.conn c events) :
    ∃ hist', system.Run hist' { e with conn := c, trace := e.trace ++ events } := by
  obtain ⟨acts, -, hexec⟩ := h e rfl
  exact run_exec hrun hexec

/-! ## One packet -/

/-- Up to the write of a packet. -/
theorem exec_transmit {e : Endpoint} {id : UInt8} {ch : Channel}
    (found : e.conn.channel id = some ch) (fragment : Bool) {body : Bytes} {p : Stamped}
    (hbuild : Connection.buildPacket ch.nextSequence.1 id (if fragment then flagFragment else 0)
      ch.nextSequence.2 body = .ok p) (written : Bool) :
    e.exec [.number id, .stamp id ch.nextSequence.2 fragment body, .transmit p written] =
      some { e with
        conn := (e.conn.setChannel id ch.nextSequence.1).sealPlaintext p.raw
        transmitted := if written then p :: e.transmitted else e.transmitted } := by
  have hnext : (e.conn.setChannel id ch.nextSequence.1).channel id = some ch.nextSequence.1 :=
    (Connection.channel_setChannel found id).trans (if_pos rfl)
  have hnumber : e.step (.number id) = some { e with
      conn := e.conn.setChannel id ch.nextSequence.1
      numbered := (id, ch.nextSequence.2) :: e.numbered } := by
    rw [step, found]
    rfl
  have hstamp : step { e with
      conn := e.conn.setChannel id ch.nextSequence.1
      numbered := (id, ch.nextSequence.2) :: e.numbered }
      (.stamp id ch.nextSequence.2 fragment body) = some { e with
        conn := e.conn.setChannel id ch.nextSequence.1
        stamped := p :: e.stamped } := by
    simp only [step, hnext, hbuild, Option.bind_eq_bind, Option.bind_some, List.mem_cons_self,
      if_true, List.erase_cons_head]
    rfl
  simp only [exec, System.exec, hnumber, Option.bind_some, hstamp]
  rw [step, if_pos List.mem_cons_self]
  simp only [List.erase_cons_head, Option.bind_some]

section Send

variable {c c' : Connection} {s s' : Socket} {result : Except Err Unit} {now : ℤ}

/-- A packet takes its acts one after another. A write fails only if the call does. -/
theorem sendPacket_performs {id : UInt8} {ch : Channel} (found : c.channel id = some ch)
    (fragment : Bool) {body : Bytes}
    (hsent : c.sendPacket s ch id (if fragment then flagFragment else 0) body now =
      (c', s', result)) :
    Performs (result = .error .socket) c c' [] := by
  rintro e rfl
  obtain ⟨p, hbuild, -⟩ := Connection.buildPacket_ok ch.nextSequence.1 id
    (if fragment then flagFragment else 0) ch.nextSequence.2 body
  have hstamp : e.conn.stampPacket ch id (if fragment then flagFragment else 0) body =
      (e.conn.setChannel id ch.nextSequence.1, .ok p) := congrArg (Prod.mk _) hbuild
  -- the connection when the packet is written
  obtain ⟨⟨cx, sx, written⟩, htransmit⟩ : ∃ written,
      (e.conn.setChannel id ch.nextSequence.1).transmitPacket s p.raw = written := ⟨_, rfl⟩
  have hworked : cx.worked =
      ((e.conn.setChannel id ch.nextSequence.1).sealPlaintext p.raw).worked := by
    have hwrite := (e.conn.setChannel id ch.nextSequence.1).worked_transmitPacket s p.raw
    rwa [htransmit] at hwrite
  simp only [Connection.sendPacket, hstamp, htransmit] at hsent
  cases written with
  | error err =>
      cases hsent
      obtain rfl := Connection.transmitPacket_error htransmit
      refine ⟨[.number id, .stamp id ch.nextSequence.2 fragment body, .transmit p false] ++
        [.bookkeep c'], fun _ _ => rfl, ?_⟩
      rw [exec, System.exec_append, ← exec, exec_transmit found fragment hbuild, Option.bind_some]
      simp only [System.exec, step, Connection.withBooks_eq hworked, Option.bind_some,
        Bool.false_eq_true, if_false, List.append_nil]
  | ok done =>
      cases hsent
      refine ⟨[.number id, .stamp id ch.nextSequence.2 fragment body, .transmit p true] ++
        [.bookkeep cx, .queue p now], by simp, ?_⟩
      rw [exec, System.exec_append, ← exec, exec_transmit found fragment hbuild, Option.bind_some]
      simp only [System.exec, step, Connection.withBooks_eq hworked, Option.bind_some, if_true,
        List.mem_cons_self, List.erase_cons_head, List.append_nil]

/-! ## One message -/

theorem sendFragments_performs {id : UInt8} {fragments : List Bytes}
    (hsent : Connection.sendFragments id now c s fragments = (c', s', result)) :
    Performs (result = .error .socket) c c' [] := by
  induction fragments generalizing c s with
  | nil =>
      cases hsent
      exact .bookkeep rfl
  | cons frag fragments ih =>
      rw [Connection.sendFragments] at hsent
      split at hsent
      · cases hsent
        exact .refl _
      · rename_i ch found
        split at hsent
        · rename_i c₁ s₁ err hpacket
          cases hsent
          exact sendPacket_performs found true hpacket
        · rename_i c₁ s₁ hpacket
          have hfirst := sendPacket_performs found true hpacket
          exact (hfirst.mono (by simp)).trans (ih hsent)

/-- **A call of `sendMessage` is a sequence of acts.** A write fails only if the call
returns the error of the socket. -/
theorem sendMessage_performs {id : UInt8} {data : Bytes}
    (hsent : c.sendMessage s data id now = (c', s', result)) :
    Performs (result = .error .socket) c c' [] := by
  rw [Connection.sendMessage] at hsent
  split at hsent
  · cases hsent
    exact .refl c
  · rename_i ch found
    split at hsent
    · cases hsent
      exact .refl c
    · rename_i compressed fragFlags _
      split at hsent
      · have hnext : Performs (result = .error .socket) c c.nextFragmentID.1 [] := by
          refine .of_step (a := .nextFragmentID) (by simp) ?_
          rintro e rfl
          rw [step, List.append_nil]
        rw [Connection.sendFragmented] at hsent
        dsimp only at hsent
        split at hsent
        · cases hsent
          exact hnext
        · exact hnext.trans (sendFragments_performs hsent)
      · rw [Connection.sendSinglePacket] at hsent
        split at hsent
        · rename_i hpacket
          cases hsent
          exact sendPacket_performs found false hpacket
        · rename_i hpacket
          cases hsent
          exact (sendPacket_performs found false hpacket).trans (.bookkeep rfl)

/-- `SendImmediate`. -/
theorem sendImmediate_performs {id : UInt8} {data : Bytes}
    (hsent : c.sendImmediate s data id now = (c', s', result)) :
    Performs (result = .error .socket) c c' [] := by
  rw [Connection.sendImmediate] at hsent
  split at hsent
  · cases hsent
    exact .refl c
  · split at hsent
    · cases hsent
      exact .refl c
    · obtain ⟨⟨c₁, s₁, result₁⟩, hmessage⟩ : ∃ sent,
          ({ c with skipBatch := true } : Connection).sendMessage s data id now = sent := ⟨_, rfl⟩
      rw [hmessage] at hsent
      cases hsent
      have hskip : Performs (result = .error .socket) c { c with skipBatch := true } [] :=
        .bookkeep rfl
      have hback : Performs (result = .error .socket) c₁ { c₁ with skipBatch := false } [] :=
        .bookkeep rfl
      exact (hskip.trans (sendMessage_performs hmessage)).trans hback

end Send

/-! ## The stages of a tick -/

variable (c : Connection) (s : Socket) (cfg : TickConfig) (now : ℤ)

theorem drainQueue_performs (msgs : List OutgoingMessage) :
    Performs True c (Connection.drainQueue now c s msgs).1
      (Connection.drainQueue now c s msgs).2.2 := by
  induction msgs generalizing c s with
  | nil => exact .refl c
  | cons msg msgs ih =>
      rw [Connection.drainQueue]
      split
      · obtain ⟨⟨c₁, s₁, result⟩, hsent⟩ : ∃ sent,
            c.sendMessage s msg.data msg.channel now = sent := ⟨_, rfl⟩
        have hmessage := (sendMessage_performs hsent).mono fun _ => trivial
        simp only [hsent]
        cases result with
        | error err => exact (hmessage.trans (.report c₁ err)).trans (ih c₁ s₁)
        | ok done => exact hmessage.trans (ih c₁ s₁)
      · exact .bookkeep rfl

/-- The packets that were found due on a channel. -/
theorem exec_resend {e : Endpoint} (ps : List PendingPacket) {due : List Bytes}
    (hdue : e.due = ps.map PendingPacket.raw ++ due) :
    ∃ acts, (∀ p, Act.transmit p false ∉ acts) ∧ e.exec acts =
      some { e with conn := (Connection.retransmitPackets now e.conn s ps).1, due := due } := by
  induction ps generalizing e s with
  | nil =>
      obtain rfl : e.due = due := hdue
      exact ⟨[], nofun, rfl⟩
  | cons p ps ih =>
      rw [List.map_cons, List.cons_append] at hdue
      have hresend : e.step (.resend p.raw) = some { e with
          conn := e.conn.sealPlaintext p.raw
          due := ps.map PendingPacket.raw ++ due } := by
        rw [step, hdue, if_pos List.mem_cons_self, List.erase_cons_head]
      have hsame : (e.conn.sealPlaintext p.raw).withBooks (e.conn.retransmitPacket s p.raw now).1 =
          (e.conn.retransmitPacket s p.raw now).1 := Connection.withBooks_eq rfl
      obtain ⟨acts, hother, hacts⟩ := ih (e.conn.retransmitPacket s p.raw now).2
        (e := { e with
          conn := (e.conn.retransmitPacket s p.raw now).1
          due := ps.map PendingPacket.raw ++ due }) rfl
      refine ⟨.resend p.raw :: .bookkeep (e.conn.retransmitPacket s p.raw now).1 :: acts, ?_, ?_⟩
      · simpa using hother
      · rw [exec, System.exec, hresend, Option.bind_some, System.exec, step]
        dsimp only
        rw [hsame, Option.bind_some]
        exact hacts

theorem exec_check {e : Endpoint} {i : ℕ} {ch : Channel} (found : e.conn.channels[i]? = some ch)
    (rto maxRetries : ℤ) :
    e.exec [.check i now rto maxRetries] = some { e with
      conn := e.conn.setIndex i (ch.checkRetransmissions now rto maxRetries).1
      due := (ch.checkRetransmissions now rto maxRetries).2.1.map PendingPacket.raw ++ e.due } := by
  simp only [exec, System.exec, step, found, Option.bind_eq_bind, Option.bind_some]

/-- The check of one channel and what it sends again. -/
theorem retransmitChannel_performs {i : ℕ} {ch : Channel} (found : c.channels[i]? = some ch)
    (rto maxRetries : ℤ) :
    Performs True c (Connection.retransmitPackets now
      (c.setIndex i (ch.checkRetransmissions now rto maxRetries).1) s
      (ch.checkRetransmissions now rto maxRetries).2.1).1 [] := by
  rintro e rfl
  obtain ⟨acts, hother, hacts⟩ := exec_resend s now
    (ch.checkRetransmissions now rto maxRetries).2.1
    (e := { e with
      conn := e.conn.setIndex i (ch.checkRetransmissions now rto maxRetries).1
      due := (ch.checkRetransmissions now rto maxRetries).2.1.map PendingPacket.raw ++ e.due }) rfl
  refine ⟨[.check i now rto maxRetries] ++ acts, ?_, ?_⟩
  · intro p hp
    exact absurd (by simpa using hp) (hother p)
  · rw [exec, System.exec_append, ← exec, exec_check now found, Option.bind_some, List.append_nil]
    exact hacts

theorem retransmitChannels_performs (rto maxRetransmits : ℤ) (is : List ℕ) :
    Performs True c (Connection.retransmitChannels now rto maxRetransmits c s is).1
      (if (Connection.retransmitChannels now rto maxRetransmits c s is).2.2 then
        [.onError .maxRetransmits, .onDisconnect .error] else []) := by
  induction is generalizing c s with
  | nil => exact .refl c
  | cons i is ih =>
      rw [Connection.retransmitChannels]
      split
      · exact ih c s
      · rename_i ch found
        have hchannel := retransmitChannel_performs c s now found rto maxRetransmits
        dsimp only
        split
        · rename_i hkill
          -- nothing is due, and the connection goes down with two events
          have hnone : (ch.checkRetransmissions now rto maxRetransmits).2.1 = [] :=
            Channel.checkPending_kill hkill
          rw [hnone] at hchannel
          exact (hchannel.trans (.report _ .maxRetransmits)).trans (.shutDown _ .error)
        · exact hchannel.trans (ih _ _)

theorem flushStage_performs :
    Performs True c (c.flushStage cfg s).1 (c.flushStage cfg s).2.2 := by
  have hflushed : Performs True c { c with batchBuf := [] } [] := .bookkeep rfl
  rw [Connection.flushStage]
  split
  · split
    · rename_i c₁ s₁ err hflush
      obtain rfl : { c with batchBuf := [] } = c₁ := congrArg Prod.fst hflush
      exact hflushed.trans (.report _ err)
    · rename_i c₁ s₁ hflush
      obtain rfl : { c with batchBuf := [] } = c₁ := congrArg Prod.fst hflush
      exact hflushed
  · exact .refl c

theorem collectAcks_performs (is : List ℕ) :
    Performs True c (Connection.collectAcks c is).1 [] := by
  induction is generalizing c with
  | nil => exact .refl c
  | cons i is ih =>
      rw [Connection.collectAcks]
      split
      · exact ih c
      · rename_i ch found
        have hclear : Performs True c (c.setIndex i ch.clearNeedsAck.1) [] := by
          refine .of_step (a := .clearAck i) (by simp) ?_
          rintro e rfl
          simp only [step, found, Option.bind_eq_bind, Option.bind_some, List.append_nil]
        exact hclear.trans (ih _)

theorem sendMultiChannelHeartbeat_performs (ids : List UInt8) :
    Performs True c (c.sendMultiChannelHeartbeat s ids now).1 [] := by
  rw [Connection.sendMultiChannelHeartbeat]
  dsimp only
  split
  · exact .refl c
  · split
    · exact .refl c
    · rename_i packet hpacket
      have hsealed : Performs True c (c.sealPlaintext packet) [] := by
        refine .of_step (a := .sealAcks ids) (by simp) ?_
        rintro e rfl
        simp only [step, hpacket, Except.toOption, Option.bind_eq_bind, Option.bind_some,
          List.append_nil]
      split
      · exact hsealed
      · exact hsealed.trans (.bookkeep rfl)

theorem flushAcks_performs : Performs True c (c.flushAcks s now).1 [] := by
  have hcollected := collectAcks_performs c (List.range c.channels.length)
  rw [Connection.flushAcks]
  dsimp only
  split
  · exact hcollected
  · exact hcollected.trans (sendMultiChannelHeartbeat_performs _ s now _)

theorem heartbeatStage_performs : Performs True c (c.heartbeatStage cfg s now).1 [] := by
  rw [Connection.heartbeatStage]
  split
  · exact sendMultiChannelHeartbeat_performs c s now [0]
  · exact .refl c

/-! ## Ticks and the close -/

theorem tickSend_performs :
    Performs True c (c.tickSend cfg s now).1 (c.tickSend cfg s now).2.2 := by
  let drained := Connection.drainQueue now { c with sendQueue := [] } s c.sendQueue
  let flushed := drained.1.flushStage cfg drained.2.1
  let acked := flushed.1.flushAcks flushed.2.1 now
  let beaten := acked.1.heartbeatStage cfg acked.2 now
  have hqueue : Performs True c { c with sendQueue := [] } [] := .bookkeep rfl
  have hdrained : Performs True c drained.1 drained.2.2 :=
    hqueue.trans (drainQueue_performs _ s now c.sendQueue)
  have hflushed : Performs True c flushed.1 (drained.2.2 ++ flushed.2.2) :=
    hdrained.trans (flushStage_performs drained.1 drained.2.1 cfg)
  have hacked := hflushed.trans (flushAcks_performs flushed.1 flushed.2.1 now)
  have hbeaten := hacked.trans (heartbeatStage_performs acked.1 acked.2 cfg now)
  have hcleanup : Performs True beaten.1
      { beaten.1 with reassembly := beaten.1.reassembly.cleanup now cfg.fragmentTimeout } [] := by
    refine .of_step (a := .cleanup now cfg.fragmentTimeout) (by simp) ?_
    intro e he
    rw [step, he, List.append_nil]
  rw [Connection.tickSend_eq]
  simpa only [List.append_nil] using hbeaten.trans hcleanup

/-- **A tick is a sequence of acts**, and reports what the acts report. The acts leave out
what no channel and no reassembly depends on: writes to the socket are no acts, `report`
may report any error, and `bookkeep` may change every other field in any way. -/
theorem tickConnection_performs :
    Performs True c (c.tickConnection cfg s now).1 (c.tickConnection cfg s now).2.2 := by
  rw [Connection.tickConnection, Connection.tickSeen.eq_def]
  split
  · rw [Connection.tickDisconnecting]
    split
    · exact .shutDown c .graceful
    · split
      · split
        · exact .bookkeep rfl
        · exact .refl c
      · exact .refl c
  · split
    · exact .shutDown c .timeout
    · have hchecked := retransmitChannels_performs c s now c.retransmitTimeout cfg.maxRetransmits
        (List.range c.channels.length)
      split
      · rename_i heq
        simpa only [heq, if_true] using hchecked
      · rename_i heq
        simp only [heq, Bool.false_eq_true, if_false] at hchecked
        exact hchecked.trans (tickSend_performs _ _ cfg now)
  · exact .refl c

theorem close_performs : Performs True c (c.close s now).1 [] := by
  rw [Connection.close]
  split
  · exact .refl c
  · have hclosing : Performs True c { c with state := .disconnecting } [] := .bookkeep rfl
    dsimp only
    split
    · exact hclosing
    · rename_i plaintext hplaintext
      have hsealed (c : Connection) : Performs True c (c.sealPlaintext plaintext) [] := by
        refine .of_step (a := .sealDisconnect) (by simp) ?_
        rintro e rfl
        simp only [step, hplaintext, Except.toOption, Option.bind_eq_bind, Option.bind_some,
          List.append_nil]
      exact (hclosing.trans (hsealed _)).trans (.bookkeep rfl)

end Endpoint

end Fastwire
