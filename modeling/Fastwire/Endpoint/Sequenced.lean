/-
# The newest packet

A sequenced channel passes on what is newer than everything before. What counts
as "before" is what was handed to `deliver`, placeholders included: `lastRecvSeq`
is the highest number that `deliver` has been called with.
-/

import Fastwire.Endpoint.Invariant

namespace Fastwire

open Lib

namespace Channel

theorem deliver_sequenced {ch : Channel} (hmode : ch.mode = .unreliableSequenced) (seq : ℕ)
    (payload : Slice) :
    ch.deliver seq payload = .ok ({ ch with lastRecvSeq := max ch.lastRecvSeq seq },
      if ch.lastRecvSeq < seq then [payload] else []) := by
  have hdeliver : ch.deliver seq payload = .ok (ch.deliverUnreliableSequenced seq payload) := by
    rw [deliver, hmode]
  rw [hdeliver, deliverUnreliableSequenced]
  by_cases hnew : ch.lastRecvSeq < seq
  · rw [if_pos hnew, if_pos hnew, max_eq_right hnew.le]
  · rw [if_neg hnew, if_neg hnew, max_eq_left (Nat.le_of_not_lt hnew)]

end Channel

namespace Connection.Accepting

variable {c c' : Connection} {now : ℤ} {hdr : PacketHeader} {body : Bytes} {ch ch' : Channel}
  {acks events : List Event} {ps : List PendingPacket} {n : ℤ}

/-- A failed reassembly does not count. -/
theorem last_error (h : Accepting c now hdr body ch acks ps n c' ch' events) {err : Err}
    (hres : (c.reassemble now hdr body).2 = .error err) : ch'.lastRecvSeq = ch.lastRecvSeq := by
  rcases h.outcome_cases with ⟨-, -, rfl, -⟩ | ⟨payload, emit, msgs, hok, -, -⟩
  · exact ch.recordReceive_lastRecvSeq hdr.sequence.toNat
  · rw [hres] at hok
    cases hok

/-- An accepted packet on a sequenced channel. -/
theorem sequenced_ok (h : Accepting c now hdr body ch acks ps n c' ch' events)
    (hmode : ch.mode = .unreliableSequenced) {payload : Slice} {emit : Bool}
    (hres : (c.reassemble now hdr body).2 = .ok (payload, emit)) :
    ch'.lastRecvSeq = max ch.lastRecvSeq hdr.sequence.toNat ∧
      delivered events hdr.channel =
        if emit = true ∧ ch.lastRecvSeq < hdr.sequence.toNat then payload.toList else [] := by
  rcases h.outcome_cases with ⟨err, herr, -, -⟩ | ⟨payload', emit', msgs, hok, hdeliver, rfl⟩
  · rw [hres] at herr
    cases herr
  obtain ⟨rfl, rfl⟩ : payload = payload' ∧ emit = emit' := by simpa [hres] using hok
  have hmode' : ((ch.recordReceive hdr.sequence.toNat).1.withPending ps n).mode =
      .unreliableSequenced := by
    simpa using hmode
  have hlast : ((ch.recordReceive hdr.sequence.toNat).1.withPending ps n).lastRecvSeq =
      ch.lastRecvSeq := ch.recordReceive_lastRecvSeq hdr.sequence.toNat
  rw [Channel.deliver_sequenced hmode', hlast, Except.ok.injEq, Prod.mk.injEq] at hdeliver
  obtain ⟨rfl, rfl⟩ := hdeliver
  refine ⟨rfl, ?_⟩
  rw [delivered_ok h.acks_quiet]
  cases emit with
  | false => simp
  | true =>
      by_cases hnew : ch.lastRecvSeq < hdr.sequence.toNat
      · cases payload <;> simp [hnew]
      · simp [hnew]

end Connection.Accepting

/-- A sequenced channel never ends the process. -/
theorem Connection.processPacket_sequenced {c : Connection} {data : Bytes} {hdr : PacketHeader}
    {body : Bytes} {ch : Channel} (hpacket : c.acceptedPacket data = some (hdr, body, ch))
    (hmode : ch.mode = .unreliableSequenced) (now : ℤ) :
    ∃ acks ps n c' ch' events, c.processPacket now data = .ok (c', events) ∧
      Accepting c now hdr body ch acks ps n c' ch' events := by
  obtain ⟨hopen, hch, hdata, hfresh⟩ := acceptedPacket_eq_some_iff.mp hpacket
  obtain ⟨acks, ps, n, hout⟩ := processPacket_accepted hopen hdata hch hfresh now
  refine ⟨acks, ps, n, ?_⟩
  split at hout
  · obtain ⟨c', ch', events, hok, hacc⟩ := hout
    exact ⟨c', ch', events, hok, hacc⟩
  · have hmode' : ((ch.recordReceive hdr.sequence.toNat).1.withPending ps n).mode =
        .unreliableSequenced := by
      simpa using hmode
    rw [Channel.deliver_sequenced hmode'] at hout
    obtain ⟨c', events, hok, hacc⟩ := hout
    exact ⟨c', _, events, hok, hacc⟩

namespace Endpoint

variable {e e' : Endpoint} {id : UInt8} {ch ch' : Channel}

/-- `lastRecvSeq` is the highest number that was handed to `deliver`. -/
structure Latest (trace : List Event) (id : UInt8) (ch : Channel) : Prop where
  handed_le : ∀ seq payload, payloadAt trace id seq = some payload → seq ≤ ch.lastRecvSeq
  handed_last : ch.lastRecvSeq = 0 ∨ ∃ payload, payloadAt trace id ch.lastRecvSeq = some payload

theorem Latest.congr {trace trace' : List Event} (h : Latest trace id ch)
    (hlast : ch'.lastRecvSeq = ch.lastRecvSeq)
    (hpay : ∀ seq, payloadAt trace' id seq = payloadAt trace id seq) : Latest trace' id ch' := by
  refine ⟨fun seq payload => ?_, ?_⟩
  · rw [hpay, hlast]
    exact h.handed_le seq payload
  · rw [hlast, hpay]
    exact h.handed_last

/-- An accepted packet on a sequenced channel. -/
theorem Latest.accepting {now : ℤ} {hdr : PacketHeader} {body : Bytes} {acks events : List Event}
    {ps : List PendingPacket} {n : ℤ} (h : Latest e.trace hdr.channel ch)
    (hinv : ReceiveInv e.trace hdr.channel ch)
    (hacc : e.conn.Accepting now hdr body ch acks ps n e'.conn ch' events)
    (hmode : ch.mode = .unreliableSequenced) : Latest (e.trace ++ events) hdr.channel ch' := by
  cases hres : (e.conn.reassemble now hdr body).2 with
  | error err =>
      refine h.congr (hacc.last_error hres) fun seq => ?_
      rw [payloadAt_append, hacc.payloadAt_error hres, Option.or_none]
  | ok result =>
      obtain ⟨payload, emit⟩ := result
      have hlast := (hacc.sequenced_ok hmode hres).1
      refine ⟨fun seq p hp => ?_, ?_⟩
      · rw [hinv.payloadAt_accepting hacc hres] at hp
        rw [hlast]
        split at hp
        · rename_i heq
          exact heq ▸ le_max_right _ _
        · exact (h.handed_le seq p hp).trans (le_max_left _ _)
      · right
        rw [hlast, hinv.payloadAt_accepting hacc hres]
        split
        · exact ⟨payload, rfl⟩
        · rename_i hne
          -- the highest number is the old one
          have hold : max ch.lastRecvSeq hdr.sequence.toNat = ch.lastRecvSeq :=
            (max_choice _ _).resolve_right hne
          rw [hold]
          refine h.handed_last.resolve_left fun hzero => hne ?_
          rw [hzero]
          exact max_eq_right (Nat.zero_le _)

/-- **What a sequenced channel remembers**, in every reachable state. -/
theorem latest_of_run {hist : List (Endpoint × Act)} (hrun : system.Run hist e)
    (hch : e.conn.channel id = some ch) (hmode : ch.mode = .unreliableSequenced) :
    Latest e.trace id ch := by
  induction hrun generalizing ch with
  | start starts =>
      obtain ⟨input, now, rfl⟩ := starts
      obtain ⟨mode, streamIndex, window, rfl⟩ := Connection.channel_newConnection input now hch
      refine ⟨fun seq payload hp => ?_, .inl rfl⟩
      cases hp
  | @step hist e e' a prior hstep ih =>
      rcases step_cases hstep with hidle |
        ⟨now, data, hdr, body, k, acks, ps, n, k', events, rfl, hpacket, hacc, heq⟩
      · obtain ⟨k, hk, hsame⟩ := hidle.exists_channel hch
        exact (ih hk (hsame.mode_eq ▸ hmode)).congr hsame.last_eq (hidle.payloadAt_eq id)
      · have htrace : e'.trace = e.trace ++ events := by rw [heq]
        rw [htrace]
        by_cases hid : id = hdr.channel
        · subst hid
          obtain rfl : k' = ch := Option.some.inj (hacc.channel_eq'.symm.trans hch)
          rw [hacc.mode_eq] at hmode
          have hinv := sound_of_run prior hdr.channel k hacc.channel_eq
          exact (ih hacc.channel_eq hmode).accepting hinv hacc hmode
        · obtain ⟨⟨k₀, hk₀, hsame⟩, -, hpay, -⟩ := accepting_other hacc hid hch
          exact (ih hk₀ (hsame.mode_eq ▸ hmode)).congr hsame.last_eq hpay

end Endpoint

end Fastwire
