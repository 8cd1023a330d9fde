/-
# Messages come out in slot order

What an ordered channel passes to the application is read from its slots, in
their order and without repetition. Two things can go wrong with a slot that was
handed a payload: it may be skipped, because a fragment filled the gap in front
of it. And a slot that was handed a placeholder may come out as an empty message,
because the copy that stays in the buffer is not nil any more. The second is
excluded here; then the application sees a part of the slots, in their order.
-/

import Fastwire.Endpoint.Drain
import Fastwire.Lib.Slots

namespace Fastwire

open Lib

/-- The payload in a slot, if it was handed one that is not a placeholder. -/
def messageAt (trace : List Event) (id : UInt8) (seq : ℕ) : Option Bytes :=
  (payloadAt trace id seq).join

/-- The number of slots the channel has passed. The slot after the last one is
0. -/
def Channel.passed (ch : Channel) : ℕ :=
  if ch.recvNextDeliver = 0 then seqLimit - 1 else ch.recvNextDeliver - 1

namespace Endpoint

variable {hist : List (Endpoint × Act)} {e e' : Endpoint} {a : Act} {id : UInt8} {ch ch' : Channel}

/-- The packet is accepted, it is the one the channel waits for, its payload is
passed on, and somewhere in the unbroken run of buffered slots behind it is a
placeholder. -/
def ShowsPlaceholder (e : Endpoint) (id : UInt8) (a : Act) : Prop :=
  ∃ now data hdr body ch payload, a = .packet now data ∧
    e.conn.acceptedPacket data = some (hdr, body, ch) ∧ hdr.channel = id ∧
    (e.conn.reassemble now hdr body).2 = .ok (payload, true) ∧
    hdr.sequence.toNat = ch.recvNextDeliver ∧
    ∃ seq, payloadAt e.trace id seq = some none ∧ ch.recvNextDeliver < seq ∧
      ∀ q, ch.recvNextDeliver < q → q ≤ seq → q ∈ ch.reorderBuffer

/-- Is there a placeholder among the buffered slots? -/
def buffersPlaceholder (e : Endpoint) (id : UInt8) : Bool :=
  (e.conn.channel id).any fun ch => ch.reorderBuffer.keys.any fun seq =>
    payloadAt e.trace id seq = some none

theorem not_showsPlaceholder (h : e.buffersPlaceholder id = false) : ¬ ShowsPlaceholder e id a := by
  rintro ⟨now, data, hdr, body, ch, payload, -, hpacket, rfl, -, -, seq, hpay, hgt, hrun⟩
  obtain ⟨-, hch, -⟩ := Connection.acceptedPacket_eq_some_iff.mp hpacket
  have hkey : seq ∈ ch.reorderBuffer.keys := AList.mem_keys.mp (hrun seq hgt (Nat.le_refl _))
  simp only [buffersPlaceholder, hch, Option.any_some, List.any_eq_false] at h
  exact h seq hkey (decide_eq_true hpay)

/-- The messages passed to the application are read from the slots the channel
has passed. -/
def InOrder (id : UInt8) (e : Endpoint) : Prop :=
  ∀ ch, e.conn.channel id = some ch → ch.mode = .reliableOrdered →
    (delivered e.trace id).Sublist (readSlots (messageAt e.trace id) 1 ch.passed)

/-- Nothing is passed and no message comes out. -/
theorem InOrder.congr (h : InOrder id e) (hch : e.conn.channel id = some ch)
    (hmode : ch.mode = .reliableOrdered) (hnext : ch'.recvNextDeliver = ch.recvNextDeliver)
    (hdel : delivered e'.trace id = delivered e.trace id)
    (hpay : ∀ seq, payloadAt e.trace id seq = none ∨
      payloadAt e.trace id seq = payloadAt e'.trace id seq) :
    (delivered e'.trace id).Sublist (readSlots (messageAt e'.trace id) 1 ch'.passed) := by
  have hpassed : ch'.passed = ch.passed := by rw [Channel.passed, Channel.passed, hnext]
  rw [hdel, hpassed]
  refine (h ch hch hmode).trans (readSlots_sublist fun seq _ _ => ?_)
  rcases hpay seq with hnone | hsame
  · exact .inl (by rw [messageAt, hnone]; rfl)
  · exact .inr (by rw [messageAt, messageAt, hsame])

section Accepting

variable {now : ℤ} {data : Bytes} {hdr : PacketHeader} {body : Bytes} {acks events : List Event}
  {ps : List PendingPacket} {n : ℤ} {payload : Slice} {emit : Bool} {out : List Slice}

/-- A delivery passes as many slots as it returns payloads. -/
theorem passed_add (hslots : Channel.Slots ch.recvNextDeliver ch.reorderBuffer
      (acceptedOn e.trace id)) {seq : ℕ} (hseq : 0 < seq)
    (hord : Channel.OrderedDelivery ch.recvNextDeliver ch.reorderBuffer seq payload
      ch'.recvNextDeliver ch'.reorderBuffer out) :
    ch'.passed = ch.passed + out.length ∧
      (0 < out.length → 1 + ch.passed = ch.recvNextDeliver) := by
  have hwithin := hord.within
  have hnext := hord.next_eq
  have hlt := hslots.next_lt
  rw [Channel.passed, Channel.passed]
  by_cases hzero : ch.recvNextDeliver = 0
  · -- slot 0 is never filled
    have hnone : out.length = 0 := by
      by_contra hsome
      rcases hord.mem_of_lt (i := 0) (by omega) with heq | hmem
      · omega
      · have hpos := (hslots.range _ (hslots.buffered _ hmem)).1
        omega
    rw [hzero, hnone, Nat.add_zero, Nat.zero_mod] at hnext
    simp [hzero, hnext, hnone]
  · refine ⟨?_, fun _ => by rw [if_neg hzero]; omega⟩
    rw [if_neg hzero]
    by_cases hreach : ch.recvNextDeliver + out.length = Channel.seqLimit
    · rw [hreach, Nat.mod_self] at hnext
      rw [if_pos hnext]
      omega
    · rw [Nat.mod_eq_of_lt (by omega)] at hnext
      rw [if_neg (by omega)]
      omega

section

variable (hinv : ReceiveInv e.trace hdr.channel ch)
  (hpacket : e.conn.acceptedPacket data = some (hdr, body, ch))
  (hacc : e.conn.Accepting now hdr body ch acks ps n e'.conn ch' events)
  (htrace : e'.trace = e.trace ++ events) (hmode : ch.mode = .reliableOrdered)
  (hguard : ¬ ShowsPlaceholder e hdr.channel (.packet now data))

include hinv hpacket hacc htrace hmode hguard

/-- What comes out is what was handed in, slot by slot. -/
theorem out_eq_readSlots
    (hres : (e.conn.reassemble now hdr body).2 = .ok (payload, true))
    (hord : Channel.OrderedDelivery ch.recvNextDeliver ch.reorderBuffer hdr.sequence.toNat payload
      ch'.recvNextDeliver ch'.reorderBuffer out) :
    out.filterMap (fun msg => msg) =
      readSlots (messageAt e'.trace hdr.channel) ch.recvNextDeliver out.length := by
  have hslots := hinv.slots hmode
  have hread : ∀ seq ∈ List.range' ch.recvNextDeliver out.length,
      ((ch.reorderBuffer.insert hdr.sequence.toNat payload).lookup seq).join =
        messageAt e'.trace hdr.channel seq := by
    intro seq hseq
    rcases emitted_eq hinv hacc htrace hres hord hmode hseq with hsame | ⟨hhole, hnone, hempty⟩
    · exact hsame
    exfalso
    rw [List.mem_range'_1] at hseq
    have hslot : ∀ q, ch.recvNextDeliver ≤ q → q ≤ seq →
        q = hdr.sequence.toNat ∨ q ∈ ch.reorderBuffer :=
      (hord.lt_iff (by have := hord.within; omega)).mp hseq.2
    have hhere : ch.recvNextDeliver = hdr.sequence.toNat :=
      (hslot _ (Nat.le_refl _) hseq.1).resolve_right hslots.next_notMem
    have hpay := of_decide_eq_true hhole
    rw [htrace, hinv.payloadAt_accepting hacc hres] at hpay
    by_cases hself : seq = hdr.sequence.toNat
    · -- the payload of this very packet is not empty
      rw [if_pos hself] at hpay
      rw [hself, Table.lookup_insert_eq, if_pos rfl, hpay] at hempty
      cases hempty
    · rw [if_neg hself] at hpay
      refine hguard ⟨now, data, hdr, body, ch, payload, rfl, hpacket, rfl, hres, hhere.symm, seq,
        hpay, by omega, fun q hgt hle => ?_⟩
      exact (hslot q hgt.le hle).resolve_left (by omega)
  conv_lhs => rw [hord.out_eq]
  rw [List.filterMap_map]
  exact List.filterMap_congr hread

/-- An accepted packet. -/
theorem InOrder.accepting (h : InOrder hdr.channel e) :
    (delivered e'.trace hdr.channel).Sublist
      (readSlots (messageAt e'.trace hdr.channel) 1 ch'.passed) := by
  cases hres : (e.conn.reassemble now hdr body).2 with
  | error err =>
      have hnext : ch'.recvNextDeliver = ch.recvNextDeliver := by
        rcases hacc.outcome_cases with ⟨_, -, rfl, -⟩ | ⟨payload, emit, msgs, hok, -, -⟩
        · simp
        · rw [hres] at hok
          cases hok
      refine h.congr hacc.channel_eq hmode hnext ?_ fun seq => .inr ?_
      · rw [htrace, delivered_append, hacc.delivered_error hres, List.append_nil]
      · rw [htrace, payloadAt_append, hacc.payloadAt_error hres, Option.or_none]
  | ok result =>
      obtain ⟨payload, emit⟩ := result
      obtain ⟨out, hord, -, -, hev⟩ := hinv.ordered_delivery hacc hmode hres
      obtain ⟨hpassed, hfirst⟩ := passed_add (hinv.slots hmode) (hinv.fresh_number hacc).2.1 hord
      have hold : (delivered e.trace hdr.channel).Sublist
          (readSlots (messageAt e'.trace hdr.channel) 1 ch.passed) := by
        refine (h ch hacc.channel_eq hmode).trans (readSlots_sublist fun seq _ _ => ?_)
        rw [messageAt, messageAt, htrace, hinv.payloadAt_accepting hacc hres]
        by_cases hseq : seq = hdr.sequence.toNat
        · left
          have hnone : payloadAt e.trace hdr.channel hdr.sequence.toNat = none := by
            by_contra hsome
            obtain ⟨p, hp⟩ := Option.ne_none_iff_exists'.mp hsome
            exact (hinv.fresh_number hacc).1 (hinv.handed_accepted _ p hp)
          rw [hseq, hnone]
          rfl
        · exact .inr (by rw [if_neg hseq])
      have hnew : (delivered events hdr.channel).Sublist
          (readSlots (messageAt e'.trace hdr.channel) (1 + ch.passed) out.length) := by
        rw [hev, Connection.Accepting.delivered_ok hacc.acks_quiet]
        cases emit with
        | false => simp
        | true =>
            rcases Nat.eq_zero_or_pos out.length with hnone | hsome
            · rw [List.length_eq_zero_iff] at hnone
              simp [hnone]
            · rw [hfirst hsome, ← out_eq_readSlots hinv hpacket hacc htrace hmode hguard hres hord]
              simp
      rw [hpassed, readSlots_add, htrace, delivered_append]
      rw [htrace] at hold hnew
      exact hold.append hnew

end

end Accepting

/-- **One step** keeps the messages in order. -/
theorem InOrder.step (h : InOrder id e) (hsound : e.Sound) (hguard : ¬ ShowsPlaceholder e id a)
    (hstep : e.step a = some e') : InOrder id e' := by
  intro ch' hch' hmode'
  rcases step_cases hstep with hidle | hacc
  · obtain ⟨ch, hch, hsame⟩ := hidle.exists_channel hch'
    exact h.congr hch (hsame.mode_eq ▸ hmode') hsame.next_eq (hidle.delivered_eq id) fun seq =>
      .inr (hidle.payloadAt_eq id seq).symm
  obtain ⟨now, data, hdr, body, ch, acks, ps, n, ch₁, events, rfl, hpacket, hacc, heq⟩ := hacc
  have htrace : e'.trace = e.trace ++ events := by rw [heq]
  by_cases hid : id = hdr.channel
  · subst hid
    obtain rfl : ch₁ = ch' := Option.some.inj (hacc.channel_eq'.symm.trans hch')
    exact h.accepting (hsound _ ch hacc.channel_eq) hpacket hacc htrace (hacc.mode_eq ▸ hmode')
      hguard
  · obtain ⟨⟨k, hk, hsame⟩, -, hpay, hdel⟩ := accepting_other hacc hid hch'
    rw [← htrace] at hpay hdel
    exact h.congr hk (hsame.mode_eq ▸ hmode') hsame.next_eq hdel fun seq => .inr (hpay seq).symm

theorem inOrder_start (input : ConnectionInput) (now : ℤ) (id : UInt8) :
    InOrder id (start input now) := by
  intro ch _ _
  exact List.nil_sublist _

end Endpoint

end Fastwire
