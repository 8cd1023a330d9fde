/-
# What is drained is passed on

`deliver` removes a run of slots from the reorder buffer and returns their
payloads. The pipeline passes them to the application, except after a fragment
that does not complete its message: there the result of `deliver` is ignored.
What exactly is lost then is stated against the trace, which records what was
put into each slot.

A placeholder that was buffered comes out as an empty message. It is not a
payload anybody handed in, so it is counted separately here.
-/

import Fastwire.Endpoint.Invariant

namespace Fastwire

open Lib

/-- Two ways to read a list of slots, where the second may turn what the first
skips into a default value. -/
theorem filterMap_perm_append_replicate {α β : Type*} {f g : α → Option β} {d : β}
    {hole : α → Bool} {l : List α}
    (h : ∀ a ∈ l, g a = f a ∨ hole a = true ∧ f a = none ∧ g a = some d) :
    ∃ extra ≤ l.countP hole, (l.filterMap g).Perm (l.filterMap f ++ List.replicate extra d) := by
  induction l with
  | nil => exact ⟨0, by simp, by simp⟩
  | cons a l ih =>
      obtain ⟨extra, hle, hperm⟩ := ih fun b hb => h b (List.mem_cons_of_mem _ hb)
      rcases h a List.mem_cons_self with hsame | ⟨hhole, hnone, hsome⟩
      · refine ⟨extra, hle.trans (by simp [List.countP_cons]), ?_⟩
        rw [List.filterMap_cons, List.filterMap_cons, hsame]
        cases f a with
        | none => exact hperm
        | some b => exact hperm.cons b
      · refine ⟨extra + 1, by simp [hhole, hle], ?_⟩
        rw [List.filterMap_cons_none hnone, List.filterMap_cons_some hsome, List.replicate_succ]
        exact (hperm.cons d).trans List.perm_middle.symm

/-- The result of `deliver`, slot by slot. -/
theorem Channel.OrderedDelivery.out_eq {next next' seq : ℕ} {buffer buffer' : ReorderBuffer}
    {payload : Slice} {out : List Slice}
    (h : OrderedDelivery next buffer seq payload next' buffer' out) :
    out = (List.range' next out.length).map fun k =>
      ((buffer.insert seq payload).lookup k).join := by
  apply List.ext_getElem?
  intro i
  by_cases hi : i < out.length
  · have hslot := h.drained i out[i] (by simp [hi])
    rw [List.getElem?_map, List.getElem?_range' hi, Nat.one_mul, Option.map_some, hslot]
    simp [hi]
  · simp [hi]

namespace Endpoint

variable {hist : List (Endpoint × Act)} {e e' : Endpoint} {id : UInt8} {ch ch' : Channel}
  {now : ℤ} {data : Bytes}

/-- The slot was buffered before the step or filled by it, and is empty
afterwards. -/
def Drained (e e' : Endpoint) (id : UInt8) (ch ch' : Channel) (seq : ℕ) : Prop :=
  (seq ∈ ch.reorderBuffer ∨
    payloadAt e.trace id seq = none ∧ payloadAt e'.trace id seq ≠ none) ∧
    seq ∉ ch'.reorderBuffer

def newMessages (e e' : Endpoint) (id : UInt8) : List Bytes :=
  (delivered e'.trace id).drop (delivered e.trace id).length

/-- Every payload in a drained slot is passed to the application exactly once;
besides, each drained placeholder may show up as an empty message. -/
def PassedOnce (e e' : Endpoint) (id : UInt8) (ch ch' : Channel) : Prop :=
  ∃ slots : List ℕ, slots.Nodup ∧ (∀ seq, seq ∈ slots ↔ Drained e e' id ch ch' seq) ∧
    ∃ extra ≤ slots.countP (fun seq => payloadAt e'.trace id seq = some none),
      (newMessages e e' id).Perm
        (slots.filterMap (fun seq => (payloadAt e'.trace id seq).join) ++
          List.replicate extra [])

/-- The packet is an accepted fragment that completes nothing, it is the one the
channel waits for, and somewhere in the unbroken run of buffered slots behind it
is a payload. -/
def DropsDrained (e : Endpoint) (now : ℤ) (data : Bytes) (id : UInt8) : Prop :=
  ∃ hdr body ch, e.conn.acceptedPacket data = some (hdr, body, ch) ∧ hdr.channel = id ∧
    (e.conn.reassemble now hdr body).2 = .ok (none, false) ∧
    hdr.sequence.toNat = ch.recvNextDeliver ∧
    ∃ seq message, payloadAt e.trace id seq = some (some message) ∧ ch.recvNextDeliver < seq ∧
      ∀ q, ch.recvNextDeliver < q → q ≤ seq → q ∈ ch.reorderBuffer

/-- The same for the packet that is known to be accepted. -/
theorem dropsDrained_iff {data : Bytes} {hdr : PacketHeader} {body : Bytes} {k : Channel}
    (hpacket : e.conn.acceptedPacket data = some (hdr, body, k)) :
    DropsDrained e now data id ↔ hdr.channel = id ∧
      (e.conn.reassemble now hdr body).2 = .ok (none, false) ∧
      hdr.sequence.toNat = k.recvNextDeliver ∧
      ∃ seq message, payloadAt e.trace id seq = some (some message) ∧ k.recvNextDeliver < seq ∧
        ∀ q, k.recvNextDeliver < q → q ≤ seq → q ∈ k.reorderBuffer := by
  simp only [DropsDrained, hpacket, Option.some.injEq, Prod.mk.injEq]
  constructor
  · rintro ⟨_, _, _, ⟨rfl, rfl, rfl⟩, hrest⟩
    exact hrest
  · intro hrest
    exact ⟨hdr, body, k, ⟨rfl, rfl, rfl⟩, hrest⟩

/-- Nothing is drained by a step that does not touch the channel. -/
theorem passedOnce_of_eq (hbuf : ch'.reorderBuffer = ch.reorderBuffer)
    (hpay : ∀ seq, payloadAt e'.trace id seq = payloadAt e.trace id seq)
    (hdel : delivered e'.trace id = delivered e.trace id) : PassedOnce e e' id ch ch' := by
  refine ⟨[], List.nodup_nil, ?_, 0, Nat.zero_le _, ?_⟩
  · intro seq
    simp only [List.not_mem_nil, Drained, hbuf, hpay, false_iff, not_and, not_not]
    rintro (hmem | ⟨hnone, hsome⟩)
    · exact hmem
    · exact absurd hnone hsome
  · simp [newMessages, hdel]

/-- Only an incomplete fragment is delivered without passing on the result. -/
theorem payload_eq_none_of_not_emit {c : Connection} {hdr : PacketHeader} {body : Bytes}
    {payload : Slice} (hres : (c.reassemble now hdr body).2 = .ok (payload, false)) :
    payload = none := by
  rw [Connection.reassemble] at hres
  repeat' split at hres
  all_goals simp_all

section Accepting

variable {hdr : PacketHeader} {body : Bytes} {acks events : List Event}
  {ps : List PendingPacket} {n : ℤ} {payload : Slice} {emit : Bool} {out : List Slice}
  (hinv : ReceiveInv e.trace hdr.channel ch)
  (hacc : e.conn.Accepting now hdr body ch acks ps n e'.conn ch' events)
  (htrace : e'.trace = e.trace ++ events) (hmode : ch.mode = .reliableOrdered)
  (hres : (e.conn.reassemble now hdr body).2 = .ok (payload, emit))
  (hord : Channel.OrderedDelivery ch.recvNextDeliver ch.reorderBuffer hdr.sequence.toNat payload
    ch'.recvNextDeliver ch'.reorderBuffer out)

include hinv hacc htrace hres hord

/-- The drained slots are the run that starts at `recvNextDeliver`. -/
theorem mem_range_iff_drained (seq : ℕ) :
    seq ∈ List.range' ch.recvNextDeliver out.length ↔ Drained e e' hdr.channel ch ch' seq := by
  have hfilled : payloadAt e.trace hdr.channel seq = none ∧
      payloadAt e'.trace hdr.channel seq ≠ none ↔ seq = hdr.sequence.toNat := by
    rw [htrace, hinv.payloadAt_accepting hacc hres]
    by_cases hseq : seq = hdr.sequence.toNat
    · have hnone : payloadAt e.trace hdr.channel hdr.sequence.toNat = none := by
        by_contra hsome
        obtain ⟨p, hp⟩ := Option.ne_none_iff_exists'.mp hsome
        exact (hinv.fresh_number hacc).1 (hinv.handed_accepted _ p hp)
      simp [hseq, hnone]
    · simp only [hseq, ↓reduceIte, ne_eq, iff_false, not_and, not_not]
      exact id
  rw [Drained, hfilled, hord.mem_iff, List.mem_range'_1]
  constructor
  · intro hin
    have hslot := hord.mem_of_lt (i := seq - ch.recvNextDeliver) (by omega)
    rw [Nat.add_sub_of_le hin.1] at hslot
    exact ⟨hslot.symm, fun hout => hout.1 hin⟩
  · rintro ⟨hslot, hgone⟩
    by_contra hout
    exact hgone ⟨hout, hslot.symm⟩

/-- In the slots of the run, what comes out is what was handed in, or an empty
message for a placeholder. -/
theorem emitted_eq (hmode : ch.mode = .reliableOrdered) {seq : ℕ}
    (hseq : seq ∈ List.range' ch.recvNextDeliver out.length) :
    ((ch.reorderBuffer.insert hdr.sequence.toNat payload).lookup seq).join =
        (payloadAt e'.trace hdr.channel seq).join ∨
      (decide (payloadAt e'.trace hdr.channel seq = some none)) = true ∧
        (payloadAt e'.trace hdr.channel seq).join = none ∧
        ((ch.reorderBuffer.insert hdr.sequence.toNat payload).lookup seq).join = some [] := by
  rw [htrace, hinv.payloadAt_accepting hacc hres, Table.lookup_insert_eq]
  rw [List.mem_range'_1] at hseq
  have hslot := hord.mem_of_lt (i := seq - ch.recvNextDeliver) (by omega)
  rw [Nat.add_sub_of_le hseq.1] at hslot
  by_cases hhere : seq = hdr.sequence.toNat
  · exact .inl (by simp [hhere])
  · obtain ⟨v, hv⟩ := Option.isSome_iff_exists.mp
      (AList.lookup_isSome.mpr (hslot.resolve_left hhere))
    obtain ⟨p, hp, rfl⟩ := hinv.stored hmode seq v hv
    rw [if_neg hhere, if_neg hhere, hv, hp]
    cases p with
    | none => exact .inr ⟨by simp, rfl, rfl⟩
    | some message => exact .inl rfl

/-- If the result of `deliver` is passed on, nothing is lost. -/
theorem passedOnce_of_emit (hmode : ch.mode = .reliableOrdered)
    (hmsgs : newMessages e e' hdr.channel = out.filterMap fun m => m) :
    PassedOnce e e' hdr.channel ch ch' := by
  obtain ⟨extra, hle, hperm⟩ := filterMap_perm_append_replicate fun seq hseq =>
    emitted_eq hinv hacc htrace hres hord hmode hseq
  refine ⟨_, List.nodup_range', mem_range_iff_drained hinv hacc htrace hres hord, extra, hle, ?_⟩
  rw [hmsgs, hord.out_eq, List.filterMap_map]
  simpa only [List.length_map, List.length_range', Function.comp_def] using hperm

/-- If it is ignored, everything in the drained slots is lost. -/
theorem passedOnce_iff_of_ignored (hmode : ch.mode = .reliableOrdered) (hpay : payload = none)
    (hmsgs : newMessages e e' hdr.channel = []) :
    PassedOnce e e' hdr.channel ch ch' ↔
      ¬ (hdr.sequence.toNat = ch.recvNextDeliver ∧
        ∃ seq message, payloadAt e.trace hdr.channel seq = some (some message) ∧
          ch.recvNextDeliver < seq ∧
          ∀ q, ch.recvNextDeliver < q → q ≤ seq → q ∈ ch.reorderBuffer) := by
  have hslots := hinv.slots hmode
  have hpayload := hinv.payloadAt_accepting hacc hres
  rw [← htrace] at hpayload
  constructor
  · rintro ⟨slots, -, hmem, extra, -, hperm⟩ ⟨hhere, seq, message, hseq, hlt, hrun⟩
    -- the slot is in the run, so its message should have come out
    have hdrained : Drained e e' hdr.channel ch ch' seq := by
      rw [← mem_range_iff_drained hinv hacc htrace hres hord, List.mem_range'_1]
      refine ⟨hlt.le, (hord.lt_iff ?_).mpr ?_⟩
      · exact hinv.accepted_lt seq (hinv.handed_accepted seq _ hseq)
      · intro q hle hq
        rcases Nat.eq_or_lt_of_le hle with heq | hgt
        · exact .inl (heq.symm.trans hhere.symm)
        · exact .inr (hrun q hgt hq)
    have hmessage : (payloadAt e'.trace hdr.channel seq).join = some message := by
      rw [hpayload, if_neg (by omega), hseq]
      rfl
    have hin : message ∈ slots.filterMap fun seq => (payloadAt e'.trace hdr.channel seq).join :=
      List.mem_filterMap.mpr ⟨seq, (hmem seq).mpr hdrained, hmessage⟩
    rw [hmsgs] at hperm
    have hnil := hperm.symm.eq_nil
    rw [List.append_eq_nil_iff] at hnil
    rw [hnil.1] at hin
    cases hin
  · intro hnone
    refine ⟨_, List.nodup_range', mem_range_iff_drained hinv hacc htrace hres hord, 0,
      Nat.zero_le _, ?_⟩
    rw [hmsgs]
    have hnothing : (List.range' ch.recvNextDeliver out.length).filterMap
        (fun seq => (payloadAt e'.trace hdr.channel seq).join) = [] := by
      rw [List.filterMap_eq_nil_iff]
      intro seq hseq
      rw [List.mem_range'_1] at hseq
      by_contra hsome
      obtain ⟨message, hmessage⟩ := Option.ne_none_iff_exists'.mp hsome
      have hslot : ∀ q, ch.recvNextDeliver ≤ q → q ≤ seq →
          q = hdr.sequence.toNat ∨ q ∈ ch.reorderBuffer :=
        (hord.lt_iff (by have := hord.within; omega)).mp hseq.2
      -- the run starts at the slot of this packet
      have hhere : ch.recvNextDeliver = hdr.sequence.toNat :=
        (hslot _ (Nat.le_refl _) hseq.1).resolve_right hslots.next_notMem
      have hne : seq ≠ hdr.sequence.toNat := by
        intro heq
        rw [hpayload, if_pos heq, hpay] at hmessage
        cases hmessage
      refine hnone ⟨hhere.symm, seq, message, ?_, by omega, ?_⟩
      · rw [hpayload, if_neg hne] at hmessage
        exact Option.join_eq_some_iff.mp hmessage
      · intro q hgt hle
        exact (hslot q hgt.le hle).resolve_left (by omega)
    rw [hnothing]
    exact List.Perm.refl _

end Accepting

/-- **Nothing drained is dropped**, except by an incomplete fragment that fills
the gap in front of buffered payloads. -/
theorem passedOnce_iff (hrun : system.Run hist e) (hstep : e.step (.packet now data) = some e')
    (hdata : e.conn.disconnects data = false) (hch : e.conn.channel id = some ch)
    (hch' : e'.conn.channel id = some ch') (hmode : ch.mode = .reliableOrdered) :
    PassedOnce e e' id ch ch' ↔ ¬ DropsDrained e now data id := by
  have hinv := sound_of_run hrun id ch hch
  rcases step_cases hstep with hidle | hacc
  · obtain ⟨k, hk, hsame⟩ := hidle.exists_channel hch'
    obtain rfl : ch = k := by simpa [hch] using hk
    have hkept : ch'.reorderBuffer = ch.reorderBuffer := by
      have htorn : e.tearsDown (.packet now data) = false := hdata
      rw [Channel.reorderBuffer, hsame.buffer_eq, htorn]
      rfl
    refine iff_of_true (passedOnce_of_eq hkept (hidle.payloadAt_eq id) (hidle.delivered_eq id)) ?_
    rintro ⟨hdr, body, k, hpacket, -⟩
    rw [hidle.refused now data rfl] at hpacket
    cases hpacket
  obtain ⟨now', data', hdr, body, k, acks, ps, n, k', events, hact, hpacket, hacc, heq⟩ := hacc
  cases hact
  have htrace : e'.trace = e.trace ++ events := by rw [heq]
  rw [dropsDrained_iff hpacket]
  by_cases hid : hdr.channel = id
  · subst hid
    obtain rfl : ch = k := by simpa [hch] using hacc.channel_eq
    obtain rfl : ch' = k' := by simpa [hch'] using hacc.channel_eq'
    have hnew : newMessages e e' hdr.channel = delivered events hdr.channel := by
      rw [newMessages, htrace, delivered_append, List.drop_left]
    cases hres : (e.conn.reassemble now hdr body).2 with
    | error err =>
        refine iff_of_true (passedOnce_of_eq ?_ ?_ ?_) (by simp)
        · rcases hacc.outcome_cases with ⟨_, -, rfl, -⟩ | ⟨payload, emit, msgs, hok, -, -⟩
          · simp [Channel.reorderBuffer]
          · rw [hres] at hok
            cases hok
        · intro seq
          rw [htrace, payloadAt_append, hacc.payloadAt_error hres, Option.or_none]
        · rw [htrace, delivered_append, hacc.delivered_error hres, List.append_nil]
    | ok result =>
        obtain ⟨payload, emit⟩ := result
        obtain ⟨out, hord, -, -, hev⟩ := hinv.ordered_delivery hacc hmode hres
        rw [hev, Connection.Accepting.delivered_ok hacc.acks_quiet] at hnew
        cases emit with
        | true =>
            exact iff_of_true (passedOnce_of_emit hinv hacc htrace hres hord hmode
              (by simpa using hnew))
              (by simp)
        | false =>
            have hpay := payload_eq_none_of_not_emit hres
            rw [passedOnce_iff_of_ignored hinv hacc htrace hres hord hmode hpay
              (by simpa using hnew)]
            simp [hpay]
  · obtain ⟨⟨k₁, hk₁, hsame⟩, -, hpay, hdel⟩ := accepting_other hacc (Ne.symm hid) hch'
    obtain rfl : ch = k₁ := by simpa [hch] using hk₁
    refine iff_of_true (passedOnce_of_eq ?_ ?_ ?_) (fun h => hid h.1)
    · rw [Channel.reorderBuffer, hsame.buffer_eq]
      rfl
    · rw [htrace]
      exact hpay
    · rw [htrace]
      exact hdel

/-- A second packet that arrived early, for the examples below. -/
def earlyPacket : Bytes := [0, 0, 2, 0, 0, 0, 0, 0, 66]

/-- The packet in front of it, with a message of its own. -/
def gapPacket : Bytes := [0, 0, 1, 0, 0, 0, 0, 0, 65]

/-- The packet in front of it, with the first of two fragments. -/
def gapFragment : Bytes := [1, 0, 1, 0, 0, 0, 0, 0, 0, 1, 0, 2, 0, 65]

/-- A message fills the gap. -/
theorem passedOnce_iff_gap :
    ∃ hist e e' ch ch', system.Run hist e ∧ e.step (.packet 0 gapPacket) = some e' ∧
      e.conn.channel 0 = some ch ∧ e'.conn.channel 0 = some ch' ∧
      (PassedOnce e e' 0 ch ch' ↔ ¬ DropsDrained e 0 gapPacket 0) := by
  obtain ⟨hist, e, hrun, hres⟩ := exists_run (plainInput [(.reliableOrdered, 0)]) 0
    [.packet 0 earlyPacket]
    (fun e => e.conn.disconnects gapPacket = false ∧
      ((e.conn.channel 0).any fun ch => ch.mode = .reliableOrdered) ∧
      ((e.step (.packet 0 gapPacket)).bind fun e' => e'.conn.channel 0).isSome)
    (by decide +kernel)
  obtain ⟨hdata, hany, hsome⟩ : _ ∧ _ ∧ _ := by simpa only [decide_eq_true_eq] using hres
  obtain ⟨ch, hch, hmode⟩ := (Option.any_eq_true ..).mp hany
  obtain ⟨ch', hch'⟩ := Option.isSome_iff_exists.mp hsome
  obtain ⟨e', hstep, hch'⟩ := Option.bind_eq_some_iff.mp hch'
  exact ⟨hist, e, e', ch, ch', hrun, hstep, hch, hch',
    passedOnce_iff hrun hstep hdata hch hch' (by simpa using hmode)⟩

/-- A fragment fills the gap: the buffered message leaves the buffer and is not
passed on. -/
theorem gap_fragment_drops_message :
    ∃ hist e e' ch ch', system.Run hist e ∧ e.step (.packet 0 gapFragment) = some e' ∧
      e.conn.channel 0 = some ch ∧ e'.conn.channel 0 = some ch' ∧ ch.mode = .reliableOrdered ∧
      payloadAt e.trace 0 2 = some (some [66]) ∧ 2 ∈ ch.reorderBuffer ∧ 2 ∉ ch'.reorderBuffer ∧
      delivered e'.trace 0 = [] := by
  obtain ⟨hist, e, hrun, hres⟩ := exists_run (plainInput [(.reliableOrdered, 0)]) 0
    [.packet 0 earlyPacket]
    (fun e => payloadAt e.trace 0 2 = some (some [66]) ∧
      ((e.conn.channel 0).any fun ch => ch.mode = .reliableOrdered ∧ 2 ∈ ch.reorderBuffer) ∧
      (e.step (.packet 0 gapFragment)).any fun e' => delivered e'.trace 0 = [] ∧
        (e'.conn.channel 0).any fun ch' => 2 ∉ ch'.reorderBuffer)
    (by decide +kernel)
  obtain ⟨hpay, hbefore, hafter⟩ : _ ∧ _ ∧ _ := by simpa only [decide_eq_true_eq] using hres
  obtain ⟨ch, hch, hin⟩ := (Option.any_eq_true ..).mp hbefore
  obtain ⟨e', hstep, hout⟩ := (Option.any_eq_true ..).mp hafter
  obtain ⟨hdel, hany⟩ : _ ∧ _ := by simpa only [decide_eq_true_eq] using hout
  obtain ⟨ch', hch', hgone⟩ := (Option.any_eq_true ..).mp hany
  obtain ⟨hmode, hmem⟩ : _ ∧ _ := by simpa only [decide_eq_true_eq] using hin
  exact ⟨hist, e, e', ch, ch', hrun, hstep, hch, hch', hmode, hpay, hmem,
    by simpa using hgone, hdel⟩

end Endpoint

end Fastwire
