/-
# Slots that are accepted and never filled

On an ordered channel an accepted sequence number owns a slot, and everything
behind the slot waits until it is filled. Between accepting and filling there
are early returns. The property that every accepted number has been delivered or
is buffered therefore holds along a run exactly as long as no step takes one of
them; a step that does breaks it for good.
-/

import Fastwire.Endpoint.Invariant
import Mathlib.Data.FinEnum

namespace Fastwire.Endpoint

open Lib

variable {e e' : Endpoint} {a : Act}

/-- Every accepted number of an ordered channel is below `recvNextDeliver` or
buffered. -/
def AllConsumed (e : Endpoint) : Prop :=
  ∀ id ch, e.conn.channel id = some ch → ch.mode = .reliableOrdered →
    Channel.Consumed ch.recvNextDeliver ch.reorderBuffer (acceptedOn e.trace id)

/-- The steps that consume every slot they take: a packet that an ordered
channel accepts passes reassembly without an error and is not the one that
fills the sequence space to its end, and a teardown finds no payload waiting. -/
structure KeepsSlots (e : Endpoint) (a : Act) : Prop where
  packet : ∀ now data, a = .packet now data → ∀ hdr body ch,
    e.conn.acceptedPacket data = some (hdr, body, ch) → ch.mode = .reliableOrdered →
      (∃ result, (e.conn.reassemble now hdr body).2 = .ok result) ∧
        ¬ Channel.Exhausts ch.recvNextDeliver ch.reorderBuffer hdr.sequence.toNat
  teardown : e.tearsDown a = true → ∀ id ch, e.conn.channel id = some ch →
    ch.mode = .reliableOrdered → ∀ seq, seq ∉ ch.reorderBuffer

/-- Quiet steps that tear nothing down always keep the slots. -/
theorem Idle.keepsSlots_iff (h : Idle e a e') :
    KeepsSlots e a ↔ (e.tearsDown a = true → ∀ id ch, e.conn.channel id = some ch →
      ch.mode = .reliableOrdered → ∀ seq, seq ∉ ch.reorderBuffer) := by
  refine ⟨KeepsSlots.teardown, fun hteardown => ⟨?_, hteardown⟩⟩
  intro now data heq hdr body ch hpacket
  rw [h.refused now data heq] at hpacket
  cases hpacket

theorem Idle.allConsumed_iff (h : Idle e a e') (hsound : e.Sound) (hall : e.AllConsumed) :
    e'.AllConsumed ↔ KeepsSlots e a := by
  rw [h.keepsSlots_iff]
  constructor
  · -- what is waiting when the connection is torn down is lost
    intro hall' htorn id ch hch hmode seq hseq
    obtain ⟨ch', hch', hsame⟩ := h.channel id ch hch
    have hslots := (hsound id ch hch).slots hmode
    have hgone : ch'.reorderBuffer = ∅ := by
      rw [Channel.reorderBuffer, hsame.buffer_eq, htorn]
      rfl
    have hplace := hall' id ch' hch' (hsame.mode_eq ▸ hmode) seq
      (h.acceptedOn_eq id ▸ hslots.buffered seq hseq)
    rw [hsame.next_eq, hgone] at hplace
    rcases hplace with hlt | hmem
    · exact absurd (hslots.above seq hseq) (Nat.not_le.mpr hlt)
    · exact absurd hmem (AList.notMem_empty seq)
  · intro hteardown id ch' hch' hmode'
    obtain ⟨ch, hch, hsame⟩ := h.exists_channel hch'
    have hmode : ch.mode = .reliableOrdered := hsame.mode_eq ▸ hmode'
    rw [h.acceptedOn_eq]
    intro seq hseq
    rw [hsame.next_eq]
    rcases hall id ch hch hmode seq hseq with hlt | hmem
    · exact .inl hlt
    · cases htorn : e.tearsDown a with
      | true => exact absurd hmem (hteardown htorn id ch hch hmode seq)
      | false =>
          have hkept : ch'.reorderBuffer = ch.reorderBuffer := by
            rw [Channel.reorderBuffer, hsame.buffer_eq, htorn]
            rfl
          exact .inr (hkept ▸ hmem)

section Accepting

variable {now : ℤ} {data : Bytes} {hdr : PacketHeader} {body : Bytes} {ch ch' : Channel}
  {acks events : List Event} {ps : List PendingPacket} {n : ℤ}

/-- On the channel of an accepted packet. -/
theorem consumed_accepting_iff (hinv : ReceiveInv e.trace hdr.channel ch)
    (hacc : e.conn.Accepting now hdr body ch acks ps n e'.conn ch' events)
    (hmode : ch.mode = .reliableOrdered)
    (hcons : Channel.Consumed ch.recvNextDeliver ch.reorderBuffer
      (acceptedOn e.trace hdr.channel)) :
    Channel.Consumed ch'.recvNextDeliver ch'.reorderBuffer
        (acceptedOn (e.trace ++ events) hdr.channel) ↔
      (∃ result, (e.conn.reassemble now hdr body).2 = .ok result) ∧
        ¬ Channel.Exhausts ch.recvNextDeliver ch.reorderBuffer hdr.sequence.toNat := by
  obtain ⟨hnew, hrange⟩ := hinv.fresh_number hacc
  have hslots := hinv.slots hmode
  rw [ReceiveInv.acceptedOn_accepting hacc]
  cases hres : (e.conn.reassemble now hdr body).2 with
  | error err =>
      -- the number is accepted, and its slot is still empty
      simp only [reduceCtorEq, exists_false, false_and, iff_false]
      intro hcons'
      rcases hacc.outcome_cases with ⟨_, -, rfl, -⟩ | ⟨payload, emit, msgs, hok, -, -⟩
      · rcases hcons' _ (Set.mem_insert _ _) with hlt | hmem
        · simp only [Channel.withPending_recvNextDeliver, Channel.recordReceive_recvNextDeliver]
            at hlt
          exact hnew (hslots.below _ hrange.1 hlt)
        · simp only [Channel.reorderBuffer, Channel.withPending_recvBuffer,
            Channel.recordReceive_recvBuffer] at hmem
          exact hnew (hslots.buffered _ hmem)
      · rw [hres] at hok
        cases hok
  | ok result =>
      obtain ⟨out, hord, -, -, -⟩ := hinv.ordered_delivery hacc hmode hres
      rw [hord.consumed_iff hslots hcons hnew hrange]
      simp

/-- On the other channels nothing happens. -/
theorem consumed_others (hacc : e.conn.Accepting now hdr body ch acks ps n e'.conn ch' events)
    (hall : e.AllConsumed) {id : UInt8} (hid : id ≠ hdr.channel) {k' : Channel}
    (hk' : e'.conn.channel id = some k') (hmode : k'.mode = .reliableOrdered) :
    Channel.Consumed k'.recvNextDeliver k'.reorderBuffer (acceptedOn (e.trace ++ events) id) := by
  obtain ⟨⟨k, hk, hsame⟩, haccepted, -, -⟩ := accepting_other hacc hid hk'
  have hbuffer : k'.reorderBuffer = k.reorderBuffer := by
    rw [Channel.reorderBuffer, hsame.buffer_eq]
    rfl
  rw [haccepted, hbuffer, hsame.next_eq]
  exact hall id k hk (hsame.mode_eq ▸ hmode)

end Accepting

/-- One step out of a state where everything is consumed. -/
theorem allConsumed_step_iff (hsound : e.Sound) (hall : e.AllConsumed)
    (hstep : e.step a = some e') : e'.AllConsumed ↔ KeepsSlots e a := by
  rcases step_cases hstep with hidle | hacc
  · exact hidle.allConsumed_iff hsound hall
  obtain ⟨now, data, hdr, body, ch, acks, ps, n, ch', events, rfl, hpacket, hacc, heq⟩ := hacc
  have htrace : e'.trace = e.trace ++ events := by rw [heq]
  have hinv := hsound _ ch hacc.channel_eq
  constructor
  · intro hall'
    refine ⟨?_, ?_⟩
    · intro now' data' hact hdr' body' k hk hmode
      cases hact
      obtain ⟨rfl, rfl, rfl⟩ : hdr = hdr' ∧ body = body' ∧ ch = k := by simpa [hpacket] using hk
      have hcons := hall' _ ch' hacc.channel_eq' (hacc.mode_eq.trans hmode)
      rw [htrace] at hcons
      exact (consumed_accepting_iff hinv hacc hmode (hall _ ch hacc.channel_eq hmode)).mp hcons
    · intro htorn
      have hkept : e.conn.disconnects data = true := htorn
      rw [Connection.disconnects_of_acceptedPacket hpacket] at hkept
      cases hkept
  · intro hkeeps id k' hk' hmode'
    rw [htrace]
    by_cases hid : id = hdr.channel
    · subst hid
      obtain rfl : ch' = k' := by simpa [hacc.channel_eq'] using hk'
      have hmode : ch.mode = .reliableOrdered := hacc.mode_eq.symm.trans hmode'
      exact (consumed_accepting_iff hinv hacc hmode (hall _ ch hacc.channel_eq hmode)).mpr
        (hkeeps.packet now data rfl hdr body ch hpacket hmode)
    · exact consumed_others hacc hall hid hk' hmode'

/-- **No stalled slot.** All accepted numbers were consumed in every state of a
run exactly when every step of it kept the slots. -/
theorem always_allConsumed_iff {hist : List (Endpoint × Act)} (hrun : system.Run hist e) :
    System.Always AllConsumed hist e ↔ System.Guarded KeepsSlots hist := by
  refine hrun.always_iff_guarded ?_ ?_
  · rintro e ⟨input, now, rfl⟩ id ch - - seq hseq
    exact absurd hseq (by simp [start, acceptedOn])
  · intro hist e a e' hprior hall hstep
    exact allConsumed_step_iff (sound_of_run hprior) hall hstep

/-- The number in the trace, if the event is an acceptance on the channel. -/
def acceptedNumber (id : UInt8) : Event → Option ℕ
  | .accepted id' seq => if id' = id then some seq else none
  | _ => none

theorem mem_filterMap_acceptedNumber {trace : List Event} {id : UInt8} {seq : ℕ} :
    seq ∈ trace.filterMap (acceptedNumber id) ↔ seq ∈ acceptedOn trace id := by
  rw [List.mem_filterMap]
  constructor
  · rintro ⟨ev, hmem, hev⟩
    cases ev <;> simp_all [acceptedNumber, acceptedOn]
  · intro hmem
    exact ⟨_, hmem, if_pos rfl⟩

instance : DecidablePred AllConsumed := fun e =>
  decidable_of_iff (∀ id, ∀ ch ∈ e.conn.channel id, ch.mode = .reliableOrdered →
      ∀ seq ∈ e.trace.filterMap (acceptedNumber id),
        seq < ch.recvNextDeliver ∨ seq ∈ ch.reorderBuffer) <| by
    simp only [mem_filterMap_acceptedNumber]
    rfl

/-- Two messages arrive in the wrong order, then the two fragments of a third one. -/
theorem always_allConsumed_reordered :
    ∃ hist e, system.Run hist e ∧ (∀ seq ∈ List.range' 1 4, seq ∈ acceptedOn e.trace 0) ∧
      delivered e.trace 0 = [[7], [8], [65, 66]] ∧
      System.Always AllConsumed hist e ∧ System.Guarded KeepsSlots hist := by
  obtain ⟨hist, e, hrun, haccepted, hdelivered, hall⟩ :=
    System.exists_history (S := system) (fun _ _ _ hstep => hstep)
      ⟨plainInput [(.reliableOrdered, 0)], 0, rfl⟩
      [.packet 0 [0, 0, 2, 0, 0, 0, 0, 0, 8], .packet 0 [0, 0, 1, 0, 0, 0, 0, 0, 7],
        .packet 0 [1, 0, 3, 0, 0, 0, 0, 0, 0, 1, 0, 2, 0, 65],
        .packet 0 [1, 0, 4, 0, 0, 0, 0, 0, 0, 1, 1, 2, 0, 66]]
      (fun hist e => (∀ seq ∈ List.range' 1 4, seq ∈ acceptedOn e.trace 0) ∧
        delivered e.trace 0 = [[7], [8], [65, 66]] ∧ System.Always AllConsumed hist e)
      (by decide +kernel)
  exact ⟨hist, e, hrun, haccepted, hdelivered, hall, (always_allConsumed_iff hrun).mp hall⟩

/-- A fragment that is too short for its header is accepted, reported, and its
slot stays empty. -/
theorem short_fragment_stalls :
    ∃ hist e ch, system.Run hist e ∧ e.conn.channel 0 = some ch ∧ ch.mode = .reliableOrdered ∧
      1 ∈ acceptedOn e.trace 0 ∧ ¬ 1 < ch.recvNextDeliver ∧ 1 ∉ ch.reorderBuffer := by
  obtain ⟨hist, e, hrun, hres⟩ := exists_run (plainInput [(.reliableOrdered, 0)]) 0
    [.packet 0 [1, 0, 1, 0, 0, 0, 0, 0, 7]]
    (fun e => (e.conn.channel 0).any fun ch => ch.mode = .reliableOrdered ∧
      1 ∈ acceptedOn e.trace 0 ∧ ¬ 1 < ch.recvNextDeliver ∧ 1 ∉ ch.reorderBuffer)
    (by decide +kernel)
  cases hch : e.conn.channel 0 with
  | none => simp [hch] at hres
  | some ch => exact ⟨hist, e, ch, hrun, hch, by simpa [hch] using hres⟩

end Fastwire.Endpoint
