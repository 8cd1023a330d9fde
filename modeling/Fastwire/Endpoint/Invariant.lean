/-
# What every endpoint maintains

In every reachable state the acknowledgement state of each channel is exact for
the sequence numbers it has accepted, and the reorder buffer of a live ordered
channel holds, in their slots, copies of what was handed to `deliver`. Nothing
is assumed about the packets: they may be malformed, forged or replayed.

Every act is either idle, that is, it accepts nothing, or it is a packet that is
accepted on one channel. The invariant is proved once for each.
-/

import Fastwire.Endpoint.Basic

namespace Fastwire

open Lib

/-! ## Reading traces -/

section Trace

variable {t u : List Event} {id : UInt8} {seq : ℕ}

@[simp]
theorem acceptedOn_nil : acceptedOn [] id = ∅ := by
  simp [acceptedOn]

theorem acceptedOn_append : acceptedOn (t ++ u) id = acceptedOn t id ∪ acceptedOn u id := by
  ext seq
  simp [acceptedOn]

@[simp]
theorem payloadAt_nil : payloadAt [] id seq = none := rfl

theorem payloadAt_append :
    payloadAt (t ++ u) id seq = (payloadAt t id seq).or (payloadAt u id seq) :=
  List.findSome?_append

@[simp]
theorem delivered_nil : delivered [] id = [] := rfl

theorem delivered_append : delivered (t ++ u) id = delivered t id ++ delivered u id :=
  List.filterMap_append

variable (hquiet : ∀ ev ∈ u, ev.quiet = true)
include hquiet

theorem acceptedOn_quiet : acceptedOn u id = ∅ := by
  ext seq
  simp only [acceptedOn, Set.mem_ofPred_eq, Set.mem_empty_iff_false, iff_false]
  intro hmem
  simpa [Event.quiet] using hquiet _ hmem

theorem payloadAt_quiet : payloadAt u id seq = none := by
  rw [payloadAt, List.findSome?_eq_none_iff]
  intro ev hev
  cases ev with
  | handed => simpa [Event.quiet] using hquiet _ hev
  | _ => rfl

theorem delivered_quiet : delivered u id = [] := by
  rw [delivered, List.filterMap_eq_nil_iff]
  intro ev hev
  cases ev with
  | onMessage => simpa [Event.quiet] using hquiet _ hev
  | _ => rfl

end Trace

/-- Callbacks for messages. -/
theorem mem_messageEvents {id : UInt8} {msgs : List Slice} {ev : Event}
    (hev : ev ∈ Connection.messageEvents id msgs) : ∃ message, ev = .onMessage id message := by
  simp only [Connection.messageEvents, List.mem_filterMap, Option.map_eq_some_iff] at hev
  obtain ⟨_, -, message, -, rfl⟩ := hev
  exact ⟨message, rfl⟩

theorem acceptedOn_messageEvents (id k : UInt8) (msgs : List Slice) :
    acceptedOn (Connection.messageEvents k msgs) id = ∅ := by
  ext seq
  simp only [acceptedOn, Set.mem_ofPred_eq, Set.mem_empty_iff_false, iff_false]
  intro hmem
  obtain ⟨message, heq⟩ := mem_messageEvents hmem
  cases heq

theorem payloadAt_messageEvents (id k : UInt8) (seq : ℕ) (msgs : List Slice) :
    payloadAt (Connection.messageEvents k msgs) id seq = none := by
  rw [payloadAt, List.findSome?_eq_none_iff]
  intro ev hev
  obtain ⟨message, rfl⟩ := mem_messageEvents hev
  rfl

theorem delivered_messageEvents (id : UInt8) (msgs : List Slice) :
    delivered (Connection.messageEvents id msgs) id = msgs.filterMap fun msg => msg := by
  rw [delivered, Connection.messageEvents, List.filterMap_filterMap]
  congr 1
  funext msg
  cases msg <;> simp [Event.message?]

theorem delivered_messageEvents_ne {id k : UInt8} (hne : k ≠ id) (msgs : List Slice) :
    delivered (Connection.messageEvents k msgs) id = [] := by
  rw [delivered, List.filterMap_eq_nil_iff]
  intro ev hev
  obtain ⟨message, rfl⟩ := mem_messageEvents hev
  simp [Event.message?, hne]

namespace Connection.Accepting

variable {c c' : Connection} {now : ℤ} {hdr : PacketHeader} {body : Bytes} {ch ch' : Channel}
  {acks events : List Event} {ps : List PendingPacket} {n : ℤ}

/-- The two ways a packet is accepted. -/
theorem outcome_cases (h : Accepting c now hdr body ch acks ps n c' ch' events) :
    (∃ e, (c.reassemble now hdr body).2 = .error e ∧
      ch' = (ch.recordReceive hdr.sequence.toNat).1.withPending ps n ∧
      events = acks ++ [.accepted hdr.channel hdr.sequence.toNat, .onError e]) ∨
    ∃ payload emit msgs, (c.reassemble now hdr body).2 = .ok (payload, emit) ∧
      ((ch.recordReceive hdr.sequence.toNat).1.withPending ps n).deliver hdr.sequence.toNat
        payload = .ok (ch', msgs) ∧
      events = acks ++ [.accepted hdr.channel hdr.sequence.toNat,
        .handed hdr.channel hdr.sequence.toNat payload] ++
          if emit then messageEvents hdr.channel msgs else [] := by
  have hout := h.outcome
  split at hout
  · rename_i e hres
    exact .inl ⟨e, hres, hout⟩
  · rename_i payload emit hres
    obtain ⟨msgs, hdel, hev⟩ := hout
    exact .inr ⟨payload, emit, msgs, hres, hdel, hev⟩

theorem mode_eq (h : Accepting c now hdr body ch acks ps n c' ch' events) :
    ch'.mode = ch.mode := by
  rcases h.outcome_cases with ⟨e, -, rfl, -⟩ | ⟨payload, emit, msgs, -, hdel, -⟩
  · simp
  · rw [(Channel.deliver_frame hdel).1]
    simp

/-- Exactly one sequence number is accepted, on the channel of the packet. -/
theorem acceptedOn_events (h : Accepting c now hdr body ch acks ps n c' ch' events) (id : UInt8) :
    acceptedOn events id = if id = hdr.channel then {hdr.sequence.toNat} else ∅ := by
  have hlone : ∀ ev, ev.quiet = true ∨ (∃ payload, ev = .handed hdr.channel hdr.sequence.toNat
      payload) → acceptedOn [.accepted hdr.channel hdr.sequence.toNat, ev] id =
        if id = hdr.channel then {hdr.sequence.toNat} else ∅ := by
    intro ev hev
    have hnot : ∀ seq, .accepted id seq ≠ ev := by
      rintro seq rfl
      rcases hev with hq | ⟨payload, heq⟩
      · cases hq
      · cases heq
    ext seq
    by_cases hid : id = hdr.channel
    · simp [acceptedOn, hid, hid ▸ hnot seq]
    · simp [acceptedOn, hid, hnot seq]
  rcases h.outcome_cases with ⟨e, -, -, rfl⟩ | ⟨payload, emit, msgs, -, -, rfl⟩
  · rw [acceptedOn_append, acceptedOn_quiet h.acks_quiet, hlone _ (.inl rfl), Set.empty_union]
  · rw [acceptedOn_append, acceptedOn_append, acceptedOn_quiet h.acks_quiet,
      hlone _ (.inr ⟨payload, rfl⟩)]
    cases emit <;> simp [acceptedOn_messageEvents]

/-- A failed reassembly hands nothing to `deliver`. -/
theorem payloadAt_error (h : Accepting c now hdr body ch acks ps n c' ch' events) {e : Err}
    (hres : (c.reassemble now hdr body).2 = .error e) (id : UInt8) (seq : ℕ) :
    payloadAt events id seq = none := by
  rcases h.outcome_cases with ⟨e', -, -, rfl⟩ | ⟨payload, emit, msgs, hok, -, -⟩
  · rw [payloadAt_append, payloadAt_quiet h.acks_quiet]
    simp [payloadAt, Event.handed?]
  · rw [hres] at hok
    cases hok

/-- Otherwise the slot of the packet gets the payload. -/
theorem payloadAt_ok (h : Accepting c now hdr body ch acks ps n c' ch' events) {payload : Slice}
    {emit : Bool} (hres : (c.reassemble now hdr body).2 = .ok (payload, emit)) (id : UInt8)
    (seq : ℕ) :
    payloadAt events id seq =
      if id = hdr.channel ∧ seq = hdr.sequence.toNat then some payload else none := by
  rcases h.outcome_cases with ⟨e', herr, -, -⟩ | ⟨payload', emit', msgs, hok, -, rfl⟩
  · rw [hres] at herr
    cases herr
  · obtain ⟨rfl, rfl⟩ : payload = payload' ∧ emit = emit' := by simpa [hres] using hok
    have hrest : payloadAt (if emit then messageEvents hdr.channel msgs else []) id seq = none := by
      cases emit <;> simp [payloadAt_messageEvents]
    have hhere : payloadAt [.accepted hdr.channel hdr.sequence.toNat,
        .handed hdr.channel hdr.sequence.toNat payload] id seq =
          if id = hdr.channel ∧ seq = hdr.sequence.toNat then some payload else none := by
      simp only [payloadAt, List.findSome?_cons, Event.handed?, List.findSome?_nil, eq_comm]
      split <;> simp_all
    rw [payloadAt_append, payloadAt_append, payloadAt_quiet h.acks_quiet, hrest, hhere,
      Option.none_or, Option.or_none]

theorem delivered_error (h : Accepting c now hdr body ch acks ps n c' ch' events) {e : Err}
    (hres : (c.reassemble now hdr body).2 = .error e) (id : UInt8) : delivered events id = [] := by
  rcases h.outcome_cases with ⟨e', -, -, rfl⟩ | ⟨payload, emit, msgs, hok, -, -⟩
  · rw [delivered_append, delivered_quiet h.acks_quiet]
    simp [delivered, Event.message?]
  · rw [hres] at hok
    cases hok

/-- The callbacks of an accepted packet. -/
theorem delivered_ok (hquiet : ∀ ev ∈ acks, ev.quiet = true) (k : UInt8) (seq : ℕ) (payload : Slice)
    (emit : Bool) (msgs : List Slice) (id : UInt8) :
    delivered (acks ++ [.accepted k seq, .handed k seq payload] ++
        if emit then messageEvents k msgs else []) id =
      if emit = true ∧ k = id then msgs.filterMap (fun msg => msg) else [] := by
  rw [delivered_append, delivered_append, delivered_quiet hquiet]
  have hsilent : delivered [.accepted k seq, .handed k seq payload] id = [] := by
    simp [delivered, Event.message?]
  rw [hsilent, List.nil_append, List.nil_append]
  cases emit with
  | false => simp
  | true =>
      by_cases hk : k = id
      · simp [hk, delivered_messageEvents]
      · simp [hk, delivered_messageEvents_ne hk]

end Connection.Accepting

/-! ## The invariant of a channel -/

/-- The reorder buffer; there is nothing in a nil map. -/
def Channel.reorderBuffer (ch : Channel) : ReorderBuffer := ch.recvBuffer.getD ∅

theorem Channel.reorderBuffer_of_eq {ch : Channel} {buffer : ReorderBuffer}
    (hbuf : ch.recvBuffer = some buffer) : ch.reorderBuffer = buffer := by
  rw [reorderBuffer, hbuf, Option.getD_some]

/-- What the receive side of a channel has to do with the trace. -/
structure ReceiveInv (trace : List Event) (id : UInt8) (ch : Channel) : Prop where
  exact : ch.AckExact (acceptedOn trace id)
  accepted_lt : ∀ seq ∈ acceptedOn trace id, seq < Channel.seqLimit
  handed_accepted : ∀ seq payload, payloadAt trace id seq = some payload →
    seq ∈ acceptedOn trace id
  slots : ch.mode = .reliableOrdered →
    Channel.Slots ch.recvNextDeliver ch.reorderBuffer (acceptedOn trace id)
  stored : ch.mode = .reliableOrdered → ∀ seq v, ch.reorderBuffer.lookup seq = some v →
    ∃ payload, payloadAt trace id seq = some payload ∧ v = some (payload.getD [])

namespace ReceiveInv

variable {trace trace' : List Event} {id : UInt8} {ch ch' : Channel}

theorem init (mode : DeliveryMode) (streamIndex : UInt8) (window : ℤ) (id : UInt8) :
    ReceiveInv [] id (Channel.init mode streamIndex window) where
  exact := by
    rw [acceptedOn_nil]
    exact Channel.ackExact_init mode streamIndex window
  accepted_lt := by simp
  handed_accepted := by simp
  slots hmode := by
    obtain rfl : mode = .reliableOrdered := hmode
    rw [acceptedOn_nil]
    exact Channel.slots_init
  stored hmode seq v hlook := by
    obtain rfl : mode = .reliableOrdered := hmode
    simp [Channel.reorderBuffer, Channel.init] at hlook

/-- The invariant survives whatever keeps the receive side and does not speak
about the channel. -/
theorem congr {torn : Bool} (h : ReceiveInv trace id ch) (hsame : ch.SameReceive torn ch')
    (hacc : acceptedOn trace' id = acceptedOn trace id)
    (hpay : ∀ seq, payloadAt trace' id seq = payloadAt trace id seq) :
    ReceiveInv trace' id ch' := by
  have hbuffer : ch'.reorderBuffer = if torn then ∅ else ch.reorderBuffer := by
    rw [Channel.reorderBuffer, Channel.reorderBuffer, hsame.buffer_eq]
    cases torn <;> rfl
  refine ⟨hacc ▸ h.exact.congr hsame.ack_eq hsame.field_eq, hacc ▸ h.accepted_lt, ?_, ?_, ?_⟩
  · intro seq payload
    rw [hpay, hacc]
    exact h.handed_accepted seq payload
  · intro hmode
    have hslots := h.slots (hsame.mode_eq ▸ hmode)
    rw [hacc, hbuffer, hsame.next_eq]
    cases torn with
    | false => exact hslots
    | true => exact hslots.released
  · intro hmode seq v hlook
    rw [hpay]
    rw [hbuffer] at hlook
    cases torn with
    | false => exact h.stored (hsame.mode_eq ▸ hmode) seq v hlook
    | true => simp at hlook

/-! ### Accepted packets -/

section Accepting

variable {c c' : Connection} {now : ℤ} {hdr : PacketHeader} {body : Bytes}
  {acks events : List Event} {ps : List PendingPacket} {n : ℤ} {payload : Slice} {emit : Bool}
  (hinv : ReceiveInv trace hdr.channel ch)
  (h : Connection.Accepting c now hdr body ch acks ps n c' ch' events)

include hinv h

/-- The accepted number is new and in range. -/
theorem fresh_number :
    hdr.sequence.toNat ∉ acceptedOn trace hdr.channel ∧
      0 < hdr.sequence.toNat ∧ hdr.sequence.toNat < Channel.seqLimit := by
  obtain ⟨hzero, -, hnew, -⟩ := (Channel.recordReceive_iff hinv.exact).mp h.fresh
  exact ⟨hnew, Nat.pos_of_ne_zero hzero, hdr.sequence.toNat_lt⟩

omit hinv in
theorem acceptedOn_accepting :
    acceptedOn (trace ++ events) hdr.channel =
      insert hdr.sequence.toNat (acceptedOn trace hdr.channel) := by
  rw [acceptedOn_append, h.acceptedOn_events, if_pos rfl, Set.union_singleton]

theorem payloadAt_accepting (hres : (c.reassemble now hdr body).2 = .ok (payload, emit)) (seq : ℕ) :
    payloadAt (trace ++ events) hdr.channel seq =
      if seq = hdr.sequence.toNat then some payload else payloadAt trace hdr.channel seq := by
  have hnone : payloadAt trace hdr.channel hdr.sequence.toNat = none := by
    by_contra hsome
    obtain ⟨p, hp⟩ := Option.ne_none_iff_exists'.mp hsome
    exact (hinv.fresh_number h).1 (hinv.handed_accepted _ p hp)
  rw [payloadAt_append, h.payloadAt_ok hres]
  by_cases hseq : seq = hdr.sequence.toNat
  · simp [hseq, hnone]
  · simp [hseq]

/-- On an ordered channel whose reassembly succeeds the channel is live and the
slot is filled. -/
theorem ordered_delivery (hmode : ch.mode = .reliableOrdered)
    (hres : (c.reassemble now hdr body).2 = .ok (payload, emit)) :
    ∃ out, Channel.OrderedDelivery ch.recvNextDeliver ch.reorderBuffer hdr.sequence.toNat payload
        ch'.recvNextDeliver ch'.reorderBuffer out ∧
      ch'.recvAck = (ch.recordReceive hdr.sequence.toNat).1.recvAck ∧
      ch'.recvAckField = (ch.recordReceive hdr.sequence.toNat).1.recvAckField ∧
      events = acks ++ [.accepted hdr.channel hdr.sequence.toNat,
        .handed hdr.channel hdr.sequence.toNat payload] ++
          if emit then Connection.messageEvents hdr.channel out else [] := by
  rcases h.outcome_cases with ⟨e, herr, -, -⟩ | ⟨payload', emit', msgs, hok, hdel, hev⟩
  · rw [hres] at herr
    cases herr
  obtain ⟨rfl, rfl⟩ : payload = payload' ∧ emit = emit' := by simpa [hres] using hok
  cases hbuf : ch.recvBuffer with
  | none =>
      rw [Channel.deliver_released (by simpa using hmode) (by simpa using hbuf)] at hdel
      cases hdel
  | some buffer =>
      have hslots := hinv.slots hmode
      rw [Channel.reorderBuffer_of_eq hbuf] at hslots ⊢
      have hkeys : ∀ k ∈ buffer, 0 < k := fun k hk =>
        (hslots.range k (hslots.buffered k hk)).1
      have hordered : ((ch.recordReceive hdr.sequence.toNat).1.withPending ps n).mode =
          .reliableOrdered := by simpa using hmode
      obtain ⟨next', buffer', out, hdel', hord⟩ := Channel.deliver_ordered payload hordered
        (by simpa using hbuf) (by simpa using hslots.next_lt) (hinv.fresh_number h).2.1 hkeys
      rw [hdel'] at hdel
      obtain ⟨rfl, rfl⟩ : _ = ch' ∧ out = msgs := by simpa using hdel
      exact ⟨out, by simpa [Channel.reorderBuffer] using hord, rfl, rfl, hev⟩

/-- What does not depend on the outcome of reassembly. -/
theorem accepting_number :
    (∀ seq ∈ acceptedOn (trace ++ events) hdr.channel, seq < Channel.seqLimit) ∧
      (∀ seq payload, payloadAt (trace ++ events) hdr.channel seq = some payload →
        seq ∈ acceptedOn (trace ++ events) hdr.channel) ∧
      ((ch.recordReceive hdr.sequence.toNat).1.withPending ps n).AckExact
        (acceptedOn (trace ++ events) hdr.channel) := by
  rw [acceptedOn_accepting h]
  refine ⟨?_, ?_, (hinv.exact.recordReceive h.fresh).congr rfl rfl⟩
  · rintro seq (rfl | hold)
    · exact (hinv.fresh_number h).2.2
    · exact hinv.accepted_lt seq hold
  · intro seq payload hseq
    cases hres : (c.reassemble now hdr body).2 with
    | error e =>
        rw [payloadAt_append, h.payloadAt_error hres, Option.or_none] at hseq
        exact Set.mem_insert_of_mem _ (hinv.handed_accepted seq payload hseq)
    | ok result =>
        rw [hinv.payloadAt_accepting h hres] at hseq
        split at hseq
        · exact .inl ‹_›
        · exact Set.mem_insert_of_mem _ (hinv.handed_accepted seq payload hseq)

/-- A failed reassembly leaves the slot empty. -/
theorem accepting_error {e : Err} (hres : (c.reassemble now hdr body).2 = .error e) :
    ReceiveInv (trace ++ events) hdr.channel ch' := by
  obtain ⟨hlt, hhanded, hexact⟩ := hinv.accepting_number h
  rcases h.outcome_cases with ⟨e', -, rfl, -⟩ | ⟨payload, emit, msgs, hok, -, -⟩
  · have hbuffer : ((ch.recordReceive hdr.sequence.toNat).1.withPending ps n).reorderBuffer =
        ch.reorderBuffer := by simp [Channel.reorderBuffer]
    refine ⟨hexact, hlt, hhanded, ?_, ?_⟩
    · intro hmode
      simp only [Channel.withPending_mode, Channel.recordReceive_mode] at hmode
      rw [acceptedOn_accepting h, hbuffer]
      simpa using (hinv.slots hmode).accept (hinv.fresh_number h).2
    · intro hmode seq v hlook
      simp only [Channel.withPending_mode, Channel.recordReceive_mode] at hmode
      rw [payloadAt_append, h.payloadAt_error hres, Option.or_none]
      rw [hbuffer] at hlook
      exact hinv.stored hmode seq v hlook
  · rw [hres] at hok
    cases hok

/-- A packet that is handed to `deliver` keeps the invariant. -/
theorem accepting_ok (hres : (c.reassemble now hdr body).2 = .ok (payload, emit)) :
    ReceiveInv (trace ++ events) hdr.channel ch' := by
  obtain ⟨hlt, hhanded, hexact⟩ := hinv.accepting_number h
  by_cases hmode : ch.mode = .reliableOrdered
  · obtain ⟨out, hord, hack, hfield, -⟩ := hinv.ordered_delivery h hmode hres
    refine ⟨hexact.congr hack hfield, hlt, hhanded, ?_, ?_⟩
    · intro _
      rw [acceptedOn_accepting h]
      exact hord.slots (hinv.slots hmode) (hinv.fresh_number h).1 (hinv.fresh_number h).2
    · intro _ seq v hlook
      rw [hinv.payloadAt_accepting h hres]
      rw [hord.lookup_eq] at hlook
      split at hlook
      · cases hlook
      split at hlook
      · rename_i heq
        obtain rfl : some (payload.getD []) = v := by simpa using hlook
        exact ⟨payload, if_pos heq, rfl⟩
      · rename_i hne
        obtain ⟨p, hp, hv⟩ := hinv.stored hmode seq v hlook
        exact ⟨p, (if_neg hne).trans hp, hv⟩
  · rcases h.outcome_cases with ⟨e, herr, -, -⟩ | ⟨payload', emit', msgs, -, hdel, -⟩
    · rw [hres] at herr
      cases herr
    have hother : ((ch.recordReceive hdr.sequence.toNat).1.withPending ps n).mode ≠
        .reliableOrdered := by simpa using hmode
    obtain ⟨last, msgs', hdel'⟩ := Channel.deliver_unordered hother hdr.sequence.toNat payload'
    rw [hdel'] at hdel
    obtain ⟨rfl, -⟩ : _ = ch' ∧ msgs' = msgs := by simpa using hdel
    refine ⟨hexact.congr rfl rfl, hlt, hhanded, ?_, ?_⟩
    · intro hmode'
      exact absurd (by simpa using hmode') hmode
    · intro hmode'
      exact absurd (by simpa using hmode') hmode

/-- An accepted packet keeps the invariant of its channel. -/
theorem accepting : ReceiveInv (trace ++ events) hdr.channel ch' := by
  cases hres : (c.reassemble now hdr body).2 with
  | error e => exact hinv.accepting_error h hres
  | ok result => exact hinv.accepting_ok h hres

end Accepting

end ReceiveInv

/-! ## The acts -/

namespace Connection

variable {c c' : Connection}

theorem channel_setIndex {i : ℕ} {ch : Channel} (h : c.channels[i]? = some ch) (ch' : Channel)
    (id : UInt8) :
    (c.setIndex i ch').channel id = if id.toNat = i then some ch' else c.channel id := by
  have hlt : i < c.channels.length := (List.getElem?_eq_some_iff.mp h).1
  simp only [setIndex, channel, List.getElem?_set]
  by_cases hi : i = id.toNat
  · simp [hi, hi ▸ hlt]
  · simp [hi, Ne.symm hi]

/-- Replacing a channel by one with the same receive side. -/
theorem quiet_setIndex {i : ℕ} {ch ch' : Channel} (h : c.channels[i]? = some ch)
    (hsame : ch.SameReceive false ch') (id : UInt8) {k : Channel} (hk : c.channel id = some k) :
    ∃ k', (c.setIndex i ch').channel id = some k' ∧ k.SameReceive false k' := by
  rw [channel_setIndex h]
  by_cases hi : id.toNat = i
  · obtain rfl : ch = k := by
      rw [channel, hi, h] at hk
      simpa using hk
    exact ⟨ch', if_pos hi, hsame⟩
  · exact ⟨k, (if_neg hi).trans hk, .refl k⟩

/-- Channels are neither added nor removed. -/
theorem channel_of_length (hlen : c'.channels.length = c.channels.length) {id : UInt8}
    {ch' : Channel} (h : c'.channel id = some ch') : ∃ ch, c.channel id = some ch := by
  have hlt : id.toNat < c'.channels.length := (List.getElem?_eq_some_iff.mp h).1
  exact ⟨_, List.getElem?_eq_getElem (hlen ▸ hlt)⟩

end Connection

namespace Endpoint

variable {e e' : Endpoint} {a : Act}

def tearsDown (e : Endpoint) : Act → Bool
  | .packet _ data => e.conn.disconnects data
  | .shutDown _ => true
  | _ => false

/-- What an act does to the reassembly store if it accepts nothing. -/
def storeAfter (e : Endpoint) (a : Act) : ReassemblyStore :=
  match a with
  | .cleanup now timeout => e.conn.reassembly.cleanup now timeout
  | _ => if e.tearsDown a then e.conn.reassembly.reset else e.conn.reassembly

/-- An act that accepts nothing. -/
structure Idle (e : Endpoint) (a : Act) (e' : Endpoint) : Prop where
  refused : ∀ now data, a = .packet now data → e.conn.acceptedPacket data = none
  trace : ∃ events, e'.trace = e.trace ++ events ∧ ∀ ev ∈ events, ev.quiet = true
  channel : ∀ id ch, e.conn.channel id = some ch →
    ∃ ch', e'.conn.channel id = some ch' ∧ ch.SameReceive (e.tearsDown a) ch'
  length_eq : e'.conn.channels.length = e.conn.channels.length
  compress_eq : e'.conn.compress = e.conn.compress
  store_eq : e'.conn.reassembly = e.storeAfter a

/-- Acts that leave the channels alone. -/
theorem idle_of_channels_eq (hpacket : ∀ now data, a ≠ .packet now data)
    (htrace : ∃ events, e'.trace = e.trace ++ events ∧
      ∀ ev ∈ events, ev.quiet = true)
    (hch : e'.conn.channels = e.conn.channels) (htorn : e.tearsDown a = false)
    (hco : e'.conn.compress = e.conn.compress) (hre : e'.conn.reassembly = e.storeAfter a) :
    Idle e a e' where
  refused now data h := absurd h (hpacket now data)
  trace := htrace
  channel id ch h := ⟨ch, by rw [Connection.channel, hch]; exact h, htorn ▸ .refl ch⟩
  length_eq := by rw [hch]
  compress_eq := hco
  store_eq := hre

/-- Acts that change one channel, but not what it has received. -/
theorem idle_of_setIndex {i : ℕ} {ch ch' : Channel} (hpacket : ∀ now data, a ≠ .packet now data)
    (h : e.conn.channels[i]? = some ch)
    (hsame : ch.SameReceive false ch') (htrace : e'.trace = e.trace)
    (hch : e'.conn.channels = (e.conn.setIndex i ch').channels) (htorn : e.tearsDown a = false)
    (hco : e'.conn.compress = e.conn.compress) (hre : e'.conn.reassembly = e.storeAfter a) :
    Idle e a e' where
  refused now data h := absurd h (hpacket now data)
  trace := ⟨[], by simp [htrace], by simp⟩
  channel id k hk := by
    obtain ⟨k', hk', hrecv⟩ := Connection.quiet_setIndex h hsame id hk
    exact ⟨k', by rw [Connection.channel, hch]; exact hk', htorn ▸ hrecv⟩
  length_eq := by rw [hch, Connection.setIndex, List.length_set]
  compress_eq := hco
  store_eq := hre

theorem sameReceive_queuePacket {c : Connection} {p : Stamped} {ch : Channel}
    (hch : c.channel p.channel = some ch) (now : ℤ) :
    ∃ ch', (c.queuePacket p now).channels = (c.setIndex p.channel.toNat ch').channels ∧
      ch.SameReceive false ch' := by
  rw [Connection.queuePacket, hch]
  by_cases hmode : ch.mode.reliable = true
  · simp only [hmode, ↓reduceIte]
    exact ⟨_, rfl, rfl, rfl, rfl, rfl, rfl, rfl, rfl⟩
  · simp only [hmode, Bool.false_eq_true, ↓reduceIte]
    refine ⟨ch, ?_, .refl ch⟩
    exact (congrArg Connection.channels (Connection.setChannel_self hch)).symm

/-- The acts on what one channel has to send. -/
def servesChannel : Act → Bool
  | .number _ | .queue _ _ | .check _ _ _ _ | .clearAck _ => true
  | _ => false

theorem idle_of_servesChannel (hserves : servesChannel a = true) (hstep : e.step a = some e') :
    Idle e a e' := by
  cases a with
  | number id =>
      simp only [step, Option.bind_eq_bind, Option.bind_eq_some_iff] at hstep
      obtain ⟨ch, hch, hstep⟩ := hstep
      cases hstep
      have hsame : ch.SameReceive false ch.nextSequence.1 := ⟨rfl, rfl, rfl, rfl, rfl, rfl, rfl⟩
      exact idle_of_setIndex (by simp) hch hsame rfl rfl rfl rfl rfl
  | queue p now =>
      simp only [step] at hstep
      split at hstep <;> cases hstep
      cases hch : e.conn.channel p.channel with
      | none =>
          have hsame : e.conn.queuePacket p now = e.conn := by rw [Connection.queuePacket, hch]
          exact idle_of_channels_eq (by simp) ⟨[], by simp, by simp⟩ (congrArg _ hsame) rfl
            (congrArg Connection.compress hsame) (congrArg Connection.reassembly hsame)
      | some ch =>
          obtain ⟨ch', hset, hrecv⟩ := sameReceive_queuePacket hch now
          have hrest : (e.conn.queuePacket p now).compress = e.conn.compress ∧
              (e.conn.queuePacket p now).reassembly = e.conn.reassembly := by
            rw [Connection.queuePacket, hch]
            dsimp only
            split <;> exact ⟨rfl, rfl⟩
          exact idle_of_setIndex (by simp) hch hrecv rfl hset rfl hrest.1 hrest.2
  | check i now rto maxRetries =>
      simp only [step, Option.bind_eq_bind, Option.bind_eq_some_iff] at hstep
      obtain ⟨ch, hch, hstep⟩ := hstep
      cases hstep
      have hsame : ch.SameReceive false (ch.checkRetransmissions now rto maxRetries).1 :=
        ⟨rfl, rfl, rfl, rfl, rfl, rfl, rfl⟩
      exact idle_of_setIndex (by simp) hch hsame rfl rfl rfl rfl rfl
  | clearAck i =>
      simp only [step, Option.bind_eq_bind, Option.bind_eq_some_iff] at hstep
      obtain ⟨ch, hch, hstep⟩ := hstep
      cases hstep
      have hsame : ch.SameReceive false ch.clearNeedsAck.1 := by
        rw [Channel.clearNeedsAck]
        split <;> exact ⟨rfl, rfl, rfl, rfl, rfl, rfl, rfl⟩
      exact idle_of_setIndex (by simp) hch hsame rfl rfl rfl rfl rfl
  | _ => cases hserves

theorem idle_of_not_onChannels (hother : onChannels a = false)
    (hstep : e.step a = some e') : Idle e a e' := by
  have hsilent : ∃ events, e.trace = e.trace ++ events ∧ ∀ ev ∈ events, ev.quiet = true :=
    ⟨[], by simp, by simp⟩
  cases a with
  | stamp id seq fragment body =>
      simp only [step, Option.bind_eq_bind, Option.bind_eq_some_iff] at hstep
      obtain ⟨ch, -, hstep⟩ := hstep
      split at hstep <;> cases hstep
      exact idle_of_channels_eq (by simp) hsilent rfl rfl rfl rfl
  | transmit p written =>
      simp only [step] at hstep
      split at hstep <;> cases hstep
      exact idle_of_channels_eq (by simp) hsilent rfl rfl rfl rfl
  | resend raw =>
      simp only [step] at hstep
      split at hstep <;> cases hstep
      exact idle_of_channels_eq (by simp) hsilent rfl rfl rfl rfl
  | sealAcks ids =>
      simp only [step, Option.bind_eq_bind, Option.bind_eq_some_iff] at hstep
      obtain ⟨packet, -, hstep⟩ := hstep
      cases hstep
      exact idle_of_channels_eq (by simp) hsilent rfl rfl rfl rfl
  | sealDisconnect =>
      simp only [step, Option.bind_eq_bind, Option.bind_eq_some_iff] at hstep
      obtain ⟨packet, -, hstep⟩ := hstep
      cases hstep
      exact idle_of_channels_eq (by simp) hsilent rfl rfl rfl rfl
  | report error =>
      cases hstep
      exact idle_of_channels_eq (by simp) ⟨[.onError error], rfl, by simp [Event.quiet]⟩
        rfl rfl rfl rfl
  | nextFragmentID | cleanup now timeout | bookkeep books =>
      cases hstep
      exact idle_of_channels_eq (by simp) hsilent rfl rfl rfl rfl
  | _ => cases hother

theorem idle_shutDown {reason : DisconnectReason}
    (hstep : e.step (.shutDown reason) = some e') : Idle e (.shutDown reason) e' := by
  cases hstep
  have hquiet : Connection.Quiet true e.conn e.conn.shutDown [.onDisconnect reason] :=
    e.conn.shutDown_quiet (by simp [Event.quiet])
  refine ⟨by simp, ⟨_, rfl, hquiet.events_quiet⟩, ?_, hquiet.length_eq, rfl, rfl⟩
  intro id ch hch
  obtain ⟨ch', hch', hsame, -⟩ := hquiet.channel id ch hch
  exact ⟨ch', hch', hsame⟩

/-- **What an act can do.** It is idle, or it is a packet that is accepted on
its channel. -/
theorem step_cases (hstep : e.step a = some e') :
    Idle e a e' ∨
      ∃ now data hdr body ch acks ps n ch' events, a = .packet now data ∧
        e.conn.acceptedPacket data = some (hdr, body, ch) ∧
        e.conn.Accepting now hdr body ch acks ps n e'.conn ch' events ∧
        e' = { e with conn := e'.conn, trace := e.trace ++ events } := by
  cases a with
  | packet now data =>
      simp only [step] at hstep
      split at hstep
      · cases hstep
      rename_i c events hok
      cases hstep
      rcases Connection.processPacket_cases hok with ⟨hrefused, hquiet⟩ | hacc
      · refine .inl ⟨?_, ⟨events, rfl, hquiet.events_quiet⟩, ?_, hquiet.length_eq,
          hquiet.compress_eq, hquiet.reassembly_eq⟩
        · rintro _ _ ⟨⟩
          exact hrefused
        intro id ch hch
        obtain ⟨ch', hch', hsame, -⟩ := hquiet.channel id ch hch
        exact ⟨ch', hch', hsame⟩
      · obtain ⟨hdr, body, ch, acks, ps, n, ch', hpacket, hacc⟩ := hacc
        exact .inr ⟨now, data, hdr, body, ch, acks, ps, n, ch', events, rfl, hpacket, hacc, rfl⟩
  | shutDown reason => exact .inl (idle_shutDown hstep)
  | number _ | queue _ _ | check _ _ _ _ | clearAck _ =>
      exact .inl (idle_of_servesChannel rfl hstep)
  | _ => exact .inl (idle_of_not_onChannels rfl hstep)

/-! ## Every run -/

/-- The invariant of all channels. -/
def Sound (e : Endpoint) : Prop :=
  ∀ id ch, e.conn.channel id = some ch → ReceiveInv e.trace id ch

theorem sound_start (input : ConnectionInput) (now : ℤ) : (start input now).Sound := by
  intro id ch hch
  obtain ⟨mode, streamIndex, window, rfl⟩ := Connection.channel_newConnection input now hch
  exact ReceiveInv.init mode streamIndex window id

theorem Idle.acceptedOn_eq (h : Idle e a e') (id : UInt8) :
    acceptedOn e'.trace id = acceptedOn e.trace id := by
  obtain ⟨events, htrace, hquiet⟩ := h.trace
  rw [htrace, acceptedOn_append, acceptedOn_quiet hquiet, Set.union_empty]

theorem Idle.payloadAt_eq (h : Idle e a e') (id : UInt8) (seq : ℕ) :
    payloadAt e'.trace id seq = payloadAt e.trace id seq := by
  obtain ⟨events, htrace, hquiet⟩ := h.trace
  rw [htrace, payloadAt_append, payloadAt_quiet hquiet, Option.or_none]

theorem Idle.delivered_eq (h : Idle e a e') (id : UInt8) :
    delivered e'.trace id = delivered e.trace id := by
  obtain ⟨events, htrace, hquiet⟩ := h.trace
  rw [htrace, delivered_append, delivered_quiet hquiet, List.append_nil]

/-- Every channel of the new state was there before. -/
theorem Idle.exists_channel (h : Idle e a e') {id : UInt8} {ch' : Channel}
    (hch' : e'.conn.channel id = some ch') :
    ∃ ch, e.conn.channel id = some ch ∧ ch.SameReceive (e.tearsDown a) ch' := by
  obtain ⟨ch, hch⟩ := Connection.channel_of_length h.length_eq hch'
  obtain ⟨ch₁, hch₁, hsame⟩ := h.channel id ch hch
  obtain rfl : ch₁ = ch' := by simpa [hch₁] using hch'
  exact ⟨ch, hch, hsame⟩

theorem payloadAt_other {now : ℤ} {hdr : PacketHeader} {body : Bytes} {ch ch' : Channel}
    {acks events : List Event} {ps : List PendingPacket} {n : ℤ}
    (hacc : e.conn.Accepting now hdr body ch acks ps n e'.conn ch' events) {id : UInt8}
    (hid : id ≠ hdr.channel) (seq : ℕ) :
    payloadAt (e.trace ++ events) id seq = payloadAt e.trace id seq := by
  rw [payloadAt_append]
  cases hres : (e.conn.reassemble now hdr body).2 with
  | error err => rw [hacc.payloadAt_error hres, Option.or_none]
  | ok result => rw [hacc.payloadAt_ok hres, if_neg (fun hboth => hid hboth.1), Option.or_none]

/-- An accepted packet leaves the other channels and what the trace says about
them alone. -/
theorem accepting_other {now : ℤ} {hdr : PacketHeader} {body : Bytes} {ch ch' : Channel}
    {acks events : List Event} {ps : List PendingPacket} {n : ℤ}
    (hacc : e.conn.Accepting now hdr body ch acks ps n e'.conn ch' events) {id : UInt8}
    (hid : id ≠ hdr.channel) {k' : Channel} (hk' : e'.conn.channel id = some k') :
    (∃ k, e.conn.channel id = some k ∧ k.SameReceive false k') ∧
      acceptedOn (e.trace ++ events) id = acceptedOn e.trace id ∧
      (∀ seq, payloadAt (e.trace ++ events) id seq = payloadAt e.trace id seq) ∧
      delivered (e.trace ++ events) id = delivered e.trace id := by
  refine ⟨?_, ?_, ?_, ?_⟩
  · obtain ⟨k, hk⟩ := Connection.channel_of_length hacc.length_eq hk'
    obtain ⟨ps', n', hk₁⟩ := hacc.others id hid k hk
    obtain rfl : k.withPending ps' n' = k' := by simpa [hk₁] using hk'
    exact ⟨k, hk, k.sameReceive_withPending ps' n'⟩
  · rw [acceptedOn_append, hacc.acceptedOn_events, if_neg hid, Set.union_empty]
  · exact payloadAt_other hacc hid
  · rw [delivered_append]
    rcases hacc.outcome_cases with ⟨err, hres, -, -⟩ | ⟨payload, emit, msgs, -, -, rfl⟩
    · rw [hacc.delivered_error hres, List.append_nil]
    · rw [Connection.Accepting.delivered_ok hacc.acks_quiet, if_neg (fun h => hid h.2.symm),
        List.append_nil]

theorem Sound.step (hsound : e.Sound) (hstep : e.step a = some e') : e'.Sound := by
  intro id ch' hch'
  rcases step_cases hstep with hidle | hacc
  · obtain ⟨ch, hch, hsame⟩ := hidle.exists_channel hch'
    exact (hsound id ch hch).congr hsame (hidle.acceptedOn_eq id) (hidle.payloadAt_eq id)
  · obtain ⟨now, data, hdr, body, ch, acks, ps, n, ch₁, events, -, -, hacc, heq⟩ := hacc
    rw [heq]
    by_cases hid : id = hdr.channel
    · subst hid
      obtain rfl : ch₁ = ch' := by simpa [hacc.channel_eq'] using hch'
      exact (hsound _ ch hacc.channel_eq).accepting hacc
    · obtain ⟨⟨k, hk, hsame⟩, haccepted, hpay, -⟩ := accepting_other hacc hid hch'
      exact (hsound id k hk).congr hsame haccepted hpay

/-- The invariant holds in every reachable state. -/
theorem sound_of_run {hist : List (Endpoint × Act)} (hrun : system.Run hist e) : e.Sound := by
  refine hrun.invariant ?_ ?_
  · rintro e ⟨input, now, rfl⟩
    exact sound_start input now
  · intro e a e' hsound hstep
    exact hsound.step hstep

end Endpoint

end Fastwire
