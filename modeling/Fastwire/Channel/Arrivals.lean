/-
# Runs of one channel

A channel receives packets in any order, some of them several times. It accepts
no sequence number twice, and an ordered channel hands out what it has accepted
in the order of the numbers, up to the first one that is missing, and keeps the
rest.

The last section lets a sender number the packets and the network bring them in
order. This goes well as long as the 32-bit counter does not come back to zero.
-/

import Fastwire.Channel.Ordered

namespace Fastwire.Channel

open Lib

/-- A channel, with what it has accepted, oldest first, and what it has handed
out. -/
structure Receipts where
  channel : Channel
  accepted : List (UInt32 × Bytes)
  delivered : List Slice

namespace Receipts

def start (ch : Channel) : Receipts := ⟨ch, [], []⟩

/-- An arrival: `deliver` what `recordReceive` accepts. -/
def arrive (r : Receipts) (a : UInt32 × Bytes) : Except GoPanic Receipts :=
  match r.channel.recordReceive a.1.toNat with
  | (ch, false) => .ok { r with channel := ch }
  | (ch, true) =>
      match ch.deliver a.1.toNat (some a.2) with
      | .error e => .error e
      | .ok (ch, msgs) => .ok ⟨ch, r.accepted ++ [a], r.delivered ++ msgs⟩

def arriveAll (r : Receipts) (arrivals : List (UInt32 × Bytes)) : Except GoPanic Receipts :=
  arrivals.foldlM arrive r

def seen (r : Receipts) : Set ℕ := { n | ∃ a ∈ r.accepted, a.1.toNat = n }

variable {r r' : Receipts} {a : UInt32 × Bytes}

/-- An arrival is refused, and nothing changes, or it is accepted and
delivered. -/
theorem arrive_inv (h : r.arrive a = .ok r') :
    ((r.channel.recordReceive a.1.toNat).2 = false ∧ r' = r) ∨
      ((r.channel.recordReceive a.1.toNat).2 = true ∧
        ∃ ch msgs, (r.channel.recordReceive a.1.toNat).1.deliver a.1.toNat (some a.2) =
          .ok (ch, msgs) ∧ r' = ⟨ch, r.accepted ++ [a], r.delivered ++ msgs⟩) := by
  rcases r.channel.recordReceive_cases a.1.toNat with hrefused | ⟨ack, field, haccepted⟩
  · rw [arrive, hrefused] at h
    cases h
    exact .inl ⟨by rw [hrefused], rfl⟩
  · rw [arrive, haccepted] at h
    rw [haccepted]
    dsimp only at h
    split at h
    · cases h
    · rename_i ch msgs hdeliver
      cases h
      exact .inr ⟨rfl, ch, msgs, hdeliver, rfl⟩

theorem arrive_refused (h : (r.channel.recordReceive a.1.toNat).2 = false) :
    r.arrive a = .ok r := by
  rcases r.channel.recordReceive_cases a.1.toNat with hrefused | ⟨ack, field, haccepted⟩
  · rw [arrive, hrefused]
  · rw [haccepted] at h
    cases h

theorem arrive_accepted (h : (r.channel.recordReceive a.1.toNat).2 = true) {ch : Channel}
    {msgs : List Slice}
    (hdeliver : (r.channel.recordReceive a.1.toNat).1.deliver a.1.toNat (some a.2) =
      .ok (ch, msgs)) :
    r.arrive a = .ok ⟨ch, r.accepted ++ [a], r.delivered ++ msgs⟩ := by
  rcases r.channel.recordReceive_cases a.1.toNat with hrefused | ⟨ack, field, haccepted⟩
  · rw [hrefused] at h
    cases h
  · rw [haccepted] at hdeliver
    rw [arrive, haccepted]
    dsimp only
    rw [hdeliver]

theorem seen_concat (ch : Channel) (accepted : List (UInt32 × Bytes)) (delivered : List Slice) :
    (⟨ch, accepted ++ [a], delivered⟩ : Receipts).seen =
      insert a.1.toNat (⟨ch, accepted, delivered⟩ : Receipts).seen := by
  ext n
  simp only [seen, List.mem_append, List.mem_singleton, Set.mem_ofPred_eq, Set.mem_insert_iff]
  constructor
  · rintro ⟨b, hb | rfl, hn⟩
    · exact .inr ⟨b, hb, hn⟩
    · exact .inl hn.symm
  · rintro (rfl | ⟨b, hb, hn⟩)
    · exact ⟨a, .inr rfl, rfl⟩
    · exact ⟨b, .inl hb, hn⟩

/-! ## Acceptance -/

/-- The channel knows what it has accepted, and accepted nothing twice. -/
structure Exact (r : Receipts) : Prop where
  ack : r.channel.AckExact r.seen
  nodup : (r.accepted.map fun a => a.1.toNat).Nodup

theorem exact_start (mode : DeliveryMode) (streamIndex : UInt8) (window : ℤ) :
    (start (.init mode streamIndex window)).Exact where
  ack := by
    have hnone : (start (.init mode streamIndex window)).seen = ∅ := by
      ext n
      simp [seen, start]
    rw [hnone]
    exact ackExact_init mode streamIndex window
  nodup := List.nodup_nil

/-- Delivery leaves the acknowledgement state alone. -/
theorem deliver_ack {ch ch' : Channel} {seq : ℕ} {payload : Slice} {msgs : List Slice}
    (hok : ch.deliver seq payload = .ok (ch', msgs)) :
    ch'.recvAck = ch.recvAck ∧ ch'.recvAckField = ch.recvAckField := by
  by_cases hmode : ch.mode = .reliableOrdered
  · have hdeliver : ch.deliver seq payload = ch.deliverReliableOrdered seq payload := by
      rw [deliver, hmode]
    rw [hdeliver, deliverReliableOrdered] at hok
    split at hok <;> cases hok
    exact ⟨rfl, rfl⟩
  · obtain ⟨last, msgs', heq⟩ := deliver_unordered hmode seq payload
    rw [heq] at hok
    cases hok
    exact ⟨rfl, rfl⟩

theorem Exact.arrive (h : r.Exact) (harrive : r.arrive a = .ok r') : r'.Exact := by
  rcases arrive_inv harrive with ⟨-, rfl⟩ | ⟨haccepted, ch, msgs, hdeliver, rfl⟩
  · exact h
  · obtain ⟨-, -, hnew, -⟩ := (recordReceive_iff h.ack).mp haccepted
    obtain ⟨hack, hfield⟩ := deliver_ack hdeliver
    refine ⟨?_, ?_⟩
    · rw [seen_concat]
      exact (h.ack.recordReceive haccepted).congr hack hfield
    · rw [List.map_append]
      refine List.nodup_append.mpr ⟨h.nodup, List.nodup_singleton _, ?_⟩
      intro n hn k hk hnk
      obtain rfl := List.mem_singleton.mp hk
      obtain ⟨b, hb, rfl⟩ := List.mem_map.mp hn
      exact hnew ⟨b, hb, hnk⟩

/-- The accepted numbers are positive, so there are fewer than `2^32`. -/
theorem Exact.length_lt (h : r.Exact) : r.accepted.length < seqLimit := by
  have hsubset : (r.accepted.map fun a => a.1.toNat) ⊆ List.range' 1 (seqLimit - 1) := by
    intro n hn
    obtain ⟨a, ha, rfl⟩ := List.mem_map.mp hn
    have hpos : a.1.toNat ≠ 0 := by
      intro hzero
      exact h.ack.zero_notMem ⟨a, ha, hzero⟩
    have hlt : a.1.toNat < seqLimit := a.1.toNat_lt
    rw [List.mem_range'_1]
    omega
  have hlength := (List.subperm_of_subset h.nodup hsubset).length_le
  have hlimit : 0 < seqLimit := by decide
  rw [List.length_map, List.length_range'] at hlength
  omega

/-! ## Ordered delivery -/

/-- The channel has handed out the numbers up to `last` in their order and keeps
the other accepted ones in the buffer; `last + 1` has not been accepted. -/
structure InOrder (r : Receipts) (last : ℕ) (buffer : ReorderBuffer) : Prop where
  exact : r.Exact
  mode : r.channel.mode = .reliableOrdered
  buffer_eq : r.channel.recvBuffer = some buffer
  next_eq : r.channel.recvNextDeliver = (last + 1) % seqLimit
  last_lt : last < seqLimit
  delivered : ∃ payloads : List Bytes, r.delivered = payloads.map some ∧ payloads.length = last ∧
    ∀ i p, payloads[i]? = some p → ∃ a ∈ r.accepted, a.1.toNat = i + 1 ∧ a.2 = p
  buffered : ∀ k v, buffer.lookup k = some v ↔
    last < k ∧ ∃ a ∈ r.accepted, a.1.toNat = k ∧ v = some a.2
  stopped : last + 1 ∉ r.seen

theorem inOrder_start (streamIndex : UInt8) (window : ℤ) :
    (start (.init .reliableOrdered streamIndex window)).InOrder 0 ∅ where
  exact := exact_start _ streamIndex window
  mode := rfl
  buffer_eq := rfl
  next_eq := rfl
  last_lt := by decide
  delivered := ⟨[], rfl, rfl, nofun⟩
  buffered k v := by
    constructor
    · intro h
      cases h
    · rintro ⟨-, a, ha, -⟩
      cases ha
  stopped := by
    rintro ⟨a, ha, -⟩
    cases ha

/-- Everything up to `last` was accepted. -/
theorem InOrder.seen_of_le {last : ℕ} {buffer : ReorderBuffer} (h : r.InOrder last buffer) {n : ℕ}
    (hpos : 0 < n) (hle : n ≤ last) : n ∈ r.seen := by
  obtain ⟨payloads, -, hlength, hget⟩ := h.delivered
  obtain ⟨a, ha, hn, -⟩ := hget (n - 1) payloads[n - 1] (List.getElem?_eq_getElem (by omega))
  exact ⟨a, ha, by omega⟩

/-- An accepted number is beyond those handed out. -/
theorem InOrder.last_lt_accepted {last : ℕ} {buffer : ReorderBuffer} (h : r.InOrder last buffer)
    (haccepted : (r.channel.recordReceive a.1.toNat).2 = true) : last < a.1.toNat := by
  obtain ⟨hzero, -, hnew, -⟩ := (recordReceive_iff h.exact.ack).mp haccepted
  by_contra hle
  exact hnew (h.seen_of_le (by omega) (by omega))

section Delivery

variable {last next' : ℕ} {buffer buffer' : ReorderBuffer} {out : List Slice}
  (h : r.InOrder last buffer)
  (hordered : OrderedDelivery (last + 1) buffer a.1.toNat (some a.2) next' buffer' out)

include h hordered

/-- What is drained was accepted, now or before. -/
theorem InOrder.drained {i : ℕ} {v : Slice} (hi : out[i]? = some v) :
    ∃ b ∈ r.accepted ++ [a], b.1.toNat = last + 1 + i ∧ v = some b.2 := by
  have hlook := hordered.drained i v hi
  rw [Table.lookup_insert_eq] at hlook
  split at hlook
  · rename_i hseq
    exact ⟨a, List.mem_append_right _ (List.mem_singleton_self a), hseq.symm,
      (Option.some.inj hlook).symm⟩
  · obtain ⟨-, b, hb, hnumber, hv⟩ := (h.buffered _ v).mp hlook
    exact ⟨b, List.mem_append_left _ hb, hnumber, hv⟩

/-- The buffer keeps what is accepted and not drained. -/
theorem InOrder.kept (hnew : a.1.toNat ∉ r.seen) (hbeyond : last < a.1.toNat) (k : ℕ)
    (v : Slice) :
    buffer'.lookup k = some v ↔
      last + out.length < k ∧ ∃ b ∈ r.accepted ++ [a], b.1.toNat = k ∧ v = some b.2 := by
  rw [hordered.lookup_eq k]
  split
  · rename_i hdrained
    simp only [reduceCtorEq, false_iff, not_and]
    omega
  · rename_i hkept
    split
    · rename_i hseq
      rw [Option.some.injEq, Option.getD_some]
      constructor
      · rintro rfl
        exact ⟨by omega, a, List.mem_append_right _ (List.mem_singleton_self a), hseq.symm, rfl⟩
      · rintro ⟨-, b, hb, hnumber, rfl⟩
        rcases List.mem_append.mp hb with hb | hb
        · exact absurd ⟨b, hb, hnumber.trans hseq⟩ hnew
        · rw [List.mem_singleton.mp hb]
    · rename_i hother
      rw [h.buffered k v]
      constructor
      · rintro ⟨hk, b, hb, hnumber, hv⟩
        exact ⟨by omega, b, List.mem_append_left _ hb, hnumber, hv⟩
      · rintro ⟨hk, b, hb, hnumber, hv⟩
        rcases List.mem_append.mp hb with hb | hb
        · exact ⟨by omega, b, hb, hnumber, hv⟩
        · rw [List.mem_singleton.mp hb] at hnumber
          exact absurd hnumber.symm hother

/-- What has been handed out after the call. -/
theorem InOrder.handedOut :
    ∃ payloads : List Bytes, r.delivered ++ out = payloads.map some ∧
      payloads.length = last + out.length ∧
      ∀ i p, payloads[i]? = some p → ∃ b ∈ r.accepted ++ [a], b.1.toNat = i + 1 ∧ b.2 = p := by
  obtain ⟨payloads, hdelivered, hlength, hget⟩ := h.delivered
  refine ⟨payloads ++ out.map (Option.getD · []), ?_, ?_, ?_⟩
  · have hsome : (out.map (Option.getD · [])).map some = out := by
      rw [List.map_map]
      refine (List.map_congr_left ?_).trans (List.map_id out)
      intro v hv
      obtain ⟨i, hi⟩ := List.mem_iff_getElem?.mp hv
      obtain ⟨b, -, -, rfl⟩ := h.drained hordered hi
      rfl
    rw [List.map_append, hdelivered, hsome]
  · rw [List.length_append, List.length_map, hlength]
  · intro i p hi
    rcases Nat.lt_or_ge i payloads.length with hold | hdrained
    · rw [List.getElem?_append_left hold] at hi
      obtain ⟨b, hb, hnumber, hp⟩ := hget i p hi
      exact ⟨b, List.mem_append_left _ hb, hnumber, hp⟩
    · rw [List.getElem?_append_right hdrained, List.getElem?_map, Option.map_eq_some_iff] at hi
      obtain ⟨v, hv, rfl⟩ := hi
      obtain ⟨b, hb, hnumber, rfl⟩ := h.drained hordered hv
      exact ⟨b, hb, by omega, rfl⟩

end Delivery

/-- Accepting and delivering one more packet. -/
theorem InOrder.accept {last : ℕ} {buffer : ReorderBuffer} (h : r.InOrder last buffer)
    (haccepted : (r.channel.recordReceive a.1.toNat).2 = true) :
    ∃ r' last' buffer', r.arrive a = .ok r' ∧ r'.InOrder last' buffer' := by
  obtain ⟨hzero, -, hnew, -⟩ := (recordReceive_iff h.exact.ack).mp haccepted
  have hlt : a.1.toNat < seqLimit := a.1.toNat_lt
  have hbeyond := h.last_lt_accepted haccepted
  have hnext : r.channel.recvNextDeliver = last + 1 := by
    rw [h.next_eq]
    exact Nat.mod_eq_of_lt (by omega)
  have hkeys : ∀ k ∈ buffer, 0 < k := by
    intro k hk
    obtain ⟨v, hv⟩ := Option.isSome_iff_exists.mp (AList.lookup_isSome.mpr hk)
    exact Nat.lt_of_le_of_lt (Nat.zero_le _) ((h.buffered k v).mp hv).1
  have hmode : (r.channel.recordReceive a.1.toNat).1.mode = .reliableOrdered := by
    rw [recordReceive_mode, h.mode]
  have hheld : (r.channel.recordReceive a.1.toNat).1.recvBuffer = some buffer := by
    rw [recordReceive_recvBuffer, h.buffer_eq]
  have hnextLt : (r.channel.recordReceive a.1.toNat).1.recvNextDeliver < seqLimit := by
    rw [recordReceive_recvNextDeliver, hnext]
    omega
  obtain ⟨next', buffer', out, hdeliver, hordered⟩ :=
    deliver_ordered (some a.2) hmode hheld hnextLt (Nat.pos_of_ne_zero hzero) hkeys
  rw [recordReceive_recvNextDeliver, hnext] at hordered
  have harrive := arrive_accepted haccepted hdeliver
  have hkept := h.kept hordered hnew hbeyond
  refine ⟨_, last + out.length, buffer', harrive, ⟨h.exact.arrive harrive, hmode, rfl, ?_, ?_,
    h.handedOut hordered, hkept, ?_⟩⟩
  · show next' = _
    rw [hordered.next_eq]
    congr 1
    omega
  · have hwithin := hordered.within
    omega
  · rintro ⟨b, hb, hnumber⟩
    have hlook : buffer'.lookup (last + out.length + 1) = some (some b.2) :=
      (hkept _ _).mpr ⟨by omega, b, hb, hnumber, rfl⟩
    have hfits : last + out.length + 1 < seqLimit := hnumber ▸ b.1.toNat_lt
    have hstopped := hordered.stopped
    rw [hordered.next_eq, Nat.mod_eq_of_lt (by omega),
      show last + 1 + out.length = last + out.length + 1 by omega, hlook] at hstopped
    cases hstopped

theorem InOrder.arriveAll {last : ℕ} {buffer : ReorderBuffer} (h : r.InOrder last buffer)
    (arrivals : List (UInt32 × Bytes)) :
    ∃ r' last' buffer', r.arriveAll arrivals = .ok r' ∧ r'.InOrder last' buffer' := by
  induction arrivals generalizing r last buffer with
  | nil => exact ⟨r, last, buffer, rfl, h⟩
  | cons a arrivals ih =>
      cases haccepted : (r.channel.recordReceive a.1.toNat).2 with
      | false =>
          obtain ⟨r', last', buffer', hrest, hinorder⟩ := ih h
          refine ⟨r', last', buffer', ?_, hinorder⟩
          rw [Receipts.arriveAll, List.foldlM_cons, arrive_refused haccepted]
          exact hrest
      | true =>
          obtain ⟨r₁, last₁, buffer₁, harrive, hinorder₁⟩ := h.accept haccepted
          obtain ⟨r', last', buffer', hrest, hinorder⟩ := ih hinorder₁
          refine ⟨r', last', buffer', ?_, hinorder⟩
          rw [Receipts.arriveAll, List.foldlM_cons, harrive]
          exact hrest

/-- Whatever arrives on an ordered channel: no number is accepted twice, the
payloads handed out are those accepted for 1, 2 and so on up to
`recvNextDeliver - 1`, in this order, the next one has not been accepted, and the
buffer holds the others. The subtraction is that of the 32-bit counter, so nothing
is assumed about the number of packets. -/
theorem arrivals_in_order (streamIndex : UInt8) (window : ℤ) (arrivals : List (UInt32 × Bytes)) :
    ∃ r, (start (.init .reliableOrdered streamIndex window)).arriveAll arrivals = .ok r ∧
      (r.accepted.map Prod.fst).Nodup ∧
      ∃ (last : ℕ) (buffer : ReorderBuffer) (payloads : List Bytes),
        last = (r.channel.recvNextDeliver + 2 ^ 32 - 1) % 2 ^ 32 ∧
        r.delivered = payloads.map some ∧ payloads.length = last ∧
        (∀ i p, payloads[i]? = some p → (UInt32.ofNat (i + 1), p) ∈ r.accepted) ∧
        (∀ a ∈ r.accepted, a.1.toNat ≠ last + 1) ∧
        r.channel.recvBuffer = some buffer ∧
        ∀ k v, buffer.lookup k = some v ↔
          last < k ∧ ∃ a ∈ r.accepted, a.1.toNat = k ∧ v = some a.2 := by
  obtain ⟨r, last, buffer, hrun, h⟩ := (inOrder_start streamIndex window).arriveAll arrivals
  obtain ⟨payloads, hdelivered, hlength, hget⟩ := h.delivered
  refine ⟨r, hrun, ?_, last, buffer, payloads, ?_, hdelivered, hlength, ?_,
    fun a ha hnumber => h.stopped ⟨a, ha, hnumber⟩, h.buffer_eq, h.buffered⟩
  · have hmap : (r.accepted.map fun a => a.1.toNat) =
        (r.accepted.map Prod.fst).map UInt32.toNat := by
      rw [List.map_map]
      rfl
    have hnodup := h.exact.nodup
    rw [hmap] at hnodup
    exact hnodup.of_map _
  · have hlt := h.last_lt
    rw [h.next_eq]
    simp only [seqLimit] at hlt ⊢
    omega
  · intro i p hi
    obtain ⟨a, ha, hnumber, rfl⟩ := hget i p hi
    rw [← hnumber, UInt32.ofNat_toNat]
    exact ha

/-! ## Packets that come in order -/

/-- A sender numbers one packet after the other, and each arrives before the
next. -/
def sendAll (sender : Channel) (r : Receipts) : List Bytes → Except GoPanic Receipts
  | [] => .ok r
  | payload :: payloads =>
      let (sender, seq) := sender.nextSequence
      match r.arrive (UInt32.ofNat seq, payload) with
      | .error e => .error e
      | .ok r => sendAll sender r payloads

theorem Exact.sendAll (h : r.Exact) {sender : Channel} {payloads : List Bytes}
    (hok : sendAll sender r payloads = .ok r') : r'.Exact := by
  induction payloads generalizing sender r with
  | nil =>
      cases hok
      exact h
  | cons payload payloads ih =>
      rw [Receipts.sendAll] at hok
      dsimp only at hok
      split at hok
      · cases hok
      · rename_i harrive
        exact ih (h.arrive harrive) hok

/-- The numbers from 1 to `n` have been accepted, and an ordered channel has
handed them out. -/
structure UpTo (r : Receipts) (mode : DeliveryMode) (n : ℕ) : Prop where
  exact : r.Exact
  mode_eq : r.channel.mode = mode
  numbers : r.accepted.map (fun a => a.1.toNat) = List.range' 1 n
  ordered : mode = .reliableOrdered → ∃ last buffer, r.InOrder last buffer

theorem UpTo.mem_seen {mode : DeliveryMode} {n k : ℕ} (h : r.UpTo mode n) :
    k ∈ r.seen ↔ 0 < k ∧ k ≤ n := by
  have hmem : k ∈ r.seen ↔ k ∈ r.accepted.map fun a => a.1.toNat := by
    simp [seen]
  rw [hmem, h.numbers, List.mem_range'_1]
  omega

/-- An ordered channel has handed out exactly these. -/
theorem InOrder.last_eq {mode : DeliveryMode} {n last : ℕ} {buffer : ReorderBuffer}
    (hin : r.InOrder last buffer) (h : r.UpTo mode n) : last = n := by
  have hstopped := h.mem_seen.not.mp hin.stopped
  rcases Nat.eq_zero_or_pos last with rfl | hpos
  · omega
  · have hlast := h.mem_seen.mp (hin.seen_of_le hpos (Nat.le_refl last))
    omega

theorem UpTo.recordReceive {mode : DeliveryMode} {n : ℕ} (h : r.UpTo mode n)
    (hn : n + 1 < seqLimit) : (r.channel.recordReceive (n + 1)).2 = true := by
  rw [recordReceive_iff h.exact.ack]
  refine ⟨Nat.succ_ne_zero n, ?_, ?_, ?_⟩
  · by_cases hordered : mode = .reliableOrdered
    · obtain ⟨last, buffer, hin⟩ := h.ordered hordered
      have hnext : r.channel.recvNextDeliver = n + 1 := by
        rw [hin.next_eq, hin.last_eq h]
        exact Nat.mod_eq_of_lt hn
      simp only [beyondWindow, hnext, decide_eq_false_iff_not]
      omega
    · simp [beyondWindow, h.mode_eq, hordered]
  · rw [h.mem_seen]
    omega
  · by_cases hzero : r.channel.recvAck = 0
    · omega
    · have htop := h.mem_seen.mp (h.exact.ack.top_mem hzero)
      omega

theorem UpTo.arrive {mode : DeliveryMode} {n : ℕ} (h : r.UpTo mode n) (hn : n + 1 < seqLimit)
    (payload : Bytes) :
    ∃ r', r.arrive (UInt32.ofNat (n + 1), payload) = .ok r' ∧ r'.UpTo mode (n + 1) ∧
      r'.accepted.map Prod.snd = r.accepted.map Prod.snd ++ [payload] := by
  have hnumber : (UInt32.ofNat (n + 1)).toNat = n + 1 := by
    rw [UInt32.toNat_ofNat']
    exact Nat.mod_eq_of_lt hn
  have haccepted : (r.channel.recordReceive (UInt32.ofNat (n + 1)).toNat).2 = true := by
    rw [hnumber]
    exact h.recordReceive hn
  have hafter : ∀ r', r.arrive (UInt32.ofNat (n + 1), payload) = .ok r' →
      (mode = .reliableOrdered → ∃ last buffer, r'.InOrder last buffer) →
      r'.UpTo mode (n + 1) ∧
        r'.accepted.map Prod.snd = r.accepted.map Prod.snd ++ [payload] := by
    intro r' harrive hordered
    have hexact := h.exact.arrive harrive
    rcases arrive_inv harrive with ⟨hrefused, -⟩ | ⟨-, ch, msgs, hdeliver, rfl⟩
    · cases haccepted.symm.trans hrefused
    · refine ⟨⟨hexact, ?_, ?_, hordered⟩, by rw [List.map_append]; rfl⟩
      · rw [(deliver_frame hdeliver).1, recordReceive_mode, h.mode_eq]
      · rw [List.map_append, h.numbers, List.range'_concat]
        simp only [List.map_cons, List.map_nil, hnumber]
        congr 2
        omega
  by_cases hordered : mode = .reliableOrdered
  · obtain ⟨last, buffer, hin⟩ := h.ordered hordered
    obtain ⟨r', last', buffer', harrive, hin'⟩ :=
      hin.accept (a := (UInt32.ofNat (n + 1), payload)) haccepted
    exact ⟨r', harrive, hafter r' harrive fun _ => ⟨last', buffer', hin'⟩⟩
  · have hmode : (r.channel.recordReceive (UInt32.ofNat (n + 1)).toNat).1.mode ≠
        .reliableOrdered := by
      rw [recordReceive_mode, h.mode_eq]
      exact hordered
    obtain ⟨last, msgs, hdeliver⟩ := deliver_unordered hmode (UInt32.ofNat (n + 1)).toNat
      (some payload)
    have harrive := arrive_accepted (a := (UInt32.ofNat (n + 1), payload)) haccepted hdeliver
    exact ⟨_, harrive, hafter _ harrive fun h => absurd h hordered⟩

theorem UpTo.sendAll {mode : DeliveryMode} {n : ℕ} (h : r.UpTo mode n) {sender : Channel}
    (hsender : sender.sendSeq = n) {payloads : List Bytes} (hn : n + payloads.length < seqLimit) :
    ∃ r', sendAll sender r payloads = .ok r' ∧ r'.UpTo mode (n + payloads.length) ∧
      r'.accepted.map Prod.snd = r.accepted.map Prod.snd ++ payloads := by
  induction payloads generalizing sender r n with
  | nil => exact ⟨r, rfl, h, (List.append_nil _).symm⟩
  | cons payload payloads ih =>
      rw [List.length_cons] at hn ⊢
      have hseq : (sender.sendSeq + 1) % 2 ^ 32 = n + 1 := by
        rw [hsender]
        exact Nat.mod_eq_of_lt (show n + 1 < seqLimit by omega)
      obtain ⟨r₁, harrive, hupTo, hpayloads⟩ := h.arrive (by omega) payload
      have hnext : ({ sender with sendSeq := n + 1 } : Channel).sendSeq = n + 1 := rfl
      obtain ⟨r', hrest, hupTo', hpayloads'⟩ := ih hupTo hnext (by omega)
      refine ⟨r', ?_, ?_, ?_⟩
      · rw [Receipts.sendAll, nextSequence]
        simp only [hseq, harrive]
        exact hrest
      · rw [show n + (payloads.length + 1) = n + 1 + payloads.length by omega]
        exact hupTo'
      · rw [hpayloads', hpayloads, List.append_assoc]
        rfl

theorem upTo_start (mode : DeliveryMode) (streamIndex : UInt8) (window : ℤ) :
    (start (.init mode streamIndex window)).UpTo mode 0 where
  exact := exact_start mode streamIndex window
  mode_eq := rfl
  numbers := rfl
  ordered hmode := by
    subst hmode
    exact ⟨0, ∅, inOrder_start streamIndex window⟩

/-- Two new channels of one layout; all packets are accepted, and if the channel
is ordered they are delivered. -/
def Works (mode : DeliveryMode) (streamIndex : UInt8) (window : ℤ) (payloads : List Bytes) : Prop :=
  ∃ r, sendAll (.init mode streamIndex window) (start (.init mode streamIndex window)) payloads =
      .ok r ∧
    r.accepted.map Prod.snd = payloads ∧
    (mode = .reliableOrdered → r.delivered = payloads.map some)

theorem works_of_length_lt (mode : DeliveryMode) (streamIndex : UInt8) (window : ℤ)
    {payloads : List Bytes} (hlength : payloads.length < seqLimit) :
    Works mode streamIndex window payloads := by
  have hsender : (Channel.init mode streamIndex window).sendSeq = 0 := rfl
  have hfits : 0 + payloads.length < seqLimit := by omega
  obtain ⟨r, hrun, hupTo, hpayloads⟩ := (upTo_start mode streamIndex window).sendAll hsender hfits
  refine ⟨r, hrun, hpayloads, ?_⟩
  intro hmode
  obtain ⟨last, buffer, hin⟩ := hupTo.ordered hmode
  have hlast := hin.last_eq hupTo
  obtain ⟨delivered, hdelivered, hcount, hget⟩ := hin.delivered
  have hsame : delivered = payloads := by
    apply List.ext_getElem?
    intro i
    cases hi : delivered[i]? with
    | none =>
        rw [List.getElem?_eq_none_iff] at hi
        rw [List.getElem?_eq_none (by omega)]
    | some p =>
        -- the packet with number `i + 1` was the `i`-th one
        obtain ⟨a, ha, hnumber, rfl⟩ := hget i p hi
        obtain ⟨j, hj⟩ := List.mem_iff_getElem?.mp ha
        have hat : (r.accepted.map fun a => a.1.toNat)[j]? = some a.1.toNat := by
          rw [List.getElem?_map, hj]
          rfl
        rw [hupTo.numbers] at hat
        have hjlt := (List.getElem?_eq_some_iff.mp hat).1
        rw [List.length_range'] at hjlt
        rw [List.getElem?_range' hjlt, Option.some.injEq] at hat
        have hij : j = i := by omega
        rw [← (show r.accepted.map Prod.snd = payloads from hpayloads), List.getElem?_map, ← hij,
          hj]
        rfl
  rw [hdelivered, hsame]

/-- After `2^32 - 1` packets the counter is back at zero, which no channel
accepts. -/
theorem not_works_of_le (mode : DeliveryMode) (streamIndex : UInt8) (window : ℤ)
    {payloads : List Bytes} (hlength : seqLimit ≤ payloads.length) :
    ¬Works mode streamIndex window payloads := by
  rintro ⟨r, hrun, hpayloads, -⟩
  have hlt := ((exact_start mode streamIndex window).sendAll hrun).length_lt
  have heq : r.accepted.length = payloads.length := by rw [← hpayloads, List.length_map]
  omega

/-- Packets that come in order are all accepted, and delivered on an ordered
channel, exactly if there are fewer than `2^32`. -/
theorem works_iff (mode : DeliveryMode) (streamIndex : UInt8) (window : ℤ)
    (payloads : List Bytes) :
    Works mode streamIndex window payloads ↔ payloads.length < 2 ^ 32 := by
  constructor
  · intro hworks
    by_contra hlength
    exact not_works_of_le mode streamIndex window (Nat.not_lt.mp hlength) hworks
  · intro hlength
    exact works_of_length_lt mode streamIndex window hlength

/-- The packet number `2^32` gets the sequence number 0. -/
theorem wrapped_not_works :
    ¬Works .reliableOrdered 0 1024 (List.replicate (2 ^ 32) [1]) := by
  apply not_works_of_le
  rw [List.length_replicate]
  exact Nat.le_refl _

end Receipts

end Fastwire.Channel
