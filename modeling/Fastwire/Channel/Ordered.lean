/-
# In-order delivery

The specification of `deliver` on an ordered channel, stated over the channel
before the call: which slots are drained, what comes out of them and what the
reorder buffer holds afterwards. Slot 0 is never filled, so a drain that runs
over the end of the 32-bit range stops there and the slots it passes are
consecutive numbers.
-/

import Fastwire.Channel.Ack

namespace Fastwire.Channel

open Lib

/-- The end of the sequence space. -/
def seqLimit : ℕ := 2 ^ 32

theorem iterate_succSeq {n : ℕ} (hn : n < seqLimit) (i : ℕ) :
    succSeq^[i] n = (n + i) % seqLimit := by
  induction i with
  | zero => exact (Nat.mod_eq_of_lt hn).symm
  | succ i ih =>
      rw [Function.iterate_succ_apply', ih, succSeq]
      simp only [seqLimit]
      omega

/-- A drain over slots that are all in `1 .. 2^32 - 1` cannot pass the end of the
range. -/
theorem drained_within {β : Type} {t rest : Table ℕ β} {next last : ℕ} {out : List β}
    (h : Table.Drained succSeq t next out rest last) (hnext : next < seqLimit)
    (hkeys : ∀ k ∈ t, 0 < k) : next + out.length ≤ seqLimit := by
  by_contra hover
  -- otherwise the drain passed slot 0
  obtain ⟨b, -, hlook⟩ := h.lookup_of_lt (i := seqLimit - next) (by omega)
  rw [iterate_succSeq hnext, Nat.add_sub_of_le hnext.le, Nat.mod_self] at hlook
  exact absurd (hkeys 0 (Table.mem_of_lookup hlook)) (Nat.lt_irrefl 0)

/-- One call of `deliver` on an ordered channel that waits for slot `next` and
whose buffer is `buffer`. The call drains the slots
`next .. next + out.length - 1`. -/
structure OrderedDelivery (next : ℕ) (buffer : ReorderBuffer) (seq : ℕ) (payload : Slice)
    (next' : ℕ) (buffer' : ReorderBuffer) (out : List Slice) : Prop where
  next_eq : next' = (next + out.length) % seqLimit
  within : next + out.length ≤ seqLimit
  drained : ∀ i v, out[i]? = some v → (buffer.insert seq payload).lookup (next + i) = some v
  lookup_eq : ∀ k, buffer'.lookup k =
    if next ≤ k ∧ k < next + out.length then none
    else if k = seq then some (some (payload.getD [])) else buffer.lookup k
  stopped : buffer'.lookup next' = none

/-- The slots that a drain has taken out. -/
theorem drained_visited {β : Type} {t rest : Table ℕ β} {next last : ℕ} {out : List β}
    (h : Table.Drained succSeq t next out rest last) (hnext : next < seqLimit)
    (hkeys : ∀ k ∈ t, 0 < k) (k : ℕ) :
    (∃ i < out.length, k = succSeq^[i] next) ↔ next ≤ k ∧ k < next + out.length := by
  have hwithin := drained_within h hnext hkeys
  have hslot : ∀ i < out.length, succSeq^[i] next = next + i := by
    intro i hi
    rw [iterate_succSeq hnext]
    exact Nat.mod_eq_of_lt (by omega)
  constructor
  · rintro ⟨i, hi, rfl⟩
    rw [hslot i hi]
    omega
  · rintro ⟨hle, hlt⟩
    refine ⟨k - next, by omega, ?_⟩
    rw [hslot _ (by omega)]
    omega

/-- A drain of the buffer with the new slot in it, after which the slot is written again
if it is still there. -/
theorem orderedDelivery_of_drained {buffer rest : ReorderBuffer} {seq next last : ℕ}
    {payload : Slice} {out : List Slice}
    (h : Table.Drained succSeq (buffer.insert seq payload) next out rest last)
    (hnext : next < seqLimit) (hseq : 0 < seq) (hkeys : ∀ k ∈ buffer, 0 < k) :
    OrderedDelivery next buffer seq payload last
      (if seq ∈ rest then rest.insert seq (some (payload.getD [])) else rest) out := by
  have hpos : ∀ k ∈ buffer.insert seq payload, 0 < k := by
    intro k hk
    rcases (AList.mem_insert buffer).mp hk with rfl | hk
    · exact hseq
    · exact hkeys k hk
  have hwithin := drained_within h hnext hpos
  have hrest : ∀ k, rest.lookup k = if next ≤ k ∧ k < next + out.length then none
      else if k = seq then some payload else buffer.lookup k := by
    intro k
    rw [h.lookup_rest k, Table.lookup_insert_eq]
    simp only [drained_visited h hnext hpos]
  constructor
  · rw [h.last_eq, iterate_succSeq hnext]
  · exact hwithin
  · intro i v hi
    have hlt : i < out.length := (List.getElem?_eq_some_iff.mp hi).1
    have htaken := h.taken i v hi
    rwa [iterate_succSeq hnext, Nat.mod_eq_of_lt (by omega)] at htaken
  · intro k
    rw [Table.lookup_insert_present, hrest k, hrest seq, if_pos rfl]
    by_cases hk : k = seq
    · subst hk
      rw [if_pos rfl, if_pos rfl]
      split <;> rfl
    · rw [if_neg hk, if_neg hk, if_neg hk]
  · rw [Table.lookup_insert_present, h.stopped]
    split
    · rename_i heq
      rw [← heq, h.stopped, Option.map_none]
    · rfl

/-- `deliver` on a live ordered channel always returns, and does what
`OrderedDelivery` says. -/
theorem deliver_ordered {ch : Channel} {buffer : ReorderBuffer} {seq : ℕ} (payload : Slice)
    (hmode : ch.mode = .reliableOrdered) (hbuf : ch.recvBuffer = some buffer)
    (hnext : ch.recvNextDeliver < seqLimit) (hseq : 0 < seq) (hkeys : ∀ k ∈ buffer, 0 < k) :
    ∃ next' buffer' out,
      ch.deliver seq payload =
        .ok ({ ch with recvBuffer := some buffer', recvNextDeliver := next' }, out) ∧
      OrderedDelivery ch.recvNextDeliver buffer seq payload next' buffer' out := by
  have h := Table.drained_drain succSeq _ (buffer.insert seq payload) ch.recvNextDeliver
    (Nat.le_refl _)
  refine ⟨_, _, _, ?_, orderedDelivery_of_drained h hnext hseq hkeys⟩
  have hdeliver : ch.deliver seq payload = ch.deliverReliableOrdered seq payload := by
    rw [deliver, hmode]
  rw [hdeliver, deliverReliableOrdered, hbuf]

/-- On a torn-down ordered channel `deliver` panics. -/
theorem deliver_released {ch : Channel} (hmode : ch.mode = .reliableOrdered)
    (hbuf : ch.recvBuffer = none) (seq : ℕ) (payload : Slice) :
    ch.deliver seq payload = .error .nilMapAssignment := by
  have hdeliver : ch.deliver seq payload = ch.deliverReliableOrdered seq payload := by
    rw [deliver, hmode]
  rw [hdeliver, deliverReliableOrdered, hbuf]

/-- In the other modes `deliver` always returns and touches `lastRecvSeq`
only. -/
theorem deliver_unordered {ch : Channel} (hmode : ch.mode ≠ .reliableOrdered) (seq : ℕ)
    (payload : Slice) :
    ∃ last msgs, ch.deliver seq payload = .ok ({ ch with lastRecvSeq := last }, msgs) := by
  rw [deliver]
  split
  · contradiction
  · exact ⟨ch.lastRecvSeq, _, rfl⟩
  · exact ⟨ch.lastRecvSeq, _, rfl⟩
  · rw [deliverUnreliableSequenced]
    split
    · exact ⟨seq, _, rfl⟩
    · exact ⟨ch.lastRecvSeq, _, rfl⟩

/-- In the other modes nothing comes out but what went in. -/
theorem deliver_unordered_messages {ch ch' : Channel} (hmode : ch.mode ≠ .reliableOrdered)
    {seq : ℕ} {payload : Slice} {msgs : List Slice}
    (hok : ch.deliver seq payload = .ok (ch', msgs)) : msgs = [] ∨ msgs = [payload] := by
  rw [deliver] at hok
  split at hok
  · contradiction
  · cases hok
    exact .inr rfl
  · cases hok
    exact .inr rfl
  · rw [deliverUnreliableSequenced] at hok
    split at hok <;> cases hok
    · exact .inr rfl
    · exact .inl rfl

/-- Delivery leaves the mode and the send side alone. -/
theorem deliver_frame {ch ch' : Channel} {seq : ℕ} {payload : Slice} {msgs : List Slice}
    (hok : ch.deliver seq payload = .ok (ch', msgs)) :
    ch'.mode = ch.mode ∧ ch'.sendSeq = ch.sendSeq ∧ ch'.pendingSend = ch.pendingSend := by
  by_cases hmode : ch.mode = .reliableOrdered
  · have hdeliver : ch.deliver seq payload = ch.deliverReliableOrdered seq payload := by
      rw [deliver, hmode]
    rw [hdeliver, deliverReliableOrdered] at hok
    split at hok <;> cases hok
    exact ⟨rfl, rfl, rfl⟩
  · obtain ⟨last, msgs', heq⟩ := deliver_unordered hmode seq payload
    rw [heq] at hok
    cases hok
    exact ⟨rfl, rfl, rfl⟩

/-! ## The slots of an ordered channel -/

/-- What holds between the reorder buffer and the accepted sequence numbers in
every reachable state, whatever arrives. The last field covers the overflow of
`recvNextDeliver`, after which the channel expects slot 0. -/
structure Slots (next : ℕ) (buffer : ReorderBuffer) (acc : Set ℕ) : Prop where
  next_lt : next < seqLimit
  range : ∀ s ∈ acc, 0 < s ∧ s < seqLimit
  buffered : ∀ k ∈ buffer, k ∈ acc
  next_notMem : next ∉ buffer
  above : ∀ k ∈ buffer, next ≤ k
  below : ∀ s, 0 < s → s < next → s ∈ acc
  overflowed : next = 0 → seqLimit - 1 ∈ acc ∧ seqLimit - 1 ∉ buffer

/-- Every accepted sequence number has been delivered or is buffered. -/
def Consumed (next : ℕ) (buffer : ReorderBuffer) (acc : Set ℕ) : Prop :=
  ∀ s ∈ acc, s < next ∨ s ∈ buffer

/-- With `seq` the buffer holds every slot that is left, up to the last one. -/
def Exhausts (next : ℕ) (buffer : ReorderBuffer) (seq : ℕ) : Prop :=
  ∀ q, next ≤ q → q < seqLimit → q = seq ∨ q ∈ buffer

variable {next next' : ℕ} {buffer buffer' : ReorderBuffer} {acc : Set ℕ} {seq : ℕ}
  {payload : Slice} {out : List Slice}

theorem slots_init : Slots 1 ∅ ∅ where
  next_lt := (by decide : 1 < 2 ^ 32)
  range := by simp
  buffered k hk := absurd hk (AList.notMem_empty k)
  next_notMem := AList.notMem_empty _
  above k hk := absurd hk (AList.notMem_empty k)
  below s hpos hlt := by omega
  overflowed h := by cases h

/-- Teardown empties the buffer. -/
theorem Slots.released (h : Slots next buffer acc) : Slots next ∅ acc where
  next_lt := h.next_lt
  range := h.range
  buffered k hk := absurd hk (AList.notMem_empty k)
  next_notMem := AList.notMem_empty _
  above k hk := absurd hk (AList.notMem_empty k)
  below := h.below
  overflowed hzero := ⟨(h.overflowed hzero).1, AList.notMem_empty _⟩

/-- Accepting a sequence number without filling its slot. -/
theorem Slots.accept (h : Slots next buffer acc) (hrange : 0 < seq ∧ seq < seqLimit) :
    Slots next buffer (insert seq acc) where
  next_lt := h.next_lt
  range s hs := by
    rcases hs with rfl | hs
    · exact hrange
    · exact h.range s hs
  buffered k hk := Set.mem_insert_of_mem _ (h.buffered k hk)
  next_notMem := h.next_notMem
  above := h.above
  below s hpos hlt := Set.mem_insert_of_mem _ (h.below s hpos hlt)
  overflowed hzero :=
    ⟨Set.mem_insert_of_mem _ (h.overflowed hzero).1, (h.overflowed hzero).2⟩

namespace OrderedDelivery

/-- Membership in the buffer after the call. -/
theorem mem_iff (h : OrderedDelivery next buffer seq payload next' buffer' out) (k : ℕ) :
    k ∈ buffer' ↔
      ¬ (next ≤ k ∧ k < next + out.length) ∧ (k = seq ∨ k ∈ buffer) := by
  rw [← AList.lookup_isSome, ← AList.lookup_isSome, h.lookup_eq k]
  by_cases hin : next ≤ k ∧ k < next + out.length
  · simp [hin]
  · by_cases hk : k = seq
    · subst hk
      simp [hin]
    · simp [hin, hk]

/-- The drained slots were all filled. -/
theorem mem_of_lt (h : OrderedDelivery next buffer seq payload next' buffer' out) {i : ℕ}
    (hi : i < out.length) :
    next + i = seq ∨ next + i ∈ buffer := by
  have hlook := h.drained i out[i] (by simp [hi])
  exact (AList.mem_insert buffer).mp (Table.mem_of_lookup hlook)

/-- Filling a slot whose number has just been accepted keeps the slots in
order. -/
theorem slots (h : OrderedDelivery next buffer seq payload next' buffer' out)
    (hslots : Slots next buffer acc) (hnew : seq ∉ acc) (hrange : 0 < seq ∧ seq < seqLimit) :
    Slots next' buffer' (insert seq acc) := by
  have hbase := hslots.accept hrange
  have hnext := h.next_eq
  have hfilled : ∀ k, k = seq ∨ k ∈ buffer → k ∈ insert seq acc := by
    rintro k (rfl | hk)
    · exact Set.mem_insert _ _
    · exact hbase.buffered k hk
  have hdrained : ∀ k, next ≤ k → k < next + out.length →
      k ∈ insert seq acc := by
    intro k hle hlt
    have hslot := h.mem_of_lt (i := k - next) (by omega)
    rw [Nat.add_sub_of_le hle] at hslot
    exact hfilled k hslot
  refine ⟨?_, hbase.range, ?_, ?_, ?_, ?_, ?_⟩
  · rw [hnext]
    exact Nat.mod_lt _ (by decide)
  · intro k hk
    exact hfilled k ((h.mem_iff k).mp hk).2
  · exact AList.lookup_eq_none.mp h.stopped
  · intro k hk
    obtain ⟨hnot, hslot⟩ := (h.mem_iff k).mp hk
    have hle : next ≤ k := by
      rcases hslot with rfl | hslot
      · exact Nat.not_lt.mp fun hlt => hnew (hslots.below k hrange.1 hlt)
      · exact hslots.above k hslot
    have hreach : next + out.length ≤ k := by
      by_contra hlt
      exact hnot ⟨hle, by omega⟩
    rw [hnext]
    exact (Nat.mod_le _ _).trans hreach
  · intro s hpos hlt
    rcases Nat.lt_or_ge s next with hold | hge
    · exact hbase.below s hpos hold
    · refine hdrained s hge ?_
      rw [hnext] at hlt
      exact Nat.lt_of_lt_of_le hlt (Nat.mod_le _ _)
  · intro hzero
    rcases Nat.eq_zero_or_pos out.length with hnone | hsome
    · -- nothing was drained, so the channel had overflowed before
      have hbefore : next = 0 := by
        rw [hnext, hnone, Nat.add_zero, Nat.mod_eq_of_lt hslots.next_lt] at hzero
        exact hzero
      obtain ⟨hlast, hgone⟩ := hslots.overflowed hbefore
      refine ⟨Set.mem_insert_of_mem _ hlast, ?_⟩
      rw [h.mem_iff]
      rintro ⟨-, heq | hmem⟩
      · exact hnew (heq ▸ hlast)
      · exact hgone hmem
    · -- the drain itself reached the last slot
      have hreach : next + out.length = seqLimit := by
        have hwithin := h.within
        rw [hnext] at hzero
        by_contra hne
        rw [Nat.mod_eq_of_lt (by omega)] at hzero
        omega
      refine ⟨hdrained _ (by omega) (by omega), ?_⟩
      rw [h.mem_iff]
      rintro ⟨hnot, -⟩
      exact hnot ⟨by omega, by omega⟩

/-- A channel that has consumed everything has not overflowed. -/
theorem next_ne_zero (hslots : Slots next buffer acc) (hcons : Consumed next buffer acc) :
    next ≠ 0 := by
  intro hzero
  obtain ⟨hlast, hgone⟩ := hslots.overflowed hzero
  rcases hcons _ hlast with hlt | hmem
  · omega
  · exact hgone hmem

/-- The drain goes on as long as the slots are filled. -/
theorem lt_iff (h : OrderedDelivery next buffer seq payload next' buffer' out) {j : ℕ}
    (hlt : j < seqLimit) :
    j < next + out.length ↔
      ∀ q, next ≤ q → q ≤ j → q = seq ∨ q ∈ buffer := by
  constructor
  · intro hj q hle hq
    have hslot := h.mem_of_lt (i := q - next) (by omega)
    rwa [Nat.add_sub_of_le hle] at hslot
  · intro hall
    by_contra hstop
    have hnext : next + out.length ≤ j := by omega
    have hempty := AList.lookup_eq_none.mp h.stopped
    rw [h.next_eq, Nat.mod_eq_of_lt (by omega), h.mem_iff] at hempty
    exact hempty ⟨by omega, hall _ (by omega) hnext⟩

/-- The drain runs to the end of the range exactly when it finds all of it. -/
theorem reaches_limit_iff (h : OrderedDelivery next buffer seq payload next' buffer' out)
    (hnext : next < seqLimit) :
    next + out.length = seqLimit ↔ Exhausts next buffer seq := by
  have hwithin := h.within
  have hlast := h.lt_iff (j := seqLimit - 1) (by omega)
  constructor
  · intro hreach q hle hlt
    exact hlast.mp (by omega) q hle (by omega)
  · intro hall
    have := hlast.mpr fun q hle hq => hall q hle (by omega)
    omega

/-- After a slot has been filled everything is still consumed, unless the
channel runs over the end of the sequence space. -/
theorem consumed_iff (h : OrderedDelivery next buffer seq payload next' buffer' out)
    (hslots : Slots next buffer acc) (hcons : Consumed next buffer acc) (hnew : seq ∉ acc)
    (hrange : 0 < seq ∧ seq < seqLimit) :
    Consumed next' buffer' (insert seq acc) ↔ ¬ Exhausts next buffer seq := by
  have hnext := h.next_eq
  rw [← h.reaches_limit_iff hslots.next_lt]
  constructor
  · intro hcons' hreach
    refine next_ne_zero (h.slots hslots hnew hrange) hcons' ?_
    rw [hnext, hreach, Nat.mod_self]
  · intro hstop s hs
    have hlt : next + out.length < seqLimit := by
      have := h.within
      omega
    rw [Nat.mod_eq_of_lt hlt] at hnext
    rw [hnext, h.mem_iff]
    have hplace : s < next ∨ s = seq ∨ s ∈ buffer := by
      rcases hs with rfl | hs
      · exact .inr (.inl rfl)
      · exact (hcons s hs).imp_right .inr
    rcases hplace with hbelow | hfilled
    · exact .inl (by omega)
    · by_cases hin : next ≤ s ∧ s < next + out.length
      · exact .inl hin.2
      · exact .inr ⟨hin, hfilled⟩

end OrderedDelivery

end Fastwire.Channel
