/-
# The bound of the reorder buffer

`recordReceive` refuses what is too far ahead of `recvNextDeliver`, `deliver` fills
the buffer and moves `recvNextDeliver` on. What is behind `recvNextDeliver` was
accepted before and is refused as a duplicate, so the slots in use are always less
than one window ahead. A drain that runs over the end of the 32-bit range leaves
nothing buffered.
-/

import Fastwire.Channel.Ordered

namespace Fastwire.Channel

open Lib

/-! ## One delivery -/

section

variable {next next' window : ℕ} {buffer buffer' : ReorderBuffer} {acc : Set ℕ} {seq : ℕ}
  {payload : Slice} {out : List Slice}

/-- The slots in use are less than one window ahead. -/
def Within (window next : ℕ) (buffer : ReorderBuffer) : Prop :=
  ∀ k ∈ buffer, k < next + window

/-- A new number is not behind the channel. -/
theorem Slots.le_of_notMem (h : Slots next buffer acc) (hpos : 0 < seq) (hnew : seq ∉ acc) :
    next ≤ seq := by
  by_contra hlt
  exact hnew (h.below seq hpos (Nat.not_le.mp hlt))

/-- Filling a slot inside the window keeps the buffer inside the window that the drain
has moved. -/
theorem OrderedDelivery.within_window
    (h : OrderedDelivery next buffer seq payload next' buffer' out) (hslots : Slots next buffer acc)
    (hnew : seq ∉ acc) (hrange : 0 < seq ∧ seq < seqLimit) (hseq : seq < next + window)
    (hbuffer : Within window next buffer) : Within window next' buffer' := by
  intro k hk
  have hlt : k < seqLimit := ((h.slots hslots hnew hrange).range k
    ((h.slots hslots hnew hrange).buffered k hk)).2
  obtain ⟨hkept, hfilled⟩ := (h.mem_iff k).mp hk
  have hahead : next ≤ k ∧ k < next + window := by
    rcases hfilled with rfl | hold
    · exact ⟨hslots.le_of_notMem hrange.1 hnew, hseq⟩
    · exact ⟨hslots.above k hold, hbuffer k hold⟩
  -- `k` is behind the drained slots, which therefore end before the limit
  have hnext : next' = next + out.length := by
    rw [h.next_eq]
    exact Nat.mod_eq_of_lt (by omega)
  omega

/-- The differences as the code computes them. -/
theorem Slots.toNat_sub (h : Slots next buffer acc) {k : ℕ} (hk : k ∈ buffer) :
    (UInt32.ofNat k - UInt32.ofNat next).toNat = k - next := by
  have hlt : k < 2 ^ 32 := (h.range k (h.buffered k hk)).2
  have hnext : next < 2 ^ 32 := h.next_lt
  have hle := h.above k hk
  rw [UInt32.toNat_sub_of_le]
  · rw [UInt32.toNat_ofNat_of_lt' hlt, UInt32.toNat_ofNat_of_lt' hnext]
  · rw [UInt32.le_iff_toNat_le, UInt32.toNat_ofNat_of_lt' hlt, UInt32.toNat_ofNat_of_lt' hnext]
    exact hle

/-- `recvNextDeliver` itself is not buffered. -/
theorem Slots.next_lt_of_mem (h : Slots next buffer acc) {k : ℕ} (hk : k ∈ buffer) : next < k := by
  apply Nat.lt_of_le_of_ne (h.above k hk)
  rintro rfl
  exact h.next_notMem hk

/-- A window of slots of which the first one is empty. -/
theorem Slots.length_lt (h : Slots next buffer acc) (hwithin : Within window next buffer)
    (hwindow : 0 < window) : buffer.keys.length < window := by
  have hsubset : buffer.keys ⊆ List.range' (next + 1) (window - 1) := by
    intro k hk
    have hmem := AList.mem_keys.mpr hk
    have hlow := h.next_lt_of_mem hmem
    have hhigh := hwithin k hmem
    rw [List.mem_range'_1]
    omega
  have hlength := (List.subperm_of_subset buffer.keys_nodup hsubset).length_le
  rw [List.length_range'] at hlength
  omega

end

/-! ## Runs -/

/-- An incoming packet: its number, the payload that reaches `deliver`, and whether
anything does. A fragment that does not complete its message delivers nil, and a packet
that reassembly refuses delivers nothing. -/
structure Incoming where
  seq : UInt32
  payload : Slice
  reaches : Bool

/-- What the channel makes of a packet. -/
def receive (ch : Channel) (p : Incoming) : Except GoPanic Channel :=
  match ch.recordReceive p.seq.toNat with
  | (ch, false) => .ok ch
  | (ch, true) =>
      if p.reaches then (ch.deliver p.seq.toNat p.payload).map Prod.fst else .ok ch

/-- The invariant of an ordered channel with a receive window. -/
structure Windowed (ch : Channel) (window : ℕ) (buffer : ReorderBuffer) (acc : Set ℕ) :
    Prop where
  mode : ch.mode = .reliableOrdered
  window_eq : ch.maxReorderWindow = window
  buffer_eq : ch.recvBuffer = some buffer
  ack : ch.AckExact acc
  slots : Slots ch.recvNextDeliver buffer acc
  within : Within window ch.recvNextDeliver buffer

variable {ch : Channel} {window : ℕ} {buffer : ReorderBuffer} {acc : Set ℕ}

theorem windowed_init (streamIndex : UInt8) (maxReorderWindow : ℤ) :
    Windowed (.init .reliableOrdered streamIndex maxReorderWindow)
      (init .reliableOrdered streamIndex maxReorderWindow).maxReorderWindow ∅ ∅ where
  mode := rfl
  window_eq := rfl
  buffer_eq := rfl
  ack := ackExact_init _ streamIndex maxReorderWindow
  slots := slots_init
  within k hk := absurd hk (AList.notMem_empty k)

/-- What is accepted is new and inside the window. -/
theorem Windowed.accepted (h : Windowed ch window buffer acc) (hwindow : 0 < window) {seq : ℕ}
    (haccepted : (ch.recordReceive seq).2 = true) :
    0 < seq ∧ seq ∉ acc ∧ seq < ch.recvNextDeliver + window := by
  obtain ⟨hzero, hbeyond, hnew, -⟩ := (recordReceive_iff h.ack).mp haccepted
  have hpos := Nat.pos_of_ne_zero hzero
  have hahead := h.slots.le_of_notMem hpos hnew
  refine ⟨hpos, hnew, ?_⟩
  by_contra hfar
  have hfalse : ch.beyondWindow seq = true := by
    simp only [beyondWindow, h.mode, h.window_eq, decide_eq_true_eq]
    exact ⟨trivial, hwindow, hahead, by omega⟩
  rw [hbeyond] at hfalse
  cases hfalse

/-- One packet. -/
theorem Windowed.receive (h : Windowed ch window buffer acc) (hwindow : 0 < window)
    (p : Incoming) :
    ∃ ch' buffer' acc', ch.receive p = .ok ch' ∧ Windowed ch' window buffer' acc' := by
  rcases ch.recordReceive_cases p.seq.toNat with hrefused | ⟨ack, field, haccepted⟩
  · refine ⟨ch, buffer, acc, ?_, h⟩
    rw [Channel.receive, hrefused]
  have htrue : (ch.recordReceive p.seq.toNat).2 = true := by rw [haccepted]
  obtain ⟨hpos, hnew, hnear⟩ := h.accepted hwindow htrue
  have hrange : 0 < p.seq.toNat ∧ p.seq.toNat < seqLimit := ⟨hpos, p.seq.toNat_lt⟩
  have hack := h.ack.recordReceive htrue
  rw [haccepted] at hack
  cases hreaches : p.reaches with
  | false =>
      have hreceive : ch.receive p =
          .ok { ch with recvAck := ack, recvAckField := field, needsAck := true } := by
        rw [Channel.receive, haccepted]
        simp [hreaches]
      exact ⟨_, buffer, insert p.seq.toNat acc, hreceive, h.mode, h.window_eq, h.buffer_eq, hack,
        h.slots.accept hrange, h.within⟩
  | true =>
      have hkeys : ∀ k ∈ buffer, 0 < k := fun k hk => (h.slots.range k (h.slots.buffered k hk)).1
      obtain ⟨next', buffer', out, hdeliver, hordered⟩ :=
        @deliver_ordered
          { ch with recvAck := ack, recvAckField := field, needsAck := true } buffer p.seq.toNat
          p.payload h.mode h.buffer_eq h.slots.next_lt hpos hkeys
      have hreceive : ch.receive p =
          .ok { ch with
            recvAck := ack, recvAckField := field, needsAck := true
            recvBuffer := some buffer', recvNextDeliver := next' } := by
        rw [Channel.receive, haccepted]
        simp only [hreaches, if_true, hdeliver]
        rfl
      exact ⟨_, buffer', insert p.seq.toNat acc, hreceive, h.mode, h.window_eq, rfl,
        hack.congr rfl rfl, hordered.slots h.slots hnew hrange,
        hordered.within_window h.slots hnew hrange hnear h.within⟩

/-- Any number of packets. -/
theorem Windowed.run (h : Windowed ch window buffer acc) (hwindow : 0 < window)
    (packets : List Incoming) :
    ∃ ch' buffer' acc', packets.foldlM Channel.receive ch = .ok ch' ∧
      Windowed ch' window buffer' acc' := by
  induction packets generalizing ch buffer acc with
  | nil => exact ⟨ch, buffer, acc, rfl, h⟩
  | cons p packets ih =>
      obtain ⟨ch₁, buffer₁, acc₁, hfirst, h₁⟩ := h.receive hwindow p
      obtain ⟨ch', buffer', acc', hrest, h'⟩ := ih h₁
      refine ⟨ch', buffer', acc', ?_, h'⟩
      rw [List.foldlM_cons, hfirst]
      exact hrest

/-- **The reorder buffer is bounded.** Whatever packets arrive, and as many as do, the
buffered numbers are ahead of `recvNextDeliver` by less than the window. -/
theorem reorder_buffer_bounded (streamIndex : UInt8) (maxReorderWindow : ℤ)
    (hwindow : 0 < (init .reliableOrdered streamIndex maxReorderWindow).maxReorderWindow)
    (packets : List Incoming) :
    ∃ ch buffer,
      packets.foldlM receive (init .reliableOrdered streamIndex maxReorderWindow) = .ok ch ∧
      ch.recvBuffer = some buffer ∧
      ch.maxReorderWindow =
        (init .reliableOrdered streamIndex maxReorderWindow).maxReorderWindow ∧
      (∀ k ∈ buffer, 0 < (UInt32.ofNat k - UInt32.ofNat ch.recvNextDeliver).toNat ∧
        (UInt32.ofNat k - UInt32.ofNat ch.recvNextDeliver).toNat < ch.maxReorderWindow) ∧
      buffer.keys.length < ch.maxReorderWindow := by
  obtain ⟨ch, buffer, acc, hrun, h⟩ :=
    (windowed_init streamIndex maxReorderWindow).run hwindow packets
  refine ⟨ch, buffer, hrun, h.buffer_eq, h.window_eq, ?_, ?_⟩
  · intro k hk
    have hlow := h.slots.next_lt_of_mem hk
    have hhigh := h.within k hk
    rw [h.slots.toNat_sub hk, h.window_eq]
    omega
  · rw [h.window_eq]
    exact h.slots.length_lt h.within hwindow

/-- With a window of 8, number 8 waits for number 1, and number 9 is refused. -/
theorem reorder_buffer_bounded_eight :
    ∃ ch buffer,
      [(⟨8, some [7], true⟩ : Incoming), ⟨9, none, true⟩].foldlM receive
        (init .reliableOrdered 0 8) = .ok ch ∧
      ch.recvBuffer = some buffer ∧ buffer.keys.length < 8 ∧ 8 ∈ buffer := by
  obtain ⟨ch, buffer, hrun, hbuffer, hwindow, -, hlength⟩ :=
    reorder_buffer_bounded 0 8 (by decide) [⟨8, some [7], true⟩, ⟨9, none, true⟩]
  have hkeys : ([(⟨8, some [7], true⟩ : Incoming), ⟨9, none, true⟩].foldlM receive
      (init .reliableOrdered 0 8)).toOption.bind (fun ch => ch.recvBuffer.map AList.keys) =
        some [8] := by
    decide
  rw [hrun] at hkeys
  simp only [Except.toOption, Option.bind_some, hbuffer, Option.map_some, Option.some.injEq]
    at hkeys
  rw [hwindow] at hlength
  refine ⟨ch, buffer, hrun, hbuffer, hlength, ?_⟩
  rw [AList.mem_keys, hkeys]
  exact List.mem_singleton_self 8

end Fastwire.Channel
