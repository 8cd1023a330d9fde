/-
# Packing batches

`flushBatch` fills datagrams greedily. A packet goes into the current datagram as
long as the MTU and the count byte leave room for it, otherwise the datagram is sent
and the next one begun. A packet that fits no datagram is sent alone. So whatever the
sizes are, the datagrams are frames of consecutive packets.
-/

import Fastwire.Connection.Send

namespace Fastwire.Connection

/-! ## Groups of packets -/

/-- The packets of one datagram of a flush. -/
structure Packed (mtu : ℤ) (group : List Bytes) : Prop where
  ne_nil : group ≠ []
  count_le : group.length ≤ 255
  fits : ((batchFrame group).length : ℤ) ≤ mtu ∨ ∃ p, group = [p] ∧ mtu - 3 < p.length

/-- The packets that wait in the current datagram, if there are any, are sent as they
are. -/
theorem closeDatagram_groups {mtu : ℤ} {waiting : List Bytes}
    (hwaiting : waiting ≠ [] → Packed mtu waiting) :
    ∃ groups : List (List Bytes),
      closeDatagram waiting.length (waiting.flatMap batchEntry) = groups.map batchFrame ∧
      groups.flatten = waiting ∧ ∀ group ∈ groups, Packed mtu group := by
  cases waiting with
  | nil => exact ⟨[], rfl, rfl, by simp⟩
  | cons p ps =>
      have hclose : closeDatagram (p :: ps).length ((p :: ps).flatMap batchEntry) =
          [batchFrame (p :: ps)] := by
        rw [closeDatagram, if_neg (by simp)]
        rfl
      exact ⟨[p :: ps], hclose, by simp, by simpa using hwaiting⟩

/-- **What the packing loop makes of the packets.** They are cut into groups, and each
group is sent in one frame. -/
theorem packBatch_groups (mtu : ℤ) (waiting packets : List Bytes)
    (hwaiting : waiting ≠ [] → Packed mtu waiting) :
    ∃ groups : List (List Bytes),
      packBatch mtu waiting.length (waiting.flatMap batchEntry) packets = groups.map batchFrame ∧
      groups.flatten = waiting ++ packets ∧ ∀ group ∈ groups, Packed mtu group := by
  induction packets generalizing waiting with
  | nil => simpa [packBatch] using closeDatagram_groups hwaiting
  | cons packet packets ih =>
      obtain ⟨before, hclose, hflatten, hbefore⟩ := closeDatagram_groups hwaiting
      have hentry : (batchEntry packet).length = packet.length + 2 := by simp [batchEntry]
      have hframe : ∀ group, (batchFrame group).length = (group.flatMap batchEntry).length + 1 :=
        fun group => by rw [batchFrame, List.length_cons]
      have hstep := packBatch.eq_2 mtu waiting.length (waiting.flatMap batchEntry) packet packets
      have hheader : batchHeaderSize = 1 := rfl
      split at hstep
      · -- the packet fits no datagram
        rename_i hlarge
        have halone : Packed mtu [packet] :=
          ⟨by simp, by simp, .inr ⟨packet, rfl, by omega⟩⟩
        obtain ⟨groups, hrest, hflatten', hgroups⟩ := ih [] (by simp)
        refine ⟨before ++ [packet] :: groups, ?_, ?_, ?_⟩
        · rw [hstep, hclose, List.map_append, List.map_cons, ← hrest]
          simp [singleFrame, batchFrame]
        · simp [hflatten, hflatten']
        · rw [List.forall_mem_append, List.forall_mem_cons]
          exact ⟨hbefore, halone, hgroups⟩
      · rename_i hsmall
        split at hstep
        · -- the current datagram is full
          have hfresh : Packed mtu [packet] := by
            apply Packed.mk (by simp) (by simp)
            rw [hframe, List.flatMap_singleton]
            omega
          obtain ⟨groups, hrest, hflatten', hgroups⟩ := ih [packet] fun _ => hfresh
          refine ⟨before ++ groups, ?_, ?_, ?_⟩
          · rw [hstep, hclose, List.map_append, ← hrest]
            simp
          · simp [hflatten, hflatten']
          · rw [List.forall_mem_append]
            exact ⟨hbefore, hgroups⟩
        · rename_i hroom
          have hnext : Packed mtu (waiting ++ [packet]) := by
            apply Packed.mk (by simp)
            · rw [List.length_append, List.length_singleton]
              omega
            · rw [hframe, List.flatMap_append, List.flatMap_singleton, List.length_append]
              omega
          obtain ⟨groups, hrest, hflatten', hgroups⟩ :=
            ih (waiting ++ [packet]) fun _ => hnext
          refine ⟨groups, ?_, by simpa using hflatten', hgroups⟩
          rw [hstep, ← hrest]
          simp

/-! ## Writing the datagrams -/

/-- The socket takes every datagram. -/
def Reliable (s : Socket) : Prop := ∀ failure ∈ s.failures, failure = false

/-- A write that cannot fail. -/
theorem Reliable.write {s : Socket} (hs : Reliable s) (datagram : Bytes) :
    ∃ s', s.write datagram = (s', .ok ()) ∧ s'.written = s.written ++ [datagram] ∧
      Reliable s' := by
  obtain ⟨failures, written⟩ := s
  cases failures with
  | nil => exact ⟨_, rfl, rfl, by simp [Reliable]⟩
  | cons failure failures =>
      rw [Reliable, List.forall_mem_cons] at hs
      obtain ⟨rfl, hrest⟩ := hs
      exact ⟨_, rfl, rfl, hrest⟩

theorem writeAll_reliable {s : Socket} (hs : Reliable s) (datagrams : List Bytes) :
    ∃ s', writeAll s datagrams = (s', .ok ()) ∧ s'.written = s.written ++ datagrams := by
  induction datagrams generalizing s with
  | nil => exact ⟨s, rfl, by simp⟩
  | cons d ds ih =>
      obtain ⟨s₁, hwrite, hwritten, hs₁⟩ := hs.write d
      obtain ⟨s₂, hrest, hwritten'⟩ := ih hs₁
      refine ⟨s₂, ?_, by simp [hwritten', hwritten]⟩
      simp only [writeAll, hwrite, hrest]

/-- **Flushing a batch.** The datagrams that are sent carry the queued packets, all of
them, once and in order; each carries between 1 and 255 of them and keeps to the MTU,
unless it carries a single packet that is too large for it. -/
theorem flushBatch_packing (c : Connection) {s : Socket} (hs : Reliable s) (mtu : ℤ)
    (hshort : ∀ p ∈ c.batchBuf, p.length ≤ 65535) :
    ∃ (s' : Socket) (sent : List (Bytes × List Bytes)),
      c.flushBatch s mtu = ({ c with batchBuf := [] }, s', .ok ()) ∧
      s'.written = s.written ++ sent.map Prod.fst ∧
      sent.flatMap Prod.snd = c.batchBuf ∧
      ∀ d ∈ sent, unmarshalBatch d.1 = .ok d.2 ∧ 1 ≤ d.2.length ∧ d.2.length ≤ 255 ∧
        ((d.1.length : ℤ) ≤ mtu ∨ ∃ p, d.2 = [p] ∧ mtu - 3 < p.length) := by
  obtain ⟨groups, hpack, hflatten, hgroups⟩ :=
    packBatch_groups mtu [] c.batchBuf (by simp)
  obtain ⟨s', hwrite, hwritten⟩ := writeAll_reliable hs (packBatch mtu 0 [] c.batchBuf)
  refine ⟨s', groups.map fun group => (batchFrame group, group), ?_, ?_, ?_, ?_⟩
  · rw [flushBatch, hwrite]
  · rw [hwritten, List.map_map]
    exact congrArg _ hpack
  · rw [List.flatMap_map, List.flatMap_id', hflatten, List.nil_append]
  · intro d hd
    obtain ⟨group, hgroup, rfl⟩ := List.mem_map.mp hd
    obtain ⟨hne, hcount, hfits⟩ := hgroups group hgroup
    refine ⟨unmarshalBatch_frame hne hcount fun p hp => ?_, List.length_pos_iff.mpr hne, hcount,
      hfits⟩
    have hmem : p ∈ c.batchBuf := by
      rw [← List.nil_append c.batchBuf, ← hflatten]
      exact List.mem_flatten.mpr ⟨group, hgroup, hp⟩
    exact Nat.lt_succ_of_le (hshort p hmem)

/-- A connection whose batch queue holds the packets. -/
def queueing (packets : List Bytes) : Connection :=
  { newConnection (plainInput []) 0 with batchBuf := packets }

/-- At an MTU of 8 the first two packets share a datagram, and the third fits none. -/
theorem flushBatch_packing_three :
    ((queueing [[1], [2], [3, 4, 5, 6, 7, 8]]).flushBatch ⟨[], []⟩ 8).2.1.written =
        [[2, 1, 0, 1, 1, 0, 2], [1, 6, 0, 3, 4, 5, 6, 7, 8]] ∧
      ∃ (s' : Socket) (sent : List (Bytes × List Bytes)),
        (queueing [[1], [2], [3, 4, 5, 6, 7, 8]]).flushBatch ⟨[], []⟩ 8 =
          (queueing [], s', .ok ()) ∧
        s'.written = sent.map Prod.fst ∧
        sent.flatMap Prod.snd = [[1], [2], [3, 4, 5, 6, 7, 8]] := by
  have hs : Reliable ⟨[], []⟩ := by simp [Reliable]
  obtain ⟨s', sent, hflush, hwritten, hsent, -⟩ :=
    flushBatch_packing (queueing [[1], [2], [3, 4, 5, 6, 7, 8]]) hs 8 (by decide)
  exact ⟨by decide, s', sent, hflush, hwritten, hsent⟩

end Fastwire.Connection
