/-
# Batch frames

With batching negotiated every datagram is a frame of one or more packets, each
behind a 16-bit little-endian length.
-/

import Fastwire.Wire.VarInt

namespace Fastwire

def batchHeaderSize : ℕ := 1

def batchLenSize : ℕ := 2

/-- One length-prefixed packet. A longer packet keeps its length modulo `2^16`. -/
def batchEntry (packet : Bytes) : Bytes :=
  UInt8.ofNat packet.length :: UInt8.ofNat (packet.length >>> 8) :: packet

/-- The frame of a batch: the number of packets, then the packets. -/
def batchFrame (packets : List Bytes) : Bytes :=
  UInt8.ofNat packets.length :: packets.flatMap batchEntry

def batchOverhead (n : ℕ) : ℕ := batchHeaderSize + n * batchLenSize

/-- `MarshalBatch` on a buffer with the given room. It does not look at the lengths of
the packets. -/
def marshalBatch (room : ℕ) (packets : List Bytes) : Except Err Bytes :=
  if packets.length = 0 ∨ packets.length > 255 then .error .invalidBatchFrame
  else
    let needed :=
      packets.foldl (fun needed p => needed + (batchLenSize + p.length)) batchHeaderSize
    if room < needed then .error .bufferTooSmall
    else .ok (batchFrame packets)

/-- The frame `sendFramed` puts around a single packet. -/
def singleFrame (packet : Bytes) : Bytes := 1 :: batchEntry packet

/-- The loop of `UnmarshalBatch` over the announced number of packets. -/
def readBatch : ℕ → Bytes → Except Err (List Bytes)
  | 0, _ => .ok []
  | count + 1, lo :: hi :: data =>
      let pktLen := lo.toNat + hi.toNat * 2 ^ 8
      if data.length < pktLen then .error .invalidBatchFrame
      else (readBatch count (data.drop pktLen)).map (data.take pktLen :: ·)
  | _ + 1, _ => .error .invalidBatchFrame

def unmarshalBatch : Bytes → Except Err (List Bytes)
  | [] => .error .invalidBatchFrame
  | count :: data => if count = 0 then .error .invalidBatchFrame else readBatch count.toNat data

/-! ## Reading back what was framed -/

/-- The loop reads back packets whose length fits its field, whatever follows. -/
theorem readBatch_batchEntry {packets : List Bytes} (hshort : ∀ p ∈ packets, p.length < 2 ^ 16)
    (rest : Bytes) :
    readBatch packets.length (packets.flatMap batchEntry ++ rest) = .ok packets := by
  induction packets with
  | nil => rfl
  | cons packet packets ih =>
      rw [List.forall_mem_cons] at hshort
      have hlen : (UInt8.ofNat packet.length).toNat +
          (UInt8.ofNat (packet.length >>> 8)).toNat * 2 ^ 8 = packet.length := by
        have hpacket := hshort.1
        simp only [UInt8.toNat_ofNat', Nat.shiftRight_eq_div_pow]
        omega
      simp only [List.length_cons, List.flatMap_cons, batchEntry, List.cons_append,
        List.append_assoc, readBatch, hlen, List.drop_left, List.take_left, ih hshort.2]
      rw [if_neg (by simp)]
      rfl

/-- A frame of at most 255 packets is read back. -/
theorem unmarshalBatch_frame {packets : List Bytes} (hne : packets ≠ [])
    (hcount : packets.length ≤ 255) (hshort : ∀ p ∈ packets, p.length < 2 ^ 16) :
    unmarshalBatch (batchFrame packets) = .ok packets := by
  have hpos := List.length_pos_iff.mpr hne
  have hbyte : (UInt8.ofNat packets.length).toNat = packets.length := by
    rw [UInt8.toNat_ofNat']
    omega
  have hzero : UInt8.ofNat packets.length ≠ 0 := by
    intro heq
    rw [heq] at hbyte
    exact absurd hbyte.symm (Nat.ne_of_gt hpos)
  rw [batchFrame, unmarshalBatch, if_neg hzero, hbyte]
  simpa using readBatch_batchEntry hshort []

theorem unmarshalBatch_singleFrame {packet : Bytes} (hshort : packet.length < 2 ^ 16) :
    unmarshalBatch (singleFrame packet) = .ok [packet] := by
  have hframe := unmarshalBatch_frame (List.cons_ne_nil packet []) (by simp) (by simpa using hshort)
  simpa [singleFrame, batchFrame] using hframe

/-! ## `MarshalBatch` -/

/-- The space `MarshalBatch` asks for. -/
theorem foldl_needed (packets : List Bytes) (needed : ℕ) :
    packets.foldl (fun needed p => needed + (batchLenSize + p.length)) needed =
      needed + packets.length * batchLenSize + (packets.map List.length).sum := by
  induction packets generalizing needed with
  | nil => simp
  | cons packet packets ih =>
      rw [List.foldl_cons, ih, List.length_cons, List.map_cons, List.sum_cons, Nat.add_mul]
      omega

/-- A packet that is read is as long as its 16-bit length says. -/
theorem readBatch_short {count : ℕ} {data : Bytes} {packets : List Bytes}
    (hok : readBatch count data = .ok packets) : ∀ p ∈ packets, p.length < 2 ^ 16 := by
  induction count generalizing data packets with
  | zero =>
      cases hok
      simp
  | succ count ih =>
      match data, hok with
      | [], hok => cases hok
      | [_], hok => cases hok
      | lo :: hi :: data, hok =>
          rw [readBatch] at hok
          split at hok
          · cases hok
          · cases hrest : readBatch count (data.drop (lo.toNat + hi.toNat * 2 ^ 8)) with
            | error err =>
                rw [hrest] at hok
                cases hok
            | ok rest =>
                simp only [hrest, Except.map, Except.ok.injEq] at hok
                subst hok
                have hlen : lo.toNat + hi.toNat * 2 ^ 8 < 2 ^ 16 := by
                  have hlo := lo.toNat_lt
                  have hhi := hi.toNat_lt
                  omega
                rw [List.forall_mem_cons]
                exact ⟨(List.length_take_le _ _).trans_lt hlen, ih hrest⟩

/-- What `MarshalBatch` has packed is unpacked again exactly if the lengths of all
packets fit into their 16-bit fields; and `MarshalBatch` fails for no other reason than
the number of packets, the size of the buffer or the length of a packet. -/
theorem batch_codec_iff (room : ℕ) (packets : List Bytes) :
    (∀ bs, marshalBatch room packets = .ok bs →
      (unmarshalBatch bs = .ok packets ↔ ∀ p ∈ packets, p.length < 2 ^ 16)) ∧
    ∀ err, marshalBatch room packets = .error err →
      packets = [] ∨ 255 < packets.length ∨
        room < batchOverhead packets.length + (packets.map List.length).sum ∨
        ∃ p ∈ packets, 2 ^ 16 ≤ p.length := by
  rw [marshalBatch, foldl_needed]
  split
  · rename_i hcount
    refine ⟨nofun, fun err _ => ?_⟩
    exact hcount.imp List.length_eq_zero_iff.mp .inl
  · rename_i hcount
    dsimp only
    split
    · rename_i hroom
      exact ⟨nofun, fun err _ => .inr (.inr (.inl hroom))⟩
    · refine ⟨?_, nofun⟩
      rintro bs ⟨⟩
      have hne : packets ≠ [] := by
        rintro rfl
        exact hcount (.inl rfl)
      constructor
      · intro hread p hp
        rw [batchFrame, unmarshalBatch] at hread
        split at hread
        · cases hread
        · exact readBatch_short hread p hp
      · exact unmarshalBatch_frame hne (by omega)

theorem batch_codec_iff_two :
    marshalBatch 9 [[1], [2, 3]] = .ok [2, 1, 0, 1, 2, 0, 2, 3] ∧
      unmarshalBatch [2, 1, 0, 1, 2, 0, 2, 3] = .ok [[1], [2, 3]] :=
  have hpacked : marshalBatch 9 [[1], [2, 3]] = .ok [2, 1, 0, 1, 2, 0, 2, 3] := by decide
  ⟨hpacked, ((batch_codec_iff 9 [[1], [2, 3]]).1 _ hpacked).mpr (by decide)⟩

/-- One packet is packed as `sendFramed` frames it. -/
theorem marshalBatch_singleton {room : ℕ} {packet : Bytes} (hroom : packet.length + 3 ≤ room) :
    marshalBatch room [packet] = .ok (singleFrame packet) := by
  have hneeded : ¬room < batchHeaderSize + (batchLenSize + packet.length) := by
    simp only [batchHeaderSize, batchLenSize]
    omega
  rw [marshalBatch, if_neg (by simp), List.foldl_cons, List.foldl_nil, if_neg hneeded]
  simp [singleFrame, batchFrame]

/-- A packet whose length is a multiple of `2^16` is framed as an empty one. -/
theorem unmarshalBatch_long {packet : Bytes} (hlen : packet.length % 2 ^ 16 = 0) :
    unmarshalBatch (singleFrame packet) = .ok [[]] := by
  have hbytes : (UInt8.ofNat packet.length).toNat = 0 ∧
      (UInt8.ofNat (packet.length >>> 8)).toNat = 0 := by
    rw [UInt8.toNat_ofNat', UInt8.toNat_ofNat', Nat.shiftRight_eq_div_pow]
    omega
  have hone : (1 : UInt8).toNat = 0 + 1 := rfl
  rw [singleFrame, unmarshalBatch, if_neg (by decide), hone, batchEntry, readBatch, hbytes.1,
    hbytes.2]
  rfl

/-- A packet of 65536 bytes is packed with length 0, and an empty packet is unpacked. -/
theorem long_packet_unpacked_empty :
    ∃ bs, marshalBatch 65539 [List.replicate 65536 7] = .ok bs ∧ unmarshalBatch bs = .ok [[]] := by
  have hlen : (List.replicate 65536 (7 : UInt8)).length = 65536 := List.length_replicate
  refine ⟨singleFrame (List.replicate 65536 7), marshalBatch_singleton ?_, unmarshalBatch_long ?_⟩
  · rw [hlen]
  · rw [hlen]
    decide

end Fastwire
