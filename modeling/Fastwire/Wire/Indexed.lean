/-
# Parsers with their accesses written out

The parsers of this library take a byte string apart by matching on it or by reading
with a default, so that they cannot go wrong. The source reads by index and by slice
at running offsets. Here the parsers stand once more the way the source writes them,
with every access checked; each of them returns what the parser of the model returns,
so no access is ever out of range.
-/

import Fastwire.Lib.Checked
import Fastwire.Wire.Batch
import Fastwire.Wire.Packet

namespace Fastwire.Indexed

open Lib Lib.Checked

/-! ## Fixed-width fields -/

/-- `binary.BigEndian.Uint16`: the last byte is read first. -/
def bigEndianUint16 (b : Bytes) : Checked Err UInt16 := do
  let lo ← index b 1
  let hi ← index b 0
  .ok (UInt16.ofNat (hi.toNat * 2 ^ 8 + lo.toNat))

/-- `binary.LittleEndian.Uint16`. -/
def littleEndianUint16 (b : Bytes) : Checked Err ℕ := do
  let hi ← index b 1
  let lo ← index b 0
  .ok (lo.toNat + hi.toNat * 2 ^ 8)

/-- `binary.LittleEndian.Uint32`. -/
def littleEndianUint32 (b : Bytes) : Checked Err (BitVec 32) := do
  let b3 ← index b 3
  let b2 ← index b 2
  let b1 ← index b 1
  let b0 ← index b 0
  .ok (BitVec.ofNat 32 (b0.toNat + b1.toNat * 2 ^ 8 + b2.toNat * 2 ^ 16 + b3.toNat * 2 ^ 24))

theorem bigEndianUint16_eq {b : Bytes} (hb : 2 ≤ b.length) :
    bigEndianUint16 b = .ok (readUint16 b) := by
  match b, hb with
  | _ :: _ :: _, _ => rfl

theorem littleEndianUint16_eq (lo hi : UInt8) (rest : Bytes) :
    littleEndianUint16 (lo :: hi :: rest) = .ok (lo.toNat + hi.toNat * 2 ^ 8) := rfl

theorem littleEndianUint32_eq {b : Bytes} (hb : 4 ≤ b.length) :
    littleEndianUint32 b = .ok (readUint32 b) := by
  match b, hb with
  | _ :: _ :: _ :: _ :: _, _ => rfl

/-! ## Variable-length integers -/

/-- The loop of `ReadVarInt`. -/
def readVarFrom (width : ℕ) (overflow : Err) (buf : Bytes) :
    (k i val : ℕ) → Checked Err (ℕ × ℕ)
  | 0, _, _ => .error overflow
  | k + 1, i, val =>
      if i ≥ buf.length then .error .bufferTooSmall
      else do
        let b ← index buf i
        let val := val ||| (((b &&& 0x7F).toNat <<< (7 * i)) % 2 ^ width)
        if b &&& 0x80 = 0 then .ok (val, i + 1) else readVarFrom width overflow buf k (i + 1) val

def readVarInt (buf : Bytes) : Checked Err (ℕ × ℕ) := readVarFrom 32 .varIntOverflow buf 5 0 0

theorem readVarFrom_eq (width : ℕ) (overflow : Err) (buf : Bytes) (k i val : ℕ) :
    readVarFrom width overflow buf k i val =
      ofResult (Fastwire.readVarFrom width overflow k i val (buf.drop i)) := by
  induction k generalizing i val with
  | zero => rfl
  | succ k ih =>
      rw [readVarFrom]
      by_cases hi : i ≥ buf.length
      · rw [if_pos hi, List.drop_eq_nil_of_le hi]
        rfl
      · have hlt : i < buf.length := by omega
        rw [if_neg hi, index_eq_of_getElem? (List.getElem?_eq_getElem hlt),
          List.drop_eq_getElem_cons hlt, Fastwire.readVarFrom, ofResult_ite, ← ih]
        rfl

theorem readVarInt_eq (buf : Bytes) : readVarInt buf = ofResult (Fastwire.readVarInt buf) :=
  readVarFrom_eq 32 .varIntOverflow buf 5 0 0

/-- A variable-length integer is not longer than what it is read from. -/
theorem readVarInt_length {buf : Bytes} {v n : ℕ} (hok : Fastwire.readVarInt buf = .ok (v, n)) :
    n ≤ buf.length := by
  obtain ⟨-, -, hlength, -⟩ := readVarFrom_ok (by decide) (by decide) hok
  omega

/-! ## Packet headers -/

def unmarshalHeader (buf : Bytes) : Checked Err (PacketHeader × ℕ) :=
  if buf.length < 8 then .error .invalidPacketHeader
  else do
    let flags ← index buf 0
    let channel ← index buf 1
    let n := 2
    let (sequence, w) ← (readVarInt (← sliceFrom buf n)).mapError fun _ => .invalidPacketHeader
    let n := n + w
    let (ack, w) ← (readVarInt (← sliceFrom buf n)).mapError fun _ => .invalidPacketHeader
    let n := n + w
    let rest ← sliceFrom buf n
    if rest.length < 4 then .error .invalidPacketHeader
    else do
      let ackField ← littleEndianUint32 (← sliceFrom buf n)
      .ok (⟨flags, channel, UInt32.ofNat sequence, UInt32.ofNat ack, ackField⟩, n + 4)

theorem unmarshalHeader_eq (buf : Bytes) :
    unmarshalHeader buf = ofResult (Fastwire.unmarshalHeader buf) := by
  rw [unmarshalHeader, Fastwire.unmarshalHeader, ofResult_ite]
  split
  · rfl
  · rename_i hlen
    rw [index_eq (by omega) 0, index_eq (by omega) 0, ok_bind, ok_bind]
    dsimp only
    rw [sliceFrom_eq (by omega), ok_bind, readVarInt_eq]
    cases hsequence : Fastwire.readVarInt (buf.drop 2) with
    | error e => rfl
    | ok sequence =>
        have hn := readVarInt_length hsequence
        rw [List.length_drop] at hn
        simp only [ofResult_ok, mapError_ok, ok_bind]
        rw [sliceFrom_eq (by omega), ok_bind, readVarInt_eq]
        cases hack : Fastwire.readVarInt (buf.drop (2 + sequence.2)) with
        | error e => rfl
        | ok ack =>
            have hm := readVarInt_length hack
            rw [List.length_drop] at hm
            simp only [ofResult_ok, mapError_ok, ok_bind]
            rw [sliceFrom_eq (by omega), ok_bind, ofResult_ite]
            split
            · rfl
            · rename_i hfield
              rw [ok_bind, littleEndianUint32_eq (by omega)]
              rfl

theorem unmarshalHeader_length {buf : Bytes} {hdr : PacketHeader} {n : ℕ}
    (hok : Fastwire.unmarshalHeader buf = .ok (hdr, n)) : n ≤ buf.length := by
  simp only [Fastwire.unmarshalHeader] at hok
  split_ifs at hok
  split at hok
  · cases hok
  · split at hok
    · cases hok
    · split_ifs at hok with hfield
      cases hok
      rw [List.length_drop] at hfield
      omega

/-! ## Acknowledgements of several channels -/

/-- The loop of `unmarshalMultiAck`, at a running offset. -/
def multiAckFrom (data : Bytes) :
    (count offset : ℕ) → List MultiAckEntry → Checked Err (List MultiAckEntry × ℕ)
  | 0, offset, entries => .ok (entries, offset)
  | count + 1, offset, entries =>
      if offset ≥ data.length then .error .invalidHandshake
      else do
        let ch ← index data offset
        let offset := offset + 1
        let (ack, n) ← readVarInt (← sliceFrom data offset)
        let offset := offset + n
        if offset + 4 > data.length then .error .invalidHandshake
        else do
          let ackField ← littleEndianUint32 (← sliceFrom data offset)
          multiAckFrom data count (offset + 4) (entries ++ [⟨ch, UInt32.ofNat ack, ackField⟩])

def unmarshalMultiAck (data : Bytes) : Checked Err (List MultiAckEntry × ℕ) :=
  if data.length < 1 then .error .invalidHandshake
  else do
    let count ← index data 0
    multiAckFrom data count.toNat 1 []

theorem multiAckFrom_eq (data : Bytes) (count offset : ℕ) (entries : List MultiAckEntry) :
    multiAckFrom data count offset entries =
      ofResult ((unmarshalMultiAckEntries count (data.drop offset)).map
        fun (es, n) => (entries ++ es, offset + n)) := by
  induction count generalizing offset entries with
  | zero => simp [multiAckFrom, unmarshalMultiAckEntries, Except.map]
  | succ count ih =>
      rw [multiAckFrom]
      by_cases hend : offset ≥ data.length
      · rw [if_pos hend, List.drop_eq_nil_of_le hend]
        rfl
      · have hlt : offset < data.length := by omega
        rw [if_neg hend, index_eq_of_getElem? (List.getElem?_eq_getElem hlt), ok_bind,
          List.drop_eq_getElem_cons hlt, unmarshalMultiAckEntries]
        dsimp only
        rw [sliceFrom_eq (by omega), ok_bind, readVarInt_eq]
        cases hack : Fastwire.readVarInt (data.drop (offset + 1)) with
        | error e => rfl
        | ok ack =>
            have hn := readVarInt_length hack
            rw [List.length_drop] at hn
            simp only [ofResult_ok, ok_bind]
            rw [List.drop_drop, List.length_drop]
            by_cases hfield : offset + 1 + ack.2 + 4 > data.length
            · rw [if_pos hfield, if_pos (by omega)]
              rfl
            · rw [if_neg hfield, if_neg (by omega), sliceFrom_eq (by omega), ok_bind,
                littleEndianUint32_eq (by rw [List.length_drop]; omega), ok_bind, ih,
                List.drop_drop, Nat.add_assoc (offset + 1)]
              cases unmarshalMultiAckEntries count (data.drop (offset + 1 + (ack.2 + 4))) with
              | error e => rfl
              | ok tail =>
                  simp only [Except.map, ofResult_ok, List.append_assoc, List.singleton_append]
                  congr 2
                  omega

theorem unmarshalMultiAck_eq (data : Bytes) :
    unmarshalMultiAck data = ofResult (Fastwire.unmarshalMultiAck data) := by
  cases data with
  | nil => rfl
  | cons count data =>
      rw [unmarshalMultiAck, if_neg (by simp), index_cons_zero, ok_bind, multiAckFrom_eq]
      rfl

theorem unmarshalMultiAckEntries_length {count : ℕ} {data : Bytes} {entries : List MultiAckEntry}
    {n : ℕ} (hok : unmarshalMultiAckEntries count data = .ok (entries, n)) : n ≤ data.length := by
  induction count generalizing data entries n with
  | zero =>
      cases hok
      exact Nat.zero_le _
  | succ count ih =>
      cases data with
      | nil => cases hok
      | cons ch data =>
          rw [unmarshalMultiAckEntries] at hok
          cases hack : Fastwire.readVarInt data with
          | error e => simp [hack] at hok
          | ok ack =>
              simp only [hack, List.length_drop] at hok
              split_ifs at hok with hfield
              cases htail : unmarshalMultiAckEntries count (data.drop (ack.2 + 4)) with
              | error e => simp [htail] at hok
              | ok tail =>
                  simp only [htail, Except.ok.injEq, Prod.mk.injEq] at hok
                  have hrest := ih htail
                  rw [List.length_drop] at hrest
                  rw [List.length_cons]
                  omega

theorem unmarshalMultiAck_length {data : Bytes} {entries : List MultiAckEntry} {n : ℕ}
    (hok : Fastwire.unmarshalMultiAck data = .ok (entries, n)) : n ≤ data.length := by
  cases data with
  | nil => cases hok
  | cons count data =>
      rw [Fastwire.unmarshalMultiAck] at hok
      cases htail : unmarshalMultiAckEntries count.toNat data with
      | error e => simp [htail, Except.map] at hok
      | ok tail =>
          simp only [htail, Except.map, Except.ok.injEq, Prod.mk.injEq] at hok
          have hrest := unmarshalMultiAckEntries_length htail
          rw [List.length_cons]
          omega

/-! ## Batches -/

/-- The loop of `UnmarshalBatch`, at a running offset. -/
def batchFrom (data : Bytes) : (count offset : ℕ) → List Bytes → Checked Err (List Bytes)
  | 0, _, packets => .ok packets
  | count + 1, offset, packets =>
      if offset + 2 > data.length then .error .invalidBatchFrame
      else do
        let pktLen ← littleEndianUint16 (← sliceFrom data offset)
        let offset := offset + 2
        if offset + pktLen > data.length then .error .invalidBatchFrame
        else do
          let packet ← slice data offset (offset + pktLen)
          batchFrom data count (offset + pktLen) (packets ++ [packet])

def unmarshalBatch (data : Bytes) : Checked Err (List Bytes) :=
  if data.length < 1 then .error .invalidBatchFrame
  else do
    let count ← index data 0
    if count.toNat = 0 then .error .invalidBatchFrame else batchFrom data count.toNat 1 []

/-- Two bytes or less than two. -/
theorem two_bytes_cases (bs : Bytes) :
    bs.length < 2 ∨ ∃ lo hi rest, bs = lo :: hi :: rest := by
  cases bs with
  | nil => exact .inl (by decide)
  | cons lo bs =>
      cases bs with
      | nil => exact .inl (by simp)
      | cons hi rest => exact .inr ⟨lo, hi, rest, rfl⟩

theorem readBatch_lt_two (count : ℕ) {bs : Bytes} (hshort : bs.length < 2) :
    readBatch (count + 1) bs = .error .invalidBatchFrame := by
  cases bs with
  | nil => rfl
  | cons lo bs =>
      cases bs with
      | nil => rfl
      | cons hi rest =>
          rw [List.length_cons, List.length_cons] at hshort
          omega

theorem batchFrom_eq (data : Bytes) (count offset : ℕ) (packets : List Bytes) :
    batchFrom data count offset packets =
      ofResult ((readBatch count (data.drop offset)).map (packets ++ ·)) := by
  induction count generalizing offset packets with
  | zero => simp [batchFrom, readBatch, Except.map]
  | succ count ih =>
      rw [batchFrom]
      by_cases hlen : offset + 2 > data.length
      · rw [if_pos hlen]
        have hshort : (data.drop offset).length < 2 := by
          rw [List.length_drop]
          omega
        rw [readBatch_lt_two count hshort]
        rfl
      · have hlong : ¬ (data.drop offset).length < 2 := by
          rw [List.length_drop]
          omega
        obtain ⟨lo, hi, rest, hrest⟩ := (two_bytes_cases (data.drop offset)).resolve_left hlong
        have htail : data.drop (offset + 2) = rest := by rw [← List.drop_drop, hrest]; rfl
        have hlength : rest.length = data.length - (offset + 2) := by
          rw [← htail, List.length_drop]
        rw [if_neg hlen, sliceFrom_eq (by omega), hrest, ok_bind, littleEndianUint16_eq, ok_bind,
          readBatch]
        by_cases hpacket : offset + 2 + (lo.toNat + hi.toNat * 2 ^ 8) > data.length
        · rw [if_pos hpacket, if_pos (by omega)]
          rfl
        · rw [if_neg hpacket, if_neg (by omega), slice_eq (by omega) (by omega), ok_bind, ih,
            List.drop_take, htail, Nat.add_sub_cancel_left, ← List.drop_drop, htail]
          cases readBatch count (rest.drop (lo.toNat + hi.toNat * 2 ^ 8)) with
          | error e => rfl
          | ok tail => simp [Except.map]

theorem unmarshalBatch_eq (data : Bytes) :
    unmarshalBatch data = ofResult (Fastwire.unmarshalBatch data) := by
  cases data with
  | nil => rfl
  | cons count data =>
      have hzero : count.toNat = 0 ↔ count = 0 := UInt8.toNat_inj (b := 0)
      rw [unmarshalBatch, if_neg (by simp), index_cons_zero, ok_bind, Fastwire.unmarshalBatch,
        ofResult_ite, batchFrom_eq]
      simp only [hzero, List.drop_succ_cons, List.drop_zero]
      congr 1
      cases readBatch count.toNat data with
      | error e => rfl
      | ok packets => rfl

end Fastwire.Indexed
