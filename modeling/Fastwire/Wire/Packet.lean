/-
# Packet headers and control payloads

The decrypted packet starts with a header of two bytes, two variable-length
integers and a fixed 32-bit field; a control packet continues with a type byte.
Besides the header only the multi-channel acknowledgement is modelled here,
since it is the one control payload that feeds back into the channels.
-/

import Fastwire.Wire.VarInt
import Mathlib.Data.UInt

namespace Fastwire

def flagFragment : UInt8 := 1

def flagControl : UInt8 := 2

structure PacketHeader where
  flags : UInt8
  channel : UInt8
  sequence : UInt32
  ack : UInt32
  ackField : BitVec 32
  deriving DecidableEq, Repr

/-- The control packet types. A byte outside the list reaches the default
branch of every dispatch. -/
inductive ControlType
  | connect
  | challenge
  | response
  | connected
  | disconnect
  | heartbeat
  | versionMismatch
  | reject
  | multiAck
  deriving DecidableEq, Repr

namespace ControlType

def toByte : ControlType → UInt8
  | connect => 0x01
  | challenge => 0x02
  | response => 0x03
  | connected => 0x04
  | disconnect => 0x05
  | heartbeat => 0x06
  | versionMismatch => 0x07
  | reject => 0x08
  | multiAck => 0x09

def ofByte (b : UInt8) : Option ControlType :=
  [connect, challenge, response, connected, disconnect, heartbeat, versionMismatch,
    reject, multiAck].find? (fun ct => ct.toByte == b)

@[simp]
theorem ofByte_toByte (ct : ControlType) : ofByte ct.toByte = some ct := by
  cases ct <;> decide

end ControlType

/-! ## Fixed-width fields -/

/-- Little-endian 32-bit write. -/
def putUint32 (x : BitVec 32) : Bytes :=
  [UInt8.ofNat x.toNat, UInt8.ofNat (x.toNat >>> 8), UInt8.ofNat (x.toNat >>> 16),
    UInt8.ofNat (x.toNat >>> 24)]

/-- Little-endian 32-bit read; the callers check that four bytes are there. -/
def readUint32 : Bytes → BitVec 32
  | a :: b :: c :: d :: _ =>
      BitVec.ofNat 32 (a.toNat + b.toNat * 2 ^ 8 + c.toNat * 2 ^ 16 + d.toNat * 2 ^ 24)
  | _ => 0

@[simp]
theorem putUint32_length (x : BitVec 32) : (putUint32 x).length = 4 := rfl

@[simp]
theorem readUint32_putUint32 (x : BitVec 32) (rest : Bytes) :
    readUint32 (putUint32 x ++ rest) = x := by
  apply BitVec.eq_of_toNat_eq
  have hx := x.isLt
  simp only [putUint32, List.cons_append, readUint32, BitVec.toNat_ofNat, UInt8.toNat_ofNat',
    Nat.shiftRight_eq_div_pow]
  omega

/-- The copy of the first bytes of a slice into an array. -/
def readArray (k : ℕ) (data : Bytes) : Vector UInt8 k := Vector.ofFn fun i => data.getD i 0

theorem readArray_append {k : ℕ} (v : Vector UInt8 k) (rest : Bytes) :
    readArray k (v.toList ++ rest) = v := by
  ext i hi
  simp [readArray, List.getD, List.getElem?_append_left]

/-- Big-endian 16-bit write. -/
def putUint16 (x : UInt16) : Bytes := [UInt8.ofNat (x.toNat >>> 8), x.toUInt8]

/-- Big-endian 16-bit read; the callers check that two bytes are there. -/
def readUint16 : Bytes → UInt16
  | hi :: lo :: _ => UInt16.ofNat (hi.toNat * 2 ^ 8 + lo.toNat)
  | _ => 0

theorem readUint16_putUint16 (x : UInt16) (rest : Bytes) :
    readUint16 (UInt8.ofNat (x.toNat >>> 8) :: x.toUInt8 :: rest) = x := by
  apply UInt16.toNat_inj.mp
  have hx := x.toNat_lt
  simp only [readUint16, UInt16.toNat_ofNat', UInt8.toNat_ofNat', UInt16.toNat_toUInt8,
    Nat.shiftRight_eq_div_pow]
  omega

/-! ## Packet header -/

/-- `MarshalHeader` on a buffer with the given room. As in the source, the two
later space checks assume the worst case rather than the actual length. -/
def marshalHeader (room : ℕ) (h : PacketHeader) : Except Err Bytes :=
  if room < 8 then .error .invalidPacketHeader
  else
    let sequence := (putVarInt (room - 2) h.sequence.toNat).getD []
    let n := 2 + sequence.length
    if room - n < 5 + 4 then .error .invalidPacketHeader
    else
      let ack := (putVarInt (room - n) h.ack.toNat).getD []
      let n := n + ack.length
      if room - n < 4 then .error .invalidPacketHeader
      else .ok ([h.flags, h.channel] ++ sequence ++ ack ++ putUint32 h.ackField)

/-- `UnmarshalHeader`: the header and the number of bytes it took. -/
def unmarshalHeader (buf : Bytes) : Except Err (PacketHeader × ℕ) :=
  if buf.length < 8 then .error .invalidPacketHeader
  else
    match readVarInt (buf.drop 2) with
    | .error _ => .error .invalidPacketHeader
    | .ok (sequence, w) =>
        let n := 2 + w
        match readVarInt (buf.drop n) with
        | .error _ => .error .invalidPacketHeader
        | .ok (ack, w) =>
            let n := n + w
            if (buf.drop n).length < 4 then .error .invalidPacketHeader
            else
              .ok ({ flags := buf.getD 0 0
                     channel := buf.getD 1 0
                     sequence := UInt32.ofNat sequence
                     ack := UInt32.ofNat ack
                     ackField := readUint32 (buf.drop n) }, n + 4)

/-- The encoding of a 32-bit value exists as soon as five bytes are free, and
what was written is a genuine encoding. -/
theorem putVarInt_uint32 (room : ℕ) (v : UInt32) (hroom : 5 ≤ room) :
    ∃ bs, putVarInt room v.toNat = some bs ∧ 1 ≤ bs.length ∧ bs.length ≤ 5 := by
  have hv : v.toNat < 2 ^ (7 * (4 + 1)) := by
    have := v.toNat_lt
    omega
  obtain ⟨bs, hbs⟩ := Option.isSome_iff_exists.mp (putVarInt_isSome hroom hv)
  have hlen := putVarInt_length hv hbs
  exact ⟨bs, hbs, by omega, by omega⟩

/-- What a successful `MarshalHeader` has written. -/
theorem marshalHeader_eq_ok {room : ℕ} {h : PacketHeader} {bs : Bytes}
    (hok : marshalHeader room h = .ok bs) :
    ∃ roomSeq roomAck sequence ack,
      putVarInt roomSeq h.sequence.toNat = some sequence ∧
      putVarInt roomAck h.ack.toNat = some ack ∧
      bs = [h.flags, h.channel] ++ sequence ++ ack ++ putUint32 h.ackField := by
  rw [marshalHeader] at hok
  split at hok
  · cases hok
  · rename_i hroom
    obtain ⟨sequence, hseq, -, hseqLen⟩ := putVarInt_uint32 (room - 2) h.sequence (by omega)
    simp only [hseq, Option.getD_some] at hok
    split at hok
    · cases hok
    · rename_i hroom'
      obtain ⟨ack, hack, -, -⟩ :=
        putVarInt_uint32 (room - (2 + sequence.length)) h.ack (by omega)
      simp only [hack, Option.getD_some] at hok
      split at hok
      · cases hok
      · cases hok
        exact ⟨_, _, sequence, ack, hseq, hack, rfl⟩

/-- `MarshalHeader` succeeds on every buffer of `MaxHeaderSize` bytes. -/
theorem marshalHeader_ok {room : ℕ} (h : PacketHeader) (hroom : 16 ≤ room) :
    ∃ bs, marshalHeader room h = .ok bs := by
  obtain ⟨sequence, hseq, -, hseqLen⟩ := putVarInt_uint32 (room - 2) h.sequence (by omega)
  obtain ⟨ack, hack, -, hackLen⟩ :=
    putVarInt_uint32 (room - (2 + sequence.length)) h.ack (by omega)
  refine ⟨[h.flags, h.channel] ++ sequence ++ ack ++ putUint32 h.ackField, ?_⟩
  rw [marshalHeader, if_neg (by omega)]
  simp only [hseq, Option.getD_some, hack]
  rw [if_neg (by omega), if_neg (by omega)]

/-- A header takes at least eight bytes and at most `MaxHeaderSize`. -/
theorem marshalHeader_length {room : ℕ} {h : PacketHeader} {bs : Bytes}
    (hok : marshalHeader room h = .ok bs) : 8 ≤ bs.length ∧ bs.length ≤ 16 := by
  obtain ⟨roomSeq, roomAck, sequence, ack, hseq, hack, rfl⟩ := marshalHeader_eq_ok hok
  have hseqLen := putVarInt_length (k := 4) (by have := h.sequence.toNat_lt; omega) hseq
  have hackLen := putVarInt_length (k := 4) (by have := h.ack.toNat_lt; omega) hack
  simp only [List.length_append, putUint32_length, List.length_cons, List.length_nil]
  omega

theorem marshalHeader_length_le {room : ℕ} {h : PacketHeader} {bs : Bytes}
    (hok : marshalHeader room h = .ok bs) : bs.length ≤ 16 := (marshalHeader_length hok).2

/-- Decoding what was encoded gives the header back, whatever follows it. -/
theorem unmarshalHeader_marshalHeader {room : ℕ} {h : PacketHeader} {bs : Bytes} (rest : Bytes)
    (hok : marshalHeader room h = .ok bs) :
    unmarshalHeader (bs ++ rest) = .ok (h, bs.length) := by
  obtain ⟨roomSeq, roomAck, sequence, ack, hseq, hack, rfl⟩ := marshalHeader_eq_ok hok
  have hseqLen : 1 ≤ sequence.length :=
    (putVarInt_length (k := 4) (by have := h.sequence.toNat_lt; omega) hseq).1
  have hackLen : 1 ≤ ack.length :=
    (putVarInt_length (k := 4) (by have := h.ack.toNat_lt; omega) hack).1
  have hlen : ¬ ([h.flags, h.channel] ++ sequence ++ ack ++ putUint32 h.ackField ++ rest).length
      < 8 := by
    simp only [List.length_append, putUint32_length, List.length_cons, List.length_nil]
    omega
  -- the two variable-length fields are read at the offsets they were written at
  have hread₁ : readVarInt (([h.flags, h.channel] ++ sequence ++ ack ++ putUint32 h.ackField ++
      rest).drop 2) = .ok (h.sequence.toNat, sequence.length) := by
    simpa using readVarInt_putVarInt (ack ++ (putUint32 h.ackField ++ rest))
      h.sequence.toNat_lt hseq
  have hdrop₂ : ([h.flags, h.channel] ++ sequence ++ ack ++ putUint32 h.ackField ++
      rest).drop (2 + sequence.length) = ack ++ (putUint32 h.ackField ++ rest) := by
    simp [← List.drop_drop]
  have hdrop₃ : ([h.flags, h.channel] ++ sequence ++ ack ++ putUint32 h.ackField ++
      rest).drop (2 + sequence.length + ack.length) = putUint32 h.ackField ++ rest := by
    rw [← List.drop_drop, hdrop₂, List.drop_left]
  have hread₂ := readVarInt_putVarInt (putUint32 h.ackField ++ rest) h.ack.toNat_lt hack
  rw [unmarshalHeader, if_neg hlen]
  simp only [hread₁, hdrop₂, hread₂, hdrop₃]
  rw [if_neg (by simp)]
  simp only [readUint32_putUint32, List.length_append, putUint32_length, List.length_cons,
    List.length_nil, UInt32.ofNat_toNat]
  simp

/-- **The header codec.** Every header fits into `MaxHeaderSize` bytes; whatever the
buffer, what was written has between 8 and 16 bytes and is read back, whatever
follows it; and a header that was read, from any bytes, can be written and is read
back as it is. -/
theorem header_codec (h : PacketHeader) (room : ℕ) :
    (16 ≤ room → ∃ bs, marshalHeader room h = .ok bs) ∧
    (∀ bs, marshalHeader room h = .ok bs → 8 ≤ bs.length ∧ bs.length ≤ 16 ∧
      ∀ rest, unmarshalHeader (bs ++ rest) = .ok (h, bs.length)) ∧
    ∀ buf n, unmarshalHeader buf = .ok (h, n) → 16 ≤ room →
      ∃ bs, marshalHeader room h = .ok bs ∧ unmarshalHeader bs = .ok (h, bs.length) := by
  refine ⟨marshalHeader_ok h, fun bs hok => ?_, fun buf n _ hroom => ?_⟩
  · obtain ⟨hlow, hhigh⟩ := marshalHeader_length hok
    exact ⟨hlow, hhigh, fun rest => unmarshalHeader_marshalHeader rest hok⟩
  · obtain ⟨bs, hok⟩ := marshalHeader_ok h hroom
    have hread := unmarshalHeader_marshalHeader [] hok
    rw [List.append_nil] at hread
    exact ⟨bs, hok, hread⟩

/-- A header of 16 bytes. -/
theorem header_codec_longest :
    ∃ bs, marshalHeader 16 ⟨1, 2, 4294967295, 4294967295, 5⟩ = .ok bs ∧ bs.length ≤ 16 ∧
      unmarshalHeader (bs ++ [7]) = .ok (⟨1, 2, 4294967295, 4294967295, 5⟩, bs.length) := by
  obtain ⟨hfits, hread, -⟩ := header_codec ⟨1, 2, 4294967295, 4294967295, 5⟩ 16
  obtain ⟨bs, hok⟩ := hfits (Nat.le_refl 16)
  obtain ⟨-, hhigh, hback⟩ := hread bs hok
  exact ⟨bs, hok, hhigh, hback [7]⟩

/-! ## Multi-channel acknowledgements -/

/-- The acknowledgement state of one channel inside a multi-ack packet. -/
structure MultiAckEntry where
  channel : UInt8
  ack : UInt32
  ackField : BitVec 32
  deriving DecidableEq, Repr

/-- The bytes of one entry, written with the given room left. -/
def marshalMultiAckEntry (room : ℕ) (e : MultiAckEntry) : Bytes :=
  e.channel :: (putVarInt (room - 1) e.ack.toNat).getD [] ++ putUint32 e.ackField

/-- The loop of `marshalMultiAck`, with `room` bytes left of the buffer. -/
def marshalMultiAckEntries : ℕ → List MultiAckEntry → Except Err Bytes
  | _, [] => .ok []
  | room, e :: es =>
      if room < 10 then .error .bufferTooSmall
      else
        let bs := marshalMultiAckEntry room e
        (marshalMultiAckEntries (room - bs.length) es).map (bs ++ ·)

/-- `marshalMultiAck`. The count is a single byte. -/
def marshalMultiAck (room : ℕ) (entries : List MultiAckEntry) : Except Err Bytes :=
  if room < 2 then .error .bufferTooSmall
  else (marshalMultiAckEntries (room - 2) entries).map
    ([ControlType.multiAck.toByte, UInt8.ofNat entries.length] ++ ·)

/-- The loop of `unmarshalMultiAck` over the announced number of entries. -/
def unmarshalMultiAckEntries : ℕ → Bytes → Except Err (List MultiAckEntry × ℕ)
  | 0, _ => .ok ([], 0)
  | _ + 1, [] => .error .invalidHandshake
  | count + 1, ch :: data =>
      match readVarInt data with
      | .error e => .error e
      | .ok (ack, n) =>
          if (data.drop n).length < 4 then .error .invalidHandshake
          else
            match unmarshalMultiAckEntries count (data.drop (n + 4)) with
            | .error e => .error e
            | .ok (entries, m) =>
                .ok (⟨ch, UInt32.ofNat ack, readUint32 (data.drop n)⟩ :: entries, 1 + n + 4 + m)

/-- `unmarshalMultiAck`; the data starts at the count byte. -/
def unmarshalMultiAck : Bytes → Except Err (List MultiAckEntry × ℕ)
  | [] => .error .invalidHandshake
  | count :: data => (unmarshalMultiAckEntries count.toNat data).map fun (es, n) => (es, 1 + n)

/-- `buildControlPacket`: a header with the control flag, then the payload. -/
def buildControlPacket (room : ℕ) (hdr : PacketHeader) (controlPayload : Bytes) :
    Except Err Bytes :=
  match marshalHeader room { hdr with flags := hdr.flags ||| flagControl } with
  | .error e => .error e
  | .ok bs =>
      if room - bs.length < controlPayload.length then .error .bufferTooSmall
      else .ok (bs ++ controlPayload)

theorem marshalMultiAckEntry_length (room : ℕ) (e : MultiAckEntry) (hroom : 10 ≤ room) :
    6 ≤ (marshalMultiAckEntry room e).length ∧ (marshalMultiAckEntry room e).length ≤ 10 := by
  obtain ⟨ack, hack, hlo, hhi⟩ := putVarInt_uint32 (room - 1) e.ack (by omega)
  simp only [marshalMultiAckEntry, hack, Option.getD_some, List.cons_append, List.length_cons,
    List.length_append, putUint32_length]
  omega

/-- What the loop has written. -/
theorem marshalMultiAckEntries_cons_ok {room : ℕ} {e : MultiAckEntry} {es : List MultiAckEntry}
    {bs : Bytes} (hok : marshalMultiAckEntries room (e :: es) = .ok bs) :
    10 ≤ room ∧ ∃ tail,
      marshalMultiAckEntries (room - (marshalMultiAckEntry room e).length) es = .ok tail ∧
      bs = marshalMultiAckEntry room e ++ tail := by
  rw [marshalMultiAckEntries] at hok
  split at hok
  · cases hok
  · rename_i hroom
    refine ⟨by omega, ?_⟩
    cases hrest : marshalMultiAckEntries (room - (marshalMultiAckEntry room e).length) es with
    | error err => simp [hrest, Except.map] at hok
    | ok tail =>
        simp only [hrest, Except.map, Except.ok.injEq] at hok
        exact ⟨tail, rfl, hok.symm⟩

/-- Every entry takes at least six bytes, so a buffer bounds their number. -/
theorem marshalMultiAckEntries_length {room : ℕ} {entries : List MultiAckEntry} {bs : Bytes}
    (hok : marshalMultiAckEntries room entries = .ok bs) : 6 * entries.length ≤ room := by
  induction entries generalizing room bs with
  | nil => simp
  | cons e es ih =>
      obtain ⟨hroom, tail, hrest, -⟩ := marshalMultiAckEntries_cons_ok hok
      have hlen := marshalMultiAckEntry_length room e hroom
      have htail := ih hrest
      rw [List.length_cons]
      omega

/-- Reading back one entry. -/
theorem readVarInt_entry {room : ℕ} (e : MultiAckEntry) (rest : Bytes) (hroom : 10 ≤ room) :
    ∃ ack : Bytes, marshalMultiAckEntry room e = e.channel :: ack ++ putUint32 e.ackField ∧
      readVarInt (ack ++ (putUint32 e.ackField ++ rest)) = .ok (e.ack.toNat, ack.length) := by
  obtain ⟨ack, hack, -, -⟩ := putVarInt_uint32 (room - 1) e.ack (by omega)
  refine ⟨ack, by simp [marshalMultiAckEntry, hack], ?_⟩
  exact readVarInt_putVarInt _ e.ack.toNat_lt hack

theorem unmarshalMultiAckEntries_marshal {room : ℕ} {entries : List MultiAckEntry} {bs : Bytes}
    (rest : Bytes) (hok : marshalMultiAckEntries room entries = .ok bs) :
    unmarshalMultiAckEntries entries.length (bs ++ rest) = .ok (entries, bs.length) := by
  induction entries generalizing room bs with
  | nil =>
      cases hok
      rfl
  | cons e es ih =>
      obtain ⟨hroom, tail, hrest, rfl⟩ := marshalMultiAckEntries_cons_ok hok
      obtain ⟨ack, hentry, hread⟩ := readVarInt_entry e (tail ++ rest) hroom
      have hdrop : (ack ++ (putUint32 e.ackField ++ (tail ++ rest))).drop ack.length =
          putUint32 e.ackField ++ (tail ++ rest) := List.drop_left
      have hdrop' : (ack ++ (putUint32 e.ackField ++ (tail ++ rest))).drop (ack.length + 4) =
          tail ++ rest := by
        rw [← List.drop_drop, hdrop]
        rfl
      rw [hentry]
      simp only [List.length_cons, List.cons_append, List.append_assoc,
        unmarshalMultiAckEntries, hread, hdrop, hdrop', ih hrest, readUint32_putUint32,
        List.length_append, putUint32_length, UInt32.ofNat_toNat]
      rw [if_neg (by omega)]
      congr 2
      omega

/-- Ten bytes for each entry are enough. -/
theorem marshalMultiAckEntries_ok {room : ℕ} (entries : List MultiAckEntry)
    (hroom : 10 * entries.length ≤ room) : ∃ bs, marshalMultiAckEntries room entries = .ok bs := by
  induction entries generalizing room with
  | nil => exact ⟨[], rfl⟩
  | cons e es ih =>
      rw [List.length_cons] at hroom
      have hlen := marshalMultiAckEntry_length room e (by omega)
      obtain ⟨bs, hrest⟩ := @ih (room - (marshalMultiAckEntry room e).length) (by omega)
      refine ⟨marshalMultiAckEntry room e ++ bs, ?_⟩
      rw [marshalMultiAckEntries, if_neg (by omega)]
      dsimp only
      rw [hrest]
      rfl

theorem marshalMultiAck_ok {room : ℕ} {entries : List MultiAckEntry} {bs : Bytes}
    (hok : marshalMultiAck room entries = .ok bs) :
    ∃ body, marshalMultiAckEntries (room - 2) entries = .ok body ∧
      bs = ControlType.multiAck.toByte :: UInt8.ofNat entries.length :: body := by
  rw [marshalMultiAck] at hok
  split at hok
  · cases hok
  · cases hbody : marshalMultiAckEntries (room - 2) entries with
    | error err => simp [hbody, Except.map] at hok
    | ok body =>
        simp only [hbody, Except.map, Except.ok.injEq] at hok
        exact ⟨body, rfl, hok.symm⟩

/-- A buffer of less than 1536 bytes takes at most 255 entries. -/
theorem marshalMultiAck_count {room : ℕ} {entries : List MultiAckEntry} {bs : Bytes}
    (hroom : room < 1536) (hok : marshalMultiAck room entries = .ok bs) :
    entries.length ≤ 255 := by
  obtain ⟨body, hbody, -⟩ := marshalMultiAck_ok hok
  have hcount := marshalMultiAckEntries_length hbody
  omega

/-- A multi-ack payload that was marshalled decodes to the same entries: what
follows the type byte is parsed completely. -/
theorem unmarshalMultiAck_marshalMultiAck {room : ℕ} {entries : List MultiAckEntry} {bs : Bytes}
    (rest : Bytes) (hcount : entries.length ≤ 255) (hok : marshalMultiAck room entries = .ok bs) :
    ∃ tail, bs = ControlType.multiAck.toByte :: tail ∧
      unmarshalMultiAck (tail ++ rest) = .ok (entries, tail.length) := by
  obtain ⟨body, hbody, rfl⟩ := marshalMultiAck_ok hok
  have hbyte : (UInt8.ofNat entries.length).toNat = entries.length := by
    rw [UInt8.toNat_ofNat']
    omega
  refine ⟨UInt8.ofNat entries.length :: body, rfl, ?_⟩
  simp only [List.cons_append, unmarshalMultiAck, hbyte,
    unmarshalMultiAckEntries_marshal rest hbody, Except.map, List.length_cons]
  congr 2
  omega

end Fastwire
