/-
# Strings, identifiers and sequences of values

The wire primitives an application uses next to variable-length integers, and what
it does with all of them: put values one after another into a buffer, each at the
offset where the last one ended, and read them back the same way.
-/

import Fastwire.Wire.Packet

namespace Fastwire

/-! ## The primitives -/

/-- `PutVarLong`. Its body is that of `PutVarInt`, on a wider value. -/
def putVarLong (room v : ℕ) : Option Bytes := putVarInt room v

def maxStringLength : ℕ := 32767

/-- `PutString` on a buffer with the given room. -/
def putString (room : ℕ) (s : Bytes) : Except Err Bytes :=
  if s.length > maxStringLength then .error .stringTooLong
  else
    let need := 2 + s.length
    if room < need then .error .bufferTooSmall
    else .ok (putUint16 (UInt16.ofNat s.length) ++ s)

/-- `ReadString`: the length in front of the string is a signed number. -/
def readString (buf : Bytes) : Except Err (Bytes × ℕ) :=
  if buf.length < 2 then .error .bufferTooSmall
  else
    let raw := (readUint16 buf).toInt16
    if raw < 0 then .error .negativeStringLength
    else
      let need := 2 + raw.toInt.toNat
      if buf.length < need then .error .bufferTooSmall
      else .ok ((buf.take need).drop 2, need)

abbrev UUID := Vector UInt8 16

/-- `PutUUID`. The source returns `0` bytes where this is `none`. -/
def putUUID (room : ℕ) (id : UUID) : Option Bytes :=
  if room < 16 then none else some id.toList

def readUUID (buf : Bytes) : Except Err (UUID × ℕ) :=
  if buf.length < 16 then .error .invalidUUID else .ok (readArray 16 buf, 16)

/-! ## Values in a buffer -/

/-- The kinds of values there are put and read functions for. -/
inductive WireKind
  | varInt
  | varLong
  | string
  | uuid
  deriving DecidableEq, Repr

inductive WireValue
  | varInt (v : UInt32)
  | varLong (v : UInt64)
  | string (s : Bytes)
  | uuid (id : UUID)
  deriving DecidableEq

def WireKind.read : WireKind → Bytes → Except Err (WireValue × ℕ)
  | varInt, buf => (readVarInt buf).map fun (v, n) => (.varInt (UInt32.ofNat v), n)
  | varLong, buf => (readVarLong buf).map fun (v, n) => (.varLong (UInt64.ofNat v), n)
  | string, buf => (readString buf).map fun (s, n) => (.string s, n)
  | uuid, buf => (readUUID buf).map fun (id, n) => (.uuid id, n)

namespace WireValue

def kind : WireValue → WireKind
  | varInt _ => .varInt
  | varLong _ => .varLong
  | string _ => .string
  | uuid _ => .uuid

/-- The put function for a value, on a buffer with the given room; `none` where it
reports an error or that it has written nothing. -/
def put (room : ℕ) : WireValue → Option Bytes
  | varInt v => putVarInt room v.toNat
  | varLong v => putVarLong room v.toNat
  | string s => (putString room s).toOption
  | uuid id => putUUID room id

/-- Only strings can be too long to be written. -/
def Fits : WireValue → Prop
  | string s => s.length ≤ maxStringLength
  | _ => True

/-- The room that the documentation asks for. -/
def maxSize : WireValue → ℕ
  | varInt _ => 5
  | varLong _ => 10
  | string s => 2 + s.length
  | uuid _ => 16

def encoding (v : WireValue) : Bytes := (v.put v.maxSize).getD []

end WireValue

/-- The buffer after bytes have been written at an offset. -/
def splice (buf : Bytes) (off : ℕ) (bs : Bytes) : Bytes :=
  buf.take off ++ bs ++ buf.drop (off + bs.length)

/-- Putting values one after another into a buffer: the buffer left behind and the
offset behind the last value. -/
def putAll : List WireValue → (buf : Bytes) → (off : ℕ) → Option (Bytes × ℕ)
  | [], buf, off => some (buf, off)
  | v :: vs, buf, off =>
      match v.put (buf.length - off) with
      | none => none
      | some bs => putAll vs (splice buf off bs) (off + bs.length)

def readAll : List WireKind → (buf : Bytes) → (off : ℕ) → Except Err (List WireValue × ℕ)
  | [], _, off => .ok ([], off)
  | kind :: kinds, buf, off =>
      match kind.read (buf.drop off) with
      | .error e => .error e
      | .ok (v, n) => (readAll kinds buf (off + n)).map fun (vs, off) => (v :: vs, off)

/-! ## One value -/

/-- The bytes do not depend on the room, as long as they fit. -/
theorem putVarInt_room {v room : ℕ} {bs : Bytes} (h : putVarInt room v = some bs) (room' : ℕ) :
    putVarInt room' v = if bs.length ≤ room' then some bs else none := by
  induction room generalizing v bs room' with
  | zero => cases h
  | succ room ih =>
      rw [putVarInt] at h
      split at h
      · rename_i hbig
        obtain ⟨tail, htail, rfl⟩ := Option.map_eq_some_iff.mp h
        cases room' with
        | zero => rfl
        | succ room' =>
            rw [putVarInt, if_pos hbig, ih htail room']
            simp only [List.length_cons, Nat.add_le_add_iff_right]
            split <;> rfl
      · rename_i hsmall
        cases h
        cases room' with
        | zero => rfl
        | succ room' =>
            rw [putVarInt, if_neg hsmall, if_pos (by simp)]

/-- What `PutVarLong` writes, `ReadVarLong` reads back, whatever follows. -/
theorem readVarLong_putVarLong {room v : ℕ} {bs : Bytes} (rest : Bytes) (hv : v < 2 ^ 64)
    (h : putVarLong room v = some bs) :
    readVarLong (bs ++ rest) = .ok (v, bs.length) := by
  have hlen := putVarInt_length (k := 9) (by omega) h
  have hread : readVarFrom 64 .varLongOverflow 10 0 0 (bs ++ rest) =
      .ok (0 + v * 2 ^ (7 * 0), 0 + bs.length) :=
    readVarFrom_putVarInt rest (by omega) (by omega) (by simp) (by simpa using hv) h
  simpa [readVarLong] using hread

/-- A reader that stops before its last round has seen enough groups for the value,
and the writer uses no more of them. -/
theorem putVarInt_length_le_read {width m v n room : ℕ} {overflow : Err} {bs buf : Bytes}
    (hlow : 7 * m ≤ width) (hhigh : v < 2 ^ (7 * (m + 1)))
    (hput : putVarInt room v = some bs)
    (hread : readVarFrom width overflow (m + 1) 0 0 buf = .ok (v, n)) : bs.length ≤ n := by
  obtain ⟨hpos, hn, -, hv⟩ := readVarFrom_ok (by omega) (by simp) hread
  by_cases hlast : n = m + 1
  · have hlen := putVarInt_length hhigh hput
    omega
  · have hgroups : v < 2 ^ (7 * n) := by
      calc v ≤ groupsValue (buf.take n) := by
            rw [hv]
            simpa using Nat.mod_le _ _
        _ < 2 ^ (7 * (buf.take n).length) := groupsValue_lt _
        _ ≤ 2 ^ (7 * n) := by
            apply Nat.pow_le_pow_right (by decide)
            have := List.length_take_le n buf
            omega
    obtain ⟨k, rfl⟩ : ∃ k, n = k + 1 := ⟨n - 1, by omega⟩
    exact (putVarInt_length hgroups hput).2.1

theorem putString_eq {s : Bytes} (hs : s.length ≤ maxStringLength) (room : ℕ) :
    putString room s = if room < 2 + s.length then .error .bufferTooSmall
      else .ok (putUint16 (UInt16.ofNat s.length) ++ s) := by
  rw [putString, if_neg (by omega)]

/-- The length of a string that is not too long stays below the sign bit. -/
theorem toInt16_stringLength {l : ℕ} (hl : l ≤ maxStringLength) :
    ((UInt16.ofNat l).toInt16).toInt = l := by
  have hmax : l ≤ 32767 := hl
  have htoInt : ((UInt16.ofNat l).toInt16).toInt = (BitVec.ofNat 16 l).toInt := rfl
  rw [htoInt, BitVec.toInt_ofNat', Int.bmod_eq_of_le]
  · omega
  · omega

theorem readString_prefixed {s : Bytes} (rest : Bytes) (hs : s.length ≤ maxStringLength) :
    readString (putUint16 (UInt16.ofNat s.length) ++ s ++ rest) = .ok (s, 2 + s.length) := by
  have hlength : (putUint16 (UInt16.ofNat s.length)).length = 2 := rfl
  have hraw : readUint16 (putUint16 (UInt16.ofNat s.length) ++ (s ++ rest)) =
      UInt16.ofNat s.length := readUint16_putUint16 _ _
  have hsigned := toInt16_stringLength hs
  have hsign : ¬ (UInt16.ofNat s.length).toInt16 < 0 := by
    rw [Int16.lt_iff_toInt_lt, hsigned]
    simp
  have hall : (putUint16 (UInt16.ofNat s.length) ++ (s ++ rest)).length =
      2 + (s.length + rest.length) := by
    rw [List.length_append, List.length_append, hlength]
  rw [List.append_assoc, readString, if_neg (by omega)]
  simp only [hraw, hsigned, if_neg hsign, Int.toNat_natCast]
  rw [if_neg (by omega)]
  simp [List.take_append, hlength]

/-- A string is read with its own length and the two bytes in front. -/
theorem readString_length {s buf : Bytes} {n : ℕ} (h : readString buf = .ok (s, n)) :
    n = 2 + s.length := by
  simp only [readString] at h
  split_ifs at h with hshort hsign hend
  cases h
  simp only [List.length_drop, List.length_take]
  omega

namespace WireValue

theorem uint32_lt (v : UInt32) : v.toNat < 2 ^ (7 * (4 + 1)) :=
  v.toNat_lt.trans (by decide)

theorem uint64_lt (v : UInt64) : v.toNat < 2 ^ (7 * (9 + 1)) :=
  v.toNat_lt.trans (by decide)

theorem encoding_string {s : Bytes} (hs : s.length ≤ maxStringLength) :
    (string s).encoding = putUint16 (UInt16.ofNat s.length) ++ s := by
  simp [encoding, put, maxSize, putString_eq hs, Except.toOption]

theorem encoding_string_length {s : Bytes} (hs : s.length ≤ maxStringLength) :
    (string s).encoding.length = 2 + s.length := by
  have hlength : (putUint16 (UInt16.ofNat s.length)).length = 2 := rfl
  rw [encoding_string hs, List.length_append, hlength]

/-- **What a put function does.** It writes the encoding if there is room for it. -/
theorem put_eq {v : WireValue} (hv : v.Fits) (room : ℕ) :
    v.put room = if v.encoding.length ≤ room then some v.encoding else none := by
  cases v with
  | varInt v =>
      obtain ⟨bs, hbs⟩ := Option.isSome_iff_exists.mp
        (putVarInt_isSome (Nat.le_refl 5) (uint32_lt v))
      have henc : (varInt v).encoding = bs := by
        simp [encoding, put, maxSize, hbs]
      rw [henc, put, putVarInt_room hbs]
  | varLong v =>
      obtain ⟨bs, hbs⟩ := Option.isSome_iff_exists.mp
        (putVarInt_isSome (Nat.le_refl 10) (uint64_lt v))
      have henc : (varLong v).encoding = bs := by
        simp [encoding, put, putVarLong, maxSize, hbs]
      rw [henc, put, putVarLong, putVarInt_room hbs]
  | string s =>
      have hs : s.length ≤ maxStringLength := hv
      rw [encoding_string_length hs, encoding_string hs, put, putString_eq hs]
      by_cases hroom : room < 2 + s.length
      · rw [if_pos hroom, if_neg (by omega)]
        rfl
      · rw [if_neg hroom, if_pos (by omega)]
        rfl
  | uuid id =>
      have henc : (uuid id).encoding = id.toList := rfl
      rw [henc, put, putUUID, Vector.length_toList]
      by_cases hroom : room < 16
      · rw [if_pos hroom, if_neg (by omega)]
      · rw [if_neg hroom, if_pos (by omega)]

theorem put_encoding {v : WireValue} (hv : v.Fits) :
    v.put v.encoding.length = some v.encoding := by
  rw [put_eq hv, if_pos (Nat.le_refl _)]

/-- The read function of its kind reads an encoding back, whatever follows. -/
theorem read_encoding {v : WireValue} (hv : v.Fits) (rest : Bytes) :
    v.kind.read (v.encoding ++ rest) = .ok (v, v.encoding.length) := by
  have hput := put_encoding hv
  cases v with
  | varInt v =>
      rw [kind, WireKind.read, readVarInt_putVarInt rest v.toNat_lt hput]
      simp [Except.map]
  | varLong v =>
      rw [kind, WireKind.read, readVarLong_putVarLong rest v.toNat_lt hput]
      simp [Except.map]
  | string s =>
      have hs : s.length ≤ maxStringLength := hv
      rw [encoding_string_length hs, encoding_string hs, kind, WireKind.read,
        readString_prefixed rest hs]
      rfl
  | uuid id =>
      have henc : (uuid id).encoding = id.toList := rfl
      rw [henc, kind, WireKind.read, readUUID, if_neg (by simp), readArray_append]
      simp [Except.map]

theorem readUUID_length {buf : Bytes} {id : UUID} {k : ℕ} (hok : readUUID buf = .ok (id, k)) :
    k = 16 := by
  rw [readUUID] at hok
  split at hok
  · cases hok
  · rw [Except.ok.injEq, Prod.mk.injEq] at hok
    exact hok.2.symm

/-- A value is read by the read function of its kind. -/
theorem exists_of_map_eq_ok {α : Type} {r : Except Err (α × ℕ)}
    {f : α × ℕ → WireValue × ℕ} {v : WireValue} {n : ℕ} (h : r.map f = .ok (v, n)) :
    ∃ x k, r = .ok (x, k) ∧ f (x, k) = (v, n) := by
  cases r with
  | error e => cases h
  | ok x => exact ⟨x.1, x.2, rfl, Except.ok.inj h⟩

/-- The loop works on as many bits as the value has. -/
theorem readVarFrom_lt {width k x n : ℕ} {overflow : Err} {buf : Bytes}
    (hwidth : 7 * k ≤ width + 7) (hok : readVarFrom width overflow k 0 0 buf = .ok (x, n)) :
    x < 2 ^ width := by
  obtain ⟨-, -, -, hmod⟩ := readVarFrom_ok (by omega) (by simp) hok
  rw [hmod]
  exact Nat.mod_lt _ (Nat.two_pow_pos width)

/-- Nothing shorter than its encoding is read as a value. -/
theorem encoding_shortest {v : WireValue} (hv : v.Fits) {buf : Bytes} {n : ℕ}
    (hread : v.kind.read buf = .ok (v, n)) : v.encoding.length ≤ n := by
  have hput := put_encoding hv
  cases v with
  | varInt v =>
      obtain ⟨x, k, hx, heq⟩ := exists_of_map_eq_ok (r := readVarInt buf) hread
      rw [Prod.mk.injEq, varInt.injEq] at heq
      obtain ⟨rfl, rfl⟩ := heq
      rw [← UInt32.toNat_ofNat_of_lt' (readVarFrom_lt (by decide) hx)] at hx
      exact putVarInt_length_le_read (by decide) (uint32_lt _) hput hx
  | varLong v =>
      obtain ⟨x, k, hx, heq⟩ := exists_of_map_eq_ok (r := readVarLong buf) hread
      rw [Prod.mk.injEq, varLong.injEq] at heq
      obtain ⟨rfl, rfl⟩ := heq
      rw [← UInt64.toNat_ofNat_of_lt' (readVarFrom_lt (by decide) hx)] at hx
      exact putVarInt_length_le_read (by decide) (uint64_lt _) hput hx
  | string s =>
      obtain ⟨x, k, hx, heq⟩ := exists_of_map_eq_ok (r := readString buf) hread
      rw [Prod.mk.injEq, string.injEq] at heq
      obtain ⟨rfl, rfl⟩ := heq
      rw [encoding_string_length hv, readString_length hx]
  | uuid id =>
      obtain ⟨x, k, hx, heq⟩ := exists_of_map_eq_ok (r := readUUID buf) hread
      rw [Prod.mk.injEq, uuid.injEq] at heq
      obtain ⟨rfl, rfl⟩ := heq
      have henc : (uuid x).encoding = x.toList := rfl
      rw [henc, Vector.length_toList, readUUID_length hx]

theorem encoding_length_le {v : WireValue} (hv : v.Fits) : v.encoding.length ≤ v.maxSize := by
  have hput := put_encoding hv
  cases v with
  | varInt v => exact (putVarInt_length (uint32_lt v) hput).2.1
  | varLong v => exact (putVarInt_length (uint64_lt v) hput).2.1
  | string s => exact (encoding_string_length hv).le
  | uuid id => exact id.length_toList.le

end WireValue

/-! ## Values one after another -/

theorem splice_length {buf bs : Bytes} {off : ℕ} (h : off + bs.length ≤ buf.length) :
    (splice buf off bs).length = buf.length := by
  simp only [splice, List.length_append, List.length_take, List.length_drop]
  omega

/-- Bytes written behind bytes just written. -/
theorem splice_splice {buf xs ys : Bytes} {off : ℕ} (h : off + xs.length ≤ buf.length) :
    splice (splice buf off xs) (off + xs.length) ys = splice buf off (xs ++ ys) := by
  have hfront : (buf.take off ++ xs).length = off + xs.length := by
    rw [List.length_append, List.length_take]
    omega
  have htake : (splice buf off xs).take (off + xs.length) = buf.take off ++ xs := by
    rw [splice, ← hfront, List.take_left]
  have hdrop : (splice buf off xs).drop (off + xs.length + ys.length) =
      buf.drop (off + (xs ++ ys).length) := by
    rw [splice, List.drop_append, List.drop_eq_nil_of_le (by omega), List.nil_append,
      List.drop_drop, hfront, List.length_append]
    congr 1
    omega
  rw [splice, htake, hdrop, splice, List.append_assoc (buf.take off) xs ys]

/-- Values are written next to each other, if there is room for all of them. -/
theorem putAll_eq {vs : List WireValue} (hfits : ∀ v ∈ vs, v.Fits) {buf : Bytes} {off : ℕ}
    (hoff : off ≤ buf.length) :
    putAll vs buf off =
      if off + (vs.flatMap WireValue.encoding).length ≤ buf.length then
        some (splice buf off (vs.flatMap WireValue.encoding),
          off + (vs.flatMap WireValue.encoding).length)
      else none := by
  induction vs generalizing buf off with
  | nil => simp [putAll, splice, hoff]
  | cons v vs ih =>
      have hv := hfits v List.mem_cons_self
      rw [putAll, v.put_eq hv, List.flatMap_cons, List.length_append]
      by_cases hroom : v.encoding.length ≤ buf.length - off
      · have hlength : (splice buf off v.encoding).length = buf.length :=
          splice_length (by omega)
        rw [if_pos hroom]
        simp only
        rw [ih (fun w hw => hfits w (List.mem_cons_of_mem _ hw)) (by omega), hlength,
          splice_splice (by omega), Nat.add_assoc]
      · rw [if_neg hroom, if_neg (by omega)]

/-- Encodings next to each other are read one after another. -/
theorem readAll_encodings {vs : List WireValue} (hfits : ∀ v ∈ vs, v.Fits)
    (front rest : Bytes) :
    readAll (vs.map WireValue.kind) (front ++ vs.flatMap WireValue.encoding ++ rest)
      front.length = .ok (vs, front.length + (vs.flatMap WireValue.encoding).length) := by
  induction vs generalizing front with
  | nil => simp [readAll]
  | cons v vs ih =>
      have hv := hfits v List.mem_cons_self
      have htail := ih (fun w hw => hfits w (List.mem_cons_of_mem _ hw)) (front ++ v.encoding)
      rw [List.length_append, List.append_assoc front] at htail
      have hread : v.kind.read
          ((front ++ (v :: vs).flatMap WireValue.encoding ++ rest).drop front.length) =
            .ok (v, v.encoding.length) := by
        rw [List.append_assoc, List.drop_left, List.flatMap_cons, List.append_assoc,
          WireValue.read_encoding hv]
      rw [List.map_cons, readAll, hread]
      simp only
      rw [List.flatMap_cons, htail]
      simp [Except.map, Nat.add_assoc]

/-- **The wire primitives compose.** Values that are put one after another into a
buffer with room for them are read back by the matching functions at the same
offsets, and the bytes in front and behind are left alone. Without that room some put
function reports it. No value has an encoding shorter than the one that is written. -/
theorem wire_values_roundtrip (vs : List WireValue) (hfits : ∀ v ∈ vs, v.Fits) :
    (∀ (buf : Bytes) (off : ℕ), off + (vs.flatMap WireValue.encoding).length ≤ buf.length →
      ∃ buf' off', putAll vs buf off = some (buf', off') ∧
        readAll (vs.map WireValue.kind) buf' off = .ok (vs, off') ∧
        off' = off + (vs.flatMap WireValue.encoding).length ∧
        buf'.length = buf.length ∧ buf'.take off = buf.take off ∧
        buf'.drop off' = buf.drop off') ∧
    (∀ (buf : Bytes) (off : ℕ), off ≤ buf.length →
      buf.length < off + (vs.flatMap WireValue.encoding).length → putAll vs buf off = none) ∧
    ∀ v ∈ vs, ∀ room bs, v.put room = some bs →
      bs = v.encoding ∧ bs.length ≤ v.maxSize ∧
      ∀ (buf : Bytes) (n : ℕ), v.kind.read buf = .ok (v, n) → bs.length ≤ n := by
  refine ⟨?_, ?_, ?_⟩
  · intro buf off hroom
    have hfront : (buf.take off).length = off := by
      rw [List.length_take]
      omega
    refine ⟨_, _, (putAll_eq hfits (by omega)).trans (if_pos hroom), ?_, rfl,
      splice_length hroom, ?_, ?_⟩
    · have hread := readAll_encodings hfits (buf.take off)
        (buf.drop (off + (vs.flatMap WireValue.encoding).length))
      rwa [hfront] at hread
    · rw [splice, List.append_assoc, List.take_left' hfront]
    · rw [splice]
      apply List.drop_left'
      rw [List.length_append, hfront]
  · intro buf off hoff hshort
    rw [putAll_eq hfits hoff, if_neg (by omega)]
  · intro v hv room bs hput
    have hfit := hfits v hv
    rw [v.put_eq hfit] at hput
    split_ifs at hput
    cases hput
    exact ⟨rfl, v.encoding_length_le hfit, fun buf n => v.encoding_shortest hfit⟩

/-- Four values, one of each kind, in a buffer of forty bytes. -/
theorem wire_values_roundtrip_four :
    ∃ buf' off',
      putAll [.varInt 300, .string [104, 105], .varLong (2 ^ 63), .uuid (Vector.replicate 16 7)]
        (List.replicate 40 0) 1 = some (buf', off') ∧
      readAll [.varInt, .string, .varLong, .uuid] buf' 1 =
        .ok ([.varInt 300, .string [104, 105], .varLong (2 ^ 63),
          .uuid (Vector.replicate 16 7)], off') :=
  have hfits : ∀ v ∈ [WireValue.varInt 300, .string [104, 105], .varLong (2 ^ 63),
      .uuid (Vector.replicate 16 7)], v.Fits := by
    simp [WireValue.Fits, maxStringLength]
  have ⟨buf', off', hput, hread, _⟩ :=
    (wire_values_roundtrip _ hfits).1 (List.replicate 40 0) 1 (by decide +kernel)
  ⟨buf', off', hput, hread⟩

end Fastwire
