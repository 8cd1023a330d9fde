/-
# Bytes, errors and variable-length integers

The encoders of the library write into a buffer supplied by the caller and
report how many bytes they used. Nothing ever reads the unused tail, so an
encoder is modelled by the room it has and the bytes it produces. A decoder
reads a list of bytes and returns the value with the number of bytes consumed.
-/

import Mathlib.Data.Nat.Bitwise
import Mathlib.Data.Nat.Digits.Defs

namespace Fastwire

abbrev Bytes := List UInt8

instance : LawfulBEq Bytes := inferInstance

/-- A byte slice as the runtime sees it: `none` is the nil slice, which the
receive path tells apart from an empty one. -/
abbrev Slice := Option Bytes

/-- The sentinel errors the modelled functions return. A `wrapped` error carries
a sentinel inside another error and is not equal to the sentinel itself. -/
inductive Err
  | bufferTooSmall
  | varIntOverflow
  | varLongOverflow
  | stringTooLong
  | negativeStringLength
  | invalidUUID
  | invalidPacketHeader
  | invalidFragmentHeader
  | replayedPacket
  | decryptionFailed
  | invalidHandshake
  | connectionClosed
  | invalidChannel
  | maxRetransmits
  | messageTooLarge
  | compressionFailed
  | decompressionFailed
  | serverClosed
  | invalidBatchFrame
  | versionMismatch
  | socket
  /-- A failure reported by the cryptography library. -/
  | crypto
  | wrapped (inner : Err)
  deriving DecidableEq, Repr

/-- `PutVarInt` on a buffer with the given room. The source returns `0` bytes
where this is `none`. -/
def putVarInt : ℕ → ℕ → Option Bytes
  | 0, _ => none
  | room + 1, v =>
      if v ≥ 0x80 then
        (putVarInt room (v >>> 7)).map ((UInt8.ofNat v ||| 0x80) :: ·)
      else some [UInt8.ofNat v]

/-- The loop of `ReadVarInt` and of `ReadVarLong`, on values of the given width,
with `k` rounds left, at byte `i`. -/
def readVarFrom (width : ℕ) (overflow : Err) : (k i val : ℕ) → Bytes → Except Err (ℕ × ℕ)
  | 0, _, _, _ => .error overflow
  | _ + 1, _, _, [] => .error .bufferTooSmall
  | k + 1, i, val, b :: rest =>
      -- the shifted group has the width of the value: what does not fit is cut off
      let val := val ||| (((b &&& 0x7F).toNat <<< (7 * i)) % 2 ^ width)
      if b &&& 0x80 = 0 then .ok (val, i + 1) else readVarFrom width overflow k (i + 1) val rest

/-- `ReadVarInt`: the value and the number of bytes consumed. -/
def readVarInt (buf : Bytes) : Except Err (ℕ × ℕ) := readVarFrom 32 .varIntOverflow 5 0 0 buf

def readVarLong (buf : Bytes) : Except Err (ℕ × ℕ) := readVarFrom 64 .varLongOverflow 10 0 0 buf

/-! ## One byte of the encoding -/

/-- A continuation byte carries the low seven bits. -/
theorem continuation_payload (v : ℕ) : ((UInt8.ofNat v ||| 0x80) &&& 0x7F).toNat = v % 128 := by
  have hmask : (0x7F : UInt8).toNat = 2 ^ 7 - 1 := rfl
  have hhigh : (0x80 : UInt8).toNat = 128 := rfl
  rw [UInt8.toNat_and, UInt8.toNat_or, hmask, hhigh, Nat.and_two_pow_sub_one_eq_mod,
    Nat.or_mod_two_pow, UInt8.toNat_ofNat']
  simp only [Nat.reducePow, Nat.mod_self, Nat.or_zero]
  omega

/-- A continuation byte has its top bit set. -/
theorem continuation_flag (v : ℕ) : (UInt8.ofNat v ||| 0x80) &&& 0x80 ≠ 0 := by
  intro hzero
  have hbit := congrArg (fun b : UInt8 => b.toNat.testBit 7) hzero
  have hhigh : Nat.testBit 128 7 = true := by decide
  simp [UInt8.toNat_and, UInt8.toNat_or, Nat.testBit_or, Nat.testBit_and, hhigh] at hbit

/-- A final byte is the value itself, without the top bit. -/
theorem final_payload {v : ℕ} (hv : v < 128) : (UInt8.ofNat v &&& 0x7F).toNat = v := by
  have hmask : (0x7F : UInt8).toNat = 2 ^ 7 - 1 := rfl
  rw [UInt8.toNat_and, hmask, Nat.and_two_pow_sub_one_eq_mod, UInt8.toNat_ofNat']
  omega

theorem final_flag {v : ℕ} (hv : v < 128) : UInt8.ofNat v &&& 0x80 = 0 := by
  apply UInt8.toNat_inj.mp
  have hhigh : (0x80 : UInt8).toNat = 2 ^ 7 := rfl
  rw [UInt8.toNat_and, hhigh, UInt8.toNat_ofNat', Nat.and_two_pow]
  have hsmall : v % 2 ^ 8 < 2 ^ 7 := by omega
  rw [Nat.testBit_lt_two_pow hsmall]
  rfl

/-- Adding a group above the bits already read is a sum, as far as the width
goes. -/
theorem group_or {width val i : ℕ} (x : ℕ) (hval : val < 2 ^ (7 * i)) (hi : 7 * i ≤ width) :
    val ||| ((x <<< (7 * i)) % 2 ^ width) = (val + x * 2 ^ (7 * i)) % 2 ^ width := by
  have hpow : 2 ^ width = 2 ^ (7 * i) * 2 ^ (width - 7 * i) := by
    rw [← Nat.pow_add, Nat.add_sub_of_le hi]
  have hshift : (x <<< (7 * i)) % 2 ^ width = 2 ^ (7 * i) * (x % 2 ^ (width - 7 * i)) := by
    rw [Nat.shiftLeft_eq, Nat.mul_comm, hpow, Nat.mul_mod_mul_left]
  have hsum : (val + x * 2 ^ (7 * i)) % 2 ^ width =
      val + 2 ^ (7 * i) * (x % 2 ^ (width - 7 * i)) := by
    rw [hpow, Nat.mod_mul, Nat.add_mul_mod_self_right, Nat.mod_eq_of_lt hval,
      Nat.add_mul_div_right _ _ (Nat.two_pow_pos _), Nat.div_eq_of_lt hval, Nat.zero_add]
  rw [hshift, hsum, Nat.or_comm, ← Nat.two_pow_add_eq_or_of_lt hval, Nat.add_comm]

/-! ## Round trip -/

/-- Shifting out one group. -/
theorem shiftRight_seven_lt {k v : ℕ} (hv : v < 2 ^ (7 * (k + 1 + 1))) :
    v >>> 7 < 2 ^ (7 * (k + 1)) := by
  rw [Nat.shiftRight_eq_div_pow, Nat.div_lt_iff_lt_mul (by decide), ← Nat.pow_add]
  exact hv

/-- Room for as many groups as the value has is enough. -/
theorem putVarInt_isSome {k room v : ℕ} (hroom : k + 1 ≤ room) (hv : v < 2 ^ (7 * (k + 1))) :
    (putVarInt room v).isSome := by
  induction k generalizing room v with
  | zero =>
      obtain ⟨more, rfl⟩ : ∃ more, room = more + 1 := ⟨room - 1, by omega⟩
      have hsmall : ¬ v ≥ 0x80 := by omega
      simp [putVarInt, hsmall]
  | succ k ih =>
      obtain ⟨more, rfl⟩ : ∃ more, room = more + 1 := ⟨room - 1, by omega⟩
      rw [putVarInt]
      split
      · simpa using ih (by omega) (shiftRight_seven_lt hv)
      · simp

/-- An encoding takes at least one byte, one byte for each group at most, and
no more than its room. -/
theorem putVarInt_length {k room v : ℕ} {bs : Bytes} (hv : v < 2 ^ (7 * (k + 1)))
    (h : putVarInt room v = some bs) :
    1 ≤ bs.length ∧ bs.length ≤ k + 1 ∧ bs.length ≤ room := by
  induction room generalizing k v bs with
  | zero => simp [putVarInt] at h
  | succ room ih =>
      rw [putVarInt] at h
      split at h
      · rename_i hbig
        obtain ⟨tail, htail, rfl⟩ := Option.map_eq_some_iff.mp h
        -- a value of one group only is not continued
        obtain ⟨k, rfl⟩ : ∃ j, k = j + 1 := by
          cases k with
          | zero => simp at hv; omega
          | succ k => exact ⟨k, rfl⟩
        have hrest := ih (shiftRight_seven_lt hv) htail
        simp only [List.length_cons]
        omega
      · cases h
        simp

/-- The reader picks up a value wherever the writer left it: `val` is what the
first `i` bytes contributed. -/
theorem readVarFrom_putVarInt {width k room i val v : ℕ} {overflow : Err} {bs : Bytes}
    (rest : Bytes) (hk : bs.length ≤ k) (hwidth : 7 * (i + k) ≤ width + 7)
    (hval : val < 2 ^ (7 * i)) (hv : val + v * 2 ^ (7 * i) < 2 ^ width)
    (h : putVarInt room v = some bs) :
    readVarFrom width overflow k i val (bs ++ rest) =
      .ok (val + v * 2 ^ (7 * i), i + bs.length) := by
  induction room generalizing k i val v bs with
  | zero => simp [putVarInt] at h
  | succ room ih =>
      rw [putVarInt] at h
      split at h
      · obtain ⟨tail, htail, rfl⟩ := Option.map_eq_some_iff.mp h
        obtain ⟨k, rfl⟩ : ∃ j, k = j + 1 := ⟨k - 1, by simp at hk; omega⟩
        have hnext : 2 ^ (7 * (i + 1)) = 128 * 2 ^ (7 * i) := by
          rw [Nat.mul_add, Nat.pow_add]; omega
        have hsplit : v % 128 * 2 ^ (7 * i) + v / 128 * 2 ^ (7 * (i + 1)) = v * 2 ^ (7 * i) := by
          rw [hnext, ← Nat.mul_assoc, ← Nat.add_mul]
          congr 1
          omega
        have hlow : (val + v % 128 * 2 ^ (7 * i)) % 2 ^ width = val + v % 128 * 2 ^ (7 * i) :=
          Nat.mod_eq_of_lt (by omega)
        have hval' : val + v % 128 * 2 ^ (7 * i) < 2 ^ (7 * (i + 1)) := by
          have hdigit : v % 128 * 2 ^ (7 * i) ≤ 127 * 2 ^ (7 * i) :=
            Nat.mul_le_mul_right _ (by omega)
          omega
        have hshift : v >>> 7 = v / 128 := Nat.shiftRight_eq_div_pow v 7
        have hv' : val + v % 128 * 2 ^ (7 * i) + v >>> 7 * 2 ^ (7 * (i + 1)) < 2 ^ width := by
          rw [hshift]
          omega
        rw [List.cons_append, readVarFrom, continuation_payload, group_or _ hval (by omega), hlow,
          if_neg (continuation_flag v), ih (by simpa using hk) (by omega) hval' hv' htail]
        rw [hshift, List.length_cons]
        congr 2
        · omega
        · omega
      · rename_i hsmall
        cases h
        obtain ⟨k, rfl⟩ : ∃ j, k = j + 1 := ⟨k - 1, by simp at hk; omega⟩
        have hlt : v < 128 := by omega
        rw [List.singleton_append, readVarFrom, final_payload hlt, group_or _ hval (by omega),
          Nat.mod_eq_of_lt hv, if_pos (final_flag hlt), List.length_singleton]

/-- What `PutVarInt` writes, `ReadVarInt` reads back, whatever follows. -/
theorem readVarInt_putVarInt {room v : ℕ} {bs : Bytes} (rest : Bytes) (hv : v < 2 ^ 32)
    (h : putVarInt room v = some bs) :
    readVarInt (bs ++ rest) = .ok (v, bs.length) := by
  have hlen := putVarInt_length (k := 4) (by omega) h
  have hread : readVarFrom 32 .varIntOverflow 5 0 0 (bs ++ rest) =
      .ok (0 + v * 2 ^ (7 * 0), 0 + bs.length) :=
    readVarFrom_putVarInt rest (by omega) (by omega) (by simp) (by simpa using hv) h
  simpa [readVarInt] using hread

/-! ## The value of an encoding -/

/-- The number that base-128 groups stand for, the lowest group first. -/
def groupsValue (groups : Bytes) : ℕ := Nat.ofDigits 128 (groups.map fun b => b.toNat % 128)

theorem groupsValue_cons (b : UInt8) (groups : Bytes) :
    groupsValue (b :: groups) = b.toNat % 128 + 128 * groupsValue groups := by
  simp [groupsValue, Nat.ofDigits_cons]

theorem groupsValue_lt (groups : Bytes) : groupsValue groups < 2 ^ (7 * groups.length) := by
  have hlt : groupsValue groups < 128 ^ (groups.map fun b => b.toNat % 128).length := by
    refine Nat.ofDigits_lt_base_pow_length (by decide) fun x hx => ?_
    obtain ⟨b, -, rfl⟩ := List.mem_map.mp hx
    omega
  rw [List.length_map] at hlt
  rwa [Nat.pow_mul]

theorem groupsValue_concat (groups : Bytes) (b : UInt8) :
    groupsValue (groups ++ [b]) =
      groupsValue groups + 2 ^ (7 * groups.length) * (b.toNat % 128) := by
  rw [groupsValue, List.map_append, Nat.ofDigits_append, List.length_map, Nat.pow_mul]
  simp [groupsValue]

/-- Seven bits of a byte are a group. -/
theorem group_payload (b : UInt8) : (b &&& 0x7F).toNat = b.toNat % 128 := by
  have hmask : (0x7F : UInt8).toNat = 2 ^ 7 - 1 := rfl
  rw [UInt8.toNat_and, hmask, Nat.and_two_pow_sub_one_eq_mod]

/-- **What the loop returns.** It reads at least one byte, and the value is that of
the groups it has read, modulo the width. -/
theorem readVarFrom_ok {width k i val v n : ℕ} {overflow : Err} {buf : Bytes}
    (hwidth : 7 * (i + k) ≤ width + 7) (hval : val < 2 ^ (7 * i))
    (hok : readVarFrom width overflow k i val buf = .ok (v, n)) :
    i < n ∧ n ≤ i + k ∧ n ≤ i + buf.length ∧
      v = (val + 2 ^ (7 * i) * groupsValue (buf.take (n - i))) % 2 ^ width := by
  induction k generalizing i val buf with
  | zero => cases hok
  | succ k ih =>
      cases buf with
      | nil => cases hok
      | cons b rest =>
          rw [readVarFrom, group_payload, group_or _ hval (by omega)] at hok
          split at hok
          · cases hok
            refine ⟨by omega, by omega, by simp, ?_⟩
            simp [groupsValue, Nat.mul_comm]
          · -- the groups below the next byte fill its place at most
            have hnext : 2 ^ (7 * (i + 1)) = 128 * 2 ^ (7 * i) := by
              rw [Nat.mul_add, Nat.pow_add]; omega
            have hval' : (val + b.toNat % 128 * 2 ^ (7 * i)) % 2 ^ width < 2 ^ (7 * (i + 1)) := by
              refine (Nat.mod_le _ _).trans_lt ?_
              have hdigit : b.toNat % 128 * 2 ^ (7 * i) ≤ 127 * 2 ^ (7 * i) :=
                Nat.mul_le_mul_right _ (by omega)
              omega
            obtain ⟨hlow, hhigh, hlength, rfl⟩ := ih (by omega) hval' hok
            refine ⟨by omega, by omega, ?_, ?_⟩
            · rw [List.length_cons]
              omega
            · obtain ⟨m, rfl⟩ : ∃ m, n = i + 1 + m := ⟨n - (i + 1), by omega⟩
              have htake : (b :: rest).take (i + 1 + m - i) =
                  b :: rest.take (i + 1 + m - (i + 1)) := by
                rw [show i + 1 + m - i = m + 1 by omega, show i + 1 + m - (i + 1) = m by omega,
                  List.take_succ_cons]
              rw [htake, groupsValue_cons, Nat.mod_add_mod, hnext]
              congr 1
              ring

/-- The returned value is that of the groups unless the last byte the loop may read
has bits that do not fit. -/
theorem readVarFrom_exact_iff {width m v n : ℕ} {overflow : Err} {buf : Bytes}
    (hlow : 7 * m ≤ width) (hok : readVarFrom width overflow (m + 1) 0 0 buf = .ok (v, n)) :
    v = groupsValue (buf.take n) ↔ n ≤ m ∨ (buf.getD m 0).toNat % 128 < 2 ^ (width - 7 * m) := by
  obtain ⟨-, hn, hlength, hv⟩ := readVarFrom_ok (by omega) (by simp) hok
  simp only [Nat.mul_zero, Nat.pow_zero, Nat.one_mul, Nat.zero_add, Nat.sub_zero] at hn hlength hv
  have hmod : v = groupsValue (buf.take n) ↔ groupsValue (buf.take n) < 2 ^ width := by
    rw [hv]
    exact Nat.mod_eq_iff_lt (Nat.two_pow_pos width).ne'
  have hsmall : ∀ k ≤ m, groupsValue (buf.take k) < 2 ^ (7 * m) := by
    intro k hk
    refine (groupsValue_lt _).trans_le (Nat.pow_le_pow_right (by decide) ?_)
    have := List.length_take_le k buf
    omega
  rw [hmod]
  by_cases hshort : n ≤ m
  · have hfits := (hsmall n hshort).trans_le (Nat.pow_le_pow_right (by decide) hlow)
    exact iff_of_true hfits (.inl hshort)
  · -- all bytes are read, the last one decides
    obtain rfl : n = m + 1 := by omega
    have htake : buf.take (m + 1) = buf.take m ++ [buf.getD m 0] := by
      have hlt : m < buf.length := by omega
      rw [List.take_succ_eq_append_getElem hlt, List.getD_eq_getElem _ _ hlt]
    have hlen : (buf.take m).length = m := by
      rw [List.length_take]
      omega
    have hpow : 2 ^ width = 2 ^ (7 * m) * 2 ^ (width - 7 * m) := by
      rw [← Nat.pow_add, Nat.add_sub_of_le hlow]
    have hrest := hsmall m (Nat.le_refl m)
    have hplace : groupsValue (buf.take (m + 1)) < 2 ^ width ↔
        (buf.getD m 0).toNat % 128 < 2 ^ (width - 7 * m) := by
      rw [htake, groupsValue_concat, hlen, hpow]
      constructor
      · intro hlt
        exact Nat.lt_of_mul_lt_mul_left ((Nat.le_add_left _ _).trans_lt hlt)
      · intro hlt
        have hnext := Nat.mul_le_mul_left (2 ^ (7 * m)) (Nat.succ_le_of_lt hlt)
        rw [Nat.succ_eq_add_one, Nat.mul_add] at hnext
        omega
    rw [hplace]
    exact (or_iff_right (by omega)).symm

/-- A variable-length integer that is read has the value of its groups, exactly if
they do not run over the width: the fifth byte of a `VarInt` has four bits to give,
the tenth byte of a `VarLong` one. -/
theorem read_exact_iff (buf : Bytes) (v n : ℕ) :
    (readVarInt buf = .ok (v, n) →
      (v = groupsValue (buf.take n) ↔ n ≤ 4 ∨ (buf.getD 4 0).toNat % 128 < 16)) ∧
    (readVarLong buf = .ok (v, n) →
      (v = groupsValue (buf.take n) ↔ n ≤ 9 ∨ (buf.getD 9 0).toNat % 128 < 2)) :=
  ⟨readVarFrom_exact_iff (by decide), readVarFrom_exact_iff (by decide)⟩

/-- The encoding of 300. -/
theorem read_exact_iff_three_hundred :
    readVarInt [0xAC, 0x02] = .ok (300, 2) ∧ 300 = groupsValue [0xAC, 0x02] :=
  have hread : readVarInt [0xAC, 0x02] = .ok (300, 2) := by decide
  ⟨hread, ((read_exact_iff [0xAC, 0x02] 300 2).1 hread).mpr (.inl (by decide))⟩

/-- Two encodings that are too large are read without an error: one of `2^35 - 1` as
`2^32 - 1`, one of `2^64` as zero. -/
theorem overlong_value_truncated :
    readVarInt [0xFF, 0xFF, 0xFF, 0xFF, 0x7F] = .ok (2 ^ 32 - 1, 5) ∧
      groupsValue [0xFF, 0xFF, 0xFF, 0xFF, 0x7F] = 2 ^ 35 - 1 ∧
    readVarLong [0x80, 0x80, 0x80, 0x80, 0x80, 0x80, 0x80, 0x80, 0x80, 0x02] = .ok (0, 10) ∧
      groupsValue [0x80, 0x80, 0x80, 0x80, 0x80, 0x80, 0x80, 0x80, 0x80, 0x02] = 2 ^ 64 := by
  decide

end Fastwire
