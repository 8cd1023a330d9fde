/-
# Compression

The wrapper that decides when a payload is compressed and how it is marked. The
two compression libraries are parameters: what matters here is only which of
their outcomes the wrapper passes on, which it turns into an error and where a
nil slice comes out.
-/

import Fastwire.Fragment.Split

namespace Fastwire

inductive CompressionAlgorithm
  | none
  | lz4
  | zstd
  deriving DecidableEq, Repr

/-- The third-party codecs. A dictionary is optional. -/
structure Codecs where
  /-- `lz4.CompressBlock`: no result on an error, empty for incompressible data. -/
  lz4CompressBlock : Bytes → Option Bytes
  /-- `lz4.UncompressBlock` into a buffer of the given size. -/
  lz4UncompressBlock : Bytes → ℕ → Option Bytes
  /-- The identifier `zstd.InspectDictionary` finds; no result on an error. -/
  inspectDictionary : Bytes → Option ℕ
  zstdEncodeAll : (dict : Slice) → Bytes → Bytes
  /-- `DecodeAll` of a decoder with a dictionary and a bound on its output. -/
  zstdDecodeAll : (dict : Slice) → (maxMemory : ℕ) → Bytes → Option Slice

namespace Codecs

variable (codecs : Codecs)

/-- The dictionary the zstd coders are given: a malformed one and one without
an identifier are left out. -/
def usableDictionary (dict : Slice) : Slice :=
  dict.filter fun d => (codecs.inspectDictionary d).any (· ≠ 0)

/-- Whatever the decoder is given, it does not make another text of what an encoder
wrote. -/
structure Faithful : Prop where
  lz4 : ∀ src block size out, codecs.lz4CompressBlock src = some block → block ≠ [] →
    codecs.lz4UncompressBlock block size = some out → out = src
  zstd : ∀ dict dict' maxMemory src out, src ≠ [] →
    codecs.zstdDecodeAll dict' maxMemory (codecs.zstdEncodeAll dict src) = some (some out) →
      out = src

/-- Between two ends with one configuration decoding undoes encoding, up to the size
the decoder allows. -/
structure Inverse : Prop where
  lz4 : ∀ src block size, codecs.lz4CompressBlock src = some block → block ≠ [] →
    codecs.lz4UncompressBlock block size = if src.length ≤ size then some src else none
  zstd : ∀ dict maxMemory src, src ≠ [] →
    codecs.zstdDecodeAll dict maxMemory (codecs.zstdEncodeAll dict src) =
      if src.length ≤ maxMemory then some (some src) else none

/-- What is assumed of two ends with dictionaries of their own: a frame made without a
dictionary decodes with any, and one made with a dictionary does not decode without
it. The frame of an empty source is empty and decodes always. -/
structure Lawful : Prop extends codecs.Inverse where
  zstd_plain : ∀ dict maxMemory src, src ≠ [] →
    codecs.zstdDecodeAll dict maxMemory (codecs.zstdEncodeAll none src) =
      if src.length ≤ maxMemory then some (some src) else none
  zstd_foreign : ∀ dict dict' maxMemory src, src ≠ [] → dict' ≠ some dict →
    codecs.zstdDecodeAll dict' maxMemory (codecs.zstdEncodeAll (some dict) src) = none

variable {codecs}

theorem Lawful.zstdDecodeAll_eq (h : codecs.Lawful) {src : Bytes} (hsrc : src ≠ [])
    (dict dict' : Slice) (maxMemory : ℕ) :
    codecs.zstdDecodeAll dict' maxMemory (codecs.zstdEncodeAll dict src) =
      if src.length ≤ maxMemory ∧ (dict = none ∨ dict' = dict) then some (some src) else none := by
  cases dict with
  | none => simp [h.zstd_plain _ _ _ hsrc]
  | some d =>
      by_cases hdict : dict' = some d
      · simp [hdict, h.zstd _ _ _ hsrc]
      · simp [hdict, h.zstd_foreign _ _ _ _ hsrc hdict]

theorem Lawful.faithful (h : codecs.Lawful) : codecs.Faithful where
  lz4 src block size out hblock hne hout := by
    rw [h.lz4 _ _ _ hblock hne] at hout
    grind
  zstd dict dict' maxMemory src out hsrc hout := by
    rw [h.zstdDecodeAll_eq hsrc] at hout
    grind

end Codecs

structure CompressionConfig where
  algorithm : CompressionAlgorithm
  hurdle : ℕ
  dictionary : Slice
  deriving DecidableEq, Repr

structure CompressorPool where
  algorithm : CompressionAlgorithm
  hurdle : ℕ
  dictionary : Slice
  codecs : Codecs

namespace CompressorPool

/-- `DefaultCompressionHurdle`. -/
def defaultHurdle : ℕ := 128

def maxDecompressedSize : ℕ := 4 * 1024 * 1024

/-- `newCompressorPool`: an unset hurdle gets its default. -/
def init (algorithm : CompressionAlgorithm) (hurdle : ℕ) (dictionary : Slice) (codecs : Codecs) :
    CompressorPool where
  algorithm := algorithm
  hurdle := if hurdle = 0 ∧ algorithm ≠ .none then defaultHurdle else hurdle
  dictionary := dictionary
  codecs := codecs

def ofConfig (config : CompressionConfig) (codecs : Codecs) : CompressorPool :=
  init config.algorithm config.hurdle config.dictionary codecs

/-- `lz4Compressor.Compress`. -/
def lz4Compress (p : CompressorPool) (src : Bytes) : Except Err Bytes :=
  if src = [] then .ok []
  else
    match p.codecs.lz4CompressBlock src with
    | none => .error (.wrapped .compressionFailed)
    | some [] => .error .compressionFailed
    | some block => .ok (putUint32 (BitVec.ofNat 32 src.length) ++ block)

/-- `lz4Compressor.Decompress` into a nil destination. -/
def lz4Decompress (p : CompressorPool) (src : Bytes) : Except Err Slice :=
  if src.length < 4 then .error .decompressionFailed
  else
    let origSize := (readUint32 src).toNat
    if origSize > maxDecompressedSize then .error .decompressionFailed
    else if origSize = 0 then .ok none
    else
      match p.codecs.lz4UncompressBlock (src.drop 4) origSize with
      | none => .error (.wrapped .decompressionFailed)
      | some bytes => .ok (some bytes)

/-- The configured compressor, if there is one. -/
def compress (p : CompressorPool) (src : Bytes) : Except Err Bytes :=
  match p.algorithm with
  | .none => .ok src
  | .lz4 => p.lz4Compress src
  | .zstd => .ok (p.codecs.zstdEncodeAll (p.codecs.usableDictionary p.dictionary) src)

def compressedFlags (p : CompressorPool) : UInt8 :=
  if p.algorithm = .zstd then fragFlagCompressed ||| fragFlagZstd else fragFlagCompressed

/-- `compressPayload`: the bytes to send and the fragment flags. Incompressible
and expanding payloads are sent as they are. -/
def compressPayload (p : CompressorPool) (payload : Bytes) : Except Err (Bytes × UInt8) :=
  if p.algorithm = .none ∨ payload.length % 2 ^ 32 < p.hurdle then .ok (payload, 0)
  else
    match p.compress payload with
    | .error .compressionFailed => .ok (payload, 0)
    | .error e => .error e
    | .ok compressed =>
        if compressed.length ≥ payload.length then .ok (payload, 0)
        else .ok (compressed, p.compressedFlags)

/-- The dictionary of the zstd decoder. Without a zstd compressor of its own the
pool decodes without one. -/
def decoderDictionary (p : CompressorPool) : Slice :=
  if p.algorithm = .zstd then p.codecs.usableDictionary p.dictionary else none

def decompressPayload (p : CompressorPool) (payload : Bytes) (flags : UInt8) : Except Err Slice :=
  if flags &&& fragFlagCompressed = 0 then .ok (some payload)
  else if flags &&& fragFlagZstd ≠ 0 then
    match p.codecs.zstdDecodeAll p.decoderDictionary maxDecompressedSize payload with
    | none => .error (.wrapped .decompressionFailed)
    | some result => .ok result
  else p.lz4Decompress payload

/-- What was not compressed comes back as it is. -/
theorem decompressPayload_plain (p : CompressorPool) (payload : Bytes) :
    p.decompressPayload payload 0 = .ok (some payload) := by
  simp [decompressPayload]

/-! ## Decoding what another pool encoded -/

section

variable {enc dec : CompressorPool} {payload out : Bytes} {flags : UInt8}

/-- `compressPayload` returns the payload itself, or something shorter that the
configured compressor made. -/
theorem compressPayload_cases (h : enc.compressPayload payload = .ok (out, flags)) :
    out = payload ∧ flags = 0 ∨
      enc.compress payload = .ok out ∧ out.length < payload.length ∧ enc.algorithm ≠ .none ∧
        flags = enc.compressedFlags := by
  grind [compressPayload]

/-- The decoder's dictionary fits the encoder. -/
def reads (dec enc : CompressorPool) : Prop :=
  enc.algorithm = .zstd →
    enc.codecs.usableDictionary enc.dictionary = none ∨
      dec.decoderDictionary = enc.codecs.usableDictionary enc.dictionary

/-- An LZ4 block behind the length of its source. -/
theorem lz4Compress_ok (h : enc.lz4Compress payload = .ok out) (hpayload : payload ≠ []) :
    ∃ block, enc.codecs.lz4CompressBlock payload = some block ∧ block ≠ [] ∧
      out = putUint32 (BitVec.ofNat 32 payload.length) ++ block := by
  grind [lz4Compress]

/-- The length field cuts large sizes, but then the buffer is too small. -/
theorem lz4Decompress_putUint32 (hlaw : dec.codecs.Inverse) {block : Bytes}
    (hblock : dec.codecs.lz4CompressBlock payload = some block) (hne : block ≠ [])
    (hpayload : payload ≠ []) :
    dec.lz4Decompress (putUint32 (BitVec.ofNat 32 payload.length) ++ block) = .ok (some payload) ↔
      payload.length ≤ maxDecompressedSize := by
  have hpos : 0 < payload.length := List.length_pos_of_ne_nil hpayload
  simp only [lz4Decompress, readUint32_putUint32, BitVec.toNat_ofNat]
  rw [if_neg (by simp), List.drop_left' (putUint32_length _), hlaw.lz4 _ _ _ hblock hne]
  by_cases hsize : payload.length ≤ maxDecompressedSize
  · have hmod : payload.length % 2 ^ 32 = payload.length :=
      Nat.mod_eq_of_lt (Nat.lt_of_le_of_lt hsize (by decide))
    rw [hmod, if_neg (by omega), if_neg (by omega), if_pos le_rfl]
    simp [hsize]
  · simp only [hsize, iff_false]
    split
    · simp
    · split
      · simp
      · rw [if_neg (by omega)]
        simp

theorem decompressPayload_lz4 (hlaw : enc.codecs.Inverse) (hcodecs : dec.codecs = enc.codecs)
    (halg : enc.algorithm = .lz4) (hcompress : enc.compress payload = .ok out)
    (hpayload : payload ≠ []) :
    dec.decompressPayload out enc.compressedFlags = .ok (some payload) ↔
      payload.length ≤ maxDecompressedSize := by
  simp only [compress, halg] at hcompress
  obtain ⟨block, hblock, hne, rfl⟩ := lz4Compress_ok hcompress hpayload
  rw [← hcodecs] at hlaw hblock
  have hflags : enc.compressedFlags = fragFlagCompressed := by simp [compressedFlags, halg]
  rw [hflags, decompressPayload, if_neg (by decide), if_neg (by decide)]
  exact lz4Decompress_putUint32 hlaw hblock hne hpayload

/-- A zstd payload comes back if the decoder of the library gives it back. -/
theorem decompressPayload_zstd (hcodecs : dec.codecs = enc.codecs) (halg : enc.algorithm = .zstd)
    (hcompress : enc.compress payload = .ok out) (bytes : Bytes) :
    dec.decompressPayload out enc.compressedFlags = .ok (some bytes) ↔
      enc.codecs.zstdDecodeAll dec.decoderDictionary maxDecompressedSize
        (enc.codecs.zstdEncodeAll (enc.codecs.usableDictionary enc.dictionary) payload) =
          some (some bytes) := by
  simp only [compress, halg, Except.ok.injEq] at hcompress
  subst hcompress
  have hflags : enc.compressedFlags = fragFlagCompressed ||| fragFlagZstd := if_pos halg
  rw [hflags, decompressPayload, if_neg (by decide), if_pos (by decide), hcodecs]
  split <;> simp_all

theorem compressedFlags_ne_zero (p : CompressorPool) : p.compressedFlags ≠ 0 := by
  rw [compressedFlags]
  split <;> decide

/-- A payload comes back exactly if it went out as it was, or if it is not too
large for the decoder and the decoder has the dictionary. -/
theorem decompressPayload_compressPayload (hlaw : enc.codecs.Lawful)
    (hcodecs : dec.codecs = enc.codecs)
    (hcompress : enc.compressPayload payload = .ok (out, flags)) :
    dec.decompressPayload out flags = .ok (some payload) ↔
      flags = 0 ∨ payload.length ≤ maxDecompressedSize ∧ dec.reads enc := by
  rcases compressPayload_cases hcompress with ⟨rfl, rfl⟩ | ⟨hout, hshort, halg, rfl⟩
  · simp [decompressPayload_plain]
  · have hpayload : payload ≠ [] := List.ne_nil_of_length_pos (Nat.zero_lt_of_lt hshort)
    have hflags := enc.compressedFlags_ne_zero
    cases hcase : enc.algorithm with
    | none => exact absurd hcase halg
    | lz4 =>
        rw [decompressPayload_lz4 hlaw.toInverse hcodecs hcase hout hpayload]
        simp [hflags, reads, hcase]
    | zstd =>
        rw [decompressPayload_zstd hcodecs hcase hout, hlaw.zstdDecodeAll_eq hpayload]
        simp [hflags, reads, hcase, or_iff_not_imp_left]

/-- A pool reads what it has compressed itself, up to the size the decoder allows. -/
theorem decompressPayload_self (hlaw : enc.codecs.Inverse)
    (hcompress : enc.compressPayload payload = .ok (out, flags)) :
    enc.decompressPayload out flags = .ok (some payload) ↔
      flags = 0 ∨ payload.length ≤ maxDecompressedSize := by
  rcases compressPayload_cases hcompress with ⟨rfl, rfl⟩ | ⟨hout, hshort, halg, rfl⟩
  · simp [decompressPayload_plain]
  · have hpayload : payload ≠ [] := List.ne_nil_of_length_pos (Nat.zero_lt_of_lt hshort)
    have hflags := enc.compressedFlags_ne_zero
    cases hcase : enc.algorithm with
    | none => exact absurd hcase halg
    | lz4 =>
        rw [decompressPayload_lz4 hlaw rfl hcase hout hpayload]
        simp [hflags]
    | zstd =>
        have hdict : enc.decoderDictionary = enc.codecs.usableDictionary enc.dictionary :=
          if_pos hcase
        rw [decompressPayload_zstd rfl hcase hout, hdict, hlaw.zstd _ _ _ hpayload]
        simp [hflags]

/-- A payload that is small enough to be sent in one packet is the message
itself, unless it is marked as compressed. -/
theorem eq_of_compressPayload_zero (h : enc.compressPayload payload = .ok (out, 0)) :
    out = payload := by
  rcases compressPayload_cases h with ⟨hsame, -⟩ | ⟨-, -, -, hflags⟩
  · exact hsame
  · exact absurd hflags.symm enc.compressedFlags_ne_zero

/-- Whatever another pool makes of a payload, it is not something else: the
result is the payload, nil or an error. -/
theorem eq_of_decompressPayload (hlaw : enc.codecs.Faithful) (hcodecs : dec.codecs = enc.codecs)
    (hcompress : enc.compressPayload payload = .ok (out, flags)) {bytes : Bytes}
    (hdecoded : dec.decompressPayload out flags = .ok (some bytes)) : bytes = payload := by
  rcases compressPayload_cases hcompress with ⟨rfl, rfl⟩ | ⟨hout, hshort, halg, rfl⟩
  · rw [decompressPayload_plain] at hdecoded
    simpa using hdecoded.symm
  have hpayload : payload ≠ [] := List.ne_nil_of_length_pos (Nat.zero_lt_of_lt hshort)
  cases hcase : enc.algorithm with
  | none => exact absurd hcase halg
  | lz4 =>
      simp only [compress, hcase] at hout
      obtain ⟨block, hblock, hne, rfl⟩ := lz4Compress_ok hout hpayload
      rw [← hcodecs] at hlaw hblock
      have hflags : enc.compressedFlags = fragFlagCompressed := by simp [compressedFlags, hcase]
      rw [hflags, decompressPayload, if_neg (by decide), if_neg (by decide)] at hdecoded
      simp only [lz4Decompress, readUint32_putUint32, List.drop_left' (putUint32_length _)]
        at hdecoded
      have hback := hlaw.lz4 payload block
        (BitVec.ofNat 32 payload.length).toNat bytes hblock hne
      grind
  | zstd =>
      rw [decompressPayload_zstd hcodecs hcase hout] at hdecoded
      exact hlaw.zstd _ _ _ _ _ hpayload hdecoded

end

end CompressorPool

end Fastwire
