/-
# Negotiated compression

After the handshake the server compresses with the configuration it negotiated
and the client with its own: it does not look at the acknowledgement. So whether
a payload can be decoded depends on the dictionaries the two ends really use.
-/

import Fastwire.Handshake.Agreement

namespace Fastwire

open CompressorPool

variable {P : Primitives} {codecs : Codecs}

/-! ## The pools of the two ends -/

/-- A CONNECT that was built by a client is answered with the negotiated
configuration. -/
theorem serverProcessConnect_compressionConfig {config : HandshakeConfig}
    {random : HandshakeRandom P} {now : ℤ} {connect : ConnectPacket} {connectData challenge : Bytes}
    {pending : PendingHandshake} (hsent : buildConnectPacket 128 connect = .ok connectData)
    (hok : serverProcessConnect P config random now connectData = .ok (pending, challenge)) :
    pending.compressionConfig = (negotiateCompression P connect config.compression).2 := by
  obtain ⟨_, _, hsent', hparse⟩ := buildConnectPacket_parse connect
  cases hsent.symm.trans hsent'
  simp only [serverProcessConnect, hparse, ne_eq, not_true_eq_false, ↓reduceIte,
    unmarshalConnect_connectBytes, answerConnect] at hok
  grind [pendingFor]

theorem serverProcessResponse_compress {encryptedData : Bytes} {pending : PendingHandshake}
    {addr : AddrPort} {now : ℤ} {conn : Connection}
    (hok : serverProcessResponse P codecs encryptedData pending addr now = .ok conn) :
    conn.compress = .ofConfig pending.compressionConfig codecs := by
  obtain ⟨-, -, recvCipher, sendCipher, -, -, -, -, rfl⟩ := serverProcessResponse_ok_inv hok
  rfl

/-! ## When the dictionaries fit -/

variable (P codecs)

/-- The server has the dictionary of a client that uses one. -/
def serverHasDictionary (client server : CompressionConfig) : Prop :=
  client.algorithm = .zstd → codecs.usableDictionary client.dictionary = none ∨
    server.algorithm = .zstd ∧
      client.dictionary.map P.sha256 = some (P.sha256 (server.dictionary.getD [])) ∧
      codecs.usableDictionary server.dictionary = codecs.usableDictionary client.dictionary

/-- The client has the dictionary of a server that uses one. -/
def clientHasDictionary (client server : CompressionConfig) : Prop :=
  client.algorithm = .zstd → codecs.usableDictionary server.dictionary = none ∨
    codecs.usableDictionary client.dictionary = codecs.usableDictionary server.dictionary

variable {P codecs} {client : ClientConfig} {config : HandshakeConfig} {clientKey : P.Private}

theorem CompressionAlgorithm.toByte_inj {a b : CompressionAlgorithm} :
    a.toByte = b.toByte ↔ a = b := by
  cases a <;> cases b <;> decide

/-- The server uses its own configuration if the algorithms are the same and the
announced dictionary, if there is one, is its own; otherwise it does not
compress. -/
theorem negotiateCompression_connectPacket :
    (negotiateCompression P (client.connectPacket P clientKey) config.compression).2 =
      if client.compression.algorithm ≠ .none ∧
          config.compression.algorithm = client.compression.algorithm ∧
          (client.compression.algorithm = .zstd → client.compression.dictionary = none ∨
            client.compression.dictionary.map P.sha256 =
              some (P.sha256 (config.compression.dictionary.getD []))) then config.compression
      else .unset := by
  simp only [negotiateCompression, ClientConfig.connectPacket, CompressionAlgorithm.toByte_inj]
  cases halg : client.compression.algorithm with
  | none => simp
  | lz4 =>
      by_cases hserver : config.compression.algorithm = .lz4
      · simp [hserver]
      · simp [hserver, CompressionAlgorithm.toByte_inj]
  | zstd =>
      by_cases hserver : config.compression.algorithm = .zstd
      · cases client.compression.dictionary with
        | none => simp [hserver]
        | some dict =>
            by_cases hhash : P.sha256 dict = P.sha256 (config.compression.dictionary.getD [])
            · simp [hserver, hhash]
            · simp [hserver, hhash]
      · simp [hserver, CompressionAlgorithm.toByte_inj]

theorem ofConfig_reads_ofConfig_iff {dec enc : CompressionConfig} :
    (ofConfig dec codecs).reads (ofConfig enc codecs) ↔
      (enc.algorithm = .zstd → codecs.usableDictionary enc.dictionary = none ∨
        (if dec.algorithm = .zstd then codecs.usableDictionary dec.dictionary else none) =
          codecs.usableDictionary enc.dictionary) :=
  Iff.rfl

/-- The server can read what the client compresses. -/
theorem reads_negotiated_iff :
    (ofConfig (negotiateCompression P (client.connectPacket P clientKey) config.compression).2
        codecs).reads (ofConfig client.compression codecs) ↔
      serverHasDictionary P codecs client.compression config.compression := by
  rw [negotiateCompression_connectPacket, ofConfig_reads_ofConfig_iff, serverHasDictionary]
  refine imp_congr_right fun hzstd => or_congr_right' fun hdict => ?_
  have hpresent : client.compression.dictionary ≠ none := by
    intro hnone
    rw [hnone] at hdict
    exact hdict rfl
  split
  · rename_i hsame
    obtain ⟨-, halg, hhash⟩ := hsame
    have hhash := (hhash hzstd).resolve_left hpresent
    simp [halg, hzstd, hhash]
  · rename_i hdiffer
    -- the server fell back to no compression, so its decoder has no dictionary
    constructor
    · intro hunset
      exact absurd hunset.symm hdict
    · rintro ⟨halg, hhash, -⟩
      exact absurd ⟨by simp [hzstd], halg.trans hzstd.symm, fun _ => Or.inr hhash⟩ hdiffer

/-- The client can read what the server compresses. -/
theorem negotiated_reads_iff
    (halg : (negotiateCompression P (client.connectPacket P clientKey)
      config.compression).2.algorithm ≠ .none) :
    (ofConfig client.compression codecs).reads
        (ofConfig (negotiateCompression P (client.connectPacket P clientKey)
          config.compression).2 codecs) ↔
      clientHasDictionary codecs client.compression config.compression := by
  rw [negotiateCompression_connectPacket] at halg ⊢
  split at halg
  · rename_i hsame
    rw [if_pos hsame, ofConfig_reads_ofConfig_iff, clientHasDictionary, hsame.2.1]
    refine imp_congr_right fun hzstd => ?_
    rw [if_pos hzstd]
  · exact absurd rfl halg

/-- After a handshake, a payload that one side compressed is decoded by the other
side exactly if it was sent as it is, or if it is at most 4 MiB long and the
decoding side has the dictionary the other one uses. -/
theorem decodable_iff {random : HandshakeRandom P} {clientAddr : AddrPort} {now : ℤ}
    (hlaw : codecs.Lawful)
    (x : HonestExchange P codecs config random clientKey (client.connectPacket P clientKey)
      clientAddr now) (serverAddr : AddrPort) (payload out : Bytes) (flags : UInt8) :
    let clientConn := client.connection codecs serverAddr now x.challenge x.sendCipher x.recvCipher
    (clientConn.compress.compressPayload payload = .ok (out, flags) →
      (x.serverConn.compress.decompressPayload out flags = .ok (some payload) ↔
        flags = 0 ∨ payload.length ≤ maxDecompressedSize ∧
          serverHasDictionary P codecs client.compression config.compression)) ∧
    (x.serverConn.compress.compressPayload payload = .ok (out, flags) →
      (clientConn.compress.decompressPayload out flags = .ok (some payload) ↔
        flags = 0 ∨ payload.length ≤ maxDecompressedSize ∧
          clientHasDictionary codecs client.compression config.compression)) := by
  intro clientConn
  have hclient : clientConn.compress = .ofConfig client.compression codecs := rfl
  have hserver := serverProcessResponse_compress x.accepted
  rw [serverProcessConnect_compressionConfig x.sent x.challenged] at hserver
  rw [hclient, hserver]
  constructor
  · intro hcompress
    apply (decompressPayload_compressPayload hlaw (by rfl) hcompress).trans
    rw [reads_negotiated_iff]
  · intro hcompress
    apply (decompressPayload_compressPayload hlaw (by rfl) hcompress).trans
    refine or_congr_right' fun hflags => and_congr_right fun _ => ?_
    rcases compressPayload_cases hcompress with ⟨-, rfl⟩ | ⟨-, -, halg, -⟩
    · exact absurd rfl hflags
    · exact negotiated_reads_iff halg

/-! ## A concrete pair of codecs -/

/-- Every byte twice. -/
def twice : Bytes → Bytes
  | [] => []
  | b :: bs => b :: b :: twice bs

/-- One half of a text that has every byte twice. -/
def half : Bytes → Option Bytes
  | [] => some []
  | [_] => none
  | a :: b :: bs => if a = b then (half bs).map (a :: ·) else none

theorem length_twice (bs : Bytes) : (twice bs).length = 2 * bs.length := by
  induction bs with
  | nil => rfl
  | cons b bs ih =>
      simp only [twice, List.length_cons, ih]
      omega

theorem twice_of_half {src bs : Bytes} (h : half src = some bs) : twice bs = src := by
  fun_induction half src generalizing bs with
  | case1 => cases h; rfl
  | case2 => cases h
  | case3 b src ih =>
      obtain ⟨rest, hrest, rfl⟩ := Option.map_eq_some_iff.mp h
      rw [twice, ih hrest]
  | case4 => cases h

/-- A compressor for texts that have every byte twice. -/
def shrink (src : Bytes) : Bytes :=
  match half src with
  | some bs => 0 :: bs
  | none => 1 :: src

def grow (size : ℕ) : Bytes → Option Bytes
  | 0 :: bs => if 2 * bs.length ≤ size then some (twice bs) else none
  | 1 :: src => if src.length ≤ size then some src else none
  | _ => none

theorem grow_shrink (size : ℕ) (src : Bytes) :
    grow size (shrink src) = if src.length ≤ size then some src else none := by
  rw [shrink]
  split
  · rename_i bs hhalf
    rw [grow, ← length_twice, twice_of_half hhalf]
  · rfl

def zeros : Bytes := List.replicate 200 0

theorem zeros_length : zeros.length = 200 := List.length_replicate

/-- A frame that spells out its dictionary. -/
def putDict : (dict body : Bytes) → Bytes
  | [], body => 0 :: body
  | b :: dict, body => 1 :: b :: putDict dict body

/-- The body of a frame with the given dictionary. -/
def stripDict : (dict frame : Bytes) → Option Bytes
  | [], 0 :: body => some body
  | b :: dict, 1 :: b' :: frame => if b = b' then stripDict dict frame else none
  | _, _ => none

theorem stripDict_putDict (dict dict' body : Bytes) :
    stripDict dict' (putDict dict body) = if dict' = dict then some body else none := by
  induction dict generalizing dict' with
  | nil => cases dict' <;> simp [putDict, stripDict]
  | cons b dict ih =>
      cases dict' with
      | nil => simp [putDict, stripDict]
      | cons b' dict' =>
          simp only [putDict, stripDict, ih, List.cons.injEq]
          by_cases hb : b' = b <;> simp [hb]

def runCodecs : Codecs where
  lz4CompressBlock src := some (shrink src)
  lz4UncompressBlock block size := grow size block
  inspectDictionary _ := some 1
  zstdEncodeAll
    | none, src => 0 :: shrink src
    | some dict, src => 1 :: putDict dict (shrink src)
  zstdDecodeAll
    | _, maxMemory, 0 :: body => (grow maxMemory body).map some
    | some dict, maxMemory, 1 :: frame => ((stripDict dict frame).bind (grow maxMemory)).map some
    | _, _, _ => none

theorem runCodecs_lawful : runCodecs.Lawful where
  lz4 src block size hblock _ := by
    cases hblock
    exact grow_shrink size src
  zstd dict maxMemory src _ := by
    cases dict <;> simp [runCodecs, stripDict_putDict, grow_shrink, apply_ite]
  zstd_plain dict maxMemory src _ := by
    cases dict <;> simp [runCodecs, grow_shrink, apply_ite]
  zstd_foreign dict dict' maxMemory src _ hdict := by
    cases dict' with
    | none => rfl
    | some d =>
        have hne : d ≠ dict := fun h => hdict (congrArg some h)
        simp [runCodecs, stripDict_putDict, hne]

/-- `zeros`, compressed with the dictionary of the client below. -/
def zerosFrame : Bytes := [1, 1, 5, 0, 0] ++ List.replicate 100 0

def dictClient : ClientConfig := { plainClient with compression := ⟨.zstd, 0, some [5]⟩ }

def dictServer : HandshakeConfig := { plainServer with compression := ⟨.zstd, 0, some [5]⟩ }

/-- A handshake of that client with a server. -/
abbrev DictExchange (config : HandshakeConfig) : Type :=
  HonestExchange plainPrimitives runCodecs config plainRandom plainKey
    (dictClient.connectPacket plainPrimitives plainKey) ⟨0, 1⟩ 0

theorem exists_dictExchange (config : HandshakeConfig) : Nonempty (DictExchange config) := by
  obtain ⟨x, -⟩ := exists_matching_exchange plainPrimitives_lawful runCodecs config plainRandom
    plainKey (dictClient.connectPacket plainPrimitives plainKey) ⟨0, 1⟩ 0 rfl rfl
    (Or.inr (Or.inl rfl))
  exact ⟨x⟩

theorem decodable_iff_same_dictionary :
    ∃ (x : DictExchange dictServer) (out : Bytes),
      x.serverConn.compress.decompressPayload out 3 = .ok (some zeros) := by
  obtain ⟨x⟩ := exists_dictExchange dictServer
  have hcompress : (ofConfig dictClient.compression runCodecs).compressPayload zeros =
      .ok (zerosFrame, 3) := by decide +kernel
  refine ⟨x, zerosFrame, ?_⟩
  refine ((decodable_iff runCodecs_lawful x ⟨0, 2⟩ _ _ _).1 hcompress).mpr (Or.inr ⟨?_, ?_⟩)
  · rw [zeros_length]
    decide
  · exact fun _ => Or.inr ⟨rfl, rfl, rfl⟩

/-- The server has no dictionary. It acknowledges the mismatch and does not
compress, but the client goes on with its own configuration. -/
theorem dictionary_payload_undecodable :
    ∃ (x : DictExchange plainServer) (out : Bytes) (flags : UInt8),
      (dictClient.connection runCodecs ⟨0, 2⟩ 0 x.challenge x.sendCipher
        x.recvCipher).compress.compressPayload zeros = .ok (out, flags) ∧
      x.serverConn.compress.decompressPayload out flags =
        .error (.wrapped .decompressionFailed) := by
  obtain ⟨x⟩ := exists_dictExchange plainServer
  have hserver := serverProcessResponse_compress x.accepted
  rw [serverProcessConnect_compressionConfig x.sent x.challenged,
    negotiateCompression_connectPacket] at hserver
  have hcompress : (ofConfig dictClient.compression runCodecs).compressPayload zeros =
      .ok (zerosFrame, 3) := by decide +kernel
  refine ⟨x, zerosFrame, 3, hcompress, ?_⟩
  rw [hserver]
  rfl

end Fastwire
