/-
# Handshake packets

The control payloads of the handshake and the packets around them. They are
exchanged before there is a cipher, so everything here parses bytes that anybody
may have sent.
-/

import Fastwire.Connection.Basic

namespace Fastwire

/-! ## Fixed-size fields -/

abbrev ByteArray32 := Vector UInt8 32

abbrev MigrationToken := Vector UInt8 8

def migrationTokenSize : ℕ := 8

/-! ## The types on the wire -/

/-- `CipherSuite`: any byte can be asked for. -/
structure CipherSuite where
  code : UInt8
  deriving DecidableEq, Repr

namespace CipherSuite

/-- `CipherNone`. -/
protected def none : CipherSuite := ⟨0⟩

def aes128GCM : CipherSuite := ⟨1⟩

def chaCha20Poly1305 : CipherSuite := ⟨2⟩

end CipherSuite

inductive CompressionAck
  | ok
  | dictMismatch
  deriving DecidableEq, Repr

def CompressionAck.toByte : CompressionAck → UInt8
  | ok => 0
  | dictMismatch => 1

/-- `RejectReason`: any byte can be sent. -/
structure RejectReason where
  code : UInt8
  deriving DecidableEq, Repr

namespace RejectReason

def serverFull : RejectReason := ⟨0⟩

def banned : RejectReason := ⟨1⟩

end RejectReason

/-- `connectPacket`. The compression algorithm stays a byte: the server only
compares it with its own. -/
structure ConnectPacket where
  protocolVersion : UInt8
  appVersion : UInt16
  publicKey : ByteArray32
  cipherPref : CipherSuite
  compression : UInt8
  dictHash : Option ByteArray32
  features : UInt8
  deriving DecidableEq

/-- `challengePacket`. The compression acknowledgement is read by nobody. -/
structure ChallengePacket where
  protocolVersion : UInt8
  appVersion : UInt16
  publicKey : ByteArray32
  challengeToken : ByteArray32
  selectedCipher : CipherSuite
  compressionAck : UInt8
  features : UInt8
  migrationToken : MigrationToken
  deriving DecidableEq

def migrates (features : UInt8) : Bool := features &&& featureConnectionMigration ≠ 0

/-! ## Control payloads -/

def connectMinSize : ℕ := 40

def connectWithDictSize : ℕ := connectMinSize + 32

def challengeMinSize : ℕ := 71

def challengeWithMigration : ℕ := challengeMinSize + 8

def responseSize : ℕ := 33

def versionMismatchSize : ℕ := 4

def rejectSize : ℕ := 2

/-- The presence byte of the dictionary hash, and the hash. -/
def dictHashBytes : Option ByteArray32 → Bytes
  | none => [0]
  | some hash => 1 :: hash.toList

/-- What `marshalConnect` writes. -/
def connectBytes (cp : ConnectPacket) : Bytes :=
  [ControlType.connect.toByte, cp.protocolVersion] ++ (putUint16 cp.appVersion ++
    (cp.publicKey.toList ++ ([cp.cipherPref.code, cp.compression] ++
      (dictHashBytes cp.dictHash ++ [cp.features]))))

/-- `marshalConnect` on a buffer with the given room. -/
def marshalConnect (room : ℕ) (cp : ConnectPacket) : Except Err Bytes :=
  let needed := if cp.dictHash = none then connectMinSize else connectWithDictSize
  if room < needed then .error .bufferTooSmall else .ok (connectBytes cp)

/-- `unmarshalConnect`. A presence byte other than 1 means that there is no
dictionary hash. -/
def unmarshalConnect (data : Bytes) : Except Err ConnectPacket :=
  if data.length < connectMinSize then .error .invalidHandshake
  else if data.getD 0 0 ≠ ControlType.connect.toByte then .error .invalidHandshake
  else
    let connect (dictHash : Option ByteArray32) (features : UInt8) : ConnectPacket :=
      { protocolVersion := data.getD 1 0
        appVersion := readUint16 (data.drop 2)
        publicKey := readArray 32 (data.drop 4)
        cipherPref := ⟨data.getD 36 0⟩
        compression := data.getD 37 0
        dictHash := dictHash
        features := features }
    let dictPresent := data.getD 38 0
    if dictPresent = 1 then
      if data.length < connectWithDictSize then .error .invalidHandshake
      else .ok (connect (some (readArray 32 (data.drop 39))) (data.getD 71 0))
    else .ok (connect none (data.getD 39 0))

/-- What `marshalChallenge` writes. -/
def challengeBytes (cp : ChallengePacket) : Bytes :=
  [ControlType.challenge.toByte, cp.protocolVersion] ++ (putUint16 cp.appVersion ++
    (cp.publicKey.toList ++ (cp.challengeToken.toList ++
      ([cp.selectedCipher.code, cp.compressionAck, cp.features] ++
        if migrates cp.features then cp.migrationToken.toList else []))))

def marshalChallenge (room : ℕ) (cp : ChallengePacket) : Except Err Bytes :=
  let needed := if migrates cp.features then challengeWithMigration else challengeMinSize
  if room < needed then .error .bufferTooSmall else .ok (challengeBytes cp)

/-- `unmarshalChallenge`. Without the migration feature the token is zero. -/
def unmarshalChallenge (data : Bytes) : Except Err ChallengePacket :=
  if data.length < challengeMinSize then .error .invalidHandshake
  else if data.getD 0 0 ≠ ControlType.challenge.toByte then .error .invalidHandshake
  else
    let features := data.getD 70 0
    let challenge (token : MigrationToken) : ChallengePacket :=
      { protocolVersion := data.getD 1 0
        appVersion := readUint16 (data.drop 2)
        publicKey := readArray 32 (data.drop 4)
        challengeToken := readArray 32 (data.drop 36)
        selectedCipher := ⟨data.getD 68 0⟩
        compressionAck := data.getD 69 0
        features := features
        migrationToken := token }
    if migrates features then
      if data.length < challengeWithMigration then .error .invalidHandshake
      else .ok (challenge (readArray 8 (data.drop 71)))
    else .ok (challenge (Vector.replicate 8 0))

def marshalResponse (room : ℕ) (token : ByteArray32) : Except Err Bytes :=
  if room < responseSize then .error .bufferTooSmall
  else .ok (ControlType.response.toByte :: token.toList)

def unmarshalResponse (data : Bytes) : Except Err ByteArray32 :=
  if data.length < responseSize then .error .invalidHandshake
  else if data.getD 0 0 ≠ ControlType.response.toByte then .error .invalidHandshake
  else .ok (readArray 32 (data.drop 1))

def marshalVersionMismatch (room : ℕ) (protoVersion : UInt8) (appVersion : UInt16) :
    Except Err Bytes :=
  if room < versionMismatchSize then .error .bufferTooSmall
  else .ok ([ControlType.versionMismatch.toByte, protoVersion] ++ putUint16 appVersion)

def unmarshalVersionMismatch (data : Bytes) : Except Err (UInt8 × UInt16) :=
  if data.length < versionMismatchSize then .error .invalidHandshake
  else if data.getD 0 0 ≠ ControlType.versionMismatch.toByte then .error .invalidHandshake
  else .ok (data.getD 1 0, readUint16 (data.drop 2))

def marshalReject (room : ℕ) (reason : RejectReason) : Except Err Bytes :=
  if room < rejectSize then .error .bufferTooSmall
  else .ok [ControlType.reject.toByte, reason.code]

def unmarshalReject (data : Bytes) : Except Err RejectReason :=
  if data.length < rejectSize then .error .invalidHandshake
  else if data.getD 0 0 ≠ ControlType.reject.toByte then .error .invalidHandshake
  else .ok ⟨data.getD 1 0⟩

/-! ## Packets -/

/-- The packet around a control payload: a header with nothing but the control
flag, then the payload in the room that is left. -/
def buildHandshakePacket (room : ℕ) (marshal : ℕ → Except Err Bytes) : Except Err Bytes :=
  match marshalHeader room ⟨flagControl, 0, 0, 0, 0⟩ with
  | .error e => .error e
  | .ok header => (marshal (room - header.length)).map (header ++ ·)

def buildConnectPacket (room : ℕ) (cp : ConnectPacket) : Except Err Bytes :=
  buildHandshakePacket room (marshalConnect · cp)

def buildChallengePacket (room : ℕ) (cp : ChallengePacket) : Except Err Bytes :=
  buildHandshakePacket room (marshalChallenge · cp)

def buildResponsePacket (room : ℕ) (token : ByteArray32) : Except Err Bytes :=
  buildHandshakePacket room (marshalResponse · token)

def buildVersionMismatchPacket (room : ℕ) (protoVersion : UInt8) (appVersion : UInt16) :
    Except Err Bytes :=
  buildHandshakePacket room (marshalVersionMismatch · protoVersion appVersion)

def buildRejectPacket (room : ℕ) (reason : RejectReason) : Except Err Bytes :=
  buildHandshakePacket room (marshalReject · reason)

/-- `parseControlPacket`: the header, the type byte and the payload, which
starts with the type byte. -/
def parseControlPacket (data : Bytes) : Except Err (PacketHeader × UInt8 × Bytes) :=
  match unmarshalHeader data with
  | .error e => .error e
  | .ok (hdr, n) =>
      if hdr.flags &&& flagControl = 0 then .error .invalidHandshake
      else
        match data.drop n with
        | [] => .error .invalidHandshake
        | ct :: rest => .ok (hdr, ct, ct :: rest)

/-! ## Round trips -/

/-- The header of a handshake packet takes eight bytes. -/
theorem buildHandshakePacket_eq {room : ℕ} (hroom : 16 ≤ room)
    (marshal : ℕ → Except Err Bytes) :
    buildHandshakePacket room marshal =
      (marshal (room - 8)).map ([2, 0, 0, 0, 0, 0, 0, 0] ++ ·) := by
  obtain ⟨header, hheader⟩ := marshalHeader_ok ⟨flagControl, 0, 0, 0, 0⟩ hroom
  obtain ⟨roomSeq, roomAck, sequence, ack, hseq, hack, rfl⟩ := marshalHeader_eq_ok hheader
  have hzero : ∀ {room bs}, putVarInt room (0 : UInt32).toNat = some bs → bs = [0] := by
    intro room bs hput
    cases room with
    | zero => simp [putVarInt] at hput
    | succ room => simpa [putVarInt, eq_comm] using hput
  cases hzero hseq
  cases hzero hack
  rw [buildHandshakePacket, hheader]
  rfl

/-- A packet that was built parses to the payload that was put in. -/
theorem buildHandshakePacket_parse {room : ℕ} (hroom : 16 ≤ room)
    {marshal : ℕ → Except Err Bytes} {ct : UInt8} {rest : Bytes}
    (hmarshal : marshal (room - 8) = .ok (ct :: rest)) :
    ∃ bytes hdr, buildHandshakePacket room marshal = .ok bytes ∧
      parseControlPacket bytes = .ok (hdr, ct, ct :: rest) := by
  have hheader : marshalHeader 16 ⟨flagControl, 0, 0, 0, 0⟩ = .ok [2, 0, 0, 0, 0, 0, 0, 0] := by
    decide
  refine ⟨[2, 0, 0, 0, 0, 0, 0, 0] ++ ct :: rest, ⟨flagControl, 0, 0, 0, 0⟩, ?_, ?_⟩
  · rw [buildHandshakePacket_eq hroom, hmarshal]
    rfl
  · rw [parseControlPacket, unmarshalHeader_marshalHeader (ct :: rest) hheader]
    rfl

/-- `Connect` and the two answers have buffers that are large enough. -/
theorem buildConnectPacket_parse (cp : ConnectPacket) :
    ∃ bytes hdr, buildConnectPacket 128 cp = .ok bytes ∧
      parseControlPacket bytes = .ok (hdr, ControlType.connect.toByte, connectBytes cp) := by
  apply buildHandshakePacket_parse (by decide)
  rw [marshalConnect, if_neg]
  · rfl
  · split <;> decide

theorem buildChallengePacket_parse (cp : ChallengePacket) :
    ∃ bytes hdr, buildChallengePacket 128 cp = .ok bytes ∧
      parseControlPacket bytes = .ok (hdr, ControlType.challenge.toByte, challengeBytes cp) := by
  apply buildHandshakePacket_parse (by decide)
  rw [marshalChallenge, if_neg]
  · rfl
  · split <;> decide

theorem buildResponsePacket_parse (token : ByteArray32) :
    ∃ bytes hdr, buildResponsePacket 64 token = .ok bytes ∧
      parseControlPacket bytes = .ok (hdr, ControlType.response.toByte,
        ControlType.response.toByte :: token.toList) :=
  buildHandshakePacket_parse (by decide) (if_neg (by decide))

/-- Reading behind an array is reading what follows it. -/
theorem drop_toList_append {k : ℕ} (v : Vector UInt8 k) (rest : Bytes) {i : ℕ} (hi : k ≤ i) :
    (v.toList ++ rest).drop i = rest.drop (i - k) := by
  rw [List.drop_append, Vector.length_toList, List.drop_eq_nil_of_le (by simpa using hi),
    List.nil_append]

theorem getElem?_toList_append {k : ℕ} (v : Vector UInt8 k) (rest : Bytes) {i : ℕ} (hi : k ≤ i) :
    (v.toList ++ rest)[i]? = rest[i - k]? := by
  rw [List.getElem?_append_right (by simpa using hi), Vector.length_toList]

/-- The bytes `marshalConnect` asks for are those it writes. -/
theorem connectBytes_length (cp : ConnectPacket) :
    (connectBytes cp).length =
      if cp.dictHash = none then connectMinSize else connectWithDictSize := by
  cases hdict : cp.dictHash <;>
    simp [connectBytes, hdict, dictHashBytes, putUint16, connectMinSize, connectWithDictSize]

theorem unmarshalConnect_append (cp : ConnectPacket) (rest : Bytes) :
    unmarshalConnect (connectBytes cp ++ rest) = .ok cp := by
  have hlen := connectBytes_length cp
  have hmin : ¬(connectBytes cp ++ rest).length < connectMinSize := by
    rw [List.length_append, hlen]
    split <;> simp [connectWithDictSize, Nat.add_assoc]
  rw [unmarshalConnect, if_neg hmin]
  obtain ⟨protocolVersion, appVersion, publicKey, cipherPref, compression, dictHash, features⟩ := cp
  cases dictHash with
  | none =>
      simp [connectBytes, dictHashBytes, putUint16, readUint16_putUint16, readArray_append,
        getElem?_toList_append]
  | some hash =>
      have hdict : ¬(connectBytes ⟨protocolVersion, appVersion, publicKey, cipherPref, compression,
          some hash, features⟩ ++ rest).length < connectWithDictSize := by
        rw [List.length_append, hlen]
        simp
      simp only [if_neg hdict]
      simp [connectBytes, dictHashBytes, putUint16, readUint16_putUint16, readArray_append,
        drop_toList_append, getElem?_toList_append]

theorem unmarshalConnect_connectBytes (cp : ConnectPacket) :
    unmarshalConnect (connectBytes cp) = .ok cp := by
  simpa using unmarshalConnect_append cp []

/-- The bytes `marshalChallenge` asks for are those it writes. -/
theorem challengeBytes_length (cp : ChallengePacket) :
    (challengeBytes cp).length =
      if migrates cp.features then challengeWithMigration else challengeMinSize := by
  cases hfeature : migrates cp.features <;>
    simp [challengeBytes, hfeature, putUint16, challengeMinSize, challengeWithMigration]

/-- The migration token survives only if the feature bit announces it. -/
theorem unmarshalChallenge_append (cp : ChallengePacket) (rest : Bytes) :
    unmarshalChallenge (challengeBytes cp ++ rest) =
      .ok (if migrates cp.features then cp
        else { cp with migrationToken := Vector.replicate 8 0 }) := by
  have hlen := challengeBytes_length cp
  have hmin : ¬(challengeBytes cp ++ rest).length < challengeMinSize := by
    rw [List.length_append, hlen]
    split <;> simp [challengeWithMigration, Nat.add_assoc]
  rw [unmarshalChallenge, if_neg hmin]
  obtain ⟨protocolVersion, appVersion, publicKey, challengeToken, selectedCipher, compressionAck,
    features, migrationToken⟩ := cp
  cases hfeature : migrates features with
  | false =>
      simp [challengeBytes, hfeature, putUint16, readUint16_putUint16, readArray_append,
        getElem?_toList_append]
  | true =>
      have hmigration : ¬(challengeBytes ⟨protocolVersion, appVersion, publicKey, challengeToken,
          selectedCipher, compressionAck, features, migrationToken⟩ ++ rest).length <
            challengeWithMigration := by
        rw [List.length_append, hlen]
        simp [hfeature]
      simp only [if_neg hmigration]
      simp [challengeBytes, hfeature, putUint16, readUint16_putUint16, readArray_append,
        getElem?_toList_append, drop_toList_append]

theorem unmarshalChallenge_challengeBytes (cp : ChallengePacket) :
    unmarshalChallenge (challengeBytes cp) =
      .ok (if migrates cp.features then cp
        else { cp with migrationToken := Vector.replicate 8 0 }) := by
  simpa using unmarshalChallenge_append cp []

theorem unmarshalResponse_append (token : ByteArray32) (rest : Bytes) :
    unmarshalResponse (ControlType.response.toByte :: token.toList ++ rest) = .ok token := by
  simp [unmarshalResponse, responseSize, readArray_append]

theorem unmarshalResponse_marshalResponse (token : ByteArray32) :
    unmarshalResponse (ControlType.response.toByte :: token.toList) = .ok token := by
  simpa using unmarshalResponse_append token []

/-- A buffer of the size that is asked for takes the value, and the value is read back,
whatever follows it. -/
def RoundTrips {α : Type} (needed : ℕ) (marshal : ℕ → Except Err Bytes)
    (unmarshal : Bytes → Except Err α) (value : α) : Prop :=
  ∀ room, needed ≤ room → ∀ rest,
    ∃ bs, marshal room = .ok bs ∧ unmarshal (bs ++ rest) = .ok value

/-- **The control payloads.** Each decodes to what was encoded. The type byte of a
multi-ack payload is read by the caller of `unmarshalMultiAck`. -/
theorem control_payload_codecs :
    (∀ cp : ConnectPacket,
      RoundTrips (if cp.dictHash = none then connectMinSize else connectWithDictSize)
        (marshalConnect · cp) unmarshalConnect cp) ∧
    (∀ cp : ChallengePacket,
      (migrates cp.features = false → cp.migrationToken = Vector.replicate 8 0) →
      RoundTrips (if migrates cp.features then challengeWithMigration else challengeMinSize)
        (marshalChallenge · cp) unmarshalChallenge cp) ∧
    (∀ token : ByteArray32,
      RoundTrips responseSize (marshalResponse · token) unmarshalResponse token) ∧
    (∀ (protoVersion : UInt8) (appVersion : UInt16),
      RoundTrips versionMismatchSize (marshalVersionMismatch · protoVersion appVersion)
        unmarshalVersionMismatch (protoVersion, appVersion)) ∧
    (∀ reason : RejectReason,
      RoundTrips rejectSize (marshalReject · reason) unmarshalReject reason) ∧
    ∀ entries : List MultiAckEntry, entries.length ≤ 255 →
      ∀ room, 2 + 10 * entries.length ≤ room → ∀ rest,
        ∃ tail, marshalMultiAck room entries = .ok (ControlType.multiAck.toByte :: tail) ∧
          unmarshalMultiAck (tail ++ rest) = .ok (entries, tail.length) := by
  refine ⟨?connect, ?challenge, ?response, ?versionMismatch, ?reject, ?multiAck⟩
  case connect =>
    intro cp room hroom rest
    exact ⟨_, if_neg (Nat.not_lt.mpr hroom), unmarshalConnect_append cp rest⟩
  case challenge =>
    intro cp htoken room hroom rest
    refine ⟨_, if_neg (Nat.not_lt.mpr hroom), ?_⟩
    rw [unmarshalChallenge_append]
    cases hfeature : migrates cp.features with
    | false => simp [← htoken hfeature]
    | true => simp
  case response =>
    intro token room hroom rest
    exact ⟨_, if_neg (Nat.not_lt.mpr hroom), unmarshalResponse_append token rest⟩
  case versionMismatch =>
    intro protoVersion appVersion room hroom rest
    refine ⟨_, if_neg (Nat.not_lt.mpr hroom), ?_⟩
    simp [unmarshalVersionMismatch, versionMismatchSize, putUint16, readUint16_putUint16]
  case reject =>
    intro reason room hroom rest
    refine ⟨_, if_neg (Nat.not_lt.mpr hroom), ?_⟩
    simp [unmarshalReject, rejectSize]
  case multiAck =>
    intro entries hcount room hroom rest
    obtain ⟨body, hbody⟩ :=
      @marshalMultiAckEntries_ok (room - 2) entries (by omega)
    have hok : marshalMultiAck room entries =
        .ok ([ControlType.multiAck.toByte, UInt8.ofNat entries.length] ++ body) := by
      rw [marshalMultiAck, if_neg (by omega), hbody]
      rfl
    obtain ⟨tail, htail, hread⟩ := unmarshalMultiAck_marshalMultiAck rest hcount hok
    exact ⟨tail, htail ▸ hok, hread⟩

theorem control_payload_codecs_examples :
    (∃ bs, marshalReject 2 .banned = .ok bs ∧ unmarshalReject (bs ++ [9]) = .ok .banned) ∧
      ∃ tail, marshalMultiAck 22 [⟨0, 42, 5⟩, ⟨3, 300, 0⟩] =
          .ok (ControlType.multiAck.toByte :: tail) ∧
        unmarshalMultiAck (tail ++ [9]) = .ok ([⟨0, 42, 5⟩, ⟨3, 300, 0⟩], tail.length) := by
  obtain ⟨-, -, -, -, hreject, hmultiAck⟩ := control_payload_codecs
  exact ⟨hreject .banned 2 (by decide) [9], hmultiAck _ (by decide) 22 (by decide) [9]⟩

end Fastwire
