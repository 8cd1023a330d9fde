/-
# The key exchange

The three steps of the handshake that do cryptography: the server answers a
CONNECT with a challenge, the client answers the challenge with an encrypted
RESPONSE, the server checks the response and creates the connection.

Key agreement, key derivation, the ciphers and the hash are parameters. What
the library draws at random is an argument.
-/

import Fastwire.Handshake.Packets

namespace Fastwire

open Crypto

def protocolVersion : UInt8 := 1

structure Primitives where
  Private : Type
  publicKey : Private → ByteArray32
  /-- X25519: no result if the shared secret would be zero. -/
  ecdh : Private → ByteArray32 → Option Bytes
  /-- `hkdf.Extract` of a secret and a salt. -/
  extract : Bytes → Bytes → Bytes
  /-- The first bytes of `hkdf.Expand` of a key and an info string. -/
  expand : Bytes → Bytes → ℕ → Bytes
  /-- No result for a key of the wrong size. -/
  newAES128GCM : Bytes → Option Aead
  newChaCha20Poly1305 : Bytes → Option Aead
  /-- SHA-256. -/
  sha256 : Bytes → ByteArray32

namespace Primitives

def keySizeForSuite (suite : CipherSuite) : ℕ :=
  if suite = .chaCha20Poly1305 then 32 else 16

/-- What is assumed of the library: the key agreement commutes and works between
honest keys, derived keys have the length the suite asks for, and keys of the right
length give a cipher. -/
structure Lawful (P : Primitives) : Prop where
  ecdh_comm : ∀ a b, P.ecdh a (P.publicKey b) = P.ecdh b (P.publicKey a)
  ecdh_isSome : ∀ a b, (P.ecdh a (P.publicKey b)).isSome
  expand_length : ∀ prk info suite,
    (P.expand prk info (keySizeForSuite suite)).length = keySizeForSuite suite
  newAES128GCM_isSome : ∀ key, key.length = 16 → (P.newAES128GCM key).isSome
  newChaCha20Poly1305_isSome : ∀ key, key.length = 32 → (P.newChaCha20Poly1305 key).isSome

variable (P : Primitives)

/-! ## Keys -/

/-- The info string of the key for the direction client to server. -/
def c2sInfo : Bytes := [0x63, 0x32, 0x73]

/-- The info string of the key for the direction server to client. -/
def s2cInfo : Bytes := [0x73, 0x32, 0x63]

/-- `DeriveKeys`: the keys of the two directions. -/
def deriveKeys (myPrivate : P.Private) (theirPublic challengeToken : ByteArray32)
    (suite : CipherSuite) : Except Err (Bytes × Bytes) :=
  match P.ecdh myPrivate theirPublic with
  | none => .error .crypto
  | some shared =>
      let prk := P.extract shared challengeToken.toList
      let keySize := keySizeForSuite suite
      .ok (P.expand prk c2sInfo keySize, P.expand prk s2cInfo keySize)

/-- `newAEAD`: there is no cipher in the suite without encryption. -/
def newAEAD (key : Bytes) (suite : CipherSuite) : Except Err (Option Aead) :=
  let check : Option Aead → Except Err (Option Aead)
    | none => .error .crypto
    | some aead => .ok (some aead)
  if suite = .none then .ok none
  else if suite = .aes128GCM then check (P.newAES128GCM key)
  else if suite = .chaCha20Poly1305 then check (P.newChaCha20Poly1305 key)
  else .error .decryptionFailed

def newCipherState (key : Bytes) (suite : CipherSuite) : Except Err CipherState :=
  (P.newAEAD key suite).map CipherState.init

end Primitives

/-! ## The server's answer to CONNECT -/

def CompressionAlgorithm.toByte : CompressionAlgorithm → UInt8
  | none => 0
  | lz4 => 1
  | zstd => 2

def CompressionConfig.unset : CompressionConfig := ⟨.none, 0, none⟩

structure PendingHandshake where
  challengeToken : ByteArray32
  c2sKey : Bytes
  s2cKey : Bytes
  suite : CipherSuite
  compression : CompressionAck
  compressionConfig : CompressionConfig
  layout : List (DeliveryMode × UInt8)
  cc : Congestion
  settings : ConnSettings
  features : UInt8
  migrationToken : MigrationToken
  createdAt : ℤ

def PendingHandshake.isExpired (ph : PendingHandshake) (now timeout : ℤ) : Bool :=
  now - ph.createdAt ≥ timeout

/-- The part of the server's configuration a handshake reads. -/
structure HandshakeConfig where
  /-- `ApplicationVersion`. -/
  appVersion : UInt16
  compression : CompressionConfig
  layout : List (DeliveryMode × UInt8)
  cc : Congestion
  settings : ConnSettings
  serverFeatures : UInt8

/-- What the server draws for a handshake. -/
structure HandshakeRandom (P : Primitives) where
  serverKey : P.Private
  challengeToken : ByteArray32
  migrationToken : MigrationToken

/-- An error of `serverProcessConnect`, and the packet that answers it. -/
structure ConnectFailure where
  error : Err
  reply : Option Bytes
  deriving DecidableEq, Repr

section

variable (P : Primitives)

/-- The compression acknowledgement and the configuration the server will use.
The dictionaries are only compared if the client sent a hash. -/
def negotiateCompression (connect : ConnectPacket) (server : CompressionConfig) :
    CompressionAck × CompressionConfig :=
  if connect.compression = CompressionAlgorithm.none.toByte then (.ok, .unset)
  else if server.algorithm.toByte ≠ connect.compression then (.dictMismatch, .unset)
  else if connect.compression = CompressionAlgorithm.zstd.toByte ∧
      connect.dictHash.any (· ≠ P.sha256 (server.dictionary.getD [])) then (.dictMismatch, .unset)
  else (.ok, server)

/-- The migration token of a handshake: drawn only if the feature is negotiated,
zero otherwise. -/
def drawToken (features : UInt8) (token : MigrationToken) : MigrationToken :=
  if migrates features then token else Vector.replicate 8 0

def challengeFor (config : HandshakeConfig) (random : HandshakeRandom P)
    (connect : ConnectPacket) : ChallengePacket :=
  let features := connect.features &&& config.serverFeatures
  { protocolVersion := protocolVersion
    appVersion := config.appVersion
    publicKey := P.publicKey random.serverKey
    challengeToken := random.challengeToken
    selectedCipher := connect.cipherPref
    compressionAck := (negotiateCompression P connect config.compression).1.toByte
    features := features
    migrationToken := drawToken features random.migrationToken }

def pendingFor (config : HandshakeConfig) (random : HandshakeRandom P) (connect : ConnectPacket)
    (c2sKey s2cKey : Bytes) (now : ℤ) : PendingHandshake :=
  let (compression, compressionConfig) := negotiateCompression P connect config.compression
  let features := connect.features &&& config.serverFeatures
  { challengeToken := random.challengeToken
    c2sKey := c2sKey
    s2cKey := s2cKey
    suite := connect.cipherPref
    compression := compression
    compressionConfig := compressionConfig
    layout := config.layout
    cc := config.cc
    settings := config.settings
    features := features
    migrationToken := drawToken features random.migrationToken
    createdAt := now }

def answerConnect (config : HandshakeConfig) (random : HandshakeRandom P) (now : ℤ)
    (connect : ConnectPacket) : Except ConnectFailure (PendingHandshake × Bytes) :=
  if connect.protocolVersion ≠ protocolVersion then
    match buildVersionMismatchPacket 64 protocolVersion config.appVersion with
    | .error e => .error ⟨e, none⟩
    | .ok reply => .error ⟨.versionMismatch, some reply⟩
  else
    match P.deriveKeys random.serverKey connect.publicKey random.challengeToken
        connect.cipherPref with
    | .error e => .error ⟨e, none⟩
    | .ok (c2sKey, s2cKey) =>
        match buildChallengePacket 128 (challengeFor P config random connect) with
        | .error e => .error ⟨e, none⟩
        | .ok challenge => .ok (pendingFor P config random connect c2sKey s2cKey now, challenge)

def serverProcessConnect (config : HandshakeConfig) (random : HandshakeRandom P) (now : ℤ)
    (data : Bytes) : Except ConnectFailure (PendingHandshake × Bytes) :=
  match parseControlPacket data with
  | .error e => .error ⟨e, none⟩
  | .ok (_, ct, ctrlPayload) =>
      if ct ≠ ControlType.connect.toByte then .error ⟨.invalidHandshake, none⟩
      else
        match unmarshalConnect ctrlPayload with
        | .error e => .error ⟨e, none⟩
        | .ok connect => answerConnect P config random now connect

/-! ## The client's answer to the challenge -/

/-- The answer to a challenge that has been parsed: the cipher states of the two
directions, the suite and the encrypted RESPONSE. -/
def answerChallenge (clientKey : P.Private) (challenge : ChallengePacket) :
    Except Err (CipherState × CipherState × CipherSuite × Bytes) :=
  if challenge.protocolVersion ≠ protocolVersion then .error .versionMismatch
  else do
    let (c2sKey, s2cKey) ← P.deriveKeys clientKey challenge.publicKey challenge.challengeToken
      challenge.selectedCipher
    let sendCipher ← P.newCipherState c2sKey challenge.selectedCipher
    let recvCipher ← P.newCipherState s2cKey challenge.selectedCipher
    let response ← buildResponsePacket 64 challenge.challengeToken
    let (sendCipher, encrypted) := sendCipher.encrypt response
    return (sendCipher, recvCipher, challenge.selectedCipher, encrypted)

def clientProcessChallenge (data : Bytes) (clientKey : P.Private) :
    Except Err (CipherState × CipherState × CipherSuite × Bytes) :=
  match parseControlPacket data with
  | .error e => .error e
  | .ok (_, ct, ctrlPayload) =>
      if ct ≠ ControlType.challenge.toByte then .error .invalidHandshake
      else
        match unmarshalChallenge ctrlPayload with
        | .error e => .error e
        | .ok challenge => answerChallenge P clientKey challenge

/-- The part of the client's configuration a handshake reads. -/
structure ClientConfig where
  appVersion : UInt16
  cipherPreference : CipherSuite
  compression : CompressionConfig
  layout : List (DeliveryMode × UInt8)
  cc : Congestion
  settings : ConnSettings
  clientFeatures : UInt8

namespace ClientConfig

variable (config : ClientConfig)

/-- The CONNECT of `Client.Connect`. The hash of the dictionary is announced for
zstd only. -/
def connectPacket (clientKey : P.Private) : ConnectPacket where
  protocolVersion := protocolVersion
  appVersion := config.appVersion
  publicKey := P.publicKey clientKey
  cipherPref := config.cipherPreference
  compression := config.compression.algorithm.toByte
  dictHash :=
    if config.compression.algorithm = .zstd then config.compression.dictionary.map P.sha256
    else none
  features := config.clientFeatures

/-- The connection of `handleChallenge`. Compression is taken from the client's
own configuration, whatever the server acknowledged. -/
def connection (codecs : Codecs) (addr : AddrPort) (now : ℤ) (challenge : ChallengePacket)
    (sendCipher recvCipher : CipherState) : Connection :=
  newConnection
    { addr := addr
      sendCipher := sendCipher
      recvCipher := recvCipher
      layout := config.layout
      compress := .ofConfig config.compression codecs
      cc := config.cc
      features := challenge.features
      token := challenge.migrationToken.toList
      settings := config.settings } now

end ClientConfig

def parseChallenge (data : Bytes) : Except Err ChallengePacket :=
  match parseControlPacket data with
  | .error e => .error e
  | .ok (_, _, ctrlPayload) => unmarshalChallenge ctrlPayload

/-! ## The server's check of the response -/

def PendingHandshake.connection (pending : PendingHandshake) (codecs : Codecs) (addr : AddrPort)
    (now : ℤ) (sendCipher recvCipher : CipherState) : Connection :=
  newConnection
    { addr := addr
      sendCipher := sendCipher
      recvCipher := recvCipher
      layout := pending.layout
      compress := .ofConfig pending.compressionConfig codecs
      cc := pending.cc
      features := pending.features
      token := pending.migrationToken.toList
      settings := pending.settings } now

def parseResponse (decrypted : Bytes) : Except Err ByteArray32 :=
  match parseControlPacket decrypted with
  | .error _ => .error .invalidHandshake
  | .ok (_, ct, ctrlPayload) =>
      if ct ≠ ControlType.response.toByte then .error .invalidHandshake
      else unmarshalResponse ctrlPayload

def serverProcessResponse (codecs : Codecs) (encryptedData : Bytes) (pending : PendingHandshake)
    (addr : AddrPort) (now : ℤ) : Except Err Connection :=
  match P.newCipherState pending.c2sKey pending.suite with
  | .error e => .error e
  | .ok recvCipher =>
      match recvCipher.decrypt encryptedData with
      | .error _ => .error .decryptionFailed
      | .ok (decrypted, recvCipher) =>
          match parseResponse decrypted with
          | .error e => .error e
          | .ok token =>
              if token ≠ pending.challengeToken then .error .invalidHandshake
              else
                match P.newCipherState pending.s2cKey pending.suite with
                | .error e => .error e
                | .ok sendCipher =>
                    .ok (pending.connection codecs addr now sendCipher recvCipher)

end

/-- What a server must have received to create a connection, and which
connection it is. -/
theorem serverProcessResponse_ok_inv {P : Primitives} {codecs : Codecs} {encryptedData : Bytes}
    {pending : PendingHandshake} {addr : AddrPort} {now : ℤ} {conn : Connection}
    (hok : serverProcessResponse P codecs encryptedData pending addr now = .ok conn) :
    ∃ fresh decrypted recvCipher sendCipher,
      P.newCipherState pending.c2sKey pending.suite = .ok fresh ∧
      fresh.decrypt encryptedData = .ok (decrypted, recvCipher) ∧
      parseResponse decrypted = .ok pending.challengeToken ∧
      P.newCipherState pending.s2cKey pending.suite = .ok sendCipher ∧
      conn = pending.connection codecs addr now sendCipher recvCipher := by
  rw [serverProcessResponse] at hok
  split at hok
  · cases hok
  rename_i fresh hfresh
  split at hok
  · cases hok
  rename_i decrypted recvCipher hdecrypt
  split at hok
  · cases hok
  rename_i token hparse
  split at hok
  · cases hok
  rename_i htoken
  rw [Decidable.not_not.mp htoken] at hparse
  split at hok
  · cases hok
  rename_i sendCipher hsend
  cases hok
  exact ⟨fresh, decrypted, recvCipher, sendCipher, hfresh, hdecrypt, hparse, hsend, rfl⟩

end Fastwire
