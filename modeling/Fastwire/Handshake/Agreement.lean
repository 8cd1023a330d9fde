/-
# Agreement

Two honest parties whose three packets arrive unchanged end up with matching
connections: each direction has one key, the suite, the features and the
migration token are the same on both sides, and what one side seals in order the
other side opens. A server creates a connection for nothing else than a response
sealed under the key of its pending handshake that carries its token.

The order argument is about one direction: the receiver's largest nonce is the
sender's counter. It ends when the 64-bit counter wraps, because nonce zero is
never accepted.
-/

import Fastwire.Handshake.Exchange

namespace Fastwire

namespace Crypto

namespace ReplayWindow

variable {r : ReplayWindow} {nonce : ℕ}

theorem check_of_maxNonce_lt (h : r.maxNonce < nonce) : r.check nonce = true := by
  grind [check]

theorem maxNonce_update_of_lt (h : r.maxNonce < nonce) : (r.update nonce).maxNonce = nonce := by
  grind [update]

theorem check_zero : r.check 0 = false := by
  simp [check]

end ReplayWindow

namespace CipherState

def encryptAll : CipherState → List Bytes → CipherState × List Bytes
  | tx, [] => (tx, [])
  | tx, plaintext :: plaintexts =>
      let (tx, packet) := tx.encrypt plaintext
      let (tx, packets) := encryptAll tx plaintexts
      (tx, packet :: packets)

/-- Open packets one after another; the first error ends it. -/
def openAll : CipherState → List Bytes → Except Err (List Bytes × CipherState)
  | rx, [] => .ok ([], rx)
  | rx, packet :: packets =>
      match rx.decrypt packet with
      | .error e => .error e
      | .ok (plaintext, rx) => (openAll rx packets).map fun (ps, rx) => (plaintext :: ps, rx)

/-- The two ends of one direction: the same cipher, and everything sent has
arrived. -/
structure InStep (tx rx : CipherState) : Prop where
  aead_eq : tx.aead = rx.aead
  maxNonce_eq : rx.replay.maxNonce = tx.nonce

theorem inStep_init (aead : Option Aead) : InStep (init aead) (init aead) := ⟨rfl, rfl⟩

variable {tx rx : CipherState}

theorem encrypt_nonce_le (tx : CipherState) (plaintext : Bytes) :
    (tx.encrypt plaintext).1.nonce ≤ tx.nonce + 1 := by
  rw [encrypt]
  split
  · exact Nat.le_succ _
  · exact Nat.mod_le _ _

/-- The next packet is opened, and the ends are in step again. -/
theorem InStep.next (h : InStep tx rx) (hbound : tx.nonce + 1 < 2 ^ 64) (plaintext : Bytes) :
    ∃ rx', rx.decrypt (tx.encrypt plaintext).2 = .ok (plaintext, rx') ∧
      InStep (tx.encrypt plaintext).1 rx' := by
  cases htx : tx.aead with
  | none =>
      have hrx : rx.aead = none := h.aead_eq ▸ htx
      refine ⟨rx, ?_, ?_, ?_⟩
      · simp [decrypt, encrypt, htx, hrx]
      · simp [encrypt, htx, hrx]
      · simp [encrypt, htx, h.maxNonce_eq]
  | some a =>
      have hrx : rx.aead = some a := h.aead_eq ▸ htx
      have hnonce : (tx.nonce + 1) % 2 ^ 64 = tx.nonce + 1 := Nat.mod_eq_of_lt hbound
      have hfresh : rx.replay.maxNonce < tx.nonce + 1 := by
        rw [h.maxNonce_eq]
        exact Nat.lt_succ_self _
      have hcheck := ReplayWindow.check_of_maxNonce_lt hfresh
      obtain ⟨rx', hrx'⟩ := decrypt_encrypt htx hrx plaintext (hnonce.symm ▸ hcheck)
      obtain ⟨-, -, hstate⟩ := (decrypt_eq_ok_iff hrx).mp hrx'
      have hwire := wireNonce_encrypt htx plaintext
      refine ⟨rx', hrx', ?_, ?_⟩
      · rw [encrypt_aead, hstate, htx, hrx]
      · rw [hstate, hwire, hnonce, ReplayWindow.maxNonce_update_of_lt hfresh]
        simp only [encrypt, htx, hnonce]

/-- A whole sequence of packets is opened in order. -/
theorem InStep.openAll_encryptAll (h : InStep tx rx) (plaintexts : List Bytes)
    (hbound : tx.nonce + plaintexts.length < 2 ^ 64) :
    ∃ rx', rx.openAll (tx.encryptAll plaintexts).2 = .ok (plaintexts, rx') ∧
      InStep (tx.encryptAll plaintexts).1 rx' := by
  induction plaintexts generalizing tx rx with
  | nil => exact ⟨rx, rfl, h⟩
  | cons plaintext plaintexts ih =>
      rw [List.length_cons] at hbound
      obtain ⟨rx₁, hopen, hstep⟩ := h.next (by omega) plaintext
      have hnonce := encrypt_nonce_le tx plaintext
      obtain ⟨rx₂, hrest, hend⟩ := ih hstep (by omega)
      refine ⟨rx₂, ?_, hend⟩
      simp only [encryptAll, openAll, hopen, hrest]
      rfl

/-- The packet that wraps the counter is refused. -/
theorem decrypt_wrapped {a : Aead} (htx : tx.aead = some a) (hrx : rx.aead = some a)
    (hwrap : tx.nonce + 1 = 2 ^ 64) (plaintext : Bytes) :
    rx.decrypt (tx.encrypt plaintext).2 = .error .replayedPacket := by
  have hnonce : wireNonce (tx.encrypt plaintext).2 = 0 := by
    rw [wireNonce_encrypt htx, hwrap, Nat.mod_self]
  have hlength : ¬ (tx.encrypt plaintext).2.length < nonceSize + tagSize := by
    simp only [encrypt, htx, List.length_append, putLE_length, a.sealBytes_length]
    omega
  simp only [decrypt, hrx, hnonce, ReplayWindow.check_zero]
  rw [if_neg hlength]
  rfl

/-- Every sequence long enough to wrap the counter is cut there. -/
theorem InStep.openAll_wrapped {a : Aead} (h : InStep tx rx) (htx : tx.aead = some a)
    {plaintexts : List Bytes} (hpos : tx.nonce < 2 ^ 64)
    (hwrap : tx.nonce + plaintexts.length = 2 ^ 64) :
    rx.openAll (tx.encryptAll plaintexts).2 = .error .replayedPacket := by
  induction plaintexts generalizing tx rx with
  | nil =>
      rw [List.length_nil] at hwrap
      omega
  | cons plaintext plaintexts ih =>
      rw [List.length_cons] at hwrap
      by_cases hlast : tx.nonce + 1 = 2 ^ 64
      · simp only [encryptAll, openAll, decrypt_wrapped htx (h.aead_eq ▸ htx) hlast]
      · obtain ⟨rx', hopen, hstep⟩ := h.next (by omega) plaintext
        have hnonce : (tx.encrypt plaintext).1.nonce = tx.nonce + 1 := by
          have hmod : (tx.nonce + 1) % 2 ^ 64 = tx.nonce + 1 := Nat.mod_eq_of_lt (by omega)
          simp only [encrypt, htx, hmod]
        have hrest := ih hstep (by rw [encrypt_aead, htx]) (by omega) (by omega)
        simp only [encryptAll, openAll, hopen, hrest]
        rfl

end CipherState

end Crypto

open Crypto

/-! ## The exchange -/

/-- The suites `newAEAD` knows. -/
def CipherSuite.Supported (suite : CipherSuite) : Prop :=
  suite = .none ∨ suite = .aes128GCM ∨ suite = .chaCha20Poly1305

/-- A handshake whose three packets arrive unchanged, with what every step
returns. -/
structure HonestExchange (P : Primitives) (codecs : Codecs) (config : HandshakeConfig)
    (random : HandshakeRandom P) (clientKey : P.Private) (connect : ConnectPacket)
    (addr : AddrPort) (now : ℤ) where
  connectData : Bytes
  pending : PendingHandshake
  challengeData : Bytes
  challenge : ChallengePacket
  sendCipher : CipherState
  recvCipher : CipherState
  suite : CipherSuite
  response : Bytes
  serverConn : Connection
  sent : buildConnectPacket 128 connect = .ok connectData
  challenged : serverProcessConnect P config random now connectData = .ok (pending, challengeData)
  answered : clientProcessChallenge P challengeData clientKey =
    .ok (sendCipher, recvCipher, suite, response)
  parsed : parseChallenge challengeData = .ok challenge
  accepted : serverProcessResponse P codecs response pending addr now = .ok serverConn

section

variable {P : Primitives} (hP : P.Lawful)

include hP

/-- Both sides derive the same keys. -/
theorem deriveKeys_comm (a b : P.Private) (token : ByteArray32) (suite : CipherSuite) :
    P.deriveKeys a (P.publicKey b) token suite = P.deriveKeys b (P.publicKey a) token suite := by
  simp only [Primitives.deriveKeys, hP.ecdh_comm a b]

/-- Honest parties always get keys, of the length the suite wants. -/
theorem deriveKeys_ok (a b : P.Private) (token : ByteArray32) (suite : CipherSuite) :
    ∃ c2sKey s2cKey, P.deriveKeys a (P.publicKey b) token suite = .ok (c2sKey, s2cKey) ∧
      c2sKey.length = Primitives.keySizeForSuite suite ∧
      s2cKey.length = Primitives.keySizeForSuite suite := by
  obtain ⟨shared, hshared⟩ := Option.isSome_iff_exists.mp (hP.ecdh_isSome a b)
  let prk := P.extract shared token.toList
  refine ⟨P.expand prk Primitives.c2sInfo _, P.expand prk Primitives.s2cInfo _, ?_,
    hP.expand_length _ _ _, hP.expand_length _ _ _⟩
  simp only [Primitives.deriveKeys, hshared, prk]

theorem newCipherState_ok {key : Bytes} {suite : CipherSuite} (hsuite : suite.Supported)
    (hkey : key.length = Primitives.keySizeForSuite suite) :
    ∃ aead, P.newCipherState key suite = .ok (.init aead) := by
  rcases hsuite with rfl | rfl | rfl
  · exact ⟨none, rfl⟩
  · obtain ⟨a, ha⟩ := Option.isSome_iff_exists.mp (hP.newAES128GCM_isSome key hkey)
    refine ⟨some a, ?_⟩
    rw [Primitives.newCipherState, Primitives.newAEAD, if_neg (by decide), if_pos rfl, ha]
    rfl
  · obtain ⟨a, ha⟩ := Option.isSome_iff_exists.mp (hP.newChaCha20Poly1305_isSome key hkey)
    refine ⟨some a, ?_⟩
    rw [Primitives.newCipherState, Primitives.newAEAD, if_neg (by decide), if_neg (by decide),
      if_pos rfl, ha]
    rfl

end

section

variable {P : Primitives} {config : HandshakeConfig} {random : HandshakeRandom P}
  {connect : ConnectPacket} {now : ℤ} {c2sKey s2cKey : Bytes}

/-- The challenge is read as it was written, token included. -/
theorem unmarshalChallenge_challengeFor :
    unmarshalChallenge (challengeBytes (challengeFor P config random connect)) =
      .ok (challengeFor P config random connect) := by
  rw [unmarshalChallenge_challengeBytes]
  split
  · rfl
  · rename_i hfeature
    have htoken : (challengeFor P config random connect).migrationToken = Vector.replicate 8 0 :=
      if_neg hfeature
    rw [← htoken]

/-- A CONNECT with the right version and a usable key is answered by a
challenge. -/
theorem serverProcessConnect_ok {connectData : Bytes}
    (hversion : connect.protocolVersion = protocolVersion)
    (hsent : buildConnectPacket 128 connect = .ok connectData)
    (hkeys : P.deriveKeys random.serverKey connect.publicKey random.challengeToken
      connect.cipherPref = .ok (c2sKey, s2cKey)) :
    ∃ challengeData hdr,
      serverProcessConnect P config random now connectData =
        .ok (pendingFor P config random connect c2sKey s2cKey now, challengeData) ∧
      parseControlPacket challengeData = .ok (hdr, ControlType.challenge.toByte,
        challengeBytes (challengeFor P config random connect)) := by
  obtain ⟨_, _, hsent', hparse⟩ := buildConnectPacket_parse connect
  cases hsent.symm.trans hsent'
  obtain ⟨challengeData, hdr, hbuild, hchallenge⟩ :=
    buildChallengePacket_parse (challengeFor P config random connect)
  refine ⟨challengeData, hdr, ?_, hchallenge⟩
  rw [serverProcessConnect, hparse]
  simp only [ne_eq, not_true_eq_false, ↓reduceIte, unmarshalConnect_connectBytes, answerConnect,
    hversion, hkeys, hbuild]

/-- The client answers the challenge with the token, sealed under the key of its
sending direction. -/
theorem clientProcessChallenge_ok {challengeData : Bytes} {hdr : PacketHeader}
    {clientKey : P.Private}
    {a b : Option Aead}
    (hparse : parseControlPacket challengeData = .ok (hdr, ControlType.challenge.toByte,
      challengeBytes (challengeFor P config random connect)))
    (hkeys : P.deriveKeys clientKey (P.publicKey random.serverKey) random.challengeToken
      connect.cipherPref = .ok (c2sKey, s2cKey))
    (hsend : P.newCipherState c2sKey connect.cipherPref = .ok (.init a))
    (hrecv : P.newCipherState s2cKey connect.cipherPref = .ok (.init b)) :
    ∃ plaintext,
      clientProcessChallenge P challengeData clientKey =
        .ok (((CipherState.init a).encrypt plaintext).1, .init b, connect.cipherPref,
          ((CipherState.init a).encrypt plaintext).2) ∧
      parseResponse plaintext = .ok random.challengeToken := by
  obtain ⟨plaintext, hdr', hbuild, hresponse⟩ := buildResponsePacket_parse random.challengeToken
  refine ⟨plaintext, ?_, ?_⟩
  · rw [clientProcessChallenge, hparse]
    simp only [ne_eq, not_true_eq_false, ↓reduceIte, unmarshalChallenge_challengeFor]
    simp only [answerChallenge, challengeFor, ne_eq, not_true_eq_false, ↓reduceIte, hkeys]
    simp only [bind, Except.bind, hsend, hrecv, hbuild]
    rfl
  · rw [parseResponse, hresponse]
    simp only [ne_eq, not_true_eq_false, ↓reduceIte]
    exact unmarshalResponse_marshalResponse random.challengeToken

end

/-- A suite with encryption has a cipher. -/
theorem newCipherState_aes {P : Primitives} {key : Bytes} {state : CipherState}
    (hok : P.newCipherState key .aes128GCM = .ok state) : ∃ a, state = .init (some a) := by
  rw [Primitives.newCipherState, Primitives.newAEAD, if_neg (by decide), if_pos rfl] at hok
  cases haead : P.newAES128GCM key with
  | none => simp [haead, Except.map] at hok
  | some a =>
      simp only [haead, Except.map, Except.ok.injEq] at hok
      exact ⟨a, hok.symm⟩

/-! ## Agreement -/

/-- The two ends of an exchange agree, and both directions are in step. The
client has sealed one packet, the response. -/
structure HonestExchange.Matches {P : Primitives} {codecs : Codecs} {config : HandshakeConfig}
    {random : HandshakeRandom P} {clientKey : P.Private} {connect : ConnectPacket}
    {addr : AddrPort} {now : ℤ}
    (x : HonestExchange P codecs config random clientKey connect addr now) : Prop where
  challenge_eq : x.challenge = challengeFor P config random connect
  suite_eq : x.suite = connect.cipherPref
  pending_suite_eq : x.pending.suite = connect.cipherPref
  keys_eq : P.deriveKeys clientKey x.challenge.publicKey x.challenge.challengeToken x.suite =
    .ok (x.pending.c2sKey, x.pending.s2cKey)
  features_eq : x.serverConn.features = connect.features &&& config.serverFeatures
  token_eq : x.serverConn.migrationToken = x.challenge.migrationToken.toList
  toServer : x.sendCipher.InStep x.serverConn.recvCipher
  toClient : x.serverConn.sendCipher.InStep x.recvCipher
  sendCipher_eq : ∃ aead plaintext, P.newCipherState x.pending.c2sKey x.suite = .ok (.init aead) ∧
    x.sendCipher = ((CipherState.init aead).encrypt plaintext).1
  serverConn_nonce_eq : x.serverConn.sendCipher.nonce = 0

/-- Honest parties complete the exchange. -/
theorem exists_matching_exchange {P : Primitives} (hP : P.Lawful) (codecs : Codecs)
    (config : HandshakeConfig) (random : HandshakeRandom P) (clientKey : P.Private)
    (connect : ConnectPacket) (addr : AddrPort) (now : ℤ)
    (hversion : connect.protocolVersion = protocolVersion)
    (hkey : connect.publicKey = P.publicKey clientKey) (hsuite : connect.cipherPref.Supported) :
    ∃ x : HonestExchange P codecs config random clientKey connect addr now, x.Matches := by
  obtain ⟨connectData, -, hsent, -⟩ := buildConnectPacket_parse connect
  obtain ⟨c2sKey, s2cKey, hserverKeys, hc2s, hs2c⟩ :=
    deriveKeys_ok hP random.serverKey clientKey random.challengeToken connect.cipherPref
  have hclientKeys := (deriveKeys_comm hP clientKey random.serverKey random.challengeToken
    connect.cipherPref).trans hserverKeys
  rw [← hkey] at hserverKeys
  obtain ⟨challengeData, hdr, hchallenged, hparse⟩ :
      ∃ challengeData hdr, serverProcessConnect P config random now connectData =
          .ok (pendingFor P config random connect c2sKey s2cKey now, challengeData) ∧
        parseControlPacket challengeData = .ok (hdr, ControlType.challenge.toByte,
          challengeBytes (challengeFor P config random connect)) :=
    serverProcessConnect_ok hversion hsent hserverKeys
  obtain ⟨a, ha⟩ := newCipherState_ok hP hsuite hc2s
  obtain ⟨b, hb⟩ := newCipherState_ok hP hsuite hs2c
  obtain ⟨plaintext, hanswered, hresponse⟩ := clientProcessChallenge_ok hparse hclientKeys ha hb
  -- the response is the first packet of the direction from client to server
  obtain ⟨recvCipher, hopen, hstep⟩ :=
    (CipherState.inStep_init a).next (show 0 + 1 < 2 ^ 64 by decide) plaintext
  have hparsed : parseChallenge challengeData = .ok (challengeFor P config random connect) := by
    rw [parseChallenge, hparse]
    exact unmarshalChallenge_challengeFor
  have haccepted : serverProcessResponse P codecs ((CipherState.init a).encrypt plaintext).2
      (pendingFor P config random connect c2sKey s2cKey now) addr now =
      .ok ((pendingFor P config random connect c2sKey s2cKey now).connection codecs addr now
        (.init b) recvCipher) := by
    simp only [serverProcessResponse, pendingFor, ha, hopen, hresponse, ne_eq, not_true_eq_false,
      ↓reduceIte, hb]
  refine ⟨⟨_, _, _, _, _, _, _, _, _, hsent, hchallenged, hanswered, hparsed, haccepted⟩, ?_⟩
  exact
    { challenge_eq := rfl
      suite_eq := rfl
      pending_suite_eq := rfl
      keys_eq := hclientKeys
      features_eq := rfl
      token_eq := rfl
      toServer := hstep
      toClient := CipherState.inStep_init b
      sendCipher_eq := ⟨a, plaintext, ha, rfl⟩
      serverConn_nonce_eq := rfl }

/-- The handshake of honest parties succeeds for every supported suite, every
dictionary hash and all feature bytes. The suite, the keys of the two directions,
the features and the migration token are the same on both sides, and either side
opens what the other seals in order, for as long as the 64-bit nonce lasts. And a
server creates a connection only for a response under its pending key with its
pending token. -/
theorem handshake_agreement (P : Primitives) (hP : P.Lawful) (codecs : Codecs)
    (config : HandshakeConfig) (random : HandshakeRandom P) (client : ClientConfig)
    (clientKey : P.Private) (connect : ConnectPacket) (clientAddr serverAddr : AddrPort) (now : ℤ)
    (hversion : connect.protocolVersion = protocolVersion)
    (hkey : connect.publicKey = P.publicKey clientKey) (hsuite : connect.cipherPref.Supported) :
    (∃ x : HonestExchange P codecs config random clientKey connect clientAddr now,
      let clientConn :=
        client.connection codecs serverAddr now x.challenge x.sendCipher x.recvCipher
      x.suite = connect.cipherPref ∧ x.pending.suite = connect.cipherPref ∧
      P.deriveKeys clientKey x.challenge.publicKey x.challenge.challengeToken x.suite =
        .ok (x.pending.c2sKey, x.pending.s2cKey) ∧
      clientConn.sendCipher.aead = x.serverConn.recvCipher.aead ∧
      clientConn.recvCipher.aead = x.serverConn.sendCipher.aead ∧
      clientConn.features = connect.features &&& config.serverFeatures ∧
      x.serverConn.features = connect.features &&& config.serverFeatures ∧
      clientConn.migrationToken = x.serverConn.migrationToken ∧
      ∀ packets : List Bytes, packets.length < 2 ^ 64 - 1 →
        (∃ rx, x.serverConn.recvCipher.openAll (clientConn.sendCipher.encryptAll packets).2 =
          .ok (packets, rx)) ∧
        ∃ rx, clientConn.recvCipher.openAll (x.serverConn.sendCipher.encryptAll packets).2 =
          .ok (packets, rx)) ∧
    ∀ (pending : PendingHandshake) (encryptedData : Bytes) (addr : AddrPort) (time : ℤ)
      (conn : Connection),
      serverProcessResponse P codecs encryptedData pending addr time = .ok conn →
      ∃ fresh decrypted recvCipher, P.newCipherState pending.c2sKey pending.suite = .ok fresh ∧
        fresh.decrypt encryptedData = .ok (decrypted, recvCipher) ∧
        parseResponse decrypted = .ok pending.challengeToken := by
  refine ⟨?_, ?_⟩
  swap
  · intro pending encryptedData addr time conn hok
    obtain ⟨fresh, decrypted, recvCipher, -, hfresh, hdecrypt, hparse, -, -⟩ :=
      serverProcessResponse_ok_inv hok
    exact ⟨fresh, decrypted, recvCipher, hfresh, hdecrypt, hparse⟩
  obtain ⟨x, hx⟩ := exists_matching_exchange hP codecs config random clientKey connect
    clientAddr now
    hversion hkey hsuite
  refine ⟨x, hx.suite_eq, hx.pending_suite_eq, hx.keys_eq, hx.toServer.aead_eq,
    hx.toClient.aead_eq.symm, congrArg ChallengePacket.features hx.challenge_eq, hx.features_eq,
    hx.token_eq.symm, ?_⟩
  intro packets hlength
  have hclient : x.sendCipher.nonce ≤ 1 := by
    obtain ⟨aead, plaintext, -, hcipher⟩ := hx.sendCipher_eq
    rw [hcipher]
    exact CipherState.encrypt_nonce_le _ plaintext
  have hserver := hx.serverConn_nonce_eq
  obtain ⟨rx, hopen, -⟩ := hx.toServer.openAll_encryptAll packets (by omega)
  obtain ⟨rx', hopen', -⟩ := hx.toClient.openAll_encryptAll packets (by omega)
  exact ⟨⟨rx, hopen⟩, rx', hopen'⟩

/-! ## A concrete library -/

def zeroTagAead : Aead where
  sealBytes _ plaintext := plaintext ++ List.replicate tagSize 0
  openBytes _ ciphertext :=
    if tagSize ≤ ciphertext.length ∧
        ciphertext.drop (ciphertext.length - tagSize) = List.replicate tagSize 0 then
      some (ciphertext.take (ciphertext.length - tagSize))
    else none
  sealBytes_length _ plaintext := by simp
  openBytes_sealBytes _ plaintext := by simp
  tagSize_le nonce ciphertext plaintext h := by
    by_contra hshort
    simp [hshort] at h

/-- A library that satisfies the laws and hides nothing. -/
def plainPrimitives : Primitives where
  Private := ByteArray32
  publicKey := id
  ecdh a b := some (Vector.zipWith (· + ·) a b).toList
  extract secret salt := secret ++ salt
  expand prk info n := (prk ++ info ++ List.replicate n 0).take n
  newAES128GCM key := if key.length = 16 then some zeroTagAead else none
  newChaCha20Poly1305 key := if key.length = 32 then some zeroTagAead else none
  sha256 := readArray 32

theorem plainPrimitives_lawful : plainPrimitives.Lawful where
  ecdh_comm := by
    intro (a : ByteArray32) (b : ByteArray32)
    have hcomm : Vector.zipWith (· + ·) a b = Vector.zipWith (· + ·) b a := by
      ext i hi
      simp [UInt8.add_comm]
    exact congrArg (fun v => some (Vector.toList v)) hcomm
  ecdh_isSome _ _ := rfl
  expand_length _ _ suite := by
    simp only [plainPrimitives, List.length_take, List.length_append, List.length_replicate]
    omega
  newAES128GCM_isSome _ h := by simp [plainPrimitives, h]
  newChaCha20Poly1305_isSome _ h := by simp [plainPrimitives, h]

def noCodecs : Codecs :=
  ⟨fun _ => none, fun _ _ => none, fun _ => none, fun _ src => src, fun _ _ _ => none⟩

def plainServer : HandshakeConfig :=
  ⟨0, .unset, [(.reliableOrdered, 0)], .aggressive 0, ⟨0, 0, 0, 0⟩, 3⟩

/-- A client with one channel that asks for AES, batching and migration. -/
def plainClient : ClientConfig :=
  ⟨0, .aes128GCM, .unset, [(.reliableOrdered, 0)], .aggressive 0, ⟨0, 0, 0, 0⟩, 3⟩

def plainRandom : HandshakeRandom plainPrimitives :=
  ⟨Vector.replicate 32 1, Vector.replicate 32 2, Vector.replicate 8 3⟩

def plainKey : plainPrimitives.Private := Vector.replicate 32 4

/-- The exchanges between the two. -/
abbrev PlainExchange : Type :=
  HonestExchange plainPrimitives noCodecs plainServer plainRandom plainKey
    (plainClient.connectPacket plainPrimitives plainKey) ⟨0, 1⟩ 0

theorem handshake_agreement_plain :
    ∃ x : PlainExchange, x.pending.suite = .aes128GCM ∧ x.serverConn.features = 3 ∧
      ∃ rx, x.serverConn.recvCipher.openAll (x.sendCipher.encryptAll [[7], [8]]).2 =
        .ok ([[7], [8]], rx) := by
  obtain ⟨⟨x, -, hsuite, -, -, -, -, hfeatures, -, hopen⟩, -⟩ :=
    handshake_agreement plainPrimitives plainPrimitives_lawful noCodecs plainServer plainRandom
      plainClient plainKey (plainClient.connectPacket plainPrimitives plainKey) ⟨0, 1⟩ ⟨0, 2⟩ 0
      rfl rfl
      (Or.inr (Or.inl rfl))
  exact ⟨x, hsuite, hfeatures, (hopen [[7], [8]] (by decide)).1⟩

/-- The nonce of the packet number 2^64 of the client is zero, and the server
refuses it. -/
theorem wrapped_nonce_refused :
    ∃ (x : PlainExchange) (packets : List Bytes), packets.length = 2 ^ 64 - 1 ∧
      x.serverConn.recvCipher.openAll (x.sendCipher.encryptAll packets).2 =
        .error .replayedPacket := by
  obtain ⟨x, hx⟩ : ∃ x : PlainExchange, x.Matches :=
    exists_matching_exchange plainPrimitives_lawful _ _ _ _ _ _ _ rfl rfl (Or.inr (Or.inl rfl))
  refine ⟨x, List.replicate (2 ^ 64 - 1) [], List.length_replicate, ?_⟩
  obtain ⟨aead, plaintext, hnew, hcipher⟩ := hx.sendCipher_eq
  rw [hx.suite_eq] at hnew
  obtain ⟨a, ha⟩ := newCipherState_aes hnew
  have hnonce : x.sendCipher.nonce = 1 := by
    rw [hcipher, ha]
    rfl
  have haead : x.sendCipher.aead = some a := by
    rw [hcipher, ha]
    rfl
  apply hx.toServer.openAll_wrapped haead
  · rw [hnonce]
    decide
  · rw [hnonce, List.length_replicate]
    decide

end Fastwire
