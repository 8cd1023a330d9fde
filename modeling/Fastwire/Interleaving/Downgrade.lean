/-
# What a challenge can change

The client announces a cipher suite and features in its CONNECT, and the server's
answer repeats the suite and the features both sides have. The client takes both from
the challenge. The challenge is not authenticated and not compared with what was asked
for, so that whoever answers first chooses: the suite without encryption, or a framing
the client has not asked for.

A connection is as the client asked for exactly if the two bytes of the challenge are.
-/

import Fastwire.Interleaving.Connect

namespace Fastwire

open Crypto Lib

/-! ## The bytes of a challenge -/

theorem unmarshalChallenge_fields {payload : Bytes} {challenge : ChallengePacket}
    (hparse : unmarshalChallenge payload = .ok challenge) :
    challenge.selectedCipher.code = payload.getD 68 0 ∧
      challenge.features = payload.getD 70 0 := by
  rw [unmarshalChallenge] at hparse
  split at hparse
  · cases hparse
  · split at hparse
    · cases hparse
    · dsimp only at hparse
      split at hparse
      · split at hparse
        · cases hparse
        · cases hparse
          exact ⟨rfl, rfl⟩
      · cases hparse
        exact ⟨rfl, rfl⟩

/-- Only the suite without encryption has no cipher. -/
theorem newCipherState_aead {P : Primitives} {key : Bytes} {suite : CipherSuite}
    {state : CipherState} (hok : P.newCipherState key suite = .ok state)
    (hsuite : suite ≠ .none) : state.aead.isSome = true := by
  rw [Primitives.newCipherState, Primitives.newAEAD, if_neg hsuite] at hok
  split at hok
  · cases haead : P.newAES128GCM key with
    | none =>
        rw [haead] at hok
        cases hok
    | some a =>
        rw [haead] at hok
        cases hok
        rfl
  · split at hok
    · cases haead : P.newChaCha20Poly1305 key with
      | none =>
          rw [haead] at hok
          cases hok
      | some a =>
          rw [haead] at hok
          cases hok
          rfl
    · cases hok

/-- What an answered challenge says about the suite and the ciphers. -/
theorem answerChallenge_inv {P : Primitives} {clientKey : P.Private} {challenge : ChallengePacket}
    {sendCipher recvCipher : CipherState} {suite : CipherSuite} {response : Bytes}
    (hok : answerChallenge P clientKey challenge = .ok (sendCipher, recvCipher, suite, response)) :
    suite = challenge.selectedCipher ∧
      (suite ≠ .none → sendCipher.aead.isSome = true ∧ recvCipher.aead.isSome = true) := by
  rw [answerChallenge] at hok
  split at hok
  · cases hok
  · simp only [bind, Except.bind] at hok
    split at hok
    · cases hok
    · split at hok
      · cases hok
      · rename_i hsend
        split at hok
        · cases hok
        · rename_i hrecv
          split at hok
          · cases hok
          · cases hok
            refine ⟨rfl, ?_⟩
            intro hsuite
            rw [CipherState.encrypt_aead]
            exact ⟨newCipherState_aead hsend hsuite, newCipherState_aead hrecv hsuite⟩

theorem clientProcessChallenge_inv {P : Primitives} {clientKey : P.Private} {data : Bytes}
    {sendCipher recvCipher : CipherState} {suite : CipherSuite} {response : Bytes}
    (hok : clientProcessChallenge P data clientKey =
      .ok (sendCipher, recvCipher, suite, response)) :
    ∃ hdr payload, parseControlPacket data = .ok (hdr, ControlType.challenge.toByte, payload) ∧
      suite.code = payload.getD 68 0 ∧
      (suite ≠ .none → sendCipher.aead.isSome = true ∧ recvCipher.aead.isSome = true) := by
  rw [clientProcessChallenge] at hok
  split at hok
  · cases hok
  · rename_i hdr ct payload hparse
    split at hok
    · cases hok
    · rename_i hct
      split at hok
      · cases hok
      · rename_i challenge hchallenge
        obtain ⟨rfl, haead⟩ := answerChallenge_inv hok
        refine ⟨hdr, payload, ?_, (unmarshalChallenge_fields hchallenge).1, haead⟩
        rw [hparse, not_ne_iff.mp hct]

namespace ClientConfig

/-- The challenge names the suite that the client announced and no feature that it did
not offer: bytes 68 and 70 of the payload. -/
def honours (config : ClientConfig) (data : Bytes) : Bool :=
  match parseControlPacket data with
  | .error _ => false
  | .ok (_, _, payload) =>
      payload.getD 68 0 = config.cipherPreference.code ∧
        payload.getD 70 0 &&& ~~~config.clientFeatures = 0

/-- The connection has no feature beyond those offered; it encrypts if the client asked
for encryption, and frames only if the client asked for batching. -/
structure Keeps (config : ClientConfig) (conn : Connection) : Prop where
  features : conn.features &&& ~~~config.clientFeatures = 0
  encrypts : config.cipherPreference ≠ .none →
    conn.sendCipher.aead.isSome = true ∧ conn.recvCipher.aead.isSome = true
  framing : config.clientFeatures &&& featureSendBatching = 0 → conn.batchEnabled = false

end ClientConfig

/-- A feature that is not offered is not among the features that are. -/
theorem and_eq_zero_of_subset {features offered flag : UInt8}
    (hsubset : features &&& ~~~offered = 0) (hflag : offered &&& flag = 0) :
    features &&& flag = 0 := by
  apply UInt8.eq_of_toBitVec_eq
  ext i hi
  have hleft := congrArg (fun x : UInt8 => x.toBitVec.getLsbD i) hsubset
  have hright := congrArg (fun x : UInt8 => x.toBitVec.getLsbD i) hflag
  simp only [UInt8.toBitVec_and, UInt8.toBitVec_not, BitVec.getLsbD_and, BitVec.getLsbD_not, hi,
    decide_true, Bool.true_and] at hleft hright
  rw [← BitVec.getLsbD_eq_getElem, UInt8.toBitVec_and, BitVec.getLsbD_and]
  cases hbit : offered.toBitVec.getLsbD i with
  | true =>
      rw [hbit, Bool.true_and] at hright
      rw [hright]
      simp
  | false =>
      rw [hbit, Bool.not_false, Bool.and_true] at hleft
      rw [hleft]
      simp

namespace Client.Attempt

variable {P : Primitives} {codecs : Codecs} {config : ClientConfig} {clientKP : P.Private}
  {serverAddr : AddrPort} {m m' : Attempt}

/-- Handling the datagram creates the connection, for which `clientProcessChallenge`
returned the suite. -/
def Creates (P : Primitives) (codecs : Codecs) (config : ClientConfig) (clientKP : P.Private)
    (serverAddr : AddrPort) (m : Attempt) (now : ℤ) (writeFailed : Bool) (data : Bytes)
    (suite : CipherSuite) (conn : Connection) : Prop :=
  (∃ sendCipher recvCipher response, clientProcessChallenge P data clientKP =
    .ok (sendCipher, recvCipher, suite, response)) ∧
  (m.handleChallenge P codecs config clientKP serverAddr now writeFailed data).heap =
    m.heap ++ [conn]

/-- Handling a challenge creates a connection from it, or none. -/
theorem handleChallenge_heap (P : Primitives) (codecs : Codecs) (config : ClientConfig)
    (clientKP : P.Private) (serverAddr : AddrPort) (m : Attempt) (now : ℤ) (writeFailed : Bool)
    (data : Bytes) :
    (m.handleChallenge P codecs config clientKP serverAddr now writeFailed data).heap = m.heap ∨
    ∃ sendCipher recvCipher suite response challenge,
      clientProcessChallenge P data clientKP = .ok (sendCipher, recvCipher, suite, response) ∧
      parseChallenge data = .ok challenge ∧
      (m.handleChallenge P codecs config clientKP serverAddr now writeFailed data).heap =
        m.heap ++ [config.connection codecs serverAddr now challenge sendCipher recvCipher] := by
  rw [handleChallenge]
  split
  · rename_i sendCipher recvCipher suite response challenge hok hparse
    split
    · exact .inl rfl
    · exact .inr ⟨sendCipher, recvCipher, suite, response, challenge, hok, hparse, rfl⟩
  · exact .inl rfl
  · exact .inl rfl

/-- The connection that a challenge creates has its suite and its features. -/
theorem Creates.spec {now : ℤ} {writeFailed : Bool} {data : Bytes} {suite : CipherSuite}
    {conn : Connection}
    (h : Creates P codecs config clientKP serverAddr m now writeFailed data suite conn) :
    ∃ hdr ct payload, parseControlPacket data = .ok (hdr, ct, payload) ∧
      suite.code = payload.getD 68 0 ∧ conn.features = payload.getD 70 0 ∧
      (suite ≠ .none → conn.sendCipher.aead.isSome = true ∧ conn.recvCipher.aead.isSome = true) ∧
      conn.batchEnabled = decide (conn.features &&& featureSendBatching ≠ 0) := by
  obtain ⟨⟨sendCipher, recvCipher, response, hok⟩, hheap⟩ := h
  have hcases := m.handleChallenge_heap P codecs config clientKP serverAddr now writeFailed data
  rw [hheap] at hcases
  rcases hcases with hsame | ⟨sendCipher', recvCipher', suite', response', challenge, hok', hparse,
    hnew⟩
  · simp at hsame
  · rw [hok, Except.ok.injEq, Prod.mk.injEq, Prod.mk.injEq] at hok'
    obtain ⟨rfl, rfl, -⟩ := hok'
    obtain rfl : conn = _ := by simpa using hnew
    obtain ⟨hdr, payload, hcontrol, hcode, haead⟩ := clientProcessChallenge_inv hok
    rw [parseChallenge, hcontrol] at hparse
    exact ⟨hdr, _, payload, hcontrol, hcode, (unmarshalChallenge_fields hparse).2, haead, rfl⟩

/-- The connection is as the client asked for exactly if the challenge is. -/
theorem Creates.keeps_iff {now : ℤ} {writeFailed : Bool} {data : Bytes} {suite : CipherSuite}
    {conn : Connection}
    (h : Creates P codecs config clientKP serverAddr m now writeFailed data suite conn) :
    suite = config.cipherPreference ∧ config.Keeps conn ↔ config.honours data = true := by
  obtain ⟨hdr, ct, payload, hparse, hcode, hfeatures, haead, hbatch⟩ := h.spec
  rw [ClientConfig.honours, hparse]
  dsimp only
  rw [decide_eq_true_eq, ← hcode, ← hfeatures]
  constructor
  · rintro ⟨rfl, hkeeps⟩
    exact ⟨rfl, hkeeps.features⟩
  · rintro ⟨hsuite, hsubset⟩
    have heq : suite = config.cipherPreference := congrArg CipherSuite.mk hsuite
    refine ⟨heq, hsubset, ?_, ?_⟩
    · rw [← heq]
      exact haead
    · intro hoffered
      rw [hbatch, and_eq_zero_of_subset hsubset hoffered]
      rfl

/-! ## Runs -/

/-- A challenge that the read loop handles is as the client asked for. -/
def honoured (config : ClientConfig) (m : Attempt) : Action → Bool
  | .read _ _ =>
      match m.reader with
      | .handling data => controlType data ≠ some .challenge ∨ config.honours data
      | _ => true
  | _ => true

/-- What a handshake packet does to the connections. -/
theorem processHandshakePacket_heap (now : ℤ) (writeFailed : Bool) (data : Bytes) :
    (m.processHandshakePacket P codecs config clientKP serverAddr now writeFailed data).heap =
      m.heap ∨
    controlType data = some .challenge ∧ ∃ suite conn,
      Creates P codecs config clientKP serverAddr m now writeFailed data suite conn ∧
      (m.processHandshakePacket P codecs config clientKP serverAddr now writeFailed data).heap =
        m.heap ++ [conn] := by
  rw [processHandshakePacket, controlType]
  split
  · exact .inl rfl
  · split
    · rename_i hct
      rcases m.handleChallenge_heap P codecs config clientKP serverAddr now writeFailed data with
        hsame | ⟨sendCipher, recvCipher, suite, response, challenge, hok, -, hnew⟩
      · exact .inl hsame
      · exact .inr ⟨hct, suite, _, ⟨⟨_, _, _, hok⟩, hnew⟩, hnew⟩
    · exact .inl rfl
    · exact .inl rfl
    · exact .inl rfl

theorem connect_heap (hconnect : m.connect = some m') : m'.heap = m.heap := by
  rw [connect] at hconnect
  split at hconnect
  · split at hconnect
    · cases hconnect
      rfl
    · cases hconnect
  · cases hconnect
    rfl
  · obtain ⟨i, -, rfl⟩ := Option.map_eq_some_iff.mp hconnect
    rfl
  · cases hconnect
    rfl
  · cases hconnect
    rfl
  · cases hconnect
    rfl
  · split at hconnect
    · cases hconnect
      rfl
    · cases hconnect
  · cases hconnect

/-- Only handling a challenge creates a connection. -/
theorem next_heap {a : Action}
    (hnext : m.next P codecs config clientKP serverAddr a = some m') :
    m'.heap = m.heap ∨ ∃ now writeFailed data suite conn, a = .read now writeFailed ∧
      m.reader = .handling data ∧ controlType data = some .challenge ∧
      Creates P codecs config clientKP serverAddr m now writeFailed data suite conn ∧
      m'.heap = m.heap ++ [conn] := by
  cases a with
  | receive data =>
      rw [next] at hnext
      split at hnext
      · split at hnext
        · cases hnext
        · cases hnext
          exact .inl rfl
      · cases hnext
  | read now writeFailed =>
      rw [next, readLoop] at hnext
      split at hnext
      · cases hnext
      · cases hnext
        exact .inl rfl
      · rename_i data hreader
        rw [← Option.some.inj hnext]
        rcases processHandshakePacket_heap now writeFailed data with
          hsame | ⟨hct, suite, conn, hcreates, hheap⟩
        · exact .inl hsame
        · exact .inr ⟨now, writeFailed, data, suite, conn, rfl, hreader, hct, hcreates, hheap⟩
      · cases hnext
        exact .inl rfl
      · split at hnext
        · cases hnext
          exact .inl rfl
        · cases hnext
          exact .inl rfl
      · cases hnext
        exact .inl rfl
  | timeout =>
      rw [next] at hnext
      split at hnext
      · cases hnext
        exact .inl rfl
      · cases hnext
  | connect => exact .inl (connect_heap hnext)

theorem keeps_of_run {hist : List (Attempt × Action)}
    (hrun : (system P codecs config clientKP serverAddr).Run hist m)
    (hguard : System.Guarded (fun m a => honoured config m a = true) hist) :
    ∀ conn ∈ m.heap, config.Keeps conn := by
  have hinit : ∀ m, (system P codecs config clientKP serverAddr).init m →
      ∀ conn ∈ m.heap, config.Keeps conn := by
    rintro m rfl conn hconn
    cases hconn
  have hstep : ∀ hist m a m', (system P codecs config clientKP serverAddr).Run hist m →
      (∀ conn ∈ m.heap, config.Keeps conn) → honoured config m a = true →
      (system P codecs config clientKP serverAddr).step m a m' →
      ∀ conn ∈ m'.heap, config.Keeps conn := by
    intro _ m a m' _ hkeeps hallowed htaken conn hconn
    rcases next_heap htaken with hsame | ⟨now, writeFailed, data, suite, conn', rfl, hreader, hct,
      hcreates, hheap⟩
    · rw [hsame] at hconn
      exact hkeeps conn hconn
    · rw [hheap] at hconn
      rcases List.mem_append.mp hconn with hold | hlast
      · exact hkeeps conn hold
      · have hhonours : config.honours data = true := by
          simpa [honoured, hreader, hct] using hallowed
        rw [List.mem_singleton.mp hlast]
        exact (hcreates.keeps_iff.mpr hhonours).2
  exact hrun.guarded_invariant hinit hstep hguard

/-- What the server answers to the client's CONNECT is as the client asked for. -/
theorem honours_challengeFor (config : ClientConfig) (clientKP : P.Private)
    (server : HandshakeConfig) (random : HandshakeRandom P) {data : Bytes}
    (hbuild : buildChallengePacket 128
      (challengeFor P server random (config.connectPacket P clientKP)) = .ok data) :
    config.honours data = true := by
  obtain ⟨data', hdr, hbuild', hparse⟩ :=
    buildChallengePacket_parse (challengeFor P server random (config.connectPacket P clientKP))
  rw [hbuild, Except.ok.injEq] at hbuild'
  have hparsed : unmarshalChallenge (challengeBytes
      (challengeFor P server random (config.connectPacket P clientKP))) = .ok _ :=
    unmarshalChallenge_challengeFor
  obtain ⟨hcode, hfeatures⟩ := unmarshalChallenge_fields hparsed
  rw [ClientConfig.honours, hbuild', hparse]
  dsimp only
  rw [← hcode, ← hfeatures, decide_eq_true_eq]
  refine ⟨rfl, ?_⟩
  show config.clientFeatures &&& server.serverFeatures &&& ~~~config.clientFeatures = 0
  rw [UInt8.and_comm config.clientFeatures, UInt8.and_assoc, UInt8.and_not_self, UInt8.and_zero]

/-- **What a challenge can change.** For every byte string that the client handles as a
challenge and that makes it create a connection: the suite is the one announced, the
features are among those offered, the connection encrypts if the client asked for
encryption and frames only if the client asked for batching, exactly if the bytes of
the challenge for suite and features say so. And in every run of a connection attempt in
which all challenges handled say so, this holds of every connection created. -/
theorem challenge_no_downgrade_iff (P : Primitives) (codecs : Codecs) (config : ClientConfig)
    (clientKP : P.Private) (serverAddr : AddrPort) :
    (∀ m now writeFailed data suite conn,
      Creates P codecs config clientKP serverAddr m now writeFailed data suite conn →
      (suite = config.cipherPreference ∧ config.Keeps conn ↔ config.honours data = true)) ∧
    ∀ hist m, (system P codecs config clientKP serverAddr).Run hist m →
      System.Guarded (fun m a => honoured config m a = true) hist →
      ∀ conn ∈ m.heap, config.Keeps conn := by
  constructor
  · intro m now writeFailed data suite conn hcreates
    exact hcreates.keeps_iff
  · intro hist m hrun hguard
    exact keeps_of_run hrun hguard

/-- The labels of an attempt that succeeds after one datagram. -/
def oneDatagram (data : Bytes) : List Action :=
  [.receive data, .read 0 false, .read 0 false, .read 0 false, .read 0 false, .connect, .connect,
    .connect, .connect, .connect]

/-- The handshake with the plain server. -/
theorem challenge_no_downgrade_plain :
    ∃ hist m, (system plainPrimitives noCodecs plainClient plainKey ⟨0, 1⟩).Run hist m ∧
      m.connected = true ∧ m.heap.length = 1 ∧ ∀ conn ∈ m.heap, plainClient.Keeps conn := by
  obtain ⟨hist, m, hrun, hguard, hconnected, hlength⟩ :=
    System.exists_history (S := system plainPrimitives noCodecs plainClient plainKey ⟨0, 1⟩)
      (fun m a m' h => h) (s := start) rfl (oneDatagram plainChallenge)
      (fun hist m => System.Guarded (fun m a => honoured plainClient m a = true) hist ∧
        m.connected = true ∧ m.heap.length = 1)
      (by decide +kernel)
  exact ⟨hist, m, hrun, hconnected, hlength,
    (challenge_no_downgrade_iff plainPrimitives noCodecs plainClient plainKey ⟨0, 1⟩).2
      hist m hrun hguard⟩

def modestClient : ClientConfig := { plainClient with clientFeatures := 0 }

/-- A challenge that anyone can send: no encryption, but batching. -/
def forgedChallenge : Bytes :=
  (buildChallengePacket 128
    { protocolVersion := protocolVersion
      appVersion := 0
      publicKey := Vector.replicate 32 1
      challengeToken := Vector.replicate 32 2
      selectedCipher := .none
      compressionAck := 0
      features := featureSendBatching
      migrationToken := Vector.replicate 8 0 }).toOption.getD []

/-- The client asks for AES and no feature, `Connect` returns without an error, and its
connection sends plaintext in batch frames. -/
theorem forged_challenge_downgrades :
    modestClient.cipherPreference = .aes128GCM ∧ modestClient.clientFeatures = 0 ∧
    ∃ hist m conn, (system plainPrimitives noCodecs modestClient plainKey ⟨0, 1⟩).Run hist m ∧
      m.connected = true ∧ m.installed = some 0 ∧ m.heap = [conn] ∧
      conn.sendCipher.aead = none ∧ conn.features = featureSendBatching ∧
      conn.batchEnabled = true ∧ ∀ raw, (conn.sendCipher.encrypt raw).2 = raw := by
  refine ⟨rfl, rfl, ?_⟩
  obtain ⟨hist, m, hrun, hconnected, hinstalled, hheap⟩ :=
    System.exists_history (S := system plainPrimitives noCodecs modestClient plainKey ⟨0, 1⟩)
      (fun m a m' h => h) (s := start) rfl (oneDatagram forgedChallenge)
      (fun _ m => m.connected = true ∧ m.installed = some 0 ∧
        m.heap.map (fun c => (c.sendCipher.aead.isNone, c.features, c.batchEnabled)) =
          [(true, featureSendBatching, true)])
      (by decide +kernel)
  obtain ⟨conn, hconn, hfields⟩ := List.map_eq_singleton_iff.mp hheap
  simp only [Prod.mk.injEq, Option.isNone_iff_eq_none] at hfields
  obtain ⟨haead, hfeatures, hbatch⟩ := hfields
  refine ⟨hist, m, conn, hrun, hconnected, hinstalled, hconn, haead, hfeatures, hbatch, ?_⟩
  intro raw
  rw [CipherState.encrypt, haead]

end Client.Attempt

end Fastwire
