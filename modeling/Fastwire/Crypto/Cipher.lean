/-
# Cipher states

One direction of a connection: a send counter and a replay window around an
authenticated cipher. The cipher itself is a parameter with the laws that any
implementation of the interface has; nothing here depends on secrecy.

A cipher state also remembers the plaintexts it has sealed. The code keeps no
such list: it is a history variable, the record of what the owner of the key
has ever authenticated, and no definition branches on it.
-/

import Fastwire.Crypto.ReplayWindow
import Fastwire.Wire.VarInt
import Mathlib.Data.List.Nodup

namespace Fastwire

/-! ## Little-endian numbers -/

/-- The `k` low bytes of a number, least significant first. -/
def putLE : (k n : ℕ) → Bytes
  | 0, _ => []
  | k + 1, n => UInt8.ofNat n :: putLE k (n / 256)

/-- The number written by a byte string, least significant byte first. -/
def readLE : Bytes → ℕ
  | [] => 0
  | b :: bs => b.toNat + 256 * readLE bs

@[simp]
theorem putLE_length (k n : ℕ) : (putLE k n).length = k := by
  induction k generalizing n with
  | zero => rfl
  | succ k ih => simp [putLE, ih]

theorem readLE_putLE {k n : ℕ} (hn : n < 256 ^ k) : readLE (putLE k n) = n := by
  induction k generalizing n with
  | zero =>
      have hzero : n = 0 := by simpa using hn
      simp [putLE, readLE, hzero]
  | succ k ih =>
      have hdiv : n / 256 < 256 ^ k := by
        rw [Nat.div_lt_iff_lt_mul (by decide), ← Nat.pow_succ]
        exact hn
      rw [putLE, readLE, ih hdiv, UInt8.toNat_ofNat']
      exact Nat.mod_add_div n 256

namespace Crypto

def tagSize : ℕ := 16

def nonceSize : ℕ := 8

/-- An authenticated cipher under a fixed key: sealing adds a tag, opening is a
partial function that undoes it. -/
structure Aead where
  sealBytes : ℕ → Bytes → Bytes
  openBytes : ℕ → Bytes → Option Bytes
  sealBytes_length : ∀ nonce plaintext,
    (sealBytes nonce plaintext).length = plaintext.length + tagSize
  openBytes_sealBytes : ∀ nonce plaintext,
    openBytes nonce (sealBytes nonce plaintext) = some plaintext
  tagSize_le : ∀ nonce ciphertext plaintext,
    openBytes nonce ciphertext = some plaintext → tagSize ≤ ciphertext.length

/-- One direction of a connection. `aead` is `none` for the suite without
encryption. -/
structure CipherState where
  aead : Option Aead
  nonce : ℕ
  replay : ReplayWindow
  sealed : List Bytes

namespace CipherState

def init (aead : Option Aead) : CipherState := ⟨aead, 0, ReplayWindow.init, []⟩

/-- `Encrypt`: the packet on the wire and the advanced state. It cannot fail. -/
def encrypt (state : CipherState) (plaintext : Bytes) : CipherState × Bytes :=
  match state.aead with
  | none => ({ state with sealed := plaintext :: state.sealed }, plaintext)
  | some a =>
      let nonce := (state.nonce + 1) % 2 ^ 64
      ({ state with nonce := nonce, sealed := plaintext :: state.sealed },
        putLE nonceSize nonce ++ a.sealBytes nonce plaintext)

/-- The nonce a packet claims. -/
def wireNonce (packet : Bytes) : ℕ := readLE (packet.take nonceSize)

/-- `Decrypt`: the plaintext and the updated window. -/
def decrypt (state : CipherState) (packet : Bytes) : Except Err (Bytes × CipherState) :=
  match state.aead with
  | none => .ok (packet, state)
  | some a =>
      if packet.length < nonceSize + tagSize then .error .decryptionFailed
      else
        let nonce := wireNonce packet
        if !state.replay.check nonce then .error .replayedPacket
        else
          match a.openBytes nonce (packet.drop nonceSize) with
          | none => .error .decryptionFailed
          | some plaintext =>
              .ok (plaintext, { state with replay := state.replay.update nonce })

/-- Encryption adds the nonce and the tag. -/
theorem encrypt_length (state : CipherState) (plaintext : Bytes) :
    (state.encrypt plaintext).2.length =
      plaintext.length + if state.aead.isSome then nonceSize + tagSize else 0 := by
  cases haead : state.aead with
  | none => simp [encrypt, haead]
  | some a =>
      simp only [encrypt, haead, List.length_append, putLE_length, a.sealBytes_length,
        Option.isSome_some, if_true]
      omega

/-- What an accepted packet does to the state: only the window moves. -/
theorem decrypt_ok_inv {state state' : CipherState} {packet plaintext : Bytes}
    (hok : state.decrypt packet = .ok (plaintext, state')) :
    state'.aead = state.aead ∧ state'.replay.maxNonce =
      if state.aead.isSome then max state.replay.maxNonce (wireNonce packet)
      else state.replay.maxNonce := by
  rw [decrypt] at hok
  split at hok
  · rename_i hnone
    cases hok
    simp [hnone]
  · rename_i a hsome
    dsimp only at hok
    split at hok
    · cases hok
    · split at hok
      · cases hok
      · split at hok
        · cases hok
        · cases hok
          simp [hsome, ReplayWindow.maxNonce_update]

@[simp]
theorem encrypt_sealed (state : CipherState) (plaintext : Bytes) :
    (state.encrypt plaintext).1.sealed = plaintext :: state.sealed := by
  rw [encrypt]
  split <;> rfl

theorem encrypt_aead (tx : CipherState) (plaintext : Bytes) :
    (tx.encrypt plaintext).1.aead = tx.aead := by
  rw [encrypt]
  split <;> rfl

/-- When an encrypted packet is accepted. The length check is implied, because
nothing shorter than a tag opens. -/
theorem decrypt_eq_ok_iff {state : CipherState} {a : Aead} (haead : state.aead = some a)
    {packet plaintext : Bytes} {state' : CipherState} :
    state.decrypt packet = .ok (plaintext, state') ↔
      state.replay.check (wireNonce packet) = true ∧
      a.openBytes (wireNonce packet) (packet.drop nonceSize) = some plaintext ∧
      state' = { state with replay := state.replay.update (wireNonce packet) } := by
  simp only [decrypt, haead]
  by_cases hshort : packet.length < nonceSize + tagSize
  · simp only [hshort, ↓reduceIte, reduceCtorEq, false_iff]
    rintro ⟨-, hopen, -⟩
    have htag := a.tagSize_le _ _ _ hopen
    rw [List.length_drop] at htag
    simp only [nonceSize, tagSize] at hshort htag
    omega
  · simp only [hshort, ↓reduceIte]
    cases hcheck : state.replay.check (wireNonce packet) with
    | false => simp
    | true =>
        cases hopen : a.openBytes (wireNonce packet) (packet.drop nonceSize) with
        | none => simp
        | some opened => simp [eq_comm]

/-- The nonce of a sealed packet is the advanced counter. -/
theorem wireNonce_encrypt {tx : CipherState} {a : Aead} (htx : tx.aead = some a)
    (plaintext : Bytes) : wireNonce (tx.encrypt plaintext).2 = (tx.nonce + 1) % 2 ^ 64 := by
  have hbound : (tx.nonce + 1) % 2 ^ 64 < 256 ^ nonceSize := Nat.mod_lt _ (by decide)
  simp only [encrypt, htx, wireNonce]
  rw [List.take_left' (putLE_length _ _), readLE_putLE hbound]

/-- A sealed packet opens to its plaintext wherever its nonce is still
acceptable. -/
theorem decrypt_encrypt {tx rx : CipherState} {a : Aead} (htx : tx.aead = some a)
    (hrx : rx.aead = some a) (plaintext : Bytes)
    (hcheck : rx.replay.check ((tx.nonce + 1) % 2 ^ 64) = true) :
    ∃ rx', rx.decrypt (tx.encrypt plaintext).2 = .ok (plaintext, rx') := by
  have hnonce := wireNonce_encrypt htx plaintext
  refine ⟨_, (decrypt_eq_ok_iff hrx).mpr ⟨hnonce ▸ hcheck, ?_, rfl⟩⟩
  rw [hnonce]
  simp only [encrypt, htx]
  rw [List.drop_left' (putLE_length _ _), a.openBytes_sealBytes]

/-! ## Replay protection -/

/-- One call of a sequential run: the state, and the nonces of the calls that
have succeeded so far, newest first. -/
def decryptStep (run : CipherState × List ℕ) (packet : Bytes) : CipherState × List ℕ :=
  match run.1.decrypt packet with
  | .ok (_, state) => (state, wireNonce packet :: run.2)
  | .error _ => run

def decryptAll (state : CipherState) (packets : List Bytes) : CipherState × List ℕ :=
  packets.foldl decryptStep (state, [])

/-- The window is exact for the accepted nonces, of which there is none twice. -/
structure Guards (a : Aead) (run : CipherState × List ℕ) : Prop where
  aead_eq : run.1.aead = some a
  exact : run.1.replay.Exact {nonce | nonce ∈ run.2}
  nodup : run.2.Nodup

theorem guards_init (a : Aead) : Guards a (init (some a), []) where
  aead_eq := rfl
  exact := by
    have hempty : {nonce : ℕ | nonce ∈ ([] : List ℕ)} = ∅ := by simp
    rw [hempty]
    exact ReplayWindow.exact_init
  nodup := List.nodup_nil

/-- A call either fails and changes nothing, or accepts a nonce that is new. -/
theorem Guards.decryptStep {a : Aead} {run : CipherState × List ℕ} (h : Guards a run)
    (packet : Bytes) : Guards a (decryptStep run packet) := by
  cases hres : run.1.decrypt packet with
  | error e => simpa only [CipherState.decryptStep, hres] using h
  | ok result =>
      obtain ⟨plaintext, state⟩ := result
      obtain ⟨hcheck, -, rfl⟩ := (decrypt_eq_ok_iff h.aead_eq).mp hres
      simp only [CipherState.decryptStep, hres]
      refine ⟨h.aead_eq, ?_, ?_⟩
      · have hins : {nonce | nonce ∈ wireNonce packet :: run.2} =
            insert (wireNonce packet) {nonce | nonce ∈ run.2} := by
          ext nonce
          simp
        rw [hins]
        exact ReplayWindow.exact_update h.exact hcheck
      · have hnew := ((ReplayWindow.check_iff h.exact).mp hcheck).2.1
        exact List.nodup_cons.mpr ⟨hnew, h.nodup⟩

theorem guards_decryptAll (a : Aead) (packets : List Bytes) :
    Guards a (decryptAll (init (some a)) packets) := by
  have hfold : ∀ run, Guards a run → Guards a (packets.foldl CipherState.decryptStep run) := by
    induction packets with
    | nil => exact fun run hrun => hrun
    | cons packet packets ih => exact fun run hrun => ih _ (hrun.decryptStep packet)
  exact hfold _ (guards_init a)

/-- After any sequence of calls with arbitrary packets: no nonce has been
accepted twice; every packet that opens and whose nonce is nonzero, new and
within 1024 of the largest is accepted; and the window bits are exactly the
accepted nonces. -/
theorem replay_protection (a : Aead) (packets : List Bytes) :
    (decryptAll (init (some a)) packets).2.Nodup ∧
    (∀ packet plaintext,
      a.openBytes (wireNonce packet) (packet.drop nonceSize) = some plaintext →
      wireNonce packet ≠ 0 →
      wireNonce packet ∉ (decryptAll (init (some a)) packets).2 →
      (decryptAll (init (some a)) packets).1.replay.maxNonce < wireNonce packet + 1024 →
      ∃ state, (decryptAll (init (some a)) packets).1.decrypt packet = .ok (plaintext, state)) ∧
    ∀ d < 1024, (decryptAll (init (some a)) packets).1.replay.window.bit d = true ↔
      d < (decryptAll (init (some a)) packets).1.replay.maxNonce ∧
        (decryptAll (init (some a)) packets).1.replay.maxNonce - d ∈
          (decryptAll (init (some a)) packets).2 := by
  have h := guards_decryptAll a packets
  refine ⟨h.nodup, ?_, ?_⟩
  · intro packet plaintext hopen hzero hnew hrecent
    have hcheck := (ReplayWindow.check_iff h.exact).mpr ⟨hzero, hnew, hrecent⟩
    exact ⟨_, (decrypt_eq_ok_iff h.aead_eq).mpr ⟨hcheck, hopen, rfl⟩⟩
  · intro d hd
    rw [h.exact.bit_iff d hd]
    constructor
    · intro hmem
      refine ⟨?_, hmem⟩
      by_contra hge
      rw [Nat.sub_eq_zero_of_le (Nat.not_lt.mp hge)] at hmem
      exact h.exact.zero_notMem hmem
    · exact And.right

end CipherState

end Crypto

end Fastwire
