/-
# Handshake parsers with their accesses written out

The control payloads of the handshake arrive in plaintext from anybody. Their parsers
check the length once and then walk through the fields with a running offset; an
optional field in the middle moves the ones behind it.
-/

import Fastwire.Fragment.Indexed
import Fastwire.Handshake.Packets

namespace Fastwire.Indexed

open Lib Lib.Checked

def parseControlPacket (data : Bytes) : Checked Err (PacketHeader × UInt8 × Bytes) := do
  let (hdr, n) ← unmarshalHeader data
  if hdr.flags &&& flagControl = 0 then .error .invalidHandshake
  else do
    let rest ← sliceFrom data n
    if rest.length < 1 then .error .invalidHandshake
    else do
      let ct ← index data n
      let payload ← sliceFrom data n
      .ok (hdr, ct, payload)

def unmarshalConnect (data : Bytes) : Checked Err ConnectPacket :=
  if data.length < connectMinSize then .error .invalidHandshake
  else do
    let ct ← index data 0
    if ct ≠ ControlType.connect.toByte then .error .invalidHandshake
    else do
      let n := 1
      let protocolVersion ← index data n
      let n := n + 1
      let appVersion ← bigEndianUint16 (← sliceFrom data n)
      let n := n + 2
      let publicKey ← slice data n (n + 32)
      let n := n + 32
      let cipherPref ← index data n
      let n := n + 1
      let compression ← index data n
      let n := n + 1
      let dictPresent ← index data n
      let n := n + 1
      let connect (dictHash : Option ByteArray32) (features : UInt8) : ConnectPacket :=
        ⟨protocolVersion, appVersion, readArray 32 publicKey, ⟨cipherPref⟩, compression,
          dictHash, features⟩
      if dictPresent = 1 then
        if data.length < connectWithDictSize then .error .invalidHandshake
        else do
          let dictHash ← slice data n (n + 32)
          let features ← index data (n + 32)
          .ok (connect (some (readArray 32 dictHash)) features)
      else do
        let features ← index data n
        .ok (connect none features)

def unmarshalChallenge (data : Bytes) : Checked Err ChallengePacket :=
  if data.length < challengeMinSize then .error .invalidHandshake
  else do
    let ct ← index data 0
    if ct ≠ ControlType.challenge.toByte then .error .invalidHandshake
    else do
      let n := 1
      let protocolVersion ← index data n
      let n := n + 1
      let appVersion ← bigEndianUint16 (← sliceFrom data n)
      let n := n + 2
      let publicKey ← slice data n (n + 32)
      let n := n + 32
      let challengeToken ← slice data n (n + 32)
      let n := n + 32
      let selectedCipher ← index data n
      let n := n + 1
      let compressionAck ← index data n
      let n := n + 1
      let features ← index data n
      let n := n + 1
      let challenge (migrationToken : MigrationToken) : ChallengePacket :=
        ⟨protocolVersion, appVersion, readArray 32 publicKey, readArray 32 challengeToken,
          ⟨selectedCipher⟩, compressionAck, features, migrationToken⟩
      if migrates features then
        if data.length < challengeWithMigration then .error .invalidHandshake
        else do
          let migrationToken ← slice data n (n + migrationTokenSize)
          .ok (challenge (readArray 8 migrationToken))
      else .ok (challenge (Vector.replicate 8 0))

def unmarshalResponse (data : Bytes) : Checked Err ByteArray32 :=
  if data.length < responseSize then .error .invalidHandshake
  else do
    let ct ← index data 0
    if ct ≠ ControlType.response.toByte then .error .invalidHandshake
    else do
      let token ← slice data 1 33
      .ok (readArray 32 token)

def unmarshalVersionMismatch (data : Bytes) : Checked Err (UInt8 × UInt16) :=
  if data.length < versionMismatchSize then .error .invalidHandshake
  else do
    let ct ← index data 0
    if ct ≠ ControlType.versionMismatch.toByte then .error .invalidHandshake
    else do
      let protoVersion ← index data 1
      let appVersion ← bigEndianUint16 (← sliceFrom data 2)
      .ok (protoVersion, appVersion)

def unmarshalReject (data : Bytes) : Checked Err RejectReason :=
  if data.length < rejectSize then .error .invalidHandshake
  else do
    let ct ← index data 0
    if ct ≠ ControlType.reject.toByte then .error .invalidHandshake
    else do
      let reason ← index data 1
      .ok ⟨reason⟩

/-! ## What they return -/

/-- A byte of a packet that is long enough. -/
theorem index_byte {data : Bytes} {i : ℕ} (hi : i < data.length) :
    (index data i : Checked Err UInt8) = .ok (data.getD i 0) := index_eq hi 0

/-- A field that ends within the slice it is copied from. -/
theorem readArray_drop_take (k n : ℕ) (data : Bytes) :
    readArray k ((data.take (n + k)).drop n) = readArray k (data.drop n) := by
  ext i hi
  have htake : (data.take (n + k))[n + i]? = data[n + i]? := List.getElem?_take_of_lt (by omega)
  simp only [readArray, Vector.getElem_ofFn, List.getD_eq_getElem?_getD, List.getElem?_drop, htake]

theorem bigEndianUint16_drop {data : Bytes} {n : ℕ} (hn : n + 2 ≤ data.length) :
    bigEndianUint16 (data.drop n) = .ok (readUint16 (data.drop n)) :=
  bigEndianUint16_eq (by rw [List.length_drop]; omega)

theorem parseControlPacket_eq (data : Bytes) :
    parseControlPacket data = ofResult (Fastwire.parseControlPacket data) := by
  rw [parseControlPacket, Fastwire.parseControlPacket, unmarshalHeader_eq]
  cases hheader : Fastwire.unmarshalHeader data with
  | error e => rfl
  | ok header =>
      have hn := unmarshalHeader_length hheader
      simp only [ofResult_ok, ok_bind]
      by_cases hflag : header.1.flags &&& flagControl = 0
      · rw [if_pos hflag, if_pos hflag]
        rfl
      · rw [if_neg hflag, if_neg hflag, sliceFrom_eq hn, ok_bind]
        cases hrest : data.drop header.2 with
        | nil => rfl
        | cons ct rest =>
            have hct : data[header.2]? = some ct := by
              rw [← List.head?_drop, hrest]
              rfl
            rw [if_neg (by simp), index_eq_of_getElem? hct]
            rfl

theorem unmarshalConnect_eq (data : Bytes) :
    unmarshalConnect data = ofResult (Fastwire.unmarshalConnect data) := by
  rw [unmarshalConnect, Fastwire.unmarshalConnect, ofResult_ite]
  split
  · rfl
  · rename_i hlen
    have hlong : 40 ≤ data.length := by simpa [connectMinSize] using hlen
    simp (disch := omega) only [index_byte, ok_bind, sliceFrom_eq, slice_eq,
      bigEndianUint16_drop, readArray_drop_take]
    simp only [Nat.reduceAdd, ofResult_ite]
    split_ifs with hct hdict hshort
    · rfl
    · rfl
    · -- with a dictionary hash the packet is longer
      have hwithDict : 72 ≤ data.length := by
        simpa [connectWithDictSize, connectMinSize] using hshort
      have hhash := readArray_drop_take 32 39 data
      rw [slice_eq (by omega) (by omega), ok_bind, index_byte (by omega), ok_bind, hhash]
      rfl
    · rfl

theorem unmarshalChallenge_eq (data : Bytes) :
    unmarshalChallenge data = ofResult (Fastwire.unmarshalChallenge data) := by
  rw [unmarshalChallenge, Fastwire.unmarshalChallenge, ofResult_ite]
  split
  · rfl
  · rename_i hlen
    have hlong : 71 ≤ data.length := by simpa [challengeMinSize] using hlen
    simp (disch := omega) only [index_byte, ok_bind, sliceFrom_eq, slice_eq,
      bigEndianUint16_drop, readArray_drop_take]
    simp only [Nat.reduceAdd, ofResult_ite, migrationTokenSize]
    split_ifs with hct hmigrates hshort
    · rfl
    · rfl
    · have hwithToken : 79 ≤ data.length := by
        simpa [challengeWithMigration, challengeMinSize] using hshort
      have htoken := readArray_drop_take 8 71 data
      rw [slice_eq (by omega) (by omega), ok_bind, htoken]
      rfl
    · rfl

theorem unmarshalResponse_eq (data : Bytes) :
    unmarshalResponse data = ofResult (Fastwire.unmarshalResponse data) := by
  rw [unmarshalResponse, Fastwire.unmarshalResponse, ofResult_ite]
  split
  · rfl
  · rename_i hlen
    have hlong : 33 ≤ data.length := by simpa [responseSize] using hlen
    have htoken := readArray_drop_take 32 1 data
    rw [index_byte (by omega), ok_bind, slice_eq (by omega) (by omega), ok_bind, htoken,
      ofResult_ite]
    rfl

theorem unmarshalVersionMismatch_eq (data : Bytes) :
    unmarshalVersionMismatch data = ofResult (Fastwire.unmarshalVersionMismatch data) := by
  rw [unmarshalVersionMismatch, Fastwire.unmarshalVersionMismatch, ofResult_ite]
  split
  · rfl
  · rename_i hlen
    have hlong : 4 ≤ data.length := by simpa [versionMismatchSize] using hlen
    rw [index_byte (by omega), ok_bind, index_byte (by omega), ok_bind,
      sliceFrom_eq (by omega), ok_bind, bigEndianUint16_drop (by omega), ok_bind, ofResult_ite]
    rfl

theorem unmarshalReject_eq (data : Bytes) :
    unmarshalReject data = ofResult (Fastwire.unmarshalReject data) := by
  rw [unmarshalReject, Fastwire.unmarshalReject, ofResult_ite]
  split
  · rfl
  · rename_i hlen
    have hlong : 2 ≤ data.length := Nat.le_of_not_lt hlen
    rw [index_byte (by omega), ok_bind, index_byte (by omega), ok_bind, ofResult_ite]
    rfl

/-! ## No access out of range -/

/-- **The parsers read in range.** Whatever the bytes, each parser returns a value or
an error, and those that count the bytes they consume do not count more than there
are. Whatever the header, `addFragment` returns in every store that calls produce. -/
theorem parsers_in_range :
    (∀ data : Bytes,
      unmarshalHeader data ≠ .outOfRange ∧ parseControlPacket data ≠ .outOfRange ∧
      unmarshalConnect data ≠ .outOfRange ∧ unmarshalChallenge data ≠ .outOfRange ∧
      unmarshalResponse data ≠ .outOfRange ∧ unmarshalVersionMismatch data ≠ .outOfRange ∧
      unmarshalReject data ≠ .outOfRange ∧ unmarshalMultiAck data ≠ .outOfRange ∧
      unmarshalBatch data ≠ .outOfRange ∧ unmarshalFragmentHeader data ≠ .outOfRange) ∧
    (∀ data hdr n, unmarshalHeader data = .ok (hdr, n) → n ≤ data.length) ∧
    (∀ data entries n, unmarshalMultiAck data = .ok (entries, n) → n ≤ data.length) ∧
    (∀ data h n, unmarshalFragmentHeader data = .ok (h, n) → n ≤ data.length) ∧
    ∀ s : Store, s.Reachable → ∀ (now : ℤ) (fh : FragmentHeader) (payload : Bytes),
      s.addFragment now fh payload ≠ .outOfRange := by
  refine ⟨?_, ?_, ?_, ?_, ?_⟩
  · intro data
    rw [unmarshalHeader_eq, parseControlPacket_eq, unmarshalConnect_eq, unmarshalChallenge_eq,
      unmarshalResponse_eq, unmarshalVersionMismatch_eq, unmarshalReject_eq,
      unmarshalMultiAck_eq, unmarshalBatch_eq, unmarshalFragmentHeader_eq]
    simp only [ne_eq, ofResult_ne_outOfRange, not_false_eq_true, and_self]
  · intro data hdr n hok
    rw [unmarshalHeader_eq] at hok
    exact unmarshalHeader_length (ofResult_eq_ok.mp hok)
  · intro data entries n hok
    rw [unmarshalMultiAck_eq] at hok
    exact unmarshalMultiAck_length (ofResult_eq_ok.mp hok)
  · intro data h n hok
    rw [unmarshalFragmentHeader_eq] at hok
    exact unmarshalFragmentHeader_length (ofResult_eq_ok.mp hok)
  · intro s hreachable now fh payload
    exact hreachable.addFragment_ne_outOfRange now fh payload

/-- A header that fills its packet, an acknowledgement of one channel, and the second
of two fragments in a store that has the first. -/
theorem parsers_in_range_samples :
    (∃ hdr n, unmarshalHeader [2, 0, 0, 0, 0, 0, 0, 0] = .ok (hdr, n) ∧ n ≤ 8) ∧
    (∃ entries n, unmarshalMultiAck [1, 0, 7, 0, 0, 0, 0] = .ok (entries, n) ∧ n ≤ 7) ∧
    (∃ h n, unmarshalFragmentHeader [0, 1, 0, 2, 0] = .ok (h, n) ∧ n ≤ 5) ∧
    ∃ s : Store, (Store.init 10 0 0).addFragment 0 ⟨1, 0, 2, 0⟩ [65] = .ok (s, none) ∧
      s.addFragment 0 ⟨1, 1, 2, 0⟩ [66] ≠ .outOfRange :=
  have ⟨_, hheader, hmultiAck, hfragment, hstore⟩ := parsers_in_range
  have hfirst : ∃ s : Store, (Store.init 10 0 0).addFragment 0 ⟨1, 0, 2, 0⟩ [65] = .ok (s, none) :=
    ⟨_, rfl⟩
  have ⟨s, hs⟩ := hfirst
  ⟨⟨_, _, rfl, hheader [2, 0, 0, 0, 0, 0, 0, 0] _ _ rfl⟩,
    ⟨_, _, rfl, hmultiAck [1, 0, 7, 0, 0, 0, 0] _ _ rfl⟩,
    ⟨_, _, rfl, hfragment [0, 1, 0, 2, 0] _ _ rfl⟩,
    ⟨s, hs, hstore s (.added (.init 10 0 0) hs) 0 ⟨1, 1, 2, 0⟩ [66]⟩⟩

end Fastwire.Indexed
