/-
# Reassembly with its accesses written out

The buffers of the reassembly store carry their accounting as proofs, so the model of
`addFragment` has no index to check. Here the store stands as the source declares it:
plain counters next to a slice of chunks, read and written at the index an arriving
header names. Every store that calls can produce is one of the model with the proofs
forgotten, and a call does to it what it does in the model.
-/

import Fastwire.Fragment.Reassembly
import Fastwire.Wire.Indexed
import Fastwire.Wire.Values

namespace Fastwire.Indexed

open Lib Lib.Checked

/-! ## Fragment headers -/

def unmarshalFragmentHeader (buf : Bytes) : Checked Err (FragmentHeader × ℕ) :=
  if buf.length < fragmentHeaderSize then .error .invalidFragmentHeader
  else do
    let fragmentID ← bigEndianUint16 buf
    let fragmentIndex ← index buf 2
    let fragmentCount ← index buf 3
    let fragmentFlags ← index buf 4
    .ok (⟨fragmentID, fragmentIndex, fragmentCount, fragmentFlags⟩, fragmentHeaderSize)

theorem unmarshalFragmentHeader_eq (buf : Bytes) :
    unmarshalFragmentHeader buf = ofResult (Fastwire.unmarshalFragmentHeader buf) := by
  match buf with
  | [] | [_] | [_, _] | [_, _, _] | [_, _, _, _] => rfl
  | _ :: _ :: _ :: _ :: _ :: rest =>
      rw [unmarshalFragmentHeader, if_neg (by simp [fragmentHeaderSize])]
      rfl

theorem unmarshalFragmentHeader_length {buf : Bytes} {h : FragmentHeader} {n : ℕ}
    (hok : Fastwire.unmarshalFragmentHeader buf = .ok (h, n)) : n ≤ buf.length := by
  match buf, hok with
  | _ :: _ :: _ :: _ :: _ :: rest, hok =>
      cases hok
      simp [fragmentHeaderSize]

/-! ## The store -/

/-- `reassemblyBuffer`. -/
structure Buffer where
  fragments : List Slice
  received : ℕ
  count : ℕ
  flags : UInt8
  totalBytes : ℕ
  createdAt : ℤ

/-- `reassemblyStore`. -/
structure Store where
  buffers : Table UInt16 Buffer
  fragmentTimeout : ℤ
  maxBuffers : ℤ
  maxBytes : ℤ
  totalBytes : ℤ

/-- `offset += copy(assembled[offset:], f)` for one chunk after another. -/
def assembleFrom {ε : Type} :
    (assembled : Bytes) → (offset : ℕ) → List Slice → Checked ε Bytes
  | assembled, _, [] => .ok assembled
  | assembled, offset, f :: fragments => do
      let target ← sliceFrom assembled offset
      let copied := (f.getD []).take target.length
      assembleFrom (splice assembled offset copied) (offset + copied.length) fragments

namespace Store

/-- `newReassemblyStore`. -/
def init (fragmentTimeout maxBuffers maxBytes : ℤ) : Store :=
  ⟨∅, fragmentTimeout, maxBuffers, maxBytes, 0⟩

def stale (s : Store) (now : ℤ) (buf : Buffer) : Bool :=
  s.fragmentTimeout > 0 ∧ now - buf.createdAt ≥ s.fragmentTimeout

/-- A stale buffer makes room for a reuse of its identifier. -/
def evictStale (s : Store) (now : ℤ) (id : UInt16) : Store :=
  match s.buffers.lookup id with
  | none => s
  | some buf =>
      if s.stale now buf then
        { s with totalBytes := s.totalBytes - buf.totalBytes, buffers := s.buffers.erase id }
      else s

def full (s : Store) : Bool := s.maxBuffers > 0 ∧ s.buffers.keys.length ≥ s.maxBuffers

def overflows (s : Store) (payload : Bytes) : Bool :=
  s.maxBytes > 0 ∧ s.totalBytes + payload.length > s.maxBytes

/-- The second half of `addFragment`: the chunk goes into the buffer, and a complete
buffer leaves the store. -/
def store (s : Store) (fh : FragmentHeader) (buf : Buffer) (payload : Bytes) :
    Checked (Store × Err) (Store × Option Bytes) := do
  let fragments ← update buf.fragments fh.fragmentIndex.toNat (some payload)
  let received := buf.received + 1
  let totalBytes := buf.totalBytes + payload.length
  if received < buf.count then
    .ok ({ s with
      totalBytes := s.totalBytes + payload.length
      buffers := s.buffers.insert fh.fragmentID
        { buf with fragments := fragments, received := received, totalBytes := totalBytes } },
      none)
  else do
    let assembled ← assembleFrom (List.replicate totalBytes 0) 0 fragments
    .ok ({ s with
      totalBytes := s.totalBytes + payload.length - totalBytes
      buffers := s.buffers.erase fh.fragmentID }, some assembled)

/-- `addFragment`. An error comes with the store it leaves behind. -/
def addFragment (s : Store) (now : ℤ) (fh : FragmentHeader) (payload : Bytes) :
    Checked (Store × Err) (Store × Option Bytes) :=
  if fh.fragmentCount = 0 then .error (s, .invalidFragmentHeader)
  else if fh.fragmentIndex.toNat ≥ fh.fragmentCount.toNat then .error (s, .invalidFragmentHeader)
  else
    let s := s.evictStale now fh.fragmentID
    match s.buffers.lookup fh.fragmentID with
    | some buf =>
        if buf.count ≠ fh.fragmentCount.toNat ∨ buf.flags ≠ fh.fragmentFlags then
          .error (s, .invalidFragmentHeader)
        else do
          let chunk ← index buf.fragments fh.fragmentIndex.toNat
          if chunk ≠ none then .ok (s, none)
          else if s.overflows payload then .ok (s, none)
          else s.store fh buf payload
    | none =>
        if s.full then .ok (s, none)
        else if s.overflows payload then .ok (s, none)
        else
          let count := fh.fragmentCount.toNat
          s.store fh ⟨List.replicate count none, 0, count, fh.fragmentFlags, 0, now⟩ payload

def cleanup (s : Store) (now timeout : ℤ) : Store :=
  let expired (buf : Buffer) : Bool := now - buf.createdAt ≥ timeout
  { s with
    totalBytes := s.totalBytes -
      ((s.buffers.entries.filter fun e => expired e.2).map fun e => (e.2.totalBytes : ℤ)).sum
    buffers := s.buffers.filter fun buf => !expired buf }

def reset (s : Store) : Store := { s with buffers := ∅, totalBytes := 0 }

/-- The stores that calls produce, whether they succeed or not. -/
inductive Reachable : Store → Prop
  | init (fragmentTimeout maxBuffers maxBytes : ℤ) :
      Reachable (init fragmentTimeout maxBuffers maxBytes)
  | added {s t : Store} {now : ℤ} {fh : FragmentHeader} {payload : Bytes} {r : Option Bytes}
      (prior : Reachable s) (call : s.addFragment now fh payload = .ok (t, r)) : Reachable t
  | refused {s t : Store} {now : ℤ} {fh : FragmentHeader} {payload : Bytes} {e : Err}
      (prior : Reachable s) (call : s.addFragment now fh payload = .error (t, e)) : Reachable t
  | cleaned {s : Store} (now timeout : ℤ) (prior : Reachable s) : Reachable (s.cleanup now timeout)
  | cleared {s : Store} (prior : Reachable s) : Reachable s.reset

end Store

/-! ## Forgetting the proofs -/

/-- A buffer of the model without its proofs. -/
def ofBuffer (buf : ReassemblyBuffer) : Buffer :=
  ⟨buf.fragments, buf.received, buf.count, buf.flags, buf.totalBytes, buf.createdAt⟩

/-- A store of the model without the proofs of its buffers. -/
def ofStore (s : ReassemblyStore) : Store :=
  ⟨s.buffers.mapValues ofBuffer, s.fragmentTimeout, s.maxBuffers, s.maxBytes, s.totalBytes⟩

/-- The outcome of a call of the model. -/
def ofCall (call : ReassemblyStore × Except Err (Option Bytes)) :
    Checked (Store × Err) (Store × Option Bytes) :=
  match call.2 with
  | .ok r => .ok (ofStore call.1, r)
  | .error e => .error (ofStore call.1, e)

/-- The copy fills the buffer from the offset on. -/
theorem assembleFrom_eq {ε : Type} (fragments : List Slice) (assembled : Bytes) (offset : ℕ)
    (hroom : offset + (joinChunks fragments).length ≤ assembled.length) :
    (assembleFrom assembled offset fragments : Checked ε Bytes) =
      .ok (splice assembled offset (joinChunks fragments)) := by
  induction fragments generalizing assembled offset with
  | nil => simp [assembleFrom, joinChunks, splice]
  | cons f fragments ih =>
      have hjoin : joinChunks (f :: fragments) = f.getD [] ++ joinChunks fragments := rfl
      rw [hjoin, List.length_append] at hroom
      rw [assembleFrom, sliceFrom_eq (by omega), ok_bind, List.length_drop]
      dsimp only
      rw [List.take_of_length_le (by omega), ih, splice_splice (by omega), hjoin]
      rw [splice_length (by omega)]
      omega

theorem splice_replicate (bs : Bytes) : splice (List.replicate bs.length 0) 0 bs = bs := by
  simp [splice]

theorem ofStore_stale (s : ReassemblyStore) (now : ℤ) (buf : ReassemblyBuffer) :
    (ofStore s).stale now (ofBuffer buf) = s.stale now buf := rfl

theorem ofStore_full (s : ReassemblyStore) : (ofStore s).full = s.full := by
  simp [Store.full, ReassemblyStore.full, ofStore]

theorem ofStore_overflows (s : ReassemblyStore) (payload : Bytes) :
    (ofStore s).overflows payload = s.overflows payload := rfl

theorem ofStore_lookup (s : ReassemblyStore) (id : UInt16) :
    (ofStore s).buffers.lookup id = (s.buffers.lookup id).map ofBuffer :=
  Table.lookup_mapValues ofBuffer s.buffers id

theorem ofStore_evictStale (s : ReassemblyStore) (now : ℤ) (id : UInt16) :
    ofStore (s.evictStale now id) = (ofStore s).evictStale now id := by
  rw [ReassemblyStore.evictStale, Store.evictStale, ofStore_lookup]
  cases s.buffers.lookup id with
  | none => rfl
  | some buf =>
      simp only [Option.map_some]
      rw [ofStore_stale]
      by_cases hstale : s.stale now buf = true
      · rw [if_pos hstale, if_pos hstale]
        simp [ofStore, Table.mapValues_erase, ofBuffer]
      · rw [if_neg hstale, if_neg hstale]

/-- A chunk that goes to a free index of a buffer of the model. -/
theorem store_ofBuffer (s : ReassemblyStore) (fh : FragmentHeader) (buf : ReassemblyBuffer)
    (payload : Bytes) (hfree : buf.fragments[fh.fragmentIndex.toNat]? = some none) :
    (ofStore s).store fh (ofBuffer buf) payload =
      .ok (ofStore (s.commit fh.fragmentID payload.length
          (buf.put fh.fragmentIndex.toNat payload hfree)).1,
        (s.commit fh.fragmentID payload.length
          (buf.put fh.fragmentIndex.toNat payload hfree)).2) := by
  have hi : fh.fragmentIndex.toNat < buf.fragments.length :=
    (List.getElem?_eq_some_iff.mp hfree).1
  have hfragments : (ofBuffer buf).fragments = buf.fragments := rfl
  rw [Store.store, hfragments, update_eq hi, ok_bind, ReassemblyStore.commit]
  dsimp only
  by_cases hmissing : buf.received + 1 < buf.count
  · have hput : (buf.put fh.fragmentIndex.toNat payload hfree).received <
        (buf.put fh.fragmentIndex.toNat payload hfree).count := hmissing
    have hraw : (ofBuffer buf).received + 1 < (ofBuffer buf).count := hmissing
    rw [if_pos hput, if_pos hraw]
    simp [ofStore, ofBuffer, ReassemblyBuffer.put, Table.mapValues_insert]
  · have hput : ¬ (buf.put fh.fragmentIndex.toNat payload hfree).received <
        (buf.put fh.fragmentIndex.toNat payload hfree).count := hmissing
    have hraw : ¬ (ofBuffer buf).received + 1 < (ofBuffer buf).count := hmissing
    have htotal := (buf.put fh.fragmentIndex.toNat payload hfree).totalBytes_eq
    have hjoin : (ofBuffer buf).totalBytes + payload.length =
        (joinChunks (buf.fragments.set fh.fragmentIndex.toNat (some payload))).length := htotal
    rw [if_neg hput, if_neg hraw, hjoin, assembleFrom_eq _ _ _ (by simp), ok_bind,
      splice_replicate, ReassemblyBuffer.assemble_eq, htotal]
    simp [ofStore, ReassemblyBuffer.put, Table.mapValues_erase]

/-- **`addFragment` indexes in range.** On a store of the model it returns what the
model returns. -/
theorem addFragment_ofStore (s : ReassemblyStore) (now : ℤ) (fh : FragmentHeader)
    (payload : Bytes) :
    (ofStore s).addFragment now fh payload = ofCall (s.addFragment now fh payload) := by
  rw [Store.addFragment, ReassemblyStore.addFragment]
  by_cases hzero : fh.fragmentCount = 0
  · rw [if_pos hzero, if_pos hzero]
    rfl
  rw [if_neg hzero, if_neg hzero]
  by_cases hi : fh.fragmentIndex.toNat ≥ fh.fragmentCount.toNat
  · rw [if_pos hi, dif_pos hi]
    rfl
  rw [if_neg hi, dif_neg hi, ← ofStore_evictStale]
  generalize s.evictStale now fh.fragmentID = s
  dsimp only
  rw [ofStore_lookup]
  cases s.buffers.lookup fh.fragmentID with
  | none =>
      simp only [Option.map_none]
      rw [ofStore_full, ofStore_overflows]
      by_cases hfull : s.full = true
      · rw [if_pos hfull, if_pos hfull]
        rfl
      rw [if_neg hfull, if_neg hfull]
      by_cases hover : s.overflows payload = true
      · rw [if_pos hover, if_pos hover]
        rfl
      · rw [if_neg hover, if_neg hover]
        exact store_ofBuffer s fh (.empty fh.fragmentCount.toNat fh.fragmentFlags now) payload
          (ReassemblyBuffer.empty_free (Nat.not_le.mp hi) _ _)
  | some buf =>
      have hcount : (ofBuffer buf).count = buf.count := rfl
      have hflags : (ofBuffer buf).flags = buf.flags := rfl
      simp only [Option.map_some, hcount, hflags]
      by_cases hother : buf.count ≠ fh.fragmentCount.toNat ∨ buf.flags ≠ fh.fragmentFlags
      · rw [if_pos hother, if_pos hother]
        rfl
      · -- the buffer has as many chunks as the header announces
        have hlt : fh.fragmentIndex.toNat < buf.fragments.length := by
          rw [buf.length_eq]
          omega
        have hchunk := List.getElem?_eq_getElem hlt
        have hindex : index (ofBuffer buf).fragments fh.fragmentIndex.toNat =
            (.ok buf.fragments[fh.fragmentIndex.toNat] : Checked (Store × Err) Slice) :=
          index_eq_of_getElem? hchunk
        rw [if_neg hother, if_neg hother, hindex, ok_bind]
        by_cases hfree : buf.fragments[fh.fragmentIndex.toNat] = none
        · rw [if_neg (not_not.mpr hfree), dif_pos (by rw [hchunk, hfree]), ofStore_overflows]
          by_cases hover : s.overflows payload = true
          · rw [if_pos hover, if_pos hover]
            rfl
          · rw [if_neg hover, if_neg hover]
            exact store_ofBuffer s fh buf payload (by rw [hchunk, hfree])
        · rw [if_pos hfree, dif_neg (by rw [hchunk]; simpa using hfree)]
          rfl

/-- Every store that calls produce is one of the model. -/
theorem Store.Reachable.exists_ofStore {s : Store} (h : s.Reachable) : ∃ t, s = ofStore t := by
  induction h with
  | init fragmentTimeout maxBuffers maxBytes =>
      exact ⟨.init fragmentTimeout maxBuffers maxBytes, rfl⟩
  | @added s u now fh payload r _ call ih =>
      obtain ⟨t, rfl⟩ := ih
      rw [addFragment_ofStore, ofCall] at call
      split at call
      · cases call
        exact ⟨_, rfl⟩
      · cases call
  | @refused s u now fh payload e _ call ih =>
      obtain ⟨t, rfl⟩ := ih
      rw [addFragment_ofStore, ofCall] at call
      split at call
      · cases call
      · cases call
        exact ⟨_, rfl⟩
  | cleaned now timeout _ ih =>
      obtain ⟨t, rfl⟩ := ih
      refine ⟨t.cleanup now timeout, ?_⟩
      simp only [Store.cleanup, ReassemblyStore.cleanup, ofStore, Store.mk.injEq, true_and]
      constructor
      · exact (Table.mapValues_filter ofBuffer
          (fun buf => !decide (now - buf.createdAt ≥ timeout)) t.buffers).symm
      · simp [Table.mapValues, List.filter_map, Function.comp_def, ofBuffer]
  | cleared _ ih =>
      obtain ⟨t, rfl⟩ := ih
      exact ⟨t.reset, rfl⟩

/-- In every store that calls produce `addFragment` indexes in range, whatever the
header says. -/
theorem Store.Reachable.addFragment_ne_outOfRange {s : Store} (h : s.Reachable) (now : ℤ)
    (fh : FragmentHeader) (payload : Bytes) : s.addFragment now fh payload ≠ .outOfRange := by
  obtain ⟨t, rfl⟩ := h.exists_ofStore
  rw [addFragment_ofStore, ofCall]
  split <;> simp

end Fastwire.Indexed
