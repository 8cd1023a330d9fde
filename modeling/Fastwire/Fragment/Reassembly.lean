/-
# Reassembly

The store of partially received messages. A buffer carries the accounting the
code maintains by hand as fields: the number of chunks received and the bytes
held are what the stored chunks say they are, so no later proof has to follow
the counters.
-/

import Fastwire.Fragment.Split
import Fastwire.Lib.Table

namespace Fastwire

open Lib

/-- The bytes of the chunks received so far, in index order. -/
def joinChunks (fragments : List Slice) : Bytes := (fragments.map (Option.getD · [])).flatten

/-- The effect of storing one missing chunk on the two counters. -/
theorem length_joinChunks_set {fragments : List Slice} {i : ℕ} (hfree : fragments[i]? = some none)
    (payload : Bytes) :
    (joinChunks (fragments.set i (some payload))).length =
      (joinChunks fragments).length + payload.length := by
  induction fragments generalizing i with
  | nil => simp at hfree
  | cons f fragments ih =>
      cases i with
      | zero =>
          simp only [List.getElem?_cons_zero, Option.some.injEq] at hfree
          simp [joinChunks, hfree, Nat.add_comm]
      | succ i =>
          have hrest := ih (i := i) (by simpa using hfree)
          simp only [joinChunks, List.set_cons_succ, List.map_cons, List.flatten_cons,
            List.length_append] at hrest ⊢
          omega

theorem countP_isSome_set {fragments : List Slice} {i : ℕ} (hfree : fragments[i]? = some none)
    (payload : Bytes) :
    (fragments.set i (some payload)).countP Option.isSome =
      fragments.countP Option.isSome + 1 := by
  obtain ⟨hlt, hget⟩ := List.getElem?_eq_some_iff.mp hfree
  rw [List.countP_set hlt]
  simp [hget]

/-- A message being reassembled. -/
structure ReassemblyBuffer where
  fragments : List Slice
  received : ℕ
  count : ℕ
  flags : UInt8
  totalBytes : ℕ
  createdAt : ℤ
  length_eq : fragments.length = count
  received_eq : received = fragments.countP Option.isSome
  totalBytes_eq : totalBytes = (joinChunks fragments).length

namespace ReassemblyBuffer

/-- A buffer for a message none of whose fragments is there yet. -/
def empty (count : ℕ) (flags : UInt8) (now : ℤ) : ReassemblyBuffer where
  fragments := List.replicate count none
  received := 0
  count := count
  flags := flags
  totalBytes := 0
  createdAt := now
  length_eq := List.length_replicate
  received_eq := by simp [List.countP_replicate]
  totalBytes_eq := by simp [joinChunks]

theorem empty_free {i count : ℕ} (hi : i < count) (flags : UInt8) (now : ℤ) :
    (empty count flags now).fragments[i]? = some none := by
  simp [empty, hi]

def put (buf : ReassemblyBuffer) (i : ℕ) (payload : Bytes)
    (hfree : buf.fragments[i]? = some none) : ReassemblyBuffer where
  fragments := buf.fragments.set i (some payload)
  received := buf.received + 1
  count := buf.count
  flags := buf.flags
  totalBytes := buf.totalBytes + payload.length
  createdAt := buf.createdAt
  length_eq := by rw [List.length_set, buf.length_eq]
  received_eq := by rw [countP_isSome_set hfree, buf.received_eq]
  totalBytes_eq := by rw [length_joinChunks_set hfree, buf.totalBytes_eq]

/-- The single-pass copy into a buffer of `totalBytes` bytes. -/
def assemble (buf : ReassemblyBuffer) : Bytes :=
  let bytes := joinChunks buf.fragments
  bytes.take buf.totalBytes ++ List.replicate (buf.totalBytes - bytes.length) 0

/-- The copy neither cuts nor pads. -/
theorem assemble_eq (buf : ReassemblyBuffer) : buf.assemble = joinChunks buf.fragments := by
  simp [assemble, buf.totalBytes_eq]

end ReassemblyBuffer

/-- `reassemblyStore`. A limit of zero or less is no limit. -/
structure ReassemblyStore where
  buffers : Table UInt16 ReassemblyBuffer
  fragmentTimeout : ℤ
  maxBuffers : ℤ
  maxBytes : ℤ
  totalBytes : ℤ

namespace ReassemblyStore

/-- `newReassemblyStore`. -/
def init (fragmentTimeout maxBuffers maxBytes : ℤ) : ReassemblyStore :=
  ⟨∅, fragmentTimeout, maxBuffers, maxBytes, 0⟩

/-- Is the buffer older than the timeout? -/
def stale (s : ReassemblyStore) (now : ℤ) (buf : ReassemblyBuffer) : Bool :=
  s.fragmentTimeout > 0 ∧ now - buf.createdAt ≥ s.fragmentTimeout

/-- A stale buffer makes room for a reuse of its identifier. -/
def evictStale (s : ReassemblyStore) (now : ℤ) (id : UInt16) : ReassemblyStore :=
  match s.buffers.lookup id with
  | none => s
  | some buf =>
      if s.stale now buf then
        { s with totalBytes := s.totalBytes - buf.totalBytes, buffers := s.buffers.erase id }
      else s

/-- The cap on the number of buffers. -/
def full (s : ReassemblyStore) : Bool := s.maxBuffers > 0 ∧ s.buffers.keys.length ≥ s.maxBuffers

/-- The cap on the bytes held. -/
def overflows (s : ReassemblyStore) (payload : Bytes) : Bool :=
  s.maxBytes > 0 ∧ s.totalBytes + payload.length > s.maxBytes

/-- The buffer, with the new chunk in it, goes back into the store, unless it is
complete: then it leaves the store and the assembled payload is returned. -/
def commit (s : ReassemblyStore) (id : UInt16) (chunkLength : ℕ) (buf : ReassemblyBuffer) :
    ReassemblyStore × Option Bytes :=
  if buf.received < buf.count then
    ({ s with
        totalBytes := s.totalBytes + chunkLength
        buffers := s.buffers.insert id buf }, none)
  else
    ({ s with
        totalBytes := s.totalBytes + chunkLength - buf.totalBytes
        buffers := s.buffers.erase id }, some buf.assemble)

/-- `addFragment`: the store it leaves behind, also with an error, and what it returns. -/
def addFragment (s : ReassemblyStore) (now : ℤ) (fh : FragmentHeader) (payload : Bytes) :
    ReassemblyStore × Except Err (Option Bytes) :=
  let i := fh.fragmentIndex.toNat
  let count := fh.fragmentCount.toNat
  if fh.fragmentCount = 0 then (s, .error .invalidFragmentHeader)
  else if hi : i ≥ count then (s, .error .invalidFragmentHeader)
  else
    let s := s.evictStale now fh.fragmentID
    match s.buffers.lookup fh.fragmentID with
    | some buf =>
        if buf.count ≠ count ∨ buf.flags ≠ fh.fragmentFlags then (s, .error .invalidFragmentHeader)
        else if hfree : buf.fragments[i]? = some none then
          if s.overflows payload then (s, .ok none)
          else
            let (s, assembled) := s.commit fh.fragmentID payload.length (buf.put i payload hfree)
            (s, .ok assembled)
        else (s, .ok none)
    | none =>
        if s.full then (s, .ok none)
        else if s.overflows payload then (s, .ok none)
        else
          let (s, assembled) := s.commit fh.fragmentID payload.length
            ((ReassemblyBuffer.empty count fh.fragmentFlags now).put i payload
              (ReassemblyBuffer.empty_free (Nat.not_le.mp hi) _ _))
          (s, .ok assembled)

/-- `cleanup`: drop the buffers that have reached the timeout. -/
def cleanup (s : ReassemblyStore) (now timeout : ℤ) : ReassemblyStore :=
  let expired (buf : ReassemblyBuffer) : Bool := now - buf.createdAt ≥ timeout
  { s with
    totalBytes := s.totalBytes -
      ((s.buffers.entries.filter fun e => expired e.2).map fun e => (e.2.totalBytes : ℤ)).sum
    buffers := Table.filter (fun buf => !expired buf) s.buffers }

/-- `reset`, on teardown. -/
def reset (s : ReassemblyStore) : ReassemblyStore := { s with buffers := ∅, totalBytes := 0 }

end ReassemblyStore

end Fastwire
