/-
# The accounts of the reassembly store

Whatever a peer sends, the bytes and buffers the store says it holds are those
it holds, no buffer in it is complete, and the caps are kept. A call that
reports an error leaves the store as it was.
-/

import Fastwire.Fragment.Message
import Mathlib.Algebra.Order.BigOperators.Group.List

namespace Fastwire

open Lib

namespace ReassemblyStore

/-! ## Calls -/

variable {s : ReassemblyStore} {now : ℤ} {fh : FragmentHeader} {payload : Bytes}

/-- The age of the buffer under the identifier: that of the buffer found, or the
time of the call. -/
theorem createdAt_addFragment {buf : ReassemblyBuffer} {assembled : Option Bytes}
    (hok : (s.addFragment now fh payload).2 = .ok assembled)
    (hlook : (s.addFragment now fh payload).1.buffers.lookup fh.fragmentID = some buf) :
    (∃ old, (s.evictStale now fh.fragmentID).buffers.lookup fh.fragmentID = some old ∧
        buf.createdAt = old.createdAt) ∨
      buf.createdAt = now := by
  have hcommit : ∀ {s : ReassemblyStore} {id : UInt16} {n : ℕ} {new : ReassemblyBuffer},
      (s.commit id n new).1.buffers.lookup id = some buf → buf.createdAt = new.createdAt := by
    intro s id n new h
    rw [commit] at h
    split at h
    · rw [AList.lookup_insert, Option.some.injEq] at h
      rw [h]
    · rw [AList.lookup_erase] at h
      cases h
  rw [addFragment] at hok hlook
  split at hlook
  · rename_i hcount
    rw [if_pos hcount] at hok
    cases hok
  rename_i hcount
  rw [if_neg hcount] at hok
  split at hlook
  · rename_i hi
    rw [dif_pos hi] at hok
    cases hok
  dsimp only at hlook
  split at hlook
  · rename_i old hold
    split at hlook
    · exact .inl ⟨buf, hlook, rfl⟩
    split at hlook
    · split at hlook
      · exact .inl ⟨buf, hlook, rfl⟩
      · have hcreated := hcommit hlook
        exact .inl ⟨old, hold, hcreated⟩
    · exact .inl ⟨buf, hlook, rfl⟩
  · split at hlook
    · exact .inl ⟨buf, hlook, rfl⟩
    split at hlook
    · exact .inl ⟨buf, hlook, rfl⟩
    · exact .inr (hcommit hlook)

inductive Call
  | addFragment (now : ℤ) (fh : FragmentHeader) (payload : Bytes)
  | cleanup (now timeout : ℤ)
  | reset

def Call.apply (s : ReassemblyStore) : Call → ReassemblyStore
  | addFragment now fh payload => (s.addFragment now fh payload).1
  | cleanup now timeout => s.cleanup now timeout
  | reset => s.reset

/-! ## The invariant -/

end ReassemblyStore

/-- What holds of a buffer in a store: the counters count the stored chunks, and
at least one chunk is missing. -/
structure ReassemblyBuffer.Partial (buf : ReassemblyBuffer) : Prop where
  totalBytes_eq : buf.totalBytes = (buf.fragments.map fun f => (f.getD []).length).sum
  received_eq : buf.received = buf.fragments.countP Option.isSome
  received_lt : buf.received < buf.count
  length_eq : buf.fragments.length = buf.count
  count_pos : 1 ≤ buf.count
  count_le : buf.count ≤ 255

theorem ReassemblyBuffer.partial_of_received_lt {buf : ReassemblyBuffer}
    (hlt : buf.received < buf.count) (hle : buf.count ≤ 255) : buf.Partial where
  totalBytes_eq := by
    rw [buf.totalBytes_eq, joinChunks, List.length_flatten, List.map_map]
    rfl
  received_eq := buf.received_eq
  received_lt := hlt
  length_eq := buf.length_eq
  count_pos := by omega
  count_le := hle

namespace ReassemblyStore

/-- The accounts are right and the caps are kept. -/
structure Sound (s : ReassemblyStore) : Prop where
  totalBytes_eq : s.totalBytes = s.buffers.total fun buf => buf.totalBytes
  buffer_partial : ∀ id buf, s.buffers.lookup id = some buf → buf.Partial
  buffers_le : 0 < s.maxBuffers → (s.buffers.keys.length : ℤ) ≤ s.maxBuffers
  bytes_le : 0 < s.maxBytes → s.totalBytes ≤ s.maxBytes

variable {s : ReassemblyStore} {now : ℤ} {fh : FragmentHeader} {payload : Bytes}

theorem sound_init (fragmentTimeout maxBuffers maxBytes : ℤ) :
    (init fragmentTimeout maxBuffers maxBytes).Sound where
  totalBytes_eq := rfl
  buffer_partial id buf h := by cases h
  buffers_le h := h.le
  bytes_le h := h.le

/-- Removing buffers, and their bytes with them. -/
theorem Sound.shrink (h : s.Sound) {buffers : Table UInt16 ReassemblyBuffer} {totalBytes : ℤ}
    (htotal : totalBytes = buffers.total fun buf => buf.totalBytes)
    (hbuffers : ∀ id buf, buffers.lookup id = some buf → s.buffers.lookup id = some buf)
    (hlength : buffers.keys.length ≤ s.buffers.keys.length) (hle : totalBytes ≤ s.totalBytes) :
    Sound { s with buffers, totalBytes } where
  totalBytes_eq := htotal
  buffer_partial id buf hlook := h.buffer_partial id buf (hbuffers id buf hlook)
  buffers_le hcap := (Int.ofNat_le.mpr hlength).trans (h.buffers_le hcap)
  bytes_le hcap := hle.trans (h.bytes_le hcap)

theorem Sound.erase (h : s.Sound) {id : UInt16} {buf : ReassemblyBuffer}
    (hlook : s.buffers.lookup id = some buf) :
    Sound { s with
      totalBytes := s.totalBytes - buf.totalBytes
      buffers := s.buffers.erase id } := by
  refine h.shrink ?_ ?_ ?_ (by omega)
  · rw [h.totalBytes_eq, Table.total_erase _ hlook]
  · intro k buf' hk
    rw [Table.lookup_erase_eq] at hk
    split at hk
    · cases hk
    · exact hk
  · rw [AList.keys_erase]
    exact (List.erase_sublist ..).length_le

theorem Sound.evictStale (h : s.Sound) (now : ℤ) (id : UInt16) : (s.evictStale now id).Sound := by
  rw [ReassemblyStore.evictStale]
  split
  · exact h
  · rename_i buf hlook
    split
    · exact h.erase hlook
    · exact h

theorem sound_reset (s : ReassemblyStore) : s.reset.Sound where
  totalBytes_eq := rfl
  buffer_partial id buf hlook := by cases hlook
  buffers_le hcap := hcap.le
  bytes_le hcap := hcap.le

theorem Sound.cleanup (h : s.Sound) (now timeout : ℤ) : (s.cleanup now timeout).Sound := by
  refine h.shrink ?_ ?_ ?_ ?_
  · rw [h.totalBytes_eq, Table.total_filter]
    simp only [Bool.not_not]
  · intro id buf hlook
    rw [Table.lookup_filter] at hlook
    exact (Option.filter_eq_some_iff.mp hlook).1
  · exact (List.filter_sublist.map _).length_le
  · have hpos : 0 ≤ ((s.buffers.entries.filter fun e => now - e.2.createdAt ≥ timeout).map
        fun e => (e.2.totalBytes : ℤ)).sum := by
      apply List.sum_nonneg
      intro n hn
      obtain ⟨e, -, rfl⟩ := List.mem_map.mp hn
      exact Int.natCast_nonneg _
    exact Int.sub_le_self _ hpos

/-- Storing a chunk in the buffer under an identifier, or in a new one, when
there is room. -/
theorem Sound.commit (h : s.Sound) {id : UInt16} {buf : ReassemblyBuffer} {n : ℕ}
    (hbytes : (buf.totalBytes : ℤ) =
      ((s.buffers.lookup id).map fun old => (old.totalBytes : ℤ)).getD 0 + n)
    (hcount : buf.count ≤ 255) (hroom : s.buffers.lookup id = none → s.full = false)
    (hfits : 0 < s.maxBytes → s.totalBytes + n ≤ s.maxBytes) : (s.commit id n buf).1.Sound := by
  rw [ReassemblyStore.commit]
  split
  · rename_i hlt
    refine ⟨?_, ?_, ?_, hfits⟩
    · have htotal := h.totalBytes_eq
      show s.totalBytes + n = Table.total _ (s.buffers.insert id buf)
      rw [Table.total_insert, hbytes]
      omega
    · intro k buf' hk
      rw [Table.lookup_insert_eq] at hk
      split at hk
      · cases hk
        exact ReassemblyBuffer.partial_of_received_lt hlt hcount
      · exact h.buffer_partial k buf' hk
    · intro hcap
      rw [AList.keys_insert, List.length_cons]
      cases hlook : s.buffers.lookup id with
      | none =>
          have hfree := hroom hlook
          rw [List.erase_of_not_mem (AList.lookup_eq_none.mp hlook)]
          simp only [full, decide_eq_false_iff_not, not_and, not_le] at hfree
          exact hfree hcap
      | some old =>
          have hmem : id ∈ s.buffers.keys := Table.mem_of_lookup hlook
          have hpos := List.length_pos_of_mem hmem
          have hle := h.buffers_le hcap
          rw [List.length_erase_of_mem hmem]
          show ((s.buffers.keys.length - 1 + 1 : ℕ) : ℤ) ≤ s.maxBuffers
          omega
  -- the buffer is complete, and what it held before leaves the store with it
  · refine h.shrink ?_ ?_ ?_ ?_
    · cases hlook : s.buffers.lookup id with
      | none =>
          have hsame : (s.buffers.erase id).entries = s.buffers.entries :=
            List.kerase_of_notMem_keys (AList.lookup_eq_none.mp hlook)
          rw [hbytes, hlook, h.totalBytes_eq, Table.total, Table.total, hsame]
          simp
      | some old =>
          rw [hbytes, hlook, h.totalBytes_eq, Table.total_erase _ hlook]
          simp only [Option.map_some, Option.getD_some]
          omega
    · intro k buf' hk
      rw [Table.lookup_erase_eq] at hk
      split at hk
      · cases hk
      · exact hk
    · rw [AList.keys_erase]
      exact (List.erase_sublist ..).length_le
    · have hold : 0 ≤ ((s.buffers.lookup id).map fun old => (old.totalBytes : ℤ)).getD 0 := by
        cases s.buffers.lookup id with
        | none => exact le_rfl
        | some old => exact Int.natCast_nonneg _
      omega

theorem Sound.addFragment (h : s.Sound) (now : ℤ) (fh : FragmentHeader) (payload : Bytes) :
    (s.addFragment now fh payload).1.Sound := by
  have hevicted := h.evictStale now fh.fragmentID
  have hbyte : fh.fragmentCount.toNat ≤ 255 := Nat.le_of_lt_succ fh.fragmentCount.toNat_lt
  have hfits : ∀ s : ReassemblyStore, ¬s.overflows payload →
      0 < s.maxBytes → s.totalBytes + payload.length ≤ s.maxBytes := by
    intro s hover hcap
    simp only [overflows, decide_eq_true_eq, not_and, not_lt] at hover
    exact hover hcap
  rw [ReassemblyStore.addFragment]
  split
  · exact h
  split
  · exact h
  dsimp only
  split
  · rename_i buf hlook
    split
    · exact hevicted
    rename_i hmatch
    split
    · rename_i hfree
      split
      · exact hevicted
      · rename_i hover
        refine hevicted.commit ?_ ?_ (fun hnone => ?_) (hfits _ hover)
        · rw [hlook]
          exact Int.natCast_add _ _
        · have hcount : buf.count = fh.fragmentCount.toNat := by
            by_contra hne
            exact hmatch (.inl hne)
          exact hcount.trans_le hbyte
        · rw [hlook] at hnone
          cases hnone
    · exact hevicted
  · rename_i hlook
    split
    · exact hevicted
    rename_i hroom
    split
    · exact hevicted
    · rename_i hover
      refine hevicted.commit ?_ hbyte (fun _ => by simpa using hroom) (hfits _ hover)
      rw [hlook]
      rfl

theorem Sound.apply (h : s.Sound) (call : Call) : (call.apply s).Sound := by
  cases call with
  | addFragment now fh payload => exact h.addFragment now fh payload
  | cleanup now timeout => exact h.cleanup now timeout
  | reset => exact sound_reset s

def limits (s : ReassemblyStore) : ℤ × ℤ × ℤ := (s.fragmentTimeout, s.maxBuffers, s.maxBytes)

section Frame

variable (s)

@[simp]
theorem evictStale_limits (now : ℤ) (id : UInt16) : (s.evictStale now id).limits = s.limits := by
  rw [ReassemblyStore.evictStale]
  split
  · rfl
  · split <;> rfl

@[simp]
theorem commit_limits (id : UInt16) (n : ℕ) (buf : ReassemblyBuffer) :
    (s.commit id n buf).1.limits = s.limits := by
  rw [ReassemblyStore.commit]
  split <;> rfl

@[simp]
theorem addFragment_limits (now : ℤ) (fh : FragmentHeader) (payload : Bytes) :
    (s.addFragment now fh payload).1.limits = s.limits := by
  rcases s.addFragment_cases now fh payload with ⟨e, heq⟩ | heq | ⟨buf, heq⟩
  · rw [heq]
  · rw [heq, evictStale_limits]
  · rw [heq, commit_limits, evictStale_limits]

/-- No call changes the settings. -/
theorem apply_limits (call : Call) : (call.apply s).limits = s.limits := by
  cases call with
  | addFragment now fh payload => exact s.addFragment_limits now fh payload
  | cleanup now timeout => rfl
  | reset => rfl

end Frame

theorem Sound.foldl (h : s.Sound) (calls : List Call) :
    (calls.foldl Call.apply s).Sound ∧ (calls.foldl Call.apply s).limits = s.limits := by
  induction calls generalizing s with
  | nil => exact ⟨h, rfl⟩
  | cons call calls ih =>
      obtain ⟨hsound, hlimits⟩ := ih (h.apply call)
      exact ⟨hsound, hlimits.trans (s.apply_limits call)⟩

/-- After any calls the accounts are right and the configured caps are kept, and
a further `addFragment` that reports an error changes nothing. -/
theorem store_invariant (fragmentTimeout maxBuffers maxBytes : ℤ) (calls : List Call) :
    let s := calls.foldl Call.apply (init fragmentTimeout maxBuffers maxBytes)
    s.totalBytes = s.buffers.total (fun buf => buf.totalBytes) ∧
    (∀ id buf, s.buffers.lookup id = some buf → buf.Partial) ∧
    (0 < maxBuffers → (s.buffers.keys.length : ℤ) ≤ maxBuffers) ∧
    (0 < maxBytes → s.totalBytes ≤ maxBytes) ∧
    ∀ now fh payload e, (s.addFragment now fh payload).2 = .error e →
      (s.addFragment now fh payload).1 = s := by
  intro s
  obtain ⟨hsound, hlimits⟩ := (sound_init fragmentTimeout maxBuffers maxBytes).foldl calls
  have hbuffers : s.maxBuffers = maxBuffers := congrArg (·.2.1) hlimits
  have hbytes : s.maxBytes = maxBytes := congrArg (·.2.2) hlimits
  refine ⟨hsound.totalBytes_eq, hsound.buffer_partial, ?_, ?_, ?_⟩
  · intro hcap
    exact (hsound.buffers_le (by rw [hbuffers]; exact hcap)).trans_eq hbuffers
  · intro hcap
    exact (hsound.bytes_le (by rw [hbytes]; exact hcap)).trans_eq hbytes
  · intro now fh payload e herr
    exact addFragment_error herr

end ReassemblyStore

end Fastwire
