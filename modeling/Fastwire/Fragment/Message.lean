/-
# What the store holds of a message

The specification of `addFragment` for the fragments of one message: as long as
the store admits them, the buffer under the message's identifier holds exactly
the chunks that were added, in any order, and the last missing one returns the
whole message. Other identifiers are never touched.
-/

import Fastwire.Fragment.Reassembly

namespace Fastwire

open Lib

namespace ReassemblyBuffer

/-- The buffer holds those chunks of a message whose index is in `got`. -/
structure Holds (buf : ReassemblyBuffer) (chunks : List Bytes) (flags : UInt8)
    (got : Set ℕ) : Prop where
  count_eq : buf.count = chunks.length
  flags_eq : buf.flags = flags
  present : ∀ i c, chunks[i]? = some c → i ∈ got → buf.fragments[i]? = some (some c)
  absent : ∀ i < chunks.length, i ∉ got → buf.fragments[i]? = some none

variable {buf : ReassemblyBuffer} {chunks : List Bytes} {flags : UInt8} {got : Set ℕ}

theorem holds_empty (chunks : List Bytes) (flags : UInt8) (now : ℤ) :
    (empty chunks.length flags now).Holds chunks flags ∅ where
  count_eq := rfl
  flags_eq := rfl
  present _ _ _ h := absurd h (Set.notMem_empty _)
  absent _ hi _ := empty_free hi flags now

/-- Storing a missing chunk. -/
theorem Holds.put (h : buf.Holds chunks flags got) {i : ℕ} {c : Bytes}
    (hc : chunks[i]? = some c) (hfree : buf.fragments[i]? = some none) :
    (buf.put i c hfree).Holds chunks flags (insert i got) where
  count_eq := h.count_eq
  flags_eq := h.flags_eq
  present k c' hk hmem := by
    simp only [ReassemblyBuffer.put, List.getElem?_set]
    by_cases heq : i = k
    · subst heq
      have hlt : i < buf.fragments.length := (List.getElem?_eq_some_iff.mp hfree).1
      rw [hc, Option.some.injEq] at hk
      simp [hlt, hk]
    · rw [if_neg heq]
      rcases hmem with hki | hmem
      · exact absurd hki.symm heq
      · exact h.present k c' hk hmem
  absent k hk hmem := by
    rw [Set.mem_insert_iff, not_or] at hmem
    simp only [ReassemblyBuffer.put, List.getElem?_set, if_neg (Ne.symm hmem.1)]
    exact h.absent k hk hmem.2

/-- The message is incomplete as long as some chunk is missing. -/
theorem Holds.received_lt_iff (h : buf.Holds chunks flags got) :
    buf.received < buf.count ↔ ∃ i < chunks.length, i ∉ got := by
  have hlen : buf.fragments.length = chunks.length := by rw [buf.length_eq, h.count_eq]
  have hle : buf.received ≤ buf.fragments.length := by
    rw [buf.received_eq]
    exact List.countP_le_length
  have hall : buf.received = buf.fragments.length ↔ ∀ f ∈ buf.fragments, f.isSome = true := by
    rw [buf.received_eq, List.countP_eq_length]
  constructor
  · intro hlt
    by_contra hnone
    rw [not_exists] at hnone
    have hfull : ∀ f ∈ buf.fragments, f.isSome = true := by
      intro f hf
      obtain ⟨i, hi, rfl⟩ := List.mem_iff_getElem.mp hf
      have hgot : i ∈ got := by
        by_contra hmissing
        exact hnone i ⟨hlen ▸ hi, hmissing⟩
      have hpres := h.present i chunks[i] (by simp) hgot
      rw [List.getElem?_eq_getElem hi, Option.some.injEq] at hpres
      simp [hpres]
    rw [← hall, hlen, ← h.count_eq] at hfull
    omega
  · rintro ⟨i, hi, hmissing⟩
    have habs := h.absent i hi hmissing
    have hnot : ¬ ∀ f ∈ buf.fragments, f.isSome = true := by
      intro hfull
      have := hfull none (List.mem_of_getElem? habs)
      cases this
    rw [← hall] at hnot
    rw [h.count_eq, ← hlen]
    omega

/-- A complete buffer assembles to the message. -/
theorem Holds.assemble (h : buf.Holds chunks flags got) (hall : ∀ i < chunks.length, i ∈ got) :
    buf.assemble = chunks.flatten := by
  have hfrag : buf.fragments = chunks.map some := by
    apply List.ext_getElem?
    intro i
    by_cases hi : i < chunks.length
    · rw [h.present i chunks[i] (by simp) (hall i hi)]
      simp [hi]
    · have hlen : buf.fragments.length = chunks.length := by rw [buf.length_eq, h.count_eq]
      rw [List.getElem?_eq_none (by omega), List.getElem?_eq_none (by simp; omega)]
  rw [assemble_eq, joinChunks, hfrag, List.map_map]
  congr 1
  exact List.map_id' chunks

end ReassemblyBuffer

namespace ReassemblyStore

/-- The store is collecting a message under an identifier: it holds the chunks
in `got`, which are none if it has no buffer. -/
def Collects (s : ReassemblyStore) (id : UInt16) (chunks : List Bytes) (flags : UInt8)
    (got : Set ℕ) : Prop :=
  match s.buffers.lookup id with
  | none => got = ∅
  | some buf => buf.Holds chunks flags got

/-- Nothing discards the fragment: a buffer under its identifier is not stale,
and neither cap is hit. -/
structure Admits (s : ReassemblyStore) (now : ℤ) (id : UInt16) (payload : Bytes) : Prop where
  fresh : ∀ buf, s.buffers.lookup id = some buf → s.stale now buf = false
  room : s.buffers.lookup id = none → s.full = false
  fits : s.overflows payload = false

variable {s : ReassemblyStore} {now : ℤ}

theorem evictStale_eq {id : UInt16}
    (hfresh : ∀ buf, s.buffers.lookup id = some buf → s.stale now buf = false) :
    s.evictStale now id = s := by
  rw [evictStale]
  split
  · rfl
  · rename_i buf hbuf
    rw [hfresh buf hbuf]
    rfl

theorem evictStale_evictStale (id : UInt16) :
    (s.evictStale now id).evictStale now id = s.evictStale now id := by
  by_cases hfresh : ∀ buf, s.buffers.lookup id = some buf → s.stale now buf = false
  · rw [evictStale_eq hfresh, evictStale_eq hfresh]
  · push Not at hfresh
    obtain ⟨buf, hbuf, hstale⟩ := hfresh
    have hgone : (s.evictStale now id).buffers.lookup id = none := by
      simp [evictStale, hbuf, hstale]
    exact evictStale_eq fun buf' hbuf' => by
      rw [hgone] at hbuf'
      cases hbuf'

/-- A buffer that is found after the eviction was not evicted. -/
theorem evictStale_eq_of_lookup {id : UInt16} {buf : ReassemblyBuffer}
    (hfound : (s.evictStale now id).buffers.lookup id = some buf) : s.evictStale now id = s := by
  simp only [evictStale] at hfound ⊢
  split at hfound
  · rfl
  · split at hfound
    · rw [AList.lookup_erase] at hfound
      cases hfound
    · rename_i hfresh
      exact if_neg hfresh

theorem fresh_of_evictStale {id : UInt16} {buf : ReassemblyBuffer}
    (hfound : (s.evictStale now id).buffers.lookup id = some buf) : s.stale now buf = false := by
  have hsame := evictStale_eq_of_lookup hfound
  rw [hsame] at hfound
  by_contra hnot
  have hstale : s.stale now buf = true := by simpa using hnot
  have hgone : (s.evictStale now id).buffers.lookup id = none := by
    simp [evictStale, hfound, hstale]
  rw [hsame, hfound] at hgone
  cases hgone

theorem lookup_evictStale_ne {id k : UInt16} (hne : k ≠ id) :
    (s.evictStale now id).buffers.lookup k = s.buffers.lookup k := by
  rw [evictStale]
  split
  · rfl
  · split
    · exact AList.lookup_erase_ne hne
    · rfl

theorem lookup_commit_ne {id k : UInt16} (hne : k ≠ id) (n : ℕ) (buf : ReassemblyBuffer) :
    (s.commit id n buf).1.buffers.lookup k = s.buffers.lookup k := by
  rw [commit]
  split
  · exact AList.lookup_insert_ne hne
  · exact AList.lookup_erase_ne hne

/-- A fragment is refused with an error, or dropped or stored after the stale buffer under
its identifier has been evicted. -/
theorem addFragment_cases (s : ReassemblyStore) (now : ℤ) (fh : FragmentHeader)
    (payload : Bytes) :
    (∃ e, s.addFragment now fh payload = (s, .error e)) ∨
      s.addFragment now fh payload = (s.evictStale now fh.fragmentID, .ok none) ∨
      ∃ buf, s.addFragment now fh payload =
        (((s.evictStale now fh.fragmentID).commit fh.fragmentID payload.length buf).1,
          .ok ((s.evictStale now fh.fragmentID).commit fh.fragmentID payload.length buf).2) := by
  rw [addFragment]
  dsimp only
  split
  · exact .inl ⟨_, rfl⟩
  split
  · exact .inl ⟨_, rfl⟩
  split
  · rename_i hfound
    split
    · -- the buffer found is not a stale one, so nothing was evicted
      rw [evictStale_eq_of_lookup hfound]
      exact .inl ⟨_, rfl⟩
    split
    · split
      · exact .inr (.inl rfl)
      · exact .inr (.inr ⟨_, rfl⟩)
    · exact .inr (.inl rfl)
  · split
    · exact .inr (.inl rfl)
    split
    · exact .inr (.inl rfl)
    · exact .inr (.inr ⟨_, rfl⟩)

/-- An error leaves the store as it was. -/
theorem addFragment_error {fh : FragmentHeader} {payload : Bytes} {e : Err}
    (herr : (s.addFragment now fh payload).2 = .error e) :
    (s.addFragment now fh payload).1 = s := by
  rcases s.addFragment_cases now fh payload with ⟨e', heq⟩ | heq | ⟨buf, heq⟩
  · rw [heq]
  · rw [heq] at herr
    cases herr
  · rw [heq] at herr
    cases herr

/-- Whatever a fragment does, it does under its own identifier. -/
theorem lookup_addFragment_ne (s : ReassemblyStore) (now : ℤ) (fh : FragmentHeader)
    (payload : Bytes) {k : UInt16} (hne : k ≠ fh.fragmentID) :
    (s.addFragment now fh payload).1.buffers.lookup k = s.buffers.lookup k := by
  have hframe : (s.evictStale now fh.fragmentID).buffers.lookup k = s.buffers.lookup k :=
    lookup_evictStale_ne hne
  rcases s.addFragment_cases now fh payload with ⟨e, heq⟩ | heq | ⟨buf, heq⟩
  · rw [heq]
  · rw [heq, hframe]
  · rw [heq, lookup_commit_ne hne, hframe]

/-! ## Collecting a message -/

/-- The two numbers in a header fit their bytes. -/
theorem toNat_header {i count : ℕ} (hi : i < count) (hlen : count ≤ maxFragments) :
    (UInt8.ofNat i).toNat = i ∧ (UInt8.ofNat count).toNat = count ∧ UInt8.ofNat count ≠ 0 := by
  simp only [maxFragments] at hlen
  have hcount : (UInt8.ofNat count).toNat = count := by
    rw [UInt8.toNat_ofNat']
    omega
  refine ⟨by rw [UInt8.toNat_ofNat']; omega, hcount, ?_⟩
  intro hzero
  rw [hzero, UInt8.toNat_zero] at hcount
  omega

/-- Adding a chunk starts with the eviction. -/
theorem addFragment_evictStale {id : UInt16} {i count : ℕ} {flags : UInt8} (hi : i < count)
    (hlen : count ≤ maxFragments) (c : Bytes) :
    (s.evictStale now id).addFragment now ⟨id, UInt8.ofNat i, UInt8.ofNat count, flags⟩ c =
      s.addFragment now ⟨id, UInt8.ofNat i, UInt8.ofNat count, flags⟩ c := by
  obtain ⟨hindex, hcount, hpos⟩ := toNat_header hi hlen
  simp only [addFragment, hindex, hcount, hpos, ↓reduceIte, ge_iff_le, Nat.not_le.mpr hi,
    ↓reduceDIte, evictStale_evictStale]

/-- Adding a chunk that is still missing to a store that admits it: the chunk
is held from now on, and if it was the last one the message comes out. -/
theorem addFragment_collects {id : UInt16} {chunks : List Bytes} {flags : UInt8} {got : Set ℕ}
    {i : ℕ} {c : Bytes} (h : s.Collects id chunks flags got)
    (hadm : s.Admits now id c) (hc : chunks[i]? = some c) (hnew : i ∉ got)
    (hlen : chunks.length ≤ maxFragments) :
    ∃ s' res, s.addFragment now ⟨id, UInt8.ofNat i, UInt8.ofNat chunks.length, flags⟩ c =
        (s', .ok res) ∧
      ((∃ k < chunks.length, k ∉ insert i got) ∧ res = none ∧
          s'.Collects id chunks flags (insert i got) ∨
        (∀ k < chunks.length, k ∈ insert i got) ∧ res = some chunks.flatten ∧
          s'.buffers.lookup id = none) := by
  have hi : i < chunks.length := (List.getElem?_eq_some_iff.mp hc).1
  obtain ⟨hindex, hcount, hpos⟩ := toNat_header hi hlen
  -- both ways of adding end in a commit of a buffer that holds one chunk more
  have hcommit : ∀ buf : ReassemblyBuffer, buf.Holds chunks flags (insert i got) →
      ∃ s' res, s.commit id c.length buf = (s', res) ∧
      ((∃ k < chunks.length, k ∉ insert i got) ∧ res = none ∧
          s'.Collects id chunks flags (insert i got) ∨
        (∀ k < chunks.length, k ∈ insert i got) ∧ res = some chunks.flatten ∧
          s'.buffers.lookup id = none) := by
    intro buf hbuf
    by_cases hmore : buf.received < buf.count
    · refine ⟨_, _, by rw [commit, if_pos hmore], .inl ⟨hbuf.received_lt_iff.mp hmore, rfl, ?_⟩⟩
      simpa [Collects] using hbuf
    · have hall : ∀ k < chunks.length, k ∈ insert i got := by
        intro k hk
        by_contra hmissing
        exact hmore (hbuf.received_lt_iff.mpr ⟨k, hk, hmissing⟩)
      refine ⟨_, _, by rw [commit, if_neg hmore], .inr ⟨hall, ?_, ?_⟩⟩
      · rw [hbuf.assemble hall]
      · exact AList.lookup_erase _ _
  simp only [addFragment, hindex, hcount, hpos, ↓reduceIte, ge_iff_le, Nat.not_le.mpr hi,
    ↓reduceDIte, evictStale_eq hadm.fresh, hadm.fits]
  cases hlook : s.buffers.lookup id with
  | none =>
      have hempty : got = ∅ := by simpa [Collects, hlook] using h
      have hput := (ReassemblyBuffer.holds_empty chunks flags now).put hc
        (ReassemblyBuffer.empty_free hi flags now)
      rw [← hempty] at hput
      obtain ⟨s', res, heq, hres⟩ := hcommit _ hput
      refine ⟨s', res, ?_, hres⟩
      simp [hadm.room hlook, heq]
  | some buf =>
      have hbuf : buf.Holds chunks flags got := by simpa [Collects, hlook] using h
      have hfree := hbuf.absent i hi hnew
      obtain ⟨s', res, heq, hres⟩ := hcommit _ (hbuf.put hc hfree)
      refine ⟨s', res, ?_, hres⟩
      simp [hbuf.count_eq, hbuf.flags_eq, hfree, heq]

/-- A chunk that is held already is skipped. -/
theorem addFragment_held {id : UInt16} {chunks : List Bytes} {flags : UInt8} {got : Set ℕ}
    {i : ℕ} {c : Bytes} (h : s.Collects id chunks flags got)
    (hfresh : ∀ buf, s.buffers.lookup id = some buf → s.stale now buf = false)
    (hc : chunks[i]? = some c) (hold : i ∈ got) (hlen : chunks.length ≤ maxFragments) :
    s.addFragment now ⟨id, UInt8.ofNat i, UInt8.ofNat chunks.length, flags⟩ c = (s, .ok none) := by
  have hi : i < chunks.length := (List.getElem?_eq_some_iff.mp hc).1
  obtain ⟨hindex, hcount, hpos⟩ := toNat_header hi hlen
  simp only [addFragment, hindex, hcount, hpos, ↓reduceIte, ge_iff_le, Nat.not_le.mpr hi,
    ↓reduceDIte, evictStale_eq hfresh]
  cases hlook : s.buffers.lookup id with
  | none =>
      have hempty : got = ∅ := by simpa [Collects, hlook] using h
      exact absurd hold (hempty ▸ Set.notMem_empty i)
  | some buf =>
      have hbuf : buf.Holds chunks flags got := by simpa [Collects, hlook] using h
      simp [hbuf.count_eq, hbuf.flags_eq, hbuf.present i c hc hold]

/-! ## Timeouts and caps -/

/-- A missing chunk that hits a cap is dropped. -/
theorem addFragment_refused {id : UInt16} {chunks : List Bytes} {flags : UInt8} {got : Set ℕ}
    {i : ℕ} {c : Bytes} (h : s.Collects id chunks flags got)
    (hfresh : ∀ buf, s.buffers.lookup id = some buf → s.stale now buf = false)
    (hrefused : ¬ s.Admits now id c) (hc : chunks[i]? = some c) (hnew : i ∉ got)
    (hlen : chunks.length ≤ maxFragments) :
    s.addFragment now ⟨id, UInt8.ofNat i, UInt8.ofNat chunks.length, flags⟩ c = (s, .ok none) := by
  have hi : i < chunks.length := (List.getElem?_eq_some_iff.mp hc).1
  obtain ⟨hindex, hcount, hpos⟩ := toNat_header hi hlen
  simp only [addFragment, hindex, hcount, hpos, ↓reduceIte, ge_iff_le, Nat.not_le.mpr hi,
    ↓reduceDIte, evictStale_eq hfresh]
  have hcap : s.buffers.lookup id = none ∧ s.full = true ∨ s.overflows c = true := by
    by_contra hnone
    rw [not_or, not_and, Bool.not_eq_true, Bool.not_eq_true] at hnone
    exact hrefused ⟨hfresh, hnone.1, hnone.2⟩
  cases hlook : s.buffers.lookup id with
  | none =>
      rcases hcap with ⟨-, hfull⟩ | hover
      · simp [hfull]
      · simp [hover]
  | some buf =>
      have hbuf : buf.Holds chunks flags got := by simpa [Collects, hlook] using h
      have hover : s.overflows c = true := by simpa [hlook] using hcap
      simp [hbuf.count_eq, hbuf.flags_eq, hbuf.absent i hi hnew, hover]

/-- **A missing chunk arrives**, and a live buffer under its identifier has chunks of its
message. Whatever is refused, the store never holds more than what arrived, and what
comes out is the message, is complete and leaves the store. -/
theorem addFragment_missing {id : UInt16} {chunks : List Bytes} {flags : UInt8} {got : Set ℕ}
    {i : ℕ} {c : Bytes} (h : (s.evictStale now id).Collects id chunks flags got)
    (hc : chunks[i]? = some c) (hnew : i ∉ got) (hlen : chunks.length ≤ maxFragments) :
    ∃ s' res, s.addFragment now ⟨id, UInt8.ofNat i, UInt8.ofNat chunks.length, flags⟩ c =
        (s', .ok res) ∧
      (∃ got' ⊆ insert i got, s'.Collects id chunks flags got') ∧
      (res = none ∨ res = some chunks.flatten ∧ (∀ k < chunks.length, k ∈ insert i got) ∧
        s'.buffers.lookup id = none) := by
  have hfresh : ∀ buf, (s.evictStale now id).buffers.lookup id = some buf →
      (s.evictStale now id).stale now buf = false := by
    intro buf hbuf
    rw [evictStale_eq_of_lookup hbuf]
    exact fresh_of_evictStale hbuf
  rw [← addFragment_evictStale (List.getElem?_eq_some_iff.mp hc).1 hlen]
  by_cases hadm : (s.evictStale now id).Admits now id c
  · obtain ⟨s', res, hok, hres⟩ := addFragment_collects h hadm hc hnew hlen
    refine ⟨s', res, hok, ?_⟩
    rcases hres with ⟨-, rfl, hmore⟩ | ⟨hall, rfl, hgone⟩
    · exact ⟨⟨_, Set.Subset.rfl, hmore⟩, .inl rfl⟩
    · exact ⟨⟨∅, Set.empty_subset _, by simp [Collects, hgone]⟩, .inr ⟨rfl, hall, hgone⟩⟩
  · exact ⟨_, none, addFragment_refused h hfresh hadm hc hnew hlen,
      ⟨got, Set.subset_insert i got, h⟩, .inl rfl⟩

end ReassemblyStore

end Fastwire
