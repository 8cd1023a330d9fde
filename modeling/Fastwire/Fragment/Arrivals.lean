/-
# Splitting and putting together again

The fragments of a message reach the store in any order, some of them several
times, between fragments of other messages. As long as the store keeps what it
is given, the last one that is missing brings the message back, and no other
does.
-/

import Fastwire.Fragment.Store

namespace Fastwire

open Lib

/-! ## Splitting -/

theorem fragmentCount_le_iff (payload : Bytes) :
    fragmentCount payload ≤ maxFragments ↔ payload.length ≤ maxFragments * maxFragmentPayload := by
  have hsize : maxFragmentPayload = 1155 := rfl
  have hmax : maxFragments = 255 := rfl
  rw [fragmentCount, hsize, hmax]
  split <;> omega

theorem chunk_length_le (payload : Bytes) (i : ℕ) :
    (chunk payload i).length ≤ maxFragmentPayload := by
  rw [chunk, List.length_take]
  exact Nat.min_le_left _ _

theorem splitMessage_error_iff (payload : Bytes) (fragmentID : UInt16) (flags : UInt8) :
    (∃ e, splitMessage payload fragmentID flags = .error e) ↔
      payload.length > maxFragments * maxFragmentPayload := by
  have hcount := fragmentCount_le_iff payload
  by_cases hle : fragmentCount payload ≤ maxFragments
  · obtain ⟨fragments, hok⟩ := splitMessage_of_le hle fragmentID flags
    simp only [hok, reduceCtorEq, exists_false, false_iff]
    exact Nat.not_lt.mpr (hcount.mp hle)
  · have htoo : splitMessage payload fragmentID flags = .error .messageTooLarge :=
      if_pos (Nat.not_le.mp hle)
    simp only [htoo, Except.error.injEq, exists_eq', true_iff]
    exact Nat.not_le.mp (hcount.not.mp hle)

/-! ## Arrivals -/

/-- A fragment that arrives, taken apart, and the time when it is added. -/
structure Arrival where
  now : ℤ
  header : FragmentHeader
  payload : Bytes

namespace Arrival

def Carries (a : Arrival) (frag : Bytes) : Prop :=
  unmarshalFragmentHeader frag = .ok (a.header, fragmentHeaderSize) ∧
    frag.drop fragmentHeaderSize = a.payload

def add (a : Arrival) (s : ReassemblyStore) : ReassemblyStore × Except Err (Option Bytes) :=
  s.addFragment a.now a.header a.payload

end Arrival

namespace ReassemblyStore

def after (s : ReassemblyStore) (arrivals : List Arrival) : ReassemblyStore :=
  arrivals.foldl (fun s a => (a.add s).1) s

/-- The messages that the arrivals complete under an identifier. -/
def completions (id : UInt16) : ReassemblyStore → List Arrival → List Bytes
  | _, [] => []
  | s, a :: rest =>
      let rest := completions id (a.add s).1 rest
      match (a.add s).2 with
      | .ok (some message) => if a.header.fragmentID = id then message :: rest else rest
      | _ => rest

/-- What arrives under the identifier are the fragments of one message, each of
them before the message is complete, and the store neither holds a stale buffer
nor hits a cap when it comes. -/
structure Undisturbed (s : ReassemblyStore) (id : UInt16) (fragments : List Bytes)
    (arrivals : List Arrival) : Prop where
  genuine : ∀ a ∈ arrivals, a.header.fragmentID = id → ∃ frag ∈ fragments, a.Carries frag
  admitted : ∀ before a behind, arrivals = before ++ a :: behind → a.header.fragmentID = id →
    (s.after before).Admits a.now id a.payload
  incomplete : ∀ before a behind, arrivals = before ++ a :: behind → a.header.fragmentID = id →
    ∃ frag ∈ fragments, ∀ b ∈ before, ¬b.Carries frag

@[simp]
theorem after_concat (s : ReassemblyStore) (arrivals : List Arrival) (a : Arrival) :
    s.after (arrivals ++ [a]) = (a.add (s.after arrivals)).1 := by
  simp [after]

theorem Collects.congr {s s' : ReassemblyStore} {id : UInt16} {chunks : List Bytes}
    {flags : UInt8} {got : Set ℕ} (h : s.Collects id chunks flags got)
    (hlook : s'.buffers.lookup id = s.buffers.lookup id) : s'.Collects id chunks flags got := by
  rw [Collects, hlook]
  exact h

/-- A chunk arrives, and once a stale buffer is out of its way the store admits
it. Either it was the last one missing, and the message comes out, or nothing
does and the chunk is held. -/
theorem collects_addFragment {s : ReassemblyStore} {now : ℤ} {id : UInt16}
    {chunks : List Bytes} {flags : UInt8} {got : Set ℕ} {i : ℕ} {c : Bytes}
    (h : (s.evictStale now id).Collects id chunks flags got)
    (hadm : (s.evictStale now id).Admits now id c) (hc : chunks[i]? = some c)
    (hlen : chunks.length ≤ maxFragments) :
    let call := s.addFragment now ⟨id, UInt8.ofNat i, UInt8.ofNat chunks.length, flags⟩ c
    (((∃ k < chunks.length, k ∉ got) → ∃ k < chunks.length, k ∉ insert i got) ∧
        call.2 = .ok none ∧ call.1.Collects id chunks flags (insert i got)) ∨
      ((∀ k < chunks.length, k ∈ insert i got) ∧ call.2 = .ok (some chunks.flatten) ∧
        call.1.buffers.lookup id = none) := by
  intro call
  have hevict : (s.evictStale now id).addFragment now _ c = call :=
    addFragment_evictStale (List.getElem?_eq_some_iff.mp hc).1 hlen c
  by_cases hold : i ∈ got
  · have hok := addFragment_held h hadm.fresh hc hold hlen
    have hcall : call = (s.evictStale now id, .ok none) := hevict.symm.trans hok
    rw [hcall, Set.insert_eq_of_mem hold]
    exact .inl ⟨fun hopen => hopen, rfl, h⟩
  · obtain ⟨s', assembled, hok, hres⟩ := addFragment_collects h hadm hc hold hlen
    have hcall : call = (s', .ok assembled) := hevict.symm.trans hok
    rw [hcall]
    rcases hres with ⟨hmissing, rfl, hcollects⟩ | ⟨hall, rfl, hgone⟩
    · exact .inl ⟨fun _ => hmissing, rfl, hcollects⟩
    · exact .inr ⟨hall, rfl, hgone⟩

/-! ## One message -/

/-- The indices of the fragments that have arrived. -/
def arrived (fragments : List Bytes) (arrivals : List Arrival) : Set ℕ :=
  { i | ∃ frag, fragments[i]? = some frag ∧ ∃ a ∈ arrivals, a.Carries frag }

section

variable {s : ReassemblyStore} {payload : Bytes} {id : UInt16} {flags : UInt8}
  {fragments : List Bytes} {arrivals before : List Arrival} {a : Arrival}

theorem exists_missing_iff :
    (∃ frag ∈ fragments, ∀ b ∈ before, ¬b.Carries frag) ↔
      ∃ i < fragments.length, i ∉ arrived fragments before := by
  constructor
  · rintro ⟨frag, hmem, hnone⟩
    obtain ⟨i, hi, rfl⟩ := List.mem_iff_getElem.mp hmem
    refine ⟨i, hi, ?_⟩
    rintro ⟨frag, hfrag, b, hb, hcarries⟩
    rw [List.getElem?_eq_getElem hi, Option.some.injEq] at hfrag
    exact hnone b hb (hfrag ▸ hcarries)
  · rintro ⟨i, hi, hnone⟩
    refine ⟨fragments[i], List.getElem_mem hi, ?_⟩
    intro b hb hcarries
    exact hnone ⟨_, List.getElem?_eq_getElem hi, b, hb, hcarries⟩

/-- An arrival that is a fragment has its header and its chunk. -/
theorem carries_inv (hsplit : splitMessage payload id flags = .ok fragments) {i : ℕ} {frag : Bytes}
    (hfrag : fragments[i]? = some frag) (hcarries : a.Carries frag) :
    a.header = ⟨id, UInt8.ofNat i, UInt8.ofNat (chunks payload).length, flags⟩ ∧
      (chunks payload)[i]? = some a.payload := by
  obtain ⟨hparse, hchunk⟩ := splitMessage_fragment hsplit hfrag
  rw [hcarries.1, Except.ok.injEq, Prod.mk.injEq] at hparse
  exact ⟨hparse.1, hcarries.2 ▸ hchunk⟩

/-- An arrival is one fragment only. -/
theorem index_unique (hsplit : splitMessage payload id flags = .ok fragments) {i j : ℕ}
    {frag frag' : Bytes} (hi : fragments[i]? = some frag) (hj : fragments[j]? = some frag')
    (hcarries : a.Carries frag) (hcarries' : a.Carries frag') : i = j := by
  obtain ⟨hlength, hmax, -⟩ := splitMessage_ok hsplit
  have hlt : i < fragments.length := (List.getElem?_eq_some_iff.mp hi).1
  have hlt' : j < fragments.length := (List.getElem?_eq_some_iff.mp hj).1
  have hheader := (carries_inv hsplit hi hcarries).1.symm.trans (carries_inv hsplit hj hcarries').1
  have hindex : UInt8.ofNat i = UInt8.ofNat j := congrArg FragmentHeader.fragmentIndex hheader
  rw [← (toNat_header hlt (hlength ▸ hmax)).1, ← (toNat_header hlt' (hlength ▸ hmax)).1, hindex]

theorem arrived_concat (hsplit : splitMessage payload id flags = .ok fragments) {i : ℕ}
    {frag : Bytes} (hfrag : fragments[i]? = some frag) (hcarries : a.Carries frag) :
    arrived fragments (before ++ [a]) = insert i (arrived fragments before) := by
  ext j
  rw [Set.mem_insert_iff]
  constructor
  · rintro ⟨frag', hfrag', b, hb, hb'⟩
    rcases List.mem_append.mp hb with hb | hb
    · exact .inr ⟨frag', hfrag', b, hb, hb'⟩
    · rw [List.mem_singleton.mp hb] at hb'
      exact .inl (index_unique hsplit hfrag' hfrag hb' hcarries)
  · rintro (rfl | ⟨frag', hfrag', b, hb, hb'⟩)
    · exact ⟨frag, hfrag, a, List.mem_append_right _ (List.mem_singleton_self a), hcarries⟩
    · exact ⟨frag', hfrag', b, List.mem_append_left _ hb, hb'⟩

/-- What arrives under another identifier is no fragment of the message. -/
theorem arrived_concat_of_ne (hsplit : splitMessage payload id flags = .ok fragments)
    (hne : a.header.fragmentID ≠ id) :
    arrived fragments (before ++ [a]) = arrived fragments before := by
  ext j
  constructor
  · rintro ⟨frag, hfrag, b, hb, hcarries⟩
    rcases List.mem_append.mp hb with hb | hb
    · exact ⟨frag, hfrag, b, hb, hcarries⟩
    · rw [List.mem_singleton.mp hb] at hcarries
      exact absurd (congrArg FragmentHeader.fragmentID (carries_inv hsplit hfrag hcarries).1) hne
  · rintro ⟨frag, hfrag, b, hb, hcarries⟩
    exact ⟨frag, hfrag, b, List.mem_append_left _ hb, hcarries⟩

/-- One arrival of the message, in a store that holds what has arrived. -/
theorem Undisturbed.add (h : Undisturbed s id fragments arrivals)
    (hsplit : splitMessage payload id flags = .ok fragments) {behind : List Arrival}
    (harrivals : arrivals = before ++ a :: behind) (hid : a.header.fragmentID = id)
    (hcollects : (s.after before).Collects id (chunks payload) flags (arrived fragments before)) :
    ((∃ frag ∈ fragments, ∀ b ∈ before ++ [a], ¬b.Carries frag) ∧
        (a.add (s.after before)).2 = .ok none ∧
        (s.after (before ++ [a])).Collects id (chunks payload) flags
          (arrived fragments (before ++ [a]))) ∨
      ((¬∃ frag ∈ fragments, ∀ b ∈ before ++ [a], ¬b.Carries frag) ∧
        (a.add (s.after before)).2 = .ok (some payload)) := by
  have hmem : a ∈ arrivals := harrivals ▸ List.mem_append_right _ List.mem_cons_self
  obtain ⟨frag, hfrag, hcarries⟩ := h.genuine a hmem hid
  obtain ⟨i, hi⟩ := List.mem_iff_getElem?.mp hfrag
  obtain ⟨hheader, hchunk⟩ := carries_inv hsplit hi hcarries
  obtain ⟨hlength, hmax, -⟩ := splitMessage_ok hsplit
  have hcount : (chunks payload).length = fragments.length := by rw [chunks_length, hlength]
  have hopen := exists_missing_iff.mp (h.incomplete before a behind harrivals hid)
  rw [exists_missing_iff, arrived_concat hsplit hi hcarries, after_concat, ← hcount]
  rw [← hcount] at hopen
  have hadm := h.admitted before a behind harrivals hid
  have hevict := evictStale_eq hadm.fresh
  have hstep := collects_addFragment (hevict.symm ▸ hcollects) (hevict.symm ▸ hadm) hchunk
    ((chunks_length payload).trans_le hmax)
  rw [← hheader, flatten_chunks] at hstep
  rcases hstep with ⟨hmore, hrest⟩ | ⟨hall, hresult, -⟩
  · exact .inl ⟨hmore hopen, hrest⟩
  · refine .inr ⟨?_, hresult⟩
    rintro ⟨k, hk, hmissing⟩
    exact hmissing (hall k hk)

/-- As long as a fragment is missing the store holds those that have arrived. -/
theorem Undisturbed.collects (h : Undisturbed s id fragments arrivals)
    (hsplit : splitMessage payload id flags = .ok fragments) (hfree : s.buffers.lookup id = none)
    {behind : List Arrival} (harrivals : arrivals = before ++ behind)
    (hopen : ∃ frag ∈ fragments, ∀ b ∈ before, ¬b.Carries frag) :
    (s.after before).Collects id (chunks payload) flags (arrived fragments before) := by
  -- along the arrivals; a fragment that is missing now was missing before
  induction before using List.reverseRecOn generalizing behind with
  | nil =>
      have hnone : arrived fragments [] = ∅ := by simp [arrived]
      rw [hnone, Collects, after, List.foldl_nil, hfree]
  | append_singleton before a ih =>
      rw [List.append_assoc, List.singleton_append] at harrivals
      obtain ⟨frag, hfrag, hmissing⟩ := hopen
      have hbefore : ∃ frag ∈ fragments, ∀ b ∈ before, ¬b.Carries frag :=
        ⟨frag, hfrag, fun b hb => hmissing b (List.mem_append_left _ hb)⟩
      have hcollects := ih harrivals hbefore
      by_cases hid : a.header.fragmentID = id
      · rcases h.add hsplit harrivals hid hcollects with ⟨-, -, hmore⟩ | ⟨hall, -⟩
        · exact hmore
        · exact absurd ⟨frag, hfrag, hmissing⟩ hall
      · rw [arrived_concat_of_ne hsplit hid, after_concat]
        exact hcollects.congr (lookup_addFragment_ne _ _ _ _ (Ne.symm hid))

/-- The message comes out once if all of it arrives, and not at all otherwise. -/
theorem Undisturbed.completions_eq (h : Undisturbed s id fragments arrivals)
    (hsplit : splitMessage payload id flags = .ok fragments) (hfree : s.buffers.lookup id = none)
    {behind : List Arrival} (harrivals : arrivals = before ++ behind) :
    ((∃ frag ∈ fragments, ∀ b ∈ before, ¬b.Carries frag) →
        (∀ frag ∈ fragments, ∃ b ∈ arrivals, b.Carries frag) →
        completions id (s.after before) behind = [payload]) ∧
      (¬((∃ frag ∈ fragments, ∀ b ∈ before, ¬b.Carries frag) ∧
          ∀ frag ∈ fragments, ∃ b ∈ arrivals, b.Carries frag) →
        completions id (s.after before) behind = []) := by
  induction behind generalizing before with
  | nil =>
      rw [List.append_nil] at harrivals
      subst harrivals
      refine ⟨?_, fun _ => rfl⟩
      rintro ⟨frag, hfrag, hmissing⟩ hall
      obtain ⟨b, hb, hcarries⟩ := hall frag hfrag
      exact absurd hcarries (hmissing b hb)
  | cons a behind ih =>
      have hsplitAt : arrivals = (before ++ [a]) ++ behind := by
        rw [harrivals, List.append_assoc, List.singleton_append]
      have hrest := ih hsplitAt
      rw [after_concat] at hrest
      by_cases hid : a.header.fragmentID = id
      · have hopen := h.incomplete before a behind harrivals hid
        have hcollects := h.collects hsplit hfree harrivals hopen
        rcases h.add hsplit harrivals hid hcollects with ⟨hmore, hresult, -⟩ | ⟨hall, hresult⟩
        · have hskip : completions id (s.after before) (a :: behind) =
              completions id (a.add (s.after before)).1 behind := by
            rw [completions, hresult]
          rw [hskip]
          exact ⟨fun _ => hrest.1 hmore, fun hnot => hrest.2 fun hboth => hnot ⟨hopen, hboth.2⟩⟩
        · have hcomplete : completions id (s.after before) (a :: behind) = [payload] := by
            rw [completions, hresult]
            simp only [hid, ↓reduceIte]
            rw [hrest.2 fun hboth => hall hboth.1]
          refine ⟨fun _ _ => hcomplete, fun hnot => absurd ⟨hopen, ?_⟩ hnot⟩
          intro frag hfrag
          by_contra hnone
          push Not at hnone
          refine hall ⟨frag, hfrag, fun b hb => hnone b ?_⟩
          rw [harrivals, List.append_cons]
          exact List.mem_append_left _ hb
      · have hskip : completions id (s.after before) (a :: behind) =
            completions id (a.add (s.after before)).1 behind := by
          rw [completions]
          simp only [hid, ↓reduceIte]
          split <;> rfl
        have hsame : (∃ frag ∈ fragments, ∀ b ∈ before ++ [a], ¬b.Carries frag) ↔
            ∃ frag ∈ fragments, ∀ b ∈ before, ¬b.Carries frag := by
          rw [exists_missing_iff, exists_missing_iff, arrived_concat_of_ne hsplit hid]
        rw [hsame] at hrest
        rw [hskip]
        exact hrest

end

/-- `splitMessage` fails for more than 255 full fragments only, and every chunk
has at most 1155 bytes. In a store without the identifier every arrival of a
fragment returns without an error, and with the payload exactly if it is the
last one missing; so the message is completed once if all of it arrives. -/
theorem split_reassemble (payload : Bytes) (id : UInt16) (flags : UInt8) :
    ((∃ e, splitMessage payload id flags = .error e) ↔ payload.length > 255 * 1155) ∧
    ∀ fragments, splitMessage payload id flags = .ok fragments →
      (∀ frag ∈ fragments, (frag.drop fragmentHeaderSize).length ≤ 1155) ∧
      ∀ s arrivals, s.buffers.lookup id = none → Undisturbed s id fragments arrivals →
        (∀ before a behind, arrivals = before ++ a :: behind → a.header.fragmentID = id →
          ((∀ frag ∈ fragments, ∃ b ∈ before ++ [a], b.Carries frag) →
            (a.add (s.after before)).2 = .ok (some payload)) ∧
          ((∃ frag ∈ fragments, ∀ b ∈ before ++ [a], ¬b.Carries frag) →
            (a.add (s.after before)).2 = .ok none)) ∧
        ((∀ frag ∈ fragments, ∃ a ∈ arrivals, a.Carries frag) →
          completions id s arrivals = [payload]) ∧
        ((∃ frag ∈ fragments, ∀ a ∈ arrivals, ¬a.Carries frag) →
          completions id s arrivals = []) := by
  refine ⟨splitMessage_error_iff payload id flags, ?_⟩
  intro fragments hsplit
  obtain ⟨hlength, -, hget⟩ := splitMessage_ok hsplit
  refine ⟨?_, ?_⟩
  · intro frag hfrag
    obtain ⟨i, hi⟩ := List.mem_iff_getElem?.mp hfrag
    rw [(hget i frag hi).2]
    exact chunk_length_le payload i
  intro s arrivals hfree h
  refine ⟨?_, ?_⟩
  · intro before a behind harrivals hid
    have hopen := h.incomplete before a behind harrivals hid
    rcases h.add hsplit harrivals hid (h.collects hsplit hfree harrivals hopen) with
      ⟨hmore, hresult, -⟩ | ⟨hall, hresult⟩
    · refine ⟨fun hcomplete => ?_, fun _ => hresult⟩
      obtain ⟨frag, hfrag, hmissing⟩ := hmore
      obtain ⟨b, hb, hcarries⟩ := hcomplete frag hfrag
      exact absurd hcarries (hmissing b hb)
    · exact ⟨fun _ => hresult, fun hmore => absurd hmore hall⟩
  · have hpos : 0 < fragments.length := hlength ▸ fragmentCount_pos payload
    have hopen : ∃ frag ∈ fragments, ∀ b ∈ ([] : List Arrival), ¬b.Carries frag :=
      ⟨fragments[0], List.getElem_mem hpos, nofun⟩
    obtain ⟨hall, hnone⟩ := h.completions_eq hsplit hfree (List.nil_append arrivals).symm
    refine ⟨hall hopen, ?_⟩
    rintro ⟨frag, hfrag, hmissing⟩
    apply hnone
    rintro ⟨-, hcomplete⟩
    obtain ⟨b, hb, hcarries⟩ := hcomplete frag hfrag
    exact hmissing b hb hcarries

/-- A store without limits admits everything. -/
theorem admits_of_limits {s : ReassemblyStore} (h : s.limits ≤ (0, 0, 0)) (now : ℤ) (id : UInt16)
    (payload : Bytes) : s.Admits now id payload := by
  have htimeout : ¬s.fragmentTimeout > 0 := not_lt.mpr h.1
  have hbuffers : ¬s.maxBuffers > 0 := not_lt.mpr h.2.1
  have hbytes : ¬s.maxBytes > 0 := not_lt.mpr h.2.2
  exact ⟨fun buf _ => by simp [stale, htimeout], fun _ => by simp [full, hbuffers],
    by simp [overflows, hbytes]⟩

theorem after_limits (s : ReassemblyStore) (arrivals : List Arrival) :
    (s.after arrivals).limits = s.limits := by
  induction arrivals generalizing s with
  | nil => rfl
  | cons a arrivals ih =>
      exact (ih (a.add s).1).trans (s.addFragment_limits a.now a.header a.payload)

/-- The two fragments of a message of 1156 bytes, the second of them twice and
before the first, with a fragment of another message in between. -/
def twoFragments : List Bytes :=
  (splitMessage (List.replicate 1156 7) 1 0).toOption.getD []

def secondFirst : List Arrival :=
  [⟨0, ⟨1, 1, 2, 0⟩, [7]⟩, ⟨1, ⟨1, 1, 2, 0⟩, [7]⟩, ⟨2, ⟨2, 0, 2, 0⟩, [9]⟩,
    ⟨3, ⟨1, 0, 2, 0⟩, List.replicate 1155 7⟩]

theorem split_reassemble_second_first :
    splitMessage (List.replicate 1156 7) 1 0 = .ok twoFragments ∧
    Undisturbed (init 0 0 0) 1 twoFragments secondFirst ∧
    completions 1 (init 0 0 0) secondFirst = [List.replicate 1156 7] := by
  have hsplit : splitMessage (List.replicate 1156 7) 1 0 = .ok twoFragments := by decide +kernel
  have hcarries : ∀ frag ∈ twoFragments, ∃ a ∈ secondFirst, a.Carries frag := by
    unfold Arrival.Carries
    decide +kernel
  have hundisturbed : Undisturbed (init 0 0 0) 1 twoFragments secondFirst := by
    refine ⟨?_, ?_, ?_⟩
    · unfold Arrival.Carries
      decide +kernel
    · intro before a behind _ _
      exact admits_of_limits (after_limits _ _).le a.now 1 a.payload
    · intro before a behind harrivals _
      have hfirst : ∃ frag ∈ twoFragments, ∀ b ∈ secondFirst.dropLast, ¬b.Carries frag := by
        unfold Arrival.Carries
        decide +kernel
      obtain ⟨frag, hfrag, hmissing⟩ := hfirst
      refine ⟨frag, hfrag, fun b hb => hmissing b ?_⟩
      rw [harrivals, List.dropLast_append_cons]
      exact List.mem_append_left _ hb
  refine ⟨hsplit, hundisturbed, ?_⟩
  have hresult := (split_reassemble (List.replicate 1156 7) 1 0).2 twoFragments hsplit
  exact (hresult.2 (init 0 0 0) secondFirst rfl hundisturbed).2.1 hcarries

end ReassemblyStore

end Fastwire
