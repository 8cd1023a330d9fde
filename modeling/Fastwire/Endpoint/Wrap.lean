/-
# Identifiers that come back

A fragment identifier has 16 bits, so message number 65537 gets that of the first
one. What the first one has left behind in the store is told from the new
message by nothing but the number of fragments, the flags and its age.

Here a sender numbers any sequence of messages and the network brings their
fragments in any order, some of them never. As long as every fragment finds its
identifier free of other messages and room in the store, messages are not mixed
and not held up.
-/

import Fastwire.Endpoint.Basic
import Fastwire.Fragment.Arrivals
import Fastwire.Lib.Run

namespace Fastwire

open Lib

/-- A message that has taken an identifier. -/
structure Numbered where
  id : UInt16
  payload : Bytes
  flags : UInt8
  deriving DecidableEq, Repr

/-- A fragment that was added to the store, and what `addFragment` returned. -/
structure Added where
  message : ℕ
  index : ℕ
  now : ℤ
  result : Except Err (Option Bytes)

/-- A sender and the reassembly store of its peer. Messages are named by their
position. -/
structure Link where
  conn : Connection
  sent : List Numbered
  store : ReassemblyStore
  /-- Which message the buffer under an identifier was made for. This is a
  history variable: the store does not know. -/
  owner : UInt16 → Option ℕ
  log : List Added
  clock : ℤ

namespace Link

inductive Action
  /-- `sendFragmented` up to `splitMessage`. -/
  | send (payload : Bytes) (flags : UInt8)
  /-- A fragment of a message is added. -/
  | arrive (message index : ℕ) (now : ℤ)
  | cleanup (now : ℤ)

section

variable (l : Link)

/-- A fragment as the receiver reads it: its message, its header and its chunk.
A message that is too large has none. -/
def fragment (message index : ℕ) : Option (Numbered × FragmentHeader × Bytes) :=
  match l.sent[message]? with
  | none => none
  | some m =>
      match splitMessage m.payload m.id m.flags with
      | .error _ => none
      | .ok fragments =>
          match fragments[index]? with
          | none => none
          | some frag =>
              match unmarshalFragmentHeader frag with
              | .error _ => none
              | .ok (fh, n) => some (m, fh, frag.drop n)

def add (message index : ℕ) (now : ℤ) (fh : FragmentHeader) (chunk : Bytes) : Link :=
  let found := ((l.store.evictStale now fh.fragmentID).buffers.lookup fh.fragmentID).isSome
  let (store, result) := l.store.addFragment now fh chunk
  { l with
    store := store
    owner := if found then l.owner else Function.update l.owner fh.fragmentID (some message)
    log := l.log ++ [⟨message, index, now, result⟩]
    clock := now }

def next : Action → Option Link
  | .send payload flags =>
      let (conn, id) := l.conn.nextFragmentID
      some { l with conn := conn, sent := l.sent ++ [⟨id, payload, flags⟩] }
  | .arrive message index now =>
      if now < l.clock then none
      else (l.fragment message index).map fun (_, fh, chunk) => l.add message index now fh chunk
  | .cleanup now =>
      if now < l.clock then none
      else some { l with store := l.store.cleanup now l.store.fragmentTimeout, clock := now }

/-- The buffer a fragment finds, if it is not stale, was made for its message,
and neither cap is hit. -/
def clear : Action → Bool
  | .arrive message index now =>
      match l.fragment message index with
      | none => true
      | some (m, _, chunk) =>
          let store := l.store.evictStale now m.id
          !store.overflows chunk &&
            match store.buffers.lookup m.id with
            | some _ => l.owner m.id == some message
            | none => !store.full
  | _ => true

end

/-- A new connection and an empty store with any limits. -/
def system : System Link Action where
  init l := l.conn.fragmentID = 0 ∧ l.sent = [] ∧ l.log = [] ∧
    ∃ fragmentTimeout maxBuffers maxBytes, l.store = .init fragmentTimeout maxBuffers maxBytes
  step l a l' := l.next a = some l'

/-! ## What a step does -/

variable {l l' : Link}

theorem fragment_inv {k i : ℕ} {m : Numbered} {fh : FragmentHeader} {chunk : Bytes}
    (h : l.fragment k i = some (m, fh, chunk)) :
    l.sent[k]? = some m ∧
      fh = ⟨m.id, UInt8.ofNat i, UInt8.ofNat (chunks m.payload).length, m.flags⟩ ∧
      (chunks m.payload)[i]? = some chunk ∧ (chunks m.payload).length ≤ maxFragments := by
  rw [fragment] at h
  split at h
  · cases h
  rename_i m' hsent
  split at h
  · cases h
  rename_i fragments hsplit
  split at h
  · cases h
  rename_i frag hfrag
  split at h
  · cases h
  rename_i fh' n hparse
  cases h
  have hn : n = fragmentHeaderSize := by
    rw [((splitMessage_ok hsplit).2.2 i frag hfrag).1] at hparse
    cases hparse
    rfl
  subst hn
  have hcarries : (⟨0, fh, frag.drop fragmentHeaderSize⟩ : Arrival).Carries frag := ⟨hparse, rfl⟩
  obtain ⟨hheader, hchunk⟩ := ReassemblyStore.carries_inv hsplit hfrag hcarries
  refine ⟨hsent, hheader, hchunk, ?_⟩
  rw [chunks_length]
  exact (splitMessage_ok hsplit).2.1

theorem next_arrive_inv {k i : ℕ} {now : ℤ} (h : l.next (.arrive k i now) = some l') :
    l.clock ≤ now ∧ ∃ m fh chunk, l.fragment k i = some (m, fh, chunk) ∧
      l' = l.add k i now fh chunk := by
  simp only [next, Option.ite_none_left_eq_some, Option.map_eq_some_iff] at h
  obtain ⟨hclock, ⟨m, fh, chunk⟩, hfragment, rfl⟩ := h
  exact ⟨Int.not_lt.mp hclock, m, fh, chunk, hfragment, rfl⟩

theorem next_cleanup_inv {now : ℤ} (h : l.next (.cleanup now) = some l') :
    l.clock ≤ now ∧
      l' = { l with store := l.store.cleanup now l.store.fragmentTimeout, clock := now } := by
  simp only [next, Option.ite_none_left_eq_some, Option.some.injEq] at h
  exact ⟨Int.not_lt.mp h.1, h.2.symm⟩

/-- What the condition says about an arrival. -/
theorem clear_arrive {k i : ℕ} {now : ℤ} {m : Numbered} {fh : FragmentHeader} {chunk : Bytes}
    (h : l.clear (.arrive k i now)) (hfragment : l.fragment k i = some (m, fh, chunk)) :
    (l.store.evictStale now m.id).Admits now m.id chunk ∧
      ∀ buf, (l.store.evictStale now m.id).buffers.lookup m.id = some buf →
        l.owner m.id = some k := by
  simp only [clear, hfragment, Bool.and_eq_true, Bool.not_eq_true'] at h
  obtain ⟨hfits, hroom⟩ := h
  refine ⟨⟨?_, ?_, hfits⟩, ?_⟩
  · intro buf hbuf
    rw [ReassemblyStore.evictStale_eq_of_lookup hbuf]
    exact ReassemblyStore.fresh_of_evictStale hbuf
  · intro hnone
    simpa [hnone] using hroom
  · intro buf hbuf
    simpa [hbuf] using hroom

/-! ## No message is mixed with another -/

/-- Every buffer holds fragments of the message it was made for, and whatever was
returned was no error and, if a message, the right one. -/
structure Unmixed (l : Link) : Prop where
  owned : ∀ id buf, l.store.buffers.lookup id = some buf →
    ∃ k m got, l.owner id = some k ∧ l.sent[k]? = some m ∧ m.id = id ∧
      buf.Holds (chunks m.payload) m.flags got ∧ ∃ x ∈ l.log, x.message = k
  returned : ∀ x ∈ l.log, ∃ m, l.sent[x.message]? = some m ∧
    (x.result = .ok none ∨ x.result = .ok (some m.payload))

theorem getElem?_send {m m' : Numbered} {k : ℕ} (h : l.sent[k]? = some m) :
    (l.sent ++ [m'])[k]? = some m := by
  rw [List.getElem?_append_left (List.getElem?_eq_some_iff.mp h).1, h]

/-- What the store holds of the message of a fragment when the fragment comes. -/
theorem Unmixed.collects (h : Unmixed l) {k i : ℕ} {now : ℤ} {m : Numbered} {fh : FragmentHeader}
    {chunk : Bytes} (hclear : l.clear (.arrive k i now))
    (hfragment : l.fragment k i = some (m, fh, chunk)) :
    ∃ got, (l.store.evictStale now m.id).Collects m.id (chunks m.payload) m.flags got := by
  obtain ⟨hsent, -⟩ := fragment_inv hfragment
  obtain ⟨-, howner⟩ := clear_arrive hclear hfragment
  cases hfound : (l.store.evictStale now m.id).buffers.lookup m.id with
  | none =>
      refine ⟨∅, ?_⟩
      rw [ReassemblyStore.Collects, hfound]
  | some buf =>
      have hlook := hfound
      rw [ReassemblyStore.evictStale_eq_of_lookup hfound] at hlook
      obtain ⟨k', m', got, hk', hm', -, hholds, -⟩ := h.owned m.id buf hlook
      obtain rfl : k' = k := Option.some.inj (hk'.symm.trans (howner buf hfound))
      obtain rfl : m' = m := Option.some.inj (hm'.symm.trans hsent)
      refine ⟨got, ?_⟩
      rw [ReassemblyStore.Collects, hfound]
      exact hholds

theorem Unmixed.arrive (h : Unmixed l) {k i : ℕ} {now : ℤ} {m : Numbered} {fh : FragmentHeader}
    {chunk : Bytes} (hclear : l.clear (.arrive k i now))
    (hfragment : l.fragment k i = some (m, fh, chunk)) : Unmixed (l.add k i now fh chunk) := by
  obtain ⟨hsent, rfl, hchunk, hlength⟩ := fragment_inv hfragment
  obtain ⟨hadm, howner⟩ := clear_arrive hclear hfragment
  obtain ⟨got, hcollects⟩ := h.collects hclear hfragment
  have hstep := ReassemblyStore.collects_addFragment hcollects hadm hchunk hlength
  rw [flatten_chunks] at hstep
  have hlast : (⟨k, i, now, (l.store.addFragment now ⟨m.id, UInt8.ofNat i,
      UInt8.ofNat (chunks m.payload).length, m.flags⟩ chunk).2⟩ : Added) ∈
      (l.add k i now ⟨m.id, UInt8.ofNat i, UInt8.ofNat (chunks m.payload).length, m.flags⟩
        chunk).log := List.mem_append_right _ (List.mem_singleton_self _)
  refine ⟨?_, ?_⟩
  · intro id buf hlook
    by_cases hid : id = m.id
    · subst hid
      refine ⟨k, m, insert i got, ?_, hsent, rfl, ?_, _, hlast, rfl⟩
      · -- the buffer is the one that was found, or a new one
        simp only [add]
        split
        · rename_i hfound
          obtain ⟨old, hold⟩ := Option.isSome_iff_exists.mp hfound
          exact howner old hold
        · exact Function.update_self ..
      · rcases hstep with ⟨-, -, hheld⟩ | ⟨-, -, hgone⟩
        · rw [ReassemblyStore.Collects] at hheld
          split at hheld
          · rename_i hnone
            cases hnone.symm.trans hlook
          · rename_i buf' hbuf'
            cases hbuf'.symm.trans hlook
            exact hheld
        · cases hgone.symm.trans hlook
    · have hsame : l.store.buffers.lookup id = some buf :=
        (ReassemblyStore.lookup_addFragment_ne l.store now _ chunk hid).symm.trans hlook
      obtain ⟨k', m', got', hk', hm', hid', hholds, x, hx, hxk⟩ := h.owned id buf hsame
      refine ⟨k', m', got', ?_, hm', hid', hholds, x, List.mem_append_left _ hx, hxk⟩
      simp only [add]
      split
      · exact hk'
      · exact (Function.update_of_ne hid _ _).trans hk'
  · intro x hx
    rcases List.mem_append.mp hx with hx | hx
    · exact h.returned x hx
    · obtain rfl := List.mem_singleton.mp hx
      refine ⟨m, hsent, ?_⟩
      rcases hstep with ⟨-, hresult, -⟩ | ⟨-, hresult, -⟩
      · exact .inl hresult
      · exact .inr hresult

theorem Unmixed.next (h : Unmixed l) {a : Action} (hclear : l.clear a)
    (hnext : l.next a = some l') :
    Unmixed l' := by
  cases a with
  | send payload flags =>
      obtain rfl := Option.some.inj hnext
      refine ⟨?_, ?_⟩
      · intro id buf hlook
        obtain ⟨k, m, got, hk, hm, hrest⟩ := h.owned id buf hlook
        exact ⟨k, m, got, hk, getElem?_send hm, hrest⟩
      · intro x hx
        obtain ⟨m, hm, hresult⟩ := h.returned x hx
        exact ⟨m, getElem?_send hm, hresult⟩
  | arrive k i now =>
      obtain ⟨-, m, fh, chunk, hfragment, rfl⟩ := next_arrive_inv hnext
      exact h.arrive hclear hfragment
  | cleanup now =>
      obtain ⟨-, rfl⟩ := next_cleanup_inv hnext
      refine ⟨?_, h.returned⟩
      intro id buf hlook
      rw [ReassemblyStore.cleanup, Table.lookup_filter] at hlook
      exact h.owned id buf (Option.filter_eq_some_iff.mp hlook).1

/-! ## No message is held up -/

/-- The fragments of a message that have come, at most a timeout apart. -/
def Prompt (timeout : ℤ) (log : List Added) (k : ℕ) : Prop :=
  ∀ x ∈ log, ∀ y ∈ log, x.message = k → y.message = k → y.now < x.now + timeout

def got (log : List Added) (k : ℕ) : Set ℕ := { i | ∃ x ∈ log, x.message = k ∧ x.index = i }

/-- The message has been returned. -/
def Completed (l : Link) (k : ℕ) (m : Numbered) : Prop :=
  ∃ x ∈ l.log, x.message = k ∧ x.result = .ok (some m.payload)

/-- A buffer for the message holds everything that has come of it, and is as old
as one of its fragments. -/
def Kept (l : Link) (k : ℕ) (m : Numbered) : Prop :=
  ∃ buf, l.store.buffers.lookup m.id = some buf ∧ l.owner m.id = some k ∧
    (∃ x ∈ l.log, x.message = k ∧ buf.createdAt = x.now) ∧
    buf.Holds (chunks m.payload) m.flags (got l.log k)

/-- A message whose fragments come promptly is completed, or it is kept until it
is too old. -/
def Served (l : Link) : Prop :=
  ∀ k m, l.sent[k]? = some m → Prompt l.store.fragmentTimeout l.log k →
    (∃ x ∈ l.log, x.message = k) →
    Completed l k m ∨
      (∃ i < (chunks m.payload).length, i ∉ got l.log k) ∧
        ((∀ x ∈ l.log, x.message = k → l.clock < x.now + l.store.fragmentTimeout) → Kept l k m)

theorem got_concat_self (log : List Added) (k i : ℕ) (now : ℤ) (r : Except Err (Option Bytes)) :
    got (log ++ [⟨k, i, now, r⟩]) k = insert i (got log k) := by
  ext j
  simp only [got, List.mem_append, List.mem_singleton, Set.mem_ofPred_eq, Set.mem_insert_iff]
  constructor
  · rintro ⟨x, hx | rfl, hk, hj⟩
    · exact .inr ⟨x, hx, hk, hj⟩
    · exact .inl hj.symm
  · rintro (rfl | ⟨x, hx, hk, hj⟩)
    · exact ⟨_, .inr rfl, rfl, rfl⟩
    · exact ⟨x, .inl hx, hk, hj⟩

/-- The entries about one message do not change by an entry about another. -/
theorem mem_concat_of_ne {log : List Added} {x y : Added} {k : ℕ} (hne : y.message ≠ k)
    (hx : x.message = k) : x ∈ log ++ [y] ↔ x ∈ log := by
  rw [List.mem_append, List.mem_singleton, or_iff_left]
  rintro rfl
  exact hne hx

/-- A buffer that is kept is not stale when a fragment comes promptly. -/
theorem fresh_of_created {s : ReassemblyStore} {buf : ReassemblyBuffer} {now t : ℤ}
    (hcreated : buf.createdAt = t) (hprompt : now < t + s.fragmentTimeout) :
    s.stale now buf = false := by
  simp only [ReassemblyStore.stale, decide_eq_false_iff_not, not_and, hcreated]
  omega

/-- A kept buffer is what a fragment that comes in time finds. -/
theorem Kept.found {k : ℕ} {m : Numbered} {now : ℤ} (h : Kept l k m)
    (hprompt : ∀ x ∈ l.log, x.message = k → now < x.now + l.store.fragmentTimeout) :
    l.store.evictStale now m.id = l.store := by
  obtain ⟨buf, hlook, -, ⟨x, hx, hxk, hcreated⟩, -⟩ := h
  apply ReassemblyStore.evictStale_eq
  intro buf' hbuf'
  cases hlook.symm.trans hbuf'
  exact fresh_of_created hcreated (hprompt x hx hxk)

/-- The fragment of another message does not touch what is kept. -/
theorem Kept.arrive_other {k k' i : ℕ} {m m' : Numbered} {now : ℤ} {fh : FragmentHeader}
    {chunk : Bytes} (h : Kept l k m) (hclear : l.clear (.arrive k' i now))
    (hfragment : l.fragment k' i = some (m', fh, chunk)) (hne : k' ≠ k)
    (hprompt : ∀ x ∈ l.log, x.message = k → now < x.now + l.store.fragmentTimeout) :
    Kept (l.add k' i now fh chunk) k m := by
  obtain ⟨-, howner⟩ := clear_arrive hclear hfragment
  have hfound := h.found hprompt
  obtain ⟨buf, hlook, hk, ⟨x, hx, hxk, hcreated⟩, hholds⟩ := h
  have hid : m.id ≠ m'.id := by
    intro hid
    rw [← hid, hfound] at howner
    cases hk.symm.trans (howner buf hlook)
    exact hne rfl
  have hheader : fh.fragmentID = m'.id := by rw [(fragment_inv hfragment).2.1]
  have hgot : got (l.add k' i now fh chunk).log k = got l.log k := by
    ext j
    simp only [got, Set.mem_ofPred_eq]
    constructor
    · rintro ⟨y, hy, hyk, hj⟩
      exact ⟨y, (mem_concat_of_ne hne hyk).mp hy, hyk, hj⟩
    · rintro ⟨y, hy, hyk, hj⟩
      exact ⟨y, List.mem_append_left _ hy, hyk, hj⟩
  refine ⟨buf, ?_, ?_, ⟨x, List.mem_append_left _ hx, hxk, hcreated⟩, hgot ▸ hholds⟩
  · exact (ReassemblyStore.lookup_addFragment_ne l.store now fh chunk (hheader ▸ hid)).trans
      hlook
  · simp only [add]
    split
    · exact hk
    · exact (Function.update_of_ne (hheader ▸ hid) _ _).trans hk

/-- The fragment of the message itself completes it or is kept with the others. -/
theorem served_arrive_self {k i : ℕ} {m : Numbered} {now : ℤ} {fh : FragmentHeader} {chunk : Bytes}
    (hclear : l.clear (.arrive k i now)) (hfragment : l.fragment k i = some (m, fh, chunk))
    (hcollects : (l.store.evictStale now m.id).Collects m.id (chunks m.payload) m.flags
      (got l.log k))
    (hopen : ∃ j < (chunks m.payload).length, j ∉ got l.log k)
    (hcreated : ∀ buf, (l.store.evictStale now m.id).buffers.lookup m.id = some buf →
      ∃ x ∈ l.log, x.message = k ∧ buf.createdAt = x.now) :
    Completed (l.add k i now fh chunk) k m ∨
      (∃ j < (chunks m.payload).length, j ∉ got (l.add k i now fh chunk).log k) ∧
        Kept (l.add k i now fh chunk) k m := by
  obtain ⟨hsent, hheader, hchunk, hlength⟩ := fragment_inv hfragment
  obtain ⟨hadm, howner⟩ := clear_arrive hclear hfragment
  have hid : fh.fragmentID = m.id := by rw [hheader]
  have hstep := ReassemblyStore.collects_addFragment hcollects hadm hchunk hlength
  rw [← hheader, flatten_chunks] at hstep
  have hgot : got (l.add k i now fh chunk).log k = insert i (got l.log k) :=
    got_concat_self _ _ _ _ _
  rcases hstep with ⟨hmore, hresult, hheld⟩ | ⟨-, hresult, -⟩
  · refine .inr ⟨hgot ▸ hmore hopen, ?_⟩
    rw [ReassemblyStore.Collects] at hheld
    split at hheld
    · exact absurd hheld (Set.insert_nonempty _ _).ne_empty
    rename_i buf hbuf
    refine ⟨buf, hbuf, ?_, ?_, hgot ▸ hheld⟩
    · simp only [add]
      split
      · rename_i hfound
        obtain ⟨old, hold⟩ := Option.isSome_iff_exists.mp hfound
        rw [hid] at hold
        exact howner old hold
      · rw [← hid]
        exact Function.update_self ..
    · rcases ReassemblyStore.createdAt_addFragment hresult (hid ▸ hbuf) with
        ⟨old, hold, hage⟩ | hage
      · rw [hid] at hold
        obtain ⟨x, hx, hxk, hx'⟩ := hcreated old hold
        exact ⟨x, List.mem_append_left _ hx, hxk, hage.trans hx'⟩
      · exact ⟨_, List.mem_append_right _ (List.mem_singleton_self _), rfl, hage⟩
  · exact .inl ⟨_, List.mem_append_right _ (List.mem_singleton_self _), rfl, hresult⟩

/-- The first fragment of a message. Whatever is left under the identifier is not of this
message. -/
theorem served_arrive_first (hunmixed : Unmixed l) {k i : ℕ} {m : Numbered} {now : ℤ}
    {fh : FragmentHeader} {chunk : Bytes} (hclear : l.clear (.arrive k i now))
    (hfragment : l.fragment k i = some (m, fh, chunk))
    (hfirst : ¬ ∃ x ∈ l.log, x.message = k) :
    Completed (l.add k i now fh chunk) k m ∨
      (∃ j < (chunks m.payload).length, j ∉ got (l.add k i now fh chunk).log k) ∧
        Kept (l.add k i now fh chunk) k m := by
  obtain ⟨-, howner⟩ := clear_arrive hclear hfragment
  have hnone : (l.store.evictStale now m.id).buffers.lookup m.id = none := by
    cases hfound : (l.store.evictStale now m.id).buffers.lookup m.id with
    | none => rfl
    | some buf =>
        have hlook := hfound
        rw [ReassemblyStore.evictStale_eq_of_lookup hfound] at hlook
        obtain ⟨j, -, -, hj, -, -, -, hx⟩ := hunmixed.owned m.id buf hlook
        cases hj.symm.trans (howner buf hfound)
        exact absurd hx hfirst
  have hempty : got l.log k = ∅ := by
    ext j
    simp only [got, Set.mem_ofPred_eq, Set.mem_empty_iff_false, iff_false]
    rintro ⟨x, hx, hxk, -⟩
    exact hfirst ⟨x, hx, hxk⟩
  refine served_arrive_self hclear hfragment ?_ ⟨0, ?_, hempty ▸ Set.notMem_empty 0⟩ ?_
  · rw [ReassemblyStore.Collects, hnone]
    exact hempty
  · rw [chunks_length]
    exact fragmentCount_pos m.payload
  · intro buf hbuf
    cases hnone.symm.trans hbuf

theorem Served.arrive (h : Served l) (hunmixed : Unmixed l) {k i : ℕ} {m : Numbered} {now : ℤ}
    {fh : FragmentHeader} {chunk : Bytes} (hclear : l.clear (.arrive k i now))
    (hclock : l.clock ≤ now) (hfragment : l.fragment k i = some (m, fh, chunk)) :
    Served (l.add k i now fh chunk) := by
  have htimeout : (l.add k i now fh chunk).store.fragmentTimeout = l.store.fragmentTimeout :=
    congrArg (·.1) (l.store.addFragment_limits now fh chunk)
  obtain ⟨hsent, -⟩ := fragment_inv hfragment
  intro k' m' hsent' hprompt harrived
  rw [htimeout] at hprompt ⊢
  have hprompt' : Prompt l.store.fragmentTimeout l.log k' := fun x hx y hy =>
    hprompt x (List.mem_append_left _ hx) y (List.mem_append_left _ hy)
  by_cases hk : k = k'
  · subst hk
    obtain rfl : m' = m := Option.some.inj (hsent'.symm.trans hsent)
    have hin : ∀ x ∈ l.log, x.message = k → now < x.now + l.store.fragmentTimeout :=
      fun x hx hxk => hprompt x (List.mem_append_left _ hx) _
        (List.mem_append_right _ (List.mem_singleton_self _)) hxk rfl
    by_cases hbefore : ∃ x ∈ l.log, x.message = k
    · rcases h k m' hsent hprompt' hbefore with ⟨x, hx, hdone⟩ | ⟨hopen, hkept⟩
      · exact .inl ⟨x, List.mem_append_left _ hx, hdone⟩
      · have hkept := hkept fun x hx hxk => Int.lt_of_le_of_lt hclock (hin x hx hxk)
        have hfound := hkept.found hin
        obtain ⟨buf, hlook, -, hcreated, hholds⟩ := hkept
        refine (served_arrive_self hclear hfragment ?_ hopen ?_).imp_right
          (And.imp_right fun hkept _ => hkept)
        · rw [hfound, ReassemblyStore.Collects, hlook]
          exact hholds
        · intro buf' hbuf'
          rw [hfound] at hbuf'
          cases hlook.symm.trans hbuf'
          exact hcreated
    · exact (served_arrive_first hunmixed hclear hfragment hbefore).imp_right
        (And.imp_right fun hkept _ => hkept)
  · obtain ⟨x, hx, hxk⟩ := harrived
    have hbefore : ∃ x ∈ l.log, x.message = k' := ⟨x, (mem_concat_of_ne hk hxk).mp hx, hxk⟩
    rcases h k' m' hsent' hprompt' hbefore with ⟨y, hy, hdone⟩ | ⟨⟨j, hj, hmissing⟩, hkept⟩
    · exact .inl ⟨y, List.mem_append_left _ hy, hdone⟩
    · refine .inr ⟨⟨j, hj, ?_⟩, ?_⟩
      · rintro ⟨y, hy, hyk, hyj⟩
        exact hmissing ⟨y, (mem_concat_of_ne hk hyk).mp hy, hyk, hyj⟩
      · intro hin
        have hin' : ∀ y ∈ l.log, y.message = k' → now < y.now + l.store.fragmentTimeout :=
          fun y hy hyk => hin y (List.mem_append_left _ hy) hyk
        have hkept := hkept fun y hy hyk => Int.lt_of_le_of_lt hclock (hin' y hy hyk)
        exact hkept.arrive_other hclear hfragment hk hin'

theorem Served.next (h : Served l) (hunmixed : Unmixed l) {a : Action} (hclear : l.clear a)
    (hnext : l.next a = some l') : Served l' := by
  cases a with
  | send payload flags =>
      obtain rfl := Option.some.inj hnext
      intro k m hsent hprompt harrived
      obtain ⟨x, hx, rfl⟩ := harrived
      obtain ⟨m', hm', -⟩ := hunmixed.returned x hx
      obtain rfl : m' = m := Option.some.inj ((getElem?_send hm').symm.trans hsent)
      exact h x.message m' hm' hprompt ⟨x, hx, rfl⟩
  | arrive k i now =>
      obtain ⟨hclock, m, fh, chunk, hfragment, rfl⟩ := next_arrive_inv hnext
      exact h.arrive hunmixed hclear hclock hfragment
  | cleanup now =>
      obtain ⟨hclock, rfl⟩ := next_cleanup_inv hnext
      intro k m hsent hprompt harrived
      refine (h k m hsent hprompt harrived).imp_right (And.imp_right ?_)
      intro hkept hin
      obtain ⟨buf, hlook, hk, ⟨x, hx, hxk, hcreated⟩, hholds⟩ :=
        hkept fun x hx hxk => Int.lt_of_le_of_lt hclock (hin x hx hxk)
      refine ⟨buf, ?_, hk, ⟨x, hx, hxk, hcreated⟩, hholds⟩
      have hyoung : now < x.now + l.store.fragmentTimeout := hin x hx hxk
      rw [ReassemblyStore.cleanup, Table.lookup_filter, hlook, Option.filter_some, if_pos]
      simp only [hcreated, ge_iff_le, Bool.not_eq_true', decide_eq_false_iff_not]
      omega

/-- In every run in which each fragment finds its identifier clear of other
messages, and room: whatever `addFragment` reports complete is a message that was
sent, no fragment is rejected, and a message all of whose fragments come within a
timeout is completed. -/
theorem messages_not_mixed {hist : List (Link × Action)} (hrun : system.Run hist l)
    (hclear : System.Guarded (fun l a => l.clear a) hist) :
    (∀ x ∈ l.log, ∀ payload, x.result = .ok (some payload) →
      ∃ m, l.sent[x.message]? = some m ∧ payload = m.payload) ∧
    (∀ x ∈ l.log, ∀ e, x.result ≠ .error e) ∧
    (∀ k m fragments, l.sent[k]? = some m → splitMessage m.payload m.id m.flags = .ok fragments →
      (∀ i < fragments.length, ∃ x ∈ l.log, x.message = k ∧ x.index = i) →
      Prompt l.store.fragmentTimeout l.log k →
      ∃ x ∈ l.log, x.message = k ∧ x.result = .ok (some m.payload)) := by
  have hstart : ∀ l, system.init l → Unmixed l ∧ Served l := by
    rintro l ⟨-, -, hlog, timeout, buffers, bytes, hstore⟩
    refine ⟨⟨?_, ?_⟩, ?_⟩
    · intro id buf hlook
      rw [hstore] at hlook
      cases hlook
    · simp [hlog]
    · intro k m _ _ harrived
      simp [hlog] at harrived
  have hstep : ∀ (hist : List (Link × Action)) (l : Link) (a : Action) (l' : Link),
      system.Run hist l → Unmixed l ∧ Served l → l.clear a = true → system.step l a l' →
      Unmixed l' ∧ Served l' := by
    intro _ l a l' _ h hallowed hnext
    exact ⟨h.1.next hallowed hnext, h.2.next h.1 hallowed hnext⟩
  obtain ⟨hunmixed, hserved⟩ := hrun.guarded_invariant hstart hstep hclear
  refine ⟨?_, ?_, ?_⟩
  · intro x hx payload hresult
    obtain ⟨m, hm, hnone | hsome⟩ := hunmixed.returned x hx
    · cases hresult.symm.trans hnone
    · cases hresult.symm.trans hsome
      exact ⟨m, hm, rfl⟩
  · intro x hx e hresult
    obtain ⟨m, -, hnone | hsome⟩ := hunmixed.returned x hx
    · cases hresult.symm.trans hnone
    · cases hresult.symm.trans hsome
  · intro k m fragments hsent hsplit hall hprompt
    obtain ⟨hlength, -⟩ := splitMessage_ok hsplit
    rw [hlength] at hall
    obtain ⟨x, hx, hxk, -⟩ := hall 0 (fragmentCount_pos m.payload)
    rcases hserved k m hsent hprompt ⟨x, hx, hxk⟩ with hdone | ⟨⟨i, hi, hmissing⟩, -⟩
    · exact hdone
    · rw [chunks_length] at hi
      obtain ⟨y, hy, hyk, hyi⟩ := hall i hi
      exact absurd ⟨y, hy, hyk, hyi⟩ hmissing

/-! ## Concrete links -/

/-- A new link with a timeout of five seconds. -/
def start : Link :=
  ⟨newConnection (plainInput []) 0, [], .init 5000000000 0 0, fun _ => none, [], 0⟩

theorem start_run : system.Run [] start := .start ⟨rfl, rfl, rfl, _, _, _, rfl⟩

def sevens : Bytes := List.replicate 1156 7

/-- The message is sent and arrives, the second fragment first. -/
theorem messages_not_mixed_two :
    ∃ hist l, system.Run hist l ∧ System.Guarded (fun l a => l.clear a) hist ∧
      l.sent = [⟨1, sevens, 0⟩] ∧ l.log.length = 2 ∧
      ∃ x ∈ l.log, x.message = 0 ∧ x.result = .ok (some sevens) := by
  have hexec : (System.exec (fun l a => if l.clear a then l.next a else none) start
      [.send sevens 0, .arrive 0 1 10, .arrive 0 0 20]).any (fun l => decide (
        l.sent = [⟨1, sevens, 0⟩] ∧ l.store.fragmentTimeout = 5000000000 ∧
        l.log.map (fun x => (x.message, x.index, x.now)) = [(0, 1, 10), (0, 0, 20)])) = true := by
    decide +kernel
  obtain ⟨l, hl, hfinal⟩ := (Option.any_eq_true ..).mp hexec
  obtain ⟨hsent, htimeout, hlog⟩ := of_decide_eq_true hfinal
  obtain ⟨hist, hrun, hclear⟩ := start_run.exec_checked (by
    intro l a l' h
    obtain ⟨hclear, hnext⟩ := (Option.ite_none_right_eq_some ..).mp h
    exact ⟨hnext, hclear⟩) (System.guarded_nil fun l a => l.clear a = true) hl
  refine ⟨hist, l, hrun, hclear, hsent, by simpa using congrArg List.length hlog, ?_⟩
  have hentry : ∀ x ∈ l.log, (x.message, x.index, x.now) ∈ [(0, 1, (10 : ℤ)), (0, 0, 20)] := by
    intro x hx
    rw [← hlog]
    exact List.mem_map_of_mem hx
  have hindex : ∀ i < 2, ∃ x ∈ l.log, x.message = 0 ∧ x.index = i := by
    intro i hi
    have hmem : ∃ t, (0, i, t) ∈ l.log.map fun x => (x.message, x.index, x.now) := by
      rw [hlog]
      match i, hi with
      | 0, _ => exact ⟨20, by simp⟩
      | 1, _ => exact ⟨10, by simp⟩
    obtain ⟨t, hmem⟩ := hmem
    obtain ⟨x, hx, heq⟩ := List.mem_map.mp hmem
    exact ⟨x, hx, congrArg Prod.fst heq, congrArg (·.2.1) heq⟩
  have hcount : fragmentCount sevens ≤ maxFragments := by decide +kernel
  obtain ⟨fragments, hsplit⟩ := splitMessage_of_le hcount 1 0
  have hlength : fragments.length = 2 := (splitMessage_ok hsplit).1.trans (by decide +kernel)
  refine (messages_not_mixed hrun hclear).2.2 0 ⟨1, sevens, 0⟩ fragments (by rw [hsent]; rfl) hsplit
    (hlength ▸ hindex) ?_
  intro x hx y hy _ _
  have hx' := hentry x hx
  have hy' := hentry y hy
  simp only [List.mem_cons, Prod.mk.injEq, List.not_mem_nil, or_false] at hx' hy'
  omega

/-- The messages of a sender that sends one payload over and over. -/
def same (payload : Bytes) (n : ℕ) : List Numbered :=
  (List.range n).map fun k => ⟨UInt16.ofNat (k + 1), payload, 0⟩

/-- The sender has sent one payload a number of times, and nothing has come. -/
def sentOnly (payload : Bytes) (n : ℕ) : Link :=
  { start with conn := { start.conn with fragmentID := n }, sent := same payload n }

theorem sentOnly_send (payload other : Bytes) (flags : UInt8) {n : ℕ} (hn : n + 1 < 2 ^ 32) :
    system.step (sentOnly payload n) (.send other flags) { sentOnly payload (n + 1) with
      sent := same payload n ++ [⟨UInt16.ofNat (n + 1), other, flags⟩] } := by
  show some _ = some _
  simp only [sentOnly, Nat.mod_eq_of_lt hn]

theorem sentOnly_run (payload : Bytes) {n : ℕ} (hn : n < 2 ^ 32) :
    ∃ hist, system.Run hist (sentOnly payload n) := by
  induction n with
  | zero => exact ⟨[], start_run⟩
  | succ n ih =>
      obtain ⟨hist, hrun⟩ := ih (by omega)
      have hmore : same payload (n + 1) =
          same payload n ++ [⟨UInt16.ofNat (n + 1), payload, 0⟩] := by
        rw [same, List.range_succ, List.map_append]
        rfl
      have hsend := sentOnly_send payload payload 0 hn
      rw [← hmore] at hsend
      exact ⟨_, .step hrun hsend⟩

/-- A fragment depends on its message only. -/
theorem fragment_of_sent {l : Link} {k i : ℕ} {m : Numbered} (h : l.sent[k]? = some m) :
    l.fragment k i = ({ start with sent := [m] } : Link).fragment 0 i := by
  rw [fragment, fragment, h]
  rfl

/-- The store after the first fragment of a message of two. -/
def leftover : ReassemblyStore :=
  (start.store.addFragment 0 ⟨1, 0, 2, 0⟩ (List.replicate 1155 7)).1

/-- The first of 65536 messages has left one fragment behind when a fragment of
the message after them comes, which has the same identifier. -/
theorem reused_run {payload chunk : Bytes} {flags : UInt8} {i : ℕ} {fh : FragmentHeader}
    (hfragment : ({ start with sent := [⟨1, payload, flags⟩] } : Link).fragment 0 i =
      some (⟨1, payload, flags⟩, fh, chunk)) :
    ∃ hist l, system.Run hist l ∧ l.sent = same sevens 65536 ++ [⟨1, payload, flags⟩] ∧
      ⟨65536, i, 1, (leftover.addFragment 1 fh chunk).2⟩ ∈ l.log := by
  obtain ⟨hist, hrun⟩ := sentOnly_run sevens (n := 65536) (by decide)
  have hsend := sentOnly_send sevens payload flags (n := 65536) (by decide)
  rw [show UInt16.ofNat (65536 + 1) = 1 by decide] at hsend
  generalize hl : ({ sentOnly sevens (65536 + 1) with
    sent := same sevens 65536 ++ [⟨1, payload, flags⟩] } : Link) = l at hsend
  have hsent : l.sent = same sevens 65536 ++ [⟨1, payload, flags⟩] := by rw [← hl]
  have hlength : (same sevens 65536).length = 65536 := by simp [same]
  have hfirst : l.sent[0]? = some ⟨1, sevens, 0⟩ := by
    rw [hsent, List.getElem?_append_left (by omega), same, List.getElem?_map,
      List.getElem?_range (by decide)]
    rfl
  have hlast : l.sent[65536]? = some ⟨1, payload, flags⟩ := by
    rw [hsent, List.getElem?_append_right (by omega), hlength]
    rfl
  have hzero : ({ start with sent := [⟨1, sevens, 0⟩] } : Link).fragment 0 0 =
      some (⟨1, sevens, 0⟩, ⟨1, 0, 2, 0⟩, List.replicate 1155 7) := by
    decide +kernel
  have hstep : system.step l (.arrive 0 0 0)
      (l.add 0 0 0 ⟨1, 0, 2, 0⟩ (List.replicate 1155 7)) := by
    have hclock : ¬(0 : ℤ) < l.clock := by rw [← hl]; exact Int.lt_irrefl 0
    show l.next (.arrive 0 0 0) = _
    rw [next, if_neg hclock, fragment_of_sent hfirst, hzero]
    rfl
  have hstep' : system.step (l.add 0 0 0 ⟨1, 0, 2, 0⟩ (List.replicate 1155 7)) (.arrive 65536 i 1)
      ((l.add 0 0 0 ⟨1, 0, 2, 0⟩ (List.replicate 1155 7)).add 65536 i 1 fh chunk) := by
    have hlast' : (l.add 0 0 0 ⟨1, 0, 2, 0⟩ (List.replicate 1155 7)).sent[65536]? =
        some ⟨1, payload, flags⟩ := hlast
    show next _ (.arrive 65536 i 1) = _
    rw [next, if_neg (by show ¬(1 : ℤ) < 0; decide), fragment_of_sent hlast', hfragment]
    rfl
  refine ⟨_, _, .step (.step (.step hrun hsend) hstep) hstep', hsent, ?_⟩
  have hstore : (l.add 0 0 0 ⟨1, 0, 2, 0⟩ (List.replicate 1155 7)).store = leftover := by
    rw [← hl]
    rfl
  rw [← hstore]
  exact List.mem_append_right _ (List.mem_singleton_self _)

/-- The identifier of a message that lost a fragment comes back within the
timeout. A later message of the same shape is mixed with it, and one of another
shape is rejected although all of it has come. -/
theorem messages_mixed :
    (∃ hist l x payload, system.Run hist l ∧ x ∈ l.log ∧ x.result = .ok (some payload) ∧
      ∀ m ∈ l.sent, m.payload ≠ payload) ∧
    ∃ hist l x m fragments, system.Run hist l ∧ x ∈ l.log ∧ l.sent[x.message]? = some m ∧
      splitMessage m.payload m.id m.flags = .ok fragments ∧ fragments.length = 1 ∧ x.index = 0 ∧
      x.result = .error .invalidFragmentHeader := by
  constructor
  · have hfragment : ({ start with sent := [⟨1, List.replicate 1156 9, 0⟩] } : Link).fragment 0 1 =
        some (⟨1, List.replicate 1156 9, 0⟩, ⟨1, 1, 2, 0⟩, [9]) := by
      decide +kernel
    obtain ⟨hist, l, hrun, hsent, hlog⟩ := reused_run hfragment
    have hmixed : (leftover.addFragment 1 ⟨1, 1, 2, 0⟩ [9]).2 =
        .ok (some (List.replicate 1155 7 ++ [9])) := by
      decide +kernel
    refine ⟨hist, l, _, _, hrun, hlog, hmixed, ?_⟩
    intro m hm
    rw [hsent, List.mem_append, List.mem_singleton] at hm
    rcases hm with hm | rfl
    · obtain ⟨k, -, rfl⟩ := List.mem_map.mp hm
      show sevens ≠ List.replicate 1155 7 ++ [9]
      decide +kernel
    · decide +kernel
  · have hfragment : ({ start with sent := [⟨1, [9], 1⟩] } : Link).fragment 0 0 =
        some (⟨1, [9], 1⟩, ⟨1, 0, 1, 1⟩, [9]) := by
      decide +kernel
    obtain ⟨hist, l, hrun, hsent, hlog⟩ := reused_run hfragment
    have hlength : (same sevens 65536).length = 65536 := by simp [same]
    have hlast : l.sent[65536]? = some ⟨1, [9], 1⟩ := by
      rw [hsent, List.getElem?_append_right (by omega), hlength]
      rfl
    exact ⟨hist, l, _, _, [[0, 1, 0, 1, 1, 9]], hrun, hlog, hlast, by decide +kernel, rfl, rfl,
      by decide +kernel⟩

end Link

end Fastwire
