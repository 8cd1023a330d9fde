/-
# The handshake rate limiter

One bucket of tokens for each source address, in a list ordered by last use, next to a
map from addresses to list elements. A list element is a reference in the code: the map
and the list hold the same elements, and the entry of an element changes in place. The
model keeps the entries of all elements ever pushed and knows an element by its
position among them.

Tokens and times are exact numbers, times in seconds.
-/

import Fastwire.Lib.Run
import Fastwire.Lib.Table
import Fastwire.Lib.TokenBucket
import Mathlib.Algebra.Order.Field.Rat

namespace Fastwire

open Lib

/-- `netip.Addr`. -/
abbrev Addr := BitVec 128

def handshakeLimiterMaxEntries : ℕ := 8192

structure HandshakeEntry where
  addr : Addr
  tokens : ℚ
  last : ℚ
  deriving DecidableEq

/-- `handshakeLimiter`. The front of `order` is the element used last. -/
structure HandshakeLimiter where
  elements : List HandshakeEntry
  entries : Table Addr ℕ
  order : List ℕ
  rate : ℚ
  burst : ℚ

def newHandshakeLimiter (rate burst : ℚ) : HandshakeLimiter := ⟨[], ∅, [], rate, burst⟩

namespace HandshakeLimiter

/-- The refill in `allow`: nothing happens within one instant. -/
def refill (l : HandshakeLimiter) (now : ℚ) (e : HandshakeEntry) : HandshakeEntry :=
  let elapsed := now - e.last
  if elapsed > 0 then { e with tokens := min l.burst (e.tokens + elapsed * l.rate), last := now }
  else e

def moveToFront (l : HandshakeLimiter) (el : ℕ) : HandshakeLimiter :=
  if el ∈ l.order then { l with order := el :: l.order.erase el } else l

/-- `delete(l.entries, e.addr); l.order.Remove(back)`. -/
def removeBack (l : HandshakeLimiter) (e : HandshakeEntry) : HandshakeLimiter :=
  { l with entries := l.entries.erase e.addr, order := l.order.dropLast }

/-- The entry of the element used least recently. -/
def back (l : HandshakeLimiter) : Option HandshakeEntry :=
  l.order.getLast?.bind fun el => l.elements[el]?

/-- Room for a new entry: at capacity the back of the list goes. -/
def evict (l : HandshakeLimiter) : HandshakeLimiter :=
  if l.order.length ≥ handshakeLimiterMaxEntries then
    match l.back with
    | none => l
    | some e => l.removeBack e
  else l

/-- `l.entries[addr] = l.order.PushFront(e)`. -/
def pushFront (l : HandshakeLimiter) (e : HandshakeEntry) : HandshakeLimiter :=
  { l with
    elements := l.elements ++ [e]
    entries := l.entries.insert e.addr l.elements.length
    order := l.elements.length :: l.order }

/-- The element of an address, refilled and at the front of the list. -/
def touch (l : HandshakeLimiter) (addr : Addr) (now : ℚ) : HandshakeLimiter × ℕ :=
  match l.entries.lookup addr with
  | some el => ({ l with elements := l.elements.modify el (l.refill now) }.moveToFront el, el)
  | none =>
      let l := l.evict
      (l.pushFront ⟨addr, l.burst, now⟩, l.elements.length)

/-- `allow`: is a handshake from this address admitted? -/
def allow (l : HandshakeLimiter) (addr : Addr) (now : ℚ) : HandshakeLimiter × Bool :=
  let (l, el) := l.touch addr now
  match l.elements[el]? with
  | none => (l, false)
  | some e =>
      if e.tokens < 1 then (l, false)
      else ({ l with elements := l.elements.set el { e with tokens := e.tokens - 1 } }, true)

/-- The loop of `cleanup`. Every round but the last removes an element. -/
def cleanupLoop (now age : ℚ) : ℕ → HandshakeLimiter → HandshakeLimiter
  | 0, l => l
  | rounds + 1, l =>
      match l.back with
      | none => l
      | some e =>
          if e.tokens < l.burst ∨ now - e.last < age then l
          else cleanupLoop now age rounds (l.removeBack e)

def cleanup (l : HandshakeLimiter) (now age : ℚ) : HandshakeLimiter :=
  cleanupLoop now age l.order.length l

def size (l : HandshakeLimiter) : ℕ := l.order.length

/-! ## The map and the list -/

/-- The map and the list hold the same elements: each element of the list carries the
address under which the map has it, and the map has no others. -/
structure Linked (l : HandshakeLimiter) : Prop where
  nodup : l.order.Nodup
  carried : ∀ el ∈ l.order, ∃ e, l.elements[el]? = some e ∧ l.entries.lookup e.addr = some el
  listed : ∀ addr el, l.entries.lookup addr = some el →
    el ∈ l.order ∧ ∃ e, l.elements[el]? = some e ∧ e.addr = addr

variable {l : HandshakeLimiter} {addr addr' : Addr} {el : ℕ} {e e' : HandshakeEntry} {now : ℚ}

theorem linked_new (rate burst : ℚ) : (newHandshakeLimiter rate burst).Linked where
  nodup := List.nodup_nil
  carried := by simp [newHandshakeLimiter]
  listed := by simp [newHandshakeLimiter]

theorem Linked.lt_length (h : l.Linked) (hel : el ∈ l.order) : el < l.elements.length := by
  obtain ⟨e, he, -⟩ := h.carried el hel
  exact (List.getElem?_eq_some_iff.mp he).1

/-- An entry that is replaced keeps its address. -/
theorem map_addr_set (he : l.elements[el]? = some e) (haddr : e'.addr = e.addr) (el' : ℕ) :
    ((l.elements.set el e')[el']?).map HandshakeEntry.addr =
      (l.elements[el']?).map HandshakeEntry.addr := by
  by_cases hel : el = el'
  · subst hel
    rw [List.getElem?_set_self (List.getElem?_eq_some_iff.mp he).1, he, Option.map_some,
      Option.map_some, haddr]
  · rw [List.getElem?_set_ne hel]

/-- An entry may change in place as long as it keeps its address. -/
theorem Linked.setElements (h : l.Linked) {elements : List HandshakeEntry}
    (hsame : ∀ el : ℕ, (elements[el]?).map HandshakeEntry.addr =
      (l.elements[el]?).map HandshakeEntry.addr) :
    { l with elements := elements }.Linked := by
  -- an element of the old list has an entry in the new one, with the same address
  have hentry : ∀ {el : ℕ} {e : HandshakeEntry}, l.elements[el]? = some e →
      ∃ e' : HandshakeEntry, elements[el]? = some e' ∧ e'.addr = e.addr := by
    intro el e he
    have haddr := hsame el
    rw [he] at haddr
    exact Option.map_eq_some_iff.mp haddr
  constructor
  · exact h.nodup
  · intro el hel
    obtain ⟨e, he, hlookup⟩ := h.carried el hel
    obtain ⟨e', he', haddr⟩ := hentry he
    exact ⟨e', he', haddr ▸ hlookup⟩
  · intro addr el hlookup
    obtain ⟨hel, e, he, rfl⟩ := h.listed addr el hlookup
    obtain ⟨e', he', haddr⟩ := hentry he
    exact ⟨hel, e', he', haddr⟩

theorem Linked.moveToFront (h : l.Linked) (el : ℕ) : (l.moveToFront el).Linked := by
  unfold HandshakeLimiter.moveToFront
  split
  · rename_i hel
    have hmem : ∀ el', el' ∈ el :: l.order.erase el ↔ el' ∈ l.order :=
      fun el' => (List.perm_cons_erase hel).mem_iff.symm
    constructor
    · exact (List.perm_cons_erase hel).nodup_iff.mp h.nodup
    · intro el' hel'
      exact h.carried el' ((hmem el').mp hel')
    · intro addr el' hlookup
      obtain ⟨hin, hentry⟩ := h.listed addr el' hlookup
      exact ⟨(hmem el').mpr hin, hentry⟩
  · exact h

theorem back_eq_some (hback : l.back = some e) :
    ∃ el, l.order = l.order.dropLast ++ [el] ∧ l.elements[el]? = some e := by
  obtain ⟨el, hel, he⟩ := Option.bind_eq_some_iff.mp hback
  obtain ⟨front, hfront⟩ := List.getLast?_eq_some_iff.mp hel
  refine ⟨el, ?_, he⟩
  rw [hfront, List.dropLast_concat]

theorem Linked.removeBack (h : l.Linked) (hback : l.back = some e) : (l.removeBack e).Linked := by
  obtain ⟨el, horder, he⟩ := back_eq_some hback
  have hnodup := h.nodup
  rw [horder] at hnodup
  have hlast : el ∉ l.order.dropLast := by
    intro hmem
    exact (List.nodup_append.mp hnodup).2.2 el hmem el List.mem_cons_self rfl
  have hel : el ∈ l.order := by
    rw [horder]
    exact List.mem_append_right _ List.mem_cons_self
  -- the element at the back is the one the map has for its address
  obtain ⟨e', he', hlookup⟩ := h.carried el hel
  obtain rfl : e = e' := by simpa [he] using he'
  constructor
  · exact (List.nodup_append.mp hnodup).1
  · intro el' hel'
    have hin : el' ∈ l.order := List.dropLast_subset _ hel'
    obtain ⟨f, hf, hlookup'⟩ := h.carried el' hin
    refine ⟨f, hf, ?_⟩
    show (l.entries.erase e.addr).lookup f.addr = some el'
    rw [Table.lookup_erase_eq, if_neg, hlookup']
    intro haddr
    rw [haddr, hlookup, Option.some.injEq] at hlookup'
    exact hlast (hlookup' ▸ hel')
  · intro addr el' hlookup'
    have hsurvives : (l.entries.erase e.addr).lookup addr = some el' := hlookup'
    rw [Table.lookup_erase_eq] at hsurvives
    split_ifs at hsurvives with haddr
    obtain ⟨hin, f, hf, rfl⟩ := h.listed addr el' hsurvives
    refine ⟨?_, f, hf, rfl⟩
    rw [horder, List.mem_append, List.mem_singleton] at hin
    rcases hin with hin | rfl
    · exact hin
    · rw [he, Option.some.injEq] at hf
      exact absurd (by rw [hf]) haddr

theorem Linked.evict (h : l.Linked) : l.evict.Linked := by
  unfold HandshakeLimiter.evict
  split
  · cases hback : l.back with
    | none => exact h
    | some e => exact h.removeBack hback
  · exact h

theorem Linked.pushFront (h : l.Linked) (hnew : l.entries.lookup e.addr = none) :
    (l.pushFront e).Linked := by
  have hfresh : l.elements.length ∉ l.order := fun hmem => Nat.lt_irrefl _ (h.lt_length hmem)
  have hkeeps : ∀ {el : ℕ} {f : HandshakeEntry}, l.elements[el]? = some f →
      (l.elements ++ [e])[el]? = some f := by
    intro el f hf
    rw [List.getElem?_append_left (List.getElem?_eq_some_iff.mp hf).1, hf]
  have hpushed : (l.elements ++ [e])[l.elements.length]? = some e := by simp
  constructor
  · exact List.nodup_cons.mpr ⟨hfresh, h.nodup⟩
  · intro el hel
    show ∃ f, (l.elements ++ [e])[el]? = some f ∧
      (l.entries.insert e.addr l.elements.length).lookup f.addr = some el
    rcases List.mem_cons.mp hel with rfl | hel
    · exact ⟨e, hpushed, by rw [Table.lookup_insert_eq, if_pos rfl]⟩
    · obtain ⟨f, hf, hlookup⟩ := h.carried el hel
      refine ⟨f, hkeeps hf, ?_⟩
      rw [Table.lookup_insert_eq, if_neg, hlookup]
      intro haddr
      rw [haddr, hnew] at hlookup
      cases hlookup
  · intro addr el hlookup
    show el ∈ l.elements.length :: l.order ∧ ∃ f, (l.elements ++ [e])[el]? = some f ∧ f.addr = addr
    have hinserted : (l.entries.insert e.addr l.elements.length).lookup addr = some el := hlookup
    rw [Table.lookup_insert_eq] at hinserted
    split_ifs at hinserted with haddr
    · cases hinserted
      exact ⟨List.mem_cons_self, e, hpushed, haddr.symm⟩
    · obtain ⟨hel, f, hf, hfaddr⟩ := h.listed addr el hinserted
      exact ⟨List.mem_cons_of_mem _ hel, f, hkeeps hf, hfaddr⟩

/-! ## The bucket of an address -/

def entryBucket (e : HandshakeEntry) : Bucket ℚ := ⟨e.tokens, e.last⟩

/-- The bucket kept for an address. -/
def bucket (l : HandshakeLimiter) (addr : Addr) : Option (Bucket ℚ) :=
  (l.entries.lookup addr).bind fun el => (l.elements[el]?).map entryBucket

theorem entryBucket_refill (l : HandshakeLimiter) (now : ℚ) (e : HandshakeEntry) :
    entryBucket (l.refill now e) = (entryBucket e).refill l.rate l.burst now := by
  rw [refill, Bucket.refill]
  by_cases hlater : now - e.last > 0
  · have hbucket : now - (entryBucket e).last > 0 := hlater
    rw [if_pos hbucket]
    simp only [hlater, if_true]
    rfl
  · have hbucket : ¬ now - (entryBucket e).last > 0 := hlater
    rw [if_neg hbucket]
    simp only [hlater, if_false]

theorem refill_addr (l : HandshakeLimiter) (now : ℚ) (e : HandshakeEntry) :
    (l.refill now e).addr = e.addr := by
  unfold refill
  dsimp only
  split <;> rfl

/-- The address has a bucket as soon as the map has it. -/
theorem Linked.bucket_eq (h : l.Linked) (hlookup : l.entries.lookup addr = some el) :
    ∃ e, l.elements[el]? = some e ∧ e.addr = addr ∧ l.bucket addr = some (entryBucket e) := by
  obtain ⟨-, e, he, haddr⟩ := h.listed addr el hlookup
  exact ⟨e, he, haddr, by simp [bucket, hlookup, he]⟩

/-- An element of the list carries the bucket of its address. -/
theorem Linked.bucket_of_mem (h : l.Linked) (hel : el ∈ l.order) (he : l.elements[el]? = some e) :
    l.bucket e.addr = some (entryBucket e) := by
  obtain ⟨e', he', hlookup⟩ := h.carried el hel
  obtain rfl : e = e' := Option.some.inj (he.symm.trans he')
  rw [bucket, hlookup, Option.bind_some, he, Option.map_some]

theorem bucket_eq_none (h : l.Linked) : l.bucket addr = none ↔ l.entries.lookup addr = none := by
  constructor
  · intro hnone
    cases hlookup : l.entries.lookup addr with
    | none => rfl
    | some el =>
        obtain ⟨e, -, -, hsome⟩ := h.bucket_eq hlookup
        rw [hnone] at hsome
        cases hsome
  · intro hnone
    simp [bucket, hnone]

theorem bucket_removeBack (addr : Addr) :
    (l.removeBack e).bucket addr = if addr = e.addr then none else l.bucket addr := by
  simp only [bucket, removeBack, Table.lookup_erase_eq]
  split <;> rfl

theorem bucket_evict (addr : Addr) :
    l.evict.bucket addr = l.bucket addr ∨ l.evict.bucket addr = none := by
  unfold evict
  split
  · cases l.back with
    | none => exact .inl rfl
    | some e =>
        simp only [bucket_removeBack]
        by_cases haddr : addr = e.addr
        · exact .inr (if_pos haddr)
        · exact .inl (if_neg haddr)
  · exact .inl rfl

@[simp]
theorem evict_rate (l : HandshakeLimiter) : l.evict.rate = l.rate := by
  unfold evict
  split
  · cases l.back <;> rfl
  · rfl

@[simp]
theorem evict_burst (l : HandshakeLimiter) : l.evict.burst = l.burst := by
  unfold evict
  split
  · cases l.back <;> rfl
  · rfl

@[simp]
theorem evict_elements (l : HandshakeLimiter) : l.evict.elements = l.elements := by
  unfold evict
  split
  · cases l.back <;> rfl
  · rfl

theorem lookup_evict (hnew : l.entries.lookup addr = none) :
    l.evict.entries.lookup addr = none := by
  unfold evict
  split
  · cases l.back with
    | none => exact hnew
    | some e =>
        show (l.entries.erase e.addr).lookup addr = none
        rw [Table.lookup_erase_eq, hnew, ite_self]
  · exact hnew

/-- What a call for an address does: the bucket of the address becomes `b`, the others
stay as they are, unless one is evicted. -/
structure Rebucketed (l l' : HandshakeLimiter) (addr : Addr) (b : Bucket ℚ) : Prop where
  linked : l'.Linked
  bucket : l'.bucket addr = some b
  others : ∀ addr' ≠ addr, l'.bucket addr' = l.bucket addr' ∨ l'.bucket addr' = none
  rate : l'.rate = l.rate
  burst : l'.burst = l.burst

/-- Replacing the entry of an address. -/
theorem Linked.set (h : l.Linked) (hlookup : l.entries.lookup addr = some el)
    (haddr : e'.addr = addr) :
    Rebucketed l { l with elements := l.elements.set el e' } addr (entryBucket e') := by
  obtain ⟨e, he, hcarries, -⟩ := h.bucket_eq hlookup
  have hlt := (List.getElem?_eq_some_iff.mp he).1
  constructor
  · exact h.setElements (map_addr_set he (haddr.trans hcarries.symm))
  · simp [HandshakeLimiter.bucket, hlookup, hlt]
  · intro addr' hne
    left
    simp only [HandshakeLimiter.bucket]
    cases hother : l.entries.lookup addr' with
    | none => rfl
    | some el' =>
        -- another address is carried by another element
        obtain ⟨f, hf, hcarries', -⟩ := h.bucket_eq hother
        have hel : el ≠ el' := by
          rintro rfl
          rw [he, Option.some.injEq] at hf
          exact hne (by rw [← hcarries', ← hf, hcarries])
        simp only [Option.bind_some]
        rw [List.getElem?_set_ne hel]
  · rfl
  · rfl

/-- Only the order changes when an element moves. -/
theorem moveToFront_eq (l : HandshakeLimiter) (el : ℕ) :
    ∃ order, l.moveToFront el = { l with order := order } := by
  unfold moveToFront
  split
  · exact ⟨el :: l.order.erase el, rfl⟩
  · exact ⟨l.order, rfl⟩

theorem Rebucketed.moveToFront {l' : HandshakeLimiter} {b : Bucket ℚ}
    (h : Rebucketed l l' addr b) (el : ℕ) : Rebucketed l (l'.moveToFront el) addr b := by
  have hlinked := h.linked.moveToFront el
  obtain ⟨order, horder⟩ := moveToFront_eq l' el
  rw [horder] at hlinked ⊢
  exact ⟨hlinked, h.bucket, h.others, h.rate, h.burst⟩

theorem modify_eq_set {f : HandshakeEntry → HandshakeEntry} (he : l.elements[el]? = some e) :
    l.elements.modify el f = l.elements.set el (f e) := by
  apply List.ext_getElem?
  intro i
  rw [List.getElem?_modify]
  by_cases hi : el = i
  · subst hi
    rw [List.getElem?_set_self (List.getElem?_eq_some_iff.mp he).1, he]
    simp
  · rw [List.getElem?_set_ne hi]
    simp [hi]

/-- The bucket of an address when a call looks at it: refilled, or new and full. -/
def bucketAt (l : HandshakeLimiter) (addr : Addr) (now : ℚ) : Bucket ℚ :=
  ((l.bucket addr).getD (.full l.burst now)).refill l.rate l.burst now

theorem touch_hit (hlookup : l.entries.lookup addr = some el) :
    l.touch addr now =
      ({ l with elements := l.elements.modify el (l.refill now) }.moveToFront el, el) := by
  rw [touch, hlookup]

theorem touch_miss (hlookup : l.entries.lookup addr = none) :
    l.touch addr now =
      (l.evict.pushFront ⟨addr, l.burst, now⟩, l.elements.length) := by
  rw [touch, hlookup]
  simp only [evict_burst, evict_elements]

/-- A new address gets a full bucket. -/
theorem Linked.pushNew (h : l.Linked) (hlookup : l.entries.lookup addr = none) (now : ℚ) :
    Rebucketed l (l.evict.pushFront ⟨addr, l.burst, now⟩) addr ⟨l.burst, now⟩ ∧
      (l.evict.pushFront ⟨addr, l.burst, now⟩).entries.lookup addr = some l.elements.length := by
  have hinsert : ∀ addr', (l.evict.pushFront ⟨addr, l.burst, now⟩).entries.lookup addr' =
      if addr' = addr then some l.elements.length else l.evict.entries.lookup addr' := by
    intro addr'
    rw [HandshakeLimiter.pushFront, Table.lookup_insert_eq, evict_elements]
  constructor
  · constructor
    · exact h.evict.pushFront (lookup_evict hlookup)
    · rw [HandshakeLimiter.bucket, hinsert, if_pos rfl]
      simp [HandshakeLimiter.pushFront, entryBucket]
    · intro addr' hne
      have hsame : (l.evict.pushFront ⟨addr, l.burst, now⟩).bucket addr' =
          l.evict.bucket addr' := by
        simp only [HandshakeLimiter.bucket]
        rw [hinsert, if_neg hne]
        cases hother : l.evict.entries.lookup addr' with
        | none => rfl
        | some el' =>
            obtain ⟨f, hf, -, -⟩ := h.evict.bucket_eq hother
            have hlt := (List.getElem?_eq_some_iff.mp hf).1
            simp only [Option.bind_some, HandshakeLimiter.pushFront]
            rw [List.getElem?_append_left hlt]
      rw [hsame]
      exact bucket_evict addr'
    · exact evict_rate l
    · exact evict_burst l
  · rw [hinsert, if_pos rfl]

/-- A call brings the bucket up to date and the element to the front. -/
theorem Linked.touch (h : l.Linked) (addr : Addr) (now : ℚ) :
    Rebucketed l (l.touch addr now).1 addr (l.bucketAt addr now) ∧
      (l.touch addr now).1.entries.lookup addr = some (l.touch addr now).2 := by
  cases hlookup : l.entries.lookup addr with
  | some el =>
      obtain ⟨e, he, haddr, hbucket⟩ := h.bucket_eq hlookup
      have hset : Rebucketed l { l with elements := l.elements.set el (l.refill now e) } addr
          (entryBucket (l.refill now e)) := h.set hlookup (by rw [refill_addr, haddr])
      rw [touch_hit hlookup, modify_eq_set he]
      constructor
      · rw [bucketAt, hbucket, Option.getD_some, ← entryBucket_refill]
        exact hset.moveToFront el
      · obtain ⟨order, horder⟩ :=
          moveToFront_eq { l with elements := l.elements.set el (l.refill now e) } el
        rw [horder]
        exact hlookup
  | none =>
      have hfull : l.bucketAt addr now = ⟨l.burst, now⟩ := by
        simp [bucketAt, (bucket_eq_none h).mpr hlookup, Bucket.full, Bucket.refill]
      rw [touch_miss hlookup, hfull]
      exact h.pushNew hlookup now

/-- **What `allow` does.** It asks the bucket of the address for a token and leaves the
other buckets alone, unless it evicts one. -/
theorem Linked.allow (h : l.Linked) (addr : Addr) (now : ℚ) :
    Rebucketed l (l.allow addr now).1 addr (l.bucketAt addr now).take.1 ∧
      (l.allow addr now).2 = (l.bucketAt addr now).take.2 := by
  obtain ⟨htouch, hlookup⟩ := h.touch addr now
  obtain ⟨e, he, haddr, hbucket⟩ := htouch.linked.bucket_eq hlookup
  have hb : l.bucketAt addr now = entryBucket e :=
    Option.some.inj (htouch.bucket.symm.trans hbucket)
  rw [HandshakeLimiter.allow]
  simp only [he]
  by_cases hempty : e.tokens < 1
  · have htake : (entryBucket e).take = (entryBucket e, false) := if_pos hempty
    rw [if_pos hempty, hb, htake]
    exact ⟨hb ▸ htouch, rfl⟩
  · have htake : (entryBucket e).take = (⟨e.tokens - 1, e.last⟩, true) := if_neg hempty
    have hset := htouch.linked.set hlookup
      (show ({ e with tokens := e.tokens - 1 } : HandshakeEntry).addr = addr from haddr)
    rw [if_neg hempty, hb, htake]
    refine ⟨⟨hset.linked, hset.bucket, ?_, htouch.rate, htouch.burst⟩, rfl⟩
    intro addr' hne
    rcases hset.others addr' hne with hsame | hnone
    · rw [hsame]
      exact htouch.others addr' hne
    · exact .inr hnone

/-! ## Removal -/

/-- What removals do: some addresses lose their bucket. -/
structure Reduced (l l' : HandshakeLimiter) : Prop where
  linked : l'.Linked
  elements : l'.elements = l.elements
  rate : l'.rate = l.rate
  burst : l'.burst = l.burst
  buckets : ∀ addr, l'.bucket addr = l.bucket addr ∨ l'.bucket addr = none

theorem Linked.reduced_self (h : l.Linked) : Reduced l l := ⟨h, rfl, rfl, rfl, fun _ => .inl rfl⟩

theorem Linked.reduced_removeBack (h : l.Linked) (hback : l.back = some e) :
    Reduced l (l.removeBack e) := by
  refine ⟨h.removeBack hback, rfl, rfl, rfl, fun addr => ?_⟩
  rw [bucket_removeBack]
  split
  · exact .inr rfl
  · exact .inl rfl

theorem Reduced.trans {l' l'' : HandshakeLimiter} (h : Reduced l l') (h' : Reduced l' l'') :
    Reduced l l'' := by
  refine ⟨h'.linked, h'.elements.trans h.elements, h'.rate.trans h.rate,
    h'.burst.trans h.burst, fun addr => ?_⟩
  rcases h'.buckets addr with hsame | hnone
  · rw [hsame]
    exact h.buckets addr
  · exact .inr hnone

theorem cleanupLoop_succ (now age : ℚ) (rounds : ℕ) (hback : l.back = some e) :
    cleanupLoop now age (rounds + 1) l =
      if e.tokens < l.burst ∨ now - e.last < age then l
      else cleanupLoop now age rounds (l.removeBack e) := by
  rw [cleanupLoop, hback]

/-- **What `cleanup` does.** It takes buckets away and changes none. -/
theorem Linked.cleanupLoop (h : l.Linked) (now age : ℚ) (rounds : ℕ) :
    Reduced l (cleanupLoop now age rounds l) := by
  induction rounds generalizing l with
  | zero => exact h.reduced_self
  | succ rounds ih =>
      cases hback : l.back with
      | none =>
          rw [HandshakeLimiter.cleanupLoop, hback]
          exact h.reduced_self
      | some e =>
          rw [cleanupLoop_succ now age rounds hback]
          split
          · exact h.reduced_self
          · exact (h.reduced_removeBack hback).trans (ih (h.removeBack hback))

/-! ## Runs -/

inductive LimiterCall
  | allow (addr : Addr) (now : ℚ)
  | cleanup (now age : ℚ)
  deriving DecidableEq

def call (l : HandshakeLimiter) : LimiterCall → HandshakeLimiter
  | .allow addr now => (l.allow addr now).1
  | .cleanup now age => l.cleanup now age

end HandshakeLimiter

open HandshakeLimiter

/-- A limiter and the time of its last call of `allow`. -/
structure LimiterState where
  limiter : HandshakeLimiter
  clock : ℚ

namespace LimiterState

/-- The times of `allow` do not decrease. -/
def next (s : LimiterState) (call : LimiterCall) : Option LimiterState :=
  match call with
  | .allow addr now => if s.clock ≤ now then some ⟨(s.limiter.allow addr now).1, now⟩ else none
  | .cleanup now age => some ⟨s.limiter.cleanup now age, s.clock⟩

def system (rate burst : ℚ) : System LimiterState LimiterCall where
  init s := s.limiter = newHandshakeLimiter rate burst
  step s call t := s.next call = some t

/-- What every call keeps: the map and the list agree, no bucket was used after the
clock, and the tokens are in range. -/
structure Sound (rate burst : ℚ) (s : LimiterState) : Prop where
  linked : s.limiter.Linked
  rate_eq : s.limiter.rate = rate
  burst_eq : s.limiter.burst = burst
  last_le : ∀ addr b, s.limiter.bucket addr = some b → b.last ≤ s.clock
  within : ∀ addr b, s.limiter.bucket addr = some b → b.Within burst

variable {rate burst : ℚ} {s t : LimiterState}

/-- The bucket a call of `allow` asks. -/
theorem Sound.bucketAt_within (h : Sound rate burst s) (hrate : 0 ≤ rate) (hburst : 0 ≤ burst)
    (addr : Addr) (now : ℚ) : (s.limiter.bucketAt addr now).Within burst := by
  rw [bucketAt, h.rate_eq, h.burst_eq]
  cases hbucket : s.limiter.bucket addr with
  | none => exact (Bucket.full_within hburst).refill hrate hburst
  | some b => exact (h.within addr b hbucket).refill hrate hburst

theorem Sound.bucketAt_last (h : Sound rate burst s) {now : ℚ} (hnow : s.clock ≤ now)
    (addr : Addr) : (s.limiter.bucketAt addr now).last = now := by
  rw [bucketAt]
  apply Bucket.refill_last
  cases hbucket : s.limiter.bucket addr with
  | none => exact le_refl now
  | some b => exact (h.last_le addr b hbucket).trans hnow

theorem sound_init (h : (system rate burst).init s) : Sound rate burst s := by
  have hnone : ∀ addr, s.limiter.bucket addr = none := by
    intro addr
    rw [h]
    rfl
  constructor
  · rw [h]
    exact linked_new rate burst
  · rw [h]
    rfl
  · rw [h]
    rfl
  · intro addr b hb
    rw [hnone] at hb
    cases hb
  · intro addr b hb
    rw [hnone] at hb
    cases hb

/-- What a call does: a bucket afterwards was there before, or is the one that the call
asked for a token. -/
structure Called (s t : LimiterState) : Prop where
  linked : t.limiter.Linked
  rate : t.limiter.rate = s.limiter.rate
  burst : t.limiter.burst = s.limiter.burst
  clock : s.clock ≤ t.clock
  buckets : ∀ addr b, t.limiter.bucket addr = some b → s.limiter.bucket addr = some b ∨
    ∃ asked, b = (s.limiter.bucketAt asked t.clock).take.1

theorem called_of_step {call : LimiterCall} (h : s.limiter.Linked)
    (hstep : (system rate burst).step s call t) : Called s t := by
  cases call with
  | allow addr now =>
      have hnext : s.next (.allow addr now) = some t := hstep
      rw [LimiterState.next] at hnext
      split_ifs at hnext with hnow
      cases hnext
      obtain ⟨hallow, -⟩ := h.allow addr now
      refine ⟨hallow.linked, hallow.rate, hallow.burst, hnow, ?_⟩
      intro addr' b hb
      by_cases haddr : addr' = addr
      · subst haddr
        rw [hallow.bucket, Option.some.injEq] at hb
        exact .inr ⟨addr', hb.symm⟩
      · rcases hallow.others addr' haddr with hsame | hnone
        · exact .inl (hsame ▸ hb)
        · rw [hnone] at hb
          cases hb
  | cleanup now age =>
      have hnext : s.next (.cleanup now age) = some t := hstep
      cases hnext
      have hreduced := h.cleanupLoop now age s.limiter.order.length
      refine ⟨hreduced.linked, hreduced.rate, hreduced.burst, le_refl _, ?_⟩
      intro addr b hb
      rcases hreduced.buckets addr with hsame | hnone
      · exact .inl (hsame ▸ hb)
      · rw [cleanup, hnone] at hb
        cases hb

theorem Sound.next (h : Sound rate burst s) (hrate : 0 ≤ rate) (hburst : 0 ≤ burst)
    {call : LimiterCall} (hstep : (system rate burst).step s call t) : Sound rate burst t := by
  have hcalled := called_of_step h.linked hstep
  constructor
  · exact hcalled.linked
  · exact hcalled.rate.trans h.rate_eq
  · exact hcalled.burst.trans h.burst_eq
  · intro addr b hb
    rcases hcalled.buckets addr b hb with hold | ⟨asked, rfl⟩
    · exact (h.last_le addr b hold).trans hcalled.clock
    · rw [Bucket.take_last, h.bucketAt_last hcalled.clock]
  · intro addr b hb
    rcases hcalled.buckets addr b hb with hold | ⟨asked, rfl⟩
    · exact h.within addr b hold
    · exact (h.bucketAt_within hrate hburst asked t.clock).take

theorem sound_of_run (hrate : 0 ≤ rate) (hburst : 0 ≤ burst)
    {hist : List (LimiterState × LimiterCall)} (hrun : (system rate burst).Run hist s) :
    Sound rate burst s :=
  hrun.invariant (fun _ => sound_init) (fun _ _ _ h => h.next hrate hburst)

end LimiterState

end Fastwire
