/-
# The limiter as a list of addresses

Read through the entries that its elements carry, the order list of the limiter is a
list of addresses, and the map has these addresses and no others. On this list `allow`
is a use of its address, whether the handshake is admitted or not, and `cleanup` drops
addresses from the end. So the list is in the order of the last calls of `allow`, and a
new address at capacity takes the place of the one asked for least recently.

Neither the tokens nor the times matter for this.
-/

import Fastwire.Lib.Recency
import Fastwire.Server.Limiter

namespace Fastwire

open Lib Recency

namespace HandshakeLimiter

variable {l : HandshakeLimiter} {addr : Addr} {el : ℕ} {e : HandshakeEntry} {now : ℚ}

def addresses (l : HandshakeLimiter) : List Addr :=
  l.order.filterMap fun el => (l.elements[el]?).map HandshakeEntry.addr

theorem mem_addresses : addr ∈ l.addresses ↔
    ∃ el ∈ l.order, ∃ e, l.elements[el]? = some e ∧ e.addr = addr := by
  simp only [addresses, List.mem_filterMap, Option.map_eq_some_iff]

/-- The map has the addresses of the list. -/
theorem Linked.mem_entries_iff (h : l.Linked) : addr ∈ l.entries ↔ addr ∈ l.addresses := by
  rw [mem_addresses]
  constructor
  · intro hmem
    obtain ⟨el, hlookup⟩ := Option.isSome_iff_exists.mp (AList.lookup_isSome.mpr hmem)
    exact ⟨el, h.listed addr el hlookup⟩
  · rintro ⟨el, hel, e, he, rfl⟩
    obtain ⟨e', he', hlookup⟩ := h.carried el hel
    obtain rfl : e = e' := Option.some.inj (he.symm.trans he')
    exact Table.mem_of_lookup hlookup

/-- No element dangles. -/
theorem Linked.length_addresses (h : l.Linked) : l.addresses.length = l.order.length := by
  apply List.filterMap_length_eq_length.mpr
  intro el hel
  obtain ⟨e, he, -⟩ := h.carried el hel
  rw [he]
  rfl

/-- No address is listed twice. -/
theorem Linked.nodup_addresses (h : l.Linked) : l.addresses.Nodup := by
  apply List.pairwise_filterMap.mpr
  apply h.nodup.imp_of_mem
  intro el el' hel hel' hne addr haddr addr' haddr' heq
  obtain ⟨e, he, hlookup⟩ := h.carried el hel
  obtain ⟨e', he', hlookup'⟩ := h.carried el' hel'
  rw [he, Option.map_some, Option.some.injEq] at haddr
  rw [he', Option.map_some, Option.some.injEq] at haddr'
  rw [haddr, heq, ← haddr', hlookup', Option.some.injEq] at hlookup
  exact hne hlookup.symm

theorem Linked.keys_perm_addresses (h : l.Linked) : l.entries.keys.Perm l.addresses := by
  apply (List.perm_ext_iff_of_nodup l.entries.keys_nodup h.nodup_addresses).mpr
  intro addr
  rw [← AList.mem_keys]
  exact h.mem_entries_iff

/-! ## What the operations do to the list -/

theorem addresses_setElements {elements : List HandshakeEntry}
    (hsame : ∀ el : ℕ, (elements[el]?).map HandshakeEntry.addr =
      (l.elements[el]?).map HandshakeEntry.addr) :
    { l with elements := elements }.addresses = l.addresses := by
  unfold addresses
  congr 1
  funext el
  exact hsame el

theorem Linked.addresses_moveToFront (h : l.Linked) (hel : el ∈ l.order)
    (he : l.elements[el]? = some e) :
    (l.moveToFront el).addresses = e.addr :: l.addresses.erase e.addr := by
  have hnodup := h.nodup_addresses
  obtain ⟨front, behind, -, horder, herase⟩ := List.exists_erase_eq hel
  unfold addresses at hnodup ⊢
  rw [horder, List.filterMap_append, List.filterMap_cons_some (by rw [he, Option.map_some])]
    at hnodup ⊢
  have hfront : e.addr ∉ front.filterMap fun el => (l.elements[el]?).map HandshakeEntry.addr := by
    intro hmem
    exact (List.nodup_append.mp hnodup).2.2 _ hmem _ List.mem_cons_self rfl
  rw [List.erase_append_right _ hfront, List.erase_cons_head, ← List.filterMap_append,
    HandshakeLimiter.moveToFront, if_pos hel, herase]
  rw [List.filterMap_cons_some (by rw [he, Option.map_some])]

theorem Linked.addresses_pushFront (h : l.Linked) (e : HandshakeEntry) :
    (l.pushFront e).addresses = e.addr :: l.addresses := by
  have hpushed : ((l.elements ++ [e])[l.elements.length]?).map HandshakeEntry.addr =
      some e.addr := by simp
  unfold addresses HandshakeLimiter.pushFront
  dsimp only
  rw [List.filterMap_cons_some (by rw [hpushed])]
  congr 1
  apply List.filterMap_congr
  intro el hel
  rw [List.getElem?_append_left (h.lt_length hel)]

theorem addresses_removeBack (hback : l.back = some e) :
    l.addresses = (l.removeBack e).addresses ++ [e.addr] := by
  obtain ⟨el, horder, he⟩ := back_eq_some hback
  unfold addresses HandshakeLimiter.removeBack
  dsimp only
  conv_lhs => rw [horder]
  rw [List.filterMap_append, List.filterMap_cons_some (by rw [he, Option.map_some]),
    List.filterMap_nil]

/-- A list that is not empty has an entry at its back. -/
theorem Linked.exists_back (h : l.Linked) (hpos : 0 < l.order.length) : ∃ e, l.back = some e := by
  have hne : l.order ≠ [] := List.ne_nil_of_length_pos hpos
  obtain ⟨e, he, -⟩ := h.carried _ (List.getLast_mem hne)
  refine ⟨e, ?_⟩
  rw [back, List.getLast?_eq_some_getLast hne, Option.bind_some, he]

theorem Linked.addresses_evict (h : l.Linked) :
    l.evict.addresses = if handshakeLimiterMaxEntries ≤ l.addresses.length
      then l.addresses.dropLast else l.addresses := by
  rw [h.length_addresses]
  unfold HandshakeLimiter.evict
  by_cases hfull : handshakeLimiterMaxEntries ≤ l.order.length
  · have hpos : 0 < handshakeLimiterMaxEntries := by decide
    obtain ⟨e, hback⟩ := h.exists_back (Nat.lt_of_lt_of_le hpos hfull)
    rw [if_pos hfull, if_pos hfull, hback, addresses_removeBack hback, List.dropLast_concat]
  · rw [if_neg hfull, if_neg hfull]

/-- The address becomes the one used last. -/
theorem Linked.addresses_touch (h : l.Linked) (addr : Addr) (now : ℚ) :
    (l.touch addr now).1.addresses = use handshakeLimiterMaxEntries l.addresses addr := by
  unfold use
  cases hlookup : l.entries.lookup addr with
  | some el =>
      have hmem : addr ∈ l.addresses := h.mem_entries_iff.mp (Table.mem_of_lookup hlookup)
      obtain ⟨hel, e, he, rfl⟩ := h.listed addr el hlookup
      have hsame := map_addr_set he (refill_addr l now e)
      have hentry : (l.elements.set el (l.refill now e))[el]? = some (l.refill now e) :=
        List.getElem?_set_self (List.getElem?_eq_some_iff.mp he).1
      rw [touch_hit hlookup, modify_eq_set he, if_pos hmem,
        (h.setElements hsame).addresses_moveToFront hel hentry, refill_addr,
        addresses_setElements hsame]
  | none =>
      have hmem : addr ∉ l.addresses := by
        rw [← h.mem_entries_iff]
        exact AList.lookup_eq_none.mp hlookup
      rw [touch_miss hlookup, if_neg hmem, h.evict.addresses_pushFront, h.addresses_evict]
      split <;> rfl

/-- **`allow` is a use of the address**, admitted or not. -/
theorem Linked.addresses_allow (h : l.Linked) (addr : Addr) (now : ℚ) :
    (l.allow addr now).1.addresses = use handshakeLimiterMaxEntries l.addresses addr := by
  rw [← h.addresses_touch addr now, HandshakeLimiter.allow]
  dsimp only
  cases he : (l.touch addr now).1.elements[(l.touch addr now).2]? with
  | none => rfl
  | some e =>
      dsimp only
      split_ifs
      · rfl
      · -- the token is taken in place
        exact addresses_setElements (map_addr_set he rfl)

/-- **`cleanup` drops addresses from the end.** -/
theorem addresses_cleanupLoop (now age : ℚ) (rounds : ℕ) (l : HandshakeLimiter) :
    (cleanupLoop now age rounds l).addresses <+: l.addresses := by
  induction rounds generalizing l with
  | zero => exact List.prefix_refl _
  | succ rounds ih =>
      cases hback : l.back with
      | none =>
          refine ⟨[], ?_⟩
          rw [cleanupLoop, hback, List.append_nil]
      | some e =>
          rw [cleanupLoop_succ now age rounds hback]
          split
          · exact List.prefix_refl _
          · rw [addresses_removeBack hback]
            exact (ih _).trans (List.prefix_append _ _)

end HandshakeLimiter

open HandshakeLimiter

namespace LimiterState

variable {rate burst : ℚ} {s t : LimiterState}

/-! ## Runs -/

/-- The addresses of the calls of `allow`, newest first. -/
def asked (hist : List (LimiterState × LimiterCall)) : List Addr :=
  hist.filterMap fun taken =>
    match taken.2 with
    | .allow addr _ => some addr
    | .cleanup _ _ => none

@[simp]
theorem asked_allow (s : LimiterState) (addr : Addr) (now : ℚ)
    (hist : List (LimiterState × LimiterCall)) :
    asked ((s, .allow addr now) :: hist) = addr :: asked hist := rfl

@[simp]
theorem asked_cleanup (s : LimiterState) (now age : ℚ)
    (hist : List (LimiterState × LimiterCall)) :
    asked ((s, .cleanup now age) :: hist) = asked hist := rfl

/-- The limiter after a history: map and list agree, and the list is as the calls of
`allow` say. -/
structure Recorded (hist : List (LimiterState × LimiterCall)) (s : LimiterState) : Prop where
  linked : s.limiter.Linked
  recent : MostRecentFirst (asked hist) s.limiter.addresses
  length_le : s.limiter.addresses.length ≤ handshakeLimiterMaxEntries

theorem recorded_init (h : (system rate burst).init s) : Recorded [] s := by
  have hnone : s.limiter.addresses = [] := by
    rw [h]
    rfl
  constructor
  · rw [h]
    exact linked_new rate burst
  · rw [hnone]
    exact .nil _
  · rw [hnone]
    exact Nat.zero_le _

theorem Recorded.next {hist : List (LimiterState × LimiterCall)} (h : Recorded hist s)
    {call : LimiterCall} (hstep : (system rate burst).step s call t) :
    Recorded ((s, call) :: hist) t := by
  have hlinked := (called_of_step h.linked hstep).linked
  cases call with
  | allow addr now =>
      have hnext : s.next (.allow addr now) = some t := hstep
      rw [LimiterState.next] at hnext
      split_ifs at hnext with hnow
      cases hnext
      have haddresses := h.linked.addresses_allow addr now
      refine ⟨hlinked, ?_, ?_⟩
      · rw [asked_allow, haddresses]
        exact h.recent.use _ addr
      · rw [haddresses]
        exact length_use_le (by decide) h.length_le addr
  | cleanup now age =>
      have hnext : s.next (.cleanup now age) = some t := hstep
      cases hnext
      have hpre := addresses_cleanupLoop now age s.limiter.order.length s.limiter
      refine ⟨hlinked, ?_, ?_⟩
      · rw [asked_cleanup]
        exact h.recent.sublist hpre.sublist
      · exact hpre.length_le.trans h.length_le

theorem recorded_of_run {hist : List (LimiterState × LimiterCall)}
    (hrun : (system rate burst).Run hist s) : Recorded hist s := by
  induction hrun with
  | start starts => exact recorded_init starts
  | step prior taken ih => exact ih.next taken

/-- **The limiter is an LRU cache.** After any calls

* the map and the list hold the same elements, each under the address it carries;
* the map has the addresses of the list, and none is listed twice;
* the capacity is kept;
* the addresses have been asked for, and stand in the order of the last calls for them;
* a new address at capacity takes the place of the one asked for least recently, and of
  no other. -/
theorem least_recently_used {hist : List (LimiterState × LimiterCall)}
    (hrun : (system rate burst).Run hist s) :
    s.limiter.Linked ∧
      (s.limiter.entries.keys.Perm s.limiter.addresses ∧ s.limiter.addresses.Nodup) ∧
      s.limiter.size ≤ handshakeLimiterMaxEntries ∧
      ((∀ addr ∈ s.limiter.addresses, addr ∈ asked hist) ∧
        s.limiter.addresses.Pairwise fun addr addr' =>
          (asked hist).idxOf addr < (asked hist).idxOf addr') ∧
      ∀ addr now, s.limiter.size = handshakeLimiterMaxEntries → addr ∉ s.limiter.entries →
        ∃ lru ∈ s.limiter.entries,
          (∀ other ∈ s.limiter.entries, other ≠ lru →
            (asked hist).idxOf other < (asked hist).idxOf lru) ∧
          ∀ other, other ∈ (s.limiter.allow addr now).1.entries ↔
            other = addr ∨ other ∈ s.limiter.entries ∧ other ≠ lru := by
  have h := recorded_of_run hrun
  have hlength := h.linked.length_addresses
  refine ⟨h.linked, ⟨h.linked.keys_perm_addresses, h.linked.nodup_addresses⟩, ?_,
    ⟨h.recent.used, h.recent.ordered⟩, ?_⟩
  · rw [HandshakeLimiter.size, ← hlength]
    exact h.length_le
  · intro addr now hfull hnew
    have hlinked := (h.linked.allow addr now).1.linked
    rw [HandshakeLimiter.size, ← hlength] at hfull
    simp only [h.linked.mem_entries_iff, hlinked.mem_entries_iff, h.linked.addresses_allow]
      at hnew ⊢
    exact mem_use_full h.recent (by decide) (Nat.le_of_eq hfull.symm) hnew

def counted (n : ℕ) : List Addr := ((List.range n).map (BitVec.ofNat 128)).reverse

theorem length_counted (n : ℕ) : (counted n).length = n := by
  rw [counted, List.length_reverse, List.length_map, List.length_range]

theorem notMem_counted {n : ℕ} (hn : n ≤ handshakeLimiterMaxEntries) :
    BitVec.ofNat 128 n ∉ counted n := by
  have hmax : handshakeLimiterMaxEntries = 8192 := rfl
  rw [counted, List.mem_reverse, List.mem_map]
  rintro ⟨i, hi, heq⟩
  have hlt := List.mem_range.mp hi
  have hval := congrArg BitVec.toNat heq
  rw [BitVec.toNat_ofNat, BitVec.toNat_ofNat, Nat.mod_eq_of_lt (by omega),
    Nat.mod_eq_of_lt (by omega)] at hval
  omega

/-- Calls for different addresses fill the limiter. -/
theorem exists_filled (rate burst : ℚ) {n : ℕ} (hn : n ≤ handshakeLimiterMaxEntries) :
    ∃ hist s, (system rate burst).Run hist s ∧
      s.limiter.addresses = counted n := by
  induction n with
  | zero => exact ⟨[], ⟨newHandshakeLimiter rate burst, 0⟩, .start rfl, rfl⟩
  | succ n ih =>
      obtain ⟨hist, s, hrun, haddresses⟩ := ih (Nat.le_of_succ_le hn)
      have hstep : (system rate burst).step s (.allow (BitVec.ofNat 128 n) s.clock)
          ⟨(s.limiter.allow (BitVec.ofNat 128 n) s.clock).1, s.clock⟩ := if_pos (le_refl _)
      refine ⟨_, _, hrun.step hstep, ?_⟩
      -- the address is new, and there is room for it
      have hnew := notMem_counted (Nat.le_of_succ_le hn)
      have hroom : ¬ handshakeLimiterMaxEntries ≤ (counted n).length := by
        rw [length_counted]
        omega
      show (s.limiter.allow (BitVec.ofNat 128 n) s.clock).1.addresses = _
      rw [(recorded_of_run hrun).linked.addresses_allow, haddresses, use, if_neg hnew,
        if_neg hroom, counted, counted, List.range_succ, List.map_append, List.reverse_append]
      rfl

/-- A full limiter drops an address for a new one. -/
theorem least_recently_used_full : ∃ hist s, (system 1 1).Run hist s ∧
    s.limiter.size = handshakeLimiterMaxEntries ∧
    ∃ lru ∈ s.limiter.entries,
      lru ∉ (s.limiter.allow (BitVec.ofNat 128 handshakeLimiterMaxEntries) s.clock).1.entries := by
  obtain ⟨hist, s, hrun, haddresses⟩ := exists_filled 1 1 (le_refl handshakeLimiterMaxEntries)
  have hlinked := (recorded_of_run hrun).linked
  have hsize : s.limiter.size = handshakeLimiterMaxEntries := by
    rw [HandshakeLimiter.size, ← hlinked.length_addresses, haddresses, length_counted]
  have hnew : BitVec.ofNat 128 handshakeLimiterMaxEntries ∉ s.limiter.entries := by
    rw [hlinked.mem_entries_iff, haddresses]
    exact notMem_counted (le_refl _)
  obtain ⟨lru, hlru, -, hkept⟩ := (least_recently_used hrun).2.2.2.2 _ s.clock hsize hnew
  refine ⟨hist, s, hrun, hsize, lru, hlru, ?_⟩
  rw [hkept]
  rintro (rfl | ⟨-, hne⟩)
  · exact hnew hlru
  · exact hne rfl

end LimiterState

end Fastwire
