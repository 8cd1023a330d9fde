/-
# The tables of the server

The address a connection is registered under is the one it has, nobody is both
connected and about to connect, and a migration token leads to a registered
connection. This much holds in every run; that every registered connection is
found by its token needs the tokens to be fresh.
-/

import Fastwire.Server.Changes

namespace Fastwire

open Crypto Lib

namespace Server

/-! ## Invariants -/

/-- What holds of the tables whatever tokens are drawn. A connection that is not
registered has been torn down. -/
structure Sound (s : Server) : Prop where
  conns_addr : ∀ {a i}, s.conns.lookup a = some i → ∃ c, s.heap[i]? = some c ∧ c.remoteAddr = a
  disjoint : ∀ {a i}, s.conns.lookup a = some i → s.pending.lookup a = none
  tokens_sound : ∀ {t i}, s.tokens.lookup t = some i → ∃ c, s.heap[i]? = some c ∧
    s.conns.lookup c.remoteAddr = some i ∧ migrates c.features = true ∧ c.migrationToken = t
  dead : ∀ {i : ℕ} {c : Connection}, s.heap[i]? = some c →
    s.conns.lookup c.remoteAddr = some i ∨ c.state = .disconnected

/-- The token of a handshake is in nobody else's hands. -/
def Unused (s : Server) (ph : PendingHandshake) : Prop :=
  migrates ph.features = true →
    (∀ (i : ℕ) (c : Connection), s.heap[i]? = some c → migrates c.features = true →
      c.migrationToken ≠ ph.migrationToken.toList) ∧
    ∀ (a : AddrPort) (other : PendingHandshake), s.pending.lookup a = some other →
      migrates other.features = true →
      other.migrationToken ≠ ph.migrationToken

/-- No two parties have the same token. -/
structure Distinct (s : Server) : Prop where
  heap_distinct : ∀ {i j : ℕ} {c d : Connection}, s.heap[i]? = some c → s.heap[j]? = some d →
    migrates c.features = true → migrates d.features = true →
    c.migrationToken = d.migrationToken → i = j
  pending_heap : ∀ {a : AddrPort} {ph : PendingHandshake} {i : ℕ} {c : Connection},
    s.pending.lookup a = some ph → s.heap[i]? = some c →
    migrates ph.features = true → migrates c.features = true →
    c.migrationToken ≠ ph.migrationToken.toList
  pending_distinct : ∀ {a b : AddrPort} {ph other : PendingHandshake},
    s.pending.lookup a = some ph → s.pending.lookup b = some other →
    migrates ph.features = true → migrates other.features = true →
    ph.migrationToken = other.migrationToken → a = b

/-- What holds besides if the tokens are fresh: a registered connection is found
by its token. -/
structure Findable (s : Server) : Prop extends Distinct s where
  tokens_complete : ∀ {i : ℕ} {c : Connection}, s.heap[i]? = some c →
    s.conns.lookup c.remoteAddr = some i → migrates c.features = true →
    s.tokens.lookup c.migrationToken = some i

theorem sound_empty : Sound empty :=
  ⟨by simp [empty], by simp [empty], by simp [empty], by simp [empty]⟩

theorem findable_empty : Findable empty :=
  ⟨⟨by simp [empty], by simp [empty], by simp [empty]⟩, by simp [empty]⟩

/-! ## Writing a connection back -/

section

variable {s : Server} {i j : ℕ} {c c' d : Connection}

/-- The names of a connection: what the tables know of it. -/
def names (c : Connection) : AddrPort × UInt8 × Bytes :=
  (c.remoteAddr, c.features, c.migrationToken)

theorem names_of_identity (same : c'.identity = c.identity) : names c' = names c := by
  simp only [Connection.identity, Prod.mk.injEq] at same
  simp [names, same]

/-- A connection in the heap after a write has the names of the one before. -/
theorem setConn_inv (found : s.heap[i]? = some c) (same : names c' = names c)
    (hd : (s.setConn i c').heap[j]? = some d) :
    ∃ e, s.heap[j]? = some e ∧ names d = names e ∧ (d = e ∨ j = i ∧ d = c') := by
  by_cases hij : i = j
  · subst hij
    rw [setConn_getElem found, Option.some.injEq] at hd
    subst hd
    exact ⟨c, found, same, .inr ⟨rfl, rfl⟩⟩
  · rw [setConn, List.getElem?_set_ne hij] at hd
    exact ⟨d, hd, rfl, .inl rfl⟩

theorem setConn_of_getElem (found : s.heap[i]? = some c) (same : names c' = names c)
    (hd : s.heap[j]? = some d) :
    ∃ e, (s.setConn i c').heap[j]? = some e ∧ names e = names d := by
  by_cases hij : i = j
  · subst hij
    rw [found, Option.some.injEq] at hd
    subst hd
    exact ⟨c', setConn_getElem found, same⟩
  · exact ⟨d, by rwa [setConn, List.getElem?_set_ne hij], rfl⟩

theorem Sound.setConn (h : s.Sound) (found : s.heap[i]? = some c) (same : names c' = names c)
    (hlife : s.conns.lookup c.remoteAddr = some i ∨ c'.state = .disconnected) :
    (s.setConn i c').Sound := by
  constructor
  · intro a j hj
    obtain ⟨d, hd, haddr⟩ := h.conns_addr hj
    obtain ⟨e, he, hnames⟩ := setConn_of_getElem found same hd
    exact ⟨e, he, (congrArg Prod.fst hnames).trans haddr⟩
  · exact h.disjoint
  · intro t j hj
    obtain ⟨d, hd, hreg, hmigrates, htoken⟩ := h.tokens_sound hj
    obtain ⟨e, he, hnames⟩ := setConn_of_getElem found same hd
    simp only [names, Prod.mk.injEq] at hnames
    refine ⟨e, he, ?_, ?_, ?_⟩
    · rwa [hnames.1]
    · rwa [hnames.2.1]
    · rwa [hnames.2.2]
  · intro j d hd
    obtain ⟨e, he, hnames, heq | ⟨rfl, rfl⟩⟩ := setConn_inv found same hd
    · rw [heq]
      exact h.dead he
    · have haddr : d.remoteAddr = c.remoteAddr := congrArg Prod.fst same
      rw [haddr]
      exact hlife

/-- Tokens stay distinct as long as nobody gets another one. -/
theorem Distinct.of_heap {s' : Server} (h : s.Distinct) (hpending : s'.pending = s.pending)
    (hheap : ∀ {j : ℕ} {d : Connection}, s'.heap[j]? = some d → ∃ e, s.heap[j]? = some e ∧
      d.features = e.features ∧ d.migrationToken = e.migrationToken) : s'.Distinct := by
  constructor
  · intro j k d d' hd hd' hm hm' htoken
    obtain ⟨e, he, hfeatures, htok⟩ := hheap hd
    obtain ⟨e', he', hfeatures', htok'⟩ := hheap hd'
    rw [hfeatures] at hm
    rw [hfeatures'] at hm'
    rw [htok, htok'] at htoken
    exact h.heap_distinct he he' hm hm' htoken
  · intro a ph j d hph hd hm hm'
    obtain ⟨e, he, hfeatures, htok⟩ := hheap hd
    rw [hpending] at hph
    rw [hfeatures] at hm'
    rw [htok]
    exact h.pending_heap hph he hm hm'
  · intro a b ph other hph hother
    rw [hpending] at hph hother
    exact h.pending_distinct hph hother

theorem Findable.setConn (h : s.Findable) (found : s.heap[i]? = some c)
    (same : names c' = names c) : (s.setConn i c').Findable := by
  have hdistinct : (s.setConn i c').Distinct := by
    refine h.toDistinct.of_heap rfl ?_
    intro j d hd
    obtain ⟨e, he, hnames, -⟩ := setConn_inv found same hd
    simp only [names, Prod.mk.injEq] at hnames
    exact ⟨e, he, hnames.2.1, hnames.2.2⟩
  refine ⟨hdistinct, ?_⟩
  intro j d hd hreg hmigrates
  obtain ⟨e, he, hnames, -⟩ := setConn_inv found same hd
  simp only [names, Prod.mk.injEq] at hnames
  rw [hnames.1] at hreg
  rw [hnames.2.1] at hmigrates
  rw [hnames.2.2]
  exact h.tokens_complete he hreg hmigrates

/-! ## Teardown -/

theorem Sound.removeConnection (h : s.Sound) (found : s.heap[i]? = some c) (held : s.Held i)
    (hstate : c.state = .disconnected) : (s.removeConnection c).Sound := by
  -- whoever is registered under the address of the connection is the connection
  have hself : ∀ {j d}, s.heap[j]? = some d → s.conns.lookup d.remoteAddr = some j →
      d.remoteAddr = c.remoteAddr → j = i ∧ d = c := by
    intro j d hd hreg haddr
    rw [haddr] at hreg
    rcases held c found with heq | heq
    · rw [hreg, Option.some.injEq] at heq
      subst heq
      rw [found, Option.some.injEq] at hd
      exact ⟨rfl, hd.symm⟩
    · rw [hreg] at heq
      cases heq
  constructor
  · intro a j hj
    rw [Server.removeConnection, Table.lookup_erase_eq] at hj
    split at hj
    · cases hj
    · exact h.conns_addr hj
  · intro a j hj
    rw [Server.removeConnection, Table.lookup_erase_eq] at hj
    split at hj
    · cases hj
    · exact h.disjoint hj
  · intro t j hj
    have hbefore : s.tokens.lookup t = some j ∧
        (migrates c.features = true → t ≠ c.migrationToken) := by
      rw [Server.removeConnection] at hj
      dsimp only at hj
      split at hj
      · rw [Table.lookup_erase_eq] at hj
        split at hj
        · cases hj
        · rename_i hne
          exact ⟨hj, fun _ => hne⟩
      · rename_i hno
        exact ⟨hj, fun hyes => absurd hyes hno⟩
    obtain ⟨d, hd, hreg, hmigrates, htoken⟩ := h.tokens_sound hbefore.1
    refine ⟨d, hd, ?_, hmigrates, htoken⟩
    rw [Server.removeConnection, Table.lookup_erase_eq]
    split
    · rename_i haddr
      obtain ⟨-, rfl⟩ := hself hd hreg haddr
      exact absurd htoken.symm (hbefore.2 hmigrates)
    · exact hreg
  · intro j d hd
    rcases h.dead hd with hreg | hdead
    · rw [Server.removeConnection, Table.lookup_erase_eq]
      split
      · rename_i haddr
        obtain ⟨-, rfl⟩ := hself hd hreg haddr
        exact .inr hstate
      · exact .inl hreg
    · exact .inr hdead

theorem Findable.removeConnection (h : s.Findable) (found : s.heap[i]? = some c) :
    (s.removeConnection c).Findable := by
  refine ⟨⟨h.heap_distinct, h.pending_heap, h.pending_distinct⟩, ?_⟩
  intro j d hd hreg hmigrates
  rw [Server.removeConnection, Table.lookup_erase_eq] at hreg
  split at hreg
  · cases hreg
  · rename_i hne
    have hlook := h.tokens_complete hd hreg hmigrates
    rw [Server.removeConnection]
    dsimp only
    split
    · rename_i hmigrates'
      rw [Table.lookup_erase_eq]
      split
      · rename_i htoken
        obtain rfl := h.heap_distinct hd found hmigrates hmigrates' htoken
        have heq : c = d := Option.some.inj (found.symm.trans hd)
        exact absurd (congrArg Connection.remoteAddr heq.symm) hne
      · exact hlook
    · exact hlook

theorem Sound.settle (h : s.Sound) (found : s.heap[i]? = some c) {events : List Event}
    (held : s.Held i ∨ events = []) (same : c'.identity = c.identity)
    (life : Lifecycle c c' events) : (s.settle i c' events).1.Sound := by
  have hset : (s.setConn i c').Sound := by
    refine h.setConn found (names_of_identity same) ?_
    exact (h.dead found).imp id life.disconnected
  rw [Server.settle]
  split
  · rename_i hany
    rcases held with held | rfl
    · refine hset.removeConnection (setConn_getElem found) ?_ (life.state_of_any hany)
      exact held.setConn found (congrArg Prod.fst same)
    · simp at hany
  · exact hset

theorem Findable.settle (h : s.Findable) (found : s.heap[i]? = some c)
    (same : c'.identity = c.identity) (events : List Event) :
    (s.settle i c' events).1.Findable := by
  have hset : (s.setConn i c').Findable := h.setConn found (names_of_identity same)
  rw [Server.settle]
  split
  · exact hset.removeConnection (setConn_getElem found)
  · exact hset

/-! ## Migration -/

theorem moveTo_eq (registered : s.conns.lookup c.remoteAddr = some i) {newAddr : AddrPort}
    (free : s.conns.lookup newAddr = none) :
    s.moveTo i c newAddr = { s with
      heap := s.heap.set i { c with remoteAddr := newAddr }
      conns := (s.conns.erase c.remoteAddr).insert newAddr i } := by
  rw [moveTo, if_pos]
  intro heq
  rw [heq, free] at registered
  cases registered

/-- The connection under an address after a move. -/
theorem moveTo_lookup (registered : s.conns.lookup c.remoteAddr = some i) {newAddr : AddrPort}
    (free : s.conns.lookup newAddr = none) (a : AddrPort) :
    (s.moveTo i c newAddr).conns.lookup a =
      if a = newAddr then some i else if a = c.remoteAddr then none else s.conns.lookup a := by
  rw [moveTo_eq registered free, Table.lookup_insert_eq, Table.lookup_erase_eq]

/-- The heap after a move. -/
theorem moveTo_inv (found : s.heap[i]? = some c)
    (registered : s.conns.lookup c.remoteAddr = some i) {newAddr : AddrPort}
    (free : s.conns.lookup newAddr = none) (hd : (s.moveTo i c newAddr).heap[j]? = some d) :
    (j = i ∧ d = { c with remoteAddr := newAddr }) ∨ j ≠ i ∧ s.heap[j]? = some d := by
  rw [moveTo_eq registered free] at hd
  by_cases hij : i = j
  · subst hij
    rw [List.getElem?_set_self (List.getElem?_eq_some_iff.mp found).1, Option.some.injEq] at hd
    exact .inl ⟨rfl, hd.symm⟩
  · rw [List.getElem?_set_ne hij] at hd
    exact .inr ⟨Ne.symm hij, hd⟩

theorem moveTo_getElem (found : s.heap[i]? = some c)
    (registered : s.conns.lookup c.remoteAddr = some i) {newAddr : AddrPort}
    (free : s.conns.lookup newAddr = none) :
    (s.moveTo i c newAddr).heap[i]? = some { c with remoteAddr := newAddr } := by
  rw [moveTo_eq registered free]
  exact List.getElem?_set_self (List.getElem?_eq_some_iff.mp found).1

theorem moveTo_getElem_ne (registered : s.conns.lookup c.remoteAddr = some i) {newAddr : AddrPort}
    (free : s.conns.lookup newAddr = none) (hne : j ≠ i) :
    (s.moveTo i c newAddr).heap[j]? = s.heap[j]? := by
  rw [moveTo_eq registered free]
  exact List.getElem?_set_ne hne.symm

/-- A move leaves the other registrations alone. -/
theorem moveTo_lookup_other (registered : s.conns.lookup c.remoteAddr = some i)
    {newAddr : AddrPort} (free : s.conns.lookup newAddr = none) (hne : j ≠ i) (a : AddrPort) :
    (s.moveTo i c newAddr).conns.lookup a = some j ↔ s.conns.lookup a = some j := by
  rw [moveTo_lookup registered free]
  split
  · rename_i heq
    subst heq
    simp [free, hne.symm]
  · split
    · rename_i heq
      subst heq
      simp [registered, hne.symm]
    · rfl

theorem Sound.moveTo (h : s.Sound) (found : s.heap[i]? = some c)
    (registered : s.conns.lookup c.remoteAddr = some i) {newAddr : AddrPort}
    (free : s.conns.lookup newAddr = none) (settled : s.pending.lookup newAddr = none) :
    (s.moveTo i c newAddr).Sound := by
  have hhere : (s.moveTo i c newAddr).conns.lookup newAddr = some i := by
    rw [moveTo_lookup registered free, if_pos rfl]
  have hpending : (s.moveTo i c newAddr).pending = s.pending := by
    rw [moveTo_eq registered free]
  have htokens : (s.moveTo i c newAddr).tokens = s.tokens := by
    rw [moveTo_eq registered free]
  constructor
  · intro a j hj
    by_cases hji : j = i
    · subst hji
      rw [moveTo_lookup registered free] at hj
      split at hj
      · rename_i heq
        exact ⟨_, moveTo_getElem found registered free, heq.symm⟩
      · -- the old address is no longer registered
        rename_i hnew
        split at hj
        · cases hj
        · rename_i hold
          obtain ⟨d, hd, haddr⟩ := h.conns_addr hj
          obtain rfl : c = d := Option.some.inj (found.symm.trans hd)
          exact absurd haddr.symm hold
    · rw [moveTo_lookup_other registered free hji] at hj
      rw [moveTo_getElem_ne registered free hji]
      exact h.conns_addr hj
  · intro a j hj
    rw [hpending]
    by_cases hnew : a = newAddr
    · rwa [hnew]
    · rw [moveTo_lookup registered free, if_neg hnew] at hj
      split at hj
      · cases hj
      · exact h.disjoint hj
  · intro t j hj
    rw [htokens] at hj
    obtain ⟨d, hd, hreg, hmigrates, htoken⟩ := h.tokens_sound hj
    by_cases hji : j = i
    · subst hji
      obtain rfl : c = d := Option.some.inj (found.symm.trans hd)
      exact ⟨_, moveTo_getElem found registered free, hhere, hmigrates, htoken⟩
    · refine ⟨d, ?_, ?_, hmigrates, htoken⟩
      · rwa [moveTo_getElem_ne registered free hji]
      · rwa [moveTo_lookup_other registered free hji]
  · intro j d hd
    rcases moveTo_inv found registered free hd with ⟨rfl, rfl⟩ | ⟨hji, hd⟩
    · exact .inl hhere
    · rw [moveTo_lookup_other registered free hji]
      exact h.dead hd

theorem Findable.moveTo (h : s.Findable) (found : s.heap[i]? = some c)
    (registered : s.conns.lookup c.remoteAddr = some i) {newAddr : AddrPort}
    (free : s.conns.lookup newAddr = none) : (s.moveTo i c newAddr).Findable := by
  have hdistinct : (s.moveTo i c newAddr).Distinct := by
    refine h.toDistinct.of_heap (by rw [moveTo_eq registered free]) ?_
    intro j d hd
    rcases moveTo_inv found registered free hd with ⟨rfl, rfl⟩ | ⟨-, hd⟩
    · exact ⟨c, found, rfl, rfl⟩
    · exact ⟨d, hd, rfl, rfl⟩
  refine ⟨hdistinct, ?_⟩
  intro j d hd hreg hmigrates
  have htokens : (s.moveTo i c newAddr).tokens = s.tokens := by
    rw [moveTo_eq registered free]
  rw [htokens]
  rcases moveTo_inv found registered free hd with ⟨rfl, rfl⟩ | ⟨hji, hd⟩
  · have hlook : s.tokens.lookup c.migrationToken = some j :=
      h.tokens_complete found registered hmigrates
    exact hlook
  · rw [moveTo_lookup_other registered free hji] at hreg
    exact h.tokens_complete hd hreg hmigrates

/-! ## Handshakes -/

theorem register_getElem (addr : AddrPort) : (s.register addr c).heap[s.heap.length]? = some c := by
  simp [register]

theorem register_of_getElem (addr : AddrPort) (hd : s.heap[j]? = some d) :
    (s.register addr c).heap[j]? = some d := by
  rw [register, List.getElem?_append_left (List.getElem?_eq_some_iff.mp hd).1]
  exact hd

theorem register_inv {addr : AddrPort} (hd : (s.register addr c).heap[j]? = some d) :
    (j = s.heap.length ∧ d = c) ∨ s.heap[j]? = some d := by
  rw [register, List.getElem?_append] at hd
  split at hd
  · exact .inr hd
  · rename_i hle
    obtain ⟨hlt, hget⟩ := List.getElem?_eq_some_iff.mp hd
    have hzero : j - s.heap.length = 0 := by simpa using hlt
    exact .inl ⟨by omega, by simpa [hzero] using hget.symm⟩

theorem Sound.register (h : s.Sound) {addr : AddrPort} (free : s.conns.lookup addr = none)
    (haddr : c.remoteAddr = addr) : (s.register addr c).Sound := by
  have hold : ∀ {a j}, s.conns.lookup a = some j → (s.register addr c).conns.lookup a = some j := by
    intro a j hj
    rw [Server.register, Table.lookup_insert_eq, if_neg]
    · exact hj
    · intro heq
      rw [heq, free] at hj
      cases hj
  have hnew : (s.register addr c).conns.lookup c.remoteAddr = some s.heap.length := by
    rw [haddr, Server.register, Table.lookup_insert_eq, if_pos rfl]
  have hkept : ∀ {t j d}, s.heap[j]? = some d → s.conns.lookup d.remoteAddr = some j →
      migrates d.features = true → d.migrationToken = t →
      ∃ e, (s.register addr c).heap[j]? = some e ∧
        (s.register addr c).conns.lookup e.remoteAddr = some j ∧ migrates e.features = true ∧
        e.migrationToken = t :=
    fun hd hreg hm ht => ⟨_, register_of_getElem addr hd, hold hreg, hm, ht⟩
  constructor
  · intro a j hj
    rw [Server.register, Table.lookup_insert_eq] at hj
    split at hj
    · rename_i heq
      rw [← Option.some.inj hj, heq]
      exact ⟨c, register_getElem addr, haddr⟩
    · obtain ⟨d, hd, hda⟩ := h.conns_addr hj
      exact ⟨d, register_of_getElem addr hd, hda⟩
  · intro a j hj
    rw [Server.register, Table.lookup_insert_eq] at hj
    rw [Server.register, Table.lookup_erase_eq]
    split
    · rfl
    · rename_i hne
      rw [if_neg hne] at hj
      exact h.disjoint hj
  · intro t j hj
    rw [Server.register] at hj
    dsimp only at hj
    split at hj
    · rename_i hmigrates
      rw [Table.lookup_insert_eq] at hj
      split at hj
      · rename_i heq
        rw [← Option.some.inj hj, heq]
        exact ⟨c, register_getElem addr, hnew, hmigrates, rfl⟩
      · obtain ⟨d, hd, hreg, hm, ht⟩ := h.tokens_sound hj
        exact hkept hd hreg hm ht
    · obtain ⟨d, hd, hreg, hm, ht⟩ := h.tokens_sound hj
      exact hkept hd hreg hm ht
  · intro j d hd
    rcases register_inv hd with ⟨rfl, rfl⟩ | hd
    · exact .inl hnew
    · exact (h.dead hd).imp hold id

theorem Findable.register (h : s.Findable) {addr : AddrPort} {ph : PendingHandshake}
    (awaited : s.pending.lookup addr = some ph) (hfeatures : c.features = ph.features)
    (htoken : c.migrationToken = ph.migrationToken.toList) :
    (s.register addr c).Findable := by
  -- nobody has the token of the admitted connection
  have hfresh : ∀ {j : ℕ} {d : Connection}, s.heap[j]? = some d → migrates d.features = true →
      migrates c.features = true → d.migrationToken ≠ c.migrationToken := by
    intro j d hd hm hm'
    rw [htoken]
    rw [hfeatures] at hm'
    exact h.pending_heap awaited hd hm' hm
  have hpending : ∀ {a other}, (s.register addr c).pending.lookup a = some other →
      a ≠ addr ∧ s.pending.lookup a = some other := by
    intro a other hother
    rw [Server.register, Table.lookup_erase_eq] at hother
    split at hother
    · cases hother
    · rename_i hne
      exact ⟨hne, hother⟩
  refine ⟨⟨?_, ?_, ?_⟩, ?_⟩
  · intro j k d d' hd hd' hm hm' heq
    rcases register_inv hd with ⟨rfl, rfl⟩ | hold
    · rcases register_inv hd' with ⟨rfl, -⟩ | hold'
      · rfl
      · exact absurd heq.symm (hfresh hold' hm' hm)
    · rcases register_inv hd' with ⟨rfl, rfl⟩ | hold'
      · exact absurd heq (hfresh hold hm hm')
      · exact h.heap_distinct hold hold' hm hm' heq
  · intro a other j d hother hd hm hm'
    obtain ⟨hne, hbefore⟩ := hpending hother
    rcases register_inv hd with ⟨rfl, rfl⟩ | hold
    · intro heq
      rw [htoken] at heq
      rw [hfeatures] at hm'
      exact hne (h.pending_distinct hbefore awaited hm hm' (Vector.toList_inj.mp heq).symm)
    · exact h.pending_heap hbefore hold hm hm'
  · intro a b other other' hother hother'
    exact h.pending_distinct (hpending hother).2 (hpending hother').2
  · intro j d hd hreg hm
    rcases register_inv hd with ⟨rfl, rfl⟩ | hd
    · rw [Server.register]
      dsimp only
      rw [if_pos hm, Table.lookup_insert_eq, if_pos rfl]
    · have hreg' : s.conns.lookup d.remoteAddr = some j := by
        rw [Server.register, Table.lookup_insert_eq] at hreg
        split at hreg
        · have hlt := (List.getElem?_eq_some_iff.mp hd).1
          have heq := Option.some.inj hreg
          omega
        · exact hreg
      have hlook := h.tokens_complete hd hreg' hm
      rw [Server.register]
      dsimp only
      split
      · rename_i hmc
        rw [Table.lookup_insert_eq, if_neg (hfresh hd hm hmc)]
        exact hlook
      · exact hlook

theorem Sound.remember (h : s.Sound) {addr : AddrPort} (free : s.conns.lookup addr = none)
    (ph : PendingHandshake) : Sound { s with pending := s.pending.insert addr ph } := by
  refine ⟨h.conns_addr, ?_, h.tokens_sound, h.dead⟩
  intro a j hj
  rw [Table.lookup_insert_eq, if_neg]
  · exact h.disjoint hj
  · intro heq
    rw [heq, free] at hj
    cases hj

theorem Findable.remember (h : s.Findable) (addr : AddrPort) {ph : PendingHandshake}
    (fresh : s.Unused ph) : Findable { s with pending := s.pending.insert addr ph } := by
  refine ⟨⟨h.heap_distinct, ?_, ?_⟩, h.tokens_complete⟩
  · intro a other j d hother hd hm hm'
    rw [Table.lookup_insert_eq] at hother
    split at hother
    · obtain rfl := Option.some.inj hother
      exact (fresh hm).1 j d hd hm'
    · exact h.pending_heap hother hd hm hm'
  · intro a b other other' hother hother' hm hm' heq
    rw [Table.lookup_insert_eq] at hother hother'
    split at hother
    · obtain rfl := Option.some.inj hother
      split at hother'
      · rename_i ha hb
        rw [ha, hb]
      · exact absurd heq.symm ((fresh hm).2 b other' hother' hm')
    · split at hother'
      · obtain rfl := Option.some.inj hother'
        exact absurd heq ((fresh hm').2 a other hother hm)
      · exact h.pending_distinct hother hother' hm hm' heq

theorem lookup_of_filter {keep : PendingHandshake → Bool} {a : AddrPort} {ph : PendingHandshake}
    (hlook : (s.pending.filter keep).lookup a = some ph) : s.pending.lookup a = some ph := by
  rw [Table.lookup_filter, Option.filter_eq_some_iff] at hlook
  exact hlook.1

theorem Sound.forget (h : s.Sound) (keep : PendingHandshake → Bool) :
    Sound { s with pending := s.pending.filter keep } := by
  refine ⟨h.conns_addr, ?_, h.tokens_sound, h.dead⟩
  intro a j hj
  rw [Table.lookup_filter, h.disjoint hj]
  rfl

theorem Findable.forget (h : s.Findable) (keep : PendingHandshake → Bool) :
    Findable { s with pending := s.pending.filter keep } := by
  refine ⟨⟨h.heap_distinct, ?_, ?_⟩, h.tokens_complete⟩
  · intro a ph j d hph
    exact h.pending_heap (lookup_of_filter hph)
  · intro a b ph other hph hother
    exact h.pending_distinct (lookup_of_filter hph) (lookup_of_filter hother)

end

/-! ## Changes keep the invariants -/

section

variable {P : Primitives} {codecs : Codecs} {Fresh : Server → PendingHandshake → Prop}
  {active : ℕ → Prop} {src : AddrPort} {t t' : Trace}

theorem Change.sound (hchange : Change P codecs Fresh active src t t') (h : t.server.Sound) :
    t'.server.Sound := by
  cases hchange with
  | sent addr data => exact h
  | refused act e => exact h
  | decrypted act found opens => exact h.setConn found rfl (h.dead found)
  | called act found held same life => exact h.settle found held same life
  | @closed s log i c c' act found same live life_eq =>
      refine h.setConn found (names_of_identity same) (.inl ((h.dead found).resolve_right ?_))
      simp [live]
  | moved act found registered free settled => exact h.moveTo found registered free settled
  | admitted awaited free accepted =>
      obtain ⟨_, _, _, _, -, -, -, -, rfl⟩ := serverProcessResponse_ok_inv accepted
      exact h.register free rfl
  | remembered free fresh => exact h.remember free _
  | expired keep => exact h.forget keep

theorem Changes.sound (hchanges : Changes P codecs Fresh active src t t') (h : t.server.Sound) :
    t'.server.Sound := by
  induction hchanges with
  | refl => exact h
  | tail _ hchange ih => exact hchange.sound ih

theorem Change.findable (hchange : Change P codecs Unused active src t t') (h : t.server.Findable) :
    t'.server.Findable := by
  cases hchange with
  | sent addr data => exact h
  | refused act e => exact h
  | decrypted act found opens => exact h.setConn found rfl
  | called act found held same life => exact h.settle found same _
  | closed act found same live life_eq => exact h.setConn found (names_of_identity same)
  | moved act found registered free settled => exact h.moveTo found registered free
  | admitted awaited free accepted =>
      obtain ⟨_, _, _, _, -, -, -, -, rfl⟩ := serverProcessResponse_ok_inv accepted
      exact h.register awaited rfl rfl
  | remembered free fresh => exact h.remember src fresh
  | expired keep => exact h.forget keep

theorem Changes.findable (hchanges : Changes P codecs Unused active src t t')
    (h : t.server.Findable) :
    t'.server.Findable := by
  induction hchanges with
  | refl => exact h
  | tail _ hchange ih => exact hchange.findable ih

/-- A connection that nobody may touch stays as it is. -/
theorem Change.untouched (hchange : Change P codecs Fresh active src t t') {i : ℕ}
    {c : Connection} (hactive : ¬active i) (found : t.server.heap[i]? = some c) :
    t'.server.heap[i]? = some c ∧ eventsOf i t'.log = eventsOf i t.log ∧
      (t'.server.Registered i → t.server.Registered i) := by
  -- an active connection is another one
  have hne : ∀ {j}, active j → j ≠ i := by
    rintro j hj rfl
    exact hactive hj
  cases hchange with
  | sent addr data => exact ⟨found, eventsOf_append _ (by simp [ServerEvent.owner]), id⟩
  | refused act e => exact ⟨found, eventsOf_append _ (by simp [ServerEvent.owner, hne act]), id⟩
  | decrypted act found' opens =>
      refine ⟨?_, eventsOf_append _ (by simp [ServerEvent.owner, hne act]), id⟩
      rw [setConn, List.getElem?_set_ne (hne act)]
      exact found
  | @called s log j d d' events act found' held same life =>
      have hheap : (s.setConn j d').heap[i]? = some c := by
        rw [setConn, List.getElem?_set_ne (hne act)]
        exact found
      have hlog : eventsOf i (log ++ events.map (.conn j)) = eventsOf i log := by
        refine eventsOf_append log ?_
        intro ev hev
        obtain ⟨call, -, rfl⟩ := List.mem_map.mp hev
        simp [ServerEvent.owner, hne act]
      rw [settle]
      split
      · refine ⟨hheap, hlog, ?_⟩
        rintro ⟨a, ha⟩
        rw [removeConnection, Table.lookup_erase_eq] at ha
        split at ha
        · cases ha
        · exact ⟨a, ha⟩
      · exact ⟨hheap, hlog, id⟩
  | closed act found' same live life_eq =>
      refine ⟨?_, rfl, id⟩
      rw [setConn, List.getElem?_set_ne (hne act)]
      exact found
  | moved act found' registered free settled =>
      refine ⟨?_, rfl, ?_⟩
      · rw [moveTo_getElem_ne registered free (hne act).symm]
        exact found
      · rintro ⟨a, ha⟩
        rw [moveTo_lookup_other registered free (hne act).symm] at ha
        exact ⟨a, ha⟩
  | @admitted s log ph data now d awaited free accepted =>
      have hlt : i < s.heap.length := (List.getElem?_eq_some_iff.mp found).1
      have hother : s.heap.length ≠ i := Nat.ne_of_gt hlt
      refine ⟨register_of_getElem src found,
        eventsOf_append log (by simp [ServerEvent.owner, hother]), ?_⟩
      rintro ⟨a, ha⟩
      rw [register, Table.lookup_insert_eq] at ha
      split at ha
      · exact absurd (Option.some.inj ha) hother
      · exact ⟨a, ha⟩
  | remembered free fresh => exact ⟨found, rfl, id⟩
  | expired keep => exact ⟨found, rfl, id⟩

theorem Changes.untouched (hchanges : Changes P codecs Fresh active src t t') {i : ℕ}
    {c : Connection} (hactive : ¬active i) (found : t.server.heap[i]? = some c) :
    t'.server.heap[i]? = some c ∧ eventsOf i t'.log = eventsOf i t.log ∧
      (t'.server.Registered i → t.server.Registered i) := by
  induction hchanges with
  | refl => exact ⟨found, rfl, id⟩
  | tail _ hchange ih =>
      obtain ⟨found', hlog, hreg⟩ := ih
      obtain ⟨found'', hlog', hreg'⟩ := hchange.untouched hactive found'
      exact ⟨found'', hlog'.trans hlog, hreg ∘ hreg'⟩

end

end Server

end Fastwire
