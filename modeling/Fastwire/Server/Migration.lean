/-
# Where a connection is

The server answers to the address a connection was last seen at. The greatest
nonce it has accepted tells which packet the client sent last, so the address
should be the one that packet came from. It is, as long as a datagram that moves
the connection carries a packet that is newer than everything before; the code
does not ask for that, and a delayed packet moves the connection back.
-/

import Fastwire.Server.Forged

namespace Fastwire

open Crypto Lib

namespace Crypto.CipherState

theorem wireNonce_le_of_opens {state : CipherState} {packet : Bytes} {e : Err}
    (haead : state.aead.isSome = true) (hopens : state.opens packet = true)
    (herror : state.decrypt packet = .error e) : wireNonce packet ≤ state.replay.maxNonce := by
  obtain ⟨a, ha⟩ := Option.isSome_iff_exists.mp haead
  simp only [opens, ha, Bool.and_eq_true, decide_eq_true_eq] at hopens
  obtain ⟨plaintext, hopen⟩ := Option.isSome_iff_exists.mp hopens.2
  -- the packet opens, so that only the replay check can have refused it
  simp only [decrypt, ha, if_neg (Nat.not_lt.mpr hopens.1), hopen] at herror
  split at herror
  · rename_i hcheck
    refine state.replay.le_maxNonce_of_check ?_
    simpa using hcheck
  · cases herror

end Crypto.CipherState

/-- The greatest nonce accepted on the connection. -/
def Connection.newest (c : Connection) : ℕ := c.recvCipher.replay.maxNonce

namespace Server

/-! ## Nonces along a step -/

/-- What changes while a datagram from `src` is handled that arrived in `t₀`. -/
structure Along (src : AddrPort) (t₀ t : Trace) : Prop where
  log_bound : ∀ ev ∈ t.log, ∀ j, ev.owner = some j → j < t.server.heap.length
  log_grows : ∀ ev ∈ t₀.log, ev ∈ t.log
  kept : ∀ (i : ℕ) (c : Connection), t₀.server.heap[i]? = some c →
    ∃ d, t.server.heap[i]? = some d ∧ d.recvCipher.aead = c.recvCipher.aead ∧
      c.newest ≤ d.newest ∧ (c.newest < d.newest → .opened i d.newest src ∈ t.log) ∧
      (d.remoteAddr = c.remoteAddr ∨ d.remoteAddr = src)
  bound : ∀ (i : ℕ) (d : Connection), t.server.heap[i]? = some d →
    d.recvCipher.aead.isSome = true → ∀ n a, .opened i n a ∈ t.log → n ≤ d.newest
  fresh : ∀ (i : ℕ) (d : Connection), t.server.heap[i]? = some d → t₀.server.heap.length ≤ i →
    d.recvCipher.aead.isSome = true → d.remoteAddr = src ∧ .opened i d.newest src ∈ t.log

namespace Along

variable {src : AddrPort} {t₀ t : Trace}

/-- Nothing is opened and no connection changes. -/
theorem quiet (h : Along src t₀ t) {s' : Server} {events : List ServerEvent}
    (hheap : s'.heap = t.server.heap)
    (howner : ∀ ev ∈ events, ∀ j, ev.owner = some j → j < t.server.heap.length)
    (hopened : ∀ i n a, .opened i n a ∉ events) : Along src t₀ ⟨s', t.log ++ events⟩ := by
  have hmem : ∀ {i n a}, .opened i n a ∈ t.log ++ events → .opened i n a ∈ t.log := by
    intro i n a hin
    exact (List.mem_append.mp hin).resolve_right (hopened i n a)
  constructor
  · intro ev hev j hj
    rw [hheap]
    exact (List.mem_append.mp hev).elim (fun hold => h.log_bound ev hold j hj)
      (fun hnew => howner ev hnew j hj)
  · exact fun ev hev => List.mem_append_left _ (h.log_grows ev hev)
  · intro i c hc
    obtain ⟨d, hd, haead, hle, hlt, haddr⟩ := h.kept i c hc
    exact ⟨d, hheap ▸ hd, haead, hle, fun hnew => List.mem_append_left _ (hlt hnew), haddr⟩
  · intro i d hd haead n a hin
    exact h.bound i d (hheap ▸ hd) haead n a (hmem hin)
  · intro i d hd hle haead
    obtain ⟨haddr, hin⟩ := h.fresh i d (hheap ▸ hd) hle haead
    exact ⟨haddr, List.mem_append_left _ hin⟩

/-- One connection that was there before changes. -/
theorem set (h : Along src t₀ t) {i : ℕ} {c c' : Connection} {s' : Server}
    {events : List ServerEvent} (found : t.server.heap[i]? = some c)
    (hbefore : i < t₀.server.heap.length) (hheap : s'.heap = t.server.heap.set i c')
    (haead : c'.recvCipher.aead = c.recvCipher.aead) (hle : c.newest ≤ c'.newest)
    (hlt : c.newest < c'.newest → .opened i c'.newest src ∈ events)
    (haddr : c'.remoteAddr = c.remoteAddr ∨ c'.remoteAddr = src)
    (howner : ∀ ev ∈ events, ∀ j, ev.owner = some j → j = i)
    (hopened : c'.recvCipher.aead.isSome = true → ∀ j n a, .opened j n a ∈ events → n ≤ c'.newest) :
    Along src t₀ ⟨s', t.log ++ events⟩ := by
  have hlen := (List.getElem?_eq_some_iff.mp found).1
  have hself : s'.heap[i]? = some c' := by rw [hheap, List.getElem?_set_self hlen]
  have hother : ∀ {j}, j ≠ i → s'.heap[j]? = t.server.heap[j]? := by
    intro j hj
    rw [hheap, List.getElem?_set_ne (Ne.symm hj)]
  have hmem : ∀ {j n a}, j ≠ i → .opened j n a ∈ t.log ++ events → .opened j n a ∈ t.log := by
    intro j n a hj hin
    refine (List.mem_append.mp hin).resolve_right ?_
    exact fun hnew => hj (howner _ hnew j rfl)
  constructor
  · intro ev hev j hj
    rw [hheap, List.length_set]
    rcases List.mem_append.mp hev with hold | hnew
    · exact h.log_bound ev hold j hj
    · rw [howner ev hnew j hj]
      exact hlen
  · exact fun ev hev => List.mem_append_left _ (h.log_grows ev hev)
  · intro j b hb
    obtain ⟨d, hd, hda, hdle, hdlt, hdaddr⟩ := h.kept j b hb
    by_cases hj : j = i
    · subst hj
      obtain rfl : c = d := Option.some.inj (found.symm.trans hd)
      refine ⟨c', hself, haead.trans hda, hdle.trans hle, ?_, ?_⟩
      · intro hnew
        by_cases hraise : c.newest < c'.newest
        · exact List.mem_append_right _ (hlt hraise)
        · have heq : c'.newest = c.newest := Nat.le_antisymm (Nat.le_of_not_lt hraise) hle
          rw [heq] at hnew ⊢
          exact List.mem_append_left _ (hdlt hnew)
      · rcases haddr with haddr | haddr
        · rw [haddr]
          exact hdaddr
        · exact .inr haddr
    · exact ⟨d, (hother hj).trans hd, hda, hdle,
        fun hnew => List.mem_append_left _ (hdlt hnew), hdaddr⟩
  · intro j d hd hda n a hin
    by_cases hj : j = i
    · subst hj
      obtain rfl : c' = d := Option.some.inj (hself.symm.trans hd)
      rcases List.mem_append.mp hin with hold | hnew
      · exact (h.bound j c found (haead ▸ hda) n a hold).trans hle
      · exact hopened hda j n a hnew
    · exact h.bound j d ((hother hj).symm.trans hd) hda n a (hmem hj hin)
  · intro j d hd hnew hda
    have hj : j ≠ i := by
      rintro rfl
      exact absurd hbefore (Nat.not_lt.mpr hnew)
    obtain ⟨hdaddr, hin⟩ := h.fresh j d ((hother hj).symm.trans hd) hnew hda
    exact ⟨hdaddr, List.mem_append_left _ hin⟩

/-- A connection changes and nothing is opened. -/
theorem unopened (h : Along src t₀ t) {i : ℕ} {c c' : Connection} {s' : Server}
    {events : List ServerEvent} (found : t.server.heap[i]? = some c)
    (hbefore : i < t₀.server.heap.length) (hheap : s'.heap = t.server.heap.set i c')
    (hcipher : c'.recvCipher = c.recvCipher)
    (haddr : c'.remoteAddr = c.remoteAddr ∨ c'.remoteAddr = src)
    (howner : ∀ ev ∈ events, ∀ j, ev.owner = some j → j = i)
    (hnone : ∀ j n a, .opened j n a ∉ events) : Along src t₀ ⟨s', t.log ++ events⟩ := by
  have hnewest : c'.newest = c.newest := congrArg (fun x => x.replay.maxNonce) hcipher
  refine h.set found hbefore hheap (by rw [hcipher]) hnewest.ge ?_ haddr howner ?_
  · intro hlt
    exact absurd hnewest (Nat.ne_of_gt hlt)
  · intro _ j n a hin
    exact absurd hin (hnone j n a)

/-- A connection opens a packet. -/
theorem opened (h : Along src t₀ t) {i : ℕ} {c : Connection} {packet plaintext : Bytes}
    {cipher : CipherState} (found : t.server.heap[i]? = some c)
    (hbefore : i < t₀.server.heap.length)
    (opens : c.recvCipher.decrypt packet = .ok (plaintext, cipher)) :
    Along src t₀ ⟨t.server.setConn i (c.withRecvCipher cipher),
      t.log ++ [.opened i (CipherState.wireNonce packet) src]⟩ := by
  obtain ⟨hsame, hmax⟩ := CipherState.decrypt_ok_inv opens
  have hnewest : (c.withRecvCipher cipher).newest = if c.recvCipher.aead.isSome then
      max c.newest (CipherState.wireNonce packet) else c.newest := hmax
  refine h.set found hbefore rfl hsame ?_ ?_ (.inl rfl) ?_ ?_
  · rw [hnewest]
    split
    · exact Nat.le_max_left _ _
    · exact Nat.le_refl _
  · intro hlt
    have hraised : (c.withRecvCipher cipher).newest = CipherState.wireNonce packet := by
      rw [hnewest] at hlt ⊢
      split at hlt
      · rw [if_pos (by assumption)]
        exact Nat.max_eq_right (Nat.le_of_lt (by omega))
      · exact absurd hlt (Nat.lt_irrefl _)
    rw [hraised]
    exact List.mem_singleton_self _
  · intro ev hev j hj
    rw [List.mem_singleton.mp hev] at hj
    exact (Option.some.inj hj).symm
  · intro haead j n a hin
    obtain ⟨-, rfl, -⟩ : j = i ∧ n = CipherState.wireNonce packet ∧ a = src := by
      simpa using hin
    have hsome : c.recvCipher.aead.isSome = true := hsame ▸ haead
    rw [hnewest, if_pos hsome]
    exact Nat.le_max_right _ _

/-- A new connection. Its window has seen exactly the response. -/
theorem register (h : Along src t₀ t) {c : Connection} (haddr : c.remoteAddr = src) {nonce : ℕ}
    (hnewest : c.recvCipher.aead.isSome = true → c.newest = nonce) :
    Along src t₀ ⟨t.server.register src c, t.log ++ [.opened t.server.heap.length nonce src,
      .onConnect t.server.heap.length]⟩ := by
  have hgrow : (t.server.register src c).heap.length = t.server.heap.length + 1 := by
    simp [Server.register]
  -- nothing was reported about the new connection before
  have hunknown : ∀ {n a}, .opened t.server.heap.length n a ∉ t.log := by
    intro n a hin
    exact absurd (h.log_bound _ hin _ rfl) (Nat.lt_irrefl _)
  constructor
  · intro ev hev j hj
    rw [hgrow]
    rcases List.mem_append.mp hev with hold | hnew
    · exact Nat.lt_succ_of_lt (h.log_bound ev hold j hj)
    · rcases List.mem_pair.mp hnew with rfl | rfl
      · exact (Option.some.inj hj) ▸ Nat.lt_succ_self _
      · exact (Option.some.inj hj) ▸ Nat.lt_succ_self _
  · exact fun ev hev => List.mem_append_left _ (h.log_grows ev hev)
  · intro i b hb
    obtain ⟨d, hd, haead, hle, hlt, hdaddr⟩ := h.kept i b hb
    exact ⟨d, register_of_getElem src hd, haead, hle, fun hnew => List.mem_append_left _ (hlt hnew),
      hdaddr⟩
  · intro i d hd haead n a hin
    rcases register_inv hd with ⟨rfl, rfl⟩ | hold
    · rcases List.mem_append.mp hin with hlog | hnew
      · exact absurd hlog hunknown
      · obtain ⟨rfl, -⟩ : n = nonce ∧ a = src := by simpa using hnew
        exact Nat.le_of_eq (hnewest haead).symm
    · have hne : i ≠ t.server.heap.length :=
        Nat.ne_of_lt (List.getElem?_eq_some_iff.mp hold).1
      have hlog : .opened i n a ∈ t.log := by simpa [hne] using hin
      exact h.bound i d hold haead n a hlog
  · intro i d hd hle haead
    rcases register_inv hd with ⟨rfl, rfl⟩ | hold
    · rw [hnewest haead]
      exact ⟨haddr, by simp⟩
    · obtain ⟨hdaddr, hin⟩ := h.fresh i d hold hle haead
      exact ⟨hdaddr, List.mem_append_left _ hin⟩

end Along

section

variable {P : Primitives} {codecs : Codecs} {config : ServerConfig}
  {Fresh : Server → PendingHandshake → Prop} {active : ℕ → Prop} {src : AddrPort}
  {t₀ t t' : Trace}

theorem newest_of_identity {c c' : Connection} (same : c'.identity = c.identity) :
    c'.recvCipher = c.recvCipher ∧ c'.remoteAddr = c.remoteAddr := by
  simp only [Connection.identity, Prod.mk.injEq] at same
  exact ⟨same.2.2.2.2, same.1⟩

/-- The connection of a response has seen the nonce of the response. -/
theorem newest_of_response {data : Bytes} {ph : PendingHandshake} {addr : AddrPort} {now : ℤ}
    {c : Connection} (accepted : serverProcessResponse P codecs data ph addr now = .ok c)
    (haead : c.recvCipher.aead.isSome = true) : c.newest = CipherState.wireNonce data := by
  obtain ⟨fresh, decrypted, recvCipher, _, hfresh, hopen, -, -, rfl⟩ :=
    serverProcessResponse_ok_inv accepted
  obtain ⟨hsame, hmax⟩ := CipherState.decrypt_ok_inv hopen
  have hstart : fresh.replay.maxNonce = 0 := by
    rw [Primitives.newCipherState] at hfresh
    cases hnew : P.newAEAD ph.c2sKey ph.suite with
    | error e => simp [hnew, Except.map] at hfresh
    | ok aead =>
        simp only [hnew, Except.map, Except.ok.injEq] at hfresh
        rw [← hfresh]
        rfl
  have hsome : recvCipher.aead.isSome = true := haead
  rw [hstart, Nat.zero_max, ← hsame, if_pos hsome] at hmax
  exact hmax

/-- Every change keeps track of the nonces. -/
theorem Change.along (hchange : Change P codecs Fresh active src t t') (h : Along src t₀ t)
    (hactive : ∀ i, active i → i < t₀.server.heap.length) : Along src t₀ t' := by
  have hlen : t₀.server.heap.length ≤ t.server.heap.length := by
    by_contra hlt
    have hlast := Nat.lt_of_not_le hlt
    obtain ⟨d, hd, -⟩ := h.kept t.server.heap.length _ (List.getElem?_eq_getElem hlast)
    exact absurd (List.getElem?_eq_some_iff.mp hd).1 (Nat.lt_irrefl _)
  cases hchange with
  | sent addr data =>
      exact h.quiet rfl (by simp [ServerEvent.owner]) (by simp)
  | refused act e =>
      refine h.quiet rfl ?_ (by simp)
      intro ev hev j hj
      rw [List.mem_singleton.mp hev] at hj
      rw [← Option.some.inj hj]
      exact Nat.lt_of_lt_of_le (hactive _ act) hlen
  | decrypted act found opens => exact h.opened found (hactive _ act) opens
  | @called s log i c c' events act found held same life =>
      obtain ⟨hcipher, haddr⟩ := newest_of_identity same
      refine h.unopened found (hactive i act) ?_ hcipher (.inl haddr) ?_ (by simp)
      · rw [settle]
        split <;> rfl
      · intro ev hev j hj
        obtain ⟨call, -, rfl⟩ := List.mem_map.mp hev
        exact (Option.some.inj hj).symm
  | @closed s log i c c' act found same live life_eq =>
      obtain ⟨hcipher, haddr⟩ := newest_of_identity same
      rw [← List.append_nil log]
      exact h.unopened found (hactive i act) rfl hcipher (.inl haddr) (by simp) (by simp)
  | @moved s log i c act found registered free settled =>
      have hheap : (s.moveTo i c src).heap = s.heap.set i { c with remoteAddr := src } := by
        rw [moveTo_eq registered free]
      rw [← List.append_nil log]
      exact h.unopened found (hactive i act) hheap rfl (.inr rfl) (by simp) (by simp)
  | admitted awaited free accepted =>
      obtain ⟨_, _, _, _, -, -, -, -, hc⟩ := serverProcessResponse_ok_inv accepted
      refine h.register ?_ (newest_of_response accepted)
      rw [hc]
      rfl
  | @remembered s log ph free fresh =>
      rw [← List.append_nil log]
      exact h.quiet rfl (by simp) (by simp)
  | @expired s log keep =>
      rw [← List.append_nil log]
      exact h.quiet rfl (by simp) (by simp)

/-! ## Packets that open are known afterwards -/

theorem opens_congr {state state' : CipherState} (h : state'.aead = state.aead) (packet : Bytes) :
    state'.opens packet = state.opens packet := by
  rw [CipherState.opens, CipherState.opens, h]

/-- The connection after a call that does not open anything. -/
theorem handleDecrypted_getElem {s s' : Server} {i : ℕ} {c : Connection} {now : ℤ}
    {decrypted : Bytes} {events : List ServerEvent} (found : s.heap[i]? = some c)
    (hok : s.handleDecrypted now i decrypted = .ok (s', events)) :
    ∃ d, s'.heap[i]? = some d ∧ d.identity = c.identity := by
  rw [handleDecrypted, found] at hok
  dsimp only at hok
  split at hok
  · cases hok
  · rename_i c' calls hcall
    have hs : s' = (s.settle i c' calls).1 := by rw [Except.ok.inj hok]
    refine ⟨c', ?_, c.identity_handleDecrypted hcall⟩
    rw [hs, settle]
    split <;> exact setConn_getElem found

/-- What is known of a connection after some packets: the address is the same,
and no packet that opens is newer than the newest one accepted. -/
structure CaughtUp (c d : Connection) (packets : List Bytes) : Prop where
  aead_eq : d.recvCipher.aead = c.recvCipher.aead
  addr_eq : d.remoteAddr = c.remoteAddr
  newest_le : c.newest ≤ d.newest
  caught : ∀ packet ∈ packets, c.recvCipher.opens packet = true →
    CipherState.wireNonce packet ≤ d.newest

theorem caughtUp_of_decrypt {c d : Connection} {packet plaintext : Bytes} {cipher : CipherState}
    (haead : c.recvCipher.aead.isSome = true)
    (hopen : c.recvCipher.decrypt packet = .ok (plaintext, cipher))
    (same : d.identity = (c.withRecvCipher cipher).identity) : CaughtUp c d [packet] := by
  obtain ⟨hcipher, haddr⟩ := newest_of_identity same
  obtain ⟨hsame, hmax⟩ := CipherState.decrypt_ok_inv hopen
  rw [if_pos haead] at hmax
  have hnewest : d.newest = max c.newest (CipherState.wireNonce packet) :=
    (congrArg (fun x => x.replay.maxNonce) hcipher).trans hmax
  refine ⟨(congrArg CipherState.aead hcipher).trans hsame, haddr, ?_, ?_⟩
  · rw [hnewest]
    exact Nat.le_max_left _ _
  · intro p hp _
    rw [List.mem_singleton.mp hp, hnewest]
    exact Nat.le_max_right _ _

theorem processPacket_caughtUp {s s' : Server} {i : ℕ} {c : Connection} {now : ℤ}
    {addr : AddrPort} {packet : Bytes} {events : List ServerEvent} (found : s.heap[i]? = some c)
    (haead : c.recvCipher.aead.isSome = true)
    (hok : s.processPacket now addr i packet = .ok (s', events)) :
    ∃ d, s'.heap[i]? = some d ∧ CaughtUp c d [packet] := by
  rw [processPacket, found] at hok
  dsimp only at hok
  split at hok
  · rename_i e herror
    cases hok
    refine ⟨c, found, rfl, rfl, Nat.le_refl _, ?_⟩
    intro p hp hopens
    rw [List.mem_singleton.mp hp] at hopens ⊢
    exact CipherState.wireNonce_le_of_opens haead hopens herror
  · rename_i plaintext cipher hopen
    split at hok
    · cases hok
    · rename_i calls hhandle
      cases hok
      obtain ⟨d, hd, same⟩ := handleDecrypted_getElem (setConn_getElem found) hhandle
      exact ⟨d, hd, caughtUp_of_decrypt haead hopen same⟩

theorem CaughtUp.append {c d e : Connection} {packets packets' : List Bytes}
    (h : CaughtUp c d packets) (h' : CaughtUp d e packets') :
    CaughtUp c e (packets ++ packets') := by
  refine ⟨h'.aead_eq.trans h.aead_eq, h'.addr_eq.trans h.addr_eq,
    h.newest_le.trans h'.newest_le, ?_⟩
  intro p hp hopens
  rcases List.mem_append.mp hp with hp | hp
  · exact (h.caught p hp hopens).trans h'.newest_le
  · refine h'.caught p hp ?_
    rwa [opens_congr h.aead_eq]

theorem processPackets_caughtUp {s s' : Server} {i : ℕ} {c : Connection} {now : ℤ}
    {addr : AddrPort} {packets : List Bytes} {events : List ServerEvent}
    (found : s.heap[i]? = some c) (haead : c.recvCipher.aead.isSome = true)
    (hok : processPackets now addr i s packets = .ok (s', events)) :
    ∃ d, s'.heap[i]? = some d ∧ CaughtUp c d packets := by
  induction packets generalizing s c events with
  | nil =>
      cases hok
      exact ⟨c, found, rfl, rfl, Nat.le_refl _, by simp⟩
  | cons packet packets ih =>
      rw [processPackets] at hok
      split at hok
      · cases hok
      · rename_i s₁ events₁ hfirst
        split at hok
        · cases hok
        · rename_i s₂ events₂ hrest
          cases hok
          obtain ⟨d, hd, hcaught⟩ := processPacket_caughtUp found haead hfirst
          obtain ⟨e, he, hcaught'⟩ := ih hd (hcaught.aead_eq ▸ haead) hrest
          exact ⟨e, he, hcaught.append hcaught'⟩

/-- A migration either changes nothing or moves the connection and knows all its
packets. -/
theorem tryMigration_cases {s s' : Server} {i : ℕ} {c : Connection} {now : ℤ} {newAddr : AddrPort}
    {data : Bytes} {events : List ServerEvent} (found : s.heap[i]? = some c)
    (haead : c.recvCipher.aead.isSome = true)
    (registered : s.conns.lookup c.remoteAddr = some i) (free : s.conns.lookup newAddr = none)
    (hok : s.tryMigration now newAddr i c data = .ok (s', events)) :
    s' = s ∨ ∃ first rest plaintext cipher d,
      datagramPackets c (data.drop migrationTokenSize) = .ok (first :: rest) ∧
      c.recvCipher.decrypt first = .ok (plaintext, cipher) ∧ s'.heap[i]? = some d ∧
      CaughtUp { c with remoteAddr := newAddr } d (first :: rest) := by
  rw [tryMigration] at hok
  split at hok
  · cases hok
    exact .inl rfl
  · cases hok
    exact .inl rfl
  · rename_i first rest hpackets
    split at hok
    · cases hok
      exact .inl rfl
    · rename_i plaintext cipher hopen
      dsimp only at hok
      split at hok
      · cases hok
      · rename_i s₁ events₁ hfirst
        split at hok
        · cases hok
        · rename_i s₂ events₂ hrest
          cases hok
          have found' := moveTo_getElem (c := c.withRecvCipher cipher) (setConn_getElem found)
            registered free
          obtain ⟨d, hd, same⟩ := handleDecrypted_getElem found' hfirst
          have hcaught : CaughtUp { c with remoteAddr := newAddr } d [first] :=
            caughtUp_of_decrypt haead hopen same
          obtain ⟨e, he, hcaught'⟩ := processPackets_caughtUp hd (hcaught.aead_eq ▸ haead) hrest
          exact .inr ⟨first, rest, plaintext, cipher, e, hpackets, hopen, he,
            hcaught.append hcaught'⟩

/-! ## Runs -/

/-- A datagram that moves an encrypted connection carries a packet that is newer
than everything accepted before. -/
def movesForward (config : ServerConfig) (t : Trace) : Move P → Prop
  | .incoming _ addr data _ _ => ∀ i c first rest plaintext cipher,
      t.server.conns.lookup addr = none → t.server.pending.lookup addr = none →
      t.server.migrating config data = some i → t.server.heap[i]? = some c →
      c.recvCipher.aead.isSome = true →
      datagramPackets c (data.drop migrationTokenSize) = .ok (first :: rest) →
      c.recvCipher.decrypt first = .ok (plaintext, cipher) →
      ∃ packet ∈ first :: rest, c.recvCipher.opens packet = true ∧
        c.newest < CipherState.wireNonce packet
  | _ => True

/-- The accepted packets of a connection so far: their nonces and where they
came from. -/
def openings (i : ℕ) (log : List ServerEvent) : List (ℕ × AddrPort) :=
  log.filterMap fun ev => match ev with
    | .opened j n a => if j = i then some (n, a) else none
    | _ => none

theorem mem_openings {i n : ℕ} {a : AddrPort} {log : List ServerEvent} :
    (n, a) ∈ openings i log ↔ .opened i n a ∈ log := by
  rw [openings, List.mem_filterMap]
  constructor
  · rintro ⟨ev, hev, heq⟩
    cases ev with
    | opened j n' a' =>
        simp only [Option.ite_none_right_eq_some, Option.some.injEq, Prod.mk.injEq] at heq
        obtain ⟨rfl, rfl, rfl⟩ := heq
        exact hev
    | _ => cases heq
  · intro hin
    exact ⟨_, hin, by simp⟩

/-- The registered connections are where their newest packet came from. -/
structure Tracked (t : Trace) : Prop where
  log_bound : ∀ ev ∈ t.log, ∀ j, ev.owner = some j → j < t.server.heap.length
  bound : ∀ (i : ℕ) (d : Connection), t.server.heap[i]? = some d →
    d.recvCipher.aead.isSome = true → ∀ n a, .opened i n a ∈ t.log → n ≤ d.newest
  current : ∀ (i : ℕ) (d : Connection), t.server.heap[i]? = some d →
    d.recvCipher.aead.isSome = true → t.server.Registered i →
    .opened i d.newest d.remoteAddr ∈ t.log

theorem Tracked.along (h : Tracked t) (src : AddrPort) : Along src t t := by
  refine ⟨h.log_bound, fun _ => id, ?_, h.bound, ?_⟩
  · intro i c hc
    exact ⟨c, hc, rfl, Nat.le_refl _, fun hlt => absurd hlt (Nat.lt_irrefl _), .inl rfl⟩
  · intro i d hd hle
    exact absurd (List.getElem?_eq_some_iff.mp hd).1 (Nat.not_lt.mpr hle)

/-- A step as seen from any address the datagram may have come from. -/
theorem step_along (src : AddrPort) {m : Move P} (hsound : t.server.Sound) (h : Tracked t)
    (hstep : (system P codecs config).step t m t') (hsource : m.Source src) : Along src t t' := by
  have hchanges := system_changes hsound hsource (m.draws_any t.server) hstep
  have hactive : ∀ i, t.server.Active config m i → i < t.server.heap.length := by
    intro i hact
    obtain ⟨a, ha⟩ := hact.registered
    obtain ⟨c, hc, -⟩ := hsound.conns_addr ha
    exact (List.getElem?_eq_some_iff.mp hc).1
  clear hstep
  induction hchanges with
  | refl => exact h.along src
  | tail _ hchange ih => exact hchange.along ih hactive

/-- A step that does not come from elsewhere leaves the connection where it is. -/
theorem Along.current {i : ℕ} {c d : Connection} (h : Along c.remoteAddr t t')
    (hc : t.server.heap[i]? = some c) (hd : t'.server.heap[i]? = some d)
    (hin : .opened i c.newest c.remoteAddr ∈ t.log) : .opened i d.newest d.remoteAddr ∈ t'.log := by
  obtain ⟨d', hd', -, hle, hlt, haddr⟩ := h.kept i c hc
  obtain rfl : d = d' := Option.some.inj (hd.symm.trans hd')
  rw [haddr.elim id id]
  rcases Nat.lt_or_eq_of_le hle with hraised | heq
  · exact hlt hraised
  · rw [← heq]
    exact h.log_grows _ hin

/-- A datagram that moves the connection forward. -/
theorem migration_current {now : ℤ} {data : Bytes} {random : HandshakeRandom P} {allowed : Bool}
    (hsound : t.server.Sound) (h : Tracked t)
    (hguard : movesForward config t (.incoming now src data random allowed))
    (hstep : (system P codecs config).step t (.incoming now src data random allowed) t')
    {i : ℕ} {c d : Connection} (free : t.server.conns.lookup src = none)
    (settled : t.server.pending.lookup src = none)
    (hmigrating : t.server.migrating config data = some i)
    (hc : t.server.heap[i]? = some c) (haead : c.recvCipher.aead.isSome = true)
    (registered : t.server.conns.lookup c.remoteAddr = some i)
    (hd : t'.server.heap[i]? = some d) : .opened i d.newest d.remoteAddr ∈ t'.log := by
  have halong := step_along src hsound h hstep rfl
  obtain ⟨d', hd', -, -, hlt, -⟩ := halong.kept i c hc
  obtain rfl : d = d' := Option.some.inj (hd.symm.trans hd')
  obtain ⟨events, hok, hlog⟩ := hstep
  have hroute : t.server.tryMigration now src i c data = .ok (t'.server, events) := by
    simpa [step, processIncoming, free, settled, hmigrating, hc] using hok
  rcases tryMigration_cases hc haead registered free hroute with
    hsame | ⟨first, rest, plaintext, cipher, e, hpackets, hopen, he, hcaught⟩
  · obtain rfl : d = c := by
      rw [hsame, hc] at hd
      exact (Option.some.inj hd).symm
    exact halong.log_grows _ (h.current i d hc haead ⟨_, registered⟩)
  · obtain rfl : d = e := Option.some.inj (hd.symm.trans he)
    obtain ⟨packet, hpacket, hopens, hnew⟩ := hguard i c first rest plaintext cipher free settled
      hmigrating hc haead hpackets hopen
    have hraised : c.newest < d.newest :=
      Nat.lt_of_lt_of_le hnew (hcaught.caught packet hpacket hopens)
    have haddr : d.remoteAddr = src := hcaught.addr_eq
    rw [haddr]
    exact hlt hraised

theorem Tracked.step {m : Move P} (h : Tracked t) (hsound : t.server.Sound)
    (hguard : movesForward config t m) (hstep : (system P codecs config).step t m t') :
    Tracked t' := by
  obtain ⟨src, hsource⟩ := m.exists_source
  have halong := step_along src hsound h hstep hsource
  refine ⟨halong.log_bound, halong.bound, ?_⟩
  intro i d hd haead hreg'
  cases hc : t.server.heap[i]? with
  | none =>
      have hnew : t.server.heap.length ≤ i := List.getElem?_eq_none_iff.mp hc
      obtain ⟨haddr, hin⟩ := halong.fresh i d hd hnew haead
      rwa [haddr]
  | some c =>
      have haead' : c.recvCipher.aead.isSome = true := by
        obtain ⟨d', hd', hsame, -⟩ := halong.kept i c hc
        obtain rfl : d = d' := Option.some.inj (hd.symm.trans hd')
        rwa [← hsame]
      by_cases hactive : t.server.Active config m i
      · obtain ⟨a, ha⟩ := hactive.registered
        have hin := h.current i c hc haead' ⟨a, ha⟩
        obtain ⟨c', hc', rfl⟩ := hsound.conns_addr ha
        obtain rfl : c = c' := Option.some.inj (hc.symm.trans hc')
        cases m with
        | incoming now addr data random allowed =>
            obtain ⟨-, hhere | ⟨free, settled, hmigrating⟩⟩ := hactive
            · obtain ⟨c', hc', haddr⟩ := hsound.conns_addr hhere
              obtain rfl : c = c' := Option.some.inj (hc.symm.trans hc')
              exact (step_along c.remoteAddr hsound h hstep haddr).current hc hd hin
            · exact migration_current hsound h hguard hstep free settled hmigrating hc haead' ha hd
        | _ => exact (step_along c.remoteAddr hsound h hstep trivial).current hc hd hin
      · obtain ⟨hsame, -, hreg⟩ := step_untouched hsound hstep hactive hc
        obtain rfl : c = d := Option.some.inj (hsame.symm.trans hd)
        exact halong.log_grows _ (h.current i c hc haead' (hreg hreg'))

/-- In every run in which no datagram moves a connection without a newer packet,
an encrypted connection is registered where its newest packet came from. -/
theorem migration_follows_newest {hist : List (Trace × Move P)}
    (hrun : (system P codecs config).Run hist t)
    (hguard : System.Guarded (movesForward config) hist) {a : AddrPort} {i : ℕ} {c : Connection}
    (hreg : t.server.conns.lookup a = some i) (hc : t.server.heap[i]? = some c)
    (haead : c.recvCipher.aead.isSome = true) :
    c.remoteAddr = a ∧ ∃ n, (n, a) ∈ openings i t.log ∧
      ∀ n' b, (n', b) ∈ openings i t.log → n' ≤ n := by
  have htracked : Tracked t := by
    refine hrun.guarded_invariant ?_ ?_ hguard
    · rintro t rfl
      exact ⟨by simp, by simp [empty], by simp [empty]⟩
    · intro hist t m t' hrun h hforward hstep
      exact h.step (sound_of_run hrun) hforward hstep
  obtain ⟨c', hc', rfl⟩ := (sound_of_run hrun).conns_addr hreg
  obtain rfl : c = c' := Option.some.inj (hc.symm.trans hc')
  refine ⟨rfl, c.newest, mem_openings.mpr (htracked.current i c hc haead ⟨_, hreg⟩), ?_⟩
  intro n b hin
  exact htracked.bound i c hc haead n b (mem_openings.mp hin)

end

/-! ## Concrete runs -/

def heartbeatData (nonce : ℕ) : Bytes :=
  List.replicate 8 3 ++ singleFrame (sealPlain nonce
    ((buildControlPacket 64 ⟨flagControl, 0, 0, 0, 0⟩
      [ControlType.heartbeat.toByte]).toOption.getD []))

/-- The server after the client has moved to another port. -/
def movedTrace : Trace :=
  (next plainPrimitives noCodecs plainConfig connectedTrace (arrival 2 (heartbeatData 3))).getD
    ⟨empty, []⟩

theorem moved_step : (system plainPrimitives noCodecs plainConfig).step connectedTrace
    (arrival 2 (heartbeatData 3)) movedTrace :=
  system_of_next (Option.getD_of_ne_none (by decide +kernel) _).symm

theorem moved_forward : System.Guarded (movesForward plainConfig)
    ((connectedTrace, arrival 2 (heartbeatData 3)) :: handshakeHist) := by
  have hpending : (pendingTrace.server.pending.lookup ⟨0, 1⟩).isSome = true := by decide +kernel
  have hroute : connectedTrace.server.migrating plainConfig (heartbeatData 3) = some 0 := by
    decide +kernel
  have hnewer : connectedTrace.server.heap[0]?.all (fun c => decide (c.newest < 3 ∧
      datagramPackets c ((heartbeatData 3).drop migrationTokenSize) =
        .ok [(heartbeatData 3).drop 11] ∧
      c.recvCipher.opens ((heartbeatData 3).drop 11) = true)) = true := by
    decide +kernel
  intro taken htaken
  simp only [handshakeHist, List.mem_cons, List.not_mem_nil, or_false] at htaken
  rcases htaken with rfl | rfl | rfl
  · intro i c first rest plaintext cipher _ _ hmigrating hc _ hpackets _
    obtain rfl : 0 = i := Option.some.inj (hroute.symm.trans hmigrating)
    rw [hc, Option.all_some] at hnewer
    obtain ⟨hlt, hunpack, hopens⟩ := of_decide_eq_true hnewer
    rw [hunpack] at hpackets
    rw [← Except.ok.inj hpackets]
    exact ⟨_, List.mem_singleton_self _, hopens, Nat.lt_of_lt_of_le hlt (by decide)⟩
  · intro i c first rest plaintext cipher _ hnone
    rw [hnone] at hpending
    cases hpending
  · intro i c first rest plaintext cipher _ _ hmigrating
    simp [migrating, empty] at hmigrating

theorem migration_follows_newest_moved :
    ∃ n, (n, ⟨0, 2⟩) ∈ openings 0 movedTrace.log ∧
      ∀ n' b, (n', b) ∈ openings 0 movedTrace.log → n' ≤ n := by
  have hfacts : movedTrace.server.conns.lookup ⟨0, 2⟩ = some 0 := by decide +kernel
  have haead : movedTrace.server.heap[0]?.any (fun c => c.recvCipher.aead.isSome) = true := by
    decide +kernel
  obtain ⟨c, hc, haead⟩ := (Option.any_eq_true ..).mp haead
  exact (migration_follows_newest (handshake_run.step moved_step) moved_forward hfacts hc haead).2

/-- The newest packet, with nonce 3, came from port 2; the older one that arrives
after it from port 1 takes the connection back there. -/
theorem delayed_packet_moves_back : ∃ hist t c,
    (system plainPrimitives noCodecs plainConfig).Run hist t ∧
      t.server.heap[0]? = some c ∧ c.recvCipher.aead.isSome = true ∧
      migrates c.features = true ∧ c.remoteAddr = ⟨0, 1⟩ ∧
      t.server.conns.lookup ⟨0, 1⟩ = some 0 ∧
      openings 0 t.log = [(1, ⟨0, 1⟩), (3, ⟨0, 2⟩), (2, ⟨0, 1⟩)] := by
  have hlast : (next plainPrimitives noCodecs plainConfig movedTrace
      (arrival 1 (heartbeatData 2))).any (fun t => t.server.heap[0]?.any (fun c =>
        decide (c.recvCipher.aead.isSome = true ∧ migrates c.features = true ∧
          c.remoteAddr = ⟨0, 1⟩ ∧ t.server.conns.lookup ⟨0, 1⟩ = some 0 ∧
          openings 0 t.log = [(1, ⟨0, 1⟩), (3, ⟨0, 2⟩), (2, ⟨0, 1⟩)]))) = true := by
    decide +kernel
  obtain ⟨t, hnext, ht⟩ := (Option.any_eq_true ..).mp hlast
  obtain ⟨c, hc, hfacts⟩ := (Option.any_eq_true ..).mp ht
  refine ⟨_, t, c, (handshake_run.step moved_step).step (system_of_next hnext), hc, ?_⟩
  exact of_decide_eq_true hfacts

end Server

end Fastwire
