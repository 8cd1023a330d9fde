/-
# The number of connections

`MaxConnections` is looked at when a handshake starts, and the table grows when
it is completed. Nothing but a completed handshake makes it grow: a migration
replaces an entry and a disconnect removes one.

So the table stays within its limit exactly as long as handshakes are completed
only below it. It also does if a handshake starts only as long as the pending
ones have places left.
-/

import Fastwire.Server.Runs

namespace Fastwire

open Crypto Lib

namespace Server

/-- `connTable.count`. -/
def count (s : Server) : ℕ := s.conns.keys.length

section

variable {s s' : Server} {i : ℕ} {c : Connection} {now : ℤ} {addr : AddrPort}
  {events : List ServerEvent}

/-! ## What a step does to the number -/

theorem count_removeConnection_le (s : Server) (c : Connection) :
    (s.removeConnection c).count ≤ s.count := by
  rw [count, removeConnection, AList.keys_erase]
  exact List.length_erase_le

theorem count_settle_le (s : Server) (i : ℕ) (c : Connection) (calls : List Event) :
    (s.settle i c calls).1.count ≤ s.count := by
  rw [settle]
  dsimp only
  split
  · exact count_removeConnection_le (s.setConn i c) c
  · exact le_rfl

theorem count_moveTo (registered : s.conns.lookup c.remoteAddr = some i)
    (free : s.conns.lookup addr = none) : (s.moveTo i c addr).count = s.count := by
  rw [moveTo]
  split
  · have hmem : c.remoteAddr ∈ s.conns.keys := Table.mem_of_lookup registered
    have hnew : addr ∉ s.conns.keys := AList.lookup_eq_none.mp free
    have hrest : addr ∉ s.conns.keys.erase c.remoteAddr := fun h => hnew (List.mem_of_mem_erase h)
    have hpos : 0 < s.conns.keys.length := List.length_pos_of_mem hmem
    show ((s.conns.erase c.remoteAddr).insert addr i).keys.length = s.conns.keys.length
    rw [AList.keys_insert, AList.keys_erase, List.erase_of_not_mem hrest, List.length_cons,
      List.length_erase_of_mem hmem]
    omega
  · rfl

theorem count_register (free : s.conns.lookup addr = none) (c : Connection) :
    (s.register addr c).count = s.count + 1 := by
  have hnew : addr ∉ s.conns.keys := AList.lookup_eq_none.mp free
  show (s.conns.insert addr s.heap.length).keys.length = s.conns.keys.length + 1
  rw [AList.keys_insert, List.erase_of_not_mem hnew, List.length_cons]

theorem handleDecrypted_count_le {decrypted : Bytes}
    (hok : s.handleDecrypted now i decrypted = .ok (s', events)) : s'.count ≤ s.count := by
  rw [handleDecrypted] at hok
  split at hok
  · cases hok
    exact le_rfl
  · split at hok
    · cases hok
    · cases hok
      exact count_settle_le ..

theorem processPacket_count_le {packet : Bytes}
    (hok : s.processPacket now addr i packet = .ok (s', events)) : s'.count ≤ s.count := by
  rw [processPacket] at hok
  split at hok
  · cases hok
    exact le_rfl
  · rename_i c found
    split at hok
    · cases hok
      exact le_rfl
    · rename_i plaintext cipher hopen
      split at hok
      · cases hok
      · rename_i hhandle
        cases hok
        have hle : s'.count ≤ (s.setConn i (c.withRecvCipher cipher)).count :=
          handleDecrypted_count_le hhandle
        exact hle

theorem processPackets_count_le {packets : List Bytes}
    (hok : processPackets now addr i s packets = .ok (s', events)) : s'.count ≤ s.count := by
  induction packets generalizing s events with
  | nil =>
      cases hok
      exact le_rfl
  | cons packet packets ih =>
      rw [processPackets] at hok
      split at hok
      · cases hok
      · rename_i s₁ events₁ hfirst
        split at hok
        · cases hok
        · rename_i s₂ events₂ hrest
          cases hok
          exact (ih hrest).trans (processPacket_count_le hfirst)

theorem processConnData_count_le {data : Bytes}
    (hok : s.processConnData now addr i c data = .ok (s', events)) : s'.count ≤ s.count := by
  rw [processConnData] at hok
  split at hok
  · cases hok
    exact le_rfl
  · dsimp only at hok
    split at hok
    · cases hok
      exact le_rfl
    · exact processPackets_count_le hok

theorem tryMigration_count_le {data : Bytes} (registered : s.conns.lookup c.remoteAddr = some i)
    (free : s.conns.lookup addr = none)
    (hok : s.tryMigration now addr i c data = .ok (s', events)) : s'.count ≤ s.count := by
  rw [tryMigration] at hok
  split at hok
  · cases hok
    exact le_rfl
  · cases hok
    exact le_rfl
  · split at hok
    · cases hok
      exact le_rfl
    · rename_i plaintext cipher hopen
      dsimp only at hok
      split at hok
      · cases hok
      · rename_i s₁ events₁ hfirst
        split at hok
        · cases hok
        · rename_i s₂ events₂ hrest
          cases hok
          calc s'.count ≤ s₁.count := processPackets_count_le hrest
            _ ≤ _ := handleDecrypted_count_le hfirst
            _ = (s.setConn i (c.withRecvCipher cipher)).count :=
                count_moveTo (by exact registered) (by exact free)
            _ = s.count := rfl

theorem count_handleHandshake (s : Server) (P : Primitives) (config : ServerConfig)
    (random : HandshakeRandom P) (allowed : Bool) (now : ℤ) (addr : AddrPort) (data : Bytes) :
    (s.handleHandshake P config random allowed now addr data).1.count = s.count := by
  rw [handleHandshake]
  repeat' split
  all_goals rfl

theorem callConn_count_le {failures : List Bool}
    {call : Connection → Socket → Connection × Socket × List Event}
    (hok : (.ok (s.callConn i failures call) : Except GoPanic (Server × List ServerEvent)) =
      .ok (s', events)) : s'.count ≤ s.count := by
  have hle : (s.callConn i failures call).1.count ≤ s.count := by
    rw [callConn]
    split
    · exact le_rfl
    · exact count_settle_le ..
  rwa [Except.ok.inj hok] at hle

end

/-! ## The limit -/

section

variable {P : Primitives} {codecs : Codecs} {config : ServerConfig}

/-- The step completes a handshake: the address has a pending handshake and no
connection, and the datagram is the RESPONSE to it. -/
def completes (P : Primitives) (codecs : Codecs) (s : Server) : Move P → Bool
  | .incoming now addr data _ _ =>
      (s.conns.lookup addr).isNone && (s.pending.lookup addr).any fun ph =>
        (serverProcessResponse P codecs data ph addr now).toOption.isSome
  | _ => false

theorem processIncoming_count {s s' : Server} {events : List ServerEvent} (h : s.Sound)
    {random : HandshakeRandom P} {allowed : Bool} {now : ℤ} {addr : AddrPort} {data : Bytes}
    (hok : s.processIncoming P codecs config random allowed now addr data = .ok (s', events)) :
    if s.completes P codecs (.incoming now addr data random allowed) then
      s'.count = s.count + 1 else s'.count ≤ s.count := by
  rw [processIncoming] at hok
  split at hok
  · rename_i i c hroute
    obtain ⟨j, hreg, -⟩ := Option.bind_eq_some_iff.mp hroute
    simp only [completes, hreg, Option.isNone_some, Bool.false_and, Bool.false_eq_true, if_false]
    exact processConnData_count_le hok
  · rename_i hroute
    have free := h.free_of_route hroute
    split at hok
    · rename_i ph awaited
      rw [processResponse] at hok
      simp only [completes, free, awaited, Option.isNone_none, Bool.true_and, Option.any_some]
      split at hok
      · rename_i e hrefused
        cases hok
        rw [hrefused]
        exact le_rfl
      · rename_i c haccepted
        cases hok
        rw [haccepted]
        exact count_register free c
    · rename_i settled
      simp only [completes, settled, Option.any_none, Bool.and_false, Bool.false_eq_true, if_false]
      split at hok
      · rename_i i c htoken
        simp only [Option.bind_eq_some_iff, Option.map_eq_some_iff, Prod.mk.injEq] at htoken
        obtain ⟨j, hmigrating, d, found, rfl, rfl⟩ := htoken
        exact tryMigration_count_le (h.registered_of_migrating hmigrating found) free hok
      · have hsame := count_handleHandshake s P config random allowed now addr data
        rw [Except.ok.inj hok] at hsame
        exact hsame.le

/-- The table grows by one with a handshake that is completed, and never
otherwise. -/
theorem step_count {s s' : Server} {m : Move P} {events : List ServerEvent} (h : s.Sound)
    (hok : s.step P codecs config m = .ok (s', events)) :
    if s.completes P codecs m then s'.count = s.count + 1 else s'.count ≤ s.count := by
  cases m with
  | incoming now addr data random allowed => exact processIncoming_count h hok
  | cleanup now =>
      cases hok
      exact le_rfl
  | tick now i failures => exact callConn_count_le hok
  | close now i failures => exact callConn_count_le hok
  | sendImmediate now i data channel failures => exact callConn_count_le hok
  | send i data channel => exact callConn_count_le hok

/-- The step completes a handshake only below the limit. -/
def hasRoom (P : Primitives) (codecs : Codecs) (config : ServerConfig) (t : Trace) (m : Move P) :
    Bool :=
  !t.server.completes P codecs m || decide ((t.server.count : ℤ) < config.maxConnections)

/-- The number of connections has stayed within the limit in every state of a run
exactly if every handshake was completed below it. -/
theorem count_le_iff_hasRoom (hlimit : 0 < config.maxConnections)
    {hist : List (Trace × Move P)} {t : Trace} (hrun : (system P codecs config).Run hist t) :
    System.Always (fun t => (t.server.count : ℤ) ≤ config.maxConnections) hist t ↔
      System.Guarded (fun t m => hasRoom P codecs config t m = true) hist := by
  have hstart : ∀ t, (system P codecs config).init t →
      (t.server.count : ℤ) ≤ config.maxConnections := by
    rintro t rfl
    exact hlimit.le
  refine hrun.always_iff_guarded hstart ?_
  rintro hist t m t' hprior hle ⟨events, hok, -⟩
  have hcount := step_count (sound_of_run hprior) hok
  rw [hasRoom]
  cases hcompletes : t.server.completes P codecs m with
  | false =>
      rw [hcompletes, if_neg Bool.false_ne_true] at hcount
      simp only [Bool.not_false, Bool.true_or, iff_true]
      omega
  | true =>
      rw [hcompletes, if_pos rfl] at hcount
      simp only [Bool.not_true, Bool.false_or, decide_eq_true_eq]
      omega

/-! ## Places for pending handshakes -/

/-- The connections there are, and those that may come of pending handshakes. -/
def expected (s : Server) : ℕ := s.count + s.pending.keys.length

/-- A handshake that the step puts into the table of those pending would still have a
place for its connection. -/
def reserves (P : Primitives) (config : ServerConfig) (t : Trace) (m : Move P) : Prop :=
  m.Draws config (fun s _ => (s.expected : ℤ) < config.maxConnections) t.server

instance (P : Primitives) (config : ServerConfig) (t : Trace) (m : Move P) :
    Decidable (reserves P config t m) :=
  inferInstanceAs (Decidable (∀ ph ∈ m.remembers config t.server, _ < _))

theorem Change.expected_le {active : ℕ → Prop} {src : AddrPort} {t t' : Trace}
    (h : Change P codecs (fun s _ => (s.expected : ℤ) < config.maxConnections) active src t t')
    (hle : (t.server.expected : ℤ) ≤ config.maxConnections) :
    (t'.server.expected : ℤ) ≤ config.maxConnections := by
  cases h with
  | sent addr data => exact hle
  | refused act e => exact hle
  | decrypted act found opens => exact hle
  | closed act found same live life_eq => exact hle
  | @called s log i c c' events act found held same life =>
      have hcount := count_settle_le s i c' events
      have hpending : (s.settle i c' events).1.pending = s.pending := by
        rw [settle]
        dsimp only
        split <;> rfl
      simp only [expected, hpending] at hle ⊢
      omega
  | @moved s log i c act found registered free settled =>
      have hcount := count_moveTo registered free
      have hpending : (s.moveTo i c src).pending = s.pending := by
        rw [moveTo]
        split <;> rfl
      simp only [expected, hcount, hpending] at hle ⊢
      exact hle
  | @admitted s log ph data now c awaited free accepted =>
      -- the pending handshake gives its place to the connection
      have hcount := count_register free c
      have hmem : src ∈ s.pending.keys := Table.mem_of_lookup awaited
      have hpos : 0 < s.pending.keys.length := List.length_pos_of_mem hmem
      have hpending : (s.register src c).pending.keys.length = s.pending.keys.length - 1 := by
        rw [register, AList.keys_erase, List.length_erase_of_mem hmem]
      simp only [expected, hcount, hpending] at hle ⊢
      omega
  | @remembered s log ph free fresh =>
      have hpending : (s.pending.insert src ph).keys.length ≤ s.pending.keys.length + 1 := by
        rw [AList.keys_insert, List.length_cons]
        exact Nat.succ_le_succ List.length_erase_le
      simp only [expected, count] at fresh ⊢
      omega
  | @expired s log keep =>
      have hpending : (s.pending.filter keep).keys.length ≤ s.pending.keys.length :=
        (List.filter_sublist.map Sigma.fst).length_le
      simp only [expected, count] at hle ⊢
      omega

/-- If every handshake that is put into the table of those pending has a place, the
number of connections stays within the limit. -/
theorem count_le_of_reserves (hlimit : 0 < config.maxConnections)
    {hist : List (Trace × Move P)} {t : Trace} (hrun : (system P codecs config).Run hist t)
    (hreserves : System.Guarded (reserves P config) hist) :
    (t.server.count : ℤ) ≤ config.maxConnections := by
  have hstart : ∀ t, (system P codecs config).init t →
      (t.server.expected : ℤ) ≤ config.maxConnections := by
    rintro t rfl
    exact hlimit.le
  have hstep : ∀ hist t m t', (system P codecs config).Run hist t →
      (t.server.expected : ℤ) ≤ config.maxConnections → reserves P config t m →
      (system P codecs config).step t m t' →
      (t'.server.expected : ℤ) ≤ config.maxConnections := by
    intro hist t m t' hprior hle hroom htaken
    obtain ⟨src, hsource⟩ := m.exists_source
    have hchanges := system_changes (sound_of_run hprior) hsource hroom htaken
    clear htaken
    induction hchanges with
    | refl => exact hle
    | tail _ hchange ih => exact hchange.expected_le ih
  have hexpected := hrun.guarded_invariant hstart hstep hreserves
  rw [expected] at hexpected
  omega

end

def singleConfig : ServerConfig := { plainConfig with maxConnections := 1 }

/-- A client connects to a server that takes no other, and the next one is turned away. -/
theorem count_le_of_reserves_handshake : ∃ hist t,
    (system plainPrimitives noCodecs singleConfig).Run hist t ∧
      System.Guarded (reserves plainPrimitives singleConfig) hist ∧ hist.length = 3 ∧
      rejectReply ⟨0, 2⟩ ≠ [] ∧ rejectReply ⟨0, 2⟩ <:+ t.log ∧
      (t.server.count : ℤ) ≤ singleConfig.maxConnections := by
  obtain ⟨hist, t, hrun, hreserves, hlen, hsent, hlog⟩ := System.exists_history
    (S := system plainPrimitives noCodecs singleConfig) (fun _ _ _ => system_of_next) rfl
    [arrival 1 plainConnect, arrival 1 plainResponse, arrival 2 plainConnect]
    (fun hist t => System.Guarded (reserves plainPrimitives singleConfig) hist ∧
      hist.length = 3 ∧ rejectReply ⟨0, 2⟩ ≠ [] ∧ rejectReply ⟨0, 2⟩ <:+ t.log)
    (by decide +kernel)
  exact ⟨hist, t, hrun, hreserves, hlen, hsent, hlog,
    count_le_of_reserves (by decide) hrun hreserves⟩

/-- A client connects to a server that takes no other. -/
theorem count_le_iff_hasRoom_single : ∃ hist t,
    (system plainPrimitives noCodecs singleConfig).Run hist t ∧ t.server.count = 1 ∧
      System.Always (fun t => (t.server.count : ℤ) ≤ 1) hist t := by
  let nextBelow := fun t m => if hasRoom plainPrimitives noCodecs singleConfig t m then
    next plainPrimitives noCodecs singleConfig t m else none
  have hexec : (System.exec nextBelow ⟨empty, []⟩
      [arrival 1 plainConnect, arrival 2 plainConnect, arrival 1 plainResponse]).any
        (fun t => decide (t.server.count = 1)) = true := by
    decide +kernel
  obtain ⟨t, hreached, ht⟩ := (Option.any_eq_true ..).mp hexec
  have hnext : ∀ t m t', nextBelow t m = some t' →
      (system plainPrimitives noCodecs singleConfig).step t m t' ∧
        hasRoom plainPrimitives noCodecs singleConfig t m = true := by
    intro t m t' h
    obtain ⟨hallowed, hstep⟩ := Option.ite_none_right_eq_some.mp h
    exact ⟨system_of_next hstep, hallowed⟩
  obtain ⟨hist, hrun, hguard⟩ := System.Run.exec_checked hnext (.start rfl)
    (System.guarded_nil fun t m => hasRoom plainPrimitives noCodecs singleConfig t m = true)
    hreached
  exact ⟨hist, t, hrun, of_decide_eq_true ht,
    (count_le_iff_hasRoom (by decide) hrun).mpr hguard⟩

/-- Two clients have been challenged before the first of them answers: both
connect. -/
theorem count_exceeds_limit : ∃ hist t,
    (system plainPrimitives noCodecs singleConfig).Run hist t ∧
      singleConfig.maxConnections = 1 ∧ t.server.count = 2 := by
  have hexec : (System.exec (next plainPrimitives noCodecs singleConfig) ⟨empty, []⟩
      [arrival 1 plainConnect, arrival 2 plainConnect, arrival 1 plainResponse,
        arrival 2 plainResponse]).any (fun t => decide (t.server.count = 2)) = true := by
    decide +kernel
  obtain ⟨hist, t, hrun, ht⟩ := System.exists_run (fun _ _ _ => system_of_next) rfl _ _ hexec
  exact ⟨hist, t, hrun, rfl, of_decide_eq_true ht⟩

end Server

end Fastwire
