/-
# Runs of the server

As long as the tables are sound every step is a sequence of elementary changes,
and these keep the tables sound. If besides no migration token is drawn twice,
the three tables agree with each other and with the connections.
-/

import Fastwire.Server.Tables
import Fastwire.Handshake.Agreement

namespace Fastwire

open Crypto Lib

namespace Server

/-! ## Steps are changes -/

/-- The datagram of a step, if there is one, came from the address. -/
def Move.Source {P : Primitives} (src : AddrPort) : Move P → Prop
  | .incoming _ addr _ _ _ => src = addr
  | _ => True

/-- The handshake that a step puts into the table of those pending: that of a CONNECT
from an address without connection or handshake, and not for a connection that migrates,
if `handleHandshake` does not refuse it. -/
def Move.remembers {P : Primitives} (config : ServerConfig) (s : Server) :
    Move P → Option PendingHandshake
  | .incoming now addr data random allowed =>
      if s.conns.lookup addr = none ∧ s.pending.lookup addr = none ∧
          ((s.migrating config data).bind fun i => s.heap[i]?.map fun c => (i, c)).isNone then
        (s.handleHandshake P config random allowed now addr data).1.pending.lookup addr
      else none
  | _ => none

/-- The handshake that a step remembers passes a test. -/
def Move.Draws {P : Primitives} (config : ServerConfig) (Fresh : Server → PendingHandshake → Prop)
    (s : Server) (m : Move P) : Prop :=
  ∀ ph ∈ m.remembers config s, Fresh s ph

/-- The connections a step may touch. A datagram is for the one that is
registered under its address, or, from an unknown address, for the one its token
names. -/
def Active {P : Primitives} (config : ServerConfig) (s : Server) : Move P → ℕ → Prop
  | .incoming _ addr data _ _, i => s.Registered i ∧ (s.conns.lookup addr = some i ∨
      s.conns.lookup addr = none ∧ s.pending.lookup addr = none ∧ s.migrating config data = some i)
  | _, i => s.Registered i

section

variable {P : Primitives} {codecs : Codecs} {config : ServerConfig}
  {Fresh : Server → PendingHandshake → Prop} {src : AddrPort} {s s' : Server}
  {events : List ServerEvent} (log : List ServerEvent)

theorem Sound.held (h : s.Sound) {a : AddrPort} {i : ℕ} (hreg : s.conns.lookup a = some i) :
    s.Held i := by
  intro c found
  obtain ⟨d, hd, haddr⟩ := h.conns_addr hreg
  obtain rfl : c = d := Option.some.inj (found.symm.trans hd)
  rw [haddr]
  exact .inl hreg

theorem Active.registered {m : Move P} {i : ℕ} (h : s.Active config m i) : s.Registered i := by
  cases m with
  | incoming now addr data random allowed => exact h.1
  | _ => exact h

/-- A step whose result is a pair. -/
theorem changes_of_pair {active : ℕ → Prop} {result : Server × List ServerEvent}
    (hchanges : Changes P codecs Fresh active src ⟨s, log⟩ ⟨result.1, log ++ result.2⟩)
    (hok : (.ok result : Except GoPanic (Server × List ServerEvent)) = .ok (s', events)) :
    Changes P codecs Fresh active src ⟨s, log⟩ ⟨s', log ++ events⟩ := by
  rw [Except.ok.inj hok] at hchanges
  exact hchanges

/-- A datagram that no connection answers to comes from a free address. -/
theorem Sound.free_of_route (h : s.Sound) {addr : AddrPort}
    (hroute : ((s.conns.lookup addr).bind fun i => s.heap[i]?.map fun c => (i, c)) = none) :
    s.conns.lookup addr = none := by
  cases hreg : s.conns.lookup addr with
  | none => rfl
  | some i =>
      obtain ⟨c, found, -⟩ := h.conns_addr hreg
      simp [hreg, found] at hroute

/-- A token leads to a registered connection. -/
theorem Sound.registered_of_migrating (h : s.Sound) {data : Bytes} {i : ℕ} {c : Connection}
    (hmigrating : s.migrating config data = some i) (found : s.heap[i]? = some c) :
    s.conns.lookup c.remoteAddr = some i := by
  rw [migrating] at hmigrating
  split at hmigrating
  · obtain ⟨d, hd, registered, -, -⟩ := h.tokens_sound hmigrating
    obtain rfl : c = d := Option.some.inj (found.symm.trans hd)
    exact registered
  · cases hmigrating

theorem processIncoming_changes (h : s.Sound) {random : HandshakeRandom P} {allowed : Bool}
    {now : ℤ} {data : Bytes}
    (hdraws : (Move.incoming now src data random allowed).Draws config Fresh s)
    (hok : s.processIncoming P codecs config random allowed now src data = .ok (s', events)) :
    Changes P codecs Fresh (s.Active config (.incoming now src data random allowed)) src
      ⟨s, log⟩ ⟨s', log ++ events⟩ := by
  rw [processIncoming] at hok
  split at hok
  · rename_i i c hroute
    simp only [Option.bind_eq_some_iff, Option.map_eq_some_iff, Prod.mk.injEq] at hroute
    obtain ⟨j, hreg, d, found, rfl, rfl⟩ := hroute
    exact processConnData_changes log ⟨⟨src, hreg⟩, .inl hreg⟩ (h.held hreg) hok
  · rename_i hroute
    have free := h.free_of_route hroute
    split at hok
    · rename_i ph awaited
      exact changes_of_pair log (processResponse_changes log awaited free now data) hok
    · rename_i settled
      split at hok
      · rename_i i c htoken
        simp only [Option.bind_eq_some_iff, Option.map_eq_some_iff, Prod.mk.injEq] at htoken
        obtain ⟨j, hmigrating, d, found, rfl, rfl⟩ := htoken
        have registered := h.registered_of_migrating hmigrating found
        exact tryMigration_changes log ⟨⟨_, registered⟩, .inr ⟨free, settled, hmigrating⟩⟩ found
          registered free settled hok
      · rename_i hstay
        refine changes_of_pair log (handleHandshake_changes log free fun ph hpending => ?_) hok
        apply hdraws ph
        rw [Move.remembers, if_pos ⟨free, settled, by rw [hstay]; rfl⟩]
        exact hpending

/-- A call that keeps the identity of its connection, and does nothing with a
connection that has been torn down. -/
theorem callConn_changes (h : s.Sound) {i : ℕ} {failures : List Bool}
    {call : Connection → Socket → Connection × Socket × List Event}
    (hcall : ∀ c, (call c ⟨failures, []⟩).1.identity = c.identity ∧
      Lifecycle c (call c ⟨failures, []⟩).1 (call c ⟨failures, []⟩).2.2)
    (hdead : ∀ c, c.state = .disconnected → call c ⟨failures, []⟩ = (c, ⟨failures, []⟩, [])) :
    Changes P codecs Fresh s.Registered src ⟨s, log⟩ ⟨(s.callConn i failures call).1,
      log ++ (s.callConn i failures call).2⟩ := by
  rw [callConn]
  split
  · simpa using .refl
  · rename_i c found
    rcases h.dead found with hreg | hstate
    · obtain ⟨same, life⟩ := hcall c
      generalize call c ⟨failures, []⟩ = result at same life
      obtain ⟨c', socket, calls⟩ := result
      dsimp only at same life ⊢
      refine (sent_changes log c.remoteAddr socket.written).trans (.single ?_)
      rw [← List.append_assoc]
      exact .called ⟨_, hreg⟩ found (.inl (h.held hreg)) same life
    · rw [hdead c hstate]
      simpa [settle, setConn_self found] using .refl

theorem tickConnection_changes (h : s.Sound) (now : ℤ) (i : ℕ) (failures : List Bool) :
    Changes P codecs Fresh s.Registered src ⟨s, log⟩
      ⟨(s.tickConnection config now i failures).1,
        log ++ (s.tickConnection config now i failures).2⟩ := by
  refine callConn_changes log h ?_ ?_
  · intro c
    exact ⟨c.identity_tickSeen _ _ now c.state, c.tickSeen_lifecycle _ _ now c.state⟩
  · intro c hstate
    exact c.tickConnection_disconnected hstate _ _ now

theorem close_changes (h : s.Sound) (now : ℤ) (i : ℕ) (failures : List Bool) :
    Changes P codecs Fresh s.Registered src ⟨s, log⟩
      ⟨(s.callConn i failures fun c socket =>
          ((c.close socket now).1, (c.close socket now).2.1, [])).1,
        log ++ (s.callConn i failures fun c socket =>
          ((c.close socket now).1, (c.close socket now).2.1, [])).2⟩ := by
  rw [callConn]
  split
  · simpa using .refl
  · rename_i c found
    have same := c.identity_close ⟨failures, []⟩ now
    have hlife := c.close_life ⟨failures, []⟩ now
    generalize c.close ⟨failures, []⟩ now = result at same hlife
    obtain ⟨c', socket, outcome⟩ := result
    refine (sent_changes log c.remoteAddr socket.written).trans ?_
    simp only [settle, List.any_nil, Bool.false_eq_true, if_false, List.map_nil, List.append_nil]
    rcases hlife with heq | ⟨live, life_eq⟩
    · obtain rfl : c' = c := heq
      rw [setConn_self found]
    · have hreg := (h.dead found).resolve_right (by simp [live])
      exact .single (.closed ⟨_, hreg⟩ found same live life_eq)

/-- Every step is a sequence of changes. -/
theorem step_changes (h : s.Sound) {m : Move P} (hsource : m.Source src)
    (hdraws : m.Draws config Fresh s) (hok : s.step P codecs config m = .ok (s', events)) :
    Changes P codecs Fresh (s.Active config m) src ⟨s, log⟩ ⟨s', log ++ events⟩ := by
  cases m with
  | incoming now addr data random allowed =>
      obtain rfl : src = addr := hsource
      exact processIncoming_changes log h hdraws hok
  | tick now i failures =>
      exact changes_of_pair log (tickConnection_changes log h now i failures) hok
  | cleanup now =>
      cases hok
      rw [List.append_nil]
      exact .single (.expired _)
  | close now i failures =>
      exact changes_of_pair log (close_changes log h now i failures) hok
  | sendImmediate now i data channel failures =>
      refine changes_of_pair log (callConn_changes log h ?_ ?_) hok
      · intro c
        exact ⟨c.identity_sendImmediate _ _ _ _,
          .goesOn (by simp) (c.life_sendImmediate _ _ _ _)⟩
      · intro c hstate
        rw [c.sendImmediate_disconnected hstate]
  | send i data channel =>
      refine changes_of_pair log (callConn_changes log h ?_ ?_) hok
      · intro c
        exact ⟨c.identity_enqueueSend _ _, .goesOn (by simp) (c.life_enqueueSend _ _)⟩
      · intro c hstate
        rw [c.enqueueSend_disconnected hstate]

end

/-! ## Runs -/

section

variable (P : Primitives) (codecs : Codecs) (config : ServerConfig)

/-- The runs of a server. -/
def system : System Trace (Move P) where
  init t := t = ⟨empty, []⟩
  step t m t' := ∃ events, t.server.step P codecs config m = .ok (t'.server, events) ∧
    t'.log = t.log ++ events

/-- The state after a step, if it does not panic. -/
def next (t : Trace) (m : Move P) : Option Trace :=
  match t.server.step P codecs config m with
  | .error _ => none
  | .ok (s, events) => some ⟨s, t.log ++ events⟩

/-- A token that the step draws is in nobody's hands. -/
def freshToken (t : Trace) (m : Move P) : Prop := m.Draws config Unused t.server

variable {P codecs config}

theorem system_of_next {t t' : Trace} {m : Move P} (hnext : next P codecs config t m = some t') :
    (system P codecs config).step t m t' := by
  rw [next] at hnext
  split at hnext
  · cases hnext
  · rename_i s events hok
    cases hnext
    exact ⟨events, hok, rfl⟩

/-- A step of a run as changes of the trace. -/
theorem system_changes {Fresh : Server → PendingHandshake → Prop} {src : AddrPort} {t t' : Trace}
    {m : Move P} (h : t.server.Sound) (hsource : m.Source src)
    (hdraws : m.Draws config Fresh t.server) (hstep : (system P codecs config).step t m t') :
    Changes P codecs Fresh (t.server.Active config m) src t t' := by
  obtain ⟨events, hok, hlog⟩ := hstep
  have hchanges : Changes P codecs Fresh (t.server.Active config m) src ⟨t.server, t.log⟩
      ⟨t'.server, t.log ++ events⟩ := step_changes t.log h hsource hdraws hok
  rwa [← hlog] at hchanges

theorem Move.exists_source (m : Move P) : ∃ src, m.Source src := by
  cases m with
  | incoming now addr data random allowed => exact ⟨addr, rfl⟩
  | _ => exact ⟨⟨0, 0⟩, trivial⟩

theorem Move.draws_any (s : Server) (m : Move P) : m.Draws config (fun _ _ => True) s :=
  fun _ _ => trivial

/-- A handshake that a step remembers is the answer to a CONNECT. -/
theorem Move.remembers_inv {s : Server} {m : Move P} {ph : PendingHandshake}
    (h : m.remembers config s = some ph) : ∃ now addr data random allowed challenge,
      m = .incoming now addr data random allowed ∧
      serverProcessConnect P config.handshake random now data = .ok (ph, challenge) := by
  cases m with
  | incoming now addr data random allowed =>
      rw [remembers] at h
      split at h
      · rename_i hroute
        obtain ⟨challenge, hok⟩ := handleHandshake_remembers hroute.2.1 h
        exact ⟨now, addr, data, random, allowed, challenge, rfl, hok⟩
      · cases h
  | _ => cases h

/-- The tables are sound in every run. -/
theorem sound_of_run {hist : List (Trace × Move P)} {t : Trace}
    (hrun : (system P codecs config).Run hist t) : t.server.Sound := by
  induction hrun with
  | start starts =>
      rw [starts]
      exact sound_empty
  | @step hist t t' m prior taken ih =>
      obtain ⟨src, hsource⟩ := m.exists_source
      exact (system_changes ih hsource (m.draws_any t.server) taken).sound ih

theorem findable_of_run {hist : List (Trace × Move P)} {t : Trace}
    (hrun : (system P codecs config).Run hist t)
    (hfresh : System.Guarded (freshToken P config) hist) : t.server.Findable := by
  induction hrun with
  | start starts =>
      rw [starts]
      exact findable_empty
  | @step hist t t' m prior taken ih =>
      rw [System.guarded_cons] at hfresh
      obtain ⟨src, hsource⟩ := m.exists_source
      exact (system_changes (sound_of_run prior) hsource hfresh.1 taken).findable (ih hfresh.2)

/-! ## Whom a step leaves alone -/

/-- A step leaves a connection alone that it may not touch, and reports nothing
about it. -/
theorem step_untouched {t t' : Trace} {m : Move P} (h : t.server.Sound)
    (hstep : (system P codecs config).step t m t') {i : ℕ} {c : Connection}
    (hactive : ¬t.server.Active config m i) (found : t.server.heap[i]? = some c) :
    t'.server.heap[i]? = some c ∧ eventsOf i t'.log = eventsOf i t.log ∧
      (t'.server.Registered i → t.server.Registered i) := by
  obtain ⟨src, hsource⟩ := m.exists_source
  exact (system_changes h hsource (m.draws_any t.server) hstep).untouched hactive found

/-! ## Consistency -/

/-- The three tables agree with each other and with the connections in every run
in which fresh tokens are distinct. -/
theorem tables_consistent {hist : List (Trace × Move P)} {t : Trace}
    (hrun : (system P codecs config).Run hist t)
    (hfresh : System.Guarded (freshToken P config) hist) :
    (∀ a i, t.server.conns.lookup a = some i →
      ∃ c, t.server.heap[i]? = some c ∧ c.remoteAddr = a) ∧
    (∀ a b i, t.server.conns.lookup a = some i → t.server.conns.lookup b = some i → a = b) ∧
    (∀ a, ¬(a ∈ t.server.conns ∧ a ∈ t.server.pending)) ∧
    ∀ token i, t.server.tokens.lookup token = some i ↔
      ∃ a c, t.server.conns.lookup a = some i ∧ t.server.heap[i]? = some c ∧
        migrates c.features = true ∧ c.migrationToken = token := by
  have hsound := sound_of_run hrun
  have hfindable := findable_of_run hrun hfresh
  refine ⟨fun a i => hsound.conns_addr, ?_, ?_, ?_⟩
  · intro a b i ha hb
    obtain ⟨c, hc, rfl⟩ := hsound.conns_addr ha
    obtain ⟨d, hd, rfl⟩ := hsound.conns_addr hb
    obtain rfl : c = d := Option.some.inj (hc.symm.trans hd)
    rfl
  · rintro a ⟨hconn, hpending⟩
    obtain ⟨i, hi⟩ := Option.isSome_iff_exists.mp (AList.lookup_isSome.mpr hconn)
    rw [← AList.lookup_isSome, hsound.disjoint hi] at hpending
    cases hpending
  · intro token i
    constructor
    · intro hlook
      obtain ⟨c, hc, hreg, hm, htoken⟩ := hsound.tokens_sound hlook
      exact ⟨c.remoteAddr, c, hreg, hc, hm, htoken⟩
    · rintro ⟨a, c, hreg, hc, hm, rfl⟩
      obtain ⟨d, hd, rfl⟩ := hsound.conns_addr hreg
      obtain rfl : c = d := Option.some.inj (hc.symm.trans hd)
      exact hfindable.tokens_complete hc hreg hm

end

/-! ## A concrete run -/

/-- A server with one channel that offers batching and migration. -/
def plainConfig : ServerConfig where
  appVersion := 0
  maxConnections := 10
  maxPendingHandshakes := 10
  handshakeTimeout := 10
  layout := [(.reliableOrdered, 0)]
  compression := .unset
  cc := .aggressive 0
  settings := ⟨0, 0, 0, 0⟩
  sendBatching := true
  connectionMigration := true
  tick := ⟨1200, 10, 10, 10, 10⟩

def arrival (port : UInt16) (data : Bytes) : Move plainPrimitives :=
  .incoming 0 ⟨0, port⟩ data plainRandom true

def plainConnect : Bytes :=
  (buildConnectPacket 128 (plainClient.connectPacket plainPrimitives plainKey)).toOption.getD []

def sealPlain (nonce : ℕ) (plaintext : Bytes) : Bytes :=
  putLE nonceSize nonce ++ zeroTagAead.sealBytes nonce plaintext

def plainResponse : Bytes :=
  sealPlain 1 ((buildResponsePacket 64 plainRandom.challengeToken).toOption.getD [])

def pendingTrace : Trace :=
  (next plainPrimitives noCodecs plainConfig ⟨empty, []⟩ (arrival 1 plainConnect)).getD ⟨empty, []⟩

def connectedTrace : Trace :=
  (next plainPrimitives noCodecs plainConfig pendingTrace (arrival 1 plainResponse)).getD
    ⟨empty, []⟩

def handshakeHist : List (Trace × Move plainPrimitives) :=
  [(pendingTrace, arrival 1 plainResponse), (⟨empty, []⟩, arrival 1 plainConnect)]

theorem handshake_run :
    (system plainPrimitives noCodecs plainConfig).Run handshakeHist connectedTrace := by
  refine .step (.step (.start rfl) (system_of_next ?_)) (system_of_next ?_)
  · exact (Option.getD_of_ne_none (by decide +kernel) _).symm
  · exact (Option.getD_of_ne_none (by decide +kernel) _).symm

theorem handshake_fresh :
    System.Guarded (freshToken plainPrimitives plainConfig) handshakeHist := by
  intro taken htaken
  rcases List.mem_pair.mp htaken with rfl | rfl
  · rintro ph ⟨⟩
  · intro ph hph _
    simp [empty]

theorem tables_consistent_handshake :
    connectedTrace.server.conns.lookup ⟨0, 1⟩ = some 0 ∧
      connectedTrace.server.tokens.lookup (List.replicate 8 3) = some 0 := by
  obtain ⟨-, -, -, htokens⟩ := tables_consistent handshake_run handshake_fresh
  have hconn : connectedTrace.server.conns.lookup ⟨0, 1⟩ = some 0 := by decide +kernel
  have hmarks : connectedTrace.server.heap[0]?.map
      (fun c => (migrates c.features, c.migrationToken)) = some (true, List.replicate 8 3) := by
    decide +kernel
  obtain ⟨c, hc, hmarks⟩ := Option.map_eq_some_iff.mp hmarks
  rw [Prod.mk.injEq] at hmarks
  exact ⟨hconn, (htokens _ 0).mpr ⟨⟨0, 1⟩, c, hconn, hc, hmarks⟩⟩

end Server

end Fastwire
