/-
# Forged traffic

A datagram that claims to belong to a connection, by its address or by the
migration token, and that nobody with the key has sealed, is refused before
anything is written down. A run with such datagrams in between is therefore, as
far as the connection is concerned, the run without them.

Once a connection has been torn down no datagram reaches it any more, whatever
happens to the rest of the server.
-/

import Fastwire.Server.Runs

namespace Fastwire

open Crypto Lib

namespace Crypto.CipherState

/-- The cipher would open the packet; whether it is a replay is not asked. -/
def opens (state : CipherState) (packet : Bytes) : Bool :=
  match state.aead with
  | none => true
  | some a => nonceSize + tagSize ≤ packet.length &&
      (a.openBytes (wireNonce packet) (packet.drop nonceSize)).isSome

theorem decrypt_of_not_opens {state : CipherState} {packet : Bytes}
    (h : state.opens packet = false) : ∃ e, state.decrypt packet = .error e := by
  cases haead : state.aead with
  | none => simp [opens, haead] at h
  | some a =>
      simp only [decrypt, haead]
      split
      · exact ⟨_, rfl⟩
      · rename_i hlong
        split
        · exact ⟨_, rfl⟩
        · have hclosed : a.openBytes (wireNonce packet) (packet.drop nonceSize) = none := by
            simpa [opens, haead, Nat.le_of_not_lt hlong] using h
          rw [hclosed]
          exact ⟨_, rfl⟩

end Crypto.CipherState

namespace Server

/-! ## Refusal -/

def payload (c : Connection) (data : Bytes) : Bytes :=
  if migrates c.features then data.drop migrationTokenSize else data

/-- No packet of the datagram opens under the key of the connection. -/
def Unsealed (c : Connection) (data : Bytes) : Prop :=
  ∀ packets, datagramPackets c (payload c data) = .ok packets →
    ∀ packet ∈ packets, c.recvCipher.opens packet = false

section

variable {s : Server} {i : ℕ} {c : Connection}

theorem processPackets_unsealed (found : s.heap[i]? = some c) (now : ℤ) (addr : AddrPort)
    {packets : List Bytes} (hfail : ∀ packet ∈ packets, c.recvCipher.opens packet = false) :
    ∃ errors : List Err, processPackets now addr i s packets =
      .ok (s, errors.map fun e => .conn i (.onError e)) := by
  induction packets with
  | nil => exact ⟨[], rfl⟩
  | cons packet packets ih =>
      obtain ⟨hfirst, hrest⟩ := List.forall_mem_cons.mp hfail
      obtain ⟨e, he⟩ := CipherState.decrypt_of_not_opens hfirst
      obtain ⟨errors, herrors⟩ := ih hrest
      refine ⟨e :: errors, ?_⟩
      rw [processPackets, processPacket, found]
      simp only [he, herrors]
      rfl

theorem processConnData_unsealed (found : s.heap[i]? = some c) (now : ℤ) (addr : AddrPort)
    {data : Bytes} (hfail : Unsealed c data) :
    ∃ errors : List Err, s.processConnData now addr i c data =
      .ok (s, errors.map fun e => .conn i (.onError e)) := by
  rw [processConnData, ← payload]
  split
  · exact ⟨[], rfl⟩
  · dsimp only
    cases hpackets : datagramPackets c (payload c data) with
    | error e => exact ⟨[e], rfl⟩
    | ok packets => exact processPackets_unsealed found now addr (hfail packets hpackets)

theorem tryMigration_unsealed (hmigrates : migrates c.features = true) (now : ℤ) (addr : AddrPort)
    {data : Bytes} (hfail : Unsealed c data) : s.tryMigration now addr i c data = .ok (s, []) := by
  have hpayload : payload c data = data.drop migrationTokenSize := by rw [payload, if_pos hmigrates]
  rw [tryMigration, ← hpayload]
  split
  · rfl
  · rfl
  · rename_i first rest hpackets
    obtain ⟨e, he⟩ := CipherState.decrypt_of_not_opens
      (hfail _ hpackets first List.mem_cons_self)
    rw [he]

end

/-! ## Forged datagrams -/

/-- The datagram is aimed at the connection: it comes from its address, or it
carries its token and comes from an address that is not registered. If a
handshake is pending there, the datagram does not complete it. -/
def Aimed (P : Primitives) (codecs : Codecs) (s : Server) (i : ℕ) (c : Connection) (now : ℤ)
    (addr : AddrPort) (data : Bytes) : Prop :=
  addr = c.remoteAddr ∨
    s.conns.lookup addr = none ∧
    (∀ ph, s.pending.lookup addr = some ph →
      ∃ e, serverProcessResponse P codecs data ph addr now = .error e) ∧
    migrates c.features = true ∧ migrationTokenSize ≤ data.length ∧
    data.take migrationTokenSize = c.migrationToken ∧
    (s.Registered i → s.tokens.lookup c.migrationToken = some i)

/-- A datagram that is aimed at an encrypted connection and that nobody with the
key has sealed. -/
def Forged {P : Primitives} (codecs : Codecs) (i : ℕ) (s : Server) : Move P → Prop
  | .incoming now addr data _ _ => ∃ c, s.heap[i]? = some c ∧ c.recvCipher.aead.isSome = true ∧
      Aimed P codecs s i c now addr data ∧ Unsealed c data
  | _ => False

/-- Nobody has negotiated a migration that the server does not offer. -/
structure Offered (config : ServerConfig) (s : Server) : Prop where
  heap : ∀ (i : ℕ) (c : Connection), s.heap[i]? = some c → migrates c.features = true →
    config.connectionMigration = true
  pending : ∀ (a : AddrPort) (ph : PendingHandshake), s.pending.lookup a = some ph →
    migrates ph.features = true → config.connectionMigration = true

theorem migrates_offered {features : UInt8} {batching migration : Bool}
    (h : migrates (features &&& featuresFromConfig batching migration) = true) :
    migration = true := by
  cases migration with
  | true => rfl
  | false =>
      have hzero : featuresFromConfig batching false &&& featureConnectionMigration = 0 := by
        cases batching <;> decide
      rw [migrates, UInt8.and_assoc, hzero, UInt8.and_zero] at h
      simp at h

theorem serverProcessConnect_offered {P : Primitives} {config : ServerConfig}
    {random : HandshakeRandom P} {now : ℤ} {data challenge : Bytes} {ph : PendingHandshake}
    (hok : serverProcessConnect P config.handshake random now data = .ok (ph, challenge))
    (hmigrates : migrates ph.features = true) : config.connectionMigration = true := by
  rw [serverProcessConnect] at hok
  split at hok
  · cases hok
  · split at hok
    · cases hok
    · split at hok
      · cases hok
      · rw [answerConnect] at hok
        split at hok
        · split at hok <;> cases hok
        · split at hok
          · cases hok
          · split at hok
            · cases hok
            · cases hok
              exact migrates_offered hmigrates

section

variable {P : Primitives} {codecs : Codecs} {config : ServerConfig}

theorem Change.offered {active : ℕ → Prop} {src : AddrPort} {t t' : Trace}
    (hchange : Change P codecs
      (fun _ ph => migrates ph.features = true → config.connectionMigration = true) active src t t')
    (h : t.server.Offered config) : t'.server.Offered config := by
  have hset : ∀ {s : Server} {i : ℕ} {c c' : Connection}, s.Offered config →
      s.heap[i]? = some c → c'.features = c.features → (s.setConn i c').Offered config := by
    intro s i c c' h found hfeatures
    refine ⟨?_, h.pending⟩
    intro j d hd
    by_cases hij : i = j
    · subst hij
      rw [setConn_getElem found, Option.some.injEq] at hd
      rw [← hd, hfeatures]
      exact h.heap i c found
    · rw [setConn, List.getElem?_set_ne hij] at hd
      exact h.heap j d hd
  cases hchange with
  | sent addr data => exact h
  | refused act e => exact h
  | decrypted act found opens => exact hset h found rfl
  | @called s log i c c' events act found held same life =>
      have hfeatures : c'.features = c.features := congrArg (fun x => x.2.1) same
      have hwritten := hset h found hfeatures
      rw [settle]
      split
      · exact ⟨hwritten.heap, hwritten.pending⟩
      · exact hwritten
  | closed act found same live life_eq => exact hset h found (congrArg (fun x => x.2.1) same)
  | @moved s log i c act found registered free settled =>
      refine ⟨?_, ?_⟩
      · intro j d hd
        rcases moveTo_inv found registered free hd with ⟨-, heq⟩ | ⟨-, hold⟩
        · have hfeatures : d.features = c.features := by rw [heq]
          rw [hfeatures]
          exact h.heap i c found
        · exact h.heap j d hold
      · rw [moveTo_eq registered free]
        exact h.pending
  | admitted awaited free accepted =>
      obtain ⟨_, _, _, _, -, -, -, -, rfl⟩ := serverProcessResponse_ok_inv accepted
      refine ⟨?_, ?_⟩
      · intro j d hd
        rcases register_inv hd with ⟨-, rfl⟩ | hd
        · exact h.pending _ _ awaited
        · exact h.heap j d hd
      · intro a other hother
        rw [register, Table.lookup_erase_eq] at hother
        split at hother
        · cases hother
        · exact h.pending a other hother
  | remembered free fresh =>
      refine ⟨h.heap, ?_⟩
      intro a other hother
      rw [Table.lookup_insert_eq] at hother
      split at hother
      · rw [← Option.some.inj hother]
        exact fresh
      · exact h.pending a other hother
  | expired keep =>
      refine ⟨h.heap, ?_⟩
      intro a other hother
      exact h.pending a other (lookup_of_filter hother)

theorem offered_of_run {hist : List (Trace × Move P)} {t : Trace}
    (hrun : (system P codecs config).Run hist t) : t.server.Offered config := by
  induction hrun with
  | start starts =>
      rw [starts]
      exact ⟨by simp [empty], by simp [empty]⟩
  | @step hist t t' m prior taken ih =>
      obtain ⟨src, hsource⟩ := m.exists_source
      have hdraws : m.Draws config
          (fun _ ph => migrates ph.features = true → config.connectionMigration = true)
          t.server := by
        intro ph hph
        obtain ⟨now, addr, data, random, allowed, challenge, -, hok⟩ := Move.remembers_inv hph
        exact serverProcessConnect_offered hok
      have hchanges := system_changes (sound_of_run prior) hsource hdraws taken
      clear taken
      induction hchanges with
      | refl => exact ih
      | tail _ hchange ih => exact hchange.offered ih

/-- A forged datagram changes nothing while its connection is registered; at most
errors are reported. -/
theorem step_forged {s : Server} {i : ℕ} (h : s.Sound) (hoffered : s.Offered config)
    (hreg : s.Registered i) {m : Move P} (hforged : Forged codecs i s m) :
    ∃ errors : List Err, s.step P codecs config m =
      .ok (s, errors.map fun e => .conn i (.onError e)) := by
  cases m with
  | incoming now addr data random allowed =>
      obtain ⟨c, found, -, haimed, hfail⟩ := hforged
      obtain ⟨a, ha⟩ := hreg
      obtain ⟨d, hd, haddr⟩ := h.conns_addr ha
      obtain rfl : c = d := Option.some.inj (found.symm.trans hd)
      rw [step, processIncoming]
      rcases haimed with rfl | ⟨free, hpending, hmigrates, hlong, htoken, hlook⟩
      · rw [haddr, ha]
        simp only [Option.bind_some, found, Option.map_some]
        exact processConnData_unsealed found now a hfail
      · rw [free]
        simp only [Option.bind_none]
        cases hph : s.pending.lookup addr with
        | some ph =>
            obtain ⟨e, he⟩ := hpending ph hph
            refine ⟨[], ?_⟩
            simp only [processResponse, he]
            rfl
        | none =>
            refine ⟨[], ?_⟩
            have hoffer := hoffered.heap i c found hmigrates
            have hroute : s.migrating config data = some i := by
              rw [migrating, if_pos ⟨hoffer, hlong⟩, htoken]
              exact hlook ⟨a, ha⟩
            simp only [hroute, Option.bind_some, found, Option.map_some]
            exact tryMigration_unsealed hmigrates now addr hfail
  | _ => exact hforged.elim

/-! ## Connections that were torn down -/

/-- The callbacks of a connection that carry data or end it. -/
def isCallback (i : ℕ) : ServerEvent → Bool
  | .conn j (.onMessage _ _) => j = i
  | .conn j (.onDisconnect _) => j = i
  | _ => false

def callbacks (i : ℕ) (log : List ServerEvent) : List ServerEvent := log.filter (isCallback i)

theorem callbacks_eq (i : ℕ) (log : List ServerEvent) :
    callbacks i log = (eventsOf i log).filter (isCallback i) := by
  rw [callbacks, eventsOf, List.filter_filter]
  congr 1
  funext ev
  cases ev with
  | conn j event => cases event <;> simp [isCallback, ServerEvent.owner]
  | _ => rfl

/-- A step of the server does not touch a connection that is not registered. -/
theorem step_frozen {t t' : Trace} {m : Move P} (h : t.server.Sound)
    (hstep : (system P codecs config).step t m t') {i : ℕ} {c : Connection}
    (found : t.server.heap[i]? = some c) (hout : ¬t.server.Registered i) :
    t'.server.heap[i]? = some c ∧ ¬t'.server.Registered i ∧
      callbacks i t'.log = callbacks i t.log := by
  obtain ⟨found', hlog, hreg⟩ := step_untouched h hstep (fun hact => hout hact.registered) found
  refine ⟨found', fun hreg' => hout (hreg hreg'), ?_⟩
  rw [callbacks_eq, callbacks_eq, hlog]

/-! ## Two runs -/

/-- The history, newest first, is that of the given steps with forged datagrams
put in between. -/
inductive Inserted (codecs : Codecs) (i : ℕ) : List (Trace × Move P) → List (Move P) → Prop
  | nil : Inserted codecs i [] []
  | genuine {hist : List (Trace × Move P)} {moves : List (Move P)} (t : Trace) (m : Move P)
      (earlier : Inserted codecs i hist moves) : Inserted codecs i ((t, m) :: hist) (m :: moves)
  | forged {hist : List (Trace × Move P)} {moves : List (Move P)} {t : Trace} {m : Move P}
      (forged : Forged codecs i t.server m) (earlier : Inserted codecs i hist moves) :
      Inserted codecs i ((t, m) :: hist) moves

/-- Two traces that look the same to the connection: the servers are equal, or
the connection has been torn down in both. -/
def Alike (i : ℕ) (t t₀ : Trace) : Prop :=
  callbacks i t.log = callbacks i t₀.log ∧
    (t.server = t₀.server ∨ ∃ c, t.server.heap[i]? = some c ∧ t₀.server.heap[i]? = some c ∧
      ¬t.server.Registered i ∧ ¬t₀.server.Registered i)

/-- The same step keeps them alike. -/
theorem Alike.step {i : ℕ} {t t' t₀ t₀' : Trace} (h : Alike i t t₀) (hsound : t.server.Sound)
    (hsound₀ : t₀.server.Sound) {m : Move P} (hstep : (system P codecs config).step t m t')
    (hstep₀ : (system P codecs config).step t₀ m t₀') : Alike i t' t₀' := by
  obtain ⟨hlog, hsame | ⟨c, found, found₀, hout, hout₀⟩⟩ := h
  · obtain ⟨events, hok, hlog'⟩ := hstep
    obtain ⟨events₀, hok₀, hlog₀'⟩ := hstep₀
    rw [hsame, hok₀, Except.ok.injEq, Prod.mk.injEq] at hok
    refine ⟨?_, .inl hok.1.symm⟩
    rw [hlog', hlog₀', callbacks, callbacks, List.filter_append, List.filter_append, hok.2]
    exact congrArg (· ++ _) hlog
  · obtain ⟨found', hout', hlog'⟩ := step_frozen hsound hstep found hout
    obtain ⟨found₀', hout₀', hlog₀'⟩ := step_frozen hsound₀ hstep₀ found₀ hout₀
    exact ⟨hlog'.trans (hlog.trans hlog₀'.symm), .inr ⟨c, found', found₀', hout', hout₀'⟩⟩

/-- A forged datagram on one side keeps them alike. -/
theorem Alike.forged {i : ℕ} {t t' t₀ : Trace} (h : Alike i t t₀) (hsound : t.server.Sound)
    (hoffered : t.server.Offered config) {m : Move P} (hforged : Forged codecs i t.server m)
    (hstep : (system P codecs config).step t m t') : Alike i t' t₀ := by
  obtain ⟨hlog, hcase⟩ := h
  by_cases hreg : t.server.Registered i
  · obtain ⟨errors, hinert⟩ := step_forged hsound hoffered hreg hforged
    obtain ⟨events, hok, hlog'⟩ := hstep
    rw [hinert, Except.ok.injEq, Prod.mk.injEq] at hok
    have hquiet : callbacks i t'.log = callbacks i t.log := by
      have hnil : events.filter (isCallback i) = [] := by
        rw [← hok.2, List.filter_eq_nil_iff]
        intro ev hev
        obtain ⟨e, -, rfl⟩ := List.mem_map.mp hev
        simp [isCallback]
      rw [hlog', callbacks, List.filter_append, hnil, List.append_nil]
      rfl
    refine ⟨hquiet.trans hlog, ?_⟩
    rw [← hok.1]
    exact hcase
  · obtain ⟨c, found⟩ : ∃ c, t.server.heap[i]? = some c := by
      cases m with
      | incoming now addr data random allowed => exact ⟨_, hforged.choose_spec.1⟩
      | _ => exact hforged.elim
    obtain ⟨found', hout', hlog'⟩ := step_frozen hsound hstep found hreg
    refine ⟨hlog'.trans hlog, .inr ⟨c, found', ?_⟩⟩
    rcases hcase with hsame | ⟨d, hd, hd₀, hout, hout₀⟩
    · rw [← hsame]
      exact ⟨found, hout', hreg⟩
    · obtain rfl : c = d := Option.some.inj (found.symm.trans hd)
      exact ⟨hd₀, hout', hout₀⟩

/-- Runs that differ in forged datagrams only are alike. -/
theorem alike_of_inserted {i : ℕ} {hist hist₀ : List (Trace × Move P)} {t t₀ : Trace}
    (hrun : (system P codecs config).Run hist t) (hrun₀ : (system P codecs config).Run hist₀ t₀)
    (hinserted : Inserted codecs i hist (hist₀.map Prod.snd)) : Alike i t t₀ := by
  induction hrun generalizing hist₀ t₀ with
  | start starts =>
      cases hrun₀ with
      | start starts₀ =>
          rw [starts, starts₀]
          exact ⟨rfl, .inl rfl⟩
      | step prior₀ taken₀ => cases hinserted
  | @step hist t t' m prior taken ih =>
      generalize hmoves : hist₀.map Prod.snd = moves at hinserted
      cases hinserted with
      | genuine _ _ earlier =>
          cases hrun₀ with
          | start starts₀ => cases hmoves
          | step prior₀ taken₀ =>
              rw [List.map_cons, List.cons.injEq] at hmoves
              obtain ⟨rfl, rfl⟩ := hmoves
              exact (ih prior₀ earlier).step (sound_of_run prior) (sound_of_run prior₀) taken taken₀
      | forged hforged earlier =>
          rw [← hmoves] at earlier
          exact (ih hrun₀ earlier).forged (sound_of_run prior) (offered_of_run prior) hforged taken

/-- Forged datagrams have no influence on an encrypted connection: they are
refused without a trace, and a run with any number of them at any positions
leaves the connection, its entries in the tables and its callbacks as they are in
the run without them. -/
theorem forged_traffic_inert {i : ℕ} {hist hist₀ : List (Trace × Move P)} {t t₀ : Trace}
    (hrun : (system P codecs config).Run hist t) (hrun₀ : (system P codecs config).Run hist₀ t₀)
    (hinserted : Inserted codecs i hist (hist₀.map Prod.snd)) :
    t.server.heap[i]? = t₀.server.heap[i]? ∧
      (∀ a, t.server.conns.lookup a = some i ↔ t₀.server.conns.lookup a = some i) ∧
      (∀ token, t.server.tokens.lookup token = some i ↔ t₀.server.tokens.lookup token = some i) ∧
      callbacks i t.log = callbacks i t₀.log ∧
      ∀ m, Forged codecs i t.server m → t.server.Registered i →
        ∃ errors : List Err, t.server.step P codecs config m =
          .ok (t.server, errors.map fun e => .conn i (.onError e)) := by
  have hsound := sound_of_run hrun
  have hsound₀ := sound_of_run hrun₀
  have hinert : ∀ m, Forged codecs i t.server m → t.server.Registered i →
      ∃ errors : List Err, t.server.step P codecs config m =
        .ok (t.server, errors.map fun e => .conn i (.onError e)) :=
    fun m hforged hreg => step_forged hsound (offered_of_run hrun) hreg hforged
  obtain ⟨hlog, hsame | ⟨c, found, found₀, hout, hout₀⟩⟩ := alike_of_inserted hrun hrun₀ hinserted
  · rw [← hsame]
    exact ⟨rfl, fun _ => Iff.rfl, fun _ => Iff.rfl, hlog, hinert⟩
  · refine ⟨found.trans found₀.symm, ?_, ?_, hlog, hinert⟩
    · intro a
      exact ⟨fun ha => absurd ⟨a, ha⟩ hout, fun ha => absurd ⟨a, ha⟩ hout₀⟩
    · intro token
      constructor
      · intro ht
        obtain ⟨d, -, hreg, -⟩ := hsound.tokens_sound ht
        exact absurd ⟨_, hreg⟩ hout
      · intro ht
        obtain ⟨d, -, hreg, -⟩ := hsound₀.tokens_sound ht
        exact absurd ⟨_, hreg⟩ hout₀

end

/-! ## A concrete run -/

/-- The token of the connection in front of a packet with a wrong tag. -/
def forgedData : Bytes :=
  List.replicate 8 3 ++ singleFrame (putLE nonceSize 7 ++ List.replicate 20 255)

theorem forgedData_unsealed : ∃ c, connectedTrace.server.heap[0]? = some c ∧
    c.recvCipher.aead.isSome = true ∧ c.remoteAddr = ⟨0, 1⟩ ∧ migrates c.features = true ∧
    c.migrationToken = List.replicate 8 3 ∧ Unsealed c forgedData := by
  have h : connectedTrace.server.heap[0]?.any (fun c => decide (c.recvCipher.aead.isSome = true ∧
      c.remoteAddr = ⟨0, 1⟩ ∧ migrates c.features = true ∧ c.migrationToken = List.replicate 8 3 ∧
      ∀ packet ∈ (datagramPackets c (payload c forgedData)).toOption.getD [],
        c.recvCipher.opens packet = false)) = true := by
    decide +kernel
  obtain ⟨c, found, hc⟩ := (Option.any_eq_true ..).mp h
  obtain ⟨haead, haddr, hmigrates, htoken, hfail⟩ := of_decide_eq_true hc
  refine ⟨c, found, haead, haddr, hmigrates, htoken, ?_⟩
  intro packets hpackets
  rw [hpackets] at hfail
  exact hfail

/-- From the address of the connection and from an unknown one. -/
theorem forgedData_forged {port : UInt16} (hport : port = 1 ∨ port = 9) :
    Forged noCodecs 0 connectedTrace.server (arrival port forgedData) := by
  obtain ⟨c, found, haead, haddr, hmigrates, htoken, hfail⟩ := forgedData_unsealed
  refine ⟨c, found, haead, ?_, hfail⟩
  rcases hport with rfl | rfl
  · exact .inl haddr.symm
  · have hfree : connectedTrace.server.conns.lookup ⟨0, 9⟩ = none := by decide +kernel
    have hpending : connectedTrace.server.pending.lookup ⟨0, 9⟩ = none := by decide +kernel
    have hlook : connectedTrace.server.tokens.lookup (List.replicate 8 3) = some 0 := by
      decide +kernel
    refine .inr ⟨hfree, ?_, hmigrates, by decide, by rw [htoken]; decide, ?_⟩
    · intro ph hph
      rw [hpending] at hph
      cases hph
    · intro _
      rwa [htoken]

theorem forged_traffic_inert_twice :
    ∃ hist t, (system plainPrimitives noCodecs plainConfig).Run hist t ∧
      hist.map Prod.snd = arrival 9 forgedData :: arrival 1 forgedData ::
        handshakeHist.map Prod.snd ∧
      t.server.heap[0]? = connectedTrace.server.heap[0]? := by
  have hreg : connectedTrace.server.Registered 0 := ⟨⟨0, 1⟩, by decide +kernel⟩
  have hsound := sound_of_run handshake_run
  have hoffered := offered_of_run handshake_run
  obtain ⟨errors, hfirst⟩ := step_forged hsound hoffered hreg
    (forgedData_forged (.inl rfl))
  obtain ⟨errors', hsecond⟩ := step_forged hsound hoffered hreg
    (forgedData_forged (.inr rfl))
  obtain ⟨t₁, ht₁⟩ : ∃ t₁ : Trace, t₁ = ⟨connectedTrace.server, connectedTrace.log ++
      errors.map fun e => .conn 0 (.onError e)⟩ := ⟨_, rfl⟩
  have hstep : (system plainPrimitives noCodecs plainConfig).step connectedTrace
      (arrival 1 forgedData) t₁ := by
    rw [ht₁]
    exact ⟨_, hfirst, rfl⟩
  have hserver : t₁.server = connectedTrace.server := by rw [ht₁]
  rw [← hserver] at hsecond
  have hstep' : (system plainPrimitives noCodecs plainConfig).step t₁ (arrival 9 forgedData)
      ⟨t₁.server, t₁.log ++ errors'.map fun e => .conn 0 (.onError e)⟩ := ⟨_, hsecond, rfl⟩
  have hrun := (handshake_run.step hstep).step hstep'
  refine ⟨_, _, hrun, rfl, ?_⟩
  refine (forged_traffic_inert hrun handshake_run ?_).1
  refine .forged ?_ (.forged (forgedData_forged (.inl rfl)) (.genuine _ _ (.genuine _ _ .nil)))
  rw [hserver]
  exact forgedData_forged (.inr rfl)

end Server

end Fastwire
