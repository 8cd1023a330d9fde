/-
# Addresses that have proved nothing

Anybody can write any source address into a datagram. Two things keep a server from
being turned against the owner of such an address. What it sends to an address before a
handshake from there is complete is in proportion to what it received from there, and a
connection is only ever created after a challenge was sent to the address and came back
from it under the keys of that handshake.
-/

import Fastwire.Server.Runs

namespace Fastwire

open Crypto Lib

/-! ## Sizes -/

theorem unmarshalHeader_length {buf : Bytes} {hdr : PacketHeader} {n : ℕ}
    (hok : unmarshalHeader buf = .ok (hdr, n)) : 8 ≤ n := by
  have hread : ∀ {buf : Bytes} {v w : ℕ}, readVarInt buf = .ok (v, w) → 1 ≤ w :=
    fun h => (readVarFrom_ok (by decide) (by decide) h).1
  rw [unmarshalHeader] at hok
  split at hok
  · cases hok
  · split at hok
    · cases hok
    · rename_i sequence w₁ hsequence
      dsimp only at hok
      split at hok
      · cases hok
      · rename_i ack w₂ hack
        split at hok
        · cases hok
        · cases hok
          have h₁ := hread hsequence
          have h₂ := hread hack
          omega

/-- A control packet is at least nine bytes long. -/
theorem parseControlPacket_length {data payload : Bytes} {hdr : PacketHeader} {ct : UInt8}
    (hok : parseControlPacket data = .ok (hdr, ct, payload)) :
    1 ≤ payload.length ∧ 8 + payload.length ≤ data.length := by
  rw [parseControlPacket] at hok
  split at hok
  · cases hok
  · rename_i hdr' n hheader
    split at hok
    · cases hok
    · split at hok
      · cases hok
      · rename_i ct' rest hdrop
        cases hok
        have hn := unmarshalHeader_length hheader
        have hlen := congrArg List.length hdrop
        rw [List.length_drop, List.length_cons] at hlen
        simp only [List.length_cons]
        omega

theorem unmarshalConnect_length {data : Bytes} {connect : ConnectPacket}
    (hok : unmarshalConnect data = .ok connect) : connectMinSize ≤ data.length := by
  rw [unmarshalConnect] at hok
  split at hok
  · cases hok
  · rename_i hlong
    exact Nat.not_lt.mp hlong

/-- The packet around a payload has its type byte, and eight bytes more. -/
theorem buildHandshakePacket_reply {room : ℕ} (hroom : 16 ≤ room)
    {marshal : ℕ → Except Err Bytes} {ct : UInt8} {payload data : Bytes}
    (hmarshal : marshal (room - 8) = .ok payload) (hct : payload.head? = some ct)
    (hbuild : buildHandshakePacket room marshal = .ok data) :
    data.length = 8 + payload.length ∧ ∃ hdr, parseControlPacket data = .ok (hdr, ct, payload) := by
  obtain ⟨rest, rfl⟩ := List.head?_eq_some_iff.mp hct
  obtain ⟨bytes, hdr, hbytes, hparse⟩ := buildHandshakePacket_parse hroom hmarshal
  obtain rfl : bytes = data := Except.ok.inj (hbytes.symm.trans hbuild)
  refine ⟨?_, hdr, hparse⟩
  rw [buildHandshakePacket_eq hroom, hmarshal] at hbuild
  cases hbuild
  rw [List.length_append]
  rfl

theorem buildChallengePacket_reply {cp : ChallengePacket} {data : Bytes}
    (hbuild : buildChallengePacket 128 cp = .ok data) :
    data.length ≤ 8 + challengeWithMigration ∧ ∃ hdr,
      parseControlPacket data = .ok (hdr, ControlType.challenge.toByte, challengeBytes cp) := by
  have hmarshal : marshalChallenge (128 - 8) cp = .ok (challengeBytes cp) := by
    rw [marshalChallenge, if_neg]
    split <;> decide
  obtain ⟨hlen, hkind⟩ := buildHandshakePacket_reply (by decide) hmarshal rfl hbuild
  refine ⟨?_, hkind⟩
  rw [hlen, challengeBytes_length]
  split <;> decide

namespace Server

/-! ## Answers to a CONNECT -/

/-- An unencrypted packet with which a server answers a CONNECT. -/
def HandshakeReply (data : Bytes) : Prop :=
  ∃ hdr ct payload, parseControlPacket data = .ok (hdr, ct, payload) ∧
    (ct = ControlType.challenge.toByte ∨ ct = ControlType.versionMismatch.toByte ∨
      ct = ControlType.reject.toByte)

/-- What answers a datagram: a reply of the handshake, at most twice as long. -/
structure Answers (data reply : Bytes) : Prop where
  kind : HandshakeReply reply
  short : reply.length ≤ 2 * data.length

section

variable {P : Primitives}

theorem serverProcessConnect_answers {handshake : HandshakeConfig} {random : HandshakeRandom P}
    {now : ℤ} {data : Bytes} :
    (∀ failure, serverProcessConnect P handshake random now data = .error failure →
      ∀ reply ∈ failure.reply, Answers data reply) ∧
    ∀ pending challenge, serverProcessConnect P handshake random now data =
      .ok (pending, challenge) → Answers data challenge := by
  have hmax : 8 + challengeWithMigration = 87 := rfl
  rw [serverProcessConnect]
  split
  · simp
  · rename_i hparse
    split
    · simp
    · split
      · simp
      · rename_i hconnect
        have hdata := (parseControlPacket_length hparse).2
        have hmin : 40 ≤ _ := unmarshalConnect_length hconnect
        rw [answerConnect]
        split
        · split
          · simp
          · rename_i hbuild
            obtain ⟨hlen, hdr, hkind⟩ := buildHandshakePacket_reply (by decide) rfl rfl hbuild
            have htwo : (putUint16 handshake.appVersion).length = 2 := rfl
            simp only [List.length_append, List.length_cons, List.length_nil, htwo] at hlen
            refine ⟨?_, by simp⟩
            rintro failure ⟨⟩ reply ⟨⟩
            exact ⟨⟨hdr, _, _, hkind, .inr (.inl rfl)⟩, by omega⟩
        · split
          · simp
          · split
            · simp
            · rename_i hbuild
              refine ⟨by simp, ?_⟩
              rintro pending challenge ⟨⟩
              obtain ⟨hlen, hdr, hkind⟩ := buildChallengePacket_reply hbuild
              exact ⟨⟨hdr, _, _, hkind, .inl rfl⟩, by omega⟩

/-- What comes of a datagram that is not for a connection. -/
inductive Greets (config : ServerConfig) (random : HandshakeRandom P) (allowed : Bool) (now : ℤ)
    (addr : AddrPort) (data : Bytes) (s : Server) : Server × List ServerEvent → Prop
  | ignored : Greets config random allowed now addr data s (s, [])
  /-- The version or the load of the server is in the way. -/
  | refused {reply} (answers : Answers data reply) :
      Greets config random allowed now addr data s (s, [.sent addr reply])
  | challenged {ph challenge} (admitted : allowed = true)
      (accepted : serverProcessConnect P config.handshake random now data = .ok (ph, challenge))
      (answers : Answers data challenge) :
      Greets config random allowed now addr data s
        ({ s with pending := s.pending.insert addr ph }, [.sent addr challenge])

theorem handleHandshake_greets (s : Server) (config : ServerConfig) (random : HandshakeRandom P)
    (allowed : Bool) (now : ℤ) (addr : AddrPort) (data : Bytes) :
    Greets config random allowed now addr data s
      (s.handleHandshake P config random allowed now addr data) := by
  rw [handleHandshake]
  split
  · exact .ignored
  · rename_i hparse
    split
    · exact .ignored
    · split
      · exact .ignored
      · rename_i hallowed
        split
        · rw [rejectReply]
          split
          · exact .ignored
          · rename_i reply hbuild
            obtain ⟨hlen, hdr, hkind⟩ := buildHandshakePacket_reply (by decide) rfl rfl hbuild
            have hdata := parseControlPacket_length hparse
            simp only [List.length_cons, List.length_nil] at hlen
            exact .refused ⟨⟨hdr, _, _, hkind, .inr (.inr rfl)⟩, by omega⟩
        · split
          · rename_i failure hfailure
            cases hreply : failure.reply with
            | none => exact .ignored
            | some reply =>
                exact .refused (serverProcessConnect_answers.1 failure hfailure reply hreply)
          · rename_i ph challenge hok
            split
            · exact .ignored
            · exact .challenged (by simpa using hallowed) hok
                (serverProcessConnect_answers.2 ph challenge hok)

end

/-! ## Amplification -/

def datagrams (log : List ServerEvent) : List Bytes :=
  log.filterMap fun
    | .sent _ data => some data
    | _ => none

@[simp]
theorem datagrams_append (log events : List ServerEvent) :
    datagrams (log ++ events) = datagrams log ++ datagrams events :=
  List.filterMap_append

@[simp]
theorem datagrams_conn (i : ℕ) (events : List Event) :
    datagrams (events.map (.conn i)) = [] := by
  simp [datagrams, List.filterMap_map]

end Server

def ServerEvent.bytesTo (addr : AddrPort) : ServerEvent → ℕ
  | .sent dst data => if dst = addr then data.length else 0
  | _ => 0

namespace Server

def bytesTo (addr : AddrPort) (log : List ServerEvent) : ℕ :=
  (log.map (ServerEvent.bytesTo addr)).sum

def Move.bytesFrom {P : Primitives} (addr : AddrPort) : Move P → ℕ
  | .incoming _ src data _ _ => if src = addr then data.length else 0
  | _ => 0

def bytesFrom {P : Primitives} (addr : AddrPort) (hist : List (Trace × Move P)) : ℕ :=
  (hist.map fun taken => taken.2.bytesFrom addr).sum

section

variable {P : Primitives} {codecs : Codecs} {config : ServerConfig} {s s' : Server}
  {events : List ServerEvent} {addr : AddrPort}

theorem bytesTo_append (addr : AddrPort) (log events : List ServerEvent) :
    bytesTo addr (log ++ events) = bytesTo addr log + bytesTo addr events := by
  rw [bytesTo, List.map_append, List.sum_append]
  rfl

theorem bytesTo_of_silent (addr : AddrPort) (hsilent : datagrams events = []) :
    bytesTo addr events = 0 := by
  refine List.sum_eq_zero (List.forall_mem_map.mpr fun ev hev => ?_)
  have hnone := List.filterMap_eq_nil_iff.mp hsilent ev hev
  cases ev with
  | sent dst data => cases hnone
  | _ => rfl

/-- What does not concern addresses without a connection: nothing is sent, and no
handshake begins or ends. -/
structure Inert (s s' : Server) (events : List ServerEvent) : Prop where
  silent : datagrams events = []
  pending_eq : s'.pending = s.pending
  length_eq : s'.heap.length = s.heap.length

theorem Inert.refl (s : Server) {events : List ServerEvent}
    (hsilent : datagrams events = []) : Inert s s events :=
  ⟨hsilent, rfl, rfl⟩

theorem Inert.trans {s'' : Server} {events' : List ServerEvent} (h : Inert s s' events)
    (h' : Inert s' s'' events') : Inert s s'' (events ++ events') := by
  refine ⟨?_, h'.pending_eq.trans h.pending_eq, h'.length_eq.trans h.length_eq⟩
  rw [datagrams_append, h.silent, h'.silent]
  rfl

theorem settle_pending (i : ℕ) (c : Connection) (calls : List Event) :
    (s.settle i c calls).1.pending = s.pending := by
  rw [settle]
  dsimp only
  split <;> rfl

theorem settle_length (i : ℕ) (c : Connection) (calls : List Event) :
    (s.settle i c calls).1.heap.length = s.heap.length := by
  rw [settle]
  dsimp only
  split <;> exact List.length_set

theorem handleDecrypted_inert {now : ℤ} {i : ℕ} {decrypted : Bytes}
    (hok : s.handleDecrypted now i decrypted = .ok (s', events)) : Inert s s' events := by
  rw [handleDecrypted] at hok
  split at hok
  · cases hok
    exact .refl s rfl
  · split at hok
    · cases hok
    · rename_i c calls _
      obtain ⟨rfl, rfl⟩ := Prod.mk.inj (Except.ok.inj hok)
      exact ⟨datagrams_conn i calls, settle_pending i c calls, settle_length i c calls⟩

theorem processPacket_inert {now : ℤ} {src : AddrPort} {i : ℕ} {data : Bytes}
    (hok : s.processPacket now src i data = .ok (s', events)) : Inert s s' events := by
  rw [processPacket] at hok
  split at hok
  · cases hok
    exact .refl s rfl
  · rename_i c _
    split at hok
    · cases hok
      exact .refl s rfl
    · rename_i cipher _
      split at hok
      · cases hok
      · rename_i hhandle
        cases hok
        have hset : Inert s (s.setConn i (c.withRecvCipher cipher))
            [.opened i (CipherState.wireNonce data) src] := ⟨rfl, rfl, List.length_set⟩
        exact hset.trans (handleDecrypted_inert hhandle)

theorem processPackets_inert {now : ℤ} {src : AddrPort} {i : ℕ} {packets : List Bytes}
    (hok : processPackets now src i s packets = .ok (s', events)) : Inert s s' events := by
  induction packets generalizing s events with
  | nil =>
      cases hok
      exact .refl _ rfl
  | cons packet packets ih =>
      rw [processPackets] at hok
      split at hok
      · cases hok
      · rename_i hfirst
        split at hok
        · cases hok
        · rename_i hrest
          cases hok
          exact (processPacket_inert hfirst).trans (ih hrest)

theorem processConnData_inert {now : ℤ} {src : AddrPort} {i : ℕ} {c : Connection} {data : Bytes}
    (hok : s.processConnData now src i c data = .ok (s', events)) : Inert s s' events := by
  rw [processConnData] at hok
  split at hok
  · cases hok
    exact .refl s rfl
  · dsimp only at hok
    split at hok
    · cases hok
      exact .refl s rfl
    · exact processPackets_inert hok

theorem tryMigration_inert {now : ℤ} {src : AddrPort} {i : ℕ} {c : Connection} {data : Bytes}
    (hok : s.tryMigration now src i c data = .ok (s', events)) : Inert s s' events := by
  rw [tryMigration] at hok
  split at hok
  · cases hok
    exact .refl s rfl
  · cases hok
    exact .refl s rfl
  · rename_i first rest _
    split at hok
    · cases hok
      exact .refl s rfl
    · rename_i cipher _
      dsimp only at hok
      split at hok
      · cases hok
      · rename_i hfirst
        split at hok
        · cases hok
        · rename_i hrest
          cases hok
          have hmove : Inert s
              ((s.setConn i (c.withRecvCipher cipher)).moveTo i (c.withRecvCipher cipher) src)
              [.opened i (CipherState.wireNonce first) src] := by
            refine ⟨rfl, ?_, ?_⟩
            · rw [moveTo]
              split <;> rfl
            · rw [moveTo]
              split <;> simp [setConn]
          exact hmove.trans ((handleDecrypted_inert hfirst).trans (processPackets_inert hrest))

/-- What a step can be. -/
inductive Outcome (P : Primitives) (codecs : Codecs) (config : ServerConfig) (s : Server) :
    Move P → Server → List ServerEvent → Prop
  | inert {m s' events} (inert : Inert s s' events) : Outcome P codecs config s m s' events
  /-- A connection is called. -/
  | called {m s' events} (pending_eq : s'.pending = s.pending)
      (length_eq : s'.heap.length = s.heap.length)
      (apart : ∀ addr, (∀ c ∈ s.heap, c.remoteAddr ≠ addr) → bytesTo addr events = 0) :
      Outcome P codecs config s m s' events
  | expired (now : ℤ) : Outcome P codecs config s (.cleanup now) (s.cleanup config now) []
  | greeted {now addr data random allowed s' events}
      (greets : Greets config random allowed now addr data s (s', events)) :
      Outcome P codecs config s (.incoming now addr data random allowed) s' events
  /-- The answer to a challenge. -/
  | registered {now addr data random allowed ph c}
      (awaited : s.pending.lookup addr = some ph)
      (accepted : serverProcessResponse P codecs data ph addr now = .ok c) :
      Outcome P codecs config s (.incoming now addr data random allowed) (s.register addr c)
        [.opened s.heap.length (CipherState.wireNonce data) addr, .onConnect s.heap.length]

theorem processIncoming_outcome {random : HandshakeRandom P} {allowed : Bool} {now : ℤ}
    {addr : AddrPort} {data : Bytes}
    (hok : s.processIncoming P codecs config random allowed now addr data = .ok (s', events)) :
    Outcome P codecs config s (.incoming now addr data random allowed) s' events := by
  rw [processIncoming] at hok
  split at hok
  · exact .inert (processConnData_inert hok)
  · split at hok
    · rename_i ph awaited
      rw [processResponse] at hok
      split at hok
      · cases hok
        exact .inert (.refl s rfl)
      · rename_i c accepted
        cases hok
        exact .registered awaited accepted
    · split at hok
      · exact .inert (tryMigration_inert hok)
      · have hgreets := s.handleHandshake_greets config random allowed now addr data
        rw [Except.ok.inj hok] at hgreets
        exact .greeted hgreets

/-- A connection writes to its own address. -/
theorem callConn_outcome {m : Move P} {i : ℕ} {failures : List Bool}
    {call : Connection → Socket → Connection × Socket × List Event}
    (hok : (.ok (s.callConn i failures call) : Except GoPanic (Server × List ServerEvent)) =
      .ok (s', events)) : Outcome P codecs config s m s' events := by
  rw [callConn] at hok
  split at hok
  · cases hok
    exact .inert (.refl s rfl)
  · rename_i c found
    cases hok
    refine .called (settle_pending _ _ _) (settle_length _ _ _) fun addr hnever => ?_
    have hother := hnever c (List.mem_of_getElem? found)
    rw [bytesTo_append, bytesTo_of_silent addr (datagrams_conn i _), Nat.add_zero]
    exact List.sum_eq_zero (List.forall_mem_map.mpr (List.forall_mem_map.mpr fun _ _ =>
      if_neg hother))

theorem step_outcome {m : Move P} (hok : s.step P codecs config m = .ok (s', events)) :
    Outcome P codecs config s m s' events := by
  cases m with
  | incoming now addr data random allowed => exact processIncoming_outcome hok
  | cleanup now =>
      cases hok
      exact .expired now
  | tick now i failures => exact callConn_outcome hok
  | close now i failures => exact callConn_outcome hok
  | sendImmediate now i data channel failures => exact callConn_outcome hok
  | send i data channel => exact callConn_outcome hok

/-- A datagram provokes at most twice its length. -/
theorem step_bytesTo {m : Move P} (hnever : ∀ c ∈ s.heap, c.remoteAddr ≠ addr)
    (hok : s.step P codecs config m = .ok (s', events)) :
    bytesTo addr events ≤ 2 * m.bytesFrom addr := by
  have hanswer : ∀ {src : AddrPort} {data reply : Bytes}, Answers data reply →
      bytesTo addr [.sent src reply] ≤ 2 * if src = addr then data.length else 0 := by
    intro src data reply answers
    simp only [bytesTo, ServerEvent.bytesTo, List.map_cons, List.map_nil, List.sum_cons,
      List.sum_nil, Nat.add_zero]
    split
    · exact answers.short
    · exact Nat.zero_le _
  cases step_outcome hok with
  | inert inert =>
      rw [bytesTo_of_silent addr inert.silent]
      exact Nat.zero_le _
  | called pending_eq length_eq apart =>
      rw [apart addr hnever]
      exact Nat.zero_le _
  | greeted greets =>
      cases greets with
      | ignored => exact Nat.zero_le _
      | refused answers => exact hanswer answers
      | challenged admitted accepted answers => exact hanswer answers
  | _ => exact Nat.zero_le _

/-- **Amplification is bounded.** In every run of a server, an address at which no
connection has ever been gets at most twice as many bytes as came from there. -/
theorem amplification_bounded {hist : List (Trace × Move P)} {t : Trace}
    (hrun : (system P codecs config).Run hist t)
    (hnever : ∀ taken ∈ hist, ∀ c ∈ taken.1.server.heap, c.remoteAddr ≠ addr) :
    bytesTo addr t.log ≤ 2 * bytesFrom addr hist := by
  induction hrun with
  | start starts =>
      rw [starts]
      exact Nat.zero_le _
  | @step hist t t' m prior taken ih =>
      rw [List.forall_mem_cons] at hnever
      obtain ⟨events, hok, hlog⟩ := taken
      have hbefore := ih hnever.2
      have hnow := step_bytesTo hnever.1 hok
      have hsum : bytesFrom addr ((t, m) :: hist) = m.bytesFrom addr + bytesFrom addr hist := rfl
      rw [hlog, bytesTo_append, hsum]
      omega

end

/-- A CONNECT and its challenge: 87 bytes for 48. -/
theorem amplification_bounded_connect : ∃ hist t,
    (system plainPrimitives noCodecs plainConfig).Run hist t ∧
      bytesFrom ⟨0, 1⟩ hist = 48 ∧ bytesTo ⟨0, 1⟩ t.log = 87 ∧
      bytesTo ⟨0, 1⟩ t.log ≤ 2 * bytesFrom ⟨0, 1⟩ hist := by
  obtain ⟨hist, t, hrun, hnever, hfrom, hto⟩ := System.exists_history
    (S := system plainPrimitives noCodecs plainConfig) (fun _ _ _ => system_of_next) rfl
    [arrival 1 plainConnect]
    (fun hist t => (∀ taken ∈ hist, ∀ c ∈ taken.1.server.heap, c.remoteAddr ≠ ⟨0, 1⟩) ∧
      bytesFrom ⟨0, 1⟩ hist = 48 ∧ bytesTo ⟨0, 1⟩ t.log = 87) (by decide +kernel)
  exact ⟨hist, t, hrun, hfrom, hto, amplification_bounded hrun hnever⟩

/-! ## Validation -/

/-- The step that has sent the challenge of a handshake to the address. -/
def Challenges {P : Primitives} (config : ServerConfig) (log : List ServerEvent) (addr : AddrPort)
    (ph : PendingHandshake) (taken : Trace × Move P) : Prop :=
  ∃ now data random challenge, taken.2 = .incoming now addr data random true ∧
    serverProcessConnect P config.handshake random now data = .ok (ph, challenge) ∧
    .sent addr challenge ∈ log

/-- The step in which an answer from the address, under the keys of the handshake, has
created a connection. -/
def Admits {P : Primitives} (codecs : Codecs) (i : ℕ) (addr : AddrPort) (ph : PendingHandshake)
    (taken : Trace × Move P) : Prop :=
  taken.1.server.heap.length = i ∧ ∃ now data random allowed c,
    taken.2 = .incoming now addr data random allowed ∧
      serverProcessResponse P codecs data ph addr now = .ok c

section

variable {P : Primitives} {codecs : Codecs} {config : ServerConfig} {s s' : Server}
  {events : List ServerEvent} {addr : AddrPort} {ph : PendingHandshake}

/-- What a step does to the handshakes. -/
theorem step_pending {m : Move P} (hok : s.step P codecs config m = .ok (s', events))
    (hlookup : s'.pending.lookup addr = some ph) :
    s.pending.lookup addr = some ph ∨ ∀ t : Trace, ∀ log, (∀ ev ∈ events, ev ∈ log) →
      Challenges config log addr ph (t, m) := by
  cases step_outcome hok with
  | inert inert => exact .inl (inert.pending_eq ▸ hlookup)
  | called pending_eq => exact .inl (pending_eq ▸ hlookup)
  | expired now =>
      have hkept : (s.pending.filter fun ph => !ph.isExpired now config.handshakeTimeout).lookup
          addr = some ph := hlookup
      rw [Table.lookup_filter, Option.filter_eq_some_iff] at hkept
      exact .inl hkept.1
  | @registered now src data =>
      have herased : (s.pending.erase src).lookup addr = some ph := hlookup
      rw [Table.lookup_erase_eq] at herased
      split at herased
      · cases herased
      · exact .inl herased
  | @greeted now src data random allowed _ _ greets =>
      cases greets with
      | ignored => exact .inl hlookup
      | refused => exact .inl hlookup
      | @challenged ph' challenge admitted accepted =>
          dsimp only at hlookup
          rw [Table.lookup_insert_eq] at hlookup
          split at hlookup
          · rename_i heq
            subst heq admitted
            cases hlookup
            exact .inr fun t log hlog => ⟨now, data, random, challenge, rfl, accepted,
              hlog _ (List.mem_singleton_self _)⟩
          · exact .inl hlookup

/-- What a step does to the connections: there is none more than before, or one more, and
an answer to a pending handshake has created it. -/
theorem step_length {m : Move P} (hok : s.step P codecs config m = .ok (s', events)) :
    s'.heap.length = s.heap.length ∨ s'.heap.length = s.heap.length + 1 ∧ ∃ addr ph,
      s.pending.lookup addr = some ph ∧
        ∀ log, Admits codecs s.heap.length addr ph (⟨s, log⟩, m) := by
  cases step_outcome hok with
  | inert inert => exact .inl inert.length_eq
  | called pending_eq length_eq => exact .inl length_eq
  | expired now => exact .inl rfl
  | @registered now addr data random allowed ph c awaited accepted =>
      refine .inr ⟨by simp [register], addr, ph, awaited, fun log => ?_⟩
      exact ⟨rfl, now, data, random, allowed, c, rfl, accepted⟩
  | greeted greets => cases greets <;> exact .inl rfl

/-- Every handshake that is pending was challenged, and every connection was admitted
after its challenge. -/
structure Validated (codecs : Codecs) (config : ServerConfig) (hist : List (Trace × Move P))
    (t : Trace) : Prop where
  pending : ∀ addr ph, t.server.pending.lookup addr = some ph →
    ∃ request ∈ hist, Challenges config t.log addr ph request
  admitted : ∀ i < t.server.heap.length, ∃ addr ph answer request,
    [answer, request].Sublist hist ∧ Challenges config answer.1.log addr ph request ∧
      Admits codecs i addr ph answer

theorem Validated.step {hist : List (Trace × Move P)} {t t' : Trace} {m : Move P}
    (h : Validated codecs config hist t) (hstep : (system P codecs config).step t m t') :
    Validated codecs config ((t, m) :: hist) t' := by
  obtain ⟨events, hok, hlog⟩ := hstep
  constructor
  · intro addr ph hlookup
    rcases step_pending hok hlookup with hold | hnew
    · obtain ⟨request, hmem, now, data, random, challenge, hmove, hconnect, hsent⟩ :=
        h.pending addr ph hold
      refine ⟨request, List.mem_cons_of_mem _ hmem, now, data, random, challenge, hmove,
        hconnect, ?_⟩
      rw [hlog]
      exact List.mem_append_left _ hsent
    · refine ⟨(t, m), List.mem_cons_self, hnew t _ fun ev hev => ?_⟩
      rw [hlog]
      exact List.mem_append_right _ hev
  · intro i hi
    have hlater : ∀ j < t.server.heap.length, ∃ addr ph answer request,
        [answer, request].Sublist ((t, m) :: hist) ∧
          Challenges config answer.1.log addr ph request ∧ Admits codecs j addr ph answer := by
      intro j hj
      obtain ⟨addr, ph, answer, request, hsub, hrest⟩ := h.admitted j hj
      exact ⟨addr, ph, answer, request, hsub.cons _, hrest⟩
    rcases step_length hok with hsame | ⟨hmore, addr, ph, hawaited, hadmits⟩
    · exact hlater i (hsame ▸ hi)
    · rcases Nat.lt_succ_iff_lt_or_eq.mp (hmore ▸ hi) with hold | rfl
      · exact hlater i hold
      · -- the newest connection: its handshake was pending until now
        obtain ⟨request, hmem, hchallenges⟩ := h.pending addr ph hawaited
        exact ⟨addr, ph, (t, m), request, (List.singleton_sublist.mpr hmem).cons_cons _,
          hchallenges, hadmits t.log⟩

theorem validated_of_run {hist : List (Trace × Move P)} {t : Trace}
    (hrun : (system P codecs config).Run hist t) : Validated codecs config hist t := by
  induction hrun with
  | start starts =>
      rw [starts]
      exact ⟨by simp [empty], by simp [empty]⟩
  | step prior taken ih => exact ih.step taken

/-- **No connection without a challenge.** In every run of a server, for every
connection: at some step a datagram from its address was accepted as the RESPONSE under
the keys and with the token of a handshake, and before that the CHALLENGE of the same
handshake was sent to the same address, in answer to a CONNECT from there that the rate
limiter let pass. -/
theorem address_validated {hist : List (Trace × Move P)} {t : Trace}
    (hrun : (system P codecs config).Run hist t) {i : ℕ} (hi : i < t.server.heap.length) :
    ∃ addr ph answer request, [answer, request].Sublist hist ∧
      Challenges config answer.1.log addr ph request ∧ Admits codecs i addr ph answer := by
  exact (validated_of_run hrun).admitted i hi

end

/-- The connection of the handshake between the two plain parties. -/
theorem address_validated_handshake : ∃ addr ph answer request,
    [answer, request].Sublist handshakeHist ∧
      Challenges plainConfig answer.1.log addr ph request ∧ Admits noCodecs 0 addr ph answer := by
  have hone : 0 < connectedTrace.server.heap.length := by decide +kernel
  exact address_validated handshake_run hone

end Server

end Fastwire
