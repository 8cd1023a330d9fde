/-
# Connections are sessions

Under every interleaving of a server with its application and with `Stop`, what
happens to one connection is a run of a lone connection: no datagram of another
peer, no handshake, no migration and no teardown of somebody else reaches it.
The sessions account for everything that the server does. Each callback of a
connection is in the log of its session, and a datagram that is written is a reply
of the handshake or one that a session has written. The same holds for the one
connection of a client, from `Connect` through any number of calls of `Client.Close`.
-/

import Fastwire.Interleaving.Callbacks
import Fastwire.Interleaving.Downgrade
import Fastwire.Server.Validation
import Fastwire.Session.Nonces
import Mathlib.Data.List.Perm.Basic

namespace Fastwire

open Crypto Lib

theorem counted_newCipherState {P : Primitives} {key : Bytes} {suite : CipherSuite}
    {cipher : CipherState}
    (hnew : P.newCipherState key suite = .ok cipher) : cipher.Counted := by
  rw [Primitives.newCipherState] at hnew
  cases haead : P.newAEAD key suite with
  | error e =>
      rw [haead] at hnew
      cases hnew
  | ok aead =>
      rw [haead] at hnew
      cases hnew
      exact fun _ _ => rfl

namespace Server

/-! ## Reading a log -/

@[simp]
theorem connEvents_append (i : ℕ) (log events : List ServerEvent) :
    connEvents i (log ++ events) = connEvents i log ++ connEvents i events :=
  List.filterMap_append

@[simp]
theorem connEvents_conn (i : ℕ) (events : List Event) :
    connEvents i (events.map (.conn i)) = events :=
  connEvents_self [] events

@[simp]
theorem connEvents_sent (i : ℕ) (addr : AddrPort) (written : List Bytes) :
    connEvents i (written.map (.sent addr)) = [] :=
  connEvents_quiet [] (by simp [ServerEvent.isConn])

@[simp]
theorem datagrams_sent (addr : AddrPort) (written : List Bytes) :
    datagrams (written.map (.sent addr)) = written := by
  simp [datagrams, List.filterMap_map]

/-- A CONNECT touches no connection, and whatever it provokes is a reply of the
handshake. -/
theorem handleHandshake_replies {P : Primitives} (s : Server) (config : ServerConfig)
    (random : HandshakeRandom P) (allowed : Bool) (now : ℤ) (addr : AddrPort) (data : Bytes) :
    (s.handleHandshake P config random allowed now addr data).1.heap = s.heap ∧
      ∀ reply ∈ datagrams (s.handleHandshake P config random allowed now addr data).2,
        HandshakeReply reply := by
  have hgreets := s.handleHandshake_greets config random allowed now addr data
  generalize s.handleHandshake P config random allowed now addr data = result at hgreets
  cases hgreets with
  | ignored => exact ⟨rfl, by simp [datagrams]⟩
  | refused answers => exact ⟨rfl, by simpa [datagrams] using answers.kind⟩
  | challenged _ _ answers => exact ⟨rfl, by simpa [datagrams] using answers.kind⟩

end Server

namespace Session

def reported (σ : Session) : List Event := σ.log.map Prod.snd

def written (σ : Session) : List Bytes := σ.wire.map Prod.snd

@[simp]
theorem reported_record (σ : Session) (call : Call) (c : Connection) (s : Socket)
    (events : List Event) : (σ.record call c s events).reported = σ.reported ++ events := by
  simp [reported, record, Function.comp_def]

@[simp]
theorem written_record (σ : Session) (call : Call) (c : Connection) (s : Socket)
    (events : List Event) : (σ.record call c s events).written = σ.written ++ s.written := by
  simp [written, record, Function.comp_def]

end Session

namespace Server

/-! ## Accounts -/

/-- Sessions and replies that account for the connections of a server and for its log. -/
structure Accounts (cfg : TickConfig) (s : Server) (log : List ServerEvent)
    (sessions : List Session) (replies : List Bytes) : Prop where
  runs : ∀ σ ∈ sessions, ∃ hist, (Session.system cfg).Run hist σ
  heap_eq : s.heap = sessions.map Session.conn
  connEvents_eq : ∀ i, connEvents i log = (sessions[i]?.map Session.reported).getD []
  datagrams_perm : (datagrams log).Perm (replies ++ sessions.flatMap Session.written)
  replied : ∀ reply ∈ replies, HandshakeReply reply

section

variable {cfg : TickConfig} {s s' : Server} {log events : List ServerEvent}
  {sessions : List Session} {replies : List Bytes} {i : ℕ} {c c' : Connection}

/-- What touches no connection. -/
theorem Accounts.quiet (h : Accounts cfg s log sessions replies) (hheap : s'.heap = s.heap)
    (hquiet : ∀ i, connEvents i events = [])
    (hreplied : ∀ reply ∈ datagrams events, HandshakeReply reply) :
    Accounts cfg s' (log ++ events) sessions (replies ++ datagrams events) := by
  refine ⟨h.runs, hheap.trans h.heap_eq, ?_, ?_, ?_⟩
  · intro i
    rw [connEvents_append, hquiet, List.append_nil, h.connEvents_eq]
  · rw [datagrams_append, List.append_assoc]
    refine (h.datagrams_perm.append_right _).trans ?_
    rw [List.append_assoc]
    exact List.perm_append_comm.append_left _
  · intro reply hreply
    rcases List.mem_append.mp hreply with hold | hnew
    · exact h.replied reply hold
    · exact hreplied reply hnew

theorem flatMap_set_perm {σ σ' : Session} (hσ : sessions[i]? = some σ) {new : List Bytes}
    (hnew : σ'.written = σ.written ++ new) :
    ((sessions.set i σ').flatMap Session.written).Perm
      (sessions.flatMap Session.written ++ new) := by
  induction sessions generalizing i with
  | nil => cases hσ
  | cons first rest ih =>
      cases i with
      | zero =>
          obtain rfl : first = σ := Option.some.inj hσ
          rw [List.set_cons_zero, List.flatMap_cons, List.flatMap_cons, hnew, List.append_assoc,
            List.append_assoc]
          exact List.perm_append_comm.append_left _
      | succ i =>
          rw [List.set_cons_succ, List.flatMap_cons, List.flatMap_cons, List.append_assoc]
          exact (ih hσ).append_left _

/-- An operation on one connection is a call of its session. -/
theorem Accounts.call (h : Accounts cfg s log sessions replies) (found : s.heap[i]? = some c)
    {op : Op} {failures : List Bool} {now : ℤ} {socket : Socket} {reported : List Event}
    (hok : op.apply c cfg ⟨failures, []⟩ now = .ok (c', socket, reported))
    (s' : Server) (hheap : s'.heap = s.heap.set i c') (events : List ServerEvent)
    (hself : connEvents i events = reported)
    (hothers : ∀ j, j ≠ i → connEvents j events = [])
    (hwritten : datagrams events = socket.written) :
    ∃ sessions', Accounts cfg s' (log ++ events) sessions' replies := by
  have hsession := found
  rw [h.heap_eq, List.getElem?_map, Option.map_eq_some_iff] at hsession
  obtain ⟨σ, hσ, rfl⟩ := hsession
  have hlt := (List.getElem?_eq_some_iff.mp hσ).1
  have hnext : σ.next cfg ⟨now, failures, op⟩ =
      some (σ.record ⟨now, failures, op⟩ c' socket reported) := by
    simp only [Session.next, hok]
  refine ⟨sessions.set i (σ.record ⟨now, failures, op⟩ c' socket reported), ?_, ?_, ?_, ?_,
    h.replied⟩
  · intro τ hτ
    rcases List.mem_or_eq_of_mem_set hτ with hold | rfl
    · exact h.runs τ hold
    · obtain ⟨hist, hrun⟩ := h.runs σ (List.mem_of_getElem? hσ)
      exact ⟨_, .step hrun hnext⟩
  · rw [hheap, h.heap_eq, List.map_set]
    rfl
  · intro j
    rw [connEvents_append, h.connEvents_eq]
    by_cases hj : j = i
    · subst hj
      simp [hself, hσ, List.getElem?_set_self hlt]
    · rw [hothers j hj, List.append_nil, List.getElem?_set_ne (Ne.symm hj)]
  · rw [datagrams_append, hwritten]
    refine (h.datagrams_perm.append_right _).trans ?_
    rw [List.append_assoc]
    exact (flatMap_set_perm hσ (σ.written_record _ _ _ _)).symm.append_left _

/-- A new connection is a new session. -/
theorem Accounts.opened (h : Accounts cfg s log sessions replies) {input : ConnectionInput}
    {now : ℤ} (hcounted : input.sendCipher.Counted)
    (hheap : s'.heap = s.heap ++ [newConnection input now]) (hquiet : ∀ i, connEvents i events = [])
    (hsilent : datagrams events = []) :
    Accounts cfg s' (log ++ events) (sessions ++ [.start input now]) replies := by
  refine ⟨?_, ?_, ?_, ?_, h.replied⟩
  · intro σ hσ
    rcases List.mem_append.mp hσ with hold | hnew
    · exact h.runs σ hold
    · obtain rfl := List.mem_singleton.mp hnew
      exact ⟨[], .start ⟨input, now, hcounted, rfl⟩⟩
  · rw [hheap, h.heap_eq, List.map_append]
    rfl
  · intro i
    rw [connEvents_append, hquiet, List.append_nil, h.connEvents_eq]
    rcases Nat.lt_trichotomy i sessions.length with hlt | rfl | hgt
    · rw [List.getElem?_append_left hlt]
    · simp [Session.start, Session.reported]
    · rw [List.getElem?_eq_none hgt.le, List.getElem?_eq_none (by simp; omega)]
  · rw [datagrams_append, hsilent, List.append_nil, List.flatMap_append]
    simpa [Session.start, Session.written] using h.datagrams_perm

end

/-! ## Machines -/

section

variable {s : Server} {i : ℕ} {c : Connection}

theorem moveTo_heap (found : s.heap[i]? = some c) (addr : AddrPort) :
    (s.moveTo i c addr).heap = s.heap.set i { c with remoteAddr := addr } := by
  rw [moveTo]
  split
  · rfl
  · rename_i hsame
    obtain rfl : c.remoteAddr = addr := Decidable.not_not.mp hsame
    exact (congrArg Server.heap (setConn_self found)).symm

end

namespace Machine

variable {P : Primitives} {codecs : Codecs} {config : ServerConfig} {m m' : Machine}
  {s : Server} {log : List ServerEvent}

/-- There are sessions that account for what the machine has done. -/
def Accounted (config : ServerConfig) (s : Server) (log : List ServerEvent) : Prop :=
  ∃ sessions replies, Accounts config.tick s log sessions replies

theorem accounted_takeMigrating {i : ℕ} {c : Connection} (h : Accounted config s log)
    (found : s.heap[i]? = some c) (addr : AddrPort) (data : Bytes) :
    Accounted config (s.takeMigrating addr i c data).1
      (log ++ (s.takeMigrating addr i c data).2.2) := by
  rw [takeMigrating]
  split
  · rwa [List.append_nil]
  · rwa [List.append_nil]
  · rename_i first rest hpackets
    split
    · rwa [List.append_nil]
    · rename_i plaintext cipher hopen
      obtain ⟨sessions, replies, h⟩ := h
      have hfirst : Op.apply c config.tick ⟨[], []⟩ 0 (.work (.packets (first :: rest))) =
          .ok (c.withRecvCipher cipher, ⟨[], []⟩, []) := by
        simp only [Op.apply, Work.advance, hopen]
      have hmove : Op.apply (c.withRecvCipher cipher) config.tick ⟨[], []⟩ 0 (.relocate addr) =
          .ok ({ c.withRecvCipher cipher with remoteAddr := addr }, ⟨[], []⟩, []) := rfl
      obtain ⟨sessions₁, h₁⟩ := h.call found hfirst (s.setConn i (c.withRecvCipher cipher)) rfl
        [.opened i (CipherState.wireNonce first) addr] rfl (fun _ _ => rfl) rfl
      have found₁ : (s.setConn i (c.withRecvCipher cipher)).heap[i]? =
          some (c.withRecvCipher cipher) := setConn_getElem found
      obtain ⟨sessions₂, h₂⟩ := h₁.call found₁ hmove _ (moveTo_heap found₁ addr) [] rfl
        (fun _ _ => rfl) rfl
      rw [List.append_nil] at h₂
      exact ⟨sessions₂, replies, h₂⟩

theorem accounted_take (h : Accounted config s log) (random : HandshakeRandom P)
    (allowed : Bool) (now : ℤ) (addr : AddrPort) (data : Bytes) :
    Accounted config (s.take P codecs config random allowed now addr data).1
      (log ++ (s.take P codecs config random allowed now addr data).2.2) := by
  rw [take]
  split
  · split <;> rwa [List.append_nil]
  · split
    · rename_i ph hpending
      dsimp only
      have hquiet : ∀ ev ∈ (s.processResponse P codecs now addr ph data).2, ev.isConn = false :=
        processResponse_quiet s now addr ph data
      rw [processResponse] at hquiet ⊢
      split
      · rwa [List.append_nil]
      · rename_i c' haccept
        obtain ⟨sessions, replies, h⟩ := h
        obtain ⟨fresh, decrypted, recvCipher, sendCipher, -, -, -, hsend, rfl⟩ :=
          serverProcessResponse_ok_inv haccept
        simp only [haccept] at hquiet
        exact ⟨_, replies, h.opened (counted_newCipherState hsend) rfl
          (fun _ => connEvents_quiet [] hquiet) rfl⟩
    · split
      · rename_i i c htoken
        simp only [Option.bind_eq_some_iff, Option.map_eq_some_iff, Prod.mk.injEq] at htoken
        obtain ⟨j, -, d, found, rfl, rfl⟩ := htoken
        exact accounted_takeMigrating h found addr data
      · obtain ⟨sessions, replies, h⟩ := h
        obtain ⟨hheap, hreplied⟩ := s.handleHandshake_replies config random allowed now addr data
        have hquiet : ∀ ev ∈ (s.handleHandshake P config random allowed now addr data).2,
            ev.isConn = false := handleHandshake_quiet s random allowed now addr data
        exact ⟨sessions, _, h.quiet hheap (fun _ => connEvents_quiet [] hquiet) hreplied⟩

theorem accounted_callConn (h : Accounted config s log) {failures : List Bool}
    {call : Connection → Socket → Connection × Socket × List Event}
    (now : ℤ) (op : Op) (hcall : ∀ c, op.apply c config.tick ⟨failures, []⟩ now =
      .ok (call c ⟨failures, []⟩)) (i : ℕ) :
    Accounted config (s.callConn i failures call).1
      (log ++ (s.callConn i failures call).2) := by
  rw [callConn]
  split
  · rwa [List.append_nil]
  · rename_i c found
    obtain ⟨sessions, replies, h⟩ := h
    have hok := hcall c
    generalize call c ⟨failures, []⟩ = result at hok
    obtain ⟨c', socket, events⟩ := result
    have hevents : (s.settle i c' events).2 = events.map (.conn i) := rfl
    obtain ⟨sessions', h'⟩ := h.call found hok _ (settle_heap events)
      (socket.written.map (.sent c.remoteAddr) ++ (s.settle i c' events).2) (by simp [hevents])
      (fun j hj => (connEvents_other _ hj.symm events).trans (connEvents_sent ..))
      (by simp [hevents])
    exact ⟨sessions', replies, h'⟩

theorem accounted_step (h : Accounted config s log) {move : Move P}
    (hcall : move.isCall = true) {result : Server × List ServerEvent}
    (hok : s.step P codecs config move = .ok result) :
    Accounted config result.1 (log ++ result.2) := by
  cases move with
  | incoming now addr data random allowed => cases hcall
  | tick now i failures => cases hcall
  | cleanup now =>
      cases hok
      obtain ⟨sessions, replies, h⟩ := h
      rw [List.append_nil]
      exact ⟨sessions, replies, h.runs, h.heap_eq, h.connEvents_eq, h.datagrams_perm, h.replied⟩
  | close now i failures =>
      rw [← Except.ok.inj hok]
      exact accounted_callConn h now .close (fun _ => rfl) i
  | sendImmediate now i data channel failures =>
      rw [← Except.ok.inj hok]
      exact accounted_callConn h now (.sendImmediate data channel) (fun _ => rfl) i
  | send i data channel =>
      rw [← Except.ok.inj hok]
      exact accounted_callConn h 0 (.send data channel) (fun _ => rfl) i

/-- `Stop` visits a connection: three operations of its session. -/
theorem accounted_visit (h : Accounted config s log) {i : ℕ} {c : Connection}
    (found : s.heap[i]? = some c) :
    Accounted config (s.setConn i c.shutDown) (log ++ [.conn i (.onDisconnect .graceful)]) := by
  obtain ⟨sessions, replies, h⟩ := h
  have hrelease : Op.apply c config.tick ⟨[], []⟩ 0 .release =
      .ok (c.releasePendingBuffers, ⟨[], []⟩, []) := rfl
  have hmark : Op.apply c.releasePendingBuffers config.tick ⟨[], []⟩ 0 .disconnect =
      .ok (c.shutDown, ⟨[], []⟩, []) := rfl
  have hnotify : Op.apply c.shutDown config.tick ⟨[], []⟩ 0 .notify =
      .ok (c.shutDown, ⟨[], []⟩, [.onDisconnect .graceful]) := rfl
  obtain ⟨sessions₁, h₁⟩ := h.call found hrelease (s.setConn i c.releasePendingBuffers) rfl [] rfl
    (fun _ _ => rfl) rfl
  obtain ⟨sessions₂, h₂⟩ := h₁.call (setConn_getElem found) hmark (s.setConn i c.shutDown)
    (by simp [setConn]) [] rfl (fun _ _ => rfl) rfl
  obtain ⟨sessions₃, h₃⟩ := h₂.call (setConn_getElem found) hnotify (s.setConn i c.shutDown)
    (by simp [setConn]) [.conn i (.onDisconnect .graceful)] (connEvents_conn i [_])
    (fun j hj => connEvents_other [] hj.symm [_]) rfl
  rw [List.append_nil, List.append_nil] at h₃
  exact ⟨sessions₃, replies, h₃⟩

theorem accounted_next (h : Accounted config m.server m.log) {a : Action P}
    (hnext : m.next P codecs config a = some m') : Accounted config m'.server m'.log := by
  cases a with
  | take now addr data random allowed =>
      simp only [next, Option.ite_none_right_eq_some, Option.some.injEq] at hnext
      obtain ⟨-, rfl⟩ := hnext
      exact accounted_take h random allowed now addr data
  | tick i =>
      obtain ⟨-, c, -, rfl⟩ := tick_inv hnext
      exact h
  | advance now failures =>
      obtain ⟨i, addr, w, c, c', socket, w', events, -, found, hok, rfl⟩ := advance_inv hnext
      obtain ⟨sessions, replies, h⟩ := h
      have happly : Op.apply c config.tick ⟨failures, []⟩ now (.work w) =
          .ok (c', socket, events) := by
        simp only [Op.apply, hok]
      have hopened : (∀ j, connEvents j
          ((w.opening c).map fun nonce => ServerEvent.opened i nonce addr).toList = []) ∧
          datagrams ((w.opening c).map fun nonce => .opened i nonce addr).toList = [] := by
        cases w.opening c <;> exact ⟨fun _ => rfl, rfl⟩
      obtain ⟨sessions', h'⟩ := h.call found happly _ (settle_heap events)
        (((w.opening c).map fun nonce => .opened i nonce addr).toList ++
          (socket.written.map (.sent c.remoteAddr) ++ events.map (.conn i))) (by simp [hopened])
        (fun j hj => by simp [hopened, connEvents_other _ hj.symm]) (by simp [hopened])
      rw [← List.append_assoc] at h'
      exact ⟨sessions', replies, h'⟩
  | call move =>
      obtain ⟨hcall, result, hok, rfl⟩ := call_inv hnext
      exact accounted_step h hcall hok
  | stop =>
      cases hnext
      exact h
  | visit k =>
      obtain ⟨i, c, -, found, ⟨-, rfl⟩ | rfl⟩ := visit_inv hnext
      · exact accounted_visit h found
      · exact h

/-- **The connections of a server are sessions.** Whatever interleaving of datagrams,
ticks, calls of the application and `Stop` a server has gone through: each of its
connections is where a run of a lone connection ends, with the callbacks of that run, and
the datagrams written so far are those of these runs and replies of the handshake,
nothing more and nothing less. -/
theorem connections_are_sessions {hist : List (Machine × Action P)}
    (hrun : (system P codecs config).Run hist m) :
    ∃ sessions replies, Accounts config.tick m.server m.log sessions replies := by
  have hstart : ∀ m, (system P codecs config).init m → Accounted config m.server m.log := by
    rintro m rfl
    exact ⟨[], [], by simp, rfl, fun _ => rfl, List.Perm.refl _, by simp⟩
  exact hrun.invariant hstart fun _ _ _ h hnext => accounted_next h hnext

end Machine

/-- A handshake and a datagram with the same disconnect twice: one session
accounts for what is reported, the refused copy included. -/
theorem connections_are_sessions_repeated : ∃ hist m sessions replies,
    (Machine.system plainPrimitives noCodecs plainConfig).Run hist m ∧
      Accounts plainConfig.tick m.server m.log sessions replies ∧ sessions.length = 1 ∧
      connEvents 0 m.log =
        [.acked 0 [], .onDisconnect .graceful, .onError .replayedPacket] := by
  have h : (afterHandshake (taking 1 (batchData [disconnectPacket 2, disconnectPacket 2]) ::
      List.replicate 4 (.advance 0 []))).any (fun m => decide (m.server.heap.length = 1 ∧
        connEvents 0 m.log =
          [.acked 0 [], .onDisconnect .graceful, .onError .replayedPacket])) = true := by
    decide +kernel
  obtain ⟨hist, m, hrun, hm⟩ := afterHandshake_run h
  obtain ⟨hlen, hevents⟩ := of_decide_eq_true hm
  obtain ⟨sessions, replies, haccounts⟩ := Machine.connections_are_sessions hrun
  refine ⟨hist, m, sessions, replies, hrun, haccounts, ?_, hevents⟩
  rw [← hlen, haccounts.heap_eq, List.length_map]

end Server

/-! ## Clients -/

namespace Client

variable {P : Primitives} {codecs : Codecs} {config : ClientConfig} {clientKP : P.Private}
  {serverAddr : AddrPort} {cfg : TickConfig}

/-- Every connection is as a session starts. -/
def Attempt.Fresh (m : Attempt) : Prop :=
  ∀ c ∈ m.heap, ∃ input now, input.sendCipher.Counted ∧ c = newConnection input now

/-- The cipher of a client has sealed the RESPONSE, under the first number. -/
theorem counted_answerChallenge {challenge : ChallengePacket} {suite : CipherSuite}
    {sendCipher recvCipher : CipherState} {response : Bytes}
    (hok : answerChallenge P clientKP challenge = .ok (sendCipher, recvCipher, suite, response)) :
    sendCipher.Counted := by
  rw [answerChallenge] at hok
  split at hok
  · cases hok
  · simp only [bind, Except.bind] at hok
    split at hok
    · cases hok
    · split at hok
      · cases hok
      · rename_i hsend
        repeat' split at hok
        all_goals cases hok
        exact (counted_newCipherState hsend).encrypt _

theorem Attempt.Fresh.next {m m' : Attempt} {a : Attempt.Action} (h : m.Fresh)
    (hnext : m.next P codecs config clientKP serverAddr a = some m') : m'.Fresh := by
  rcases next_heap hnext with hsame | ⟨now, failed, data, _, conn, -, -, -, ⟨-, hheap⟩, hnew⟩
  · rwa [Fresh, hsame]
  · have hcases := m.handleChallenge_heap P codecs config clientKP serverAddr now failed data
    rw [hheap] at hcases
    rcases hcases with hsame | ⟨sendCipher, _, _, _, challenge, hok, -, hcreated⟩
    · simp at hsame
    · obtain rfl : conn = _ := by simpa using hcreated
      have hcounted : sendCipher.Counted := by
        rw [clientProcessChallenge] at hok
        repeat' split at hok
        all_goals first | cases hok | exact counted_answerChallenge hok
      rw [Fresh, hnew, List.forall_mem_append, List.forall_mem_singleton]
      exact ⟨h, _, now, hcounted, rfl⟩

/-- A client whose connection a whole attempt has made: the one `Connect` has given its
send function, with the reader done with the handshake. -/
def Machine.established (P : Primitives) (codecs : Codecs) (config : ClientConfig)
    (clientKP : P.Private) (serverAddr : AddrPort) (cfg : TickConfig) : System Machine Action where
  init m := ∃ hist attempt i conn,
    (Attempt.system P codecs config clientKP serverAddr).Run hist attempt ∧
      attempt.connected = true ∧ attempt.reader = .reading ∧ attempt.server = some i ∧
      attempt.installed = some i ∧ attempt.heap[i]? = some conn ∧
      m = ⟨conn, true, none, [], []⟩
  step := (Machine.system cfg).step

/-- A session that accounts for what the client has done. -/
def Tracked (cfg : TickConfig) (m : Machine) : Prop :=
  ∃ hist σ, (Session.system cfg).Run hist σ ∧ σ.conn = m.conn ∧ σ.reported = m.log

theorem Tracked.call {m m' : Machine} (h : Tracked cfg m) (op : Op) (failures : List Bool) (now : ℤ)
    {socket : Socket} {events : List Event}
    (hok : op.apply m.conn cfg ⟨failures, []⟩ now = .ok (m'.conn, socket, events))
    (hlog : m.log ++ events = m'.log) : Tracked cfg m' := by
  obtain ⟨hist, σ, hrun, hconn, hreported⟩ := h
  have hnext : σ.next cfg ⟨now, failures, op⟩ =
      some (σ.record ⟨now, failures, op⟩ m'.conn socket events) := by
    simp only [Session.next, hconn, hok]
  refine ⟨_, _, .step hrun hnext, rfl, ?_⟩
  rw [Session.reported_record, hreported, hlog]

theorem tracked_next {m m' : Machine} {a : Action} (h : Tracked cfg m)
    (hnext : m.next cfg a = some m') : Tracked cfg m' := by
  cases a with
  | take data =>
      obtain ⟨-, rfl⟩ := Machine.take_inv hnext
      exact h
  | tick =>
      obtain ⟨-, rfl⟩ := Machine.tick_inv hnext
      exact h
  | advance now failures =>
      obtain ⟨w, c, socket, w', events, -, hok, rfl⟩ := Machine.advance_inv hnext
      have happly : (Op.work w).apply m.conn cfg ⟨failures, []⟩ now = .ok (c, socket, events) := by
        simp only [Op.apply, hok]
      exact h.call _ _ _ happly rfl
  | closeCall =>
      cases hnext
      exact h
  | close now failures =>
      cases hnext
      exact h.call .close failures now rfl (List.append_nil _)
  | sendImmediate now data channel failures =>
      cases hnext
      exact h.call (.sendImmediate data channel) failures now rfl (List.append_nil _)
  | send data channel =>
      cases hnext
      exact h.call (.send data channel) [] 0 rfl (List.append_nil _)
  | closeStep k now failures =>
      obtain ⟨closer, -, rfl⟩ := Machine.closeStep_inv hnext
      cases closer with
      | closing => exact h.call .close failures now rfl (List.append_nil _)
      | releasing => exact h.call .release [] 0 rfl (List.append_nil _)
      | marking => exact h.call .disconnect [] 0 rfl (List.append_nil _)
      | clearing => exact h
      | reporting => exact h.call .notify [] 0 rfl rfl

/-- **The connection of a client is a session.** Whatever attempt made it, and under every
interleaving of the tick with the application and with calls of `Client.Close`: it is
where a run of a lone connection ends, and the callbacks are those of that run, in order. -/
theorem connection_is_session {hist : List (Machine × Action)} {m : Machine}
    (hrun : (Machine.established P codecs config clientKP serverAddr cfg).Run hist m) :
    Tracked cfg m := by
  have hstart : ∀ m, (Machine.established P codecs config clientKP serverAddr cfg).init m →
      Tracked cfg m := by
    rintro m ⟨hist, attempt, i, conn, hattempt, -, -, -, -, hconn, rfl⟩
    have hfresh : attempt.Fresh :=
      hattempt.invariant (by rintro _ rfl _ ⟨⟩) fun _ _ _ h hnext => h.next hnext
    obtain ⟨input, now, hcounted, rfl⟩ := hfresh conn (List.mem_of_getElem? hconn)
    exact ⟨[], _, .start ⟨input, now, hcounted, rfl⟩, rfl, rfl⟩
  exact hrun.invariant hstart fun _ _ _ h hnext => tracked_next h hnext

/-- A client that connects and is closed. -/
theorem connection_is_session_closed : ∃ hist m,
    (Machine.established plainPrimitives noCodecs plainClient plainKey ⟨0, 1⟩
      Server.plainConfig.tick).Run hist m ∧
      m.log = [.onDisconnect .graceful] ∧ Tracked Server.plainConfig.tick m := by
  obtain ⟨_, attempt, hattempt, hmade⟩ := System.exists_run
    (S := Attempt.system plainPrimitives noCodecs plainClient plainKey ⟨0, 1⟩) (fun _ _ _ h => h)
    rfl (Attempt.taking Attempt.plainChallenge ++ Attempt.decided ++ List.replicate 5 .connect)
    (fun a => decide (a.connected = true ∧ a.reader = .reading ∧ a.server = some 0 ∧
        a.installed = some 0) && a.heap[0]?.any fun conn =>
      (System.exec (fun m : Machine => m.next Server.plainConfig.tick)
        ⟨conn, true, none, [], []⟩ Machine.wholeClose).any
          fun m => m.log = [.onDisconnect .graceful]) (by decide +kernel)
  obtain ⟨hconnected, hclosed⟩ := (Bool.and_eq_true ..).mp hmade
  obtain ⟨hconnected, hreader, hserver, hinstalled⟩ := of_decide_eq_true hconnected
  obtain ⟨conn, hconn, hclosed⟩ := (Option.any_eq_true ..).mp hclosed
  obtain ⟨hist, m, hrun, hm⟩ := System.exists_run
    (S := Machine.established plainPrimitives noCodecs plainClient plainKey ⟨0, 1⟩
      Server.plainConfig.tick) (fun _ _ _ h => h)
    ⟨_, _, _, _, hattempt, hconnected, hreader, hserver, hinstalled, hconn, rfl⟩ _ _ hclosed
  exact ⟨hist, m, hrun, of_decide_eq_true hm, connection_is_session hrun⟩

end Client

end Fastwire
