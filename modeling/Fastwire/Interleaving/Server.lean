/-
# A server among other goroutines

The tick goroutine of a server, one section at a time, and everything that can
run between two sections: calls of the application on a connection, and `Stop`,
which visits the connections one by one without taking them out of the tables.
If nothing runs in between, the sections of a datagram add up to what
`processIncoming` does.

The tables stay sound under every interleaving, and a connection that is
disconnected stays so.
-/

import Fastwire.Interleaving.Work
import Fastwire.Server.Runs

namespace Fastwire

open Crypto Lib

/-- A callback or an internal call of a connection. -/
def ServerEvent.isConn : ServerEvent → Bool
  | .conn _ _ => true
  | _ => false

namespace Server

/-- A server, what its tick goroutine is in the middle of and for whom, and which
connections `Stop` has yet to visit. -/
structure Machine where
  server : Server
  task : Option (ℕ × AddrPort × Work)
  closed : Bool
  visits : List ℕ
  log : List ServerEvent

/-- A step of the tick goroutine, of the application or of `Stop`. -/
inductive Action (P : Primitives)
  /-- The tick goroutine takes a datagram from the queue. -/
  | take (now : ℤ) (addr : AddrPort) (data : Bytes) (random : HandshakeRandom P) (allowed : Bool)
  /-- `tickConnection` reads the state of a connection. -/
  | tick (i : ℕ)
  /-- The tick goroutine goes on. -/
  | advance (now : ℤ) (failures : List Bool)
  /-- The pending handshakes are cleaned up, or the application calls. -/
  | call (m : Move P)
  /-- `Stop` has emptied the queue and begins to visit the connections. -/
  | stop
  | visit (k : ℕ)

/-- The moves that can be made while the tick goroutine is at work. -/
def Move.isCall {P : Primitives} : Move P → Bool
  | .incoming _ _ _ _ _ => false
  | .tick _ _ _ => false
  | _ => true

def Disconnected (s : Server) (i : ℕ) : Prop :=
  ∃ c, s.heap[i]? = some c ∧ c.state = .disconnected

def registered (s : Server) : List ℕ := s.conns.keys.filterMap s.conns.lookup

/-- `tryMigration` up to the first call of `handleDecrypted`. -/
def takeMigrating (s : Server) (newAddr : AddrPort) (i : ℕ) (c : Connection) (data : Bytes) :
    Server × Option (ℕ × AddrPort × Work) × List ServerEvent :=
  match datagramPackets c (data.drop migrationTokenSize) with
  | .error _ => (s, none, [])
  | .ok [] => (s, none, [])
  | .ok (first :: rest) =>
      match c.recvCipher.decrypt first with
      | .error _ => (s, none, [])
      | .ok (decrypted, cipher) =>
          let c := c.withRecvCipher cipher
          ((s.setConn i c).moveTo i c newAddr, some (i, newAddr, .handling decrypted rest),
            [.opened i (CipherState.wireNonce first) newAddr])

section

variable (P : Primitives) (codecs : Codecs) (config : ServerConfig)

/-- `processIncoming` up to the first section of a known connection. -/
def take (s : Server) (random : HandshakeRandom P) (allowed : Bool) (now : ℤ) (addr : AddrPort)
    (data : Bytes) : Server × Option (ℕ × AddrPort × Work) × List ServerEvent :=
  match (s.conns.lookup addr).bind fun i => s.heap[i]?.map fun c => (i, c) with
  | some (i, c) =>
      if migrates c.features ∧ data.length < migrationTokenSize then (s, none, [])
      else
        let data := if migrates c.features then data.drop migrationTokenSize else data
        (s, some (i, addr, .datagram data), [])
  | none =>
      match s.pending.lookup addr with
      | some ph =>
          let (s, events) := s.processResponse P codecs now addr ph data
          (s, none, events)
      | none =>
          match (s.migrating config data).bind fun i => s.heap[i]?.map fun c => (i, c) with
          | some (i, c) => s.takeMigrating addr i c data
          | none =>
              let (s, events) := s.handleHandshake P config random allowed now addr data
              (s, none, events)

end

namespace Machine

variable (m : Machine)

def advance (config : ServerConfig) (now : ℤ) (failures : List Bool) (i : ℕ) (addr : AddrPort)
    (w : Work) (c : Connection) : Option Machine :=
  match w.advance c config.tick ⟨failures, []⟩ now with
  | .error _ => none
  | .ok (c', socket, w', events) =>
      some { m with
        server := (m.server.settle i c' events).1
        task := w'.map fun v => (i, addr, v)
        log := m.log ++ ((w.opening c).map fun nonce => .opened i nonce addr).toList ++
          (socket.written.map (.sent c.remoteAddr) ++ events.map (.conn i)) }

/-- `Stop` visits a connection, unless it has been removed since. -/
def visit (k i : ℕ) (c : Connection) : Machine :=
  if m.server.conns.lookup c.remoteAddr = some i then
    { m with
      server := m.server.setConn i c.shutDown
      visits := m.visits.eraseIdx k
      log := m.log ++ [.conn i (.onDisconnect .graceful)] }
  else { m with visits := m.visits.eraseIdx k }

section

variable (P : Primitives) (codecs : Codecs) (config : ServerConfig)

/-- The machine after an action, if it is possible and does not panic. -/
def next : Action P → Option Machine
  | .take now addr data random allowed =>
      if m.task.isNone ∧ m.closed = false then
        let (s, task, events) := m.server.take P codecs config random allowed now addr data
        some { m with server := s, task := task, log := m.log ++ events }
      else none
  | .tick i =>
      if m.task.isNone then
        m.server.heap[i]?.map fun c => { m with task := some (i, c.remoteAddr, .ticking c.state) }
      else none
  | .advance now failures =>
      m.task.bind fun (i, addr, w) =>
        m.server.heap[i]?.bind (m.advance config now failures i addr w)
  | .call move =>
      if move.isCall then
        match m.server.step P codecs config move with
        | .error _ => none
        | .ok (s, events) => some { m with server := s, log := m.log ++ events }
      else none
  | .stop => some { m with closed := true, visits := m.visits ++ m.server.registered }
  | .visit k => m.visits[k]?.bind fun i => m.server.heap[i]?.map (m.visit k i)

def system : System Machine (Action P) where
  init m := m = ⟨empty, none, false, [], []⟩
  step m a m' := m.next P codecs config a = some m'

end

end Machine

/-! ## Taking a datagram -/

section

variable (P : Primitives) (codecs : Codecs) (config : ServerConfig)

/-- What taking a datagram can do: the datagram waits for its connection, it moves
its connection and its first packet waits, or nothing is left to do and no
connection was touched. -/
inductive Taken (s : Server) (addr : AddrPort) :
    Server × Option (ℕ × AddrPort × Work) × List ServerEvent → Prop
  | waits {i : ℕ} {c : Connection} (data : Bytes) (found : s.heap[i]? = some c)
      (registered : s.conns.lookup addr = some i) :
      Taken s addr (s, some (i, addr, .datagram data), [])
  | moves {i : ℕ} {c : Connection} {packet plaintext : Bytes} {cipher : CipherState}
      (rest : List Bytes) (found : s.heap[i]? = some c)
      (registered : s.conns.lookup c.remoteAddr = some i) (free : s.conns.lookup addr = none)
      (settled : s.pending.lookup addr = none)
      (opens : c.recvCipher.decrypt packet = .ok (plaintext, cipher)) :
      Taken s addr ((s.setConn i (c.withRecvCipher cipher)).moveTo i (c.withRecvCipher cipher) addr,
        some (i, addr, .handling plaintext rest), [.opened i (CipherState.wireNonce packet) addr])
  | settles {s' : Server} {events : List ServerEvent}
      (changes : ∀ active log, Changes P codecs (fun _ _ => True) active addr ⟨s, log⟩
        ⟨s', log ++ events⟩) (quiet : ∀ ev ∈ events, ev.isConn = false) :
      Taken s addr (s', none, events)

variable {P codecs config} {s : Server}

theorem processResponse_quiet (s : Server) (now : ℤ) (addr : AddrPort) (ph : PendingHandshake)
    (data : Bytes) : ∀ ev ∈ (s.processResponse P codecs now addr ph data).2, ev.isConn = false := by
  rw [processResponse]
  split <;> simp [ServerEvent.isConn]

theorem handleHandshake_quiet (s : Server) (random : HandshakeRandom P) (allowed : Bool) (now : ℤ)
    (addr : AddrPort) (data : Bytes) :
    ∀ ev ∈ (s.handleHandshake P config random allowed now addr data).2, ev.isConn = false := by
  rw [handleHandshake]
  split
  · simp
  · split
    · simp
    · split
      · simp
      · split
        · rw [rejectReply]
          split <;> simp [ServerEvent.isConn]
        · split
          · rename_i failure _
            cases failure.reply <;> simp [ServerEvent.isConn]
          · split <;> simp [ServerEvent.isConn]

theorem taken_nothing (addr : AddrPort) : Taken P codecs s addr (s, none, []) := by
  refine .settles ?_ (by simp)
  intro active log
  rw [List.append_nil]

theorem takeMigrating_taken {i : ℕ} {c : Connection} {addr : AddrPort}
    (found : s.heap[i]? = some c) (registered : s.conns.lookup c.remoteAddr = some i)
    (free : s.conns.lookup addr = none) (settled : s.pending.lookup addr = none) (data : Bytes) :
    Taken P codecs s addr (s.takeMigrating addr i c data) := by
  rw [takeMigrating]
  split
  · exact taken_nothing addr
  · exact taken_nothing addr
  · split
    · exact taken_nothing addr
    · rename_i rest _ _ _ _ opens
      exact .moves rest found registered free settled opens

theorem take_taken (h : s.Sound) (random : HandshakeRandom P) (allowed : Bool) (now : ℤ)
    (addr : AddrPort) (data : Bytes) :
    Taken P codecs s addr (s.take P codecs config random allowed now addr data) := by
  rw [take]
  split
  · rename_i i c hroute
    simp only [Option.bind_eq_some_iff, Option.map_eq_some_iff, Prod.mk.injEq] at hroute
    obtain ⟨j, hreg, d, found, rfl, rfl⟩ := hroute
    split
    · exact taken_nothing addr
    · exact .waits _ found hreg
  · rename_i hroute
    have free := h.free_of_route hroute
    split
    · rename_i ph awaited
      exact .settles (fun _ log => processResponse_changes log awaited free now data)
        (processResponse_quiet s now addr ph data)
    · rename_i settled
      split
      · rename_i i c htoken
        simp only [Option.bind_eq_some_iff, Option.map_eq_some_iff, Prod.mk.injEq] at htoken
        obtain ⟨j, hmigrating, d, found, rfl, rfl⟩ := htoken
        have registered := h.registered_of_migrating hmigrating found
        exact takeMigrating_taken found registered free settled data
      · exact .settles
          (fun _ log => handleHandshake_changes log free fun _ _ => trivial)
          (handleHandshake_quiet s random allowed now addr data)

end

section

variable {P : Primitives} {codecs : Codecs} {s : Server} {addr : AddrPort}
  {result : Server × Option (ℕ × AddrPort × Work) × List ServerEvent}

/-- Only registered connections are touched. -/
theorem Taken.changes (h : Taken P codecs s addr result) (log : List ServerEvent) :
    Changes P codecs (fun _ _ => True) s.Registered addr ⟨s, log⟩
      ⟨result.1, log ++ result.2.2⟩ := by
  cases h with
  | waits data found registered =>
      rw [List.append_nil]
  | moves rest found registered free settled opens =>
      refine .head (.decrypted ⟨_, registered⟩ found opens) (.single ?_)
      exact .moved ⟨_, registered⟩ (setConn_getElem found) registered free settled
  | settles changes quiet => exact changes _ log

theorem Taken.quiet (h : Taken P codecs s addr result) :
    ∀ ev ∈ result.2.2, ev.isConn = false := by
  cases h with
  | waits data found registered => simp
  | moves rest found registered free settled opens => simp [ServerEvent.isConn]
  | settles changes quiet => exact quiet

theorem Taken.held (h : Taken P codecs s addr result) (hsound : s.Sound) {i : ℕ} {src : AddrPort}
    {w : Work} (hbusy : result.2.1 = some (i, src, w)) :
    s.Registered i ∧ (∃ c, result.1.heap[i]? = some c) ∧ result.1.Held i := by
  cases h with
  | waits data found registered =>
      cases hbusy
      exact ⟨⟨_, registered⟩, ⟨_, found⟩, hsound.held registered⟩
  | @moves j c packet plaintext cipher rest found registered free settled opens =>
      cases hbusy
      have found' : (s.setConn i (c.withRecvCipher cipher)).heap[i]? =
          some (c.withRecvCipher cipher) := setConn_getElem found
      exact ⟨⟨_, registered⟩, ⟨_, moveTo_getElem found' registered free⟩,
        Held.moveTo found' registered⟩
  | settles changes quiet => cases hbusy

end

/-! ## What an action does -/

section

variable {P : Primitives} {codecs : Codecs} {config : ServerConfig} {s s' : Server} {i : ℕ}
  {c : Connection}

theorem settle_quiet {events : List Event} (hquiet : events.any Event.isDisconnect = false) :
    (s.settle i c events).1 = s.setConn i c := by
  simp [settle, hquiet]

theorem settle_heap (events : List Event) :
    (s.settle i c events).1.heap = s.heap.set i c := by
  rw [settle]
  dsimp only
  split <;> rfl

/-- Who is held depends on the table and on the addresses. -/
theorem Held.of_addr (hheld : s.Held i) (hconns : s'.conns = s.conns)
    (haddr : ∀ c', s'.heap[i]? = some c' →
      ∃ c, s.heap[i]? = some c ∧ c'.remoteAddr = c.remoteAddr) : s'.Held i := by
  intro c' found'
  obtain ⟨c, found, heq⟩ := haddr c' found'
  rw [heq, hconns]
  exact hheld c found

/-- A section as changes of the tables. Nobody but the connection at work is
touched. -/
theorem advance_changes {Fresh : Server → PendingHandshake → Prop} {active : ℕ → Prop}
    (act : active i) (found : s.heap[i]? = some c)
    {w : Work} (hheld : s.Held i ∨ w = .ticking .disconnected) {failures : List Bool} {now : ℤ}
    {c' : Connection} {socket : Socket} {w' : Option Work} {events : List Event}
    (hok : w.advance c config.tick ⟨failures, []⟩ now = .ok (c', socket, w', events))
    (addr : AddrPort) (log : List ServerEvent) :
    Changes P codecs Fresh active addr ⟨s, log⟩ ⟨(s.settle i c' events).1,
      log ++ ((w.opening c).map fun nonce => .opened i nonce addr).toList ++
        (socket.written.map (.sent c.remoteAddr) ++ events.map (.conn i))⟩ := by
  by_cases hw : ∃ rest, w = .packets rest
  · obtain ⟨rest, rfl⟩ := hw
    cases rest with
    | nil =>
        cases hok
        rw [settle_quiet rfl, setConn_self found]
        simpa [Work.opening] using .refl
    | cons packet rest =>
        simp only [Work.advance, Work.opening] at hok ⊢
        split at hok
        · rename_i e hrefused
          cases hok
          rw [settle_quiet rfl, setConn_self found]
          have hchange : Changes P codecs Fresh active addr ⟨s, log⟩
              ⟨s, log ++ [.conn i (.onError e)]⟩ := .single (.refused act e)
          simpa [hrefused] using hchange
        · rename_i plaintext cipher hopen
          cases hok
          rw [settle_quiet rfl]
          have hchange : Changes P codecs Fresh active addr ⟨s, log⟩
              ⟨s.setConn i (c.withRecvCipher cipher),
                log ++ [.opened i (CipherState.wireNonce packet) addr]⟩ :=
            .single (.decrypted act found hopen)
          simpa [hopen] using hchange
  · have hopening : w.opening c = none := by
      cases w with
      | packets rest => exact absurd ⟨rest, rfl⟩ hw
      | _ => rfl
    have hevents : s.Held i ∨ events = [] := by
      refine hheld.imp_right ?_
      rintro rfl
      cases hok
      rfl
    have same := Work.advance_identity hok fun rest heq => hw ⟨rest, heq⟩
    have hcalled : Changes P codecs Fresh active addr
        ⟨s, log ++ socket.written.map (.sent c.remoteAddr)⟩ ⟨(s.settle i c' events).1,
          log ++ socket.written.map (.sent c.remoteAddr) ++ events.map (.conn i)⟩ :=
      .single (.called act found hevents same (Work.advance_lifecycle hok))
    have hchanges := (sent_changes log c.remoteAddr socket.written).trans hcalled
    simpa [hopening] using hchanges

/-- What a call of the application leaves alone: the table, the identity and the
buffers of every connection. It reports nothing. -/
structure Kept (s : Server) (result : Server × List ServerEvent) : Prop where
  conns_eq : result.1.conns = s.conns
  quiet : ∀ ev ∈ result.2, ev.isConn = false
  heap : ∀ {i : ℕ} {c : Connection}, s.heap[i]? = some c →
    ∃ c', result.1.heap[i]? = some c' ∧ c'.identity = c.identity ∧ c'.life.2 = c.life.2 ∧
      (c.state = .disconnected → c'.state = .disconnected)

theorem callConn_kept (j : ℕ) {failures : List Bool}
    {call : Connection → Socket → Connection × Socket × List Event}
    (hcall : ∀ c, (call c ⟨failures, []⟩).2.2 = [] ∧
      (call c ⟨failures, []⟩).1.identity = c.identity ∧
      (call c ⟨failures, []⟩).1.life.2 = c.life.2 ∧
      (c.state = .disconnected → (call c ⟨failures, []⟩).1.state = .disconnected)) :
    Kept s (s.callConn j failures call) := by
  rw [callConn]
  split
  · exact ⟨rfl, by simp, fun found => ⟨_, found, rfl, rfl, id⟩⟩
  · rename_i d hd
    obtain ⟨hnone, same, hlife, hstate⟩ := hcall d
    generalize call d ⟨failures, []⟩ = result at hnone same hlife hstate
    obtain ⟨d', socket, events⟩ := result
    obtain rfl : events = [] := hnone
    refine ⟨rfl, by simp [settle, ServerEvent.isConn], ?_⟩
    intro i c found
    dsimp only
    rw [settle_quiet rfl]
    by_cases hji : j = i
    · subst hji
      obtain rfl : d = c := Option.some.inj (hd.symm.trans found)
      exact ⟨d', setConn_getElem found, same, hlife, hstate⟩
    · exact ⟨c, by rwa [setConn, List.getElem?_set_ne hji], rfl, rfl, id⟩

theorem step_kept {move : Move P} {result : Server × List ServerEvent}
    (hcall : move.isCall = true) (hok : s.step P codecs config move = .ok result) :
    Kept s result := by
  cases move with
  | incoming now addr data random allowed => cases hcall
  | tick now i failures => cases hcall
  | cleanup now =>
      cases hok
      exact ⟨rfl, by simp, fun found => ⟨_, found, rfl, rfl, id⟩⟩
  | close now j failures =>
      rw [← Except.ok.inj hok]
      refine callConn_kept j fun c => ⟨rfl, c.identity_close _ now, ?_⟩
      dsimp only
      rcases c.close_life ⟨failures, []⟩ now with heq | ⟨live, hlife⟩
      · rw [heq]
        exact ⟨rfl, id⟩
      · exact ⟨by rw [hlife], by simp [live]⟩
  | sendImmediate now j data channel failures =>
      rw [← Except.ok.inj hok]
      refine callConn_kept j fun c => ⟨rfl, c.identity_sendImmediate _ _ _ _, ?_⟩
      have hlife := c.life_sendImmediate ⟨failures, []⟩ data channel now
      exact ⟨congrArg Prod.snd hlife, fun hstate => (congrArg Prod.fst hlife).trans hstate⟩
  | send j data channel =>
      rw [← Except.ok.inj hok]
      refine callConn_kept j fun c => ⟨rfl, c.identity_enqueueSend _ _, ?_⟩
      have hlife := c.life_enqueueSend data channel
      exact ⟨congrArg Prod.snd hlife, fun hstate => (congrArg Prod.fst hlife).trans hstate⟩

end

namespace Machine

section

variable {P : Primitives} {codecs : Codecs} {config : ServerConfig} {m m' : Machine}

/-! ## Inversion -/

theorem take_inv {now : ℤ} {addr : AddrPort} {data : Bytes} {random : HandshakeRandom P}
    {allowed : Bool} (hsound : m.server.Sound)
    (hnext : m.next P codecs config (.take now addr data random allowed) = some m') :
    m.task = none ∧ m.closed = false ∧ ∃ result, Taken P codecs m.server addr result ∧
      m' = { m with server := result.1, task := result.2.1, log := m.log ++ result.2.2 } := by
  simp only [next, Option.isNone_iff_eq_none, Option.ite_none_right_eq_some,
    Option.some.injEq] at hnext
  obtain ⟨⟨hidle, hopen⟩, rfl⟩ := hnext
  exact ⟨hidle, hopen, _, take_taken hsound random allowed now addr data, rfl⟩

theorem tick_inv {i : ℕ} (hnext : m.next P codecs config (.tick i) = some m') :
    m.task = none ∧ ∃ c, m.server.heap[i]? = some c ∧
      m' = { m with task := some (i, c.remoteAddr, .ticking c.state) } := by
  simp only [next, Option.isNone_iff_eq_none, Option.ite_none_right_eq_some,
    Option.map_eq_some_iff] at hnext
  obtain ⟨hidle, c, found, rfl⟩ := hnext
  exact ⟨hidle, c, found, rfl⟩

theorem advance_inv {now : ℤ} {failures : List Bool}
    (hnext : m.next P codecs config (.advance now failures) = some m') :
    ∃ i addr w c c' socket w' events, m.task = some (i, addr, w) ∧ m.server.heap[i]? = some c ∧
      w.advance c config.tick ⟨failures, []⟩ now = .ok (c', socket, w', events) ∧
      m' = { m with
        server := (m.server.settle i c' events).1
        task := w'.map fun v => (i, addr, v)
        log := m.log ++ ((w.opening c).map fun nonce => .opened i nonce addr).toList ++
          (socket.written.map (.sent c.remoteAddr) ++ events.map (.conn i)) } := by
  simp only [next, Option.bind_eq_some_iff] at hnext
  obtain ⟨⟨i, addr, w⟩, hbusy, c, found, hadvance⟩ := hnext
  rw [advance] at hadvance
  split at hadvance
  · cases hadvance
  · rename_i c' socket w' events hok
    exact ⟨i, addr, w, c, c', socket, w', events, hbusy, found, hok,
      (Option.some.inj hadvance).symm⟩

theorem call_inv {move : Move P} (hnext : m.next P codecs config (.call move) = some m') :
    move.isCall = true ∧ ∃ result, m.server.step P codecs config move = .ok result ∧
      m' = { m with server := result.1, log := m.log ++ result.2 } := by
  simp only [next, Option.ite_none_right_eq_some] at hnext
  obtain ⟨hcall, hstep⟩ := hnext
  split at hstep
  · cases hstep
  · rename_i s events hok
    exact ⟨hcall, _, hok, (Option.some.inj hstep).symm⟩

theorem visit_inv {k : ℕ} (hnext : m.next P codecs config (.visit k) = some m') :
    ∃ i c, m.visits[k]? = some i ∧ m.server.heap[i]? = some c ∧
      (m.server.conns.lookup c.remoteAddr = some i ∧
        m' = { m with
          server := m.server.setConn i c.shutDown
          visits := m.visits.eraseIdx k
          log := m.log ++ [.conn i (.onDisconnect .graceful)] } ∨
        m' = { m with visits := m.visits.eraseIdx k }) := by
  simp only [next, Option.bind_eq_some_iff, Option.map_eq_some_iff] at hnext
  obtain ⟨i, hi, c, found, rfl⟩ := hnext
  refine ⟨i, c, hi, found, ?_⟩
  rw [visit]
  split
  · rename_i registered
    exact .inl ⟨registered, rfl⟩
  · exact .inr rfl

/-! ## Tables under interleaving -/

/-- The tables are sound, whoever is at work is not registered under somebody
else's address, and only a closed server is visited. -/
structure Consistent (m : Machine) : Prop where
  sound : m.server.Sound
  held : ∀ {i addr w}, m.task = some (i, addr, w) → (∃ c, m.server.heap[i]? = some c) ∧
    (m.server.Held i ∨ w = .ticking .disconnected)
  visits_closed : m.visits ≠ [] → m.closed = true

theorem Consistent.next (h : m.Consistent) {a : Action P}
    (hnext : m.next P codecs config a = some m') : m'.Consistent := by
  cases a with
  | take now addr data random allowed =>
      obtain ⟨-, -, result, htaken, rfl⟩ := take_inv h.sound hnext
      refine ⟨(htaken.changes m.log).sound h.sound, ?_, h.visits_closed⟩
      intro i' addr' w' hbusy
      obtain ⟨-, hsome, hheld⟩ := htaken.held h.sound hbusy
      exact ⟨hsome, .inl hheld⟩
  | tick i =>
      obtain ⟨-, c, found, rfl⟩ := tick_inv hnext
      refine ⟨h.sound, ?_, h.visits_closed⟩
      rintro i' addr' w' ⟨⟩
      refine ⟨⟨c, found⟩, (h.sound.dead found).imp h.sound.held ?_⟩
      intro hstate
      rw [hstate]
  | advance now failures =>
      obtain ⟨i, addr, w, c, c', socket, w', events, hbusy, found, hok, rfl⟩ := advance_inv hnext
      obtain ⟨-, hheld⟩ := h.held hbusy
      have hchanges : Changes P codecs (fun _ _ => True) (Eq i) addr ⟨m.server, m.log⟩ _ :=
        advance_changes rfl found hheld hok addr m.log
      refine ⟨hchanges.sound h.sound, ?_, h.visits_closed⟩
      intro i' addr' v hbusy'
      obtain ⟨v', hv', heq⟩ := Option.map_eq_some_iff.mp hbusy'
      cases heq
      refine ⟨?_, .inl ?_⟩
      · rw [settle_heap]
        exact ⟨c', List.getElem?_set_self (List.getElem?_eq_some_iff.mp found).1⟩
      · refine (hheld.resolve_right ?_).settle found (Work.advance_remoteAddr hok) events
        rintro rfl
        cases hok
        cases hv'
  | call move =>
      obtain ⟨hcall, result, hok, rfl⟩ := call_inv hnext
      have hkept := step_kept hcall hok
      obtain ⟨src, hsource⟩ := move.exists_source
      refine ⟨(step_changes m.log h.sound hsource (move.draws_any m.server) hok).sound h.sound, ?_,
        h.visits_closed⟩
      intro i addr w hbusy
      obtain ⟨⟨c, found⟩, hheld⟩ := h.held hbusy
      obtain ⟨c', found', same, -⟩ := hkept.heap found
      refine ⟨⟨c', found'⟩, hheld.imp_left fun hheld => hheld.of_addr hkept.conns_eq ?_⟩
      intro d hd
      obtain rfl : c' = d := Option.some.inj (found'.symm.trans hd)
      exact ⟨c, found, congrArg Prod.fst same⟩
  | stop =>
      cases hnext
      exact ⟨h.sound, h.held, fun _ => rfl⟩
  | visit k =>
      obtain ⟨i, c, hi, found, hvisit⟩ := visit_inv hnext
      have hclosed : m.closed = true :=
        h.visits_closed (List.ne_nil_of_mem (List.mem_of_getElem? hi))
      rcases hvisit with ⟨registered, rfl⟩ | rfl
      · refine ⟨h.sound.setConn found rfl (.inl registered), ?_, fun _ => hclosed⟩
        intro j addr w hbusy
        obtain ⟨⟨d, hd⟩, hheld⟩ := h.held hbusy
        have same : names c.shutDown = names c := rfl
        obtain ⟨e, he, -⟩ := setConn_of_getElem found same hd
        refine ⟨⟨e, he⟩, hheld.imp_left fun hheld => hheld.of_addr rfl ?_⟩
        intro d' hd'
        obtain ⟨e', he', hnames, -⟩ := setConn_inv found same hd'
        exact ⟨e', he', congrArg Prod.fst hnames⟩
      · exact ⟨h.sound, h.held, fun _ => hclosed⟩

/-- Every interleaving keeps the tables consistent. -/
theorem consistent_of_run {hist : List (Machine × Action P)}
    (hrun : (system P codecs config).Run hist m) : m.Consistent := by
  refine hrun.invariant ?_ fun m a m' h hstep => h.next hstep
  rintro m rfl
  exact ⟨sound_empty, by simp, by simp⟩

/-! ## The end is the end -/

theorem disconnected_setConn {s : Server} {i j : ℕ} {c c' d : Connection}
    (found : s.heap[j]? = some d) (hstate : d.state = .disconnected) (hi : s.heap[i]? = some c)
    (hkept : c.state = .disconnected → c'.state = .disconnected) :
    ∃ d', (s.heap.set i c')[j]? = some d' ∧ d'.state = .disconnected := by
  by_cases hij : i = j
  · subst hij
    obtain rfl : c = d := Option.some.inj (hi.symm.trans found)
    exact ⟨c', List.getElem?_set_self (List.getElem?_eq_some_iff.mp hi).1, hkept hstate⟩
  · exact ⟨d, by rwa [List.getElem?_set_ne hij], hstate⟩

theorem disconnected_of_change {active : ℕ → Prop} {src : AddrPort} {t t' : Trace}
    {Fresh : Server → PendingHandshake → Prop} (hchange : Change P codecs Fresh active src t t')
    {j : ℕ} (h : t.server.Disconnected j) : t'.server.Disconnected j := by
  obtain ⟨d, found, hstate⟩ := h
  cases hchange with
  | sent addr data => exact ⟨d, found, hstate⟩
  | refused act e => exact ⟨d, found, hstate⟩
  | decrypted act hi opens => exact disconnected_setConn found hstate hi id
  | called act hi held same life =>
      rw [Disconnected, settle_heap]
      exact disconnected_setConn found hstate hi life.disconnected
  | closed act hi same live life_eq =>
      exact disconnected_setConn found hstate hi fun hdead => by simp [live] at hdead
  | @moved s log i c act hi registered free settled =>
      rw [Disconnected, moveTo_eq registered free]
      have hkept : c.state = .disconnected →
          ({ c with remoteAddr := src } : Connection).state = .disconnected := id
      exact disconnected_setConn found hstate hi hkept
  | admitted awaited free accepted => exact ⟨d, register_of_getElem src found, hstate⟩
  | remembered free fresh => exact ⟨d, found, hstate⟩
  | expired keep => exact ⟨d, found, hstate⟩

theorem disconnected_of_changes {active : ℕ → Prop} {src : AddrPort} {t t' : Trace}
    {Fresh : Server → PendingHandshake → Prop} (hchanges : Changes P codecs Fresh active src t t')
    {j : ℕ} (h : t.server.Disconnected j) : t'.server.Disconnected j := by
  induction hchanges with
  | refl => exact h
  | tail _ hchange ih => exact disconnected_of_change hchange ih

/-- Under any interleaving, a connection that is disconnected stays so. -/
theorem Consistent.disconnected (h : m.Consistent) {a : Action P}
    (hnext : m.next P codecs config a = some m') {j : ℕ}
    (hdead : m.server.Disconnected j) : m'.server.Disconnected j := by
  cases a with
  | take now addr data random allowed =>
      obtain ⟨-, -, result, htaken, rfl⟩ := take_inv h.sound hnext
      exact disconnected_of_changes (htaken.changes m.log) hdead
  | tick i =>
      obtain ⟨-, c, found, rfl⟩ := tick_inv hnext
      exact hdead
  | advance now failures =>
      obtain ⟨i, addr, w, c, c', socket, w', events, -, found, hok, rfl⟩ := advance_inv hnext
      obtain ⟨d, hd, hstate⟩ := hdead
      rw [Disconnected, settle_heap]
      exact disconnected_setConn hd hstate found (Work.advance_lifecycle hok).disconnected
  | call move =>
      obtain ⟨hcall, result, hok, rfl⟩ := call_inv hnext
      obtain ⟨d, hd, hstate⟩ := hdead
      obtain ⟨d', hd', -, -, hkept⟩ := (step_kept hcall hok).heap hd
      exact ⟨d', hd', hkept hstate⟩
  | stop =>
      cases hnext
      exact hdead
  | visit k =>
      obtain ⟨i, c, hi, found, ⟨-, rfl⟩ | rfl⟩ := visit_inv hnext
      · obtain ⟨d, hd, hstate⟩ := hdead
        exact disconnected_setConn hd hstate found fun _ => rfl
      · exact hdead

/-! ## Without interleaving -/

section

variable (P codecs config) in
/-- The tick goroutine goes on, and nobody else runs. -/
abbrev Sections (now : ℤ) : Machine → Machine → Prop :=
  Relation.ReflTransGen fun m m' => m.next P codecs config (.advance now []) = some m'

variable {s s' : Server} {i : ℕ} {c : Connection} {closed : Bool} {visits : List ℕ} {now : ℤ}
  {addr : AddrPort} {events : List ServerEvent} (log : List ServerEvent)

theorem next_advance {w : Work} {c' : Connection} {w' : Option Work} {reports : List Event}
    (found : s.heap[i]? = some c)
    (hok : w.advance c config.tick ⟨[], []⟩ now = .ok (c', ⟨[], []⟩, w', reports)) :
    Machine.next ⟨s, some (i, addr, w), closed, visits, log⟩ P codecs config (.advance now []) =
      some ⟨(s.settle i c' reports).1, w'.map fun v => (i, addr, v), closed, visits,
        log ++ ((w.opening c).map fun nonce => .opened i nonce addr).toList ++
          reports.map (.conn i)⟩ := by
  simp [next, found, advance, hok]

/-- A decrypted packet is handled and, if there is something to deliver, that is
done in a section of its own. -/
theorem handleDecrypted_sections (found : s.heap[i]? = some c) {decrypted : Bytes}
    (rest : List Bytes) (hok : s.handleDecrypted now i decrypted = .ok (s', events)) :
    Sections P codecs config now ⟨s, some (i, addr, .handling decrypted rest), closed, visits, log⟩
        ⟨s', (Work.ofPackets rest).map fun v => (i, addr, v), closed, visits, log ++ events⟩ ∧
      ∃ c', s'.heap[i]? = some c' := by
  have hlt : i < s.heap.length := (List.getElem?_eq_some_iff.mp found).1
  rw [handleDecrypted, found] at hok
  dsimp only at hok
  split at hok
  · cases hok
  · rename_i c' calls hhandle
    have hpair := Except.ok.inj hok
    obtain rfl : (s.settle i c' calls).1 = s' := congrArg Prod.fst hpair
    obtain rfl : calls.map (.conn i) = events := congrArg Prod.snd hpair
    refine ⟨?_, c', by rw [settle_heap, List.getElem?_set_self hlt]⟩
    obtain ⟨calls', hfinish, rfl⟩ := Connection.handleDecrypted_inv hhandle
    have hreceive : (Work.handling decrypted rest).advance c config.tick ⟨[], []⟩ now =
      .ok ((c.receive now decrypted).1, ⟨[], []⟩, Work.ofVerdict (c.receive now decrypted).2.2 rest,
        (c.receive now decrypted).2.1) := rfl
    cases hverdict : (c.receive now decrypted).2.2 with
    | done =>
        rw [hverdict] at hfinish hreceive
        cases hfinish
        refine .single ?_
        rw [List.append_nil, next_advance log found hreceive]
        simp [Work.opening, Work.ofVerdict, settle]
    | deliver id seq payload emit =>
        rw [hverdict] at hfinish hreceive
        -- what delivers does not end the connection
        have hquiet : (c.receive now decrypted).2.1.any Event.isDisconnect = false := by
          rw [← Bool.not_eq_true]
          intro hany
          rw [c.receive_ends hany] at hverdict
          cases hverdict
        have hquiet' : calls'.any Event.isDisconnect = false := by
          simpa using (Connection.finish_lifecycle _ hfinish).1
        have hdeliver : (Work.delivering (.deliver id seq payload emit) rest).advance
            (c.receive now decrypted).1 config.tick ⟨[], []⟩ now =
            .ok (c', ⟨[], []⟩, Work.ofPackets rest, calls') := by
          simp only [Work.advance, hfinish]
        refine .head (next_advance log found hreceive) (.single ?_)
        rw [settle_quiet hquiet]
        refine (next_advance _ (setConn_getElem found) hdeliver).trans ?_
        rw [settle_quiet hquiet']
        rw [settle_quiet (by simp [hquiet, hquiet'])]
        simp [Work.opening, setConn]

theorem processPackets_sections (found : s.heap[i]? = some c) {packets : List Bytes}
    (hok : processPackets now addr i s packets = .ok (s', events)) :
    Sections P codecs config now
      ⟨s, (Work.ofPackets packets).map fun v => (i, addr, v), closed, visits, log⟩
      ⟨s', none, closed, visits, log ++ events⟩ := by
  induction packets generalizing s c log events with
  | nil =>
      cases hok
      simpa [Work.ofPackets] using .refl
  | cons packet packets ih =>
      rw [processPackets] at hok
      split at hok
      · cases hok
      · rename_i s₁ events₁ hfirst
        split at hok
        · cases hok
        · rename_i s₂ events₂ hrest
          cases hok
          rw [← List.append_assoc]
          rw [processPacket, found] at hfirst
          dsimp only at hfirst
          split at hfirst
          · rename_i e hrefused
            cases hfirst
            have hadvance : (Work.packets (packet :: packets)).advance c config.tick ⟨[], []⟩ now =
                .ok (c, ⟨[], []⟩, Work.ofPackets packets, [.onError e]) := by
              simp only [Work.advance, hrefused]
            have hopening : (Work.packets (packet :: packets)).opening c = none := by
              simp only [Work.opening, hrefused]
            refine .head (next_advance log found hadvance) ?_
            rw [settle_quiet rfl, setConn_self found, hopening]
            simp only [Option.map_none, Option.toList_none, List.append_nil]
            exact ih (log ++ [.conn i (.onError e)]) found hrest
          · rename_i plaintext cipher hopen
            split at hfirst
            · cases hfirst
            · rename_i calls hhandle
              cases hfirst
              have hadvance : (Work.packets (packet :: packets)).advance c config.tick
                  ⟨[], []⟩ now =
                  .ok (c.withRecvCipher cipher, ⟨[], []⟩, some (.handling plaintext packets),
                      []) := by
                simp only [Work.advance, hopen]
              have hopening : (Work.packets (packet :: packets)).opening c =
                  some (CipherState.wireNonce packet) := by
                simp only [Work.opening, hopen]
              refine .head (next_advance log found hadvance) ?_
              rw [settle_quiet rfl, hopening]
              obtain ⟨hsections, c', found'⟩ := handleDecrypted_sections
                (log ++ [.opened i (CipherState.wireNonce packet) addr]) (setConn_getElem found)
                packets hhandle
              have hothers := ih (log ++ [.opened i (CipherState.wireNonce packet) addr] ++ calls)
                found' hrest
              have hlog :
                  log ++ (.opened i (CipherState.wireNonce packet) addr :: calls) ++ events₂ =
                  log ++ [.opened i (CipherState.wireNonce packet) addr] ++ calls ++ events₂ := by
                simp
              rw [hlog, List.map_nil, List.append_nil]
              exact hsections.trans hothers

theorem datagram_sections (found : s.heap[i]? = some c) {data : Bytes}
    (hok : (match datagramPackets c data with
      | .error e => .ok (s, [.conn i (.onError e)])
      | .ok packets => s.processPackets now addr i packets :
        Except GoPanic (Server × List ServerEvent)) = .ok (s', events)) :
    Sections P codecs config now ⟨s, some (i, addr, .datagram data), closed, visits, log⟩
      ⟨s', none, closed, visits, log ++ events⟩ := by
  cases hpackets : datagramPackets c data with
  | error e =>
      rw [hpackets] at hok
      cases hok
      have hadvance : (Work.datagram data).advance c config.tick ⟨[], []⟩ now =
          .ok (c, ⟨[], []⟩, none, [.onError e]) := by
        simp only [Work.advance, hpackets]
      refine .single ((next_advance log found hadvance).trans ?_)
      rw [settle_quiet rfl, setConn_self found]
      simp [Work.opening]
  | ok packets =>
      rw [hpackets] at hok
      have hadvance : (Work.datagram data).advance c config.tick ⟨[], []⟩ now =
          .ok (c, ⟨[], []⟩, Work.ofPackets packets, []) := by
        simp only [Work.advance, hpackets]
      refine .head (next_advance log found hadvance) ?_
      rw [settle_quiet rfl, setConn_self found]
      simp only [Work.opening, Option.map_none, Option.toList_none, List.append_nil, List.map_nil]
      exact processPackets_sections log found hok

theorem tryMigration_sections (found : s.heap[i]? = some c) {data : Bytes}
    (hok : s.tryMigration now addr i c data = .ok (s', events)) :
    Sections P codecs config now
      ⟨(s.takeMigrating addr i c data).1, (s.takeMigrating addr i c data).2.1, closed, visits,
        log ++ (s.takeMigrating addr i c data).2.2⟩
      ⟨s', none, closed, visits, log ++ events⟩ := by
  -- the taking is unfolded last: the two functions inspect the same things
  rw [tryMigration] at hok
  split at hok
  · rename_i hpackets
    cases hok
    rw [takeMigrating, hpackets]
  · rename_i hpackets
    cases hok
    rw [takeMigrating, hpackets]
  · rename_i first rest hpackets
    split at hok
    · rename_i hrefused
      cases hok
      simp only [takeMigrating, hpackets, hrefused]
      exact .refl
    · rename_i plaintext cipher hopen
      dsimp only at hok
      split at hok
      · cases hok
      · rename_i s₁ events₁ hfirst
        split at hok
        · cases hok
        · rename_i s₂ events₂ hrest
          cases hok
          have found' : ∃ d, ((s.setConn i (c.withRecvCipher cipher)).moveTo i
              (c.withRecvCipher cipher) addr).heap[i]? = some d := by
            rw [moveTo]
            split
            · exact ⟨_, List.getElem?_set_self
                (List.getElem?_eq_some_iff.mp (setConn_getElem found)).1⟩
            · exact ⟨_, setConn_getElem found⟩
          obtain ⟨d, hd⟩ := found'
          obtain ⟨hsections, e, he⟩ := handleDecrypted_sections
            (log ++ [.opened i (CipherState.wireNonce first) addr]) hd rest hfirst
          have hlog :
              log ++ (.opened i (CipherState.wireNonce first) addr :: (events₁ ++ events₂)) =
              log ++ [.opened i (CipherState.wireNonce first) addr] ++ events₁ ++ events₂ := by simp
          simp only [takeMigrating, hpackets, hopen]
          rw [hlog]
          exact hsections.trans (processPackets_sections _ he hrest)

/-- If the sections of a datagram follow each other, they do what
`processIncoming` does. -/
theorem processIncoming_sections {random : HandshakeRandom P} {allowed : Bool} {data : Bytes}
    (hok : s.processIncoming P codecs config random allowed now addr data = .ok (s', events)) :
    ∃ m, Machine.next ⟨s, none, false, visits, log⟩ P codecs config
        (.take now addr data random allowed) = some m ∧
      Sections P codecs config now m ⟨s', none, false, visits, log ++ events⟩ := by
  refine ⟨⟨(s.take P codecs config random allowed now addr data).1,
    (s.take P codecs config random allowed now addr data).2.1, false, visits,
    log ++ (s.take P codecs config random allowed now addr data).2.2⟩, rfl, ?_⟩
  rw [processIncoming] at hok
  split at hok
  · rename_i i c hroute
    rw [take, hroute]
    simp only [Option.bind_eq_some_iff, Option.map_eq_some_iff, Prod.mk.injEq] at hroute
    obtain ⟨j, -, d, found, rfl, rfl⟩ := hroute
    rw [processConnData] at hok
    dsimp only
    split at hok
    · rename_i hshort
      cases hok
      rw [if_pos hshort]
    · rename_i hlong
      rw [if_neg hlong, List.append_nil]
      exact datagram_sections log found hok
  · rename_i hroute
    split at hok
    · rename_i ph awaited
      simp only [take, hroute, awaited]
      obtain ⟨rfl, rfl⟩ := Prod.ext_iff.mp (Except.ok.inj hok)
      exact .refl
    · rename_i settled
      split at hok
      · rename_i i c htoken
        simp only [take, hroute, settled, htoken]
        simp only [Option.bind_eq_some_iff, Option.map_eq_some_iff, Prod.mk.injEq] at htoken
        obtain ⟨j, -, d, found, rfl, rfl⟩ := htoken
        exact tryMigration_sections log found hok
      · rename_i htoken
        simp only [take, hroute, settled, htoken]
        obtain ⟨rfl, rfl⟩ := Prod.ext_iff.mp (Except.ok.inj hok)
        exact .refl

end

end

/-- A datagram on a connection, with two events. -/
theorem processIncoming_sections_response : ∃ result m,
    connectedTrace.server.processIncoming plainPrimitives noCodecs plainConfig plainRandom true 0
        ⟨0, 1⟩ plainResponse = .ok result ∧ result.2.length = 2 ∧
      Machine.next ⟨connectedTrace.server, none, false, [], []⟩ plainPrimitives noCodecs plainConfig
        (.take 0 ⟨0, 1⟩ plainResponse plainRandom true) = some m ∧
      Sections plainPrimitives noCodecs plainConfig 0 m
        ⟨result.1, none, false, [], result.2⟩ := by
  have htwo : (connectedTrace.server.processIncoming plainPrimitives noCodecs plainConfig
      plainRandom true 0 ⟨0, 1⟩ plainResponse).toOption.any (fun r => r.2.length = 2) = true := by
    decide +kernel
  cases hok : connectedTrace.server.processIncoming plainPrimitives noCodecs plainConfig
      plainRandom true 0 ⟨0, 1⟩ plainResponse with
  | error e =>
      rw [hok] at htwo
      cases htwo
  | ok result =>
      obtain ⟨m, hnext, hsections⟩ := processIncoming_sections [] hok
      rw [hok] at htwo
      exact ⟨result, m, rfl, of_decide_eq_true htwo, hnext, hsections⟩

end Machine

end Server

end Fastwire
