/-
# What a step of the server can do

A step of the server is a sequence of elementary changes: a reply is written, a
packet is opened, a connection is called and written back, moved or admitted, a
handshake is remembered or forgotten. The server goes only from here on by what
these changes do, so that an invariant has one case for each of them.

The history of a server is kept beside its tables.
-/

import Fastwire.Lib.Run
import Fastwire.Server.Basic
import Mathlib.Logic.Relation

namespace Fastwire

open Crypto Lib

/-- A server and everything it has done so far, oldest first. -/
structure Trace where
  server : Server
  log : List ServerEvent

def ServerEvent.owner : ServerEvent → Option ℕ
  | .onConnect i => some i
  | .opened i _ _ => some i
  | .conn i _ => some i
  | .sent _ _ => none

namespace Server

/-- What happened to one connection. -/
def eventsOf (i : ℕ) (log : List ServerEvent) : List ServerEvent :=
  log.filter fun ev => ev.owner = some i

theorem eventsOf_append {i : ℕ} (log : List ServerEvent) {events : List ServerEvent}
    (hother : ∀ ev ∈ events, ev.owner ≠ some i) : eventsOf i (log ++ events) = eventsOf i log := by
  have hnil : events.filter (fun ev => ev.owner = some i) = [] := by
    rw [List.filter_eq_nil_iff]
    intro ev hev
    simpa using hother ev hev
  rw [eventsOf, List.filter_append, hnil, List.append_nil]
  rfl

def Registered (s : Server) (i : ℕ) : Prop := ∃ a, s.conns.lookup a = some i

/-- Nobody else is registered under the address of the connection. -/
def Held (s : Server) (i : ℕ) : Prop :=
  ∀ c, s.heap[i]? = some c → s.conns.lookup c.remoteAddr = some i ∨
    s.conns.lookup c.remoteAddr = none

section

variable (P : Primitives) (codecs : Codecs) (Fresh : Server → PendingHandshake → Prop)
  (active : ℕ → Prop) (src : AddrPort)

/-- The elementary changes while the server handles a datagram from `src`. The
handshakes it may remember are restricted by `Fresh`, the connections it may touch
by `active`. -/
inductive Change : Trace → Trace → Prop
  | sent {s log} (addr : AddrPort) (data : Bytes) :
      Change ⟨s, log⟩ ⟨s, log ++ [.sent addr data]⟩
  | refused {s log i} (act : active i) (e : Err) :
      Change ⟨s, log⟩ ⟨s, log ++ [.conn i (.onError e)]⟩
  | decrypted {s log i c packet plaintext cipher} (act : active i) (found : s.heap[i]? = some c)
      (opens : c.recvCipher.decrypt packet = .ok (plaintext, cipher)) :
      Change ⟨s, log⟩ ⟨s.setConn i (c.withRecvCipher cipher),
        log ++ [.opened i (CipherState.wireNonce packet) src]⟩
  | called {s log i c c' events} (act : active i) (found : s.heap[i]? = some c)
      (held : s.Held i ∨ events = []) (same : c'.identity = c.identity)
      (life : Lifecycle c c' events) :
      Change ⟨s, log⟩ ⟨(s.settle i c' events).1, log ++ events.map (.conn i)⟩
  | closed {s log i c c'} (act : active i) (found : s.heap[i]? = some c)
      (same : c'.identity = c.identity)
      (live : c.state = .connected) (life_eq : c'.life = (.disconnecting, c.life.2)) :
      Change ⟨s, log⟩ ⟨s.setConn i c', log⟩
  | moved {s log i c} (act : active i) (found : s.heap[i]? = some c)
      (registered : s.conns.lookup c.remoteAddr = some i) (free : s.conns.lookup src = none)
      (settled : s.pending.lookup src = none) :
      Change ⟨s, log⟩ ⟨s.moveTo i c src, log⟩
  | admitted {s log ph data now c} (awaited : s.pending.lookup src = some ph)
      (free : s.conns.lookup src = none)
      (accepted : serverProcessResponse P codecs data ph src now = .ok c) :
      Change ⟨s, log⟩ ⟨s.register src c, log ++
        [.opened s.heap.length (CipherState.wireNonce data) src,
        .onConnect s.heap.length]⟩
  | remembered {s log ph} (free : s.conns.lookup src = none) (fresh : Fresh s ph) :
      Change ⟨s, log⟩ ⟨{ s with pending := s.pending.insert src ph }, log⟩
  | expired {s log} (keep : PendingHandshake → Bool) :
      Change ⟨s, log⟩ ⟨{ s with pending := s.pending.filter keep }, log⟩

abbrev Changes : Trace → Trace → Prop := Relation.ReflTransGen (Change P codecs Fresh active src)

end

/-! ## Who is held stays held -/

section

variable {s : Server} {i : ℕ} {c c' : Connection}

theorem setConn_getElem (found : s.heap[i]? = some c) : (s.setConn i c').heap[i]? = some c' := by
  rw [setConn, List.getElem?_set_self]
  exact (List.getElem?_eq_some_iff.mp found).1

theorem setConn_self (found : s.heap[i]? = some c) : s.setConn i c = s := by
  obtain ⟨hlt, hget⟩ := List.getElem?_eq_some_iff.mp found
  have hset : s.heap.set i c = s.heap := by rw [← hget, List.set_getElem_self]
  rw [setConn, hset]

theorem Held.setConn (held : s.Held i) (found : s.heap[i]? = some c)
    (haddr : c'.remoteAddr = c.remoteAddr) : (s.setConn i c').Held i := by
  intro d hd
  rw [setConn_getElem found, Option.some.injEq] at hd
  rw [← hd, haddr]
  exact held c found

theorem Held.settle (held : s.Held i) (found : s.heap[i]? = some c)
    (haddr : c'.remoteAddr = c.remoteAddr) (events : List Event) :
    (s.settle i c' events).1.Held i := by
  have hset := held.setConn found haddr
  rw [Server.settle]
  split
  · intro d hd
    have heq : c' = d := by simpa [removeConnection, setConn_getElem found] using hd
    refine Or.inr ?_
    rw [← heq]
    exact AList.lookup_erase _ _
  · exact hset

end

/-! ## Datagrams of known connections -/

section

variable {P : Primitives} {codecs : Codecs} {Fresh : Server → PendingHandshake → Prop}
  {active : ℕ → Prop} {src : AddrPort} {s s' : Server} {i : ℕ} {events : List ServerEvent}
  (log : List ServerEvent)

theorem handleDecrypted_changes (act : active i) (held : s.Held i) {now : ℤ} {decrypted : Bytes}
    (hok : s.handleDecrypted now i decrypted = .ok (s', events)) :
    Changes P codecs Fresh active src ⟨s, log⟩ ⟨s', log ++ events⟩ ∧ s'.Held i := by
  rw [handleDecrypted] at hok
  split at hok
  · cases hok
    simpa using ⟨.refl, held⟩
  · rename_i c found
    split at hok
    · cases hok
    · rename_i c' calls hcall
      cases hok
      have same := c.identity_handleDecrypted hcall
      have haddr : c'.remoteAddr = c.remoteAddr := congrArg Prod.fst same
      exact ⟨.single (.called act found (.inl held) same (c.handleDecrypted_lifecycle hcall)),
        held.settle found haddr calls⟩

theorem processPacket_changes (act : active i) (held : s.Held i) {now : ℤ} {packet : Bytes}
    (hok : s.processPacket now src i packet = .ok (s', events)) :
    Changes P codecs Fresh active src ⟨s, log⟩ ⟨s', log ++ events⟩ ∧ s'.Held i := by
  rw [processPacket] at hok
  split at hok
  · cases hok
    simpa using ⟨.refl, held⟩
  · rename_i c found
    split at hok
    · rename_i e _
      cases hok
      exact ⟨.single (.refused act e), held⟩
    · rename_i plaintext cipher hopen
      split at hok
      · cases hok
      · rename_i calls hhandle
        cases hok
        have held' : (s.setConn i (c.withRecvCipher cipher)).Held i := held.setConn found rfl
        obtain ⟨hrest, hheld⟩ := handleDecrypted_changes
          (log ++ [.opened i (CipherState.wireNonce packet) src]) act held' hhandle
        refine ⟨.head (.decrypted act found hopen) ?_, hheld⟩
        simpa using hrest

theorem processPackets_changes (act : active i) (held : s.Held i) {now : ℤ} {packets : List Bytes}
    (hok : processPackets now src i s packets = .ok (s', events)) :
    Changes P codecs Fresh active src ⟨s, log⟩ ⟨s', log ++ events⟩ ∧ s'.Held i := by
  induction packets generalizing s log events with
  | nil =>
      cases hok
      simpa using ⟨.refl, held⟩
  | cons packet packets ih =>
      rw [processPackets] at hok
      split at hok
      · cases hok
      · rename_i s₁ events₁ hfirst
        split at hok
        · cases hok
        · rename_i s₂ events₂ hrest
          cases hok
          obtain ⟨hchanges, held₁⟩ := processPacket_changes log act held hfirst
          obtain ⟨hchanges', held₂⟩ := ih (log ++ events₁) held₁ hrest
          refine ⟨hchanges.trans ?_, held₂⟩
          simpa using hchanges'

theorem processConnData_changes (act : active i) (held : s.Held i) {now : ℤ} {c : Connection}
    {data : Bytes}
    (hok : s.processConnData now src i c data = .ok (s', events)) :
    Changes P codecs Fresh active src ⟨s, log⟩ ⟨s', log ++ events⟩ := by
  rw [processConnData] at hok
  split at hok
  · cases hok
    simpa using .refl
  · dsimp only at hok
    split at hok
    · rename_i e _
      cases hok
      exact .single (.refused act e)
    · exact (processPackets_changes log act held hok).1

/-! ## Migration and handshakes -/

theorem Held.moveTo {c : Connection} (found : s.heap[i]? = some c)
    (registered : s.conns.lookup c.remoteAddr = some i) : (s.moveTo i c src).Held i := by
  rw [Server.moveTo]
  split
  · intro d hd
    have heq : { c with remoteAddr := src } = d := by
      simpa [List.getElem?_set_self (List.getElem?_eq_some_iff.mp found).1] using hd
    refine Or.inl ?_
    rw [← heq]
    exact AList.lookup_insert _
  · intro d hd
    obtain rfl : c = d := by simpa [found] using hd
    exact Or.inl registered

theorem tryMigration_changes {c : Connection} (act : active i) (found : s.heap[i]? = some c)
    (registered : s.conns.lookup c.remoteAddr = some i) (free : s.conns.lookup src = none)
    (settled : s.pending.lookup src = none) {now : ℤ} {data : Bytes}
    (hok : s.tryMigration now src i c data = .ok (s', events)) :
    Changes P codecs Fresh active src ⟨s, log⟩ ⟨s', log ++ events⟩ := by
  rw [tryMigration] at hok
  split at hok
  · cases hok
    simpa using .refl
  · cases hok
    simpa using .refl
  · rename_i first rest _
    split at hok
    · cases hok
      simpa using .refl
    · rename_i plaintext cipher hopen
      dsimp only at hok
      split at hok
      · cases hok
      · rename_i s₁ events₁ hfirst
        split at hok
        · cases hok
        · rename_i s₂ events₂ hrest
          cases hok
          have found' : (s.setConn i (c.withRecvCipher cipher)).heap[i]? =
              some (c.withRecvCipher cipher) := setConn_getElem found
          obtain ⟨hchanges, held₁⟩ := handleDecrypted_changes
            (log ++ [.opened i (CipherState.wireNonce first) src]) act
            (Held.moveTo found' registered) hfirst
          obtain ⟨hchanges', -⟩ := processPackets_changes
            (log ++ [.opened i (CipherState.wireNonce first) src] ++ events₁) act held₁ hrest
          refine .head (.decrypted act found hopen)
            (.head (.moved act found' registered free settled) ?_)
          simpa using hchanges.trans hchanges'

theorem processResponse_changes {ph : PendingHandshake} (awaited : s.pending.lookup src = some ph)
    (free : s.conns.lookup src = none) (now : ℤ) (data : Bytes) :
    Changes P codecs Fresh active src ⟨s, log⟩ ⟨(s.processResponse P codecs now src ph data).1,
      log ++ (s.processResponse P codecs now src ph data).2⟩ := by
  rw [processResponse]
  split
  · simpa using .refl
  · rename_i c accepted
    exact .single (.admitted awaited free accepted)

/-- A handshake that was not pending before is the answer to a CONNECT. -/
theorem handleHandshake_remembers {config : ServerConfig} {random : HandshakeRandom P}
    {allowed : Bool} {now : ℤ} {data : Bytes} {ph : PendingHandshake}
    (settled : s.pending.lookup src = none)
    (hpending : (s.handleHandshake P config random allowed now src data).1.pending.lookup src =
      some ph) :
    ∃ challenge, serverProcessConnect P config.handshake random now data =
      .ok (ph, challenge) := by
  have hnothing : s.pending.lookup src ≠ some ph := by simp [settled]
  rw [handleHandshake] at hpending
  split at hpending
  · exact absurd hpending hnothing
  split at hpending
  · exact absurd hpending hnothing
  split at hpending
  · exact absurd hpending hnothing
  split at hpending
  · exact absurd hpending hnothing
  split at hpending
  · exact absurd hpending hnothing
  rename_i pending challenge hanswer
  split at hpending
  · exact absurd hpending hnothing
  · rw [AList.lookup_insert, Option.some.injEq] at hpending
    exact ⟨challenge, hpending ▸ hanswer⟩

theorem handleHandshake_changes {config : ServerConfig} (free : s.conns.lookup src = none)
    {random : HandshakeRandom P} {allowed : Bool} {now : ℤ} {data : Bytes}
    (hfresh : ∀ ph, (s.handleHandshake P config random allowed now src data).1.pending.lookup src =
      some ph → Fresh s ph) :
    Changes P codecs Fresh active src ⟨s, log⟩
      ⟨(s.handleHandshake P config random allowed now src data).1,
        log ++ (s.handleHandshake P config random allowed now src data).2⟩ := by
  cases hparse : parseControlPacket data with
  | error e => simpa [handleHandshake, hparse] using .refl
  | ok parsed =>
      obtain ⟨hdr, ct, body⟩ := parsed
      simp only [handleHandshake, hparse] at hfresh ⊢
      by_cases hconnect : ct ≠ ControlType.connect.toByte
      · simpa only [if_pos hconnect, List.append_nil] using .refl
      simp only [if_neg hconnect] at hfresh ⊢
      by_cases hlimited : (!allowed) = true
      · simpa only [if_pos hlimited, List.append_nil] using .refl
      simp only [if_neg hlimited] at hfresh ⊢
      by_cases hfull : (s.conns.keys.length : ℤ) ≥ config.maxConnections
      · rw [if_pos hfull, rejectReply]
        split
        · simpa using .refl
        · exact .single (.sent src _)
      simp only [if_neg hfull] at hfresh ⊢
      cases hanswer : serverProcessConnect P config.handshake random now data with
      | error failure =>
          dsimp only
          cases failure.reply with
          | none => simpa using .refl
          | some reply => exact .single (.sent src reply)
      | ok answer =>
          obtain ⟨ph, challenge⟩ := answer
          simp only [hanswer] at hfresh ⊢
          by_cases hpending : s.pendingFull config src = true
          · simpa only [if_pos hpending, List.append_nil] using .refl
          · simp only [if_neg hpending] at hfresh ⊢
            exact .head (.remembered free (hfresh ph (AList.lookup_insert _)))
              (.single (.sent src challenge))

/-! ## Ticks and calls -/

theorem sent_changes (addr : AddrPort) (written : List Bytes) :
    Changes P codecs Fresh active src ⟨s, log⟩ ⟨s, log ++ written.map (.sent addr)⟩ := by
  induction written generalizing log with
  | nil => simpa using .refl
  | cons data written ih =>
      refine .head (.sent addr data) ?_
      have hrest := ih (log ++ [.sent addr data])
      rwa [List.append_assoc] at hrest

end

end Server

end Fastwire
