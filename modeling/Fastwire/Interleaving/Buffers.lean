/-
# Delivery into released buffers

`deliver` on a ReliableOrdered channel writes into the reorder buffer, which a
teardown sets to nil; writing into a nil map kills the process. A teardown does
not stop a datagram that is being processed, so this depends on what the rest of
the datagram asks for, and on whether `Stop` or `Client.Close` release the
buffers in the middle of it.
-/

import Fastwire.Interleaving.Callbacks

namespace Fastwire

open Crypto Lib

/-! ## Servers -/

namespace Server

def AllIntact (s : Server) : Prop :=
  ∀ (i : ℕ) (c : Connection), s.heap[i]? = some c → s.Registered i → c.Intact

section

variable {P : Primitives} {codecs : Codecs} {s : Server} {i : ℕ} {c c' : Connection}

theorem AllIntact.setConn (h : s.AllIntact) (found : s.heap[i]? = some c)
    (hlife : c'.life.2 = c.life.2) : (s.setConn i c').AllIntact := by
  intro j d hd hreg
  by_cases hij : i = j
  · subst hij
    obtain rfl : c' = d := Option.some.inj ((setConn_getElem found).symm.trans hd)
    rw [Connection.Intact, hlife]
    exact h i c found hreg
  · rw [Server.setConn, List.getElem?_set_ne hij] at hd
    exact h j d hd hreg

theorem Change.allIntact {Fresh : Server → PendingHandshake → Prop} {active : ℕ → Prop}
    {src : AddrPort} {t t' : Trace} (hchange : Change P codecs Fresh active src t t')
    (hsound : t.server.Sound) (h : t.server.AllIntact) : t'.server.AllIntact := by
  cases hchange with
  | sent addr data => exact h
  | refused act e => exact h
  | decrypted act found opens => exact h.setConn found rfl
  | @called s log i c c' events act found held same life =>
      cases hany : events.any Event.isDisconnect with
      | false =>
          rw [settle_quiet hany]
          cases life with
          | goesOn quiet life_eq => exact h.setConn found (by rw [life_eq])
          | ends before reason events_eq quiet state_eq modes_eq =>
              simp [events_eq, Event.isDisconnect] at hany
      | true =>
          -- what was torn down is in the table no more
          intro j d hd hreg
          have haddr : c'.remoteAddr = c.remoteAddr := congrArg Prod.fst same
          have hij : i ≠ j := by
            rintro rfl
            exact Machine.not_registered_settle hsound found haddr hany hreg
          rw [settle_heap, List.getElem?_set_ne hij] at hd
          refine h j d hd ?_
          obtain ⟨a, ha⟩ := hreg
          simp only [settle, hany, if_true, removeConnection] at ha
          rw [Table.lookup_erase_eq] at ha
          split at ha
          · cases ha
          · exact ⟨a, ha⟩
  | closed act found same live life_eq => exact h.setConn found (by rw [life_eq])
  | @moved s log i c act found registered free settled =>
      intro j d hd hreg
      rcases moveTo_inv found registered free hd with ⟨rfl, rfl⟩ | ⟨hji, hd'⟩
      · exact h j c found ⟨_, registered⟩
      · obtain ⟨a, ha⟩ := hreg
        rw [moveTo_lookup_other registered free hji] at ha
        exact h j d hd' ⟨a, ha⟩
  | @admitted s log ph data now c awaited free accepted =>
      intro j d hd hreg
      rcases register_inv hd with ⟨rfl, rfl⟩ | hold
      · obtain ⟨_, _, _, _, -, -, -, -, rfl⟩ := serverProcessResponse_ok_inv accepted
        exact Connection.intact_newConnection _ _
      · obtain ⟨a, ha⟩ := hreg
        rw [register, Table.lookup_insert_eq] at ha
        split at ha
        · have hlt := (List.getElem?_eq_some_iff.mp hold).1
          exact absurd (Option.some.inj ha) (Nat.ne_of_gt hlt)
        · exact h j d hold ⟨a, ha⟩
  | remembered free fresh => exact h
  | expired keep => exact h

theorem Changes.allIntact {Fresh : Server → PendingHandshake → Prop} {active : ℕ → Prop}
    {src : AddrPort} {t t' : Trace} (hchanges : Changes P codecs Fresh active src t t')
    (hsound : t.server.Sound) (h : t.server.AllIntact) : t'.server.AllIntact := by
  induction hchanges with
  | refl => exact h
  | tail hbefore hchange ih => exact hchange.allIntact (Changes.sound hbefore hsound) ih

theorem Taken.ready {addr : AddrPort}
    {result : Server × Option (ℕ × AddrPort × Work) × List ServerEvent}
    (htaken : Taken P codecs s addr result) (h : s.AllIntact) {src : AddrPort} {w : Work}
    (hbusy : result.2.1 = some (i, src, w)) (found : result.1.heap[i]? = some c) : w.Ready c := by
  cases htaken with
  | waits data found' registered =>
      cases hbusy
      exact h i c found ⟨_, registered⟩
  | @moves j d packet plaintext cipher rest found' registered free settled opens =>
      cases hbusy
      have hd : (s.setConn i (d.withRecvCipher cipher)).heap[i]? = some (d.withRecvCipher cipher) :=
        setConn_getElem found'
      rcases moveTo_inv hd registered free found with ⟨-, rfl⟩ | ⟨hne, -⟩
      · exact .inl (h i d found' ⟨_, registered⟩)
      · exact absurd rfl hne
  | settles changes quiet => cases hbusy

end

namespace Machine

/-- A disconnect is followed in its datagram by nothing that asks for the buffers,
and `Stop` does not visit a connection in the middle of a datagram. -/
def Careful {P : Primitives} (m : Machine) : Action P → Prop
  | .advance _ _ => ∀ i addr w c, m.task = some (i, addr, w) → m.server.heap[i]? = some c →
      w.Spares c
  | .visit k => ∀ i addr w, m.task = some (i, addr, w) → m.visits[k]? = some i →
      w.inDatagram = false
  | _ => True

/-- As long as the server is open, registered connections have their buffers; and
what is being done can be done. -/
structure Provided (m : Machine) : Prop extends Consistent m where
  intact : m.closed = false → m.server.AllIntact
  ready : ∀ {i addr w c}, m.task = some (i, addr, w) → m.server.heap[i]? = some c → w.Ready c

section

variable {P : Primitives} {codecs : Codecs} {config : ServerConfig} {m m' : Machine}

theorem Provided.intact_next (h : m.Provided) {a : Action P}
    (hnext : m.next P codecs config a = some m') (hopen : m'.closed = false) :
    m'.server.AllIntact := by
  cases a with
  | take now addr data random allowed =>
      obtain ⟨-, -, result, htaken, rfl⟩ := take_inv h.sound hnext
      exact (htaken.changes m.log).allIntact h.sound (h.intact hopen)
  | tick i =>
      obtain ⟨-, c, -, rfl⟩ := tick_inv hnext
      exact h.intact hopen
  | advance now failures =>
      obtain ⟨i, addr, w, c, c', socket, w', events, hbusy, found, hok, rfl⟩ := advance_inv hnext
      have hchanges : Changes P codecs (fun _ _ => True) (Eq i) addr ⟨m.server, m.log⟩ _ :=
        advance_changes rfl found (h.held hbusy).2 hok addr m.log
      exact hchanges.allIntact h.sound (h.intact hopen)
  | call move =>
      obtain ⟨-, result, hok, rfl⟩ := call_inv hnext
      obtain ⟨src, hsource⟩ := move.exists_source
      exact (step_changes m.log h.sound hsource (move.draws_any m.server) hok).allIntact h.sound
        (h.intact hopen)
  | stop =>
      cases hnext
      cases hopen
  | visit k =>
      obtain ⟨i, c, hi, -, hvisit⟩ := visit_inv hnext
      have hclosed : m.closed = true :=
        h.visits_closed (List.ne_nil_of_mem (List.mem_of_getElem? hi))
      rcases hvisit with ⟨-, rfl⟩ | rfl <;> simp [hclosed] at hopen

theorem Provided.ready_next (h : m.Provided) {a : Action P} (hcareful : m.Careful a)
    (hnext : m.next P codecs config a = some m') {j : ℕ} {src : AddrPort} {v : Work}
    {d : Connection} (hbusy' : m'.task = some (j, src, v)) (hd : m'.server.heap[j]? = some d) :
    v.Ready d := by
  cases a with
  | take now addr data random allowed =>
      obtain ⟨-, hopen, result, htaken, rfl⟩ := take_inv h.sound hnext
      exact htaken.ready (h.intact hopen) hbusy' hd
  | tick i =>
      obtain ⟨-, c, -, rfl⟩ := tick_inv hnext
      cases hbusy'
      exact trivial
  | advance now failures =>
      obtain ⟨i, addr, w, c, c', socket, w', events, hbusy, found, hok, rfl⟩ := advance_inv hnext
      obtain ⟨v', hv', heq⟩ := Option.map_eq_some_iff.mp hbusy'
      cases heq
      dsimp only at hd
      rw [settle_heap, List.getElem?_set_self (List.getElem?_eq_some_iff.mp found).1,
        Option.some.injEq] at hd
      subst hd
      exact Work.advance_ready (h.ready hbusy found) (hcareful _ _ _ _ hbusy found) hok v hv'
  | call move =>
      obtain ⟨hcall, result, hok, rfl⟩ := call_inv hnext
      obtain ⟨⟨c, found⟩, -⟩ := h.held hbusy'
      obtain ⟨c', found', same, hlife, -⟩ := (step_kept hcall hok).heap found
      obtain rfl : c' = d := Option.some.inj (found'.symm.trans hd)
      exact (h.ready hbusy' found).congr hlife
        (congrArg (fun identity => identity.2.2.2.2.aead) same)
  | stop =>
      cases hnext
      exact h.ready hbusy' hd
  | visit k =>
      obtain ⟨i, c, hi, found, ⟨-, rfl⟩ | rfl⟩ := visit_inv hnext
      · by_cases hij : i = j
        · subst hij
          have hticks := hcareful i src v hbusy' hi
          cases v with
          | ticking seen => exact trivial
          | _ => cases hticks
        · dsimp only at hd
          rw [setConn, List.getElem?_set_ne hij] at hd
          exact h.ready hbusy' hd
      · exact h.ready hbusy' hd

theorem provided_of_run {hist : List (Machine × Action P)}
    (hrun : (system P codecs config).Run hist m) (hcareful : System.Guarded Careful hist) :
    m.Provided := by
  refine hrun.guarded_invariant ?_ (fun _ m a m' _ h hcareful hstep =>
    ⟨h.toConsistent.next hstep, h.intact_next hstep, h.ready_next hcareful hstep⟩) hcareful
  rintro m rfl
  exact ⟨⟨sound_empty, by simp, by simp⟩, fun _ i c found => by simp [empty] at found, by simp⟩

end

end Machine

end Server

/-! ## Clients -/

namespace Client.Machine

/-- A disconnect is followed in its datagram by nothing that asks for the buffers,
`Client.Close` does not release them in the middle of a datagram, and no datagram
is taken between the release and the moment `c.server` is cleared. -/
def Careful (m : Machine) : Action → Prop
  | .take _ => .marking ∉ m.closers ∧ .clearing ∉ m.closers
  | .advance _ _ => ∀ w, m.task = some w → w.Spares m.conn
  | .closeStep k _ _ => m.closers[k]? = some .releasing → ∀ w, m.task = some w →
      w.inDatagram = false
  | _ => True

/-- As long as the connection can be found it has its buffers, unless a call of
`Client.Close` has just released them; and what is being done can be done. -/
structure Provided (m : Machine) : Prop where
  intact : m.server = true → m.conn.Intact ∨ .marking ∈ m.closers ∨ .clearing ∈ m.closers
  ready : ∀ w, m.task = some w → w.Ready m.conn

section

variable {cfg : TickConfig} {m m' : Machine}

theorem Provided.kept (h : m.Provided) {c : Connection} (hkept : Kept m.conn c) :
    Provided { m with conn := c } := by
  refine ⟨?_, fun w hbusy => (h.ready w hbusy).congr hkept.buffers_eq hkept.aead_eq⟩
  intro hserver
  rw [Connection.Intact, hkept.buffers_eq]
  exact h.intact hserver

/-- The other calls of `Client.Close` are where they were. -/
theorem mem_closers {closers : List Closer} {k : ℕ} {closer other : Closer}
    (hk : closers[k]? = some closer) (hmem : other ∈ closers) (hne : other ≠ closer)
    (next : Closer) : other ∈ closers.set k next ∧ other ∈ closers.eraseIdx k := by
  obtain ⟨j, hj⟩ := List.mem_iff_getElem?.mp hmem
  have hjk : j ≠ k := by
    rintro rfl
    exact hne (Option.some.inj (hj.symm.trans hk))
  refine ⟨List.mem_iff_getElem?.mpr ⟨j, ?_⟩, List.mem_eraseIdx_iff_getElem?.mpr ⟨j, hjk, hj⟩⟩
  rw [List.getElem?_set_ne hjk.symm]
  exact hj

theorem Provided.closeStep (h : m.Provided) {k : ℕ} {closer : Closer}
    (hk : m.closers[k]? = some closer) (now : ℤ) (failures : List Bool)
    (hcareful : m.Careful (.closeStep k now failures)) :
    (m.closeStep k now failures closer).Provided := by
  have hself : ∀ next : Closer, next ∈ m.closers.set k next := by
    intro next
    have hlt : k < m.closers.length := (List.getElem?_eq_some_iff.mp hk).1
    exact List.mem_iff_getElem?.mpr ⟨k, List.getElem?_set_self hlt⟩
  cases closer with
  | closing =>
      have hkept := close_kept m.conn ⟨failures, []⟩ now
      refine ⟨?_, fun w hbusy => (h.ready w hbusy).congr hkept.buffers_eq hkept.aead_eq⟩
      intro hserver
      rw [Connection.Intact, show (m.closeStep k now failures .closing).conn.life.2 = m.conn.life.2
        from hkept.buffers_eq]
      exact (h.intact hserver).imp_right <| Or.imp
        (fun hmem => (mem_closers hk hmem (by decide) _).1)
        (fun hmem => (mem_closers hk hmem (by decide) _).1)
  | releasing =>
      refine ⟨fun _ => .inr (.inl (hself .marking)), ?_⟩
      intro w hbusy
      have hticks := hcareful hk w hbusy
      cases w with
      | ticking seen => exact trivial
      | _ => cases hticks
  | marking =>
      exact ⟨fun _ => .inr (.inr (hself .clearing)), fun w hbusy => (h.ready w hbusy).congr rfl rfl⟩
  | clearing => exact ⟨fun hserver => (Bool.false_ne_true hserver).elim, h.ready⟩
  | reporting =>
      refine ⟨?_, h.ready⟩
      intro hserver
      exact (h.intact hserver).imp_right <| Or.imp
        (fun hmem => (mem_closers hk hmem (by decide) .reporting).2)
        (fun hmem => (mem_closers hk hmem (by decide) .reporting).2)

theorem Provided.next (h : m.Provided) {a : Action} (hcareful : m.Careful a)
    (hnext : m.next cfg a = some m') : m'.Provided := by
  cases a with
  | take data =>
      obtain ⟨-, rfl⟩ := take_inv hnext
      refine ⟨h.intact, ?_⟩
      intro w hbusy
      cases hserver : m.server with
      | false => simp [hserver] at hbusy
      | true =>
          -- nobody has released the buffers
          obtain rfl : Work.datagram data = w := by simpa [hserver] using hbusy
          exact (h.intact hserver).resolve_right (not_or.mpr hcareful)
  | tick =>
      obtain ⟨-, rfl⟩ := tick_inv hnext
      refine ⟨h.intact, ?_⟩
      intro w hbusy
      cases hserver : m.server with
      | false => simp [hserver] at hbusy
      | true =>
          obtain rfl : Work.ticking m.conn.state = w := by simpa [hserver] using hbusy
          exact trivial
  | advance now failures =>
      obtain ⟨w, c, socket, w', events, hbusy, hok, rfl⟩ := advance_inv hnext
      refine ⟨?_, Work.advance_ready (h.ready w hbusy) (hcareful w hbusy) hok⟩
      intro hserver
      rw [Bool.and_eq_true, Bool.not_eq_true'] at hserver
      cases Work.advance_lifecycle hok with
      | goesOn quiet life_eq =>
          rw [Connection.Intact, life_eq]
          exact h.intact hserver.1
      | ends before reason events_eq quiet state_eq modes_eq =>
          simp [events_eq, Event.isDisconnect] at hserver
  | close now failures =>
      cases hnext
      exact h.kept (close_kept _ _ now)
  | sendImmediate now data channel failures =>
      cases hnext
      exact h.kept (sendImmediate_kept _ _ data channel now)
  | send data channel =>
      cases hnext
      exact h.kept (enqueueSend_kept _ data channel)
  | closeCall =>
      cases hnext
      refine ⟨?_, h.ready⟩
      intro hserver
      have hserver' : m.server = true := hserver
      simpa [hserver'] using h.intact hserver'
  | closeStep k now failures =>
      obtain ⟨closer, hk, rfl⟩ := closeStep_inv hnext
      exact h.closeStep hk now failures hcareful

theorem provided_of_run {hist : List (Machine × Action)} (hrun : (system cfg).Run hist m)
    (hcareful : System.Guarded Careful hist) : m.Provided := by
  refine hrun.guarded_invariant ?_ (fun _ m a m' _ h hcareful hstep => h.next hcareful hstep)
    hcareful
  rintro m ⟨input, now, rfl⟩
  exact ⟨fun _ => .inl (Connection.intact_newConnection input now), by simp⟩

end

end Client.Machine

/-! ## Safe delivery -/

/-- In every run in which no released buffer is asked for, `deliver` is called on a
ReliableOrdered channel only if the channel has its reorder buffer. -/
theorem delivery_finds_buffer (P : Primitives) (codecs : Codecs) (config : ServerConfig)
    (cfg : TickConfig) :
    (∀ hist m, (Server.Machine.system P codecs config).Run hist m →
      System.Guarded Server.Machine.Careful hist →
      ∀ i addr id seq payload emit rest c,
        m.task = some (i, addr, .delivering (.deliver id seq payload emit) rest) →
        m.server.heap[i]? = some c → c.CanDeliver id) ∧
    ∀ hist m, (Client.Machine.system cfg).Run hist m →
      System.Guarded Client.Machine.Careful hist →
      ∀ id seq payload emit rest,
        m.task = some (.delivering (.deliver id seq payload emit) rest) →
        m.conn.CanDeliver id := by
  constructor
  · intro hist m hrun hcareful i addr id seq payload emit rest c hbusy found
    exact ((Server.Machine.provided_of_run hrun hcareful).ready hbusy found).canDeliver
  · intro hist m hrun hcareful id seq payload emit rest hbusy
    exact ((Client.Machine.provided_of_run hrun hcareful).ready _ hbusy).canDeliver

def Work.isLast : Work → Bool
  | .handling _ rest => rest.isEmpty
  | _ => true

theorem Work.spares_of_isLast {c : Connection} {w : Work} (h : w.isLast = true) : w.Spares c := by
  cases w with
  | handling plaintext rest =>
      intro _ packet hmem
      rw [List.isEmpty_iff.mp h] at hmem
      cases hmem
  | _ => exact trivial

namespace Server

def dataPlaintext : Bytes := [0, 0, 1, 0, 0, 0, 0, 0, 65]

/-- The machine executed as long as the packet at work is the last of its datagram. -/
def Machine.nextLast (m : Machine) (a : Action plainPrimitives) : Option Machine :=
  if m.task.all (fun task => task.2.2.isLast) ∧ m.visits = [] then
    m.next plainPrimitives noCodecs plainConfig a
  else none

theorem Machine.nextLast_careful {m m' : Machine} {a : Action plainPrimitives}
    (h : m.nextLast a = some m') :
    (Machine.system plainPrimitives noCodecs plainConfig).step m a m' ∧ m.Careful a := by
  simp only [Machine.nextLast, Option.ite_none_right_eq_some] at h
  obtain ⟨⟨hlast, hvisits⟩, hnext⟩ := h
  refine ⟨hnext, ?_⟩
  cases a with
  | advance now failures =>
      intro i addr w c hbusy _
      rw [hbusy, Option.all_some] at hlast
      exact Work.spares_of_isLast hlast
  | visit k =>
      intro i addr w _ hk
      simp [hvisits] at hk
  | _ => exact trivial

end Server

namespace Client.Machine

/-- The machine executed as long as the packet at work is the last of its datagram
and nobody closes. -/
def nextLast (m : Machine) (a : Action) : Option Machine :=
  if m.task.all Work.isLast ∧ m.closers = [] then m.next Server.plainConfig.tick a else none

theorem nextLast_careful {m m' : Machine} {a : Action} (h : m.nextLast a = some m') :
    (system Server.plainConfig.tick).step m a m' ∧ m.Careful a := by
  simp only [nextLast, Option.ite_none_right_eq_some] at h
  obtain ⟨⟨hlast, hclosers⟩, hnext⟩ := h
  refine ⟨hnext, ?_⟩
  cases a with
  | take data => simp [Careful, hclosers]
  | advance now failures =>
      intro w hbusy
      rw [hbusy, Option.all_some] at hlast
      exact Work.spares_of_isLast hlast
  | closeStep k now failures =>
      intro hk
      simp [hclosers] at hk
  | _ => exact trivial

end Client.Machine

theorem delivery_finds_buffer_data :
    (∃ hist m c, (Server.Machine.system plainPrimitives noCodecs Server.plainConfig).Run hist m ∧
      m.task = some (0, ⟨0, 1⟩, .delivering (.deliver 0 1 (some [65]) true) []) ∧
      m.server.heap[0]? = some c ∧ c.CanDeliver 0) ∧
    ∃ hist m, (Client.Machine.system Server.plainConfig.tick).Run hist m ∧
      m.task = some (.delivering (.deliver 0 1 (some [65]) true) []) ∧ m.conn.CanDeliver 0 := by
  obtain ⟨hserver, hclient⟩ := delivery_finds_buffer plainPrimitives noCodecs Server.plainConfig
    Server.plainConfig.tick
  constructor
  · have h : (System.exec Server.Machine.nextLast ⟨Server.empty, none, false, [], []⟩
        (Server.taking 1 Server.plainConnect :: Server.taking 1 Server.plainResponse ::
          Server.taking 1
          (Server.batchData [Server.sealPlain 2 Server.dataPlaintext]) ::
          List.replicate 3 (.advance 0 []))).any (fun m => m.server.heap[0]?.isSome && decide (
            m.task = some (0, ⟨0, 1⟩, .delivering (.deliver 0 1 (some [65]) true) []))) = true := by
      decide +kernel
    obtain ⟨m, hexec, hm⟩ := (Option.any_eq_true ..).mp h
    rw [Bool.and_eq_true, Option.isSome_iff_exists] at hm
    obtain ⟨⟨c, found⟩, hbusy⟩ := hm
    obtain ⟨hist, hrun, hcareful⟩ := System.Run.exec_checked
      (fun _ _ _ hnext => Server.Machine.nextLast_careful hnext) (.start rfl)
      (System.guarded_nil _) hexec
    exact ⟨hist, m, c, hrun, of_decide_eq_true hbusy, found,
      hserver hist m hrun hcareful _ _ _ _ _ _ _ c (of_decide_eq_true hbusy) found⟩
  · have h : (System.exec Client.Machine.nextLast Client.Machine.plain
        (.take Server.dataPlaintext :: List.replicate 3 (.advance 0 []))).any (fun m =>
          decide (m.task = some (.delivering (.deliver 0 1 (some [65]) true) []))) = true := by
      decide +kernel
    obtain ⟨m, hexec, hbusy⟩ := (Option.any_eq_true ..).mp h
    obtain ⟨hist, hrun, hcareful⟩ := System.Run.exec_checked
      (fun _ _ _ hnext => Client.Machine.nextLast_careful hnext) (.start ⟨_, _, rfl⟩)
      (System.guarded_nil _) hexec
    exact ⟨hist, m, hrun, of_decide_eq_true hbusy,
      hclient hist m hrun hcareful _ _ _ _ _ (of_decide_eq_true hbusy)⟩

/-- A data packet behind a disconnect in the same batch is delivered into a channel
that has been released, and so is a packet of a client that is closed between
`recordReceive` and `deliver`. Either kills the process. -/
theorem delivery_after_release :
    (∃ hist m c, (Server.Machine.system plainPrimitives noCodecs Server.plainConfig).Run hist m ∧
      m.task = some (0, ⟨0, 1⟩, .delivering (.deliver 0 1 (some [65]) true) []) ∧
      m.server.heap[0]? = some c ∧ ¬c.CanDeliver 0 ∧
      c.finish (.deliver 0 1 (some [65]) true) = .error .nilMapAssignment) ∧
    ∃ hist m, (Client.Machine.system Server.plainConfig.tick).Run hist m ∧
      m.task = some (.delivering (.deliver 0 1 (some [65]) true) []) ∧ ¬m.conn.CanDeliver 0 ∧
      m.conn.finish (.deliver 0 1 (some [65]) true) = .error .nilMapAssignment := by
  have hstuck : ∀ c : Connection, ((c.channel 0).any fun ch =>
      decide (ch.mode = .reliableOrdered ∧ ch.recvBuffer.isNone = true)) = true →
      ¬c.CanDeliver 0 ∧ c.finish (.deliver 0 1 (some [65]) true) = .error .nilMapAssignment := by
    intro c hc
    obtain ⟨ch, hch, hgone⟩ := (Option.any_eq_true ..).mp hc
    obtain ⟨hmode, hnone⟩ := of_decide_eq_true hgone
    rw [Option.isNone_iff_eq_none] at hnone
    refine ⟨fun hcan => hcan ch hch hmode hnone, ?_⟩
    simp [Connection.finish, hch, Channel.deliver, hmode, Channel.deliverReliableOrdered, hnone]
  constructor
  · have h : (Server.afterHandshake (Server.taking 1 (Server.batchData [Server.disconnectPacket 2,
        Server.sealPlain 3 Server.dataPlaintext]) :: List.replicate 5 (.advance 0 []))).any
          (fun m =>
          m.server.heap[0]?.any (fun c => decide (m.task =
            some (0, ⟨0, 1⟩, .delivering (.deliver 0 1 (some [65]) true) [])) &&
            (c.channel 0).any (fun ch =>
              decide (ch.mode = .reliableOrdered ∧ ch.recvBuffer.isNone = true)))) = true := by
      decide +kernel
    obtain ⟨hist, m, hrun, hm⟩ := Server.afterHandshake_run h
    obtain ⟨c, found, hc⟩ := (Option.any_eq_true ..).mp hm
    rw [Bool.and_eq_true] at hc
    exact ⟨hist, m, c, hrun, of_decide_eq_true hc.1, found, hstuck c hc.2⟩
  · have h : (System.exec (fun m a => m.next Server.plainConfig.tick a) Client.Machine.plain
        (.take Server.dataPlaintext :: List.replicate 3 (.advance 0 []) ++
          .closeCall :: List.replicate 2 (.closeStep 0 0 []))).any (fun m => decide (m.task =
            some (.delivering (.deliver 0 1 (some [65]) true) [])) &&
            (m.conn.channel 0).any (fun ch =>
              decide (ch.mode = .reliableOrdered ∧ ch.recvBuffer.isNone = true))) = true := by
      decide +kernel
    obtain ⟨hist, m, hrun, hm⟩ := Client.Machine.plain_run _ _ h
    rw [Bool.and_eq_true] at hm
    exact ⟨hist, m, hrun, of_decide_eq_true hm.1, hstuck m.conn hm.2⟩

end Fastwire
