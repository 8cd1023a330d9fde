/-
# The last callback

`OnDisconnect` should be the last thing an application hears of a connection.
Every teardown path reports it without looking whether another one has, so this
depends on what can still happen to the connection afterwards: packets behind
the disconnect in the same batch, a second `Stop`, a `Client.Close` in the middle
of a tick. Where none of these happens the discipline holds. That a disconnected
connection stays disconnected holds always.
-/

import Fastwire.Endpoint.Basic
import Fastwire.Interleaving.Client
import Fastwire.Interleaving.Server

namespace Fastwire

open Crypto Lib

/-! ## Callbacks of one connection -/

def Event.isCallback : Event → Bool
  | .onMessage _ _ => true
  | .onError _ => true
  | .onDisconnect _ => true
  | _ => false

/-- `OnDisconnect` is called at most once, and nothing is called after it. -/
structure Disciplined (callbacks : List Event) : Prop where
  once : (callbacks.filter Event.isDisconnect).length ≤ 1
  last : ∀ before reason after, callbacks = before ++ .onDisconnect reason :: after → after = []

/-- No disconnect has been reported. -/
def Silent (events : List Event) : Prop := ∀ ev ∈ events, ev.isDisconnect = false

/-- Nothing follows a disconnect. -/
def LastWord (events : List Event) : Prop :=
  events.Pairwise fun ev _ => ev.isDisconnect = false

theorem Silent.lastWord {events : List Event} (h : Silent events) : LastWord events := by
  refine List.Pairwise.imp_of_mem ?_ (List.pairwise_of_forall (R := fun _ _ => True) (by simp))
  intro ev ev' hev _ _
  exact h ev hev

/-- A call continues a silent history well. -/
theorem Lifecycle.lastWord {c c' : Connection} {log events : List Event}
    (h : Lifecycle c c' events) (hsilent : Silent log) : LastWord (log ++ events) := by
  cases h with
  | goesOn quiet life_eq =>
      refine Silent.lastWord fun ev hev => ?_
      exact (List.mem_append.mp hev).elim (hsilent ev) (quiet ev)
  | ends before reason events_eq quiet state_eq modes_eq =>
      have hbefore : Silent (log ++ before) := fun ev hev =>
        (List.mem_append.mp hev).elim (hsilent ev) (quiet ev)
      rw [events_eq, ← List.append_assoc]
      refine List.pairwise_append.mpr ⟨hbefore.lastWord, List.pairwise_singleton _ _, ?_⟩
      intro ev hev _ _
      exact hbefore ev hev

/-- It goes on silently, or the connection has ended. -/
theorem Lifecycle.silent_or_ended {c c' : Connection} {log events : List Event}
    (h : Lifecycle c c' events) (hsilent : Silent log) :
    Silent (log ++ events) ∨
      events.any Event.isDisconnect = true ∧ c'.state = .disconnected := by
  cases hany : events.any Event.isDisconnect with
  | false =>
      have hquiet : Silent events := by simpa [Silent] using hany
      exact .inl fun ev hev => (List.mem_append.mp hev).elim (hsilent ev) (hquiet ev)
  | true => exact .inr ⟨rfl, h.state_of_any hany⟩

theorem LastWord.disciplined {events : List Event} (h : LastWord events) :
    Disciplined (events.filter Event.isCallback) := by
  have hcallbacks : LastWord (events.filter Event.isCallback) := h.filter _
  refine ⟨?_, ?_⟩
  · have honly : LastWord ((events.filter Event.isCallback).filter Event.isDisconnect) :=
      hcallbacks.filter _
    match hfilter : (events.filter Event.isCallback).filter Event.isDisconnect with
    | [] => simp
    | [ev] => simp
    | ev :: ev' :: rest =>
        rw [hfilter] at honly
        have hmem : ev ∈ (events.filter Event.isCallback).filter Event.isDisconnect := by
          simp [hfilter]
        have hdisconnect := (List.mem_filter.mp hmem).2
        rw [(List.pairwise_cons.mp honly).1 ev' List.mem_cons_self] at hdisconnect
        cases hdisconnect
  · intro before reason after heq
    rw [heq] at hcallbacks
    have hrest := (List.pairwise_cons.mp (List.pairwise_append.mp hcallbacks).2.1).1
    cases after with
    | nil => rfl
    | cons ev after => cases hrest ev List.mem_cons_self

/-- A packet that ends the connection is the last of its datagram. -/
def Work.EndsAlone (c : Connection) : Work → Prop
  | .handling plaintext rest => c.endedBy plaintext = true → rest = []
  | _ => True

/-- What ends a connection under this condition leaves nothing to do. -/
theorem Work.EndsAlone.done {c c' : Connection} {cfg : TickConfig} {s s' : Socket} {now : ℤ}
    {w : Work} {w' : Option Work} {events : List Event} (halone : w.EndsAlone c)
    (hok : w.advance c cfg s now = .ok (c', s', w', events))
    (hany : events.any Event.isDisconnect = true) : w' = none := by
  rcases Work.advance_ends hok hany with ⟨plaintext, rest, rfl, hends, rfl⟩ | ⟨-, hdone⟩
  · rw [halone hends]
    rfl
  · exact hdone

/-! ## Servers -/

/-- What a report says about the connection. -/
def ServerEvent.about (i : ℕ) : ServerEvent → Option Event
  | .conn j ev => if j = i then some ev else none
  | _ => none

namespace Server

def connEvents (i : ℕ) (log : List ServerEvent) : List Event :=
  log.filterMap (ServerEvent.about i)

section

variable {i j : ℕ} (log : List ServerEvent)

theorem connEvents_quiet {events : List ServerEvent} (hquiet : ∀ ev ∈ events, ev.isConn = false) :
    connEvents i (log ++ events) = connEvents i log := by
  have hnil : events.filterMap (ServerEvent.about i) = [] := by
    rw [List.filterMap_eq_nil_iff]
    intro ev hev
    cases ev with
    | conn j event => cases hquiet _ hev
    | _ => rfl
  rw [connEvents, List.filterMap_append, hnil, List.append_nil]
  rfl

theorem connEvents_self (events : List Event) :
    connEvents i (log ++ events.map (.conn i)) = connEvents i log ++ events := by
  have hself : (events.map (.conn i)).filterMap (ServerEvent.about i) = events := by
    rw [List.filterMap_map]
    refine (List.filterMap_congr ?_).trans List.filterMap_some
    intro ev _
    simp [ServerEvent.about]
  rw [connEvents, List.filterMap_append, hself]
  rfl

theorem connEvents_other (hji : j ≠ i) (events : List Event) :
    connEvents i (log ++ events.map (.conn j)) = connEvents i log := by
  have hnil : (events.map (.conn j)).filterMap (ServerEvent.about i) = [] := by
    rw [List.filterMap_eq_nil_iff]
    intro ev hev
    obtain ⟨event, -, rfl⟩ := List.mem_map.mp hev
    exact if_neg hji
  rw [connEvents, List.filterMap_append, hnil, List.append_nil]
  rfl

/-- What one section of the work on a connection adds. -/
theorem connEvents_advance (j : ℕ) (nonce : Option ℕ) (addr remote : AddrPort)
    (written : List Bytes) (events : List Event) :
    connEvents i (log ++ (nonce.map fun nonce => ServerEvent.opened j nonce addr).toList ++
        (written.map (.sent remote) ++ events.map (.conn j))) =
      connEvents i log ++ if j = i then events else [] := by
  have hquiet : ∀ ev ∈ (nonce.map fun nonce => ServerEvent.opened j nonce addr).toList ++
      written.map (.sent remote), ev.isConn = false := by
    intro ev hev
    rcases List.mem_append.mp hev with hev | hev
    · obtain ⟨nonce, -, rfl⟩ := Option.map_eq_some_iff.mp (Option.mem_toList.mp hev)
      rfl
    · obtain ⟨data, -, rfl⟩ := List.mem_map.mp hev
      rfl
  have hlog := connEvents_quiet (i := i) log hquiet
  rw [← List.append_assoc] at hlog ⊢
  split
  · rename_i hji
    subst hji
    rw [connEvents_self, hlog]
  · rename_i hji
    rw [connEvents_other _ hji, hlog, List.append_nil]

theorem connEvents_eventsOf : connEvents i (eventsOf i log) = connEvents i log := by
  rw [connEvents, eventsOf, List.filterMap_filter]
  congr 1
  funext ev
  cases ev with
  | conn j event => by_cases hji : j = i <;> simp [ServerEvent.about, ServerEvent.owner, hji]
  | _ => simp [ServerEvent.about]

end

namespace Machine

/-- Every disconnect packet is the last of its datagram, and `Stop` is called once
and not in the middle of a tick. -/
def Orderly {P : Primitives} (m : Machine) : Action P → Prop
  | .advance _ _ => ∀ i addr w c, m.task = some (i, addr, w) → m.server.heap[i]? = some c →
      w.EndsAlone c
  | .stop => m.task = none ∧ m.closed = false
  | .visit _ => m.task = none
  | _ => True

/-- Nothing will be reported about the connection any more. -/
structure Over (m : Machine) (i : ℕ) : Prop where
  disconnected : m.server.Disconnected i
  idle : ∀ addr w, m.task = some (i, addr, w) → w = .ticking .disconnected
  visited : m.server.Registered i → m.closed = true ∧ i ∉ m.visits

/-- A connection about which a disconnect was reported is over, and that report was
the last. -/
structure Settled (m : Machine) : Prop extends Consistent m where
  visits_nodup : m.visits.Nodup
  lastWord : ∀ i, LastWord (connEvents i m.log)
  ended : ∀ i, Silent (connEvents i m.log) ∨ m.Over i

section

variable {P : Primitives} {codecs : Codecs} {config : ServerConfig} {m m' : Machine} {i : ℕ}

/-- What is over stays so, and nothing is reported. -/
theorem Over.next (h : m.Over i) (hconsistent : m.Consistent) {a : Action P}
    (horderly : m.Orderly a) (hnext : m.next P codecs config a = some m') :
    m'.Over i ∧ connEvents i m'.log = connEvents i m.log := by
  obtain ⟨⟨c, found, hstate⟩, hidle, hvisited⟩ := h
  cases a with
  | take now addr data random allowed =>
      obtain ⟨-, hopen, result, htaken, rfl⟩ := take_inv hconsistent.sound hnext
      have hout : ¬m.server.Registered i := fun hreg => by simp [(hvisited hreg).1] at hopen
      obtain ⟨found', -, hreg⟩ := (htaken.changes m.log).untouched hout found
      refine ⟨⟨⟨c, found', hstate⟩, ?_, fun hreg' => absurd (hreg hreg') hout⟩,
        connEvents_quiet _ htaken.quiet⟩
      intro addr' w' hbusy
      exact absurd (htaken.held hconsistent.sound hbusy).1 hout
  | tick j =>
      obtain ⟨-, d, hd, rfl⟩ := tick_inv hnext
      refine ⟨⟨⟨c, found, hstate⟩, ?_, hvisited⟩, rfl⟩
      rintro addr' w' ⟨⟩
      obtain rfl : c = d := Option.some.inj (found.symm.trans hd)
      rw [hstate]
  | advance now failures =>
      obtain ⟨j, addr, w, d, d', socket, w', events, hbusy, hd, hok, rfl⟩ := advance_inv hnext
      by_cases hji : j = i
      · subst hji
        obtain rfl := hidle addr w hbusy
        obtain rfl : c = d := Option.some.inj (found.symm.trans hd)
        cases hok
        rw [settle_quiet rfl, setConn_self found]
        refine ⟨⟨⟨c, found, hstate⟩, by simp, hvisited⟩, ?_⟩
        simp [Work.opening]
      · have hchanges : Changes P codecs (fun _ _ => True) (Eq j) addr ⟨m.server, m.log⟩ _ :=
          advance_changes rfl hd (hconsistent.held hbusy).2 hok addr m.log
        obtain ⟨found', hlog, hreg⟩ := hchanges.untouched hji found
        refine ⟨⟨⟨c, found', hstate⟩, ?_, hvisited ∘ hreg⟩, ?_⟩
        · intro addr' v hbusy'
          obtain ⟨v', -, heq⟩ := Option.map_eq_some_iff.mp hbusy'
          exact absurd (congrArg Prod.fst heq) hji
        · rw [← connEvents_eventsOf, hlog, connEvents_eventsOf]
  | call move =>
      obtain ⟨hcall, result, hok, rfl⟩ := call_inv hnext
      have hkept := step_kept hcall hok
      obtain ⟨c', found', -, -, hstays⟩ := hkept.heap found
      refine ⟨⟨⟨c', found', hstays hstate⟩, hidle, ?_⟩, connEvents_quiet _ hkept.quiet⟩
      rintro ⟨a, ha⟩
      rw [hkept.conns_eq] at ha
      exact hvisited ⟨a, ha⟩
  | stop =>
      cases hnext
      refine ⟨⟨⟨c, found, hstate⟩, hidle, ?_⟩, rfl⟩
      intro hreg
      have hopen : m.closed = false := horderly.2
      simp [(hvisited hreg).1] at hopen
  | visit k =>
      obtain ⟨j, d, hj, hd, hvisit⟩ := visit_inv hnext
      have hmem : j ∈ m.visits := List.mem_of_getElem? hj
      have hsub : ∀ {x}, x ∉ m.visits → x ∉ m.visits.eraseIdx k :=
        fun hx hx' => hx (List.mem_of_mem_eraseIdx hx')
      rcases hvisit with ⟨registered, rfl⟩ | rfl
      · have hji : j ≠ i := by
          rintro rfl
          exact (hvisited ⟨_, registered⟩).2 hmem
        refine ⟨⟨⟨c, ?_, hstate⟩, hidle, fun hreg => (hvisited hreg).imp_right hsub⟩, ?_⟩
        · rwa [setConn, List.getElem?_set_ne hji]
        · exact connEvents_other m.log hji [.onDisconnect .graceful]
      · exact ⟨⟨⟨c, found, hstate⟩, hidle, fun hreg => (hvisited hreg).imp_right hsub⟩, rfl⟩

/-- A torn down connection is in the table no more. -/
theorem not_registered_settle {s : Server} (hsound : s.Sound) {c c' : Connection}
    (found : s.heap[i]? = some c) (haddr : c'.remoteAddr = c.remoteAddr) {events : List Event}
    (hany : events.any Event.isDisconnect = true) : ¬(s.settle i c' events).1.Registered i := by
  rintro ⟨a, ha⟩
  simp only [settle, hany, if_true, removeConnection] at ha
  rw [Table.lookup_erase_eq, haddr] at ha
  split at ha
  · cases ha
  · rename_i hne
    obtain ⟨d, hd, rfl⟩ := hsound.conns_addr ha
    obtain rfl : c = d := Option.some.inj (found.symm.trans hd)
    exact hne rfl

/-- A section of work on a connection of which nothing was heard. -/
theorem Settled.silent_advance (h : m.Settled) (hsilent : Silent (connEvents i m.log)) {now : ℤ}
    {failures : List Bool} (horderly : m.Orderly (.advance now failures : Action P))
    (hnext : m.next P codecs config (.advance now failures) = some m') :
    LastWord (connEvents i m'.log) ∧ (Silent (connEvents i m'.log) ∨ m'.Over i) := by
  obtain ⟨j, addr, w, c, c', socket, w', events, hbusy, found, hok, rfl⟩ := advance_inv hnext
  dsimp only
  rw [connEvents_advance]
  by_cases hji : j = i
  · subst hji
    rw [if_pos rfl]
    have hlife := Work.advance_lifecycle hok
    refine ⟨hlife.lastWord hsilent, (hlife.silent_or_ended hsilent).imp_right ?_⟩
    rintro ⟨hany, hstate⟩
    have hdone := (horderly j addr w c hbusy found).done hok hany
    refine ⟨⟨c', ?_, hstate⟩, by simp [hdone], fun hreg => absurd hreg ?_⟩
    · dsimp only
      rw [settle_heap, List.getElem?_set_self (List.getElem?_eq_some_iff.mp found).1]
    · exact not_registered_settle h.sound found (Work.advance_remoteAddr hok) hany
  · rw [if_neg hji, List.append_nil]
    exact ⟨hsilent.lastWord, .inl hsilent⟩

/-- `Stop` comes to a connection of which nothing was heard. -/
theorem Settled.silent_visit (h : m.Settled) (hsilent : Silent (connEvents i m.log)) {k : ℕ}
    (horderly : m.Orderly (.visit k : Action P))
    (hnext : m.next P codecs config (.visit k) = some m') :
    LastWord (connEvents i m'.log) ∧ (Silent (connEvents i m'.log) ∨ m'.Over i) := by
  obtain ⟨j, c, hj, found, ⟨-, rfl⟩ | rfl⟩ := visit_inv hnext
  · by_cases hji : j = i
    · subst hji
      have heq := connEvents_self (i := j) m.log [.onDisconnect .graceful]
      refine ⟨?_, .inr ⟨⟨c.shutDown, setConn_getElem found, rfl⟩, ?_, fun _ => ⟨?_, ?_⟩⟩⟩
      · exact heq ▸ (c.shutDown_lifecycle .graceful).lastWord hsilent
      · intro addr w hbusy
        have hidle : m.task = none := horderly
        simp [hidle] at hbusy
      · exact h.visits_closed (List.ne_nil_of_mem (List.mem_of_getElem? hj))
      · intro hmem
        -- the list of visits names nobody twice
        obtain ⟨k', hk', hj'⟩ := List.mem_eraseIdx_iff_getElem?.mp hmem
        have hlt : k' < m.visits.length := (List.getElem?_eq_some_iff.mp hj').1
        exact hk' ((List.getElem?_inj hlt h.visits_nodup).mp (hj'.trans hj.symm))
    · have heq := connEvents_other m.log hji [.onDisconnect .graceful]
      exact heq ▸ ⟨hsilent.lastWord, .inl hsilent⟩
  · exact ⟨hsilent.lastWord, .inl hsilent⟩

/-- As long as no disconnect was reported, the first one is the end. -/
theorem Settled.silent_next (h : m.Settled) (hsilent : Silent (connEvents i m.log)) {a : Action P}
    (horderly : m.Orderly a) (hnext : m.next P codecs config a = some m') :
    LastWord (connEvents i m'.log) ∧ (Silent (connEvents i m'.log) ∨ m'.Over i) := by
  have hsame : connEvents i m'.log = connEvents i m.log →
      LastWord (connEvents i m'.log) ∧ (Silent (connEvents i m'.log) ∨ m'.Over i) := by
    intro heq
    rw [heq]
    exact ⟨hsilent.lastWord, .inl hsilent⟩
  cases a with
  | take now addr data random allowed =>
      obtain ⟨-, -, result, htaken, rfl⟩ := take_inv h.sound hnext
      exact hsame (connEvents_quiet _ htaken.quiet)
  | tick j =>
      obtain ⟨-, d, hd, rfl⟩ := tick_inv hnext
      exact hsame rfl
  | advance now failures => exact h.silent_advance hsilent horderly hnext
  | call move =>
      obtain ⟨hcall, result, hok, rfl⟩ := call_inv hnext
      exact hsame (connEvents_quiet _ (step_kept hcall hok).quiet)
  | stop =>
      cases hnext
      exact hsame rfl
  | visit k => exact h.silent_visit hsilent horderly hnext

theorem registered_nodup {s : Server} (hsound : s.Sound) : s.registered.Nodup := by
  refine List.Nodup.filterMap ?_ s.conns.keys_nodup
  intro a b i ha hb
  obtain ⟨c, hc, rfl⟩ := hsound.conns_addr ha
  obtain ⟨d, hd, rfl⟩ := hsound.conns_addr hb
  obtain rfl : c = d := Option.some.inj (hc.symm.trans hd)
  rfl

theorem Settled.visits_next (h : m.Settled) {a : Action P} (horderly : m.Orderly a)
    (hnext : m.next P codecs config a = some m') : m'.visits.Nodup := by
  cases a with
  | take now addr data random allowed =>
      obtain ⟨-, -, result, -, rfl⟩ := take_inv h.sound hnext
      exact h.visits_nodup
  | tick j =>
      obtain ⟨-, d, -, rfl⟩ := tick_inv hnext
      exact h.visits_nodup
  | advance now failures =>
      obtain ⟨j, addr, w, c, c', socket, w', events, -, -, -, rfl⟩ := advance_inv hnext
      exact h.visits_nodup
  | call move =>
      obtain ⟨-, result, -, rfl⟩ := call_inv hnext
      exact h.visits_nodup
  | stop =>
      cases hnext
      have hfirst : m.visits = [] := by
        by_contra hne
        have hopen : m.closed = false := horderly.2
        rw [h.visits_closed hne] at hopen
        cases hopen
      simpa [hfirst] using registered_nodup h.sound
  | visit k =>
      obtain ⟨j, c, -, -, ⟨-, rfl⟩ | rfl⟩ := visit_inv hnext
      · exact h.visits_nodup.eraseIdx k
      · exact h.visits_nodup.eraseIdx k

theorem Settled.next (h : m.Settled) {a : Action P} (horderly : m.Orderly a)
    (hnext : m.next P codecs config a = some m') : m'.Settled := by
  have hall : ∀ i, LastWord (connEvents i m'.log) ∧
      (Silent (connEvents i m'.log) ∨ m'.Over i) := by
    intro i
    rcases h.ended i with hsilent | hover
    · exact h.silent_next hsilent horderly hnext
    · obtain ⟨hover', heq⟩ := hover.next h.toConsistent horderly hnext
      rw [heq]
      exact ⟨h.lastWord i, .inr hover'⟩
  exact ⟨h.toConsistent.next hnext, h.visits_next horderly hnext, fun i => (hall i).1,
    fun i => (hall i).2⟩

theorem settled_of_run {hist : List (Machine × Action P)}
    (hrun : (system P codecs config).Run hist m) (horderly : System.Guarded Orderly hist) :
    m.Settled := by
  refine hrun.guarded_invariant ?_ (fun _ m a m' _ h horderly hstep => h.next horderly hstep)
    horderly
  rintro m rfl
  have hsilent : ∀ i, Silent (connEvents i []) := fun i => by simp [Silent, connEvents]
  exact ⟨⟨sound_empty, by simp, by simp⟩, List.nodup_nil, fun i => (hsilent i).lastWord,
    fun i => .inl (hsilent i)⟩

theorem disconnected_of_run {hist : List (Machine × Action P)}
    (hrun : (system P codecs config).Run hist m) :
    ∀ earlier ∈ hist, ∀ i, earlier.1.server.Disconnected i → m.server.Disconnected i := by
  induction hrun with
  | start starts => simp
  | @step hist m m' a prior taken ih =>
      intro earlier hearlier i hdead
      refine (consistent_of_run prior).disconnected taken ?_
      rcases List.mem_cons.mp hearlier with rfl | hearlier
      · exact hdead
      · exact ih earlier hearlier i hdead

end

end Machine

end Server

/-! ## Clients -/

namespace Client.Machine

/-- Every disconnect packet is the last of its datagram, and `Client.Close` overlaps
neither with a tick nor with another `Client.Close`. -/
def Orderly (m : Machine) : Action → Prop
  | .take _ => m.closers = []
  | .tick => m.closers = []
  | .advance _ _ => ∀ w, m.task = some w → w.EndsAlone m.conn
  | .closeCall => m.closers = [] ∧ m.task = none
  | _ => True

/-- Nothing will be reported any more. -/
structure Over (m : Machine) : Prop where
  disconnected : m.conn.state = .disconnected
  cleared : m.server = false
  idle : ∀ w, m.task = some w → w = .ticking .disconnected
  closers_nil : m.closers = []

/-- What a call of `Client.Close` has done so far. -/
def Closer.Reached (m : Machine) : Closer → Prop
  | .clearing => m.conn.state = .disconnected
  | .reporting => m.conn.state = .disconnected ∧ m.server = false
  | _ => True

/-- At most one call of `Client.Close` is under way, and then nothing else is. -/
structure Settled (m : Machine) : Prop where
  lastWord : LastWord m.log
  ended : Silent m.log ∨ m.Over
  closing : m.closers = [] ∨
    m.task = none ∧ ∃ closer, m.closers = [closer] ∧ Closer.Reached m closer

section

variable {cfg : TickConfig} {m m' : Machine}

/-- A call of the application changes nothing that counts. -/
theorem Settled.kept (h : m.Settled) {c : Connection} (hkept : Kept m.conn c) :
    Settled { m with conn := c } := by
  refine ⟨h.lastWord, h.ended.imp_right ?_, h.closing.imp_right ?_⟩
  · intro hover
    exact ⟨hkept.stays hover.disconnected, hover.cleared, hover.idle, hover.closers_nil⟩
  · rintro ⟨hidle, closer, hclosers, hreached⟩
    refine ⟨hidle, closer, hclosers, ?_⟩
    cases closer with
    | clearing => exact hkept.stays hreached
    | reporting => exact hreached.imp_left hkept.stays
    | _ => exact trivial

theorem Settled.closeStep (h : m.Settled) {k : ℕ} {closer : Closer}
    (hk : m.closers[k]? = some closer) (now : ℤ) (failures : List Bool) :
    (m.closeStep k now failures closer).Settled := by
  have hnil : m.closers ≠ [] := List.ne_nil_of_mem (List.mem_of_getElem? hk)
  have hsilent : Silent m.log := h.ended.resolve_right fun hover => hnil hover.closers_nil
  obtain ⟨hidle, only, hclosers, hreached⟩ := h.closing.resolve_left hnil
  -- there is only the one call
  obtain ⟨rfl, rfl⟩ : k = 0 ∧ only = closer := by
    rw [hclosers] at hk
    cases k with
    | zero => exact ⟨rfl, Option.some.inj hk⟩
    | succ k => cases hk
  cases only with
  | closing =>
      exact ⟨h.lastWord, .inl hsilent, .inr
        ⟨hidle, .releasing, by simp [hclosers, Machine.closeStep],
        trivial⟩⟩
  | releasing =>
      exact ⟨h.lastWord, .inl hsilent, .inr ⟨hidle, .marking, by simp [hclosers, Machine.closeStep],
        trivial⟩⟩
  | marking =>
      exact ⟨h.lastWord, .inl hsilent, .inr
        ⟨hidle, .clearing, by simp [hclosers, Machine.closeStep],
        rfl⟩⟩
  | clearing =>
      exact ⟨h.lastWord, .inl hsilent, .inr
        ⟨hidle, .reporting, by simp [hclosers, Machine.closeStep],
        hreached, rfl⟩⟩
  | reporting =>
      have hlife := m.conn.shutDown_lifecycle .graceful
      have hclosed : m.closers.eraseIdx 0 = [] := by simp [hclosers]
      refine ⟨hlife.lastWord hsilent, .inr ⟨hreached.1, hreached.2, ?_, hclosed⟩, .inl hclosed⟩
      intro w hbusy
      have hnone : m.task = some w := hbusy
      simp [hidle] at hnone

theorem Settled.next (h : m.Settled) {a : Action} (horderly : m.Orderly a)
    (hnext : m.next cfg a = some m') : m'.Settled := by
  cases a with
  | take data =>
      obtain ⟨-, rfl⟩ := take_inv hnext
      refine ⟨h.lastWord, h.ended.imp_right ?_, .inl horderly⟩
      intro hover
      exact ⟨hover.disconnected, hover.cleared, by simp [hover.cleared], hover.closers_nil⟩
  | tick =>
      obtain ⟨-, rfl⟩ := tick_inv hnext
      refine ⟨h.lastWord, h.ended.imp_right ?_, .inl horderly⟩
      intro hover
      exact ⟨hover.disconnected, hover.cleared, by simp [hover.cleared], hover.closers_nil⟩
  | advance now failures =>
      obtain ⟨w, c, socket, w', events, hbusy, hok, rfl⟩ := advance_inv hnext
      have hclosers : m.closers = [] := by
        rcases h.closing with hnil | ⟨hidle, -⟩
        · exact hnil
        · simp [hidle] at hbusy
      rcases h.ended with hsilent | hover
      · have hlife := Work.advance_lifecycle hok
        refine ⟨hlife.lastWord hsilent, (hlife.silent_or_ended hsilent).imp_right ?_,
          .inl hclosers⟩
        rintro ⟨hany, hstate⟩
        have hdone := (horderly w hbusy).done hok hany
        exact ⟨hstate, by simp [hany], by simp [hdone], hclosers⟩
      · obtain rfl := hover.idle w hbusy
        cases hok
        exact ⟨by simpa using h.lastWord, .inr
          ⟨hover.disconnected, by simp [hover.cleared], by simp,
          hclosers⟩, .inl hclosers⟩
  | close now failures =>
      cases hnext
      exact h.kept (close_kept _ _ now)
  | sendImmediate now data channel failures =>
      cases hnext
      exact h.kept (sendImmediate_kept _ _ data channel now)
  | send data channel =>
      cases hnext
      exact h.kept (enqueueSend_kept _ data channel)
  | closeCall =>
      cases hnext
      refine ⟨h.lastWord, h.ended.imp_right ?_, ?_⟩
      · intro hover
        exact ⟨hover.disconnected, hover.cleared, hover.idle,
          by simp [hover.cleared, hover.closers_nil]⟩
      · obtain ⟨hnil, hidle⟩ := horderly
        cases hserver : m.server with
        | false => exact .inl (by simp [hnil])
        | true => exact .inr ⟨hidle, .closing, by simp [hnil], trivial⟩
  | closeStep k now failures =>
      obtain ⟨closer, hk, rfl⟩ := closeStep_inv hnext
      exact h.closeStep hk now failures

theorem settled_of_run {hist : List (Machine × Action)} (hrun : (system cfg).Run hist m)
    (horderly : System.Guarded Orderly hist) : m.Settled := by
  refine hrun.guarded_invariant ?_ (fun _ m a m' _ h horderly hstep => h.next horderly hstep)
    horderly
  rintro m ⟨input, now, rfl⟩
  have hsilent : Silent [] := by simp [Silent]
  exact ⟨hsilent.lastWord, .inl hsilent, .inl rfl⟩

theorem disconnected_of_run {hist : List (Machine × Action)} (hrun : (system cfg).Run hist m) :
    ∀ earlier ∈ hist, earlier.1.conn.state = .disconnected → m.conn.state = .disconnected := by
  induction hrun with
  | start starts => simp
  | @step hist m m' a prior taken ih =>
      intro earlier hearlier hstate
      refine disconnected_next taken ?_
      rcases List.mem_cons.mp hearlier with rfl | hearlier
      · exact hstate
      · exact ih earlier hearlier hstate

end

end Client.Machine

/-! ## The discipline -/

/-- In every run of a server or a client in which disconnects are the last packets of
their datagrams and teardowns do not overlap, `OnDisconnect` comes once and last;
and in every run at all a connection that is disconnected stays so. -/
theorem callback_discipline (P : Primitives) (codecs : Codecs) (config : ServerConfig)
    (cfg : TickConfig) :
    (∀ hist m, (Server.Machine.system P codecs config).Run hist m →
      (System.Guarded Server.Machine.Orderly hist →
        ∀ i, Disciplined ((Server.connEvents i m.log).filter Event.isCallback)) ∧
      ∀ earlier ∈ hist, ∀ i, earlier.1.server.Disconnected i → m.server.Disconnected i) ∧
    ∀ hist m, (Client.Machine.system cfg).Run hist m →
      (System.Guarded Client.Machine.Orderly hist →
        Disciplined (m.log.filter Event.isCallback)) ∧
      ∀ earlier ∈ hist, earlier.1.conn.state = .disconnected → m.conn.state = .disconnected := by
  constructor
  · intro hist m hrun
    refine ⟨?_, Server.Machine.disconnected_of_run hrun⟩
    intro horderly i
    exact ((Server.Machine.settled_of_run hrun horderly).lastWord i).disciplined
  · intro hist m hrun
    refine ⟨?_, Client.Machine.disconnected_of_run hrun⟩
    intro horderly
    exact (Client.Machine.settled_of_run hrun horderly).lastWord.disciplined

namespace Server

/-- A datagram arrives at time zero and is taken. -/
def taking (port : UInt16) (data : Bytes) : Action plainPrimitives :=
  .take 0 ⟨0, port⟩ data plainRandom true

def batchData (packets : List Bytes) : Bytes :=
  List.replicate 8 3 ++ UInt8.ofNat packets.length :: packets.flatMap batchEntry

def disconnectPacket (nonce : ℕ) : Bytes :=
  sealPlain nonce (Connection.disconnectPlaintext.toOption.getD [])

def afterHandshake (actions : List (Action plainPrimitives)) : Option Machine :=
  System.exec (fun m a => m.next plainPrimitives noCodecs plainConfig a)
    ⟨empty, none, false, [], []⟩ (taking 1 plainConnect :: taking 1 plainResponse :: actions)

theorem afterHandshake_run {actions : List (Action plainPrimitives)} {P : Machine → Bool}
    (h : (afterHandshake actions).any P = true) :
    ∃ hist m, (Machine.system plainPrimitives noCodecs plainConfig).Run hist m ∧ P m = true :=
  System.exists_run (fun _ _ _ hnext => hnext) rfl _ P h

end Server

namespace Client.Machine

/-- A client on a channel without encryption. -/
def plain : Machine := ⟨newConnection (plainInput [(.reliableOrdered, 0)]) 0, true, none, [], []⟩

def wholeClose : List Action := .closeCall :: List.replicate 5 (.closeStep 0 0 [])

theorem plain_run (actions : List Action) (P : Machine → Bool)
    (h : (System.exec (fun m a => m.next Server.plainConfig.tick a) plain actions).any P = true) :
    ∃ hist m, (system Server.plainConfig.tick).Run hist m ∧ P m = true :=
  System.exists_run (S := system Server.plainConfig.tick) (fun _ _ _ hnext => hnext)
    ⟨_, _, rfl⟩ actions P h

end Client.Machine

theorem callback_discipline_stop_close :
    (∃ hist m, (Server.Machine.system plainPrimitives noCodecs Server.plainConfig).Run hist m ∧
      (Server.connEvents 0 m.log).filter Event.isCallback = [.onDisconnect .graceful] ∧
      Disciplined ((Server.connEvents 0 m.log).filter Event.isCallback)) ∧
    ∃ hist m, (Client.Machine.system Server.plainConfig.tick).Run hist m ∧
      m.log = [.onDisconnect .graceful] ∧ Disciplined (m.log.filter Event.isCallback) := by
  obtain ⟨hserver, hclient⟩ := callback_discipline plainPrimitives noCodecs Server.plainConfig
    Server.plainConfig.tick
  constructor
  · have h : (Server.afterHandshake []).any (fun m => m.task.isNone && !m.closed &&
        (System.exec (fun m a => m.next plainPrimitives noCodecs Server.plainConfig a) m
          [.stop, .visit 0]).any (fun m => decide (
            (Server.connEvents 0 m.log).filter Event.isCallback = [.onDisconnect .graceful]))) =
        true := by
      decide +kernel
    obtain ⟨m, hexec, hm⟩ := (Option.any_eq_true ..).mp h
    simp only [Bool.and_eq_true, Bool.not_eq_true', Option.isNone_iff_eq_none] at hm
    obtain ⟨⟨hidle, hopen⟩, hrest⟩ := hm
    obtain ⟨m', hexec', hcallbacks⟩ := (Option.any_eq_true ..).mp hrest
    simp only [System.exec, Option.bind_eq_some_iff, Option.some.injEq] at hexec'
    obtain ⟨m₁, hstop, m₂, hvisit, rfl⟩ := hexec'
    obtain ⟨hist, hrun, horderly⟩ := System.Run.exec_guarded
      (S := Server.Machine.system plainPrimitives noCodecs Server.plainConfig)
      (fun _ _ _ hnext => hnext) (.start rfl)
      (System.guarded_nil Server.Machine.Orderly) (by simp [Server.taking, Server.Machine.Orderly])
      hexec
    have hidle₁ : m₁.task = none := by
      cases hstop
      exact hidle
    have hrun' := (hrun.step hstop).step hvisit
    refine ⟨_, m₂, hrun', of_decide_eq_true hcallbacks, (hserver _ m₂ hrun').1 ?_ 0⟩
    rw [System.guarded_cons, System.guarded_cons]
    exact ⟨hidle₁, ⟨hidle, hopen⟩, horderly⟩
  · have h : (System.exec (fun m a => m.next Server.plainConfig.tick a) Client.Machine.plain
        Client.Machine.wholeClose).any (fun m => decide (m.log = [.onDisconnect .graceful])) =
        true := by
      decide +kernel
    obtain ⟨m, hexec, hm⟩ := (Option.any_eq_true ..).mp h
    simp only [Client.Machine.wholeClose, System.exec, Option.bind_eq_some_iff] at hexec
    obtain ⟨m₁, hcall, hsteps⟩ := hexec
    have hstart : (Client.Machine.system Server.plainConfig.tick).Run [] Client.Machine.plain :=
      .start ⟨_, _, rfl⟩
    have horderly : System.Guarded Client.Machine.Orderly [(Client.Machine.plain, .closeCall)] := by
      rw [System.guarded_cons]
      exact ⟨⟨rfl, rfl⟩, System.guarded_nil _⟩
    obtain ⟨hist, hrun, horderly'⟩ := (hstart.step hcall).exec_guarded (fun _ _ _ hnext => hnext)
      horderly (by simp [Client.Machine.Orderly]) hsteps
    exact ⟨hist, m, hrun, of_decide_eq_true hm, (hclient hist m hrun).1 horderly'⟩

/-- Two disconnects in one batch report a disconnect twice, and so does a second
`Stop`; a `Client.Close` in the middle of a tick is followed by an error. -/
theorem disconnect_not_last :
    (∃ hist m, (Server.Machine.system plainPrimitives noCodecs Server.plainConfig).Run hist m ∧
      m.closed = false ∧ ¬Disciplined ((Server.connEvents 0 m.log).filter Event.isCallback)) ∧
    (∃ hist m, (Server.Machine.system plainPrimitives noCodecs Server.plainConfig).Run hist m ∧
      m.closed = true ∧ ¬Disciplined ((Server.connEvents 0 m.log).filter Event.isCallback)) ∧
    ∃ hist m, (Client.Machine.system Server.plainConfig.tick).Run hist m ∧
      ¬Disciplined (m.log.filter Event.isCallback) := by
  have htwice : ¬Disciplined [.onDisconnect .graceful, .onDisconnect .graceful] :=
    fun h => absurd h.once (by decide)
  have hbatch : (Server.afterHandshake (Server.taking 1
      (Server.batchData [Server.disconnectPacket 2, Server.disconnectPacket 3]) ::
      List.replicate 5 (.advance 0 []))).any (fun m => decide (m.closed = false ∧
        (Server.connEvents 0 m.log).filter Event.isCallback =
          [.onDisconnect .graceful, .onDisconnect .graceful])) = true := by
    decide +kernel
  have hstop : (Server.afterHandshake [.stop, .visit 0, .stop, .visit 0]).any (fun m => decide (
      m.closed = true ∧ (Server.connEvents 0 m.log).filter Event.isCallback =
        [.onDisconnect .graceful, .onDisconnect .graceful])) = true := by
    decide +kernel
  have hclose : (System.exec (fun m a => m.next Server.plainConfig.tick a) Client.Machine.plain
      (.take [] :: Client.Machine.wholeClose ++ List.replicate 3 (.advance 0 []))).any (fun m =>
        decide (m.log.filter Event.isCallback =
          [.onDisconnect .graceful, .onError .invalidPacketHeader])) = true := by
    decide +kernel
  refine ⟨?_, ?_, ?_⟩
  · obtain ⟨hist, m, hrun, hm⟩ := Server.afterHandshake_run hbatch
    obtain ⟨hopen, hcallbacks⟩ := of_decide_eq_true hm
    exact ⟨hist, m, hrun, hopen, by rwa [hcallbacks]⟩
  · obtain ⟨hist, m, hrun, hm⟩ := Server.afterHandshake_run hstop
    obtain ⟨hclosed, hcallbacks⟩ := of_decide_eq_true hm
    exact ⟨hist, m, hrun, hclosed, by rwa [hcallbacks]⟩
  · obtain ⟨hist, m, hrun, hm⟩ := Client.Machine.plain_run _ _ hclose
    refine ⟨hist, m, hrun, ?_⟩
    rw [of_decide_eq_true hm]
    intro h
    exact absurd (h.last [] .graceful _ rfl) (by simp)

end Fastwire
