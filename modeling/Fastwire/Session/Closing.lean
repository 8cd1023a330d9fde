/-
# The end of a connection

A close is announced to the peer, the announcement is repeated a few times, and then
the connection is torn down without waiting any longer. Whatever arrives in the
meantime can move the timer of the next repetition, but only within the range of the
retransmission timeout, so that with regular ticks a close takes a known time at most.
A peer that falls silent is noticed in a known time as well.
-/

import Fastwire.Session.Deadlines

namespace Fastwire

open Crypto Lib

namespace Connection

/-! ## What a close leaves to the ticks -/

section

variable {cfg : TickConfig} {now : ℤ} {op : Op} {c c' : Connection} {s s' : Socket}
  {x y : Connection × Socket}

theorem close_leaving (c : Connection) (s : Socket) (now : ℤ) (hlive : c.state = .connected) :
    (c.close s now).1.state = .disconnecting ∧
      ∃ packet, (c.close s now).1.leaving = (some packet, 0, now + c.rttState.timeout) := by
  obtain ⟨plaintext, hplaintext⟩ : ∃ plaintext, disconnectPlaintext = .ok plaintext := ⟨_, rfl⟩
  rw [close, if_neg (by simp [hlive])]
  dsimp only
  split
  · rename_i hfails
    rw [hplaintext] at hfails
    cases hfails
  · exact ⟨rfl, _, rfl⟩

/-- What a tick does while the close is announced: it gives up, repeats the announcement
or waits. -/
theorem tickDisconnecting_leaving {packet : Bytes} {retries : ℕ} {next : ℤ}
    (h : c.leaving = (some packet, retries, next)) (s : Socket) (now : ℤ) :
    (c.tickDisconnecting s now).1.state = .disconnected ∨
      retries < maxDisconnectRetries ∧ (c.tickDisconnecting s now).1.state = c.state ∧
      ((c.tickDisconnecting s now).1.leaving =
          (some packet, retries + 1, now + c.rttState.timeout) ∧ next < now ∨
        (c.tickDisconnecting s now).1.leaving = (some packet, retries, next) ∧ now ≤ next) := by
  have hleaving := h
  simp only [leaving, Prod.mk.injEq] at h
  obtain ⟨hpacket, rfl, rfl⟩ := h
  rw [tickDisconnecting]
  split
  · exact .inl rfl
  · rename_i hleft
    rw [hpacket]
    dsimp only
    split
    · rename_i hdue
      exact .inr ⟨Nat.lt_of_not_le hleft, rfl, .inl ⟨rfl, hdue⟩⟩
    · rename_i hwait
      exact .inr ⟨Nat.lt_of_not_le hleft, rfl, .inr ⟨hleaving, not_lt.mp hwait⟩⟩

theorem Chain.lastRecv (hchain : Chain cfg now op x y) :
    y.1.lastRecv = x.1.lastRecv ∨ op.hears = true ∧ y.1.lastRecv = now := by
  induction hchain with
  | refl => exact .inl rfl
  | tail _ last ih =>
      rcases last.effect.lastRecv with hsame | hnow
      · rwa [hsame]
      · exact .inr hnow

/-- What is not a tick or a release by somebody else ends a connection that is closing, or
leaves the close to the ticks. -/
theorem Chain.leaving (hchain : Chain cfg now op x y) (hstate : x.1.state = .disconnecting)
    (htick : op.ticking = none) (hrelease : op ≠ .release) :
    y.1.state = .disconnected ∨ y.1.state = .disconnecting ∧ y.1.leaving = x.1.leaving := by
  refine hchain.invariant (I := fun z => z.1.state = .disconnected ∨
    z.1.state = .disconnecting ∧ z.1.leaving = x.1.leaving) ?_ (.inr ⟨hstate, rfl⟩)
  intro z w hstep hz
  rcases hz with hdown | ⟨hclosing, hsame⟩
  · exact .inl (hstep.effect.disconnected hdown)
  · rw [← hsame]
    exact hstep.effect.closing hclosing htick hrelease

/-- A connection that is up after a tick has heard from its peer in time. -/
theorem lastRecv_of_tick (hlive : (c.tickSeen cfg s now .connected).1.state = .connected) :
    now < (c.tickSeen cfg s now .connected).1.lastRecv + cfg.connTimeout := by
  have hchain : Chain cfg now _ (c, s) _ := chain_tickSeen .connected
  have hsame : (c.tickSeen cfg s now .connected).1.lastRecv = c.lastRecv := by
    rcases hchain.lastRecv with hsame | ⟨hfalse, -⟩
    · exact hsame
    · cases hfalse
  rw [hsame]
  rw [tickSeen] at hlive
  split at hlive
  · simp [shutDown] at hlive
  · omega

end

end Connection

namespace Session

variable {cfg : TickConfig} {gap closed : ℤ} {σ σ' : Session} {call : Call}

/-! ## The time a close takes -/

/-- A connection that was closed at the given time and is still closing: the repetitions
so far, and the last tick, are not later than the timers allow. Only the first tick after
the close can have read the state before it. -/
inductive Leaving (gap closed : ℤ) (σ : Session) : Prop
  | intro (packet : Bytes) (retries : ℕ) (next : ℤ) (state_eq : σ.conn.state = .disconnecting)
      (leaving_eq : σ.conn.leaving = (some packet, retries, next))
      (due : retries < maxDisconnectRetries → max σ.lastTick next ≤
        closed + (retries + 1) * (rtoMax + gap))
      (last : σ.lastTick ≤ closed + 3 * rtoMax + 4 * gap)
      (read : ∀ seen ∈ σ.states, seen = .disconnecting ∨
        seen = .connected ∧ σ.lastTick ≤ closed ∧ retries = 0)

/-- The call that closes the connection. -/
theorem leaving_close (htimed : TimedSession cfg gap σ) (hgap : 0 ≤ gap)
    (hlast : σ.lastTick ≤ call.now) (hop : call.op = .close) (hlive : σ.conn.state = .connected)
    (hnext : σ.next cfg call = some σ') : Leaving gap call.now σ' := by
  obtain ⟨c, s, events, hok, rfl⟩ := next_inv hnext
  have hother : call.op.ticking = none := by
    rw [hop]
    rfl
  have htick := lastTick_record_other (σ := σ) hother c s events
  have hstates := states_record_other (σ := σ) hother c s events
  have hmost : 0 ≤ rtoMax := by decide
  have htimeout := htimed.timed.inRange.timeout
  obtain ⟨hstate, packet, hleaving⟩ : c.state = .disconnecting ∧
      ∃ packet, c.leaving = (some packet, 0, call.now + σ.conn.rttState.timeout) := by
    rw [hop] at hok
    cases hok
    exact σ.conn.close_leaving ⟨call.failures, []⟩ call.now hlive
  refine .intro packet 0 _ hstate hleaving (fun _ => ?_) ?_ ?_
  · rw [htick, Nat.cast_zero]
    exact max_le (by linarith) (by linarith)
  · rw [htick]
    linarith
  · rw [hstates, htick]
    refine List.forall_mem_cons.mpr ⟨.inl hstate, fun seen hseen => ?_⟩
    exact .inr ⟨htimed.steady hlive seen hseen, hlast, rfl⟩

/-- A tick that finds the connection closing. -/
theorem Leaving.tick (h : Leaving gap closed σ) (hrange : σ.conn.rttState.InRange)
    (hgap : call.now ≤ σ.lastTick + gap) (hnonneg : 0 ≤ gap)
    (hop : call.op.ticking = some .disconnecting) (hnext : σ.next cfg call = some σ') :
    σ'.conn.state = .disconnected ∨ Leaving gap closed σ' := by
  obtain ⟨packet, retries, next, state_eq, leaving_eq, due, last, -⟩ := h
  obtain ⟨c, s, events, hok, rfl⟩ := next_inv hnext
  have htick := lastTick_record_tick (σ := σ) hop c s events
  have hstates := states_record_tick (σ := σ) hop c s events
  have hmost : 0 ≤ rtoMax := by decide
  have htimeout := hrange.timeout
  have hcases := Connection.tickDisconnecting_leaving leaving_eq ⟨call.failures, []⟩ call.now
  rw [Op.ticking_eq_some hop] at hok
  obtain rfl : (σ.conn.tickDisconnecting ⟨call.failures, []⟩ call.now).1 = c := by
    cases hok
    rfl
  rcases hcases with hdown | ⟨hleft, hstate, hcase⟩
  · exact .inl hdown
  have hclosing := hstate.trans state_eq
  obtain ⟨htime, hnext⟩ := max_le_iff.mp (due hleft)
  have hcount : (retries : ℤ) ≤ 2 := by
    have hlt : retries < 3 := hleft
    omega
  have hfew : (retries : ℤ) * (rtoMax + gap) ≤ 2 * (rtoMax + gap) :=
    mul_le_mul_of_nonneg_right hcount (add_nonneg hmost hnonneg)
  have hread : ∀ seen ∈ [(σ.conn.tickDisconnecting ⟨call.failures, []⟩ call.now).1.state],
      seen = .disconnecting := List.forall_mem_singleton.mpr hclosing
  rcases hcase with ⟨hleaving, -⟩ | ⟨hleaving, hwait⟩
  · -- the announcement is repeated, at most one gap after the tick before
    refine .inr (.intro packet _ _ hclosing hleaving (fun _ => ?_) ?_ ?_)
    · rw [htick]
      push_cast
      exact max_le (by linarith) (by linarith)
    · rw [htick]
      linarith
    · exact fun seen hseen => .inl (hread seen (hstates ▸ hseen))
  · refine .inr (.intro packet _ _ hclosing hleaving (fun _ => ?_) ?_ ?_)
    · rw [htick]
      exact max_le (hwait.trans hnext) hnext
    · rw [htick]
      linarith
    · exact fun seen hseen => .inl (hread seen (hstates ▸ hseen))

/-- The first tick after the close, if it has read the state before. -/
theorem Leaving.overtaken (h : Leaving gap closed σ) (hgap : call.now ≤ σ.lastTick + gap)
    (hop : call.op.ticking = some .connected)
    (hread : ConnState.connected ∈ σ.states) (hnext : σ.next cfg call = some σ') :
    σ'.conn.state = .disconnected ∨ Leaving gap closed σ' := by
  obtain ⟨packet, retries, next, state_eq, leaving_eq, due, last, read⟩ := h
  obtain ⟨c, s, events, hok, rfl⟩ := next_inv hnext
  have htick := lastTick_record_tick (σ := σ) hop c s events
  have hstates := states_record_tick (σ := σ) hop c s events
  have hmost : 0 ≤ rtoMax := by decide
  obtain ⟨hbefore, rfl⟩ : σ.lastTick ≤ closed ∧ retries = 0 := by
    rcases read _ hread with hfalse | ⟨-, hfirst⟩
    · cases hfalse
    · exact hfirst
  have hchain : Connection.Chain cfg call.now .close (σ.conn, ⟨call.failures, []⟩) (c, s) := by
    rw [Op.ticking_eq_some hop] at hok
    cases hok
    exact Connection.chain_tickConnected
  rcases hchain.leaving state_eq rfl (by simp) with hdown | ⟨hstate, hleaving⟩
  · exact .inl hdown
  have hfirst := due (by decide)
  rw [Nat.cast_zero] at hfirst
  refine .inr (.intro packet 0 next hstate (hleaving.trans leaving_eq) (fun _ => ?_) ?_ ?_)
  · rw [htick, Nat.cast_zero]
    exact max_le (by linarith) ((le_max_right _ _).trans hfirst)
  · rw [htick]
    linarith
  · rw [hstates]
    exact List.forall_mem_singleton.mpr (.inl hstate)

/-- Anything else that happens to it. -/
theorem Leaving.other (h : Leaving gap closed σ) (hop : call.op.ticking = none)
    (hrelease : call.op ≠ .release) (hnext : σ.next cfg call = some σ') :
    σ'.conn.state = .disconnected ∨ Leaving gap closed σ' := by
  obtain ⟨c, s, events, hok, rfl⟩ := next_inv hnext
  have htick := lastTick_record_other (σ := σ) hop c s events
  have hstates := states_record_other (σ := σ) hop c s events
  obtain ⟨packet, retries, next, state_eq, leaving_eq, due, last, read⟩ := h
  rcases (Op.chain_apply hok).leaving state_eq hop hrelease with hdown | ⟨hstate, hleaving⟩
  · exact .inl hdown
  · refine .inr (.intro packet retries next hstate (hleaving.trans leaving_eq) (htick ▸ due)
      (htick ▸ last) ?_)
    rw [hstates, htick]
    exact List.forall_mem_cons.mpr ⟨.inl hstate, read⟩

theorem Leaving.next (h : Leaving gap closed σ) (htimed : TimedSession cfg gap σ)
    (hnonneg : 0 ≤ gap) (hregular : Regular gap σ call) (hrelease : call.op ≠ .release)
    (hnext : σ.next cfg call = some σ') :
    σ'.conn.state = .disconnected ∨ Leaving gap closed σ' := by
  obtain ⟨-, hgap, hseen⟩ := hregular
  cases hop : call.op.ticking with
  | none => exact h.other hop hrelease hnext
  | some seen =>
      have hread := hseen seen hop
      have hstates : seen = .disconnecting ∨ seen = .connected := by
        obtain ⟨_, _, _, _, _, _, _, read⟩ := h
        exact (read seen hread).imp_right And.left
      rcases hstates with rfl | rfl
      · exact h.tick htimed.timed.inRange hgap hnonneg hop hnext
      · exact h.overtaken hgap hop hread hnext

theorem disconnected_next (h : σ.conn.state = .disconnected)
    (hnext : σ.next cfg call = some σ') : σ'.conn.state = .disconnected := by
  obtain ⟨c, s, events, hok, rfl⟩ := next_inv hnext
  exact (Op.chain_apply hok).invariant (I := fun x => x.1.state = .disconnected)
    (fun x y hstep hx => hstep.effect.disconnected hx) h

/-- **A close completes.** In every run with regular ticks in which nobody else releases
the buffers of the connection, a connection that was closed is disconnected after three
retransmission timeouts of at most 5 s, and the time of five ticks, at the latest. -/
theorem close_completes (hgap : 0 ≤ gap) {hist : List (Session × Call)}
    (hrun : (system cfg).Run hist σ)
    (hregular : System.Guarded (fun σ call => Regular gap σ call ∧ call.op ≠ .release) hist)
    {taken : Session × Call} (hmem : taken ∈ hist) (hclose : taken.2.op = .close)
    (hlive : taken.1.conn.state = .connected)
    (hlate : taken.2.now + 3 * rtoMax + 5 * gap < σ.clock) :
    σ.conn.state = .disconnected := by
  have htimes : ∀ {hist σ}, (system cfg).Run hist σ →
      System.Guarded (fun σ call => Regular gap σ call ∧ call.op ≠ .release) hist →
      TimedSession cfg gap σ :=
    fun hrun hguard => timed_of_run hgap hrun fun taken hmem => (hguard taken hmem).1
  have hleaving : σ.conn.state = .disconnected ∨ Leaving gap taken.2.now σ := by
    clear hlate
    induction hrun with
    | start starts => cases hmem
    | @step hist σ σ' call prior hnext ih =>
        rw [System.guarded_cons] at hregular
        obtain ⟨⟨hallowed, hrelease⟩, hearlier⟩ := hregular
        have htimed := htimes prior hearlier
        rcases List.mem_cons.mp hmem with rfl | hbefore
        · exact .inr (leaving_close htimed hgap hallowed.1 hclose hlive hnext)
        · rcases ih hearlier hbefore with hdown | hclosing
          · exact .inl (disconnected_next hdown hnext)
          · exact hclosing.next htimed hgap hallowed hrelease hnext
  rcases hleaving with hdown | hclosing
  · exact hdown
  · -- the last tick was early, and the clock is not far from it
    obtain ⟨-, -, -, -, -, -, hlast, -⟩ := hclosing
    have hrecent := (htimes hrun hregular).recent
    linarith

/-- A close of a connection whose peer never answers: a tick that has read the state
before, three repetitions, and the tick that gives up. -/
theorem close_completes_unanswered : ∃ hist σ,
    (system ⟨1200, 10 * second, 1, second, second⟩).Run hist σ ∧
      (∃ taken ∈ hist, taken.2.op = .close ∧ taken.1.conn.state = .connected ∧
        taken.2.now + 3 * rtoMax + 5 * (6 * second) < σ.clock) ∧
      σ.conn.state = .disconnected := by
  obtain ⟨hist, σ, hrun, hregular, hclosed⟩ := System.exists_history
    (S := system ⟨1200, 10 * second, 1, second, second⟩) (fun _ _ _ h => h)
    ⟨plainInput [(.reliableOrdered, 0)], 0, fun _ _ => rfl, rfl⟩
    (⟨3, [], .close⟩ :: ⟨0, [], .work (.ticking .connected)⟩ ::
      ([2, 4, 6, 8] : List ℤ).map (fun t =>
        ⟨t * second, [], .work (.ticking .disconnecting)⟩) ++
      ([14, 20, 26, 32, 38, 44, 50] : List ℤ).map (fun t =>
        ⟨t * second, [], .work (.ticking .disconnected)⟩))
    (fun hist σ => System.Guarded (fun σ call => Regular (6 * second) σ call ∧
        call.op ≠ .release) hist ∧
      ∃ taken ∈ hist, taken.2.op = .close ∧ taken.1.conn.state = .connected ∧
        taken.2.now + 3 * rtoMax + 5 * (6 * second) < σ.clock) (by decide +kernel)
  obtain ⟨taken, hmem, hop, hlive, hlate⟩ := hclosed
  exact ⟨hist, σ, hrun, ⟨taken, hmem, hop, hlive, hlate⟩,
    close_completes (by decide) hrun hregular hmem hop hlive hlate⟩

/-! ## A silent peer -/

/-- When the connection has last heard from its peer. -/
structure Listening (cfg : TickConfig) (gap : ℤ) (σ : Session) : Prop
    extends TimedSession cfg gap σ where
  past : σ.conn.lastRecv ≤ σ.clock
  heard : σ.conn.state = .connected → σ.lastTick < σ.conn.lastRecv + cfg.connTimeout

theorem Listening.next (h : Listening cfg gap σ) (htimeout : 0 < cfg.connTimeout)
    (hregular : Regular gap σ call) (hnext : σ.next cfg call = some σ') :
    Listening cfg gap σ' := by
  have htimed := h.toTimedSession.next hregular hnext
  obtain ⟨hafter, -, hseen⟩ := hregular
  obtain ⟨c, s, events, hok, rfl⟩ := next_inv hnext
  have hchain := Op.chain_apply hok
  have hrecv : c.lastRecv = σ.conn.lastRecv ∨ c.lastRecv = call.now :=
    hchain.lastRecv.imp_right And.right
  refine ⟨htimed, ?_, ?_⟩
  · show c.lastRecv ≤ max σ.clock call.now
    rcases hrecv with hsame | hnow
    · exact hsame.le.trans (h.past.trans (le_max_left _ _))
    · exact hnow.le.trans (le_max_right _ _)
  · intro hlive
    have hbefore := hchain.connected hlive
    have hheard := h.heard hbefore
    cases htick : call.op.ticking with
    | none =>
        rw [lastTick_record_other (σ := σ) htick c s events]
        show σ.lastTick < c.lastRecv + cfg.connTimeout
        rcases hrecv with hsame | hnow <;> linarith
    | some seen =>
        rw [lastTick_record_tick (σ := σ) htick c s events]
        rw [Op.ticking_eq_some htick, h.steady hbefore seen (hseen seen htick)] at hok
        cases hok
        exact Connection.lastRecv_of_tick hlive

/-- **A silent peer is noticed.** In every run with regular ticks, if no packet of the peer
has been handled after some call, the connection is no longer up when the timeout and the
time between two ticks have passed since the latest reading of the clock up to that
call. -/
theorem silence_detected (hgap : 0 ≤ gap) (htimeout : 0 < cfg.connTimeout)
    {later earlier : List (Session × Call)} {taken : Session × Call}
    (hrun : (system cfg).Run (later ++ taken :: earlier) σ)
    (hregular : System.Guarded (Regular gap) (later ++ taken :: earlier))
    (hsilent : ∀ call ∈ later, call.2.op.hears = false)
    (hlate : max taken.1.clock taken.2.now + cfg.connTimeout + gap ≤ σ.clock) :
    σ.conn.state ≠ .connected := by
  have hstart : ∀ σ, (system cfg).init σ → Listening cfg gap σ := by
    rintro σ ⟨input, now, -, rfl⟩
    exact ⟨timed_start hgap input now, le_rfl, fun _ => lt_add_of_pos_right _ htimeout⟩
  have hlistening : ∀ {hist σ}, (system cfg).Run hist σ → System.Guarded (Regular gap) hist →
      Listening cfg gap σ := by
    intro hist σ hrun hguard
    exact hrun.guarded_invariant hstart
      (fun _ _ _ _ _ h hallowed hnext => h.next htimeout hallowed hnext) hguard
  have hheard := hlistening hrun hregular
  have hold : σ.conn.lastRecv ≤ max taken.1.clock taken.2.now := by
    clear hlate hheard
    induction later generalizing σ with
    | nil =>
        cases hrun with
        | step prior hnext =>
            rw [List.nil_append, System.guarded_cons] at hregular
            have hafter := ((hlistening prior hregular.2).next htimeout hregular.1 hnext).past
            obtain ⟨c, s, events, -, rfl⟩ := next_inv hnext
            exact hafter
    | cons head later ih =>
        cases hrun with
        | step prior hnext =>
            rw [List.cons_append, System.guarded_cons] at hregular
            rw [List.forall_mem_cons] at hsilent
            obtain ⟨c, s, events, hok, rfl⟩ := next_inv hnext
            have hchain := Op.chain_apply hok
            rcases hchain.lastRecv with hsame | ⟨hhears, -⟩
            · exact hsame.le.trans (ih prior hregular.2 hsilent.2)
            · simp [hsilent.1] at hhears
  intro hlive
  have hrecent := hheard.recent
  have hlast := hheard.heard hlive
  linarith

/-- A connection handles a packet during a tick, after the tick has read the clock, and
nothing after that; it is down when 1 s has passed. -/
theorem silence_detected_unread : ∃ hist σ,
    (system ⟨1200, 1 * second, 1, second, second⟩).Run hist σ ∧
      σ.clock = 2 * second + 3 ∧ σ.conn.state ≠ .connected := by
  obtain ⟨hist, σ, hrun, hregular, hone, hsilent, hlate, hclock⟩ := System.exists_history
    (S := system ⟨1200, 1 * second, 1, second, second⟩) (fun _ _ _ h => h)
    ⟨plainInput [(.reliableOrdered, 0)], 0, fun _ _ => rfl, rfl⟩
    [⟨3, [], .work (.handling [2, 0, 0, 100, 0, 0, 0, 0, 1] [])⟩,
      ⟨0, [], .work (.ticking .connected)⟩, ⟨1 * second, [], .work (.ticking .connected)⟩,
      ⟨2 * second, [], .work (.ticking .connected)⟩, ⟨2 * second + 3, [], .send [7] 0⟩]
    (fun hist σ => System.Guarded (Regular (1 * second)) hist ∧ (hist.drop 4).length = 1 ∧
      (∀ call ∈ hist.take 4, call.2.op.hears = false) ∧
      (∀ taken ∈ hist.drop 4,
        max taken.1.clock taken.2.now + 1 * second + 1 * second ≤ σ.clock) ∧
      σ.clock = 2 * second + 3) (by decide +kernel)
  obtain ⟨taken, htaken⟩ := List.length_eq_one_iff.mp hone
  have hsplit : hist = hist.take 4 ++ taken :: [] := by rw [← htaken, List.take_append_drop]
  have hread := hlate taken (htaken ▸ List.mem_singleton_self taken)
  refine ⟨hist, σ, hrun, hclock, ?_⟩
  rw [hsplit] at hrun hregular
  exact silence_detected (by decide) (by decide) hrun hregular hsilent hread

end Session

end Fastwire
