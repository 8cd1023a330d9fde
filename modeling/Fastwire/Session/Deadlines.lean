/-
# Deadlines of reliable packets

A reliable packet is sent again and again until it is acknowledged, and a packet that
runs out of retries ends the connection. The timeout moves with the estimator, which
every acknowledgement may change, but it never leaves its range. So if the owner ticks
the connection regularly, a packet cannot wait for longer than a time that is known in
advance, and a connection is not given up before another such time.
-/

import Fastwire.Connection.AckFlush
import Fastwire.Connection.AckSpec
import Fastwire.Session.Basic
import Mathlib.Tactic.Linarith
import Mathlib.Tactic.NormNum

namespace Fastwire

open Crypto Lib

/-! ## The range of the timeout -/

/-- The longest retransmission timeout, 5 s. -/
def rtoMax : ℤ := 5 * second

/-- The shortest retransmission timeout, 50 ms, halved. -/
def rtoLeast : ℤ := second / 40

namespace Rtt

/-- The timeout is between 50 ms and 5 s. -/
structure InRange (r : Rtt) : Prop where
  least : 1 / 20 ≤ r.rto
  most : r.rto ≤ 5

theorem inRange_init : InRange init := ⟨by norm_num [init], by norm_num [init]⟩

theorem inRange_addSample (r : Rtt) (sample : ℤ) : InRange (r.addSample sample) := by
  constructor
  · exact le_min (le_max_right _ _) (by norm_num)
  · exact min_le_right _ _

theorem InRange.timeout {r : Rtt} (h : r.InRange) :
    2 * rtoLeast ≤ r.timeout ∧ r.timeout ≤ rtoMax := by
  have hleast := h.least
  have hmost := h.most
  have hsecond : ((second : ℤ) : ℚ) = 1000000000 := by norm_num [second]
  constructor
  · have hvalue : 2 * rtoLeast = 50000000 := by decide
    rw [hvalue, Rtt.timeout, Int.le_floor, hsecond]
    push_cast
    linarith
  · have hvalue : rtoMax = 5000000000 := by decide
    rw [hvalue, Rtt.timeout]
    apply Int.floor_le_iff.mpr
    rw [hsecond]
    push_cast
    linarith

end Rtt

theorem Channel.inRange_processAcks {r : Rtt} (h : r.InRange) (ch : Channel) (now : ℤ) (ack : ℕ)
    (field : BitVec 32) : (ch.processAcks now ack field r).2.2.InRange := by
  have hfold : ∀ (ps : List PendingPacket) (r : Rtt), r.InRange →
      (ps.foldl (sampleRtt now) r).InRange := by
    intro ps
    induction ps with
    | nil => exact fun r hr => hr
    | cons p ps ih =>
        intro r hr
        apply ih
        rw [sampleRtt]
        split
        · exact r.inRange_addSample _
        · exact hr
  rw [processAcks]
  split
  · exact h
  · exact hfold _ r h

namespace Connection

section

variable {cfg : TickConfig} {now : ℤ} {op : Op} {c : Connection} {s : Socket}
  {x y : Connection × Socket}

theorem retransmitTimeout_bounds (h : c.rttState.InRange) :
    rtoLeast ≤ c.retransmitTimeout ∧ c.retransmitTimeout ≤ rtoMax := by
  have hvalue : rtoLeast = 25000000 := by decide
  obtain ⟨hleast, hmost⟩ := h.timeout
  have hhalf : c.rttState.timeout.tdiv 2 = c.rttState.timeout / 2 :=
    Int.tdiv_eq_ediv_of_nonneg (by omega)
  rw [retransmitTimeout, hhalf]
  split <;> omega

theorem Elementary.inRange (hstep : Elementary cfg now op x y) (h : x.1.rttState.InRange) :
    y.1.rttState.InRange := by
  rcases hstep.effect.rttState with hsame | ⟨ch, ack, field, hsample⟩
  · rwa [hsame]
  · rw [hsample]
    exact ch.inRange_processAcks h now ack field

/-! ## What a change does to the packets that wait -/

/-- The packets that wait for an acknowledgement. -/
def Waiting (c : Connection) (p : PendingPacket) : Prop := ∃ ch ∈ c.channels, p ∈ ch.pendingSend

/-- A packet that waits after a change has waited before, has just been sent for the
first time, or has been due and is sent again. -/
inductive WaitsOn (cfg : TickConfig) (now : ℤ) (c : Connection) (p : PendingPacket) : Prop
  | still (before : c.Waiting p)
  | first (raw : Bytes) (sequence : ℕ)
      (new : p = ⟨raw, now, 0, now + c.retransmitTimeout, true, sequence⟩)
  | again (q : PendingPacket) (before : c.Waiting q) (due : q.nextRetransmit ≤ now)
      (left : (q.retransmitCount : ℤ) + 1 ≤ cfg.maxRetransmits)
      (retried : p = Channel.retried now c.retransmitTimeout q)

theorem waiting_of_set {i : ℕ} {ch' : Channel} {p : PendingPacket}
    (h : ∃ ch ∈ c.channels.set i ch', p ∈ ch.pendingSend) :
    c.Waiting p ∨ p ∈ ch'.pendingSend := by
  obtain ⟨ch, hch, hp⟩ := h
  rcases List.mem_or_eq_of_mem_set hch with hold | rfl
  · exact .inl ⟨ch, hold, hp⟩
  · exact .inr hp

/-- A channel that was written back with no new packet. -/
theorem WaitsOn.of_set {i : ℕ} {ch ch' : Channel} {p : PendingPacket}
    (found : c.channels[i]? = some ch) (fewer : ch'.pendingSend ⊆ ch.pendingSend)
    (h : ∃ ch ∈ c.channels.set i ch', p ∈ ch.pendingSend) : WaitsOn cfg now c p := by
  rcases waiting_of_set h with hold | hnew
  · exact .still hold
  · exact .still ⟨ch, List.mem_of_getElem? found, fewer hnew⟩

theorem waitsOn_queuePacket {stamped : Stamped} {p : PendingPacket}
    (hp : (c.queuePacket stamped now).Waiting p) : WaitsOn cfg now c p := by
  rw [queuePacket] at hp
  split at hp
  · exact .still hp
  · rename_i ch found
    split at hp
    · rcases waiting_of_set hp with hold | hnew
      · exact .still hold
      · rcases List.mem_append.mp hnew with hold | hlast
        · exact .still ⟨ch, List.mem_of_getElem? found, hold⟩
        · exact .first _ _ (List.mem_singleton.mp hlast)
    · exact .still hp

theorem waitsOn_applyAcks {id : UInt8} {ack : UInt32} {field : BitVec 32} {p : PendingPacket}
    (hp : (c.applyAcks now id ack field).1.Waiting p) : WaitsOn cfg now c p := by
  rw [applyAcks] at hp
  split at hp
  · exact .still hp
  · rename_i ch found
    obtain ⟨ps, n, heq, hsub, -⟩ := ch.processAcks_eq now ack.toNat field c.rttState
    dsimp only at hp
    rw [Waiting, (countAcked_frame _ _).1] at hp
    refine .of_set found ?_ hp
    rw [heq]
    exact hsub.subset

/-- A check that does not end the connection. -/
theorem waitsOn_check {i : ℕ} {ch : Channel} (found : c.channels[i]? = some ch)
    (alive : (ch.checkRetransmissions now c.retransmitTimeout cfg.maxRetransmits).2.2 = false)
    {p : PendingPacket}
    (hp : p ∈ (ch.checkRetransmissions now c.retransmitTimeout
      cfg.maxRetransmits).1.pendingSend) :
    (now < p.nextRetransmit ∧ c.Waiting p) ∨
      ∃ q, c.Waiting q ∧ q.nextRetransmit ≤ now ∧
        (q.retransmitCount : ℤ) + 1 ≤ cfg.maxRetransmits ∧
        p = Channel.retried now c.retransmitTimeout q := by
  have hwaits : ∀ q ∈ ch.pendingSend, c.Waiting q :=
    fun q hq => ⟨ch, List.mem_of_getElem? found, hq⟩
  have hnone := (Channel.checkPending_kill_iff now c.retransmitTimeout cfg.maxRetransmits
    ch.pendingSend).not.mp (by simpa [Channel.checkRetransmissions] using alive)
  have hkept : (ch.checkRetransmissions now c.retransmitTimeout
      cfg.maxRetransmits).1.pendingSend = _ := (Channel.checkPending_alive alive).1
  rw [hkept] at hp
  obtain ⟨q, hq, rfl⟩ := List.mem_map.mp hp
  split
  · rename_i hearly
    exact .inl ⟨hearly, hwaits q hq⟩
  · rename_i hdue
    refine .inr ⟨q, hwaits q hq, not_lt.mp hdue, ?_, rfl⟩
    by_contra hover
    exact hnone ⟨q, hq, not_lt.mp hdue, by omega⟩

theorem not_waiting_released (p : PendingPacket) : ¬c.releasePendingBuffers.Waiting p := by
  rintro ⟨ch, hch, hmem⟩
  obtain ⟨ch₀, -, rfl⟩ := List.mem_map.mp hch
  cases hmem

theorem Elementary.waitsOn (hstep : Elementary cfg now op x y) {p : PendingPacket}
    (hp : y.1.Waiting p) : WaitsOn cfg now x.1 p := by
  cases hstep with
  | @number c s id ch found =>
      have fewer : ch.nextSequence.1.pendingSend ⊆ ch.pendingSend := List.Subset.refl _
      exact .of_set found fewer hp
  | @transmit c s raw short =>
      obtain ⟨batchBuf, transmissions, heq⟩ := c.transmitPacket_books s raw
      rw [heq] at hp
      exact .still hp
  | queue => exact waitsOn_queuePacket hp
  | check found alive =>
      rcases waiting_of_set hp with hold | hnew
      · exact .still hold
      · rcases waitsOn_check found alive hnew with ⟨-, hbefore⟩ | ⟨q, hbefore, hdue, hleft, rfl⟩
        · exact .still hbefore
        · exact .again q hbefore hdue hleft rfl
  | @clearNeedsAck c s i ch found =>
      refine .of_set found ?_ hp
      rw [clearNeedsAck_eq]
      exact List.Subset.refl _
  | @acks c s ids =>
      obtain ⟨sendCipher, lastSend, heq, -⟩ := c.acks_books s ids now
      rw [heq] at hp
      exact .still hp
  | @close c s live =>
      obtain ⟨state, sendCipher, packet, retries, next, heq, -⟩ := c.close_books s now
      rw [heq] at hp
      exact .still hp
  | shutDown => exact absurd hp (not_waiting_released p)
  | release => exact absurd hp (not_waiting_released p)
  | applyAcks => exact waitsOn_applyAcks hp
  | receive found fewer => exact .of_set found fewer hp
  | _ => exact .still hp

/-! ## Packets on time -/

/-- How long a packet may wait: with `tick` the time of the last tick, the next retry is
not before it, and it is as far from the first transmission as the retries so far
allow. -/
structure OnTime (cfg : TickConfig) (gap tick : ℤ) (p : PendingPacket) : Prop where
  tries : p.retransmitCount = 0 ∨ (p.retransmitCount : ℤ) ≤ cfg.maxRetransmits
  ahead : tick ≤ p.nextRetransmit
  late : p.nextRetransmit ≤ p.sendTime + (p.retransmitCount + 1) * rtoMax + p.retransmitCount * gap
  early : p.sendTime + (p.retransmitCount + 1) * rtoLeast ≤ p.nextRetransmit

/-- As long as the connection is up, everything that waits is on time. -/
structure Timed (cfg : TickConfig) (gap tick : ℤ) (c : Connection) : Prop where
  inRange : c.rttState.InRange
  onTime : c.state = .connected → ∀ p, c.Waiting p → OnTime cfg gap tick p

variable {gap tick : ℤ}

theorem OnTime.retried {p : PendingPacket} (h : OnTime cfg gap tick p) {rto : ℤ}
    (hrto : rtoLeast ≤ rto ∧ rto ≤ rtoMax) (hgap : now ≤ tick + gap)
    (hdue : p.nextRetransmit ≤ now) (hleft : (p.retransmitCount : ℤ) + 1 ≤ cfg.maxRetransmits) :
    OnTime cfg gap now (Channel.retried now rto p) := by
  have hpositive : 0 ≤ rtoLeast := by decide
  have hahead := h.ahead
  have hlate := h.late
  have hearly := h.early
  obtain ⟨hleast, hmost⟩ := hrto
  refine ⟨.inr (by simpa [Channel.retried] using hleft), ?_, ?_, ?_⟩
  · show now ≤ now + rto
    linarith
  · show now + rto ≤ p.sendTime + (((p.retransmitCount + 1 : ℕ) : ℤ) + 1) * rtoMax +
      ((p.retransmitCount + 1 : ℕ) : ℤ) * gap
    push_cast
    linarith
  · show p.sendTime + (((p.retransmitCount + 1 : ℕ) : ℤ) + 1) * rtoLeast ≤ now + rto
    push_cast
    linarith

theorem OnTime.first {rto : ℤ} (hrto : rtoLeast ≤ rto ∧ rto ≤ rtoMax) (hafter : tick ≤ now)
    (raw : Bytes) (sequence : ℕ) :
    OnTime cfg gap tick ⟨raw, now, 0, now + rto, true, sequence⟩ := by
  have hpositive : 0 ≤ rtoLeast := by decide
  obtain ⟨hleast, hmost⟩ := hrto
  refine ⟨.inl rfl, ?_, ?_, ?_⟩
  · show tick ≤ now + rto
    linarith
  · simp only [Nat.cast_zero]
    linarith
  · simp only [Nat.cast_zero]
    linarith

theorem OnTime.mono {p : PendingPacket} (h : OnTime cfg gap now p) (hafter : tick ≤ now) :
    OnTime cfg gap tick p :=
  ⟨h.tries, hafter.trans h.ahead, h.late, h.early⟩

/-- Every change between two ticks keeps the packets on time. -/
theorem Timed.elementary (hafter : tick ≤ now) (hgap : now ≤ tick + gap)
    (hstep : Elementary cfg now op x y) (h : Timed cfg gap tick x.1) :
    Timed cfg gap tick y.1 := by
  have hrto := retransmitTimeout_bounds h.inRange
  refine ⟨hstep.inRange h.inRange, fun hlive p hp => ?_⟩
  have hbefore := h.onTime (hstep.effect.connected hlive)
  cases hstep.waitsOn hp with
  | still before => exact hbefore p before
  | first raw sequence new =>
      rw [new]
      exact OnTime.first hrto hafter raw sequence
  | again q before due left retried =>
      rw [retried]
      exact ((hbefore q before).retried hrto hgap due left).mono hafter

theorem Timed.chain (h : Timed cfg gap tick x.1) (hafter : tick ≤ now) (hgap : now ≤ tick + gap)
    (hchain : Chain cfg now op x y) : Timed cfg gap tick y.1 :=
  hchain.invariant (I := fun x => Timed cfg gap tick x.1)
    (fun _ _ hstep hx => hx.elementary hafter hgap hstep) h

/-! ## The tick -/

theorem retransmitPackets_channels (now : ℤ) (c : Connection) (s : Socket)
    (ps : List PendingPacket) : (retransmitPackets now c s ps).1.channels = c.channels := by
  induction ps generalizing c s with
  | nil => rfl
  | cons p ps ih => exact ih _ _

/-- The loop over the channels ends the connection because one of the checks does, or every
channel of the list has been checked and none has. -/
theorem retransmitChannels_cases (now rto maxRetransmits : ℤ) {is : List ℕ} (hnodup : is.Nodup)
    (c : Connection) (s : Socket) :
    ((retransmitChannels now rto maxRetransmits c s is).2.2 = true ∧
      ∃ i ∈ is, ∃ ch, c.channels[i]? = some ch ∧
        (ch.checkRetransmissions now rto maxRetransmits).2.2 = true) ∨
    (retransmitChannels now rto maxRetransmits c s is).2.2 = false ∧ ∀ j,
      (retransmitChannels now rto maxRetransmits c s is).1.channels[j]? =
        c.channels[j]?.map (fun ch =>
          if j ∈ is then (ch.checkRetransmissions now rto maxRetransmits).1 else ch) ∧
      (j ∈ is → ∀ ch, c.channels[j]? = some ch →
        (ch.checkRetransmissions now rto maxRetransmits).2.2 = false) := by
  induction is generalizing c s with
  | nil => exact .inr ⟨rfl, fun j => by simp [retransmitChannels]⟩
  | cons i is ih =>
      rw [List.nodup_cons] at hnodup
      rw [retransmitChannels]
      cases found : c.channels[i]? with
      | none =>
          dsimp only
          rcases ih hnodup.2 c s with ⟨hkill, j, hj, hrest⟩ | ⟨halive, hrest⟩
          · exact .inl ⟨hkill, j, List.mem_cons_of_mem i hj, hrest⟩
          · refine .inr ⟨halive, fun j => ?_⟩
            rw [(hrest j).1]
            by_cases hji : j = i
            · simp [hji, found]
            · simpa [hji] using (hrest j).2
      | some ch =>
          dsimp only
          cases hkill : (ch.checkRetransmissions now rto maxRetransmits).2.2 with
          | true => exact .inl ⟨rfl, i, List.mem_cons_self, ch, found, hkill⟩
          | false =>
              rw [if_neg Bool.false_ne_true]
              have hlt := (List.getElem?_eq_some_iff.mp found).1
              -- the check of another channel sees the channel as it was
              have hother : ∀ j, j ≠ i → (c.channels.set i
                  (ch.checkRetransmissions now rto maxRetransmits).1)[j]? = c.channels[j]? :=
                fun j hji => List.getElem?_set_ne (Ne.symm hji)
              have hsent := retransmitPackets_channels now
                (c.setIndex i (ch.checkRetransmissions now rto maxRetransmits).1) s
                (ch.checkRetransmissions now rto maxRetransmits).2.1
              rw [setIndex] at hsent
              generalize retransmitPackets now _ s _ = sent at hsent ⊢
              have hrest := ih hnodup.2 sent.1 sent.2
              rw [hsent] at hrest
              rcases hrest with ⟨hkilled, j, hj, ch', hget, hcheck⟩ | ⟨halive, hrest⟩
              · have hji : j ≠ i := fun heq => hnodup.1 (heq ▸ hj)
                exact .inl ⟨hkilled, j, List.mem_cons_of_mem i hj, ch', hother j hji ▸ hget, hcheck⟩
              · refine .inr ⟨halive, fun j => ?_⟩
                rw [(hrest j).1]
                by_cases hji : j = i
                · subst hji
                  simp [List.getElem?_set_self hlt, found, hnodup.1, hkill]
                · have hj := (hrest j).2
                  rw [hother j hji] at hj ⊢
                  simpa [hji] using hj

/-- After the retransmission check of a tick nothing is due any more. -/
theorem Timed.retransmitChannels (h : Timed cfg gap tick c) (hafter : tick ≤ now)
    (hgap : now ≤ tick + gap)
    (halive : (retransmitChannels now c.retransmitTimeout cfg.maxRetransmits c s
      (List.range c.channels.length)).2.2 = false) :
    Timed cfg gap now (retransmitChannels now c.retransmitTimeout cfg.maxRetransmits c s
      (List.range c.channels.length)).1 := by
  have hchain : Chain cfg now .release (c, s) _ :=
    chain_retransmitChannels rfl (List.range c.channels.length)
  refine ⟨(h.chain hafter hgap hchain).inRange, fun hlive p hp => ?_⟩
  obtain ⟨ch', hch', hmem⟩ := hp
  obtain ⟨j, hj⟩ := List.getElem?_of_mem hch'
  rcases retransmitChannels_cases now c.retransmitTimeout cfg.maxRetransmits List.nodup_range c s
    with ⟨hkill, -⟩ | ⟨-, hchecked⟩
  · rw [halive] at hkill
    cases hkill
  obtain ⟨hget, hchecks⟩ := hchecked j
  rw [hj] at hget
  obtain ⟨ch, found, heq⟩ := Option.map_eq_some_iff.mp hget.symm
  have hin : j ∈ List.range c.channels.length :=
    List.mem_range.mpr (List.getElem?_eq_some_iff.mp found).1
  rw [if_pos hin] at heq
  subst heq
  have hcheck := hchecks hin ch found
  have hbefore := h.onTime (hchain.connected hlive)
  rcases waitsOn_check found hcheck hmem with ⟨hearly, hold⟩ | ⟨q, hold, hdue, hleft, rfl⟩
  · have hp := hbefore p hold
    exact ⟨hp.tries, hearly.le, hp.late, hp.early⟩
  · exact (hbefore q hold).retried (retransmitTimeout_bounds h.inRange) hgap hdue hleft

theorem Timed.of_disconnected (h : c.rttState.InRange) (hstate : c.state ≠ .connected) (tick : ℤ) :
    Timed cfg gap tick c :=
  ⟨h, fun hlive => absurd hlive hstate⟩

/-- A tick brings the deadlines up to date. -/
theorem Timed.tickSeen (h : Timed cfg gap tick c) (hafter : tick ≤ now)
    (hgap : now ≤ tick + gap) {seen : ConnState}
    (hseen : c.state = .connected → seen = .connected) :
    Timed cfg gap now (c.tickSeen cfg s now seen).1 := by
  have hchain : Chain cfg now _ (c, s) _ := chain_tickSeen seen
  by_cases hlive : c.state = .connected
  · rw [hseen hlive, Connection.tickSeen]
    split
    · have hdown : c.shutDown.state ≠ .connected := by simp [shutDown]
      exact .of_disconnected (c := c.shutDown) h.inRange hdown now
    · split
      · rename_i c' s' heq
        have hlife := (retransmitChannels_life now c.retransmitTimeout cfg.maxRetransmits c s
          (List.range c.channels.length)).1
        have hchecked : Chain cfg now .release (c, s) _ :=
          chain_retransmitChannels rfl (List.range c.channels.length)
        rw [heq] at hlife hchecked
        have hdown : c'.state = .disconnected := (hlife rfl).1
        exact .of_disconnected (h.chain hafter hgap hchecked).inRange (by simp [hdown]) now
      · rename_i c' s' heq
        have hchecked := h.retransmitChannels (s := s) hafter hgap (by rw [heq])
        rw [heq] at hchecked
        have hsend : Chain cfg now .release (c', s') _ := chain_tickSend
        exact hchecked.chain le_rfl (by omega) hsend
  · exact .of_disconnected (h.chain hafter hgap hchain).inRange
      (fun hstate => hlive (hchain.connected hstate)) now

/-- A tick gives up on the acknowledgements only if a packet that is due has no retry
left. -/
theorem exhausted_of_tick (hlive : c.state = .connected)
    (hgiven : .onDisconnect .error ∈ (c.tickConnection cfg s now).2.2) :
    ∃ p, c.Waiting p ∧ Channel.Exhausted now cfg.maxRetransmits p := by
  rw [tickConnection, hlive, tickSeen] at hgiven
  split at hgiven
  · simp at hgiven
  · split at hgiven
    · rename_i heq
      have hkill : (retransmitChannels now c.retransmitTimeout cfg.maxRetransmits c s
          (List.range c.channels.length)).2.2 = true := by rw [heq]
      rcases retransmitChannels_cases now c.retransmitTimeout cfg.maxRetransmits List.nodup_range
        c s with ⟨-, i, -, ch, found, hchannel⟩ | ⟨halive, -⟩
      · obtain ⟨p, hp, hexhausted⟩ := (Channel.checkPending_kill_iff _ _ _ _).mp hchannel
        exact ⟨p, ⟨ch, List.mem_of_getElem? found, hp⟩, hexhausted⟩
      · rw [hkill] at halive
        cases halive
    · cases (tickSend_lifecycle _ cfg _ now).1 _ hgiven

end

end Connection

/-! ## Runs -/

namespace Session

variable {cfg : TickConfig} {gap : ℤ} {σ σ' : Session} {call : Call}

/-- No reading of the clock is before that of the last tick or more than `gap` after it,
that of the next tick included, and a tick goes by a state that the connection has been
in since the last tick. Between two ticks the readings may come in any order. -/
def Regular (gap : ℤ) (σ : Session) (call : Call) : Prop :=
  σ.lastTick ≤ call.now ∧ call.now ≤ σ.lastTick + gap ∧
    ∀ seen ∈ call.op.ticking, seen ∈ σ.states

instance (gap : ℤ) (σ : Session) (call : Call) : Decidable (Regular gap σ call) :=
  inferInstanceAs (Decidable (_ ∧ _ ∧ ∀ seen ∈ call.op.ticking, seen ∈ σ.states))

/-- The deadlines hold, the clock is not far from the last tick, and a connection that is
up has been up all the time. -/
structure TimedSession (cfg : TickConfig) (gap : ℤ) (σ : Session) : Prop where
  timed : Connection.Timed cfg gap σ.lastTick σ.conn
  recent : σ.clock ≤ σ.lastTick + gap
  steady : σ.conn.state = .connected → ∀ seen ∈ σ.states, seen = .connected

theorem timed_start (hgap : 0 ≤ gap) (input : ConnectionInput) (now : ℤ) :
    TimedSession cfg gap (start input now) := by
  refine ⟨⟨Rtt.inRange_init, ?_⟩, le_add_of_nonneg_right hgap,
    fun _ _ => List.eq_of_mem_singleton⟩
  rintro - p ⟨ch, hch, hp⟩
  obtain ⟨d, -, rfl⟩ := List.mem_map.mp hch
  cases hp

theorem TimedSession.next (h : TimedSession cfg gap σ) (hregular : Regular gap σ call)
    (hnext : σ.next cfg call = some σ') : TimedSession cfg gap σ' := by
  obtain ⟨hafter, hgap, hseen⟩ := hregular
  obtain ⟨c, s, events, hok, rfl⟩ := next_inv hnext
  have hchain := Op.chain_apply hok
  have hrecent := h.recent
  cases htick : call.op.ticking with
  | none =>
      have hlast := lastTick_record_other (σ := σ) htick c s events
      have hstates := states_record_other (σ := σ) htick c s events
      refine ⟨hlast ▸ h.timed.chain hafter hgap hchain, hlast ▸ max_le hrecent hgap, ?_⟩
      intro hlive
      rw [hstates]
      exact List.forall_mem_cons.mpr ⟨hlive, h.steady (hchain.connected hlive)⟩
  | some seen =>
      have hlast := lastTick_record_tick (σ := σ) htick c s events
      have hstates := states_record_tick (σ := σ) htick c s events
      have htimed : Connection.Timed cfg gap call.now c := by
        rw [Op.ticking_eq_some htick] at hok
        cases hok
        exact h.timed.tickSeen hafter hgap fun hlive => h.steady hlive seen (hseen seen htick)
      -- the readings since the last tick are not far from this one either
      have hnear : max σ.clock call.now ≤ call.now + gap := max_le (by omega) (by omega)
      refine ⟨hlast ▸ htimed, hlast ▸ hnear, ?_⟩
      intro hlive
      rw [hstates]
      exact List.forall_mem_singleton.mpr hlive

theorem timed_of_run (hgap : 0 ≤ gap) {hist : List (Session × Call)}
    (hrun : (system cfg).Run hist σ) (hregular : System.Guarded (Regular gap) hist) :
    TimedSession cfg gap σ := by
  have hstart : ∀ σ, (system cfg).init σ → TimedSession cfg gap σ := by
    rintro σ ⟨input, now, -, rfl⟩
    exact timed_start hgap input now
  exact hrun.guarded_invariant hstart
    (fun _ _ _ _ _ h hallowed hnext => h.next hallowed hnext) hregular

/-- **A reliable packet is acknowledged in time, or its connection ends.** In every run
with regular ticks, as long as the connection is up, a packet that still waits was sent
for the first time no longer ago than `MaxRetransmits + 1` timeouts of at most 5 s, each
with the time between two ticks. And a tick that gives up does so over a packet that has
waited for at least `MaxRetransmits + 1` times 25 ms. -/
theorem reliable_or_dead (hgap : 0 ≤ gap) {hist : List (Session × Call)}
    (hrun : (system cfg).Run hist σ) (hregular : System.Guarded (Regular gap) hist)
    (hlive : σ.conn.state = .connected) :
    (∀ p, σ.conn.Waiting p →
      σ.clock ≤ p.sendTime + (max cfg.maxRetransmits 0 + 1) * (rtoMax + gap)) ∧
    ∀ now failures, .onDisconnect .error ∈
        (σ.conn.tickConnection cfg ⟨failures, []⟩ now).2.2 →
      ∃ p, σ.conn.Waiting p ∧ p.sendTime + (cfg.maxRetransmits + 1) * rtoLeast ≤ now := by
  have htimed := timed_of_run hgap hrun hregular
  have honTime := htimed.timed.onTime hlive
  constructor
  · intro p hp
    have hlate := (honTime p hp).late
    have hahead := (honTime p hp).ahead
    have hrecent := htimed.recent
    have hcount : (p.retransmitCount : ℤ) ≤ max cfg.maxRetransmits 0 := by
      rcases (honTime p hp).tries with hnone | hfew
      · rw [hnone]
        exact le_max_right _ _
      · exact hfew.trans (le_max_left _ _)
    have hpositive : 0 ≤ rtoMax + gap := add_nonneg (by decide) hgap
    calc σ.clock ≤ p.sendTime + (p.retransmitCount + 1) * (rtoMax + gap) := by linarith
      _ ≤ p.sendTime + (max cfg.maxRetransmits 0 + 1) * (rtoMax + gap) := by gcongr
  · intro now failures hgiven
    obtain ⟨p, hp, hdue, hover⟩ := Connection.exhausted_of_tick hlive hgiven
    have hearly := (honTime p hp).early
    have hpositive : 0 ≤ rtoLeast := by decide
    refine ⟨p, hp, ?_⟩
    calc p.sendTime + (cfg.maxRetransmits + 1) * rtoLeast
        ≤ p.sendTime + (p.retransmitCount + 1) * rtoLeast := by gcongr; omega
      _ ≤ p.nextRetransmit := hearly
      _ ≤ now := hdue

/-- A packet that nobody acknowledges, one retry, and the tick that gives up: the packet
was sent 3 s before. The tick with the retry has handled a heartbeat of the peer after it
read the clock. -/
theorem reliable_or_dead_retried : ∃ hist σ,
    (system ⟨1200, 10 * second, 1, second, second⟩).Run hist σ ∧
      System.Guarded (Regular (2 * second)) hist ∧ σ.conn.state = .connected ∧
      (∀ p, σ.conn.Waiting p → 1 * second + 3 ≤ p.sendTime + (1 + 1) * (rtoMax + 2 * second)) ∧
      ∃ p, σ.conn.Waiting p ∧ p.sendTime + (1 + 1) * rtoLeast ≤ 3 * second := by
  obtain ⟨hist, σ, hrun, hregular, hlive, hclock, hgiven⟩ := System.exists_history
    (S := system ⟨1200, 10 * second, 1, second, second⟩) (fun _ _ _ h => h)
    ⟨plainInput [(.reliableOrdered, 0)], 0, fun _ _ => rfl, rfl⟩
    [⟨0, [], .send [7] 0⟩, ⟨0, [], .work (.ticking .connected)⟩,
      ⟨1 * second + 3, [], .work (.handling [2, 0, 0, 100, 0, 0, 0, 0, 1] [])⟩,
      ⟨1 * second, [], .work (.ticking .connected)⟩]
    (fun hist σ => System.Guarded (Regular (2 * second)) hist ∧ σ.conn.state = .connected ∧
      σ.clock = 1 * second + 3 ∧ .onDisconnect .error ∈ (σ.conn.tickConnection
        ⟨1200, 10 * second, 1, second, second⟩ ⟨[], []⟩ (3 * second)).2.2) (by decide +kernel)
  obtain ⟨hwait, hkill⟩ := reliable_or_dead (by decide) hrun hregular hlive
  rw [hclock] at hwait
  exact ⟨hist, σ, hrun, hregular, hlive, hwait, hkill _ _ hgiven⟩

end Session

end Fastwire
