/-
# Where the sequence numbers go

A number that `nextSequence` has returned on a reliable channel goes through the
acts of a send into the retransmission queue and stays there until it is
acknowledged. There is one way out: if the packet cannot be written, the send ends
before the number reaches the queue, and nothing remembers it.
-/

import Fastwire.Endpoint.SendSide

namespace Fastwire

open Lib

namespace Endpoint

variable {e e' : Endpoint} {a : Act} {id : UInt8} {seq : ℕ}

/-! ## Numbers -/

/-- The number an act takes on a channel. -/
def takes (id : UInt8) (e : Endpoint) : Act → Option ℕ
  | .number k => if k = id then (e.conn.channel id).map fun ch => ch.nextSequence.2 else none
  | _ => none

/-- The numbers `nextSequence` has returned on a channel, newest first. -/
def taken (hist : List (Endpoint × Act)) (id : UInt8) : List ℕ :=
  hist.filterMap fun past => past.1.takes id past.2

/-- A packet came in that acknowledges the number, after the number was taken. -/
def Acknowledged (hist : List (Endpoint × Act)) (id : UInt8) (seq : ℕ) : Prop :=
  ∃ later e now data earlier, hist = later ++ (e, .packet now data) :: earlier ∧
    seq ∈ taken earlier id ∧ ∃ entry ∈ e.conn.acksIn data, entry.Covers id.toNat seq

/-- The send that has taken the number has not returned. -/
def Underway (e : Endpoint) (id : UInt8) (seq : ℕ) : Prop :=
  (id, seq) ∈ e.numbered ∨ (∃ p ∈ e.stamped, p.channel = id ∧ p.sequence = seq) ∨
    ∃ p ∈ e.transmitted, p.channel = id ∧ p.sequence = seq

def Queued (e : Endpoint) (id : UInt8) (seq : ℕ) : Prop :=
  ∃ ch q, e.conn.channel id = some ch ∧ q ∈ ch.pendingSend ∧ q.sequence = seq

/-- The act is not the failed write of a packet on a reliable channel. -/
def writes (e : Endpoint) : Act → Bool
  | .transmit p written => written || !(e.conn.channel p.channel).any fun ch => ch.mode.reliable
  | _ => true

/-! ## The retransmission queues -/

theorem queued_of_eq (hch : e'.conn.channels = e.conn.channels) (h : e.Queued id seq) :
    e'.Queued id seq := by
  obtain ⟨ch, q, hfound, hq, hseq⟩ := h
  exact ⟨ch, q, by rw [Connection.channel, hch]; exact hfound, hq, hseq⟩

/-- One channel is replaced, and its queue keeps the numbers it had. -/
theorem queued_of_set {k : ℕ} {ch ch' : Channel} (hk : e.conn.channels[k]? = some ch)
    (hset : e'.conn.channels = e.conn.channels.set k ch')
    (hkept : ∀ q ∈ ch.pendingSend, ∃ q' ∈ ch'.pendingSend, q'.sequence = q.sequence)
    (h : e.Queued id seq) : e'.Queued id seq := by
  obtain ⟨chi, q, hfound, hq, rfl⟩ := h
  by_cases hid : k = id.toNat
  · subst hid
    obtain rfl : ch = chi := Option.some.inj (hk.symm.trans hfound)
    obtain ⟨q', hq', hseq⟩ := hkept q hq
    have hlt : id.toNat < e.conn.channels.length := (List.getElem?_eq_some_iff.mp hk).1
    refine ⟨ch', q', ?_, hq', hseq⟩
    rw [Connection.channel, hset, List.getElem?_set_self hlt]
  · refine ⟨chi, q, ?_, hq, rfl⟩
    rw [Connection.channel, hset, List.getElem?_set_ne hid]
    exact hfound

theorem checkRetransmissions_kept (ch : Channel) (now rto maxRetries : ℤ) :
    ∀ q ∈ ch.pendingSend, ∃ q' ∈ (ch.checkRetransmissions now rto maxRetries).1.pendingSend,
      q'.sequence = q.sequence := by
  intro q hq
  have hmem : (q.sequence, q.raw) ∈
      (Channel.checkPending now rto maxRetries ch.pendingSend).1.map
        fun q => (q.sequence, q.raw) := by
    rw [Channel.map_checkPending]
    exact List.mem_map_of_mem (f := fun q : PendingPacket => (q.sequence, q.raw)) hq
  obtain ⟨q', hq', heq⟩ := List.mem_map.mp hmem
  exact ⟨q', hq', congrArg Prod.fst heq⟩

/-- A number leaves the queue of a live connection only if it is acknowledged. -/
theorem queued_step (hstep : e.step a = some e') (hlive : e.tearsDown a = false)
    (h : e.Queued id seq) :
    e'.Queued id seq ∨ ∃ now data, a = .packet now data ∧
      ∃ entry ∈ e.conn.acksIn data, entry.Covers id.toNat seq := by
  have hall : ∀ ch : Channel, ∀ q ∈ ch.pendingSend, ∃ q' ∈ ch.pendingSend,
      q'.sequence = q.sequence := fun _ q hq => ⟨q, hq, rfl⟩
  cases a with
  | packet now data =>
      simp only [step] at hstep
      split at hstep <;> cases hstep
      rename_i c events hok
      obtain ⟨ch, q, hfound, hq, rfl⟩ := h
      obtain ⟨ch', hch', -, -, -, hgone⟩ :=
        (Connection.processPacket_acking hok).channel id.toNat ch hfound
      by_cases hkept : q ∈ ch'.pendingSend
      · exact .inl ⟨ch', q, hch', hkept, rfl⟩
      · exact .inr ⟨now, data, rfl, hgone hlive q hq hkept⟩
  | shutDown reason => cases hlive
  | number k =>
      simp only [step, Option.bind_eq_bind, Option.bind_eq_some_iff] at hstep
      obtain ⟨ch, hch, hstep⟩ := hstep
      cases hstep
      exact .inl (queued_of_set hch rfl (hall ch) h)
  | queue p now =>
      simp only [step] at hstep
      split at hstep <;> cases hstep
      cases hch : e.conn.channel p.channel with
      | none =>
          have hsame : e.conn.queuePacket p now = e.conn := by rw [Connection.queuePacket, hch]
          exact .inl (queued_of_eq (congrArg _ hsame) h)
      | some ch =>
          obtain ⟨entry, -, -, hset⟩ := channels_queuePacket hch now
          split at hset
          · refine .inl (queued_of_set hch hset (fun q hq => ⟨q, ?_, rfl⟩) h)
            exact List.mem_append_left _ hq
          · exact .inl (queued_of_eq hset h)
  | check k now rto maxRetries =>
      simp only [step, Option.bind_eq_bind, Option.bind_eq_some_iff] at hstep
      obtain ⟨ch, hch, hstep⟩ := hstep
      cases hstep
      exact .inl (queued_of_set hch rfl (checkRetransmissions_kept ch now rto maxRetries) h)
  | clearAck k =>
      simp only [step, Option.bind_eq_bind, Option.bind_eq_some_iff] at hstep
      obtain ⟨ch, hch, hstep⟩ := hstep
      cases hstep
      refine .inl (queued_of_set hch rfl ?_ h)
      rw [Channel.clearNeedsAck]
      split <;> exact hall ch
  | _ => exact .inl (queued_of_eq (channels_step hstep rfl) h)

/-! ## Numbers on their way -/

theorem stamped_step (hstep : e.step a = some e')
    (hstamp : ∀ k n fragment body, a ≠ .stamp k n fragment body)
    (htransmit : ∀ p written, a ≠ .transmit p written) : e'.stamped = e.stamped := by
  cases a with
  | stamp k n fragment body => exact absurd rfl (hstamp k n fragment body)
  | transmit p written => exact absurd rfl (htransmit p written)
  | _ =>
      simp only [step, Option.bind_eq_bind, Option.bind_eq_some_iff] at hstep
      grind

theorem transmitted_step (hstep : e.step a = some e')
    (htransmit : ∀ p written, a ≠ .transmit p written) (hqueue : ∀ p now, a ≠ .queue p now) :
    e'.transmitted = e.transmitted := by
  cases a with
  | transmit p written => exact absurd rfl (htransmit p written)
  | queue p now => exact absurd rfl (hqueue p now)
  | _ =>
      simp only [step, Option.bind_eq_bind, Option.bind_eq_some_iff] at hstep
      grind

/-- A number is put on a packet. -/
theorem numbered_kept (hstep : e.step a = some e') (h : (id, seq) ∈ e.numbered) :
    (id, seq) ∈ e'.numbered ∨ ∃ p ∈ e'.stamped, p.channel = id ∧ p.sequence = seq := by
  by_cases hother : (∀ k, a ≠ .number k) ∧ ∀ k n fragment body, a ≠ .stamp k n fragment body
  · rw [numbered_step hstep hother.1 hother.2]
    exact .inl h
  cases a with
  | number k =>
      simp only [step, Option.bind_eq_bind, Option.bind_eq_some_iff] at hstep
      obtain ⟨ch, -, hstep⟩ := hstep
      cases hstep
      exact .inl (List.mem_cons_of_mem _ h)
  | stamp k n fragment body =>
      simp only [step, Option.bind_eq_bind, Option.bind_eq_some_iff] at hstep
      obtain ⟨ch, -, hstep⟩ := hstep
      split at hstep <;> cases hstep
      by_cases hsame : (id, seq) = (k, n)
      · cases hsame
        obtain ⟨p, hbuild, hchannel, hsequence, -⟩ :=
          Connection.buildPacket_ok ch id (if fragment then flagFragment else 0) seq body
        refine .inr ⟨p, ?_, hchannel, hsequence⟩
        rw [hbuild]
        exact List.mem_cons_self
      · exact .inl ((List.mem_erase_of_ne hsame).mpr h)
  | _ => exact absurd ⟨by simp, by simp⟩ hother

/-- A packet is written, unless that fails. -/
theorem stamped_kept (hstep : e.step a = some e') (hwrites : e.writes a = true) {p : Stamped}
    {ch : Channel} (hch : e.conn.channel p.channel = some ch) (hreliable : ch.mode.reliable = true)
    (h : p ∈ e.stamped) : p ∈ e'.stamped ∨ p ∈ e'.transmitted := by
  by_cases hother : (∀ k n fragment body, a ≠ .stamp k n fragment body) ∧
      ∀ p written, a ≠ .transmit p written
  · rw [stamped_step hstep hother.1 hother.2]
    exact .inl h
  cases a with
  | stamp k n fragment body =>
      simp only [step, Option.bind_eq_bind, Option.bind_eq_some_iff] at hstep
      obtain ⟨ch, -, hstep⟩ := hstep
      split at hstep <;> cases hstep
      exact .inl (List.mem_append_right _ h)
  | transmit p' written =>
      simp only [step] at hstep
      split at hstep <;> cases hstep
      by_cases hsame : p = p'
      · subst hsame
        obtain rfl : written = true := by simpa [writes, hch, hreliable] using hwrites
        exact .inr List.mem_cons_self
      · exact .inl ((List.mem_erase_of_ne hsame).mpr h)
  | _ => exact absurd ⟨by simp, by simp⟩ hother

/-- A packet that was written is queued. -/
theorem transmitted_kept (hstep : e.step a = some e') {p : Stamped} {ch : Channel}
    (hch : e.conn.channel p.channel = some ch) (hreliable : ch.mode.reliable = true)
    (h : p ∈ e.transmitted) : p ∈ e'.transmitted ∨ e'.Queued p.channel p.sequence := by
  by_cases hother : (∀ p written, a ≠ .transmit p written) ∧ ∀ p now, a ≠ .queue p now
  · rw [transmitted_step hstep hother.1 hother.2]
    exact .inl h
  cases a with
  | transmit p' written =>
      simp only [step] at hstep
      split at hstep <;> cases hstep
      dsimp only
      split
      · exact .inl (List.mem_cons_of_mem _ h)
      · exact .inl h
  | queue p' now =>
      simp only [step] at hstep
      split at hstep <;> cases hstep
      by_cases hsame : p = p'
      · subst hsame
        obtain ⟨entry, hseq, -, hset⟩ := channels_queuePacket hch now
        rw [if_pos hreliable] at hset
        have hlt : p.channel.toNat < e.conn.channels.length :=
          (List.getElem?_eq_some_iff.mp hch).1
        refine .inr ⟨ch.addPending entry, entry, ?_, ?_, hseq⟩
        · show (e.conn.queuePacket p now).channels[p.channel.toNat]? = _
          rw [hset, List.getElem?_set_self hlt]
        · exact List.mem_append_right _ (List.mem_singleton_self entry)
      · exact .inl ((List.mem_erase_of_ne hsame).mpr h)
  | _ => exact absurd ⟨by simp, by simp⟩ hother

/-- The endpoint still knows the number. -/
def Held (e : Endpoint) (id : UInt8) (seq : ℕ) : Prop := e.Underway id seq ∨ e.Queued id seq

/-- **What an act does to a number.** -/
theorem held_step (hstep : e.step a = some e') (hlive : e.tearsDown a = false)
    (hwrites : e.writes a = true) {ch : Channel} (hch : e.conn.channel id = some ch)
    (hreliable : ch.mode.reliable = true) (h : e.Held id seq) :
    e'.Held id seq ∨ ∃ now data, a = .packet now data ∧
      ∃ entry ∈ e.conn.acksIn data, entry.Covers id.toNat seq := by
  rcases h with (hnumbered | ⟨p, hp, rfl, rfl⟩ | ⟨p, hp, rfl, rfl⟩) | hqueued
  · rcases numbered_kept hstep hnumbered with hkept | hkept
    · exact .inl (.inl (.inl hkept))
    · exact .inl (.inl (.inr (.inl hkept)))
  · rcases stamped_kept hstep hwrites hch hreliable hp with hkept | hkept
    · exact .inl (.inl (.inr (.inl ⟨p, hkept, rfl, rfl⟩)))
    · exact .inl (.inl (.inr (.inr ⟨p, hkept, rfl, rfl⟩)))
  · rcases transmitted_kept hstep hch hreliable hp with hkept | hkept
    · exact .inl (.inl (.inr (.inr ⟨p, hkept, rfl, rfl⟩)))
    · exact .inl (.inr hkept)
  · rcases queued_step hstep hlive hqueued with hkept | hacked
    · exact .inl (.inr hkept)
    · exact .inr hacked

/-- A number that is taken is held. -/
theorem held_of_takes (hstep : e.step a = some e') (h : e.takes id a = some seq) :
    e'.Held id seq := by
  cases a with
  | number k =>
      simp only [takes, Option.ite_none_right_eq_some, Option.map_eq_some_iff] at h
      obtain ⟨rfl, ch, hch, rfl⟩ := h
      simp only [step, Option.bind_eq_bind, Option.bind_eq_some_iff] at hstep
      obtain ⟨ch', hch', hstep⟩ := hstep
      cases hstep
      obtain rfl : ch = ch' := Option.some.inj (hch.symm.trans hch')
      exact .inl (.inl List.mem_cons_self)
  | _ => cases h

/-! ## Runs -/

theorem Acknowledged.cons {hist : List (Endpoint × Act)} (h : Acknowledged hist id seq)
    (past : Endpoint × Act) : Acknowledged (past :: hist) id seq := by
  obtain ⟨later, e, now, data, earlier, rfl, htaken, hentry⟩ := h
  exact ⟨past :: later, e, now, data, earlier, rfl, htaken, hentry⟩

/-- In every run of a live connection in which no write of a reliable packet fails,
a number that was taken on a reliable channel has been acknowledged, or is in the
retransmission queue, or its send has not returned. -/
theorem no_orphaned_number {hist : List (Endpoint × Act)} (hrun : system.Run hist e)
    (hlive : System.Guarded (fun e a => e.tearsDown a = false) hist)
    (hwrites : System.Guarded (fun e a => e.writes a = true) hist) {ch : Channel}
    (hch : e.conn.channel id = some ch) (hreliable : ch.mode.reliable = true)
    (htaken : seq ∈ taken hist id) :
    Acknowledged hist id seq ∨ (∃ q ∈ ch.pendingSend, q.sequence = seq) ∨ e.Underway id seq := by
  have hheld : Acknowledged hist id seq ∨ e.Held id seq := by
    induction hrun generalizing ch with
    | start starts => cases htaken
    | @step hist e e' a prior hstep ih =>
        rw [System.guarded_cons] at hlive hwrites
        obtain ⟨ch₀, hch₀, hkept⟩ := send_step hstep hch
        rw [hkept.mode_eq] at hreliable
        rcases List.mem_filterMap.mp htaken with ⟨past, hpast, htakes⟩
        rcases List.mem_cons.mp hpast with rfl | hold
        · exact .inr (held_of_takes hstep htakes)
        have hprior : seq ∈ taken hist id := List.mem_filterMap.mpr ⟨past, hold, htakes⟩
        rcases ih hlive.2 hwrites.2 hch₀ hreliable hprior with hacked | hheld
        · exact .inl (hacked.cons _)
        rcases held_step hstep hlive.1 hwrites.1 hch₀ hreliable hheld with hheld | hentry
        · exact .inr hheld
        · obtain ⟨now, data, rfl, hentry⟩ := hentry
          exact .inl ⟨[], e, now, data, hist, rfl, hprior, hentry⟩
  rcases hheld with hacked | hunderway | ⟨ch', q, hch', hq, hseq⟩
  · exact .inl hacked
  · exact .inr (.inr hunderway)
  · obtain rfl : ch = ch' := Option.some.inj (hch.symm.trans hch')
    exact .inr (.inl ⟨q, hq, hseq⟩)

/-! ## Two sends -/

def fresh : Endpoint := start (plainInput [(.reliableOrdered, 0)]) 0

def packetFor (seq : ℕ) : Stamped :=
  (Connection.buildPacket (Channel.init .reliableOrdered 0 1024) 0 0 seq [7]).toOption.getD
    ⟨0, 0, []⟩

/-- The acts of a send, up to the write. -/
def sendActs (seq : ℕ) (written : Bool) : List Act :=
  [.number 0, .stamp 0 seq false [7], .transmit (packetFor seq) written]

/-- The history of a list of acts, and the state behind them. -/
def historyOf (acts : List Act) : List (Endpoint × Act) := System.history step fresh [] acts

def stateAfter (acts : List Act) : Endpoint := (fresh.exec acts).getD fresh

theorem run_historyOf {acts : List Act} (h : (fresh.exec acts).isSome = true) :
    system.Run (historyOf acts) (stateAfter acts) := by
  obtain ⟨e, hexec⟩ := Option.isSome_iff_exists.mp h
  have hstart : system.Run [] fresh := .start ⟨_, _, rfl⟩
  rw [stateAfter, hexec]
  exact hstart.exec_history (fun _ _ _ hstep => hstep) hexec

/-- Nothing has come in. -/
theorem not_acknowledged {acts : List Act} {hist : List (Endpoint × Act)}
    (hhist : hist.map Prod.snd = acts.reverse) (h : ∀ now data, .packet now data ∉ acts) :
    ¬Acknowledged hist id seq := by
  rintro ⟨later, e, now, data, earlier, rfl, -⟩
  apply h now data
  rw [← List.mem_reverse, ← hhist, List.map_append, List.map_cons]
  exact List.mem_append_right _ List.mem_cons_self

theorem not_underway (h : (e.numbered, e.stamped, e.transmitted) = ([], [], [])) :
    ¬e.Underway id seq := by
  simp only [Prod.mk.injEq] at h
  simp [Underway, h]

/-- One message that is written. -/
def sentActs : List Act := sendActs 1 true ++ [.queue (packetFor 1) 0]

theorem no_orphaned_number_sent :
    ∃ ch, (stateAfter sentActs).conn.channel 0 = some ch ∧
      ∃ q ∈ ch.pendingSend, q.sequence = 1 := by
  obtain ⟨ch, hch⟩ : ∃ ch, (stateAfter sentActs).conn.channel 0 = some ch := ⟨_, rfl⟩
  have hreliable : ch.mode.reliable = true := by
    cases hch
    rfl
  have hlive : System.Guarded (fun e a => e.tearsDown a = false) (historyOf sentActs) := by
    decide +kernel
  have hwrites : System.Guarded (fun e a => e.writes a = true) (historyOf sentActs) := by
    decide +kernel
  refine ⟨ch, hch, ?_⟩
  rcases no_orphaned_number (run_historyOf (by decide +kernel)) hlive hwrites hch hreliable
    (by decide +kernel : 1 ∈ taken (historyOf sentActs) 0) with hacked | hqueued | hunderway
  · have hnone : ¬Acknowledged (historyOf sentActs) 0 1 :=
      not_acknowledged (rfl : _ = sentActs.reverse) (by simp [sentActs, sendActs])
    exact absurd hacked hnone
  · exact hqueued
  · exact absurd hunderway (not_underway (by decide +kernel))

/-- Two messages. The first cannot be written. -/
def lostActs : List Act := sendActs 1 false ++ sendActs 2 true ++ [.queue (packetFor 2) 0]

/-- The first message cannot be written, the second one can. The number of the first
is lost: the receiver gets number 2 and waits for number 1. -/
theorem number_orphaned :
    let first := fresh.conn.sendMessage ⟨[true], []⟩ [7] 0 0
    let second := first.1.sendMessage first.2.1 [7] 0 0
    first.2.2 = .error .socket ∧ second.2.2 = .ok () ∧
      ∃ hist e ch, system.Run hist e ∧ System.Guarded (fun e a => e.tearsDown a = false) hist ∧
        e.conn.channels = second.1.channels ∧ e.conn.channel 0 = some ch ∧
        ch.mode.reliable = true ∧ taken hist 0 = [2, 1] ∧ ¬Acknowledged hist 0 1 ∧
        ¬e.Underway 0 1 ∧ ∀ q ∈ ch.pendingSend, q.sequence ≠ 1 := by
  have hnone : ¬Acknowledged (historyOf lostActs) 0 1 :=
    not_acknowledged (rfl : _ = lostActs.reverse) (by simp [lostActs, sendActs])
  exact ⟨by decide +kernel, by decide +kernel, historyOf lostActs, stateAfter lostActs, _,
    run_historyOf (by decide +kernel), by decide +kernel, rfl, rfl, rfl, by decide +kernel, hnone,
    not_underway (by decide +kernel), by decide +kernel⟩

end Endpoint

end Fastwire
