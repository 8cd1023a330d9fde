/-
# Which packets can still be acknowledged

The acknowledgement state of a channel covers the highest accepted number and
the 32 below it. A packet that was accepted and whose acknowledgements were all
lost waits in the sender's retransmission queue; as soon as the receiver accepts
a number more than 32 above it, no acknowledgement will ever cover it again. The
runs in which this does not happen are exactly those whose steps respect the
distance.
-/

import Fastwire.Pair.AckSound
import Mathlib.Data.FinEnum

namespace Fastwire.Pair

open Lib

variable {hist : List (Pair × (Side × Act))} {p p' : Pair} {s : Side}

/-- Every packet in the retransmission queues of one end that the other end has
accepted is covered by the acknowledgement state of the other end. -/
def Covered (s : Side) (p : Pair) : Prop :=
  ∀ id ch ch', (p.get s).conn.channel id = some ch → (p.get s.other).conn.channel id = some ch' →
    ∀ q ∈ ch.pendingSend, q.sequence ∈ acceptedOn (p.get s.other).trace id →
      Channel.isAcked q.sequence ch'.recvAck ch'.recvAckField = true

instance : DecidablePred (Covered s) := fun p =>
  decidable_of_iff (∀ id, ∀ ch ∈ (p.get s).conn.channel id,
      ∀ ch' ∈ (p.get s.other).conn.channel id, ∀ q ∈ ch.pendingSend,
        q.sequence ∈ acceptedOn (p.get s.other).trace id →
          Channel.isAcked q.sequence ch'.recvAck ch'.recvAckField = true)
    ⟨fun h id ch ch' hch hch' => h id ch hch ch' hch', fun h id ch hch ch' => h id ch ch' hch⟩

/-- The condition on a step. -/
structure InReach (s : Side) (p : Pair) (move : Side × Act) : Prop where
  /-- The receiver accepts a number only if it is at most 32 above every accepted
  packet that still waits. -/
  accept : ∀ now data, move = (s.other, .packet now data) → ∀ hdr body ch',
    (p.get s.other).conn.acceptedPacket data = some (hdr, body, ch') →
    ∀ ch, (p.get s).conn.channel hdr.channel = some ch → ∀ q ∈ ch.pendingSend,
      q.sequence ∈ acceptedOn (p.get s.other).trace hdr.channel →
        hdr.sequence.toNat ≤ q.sequence + 32
  /-- A packet that was accepted before it is queued is queued only if the
  receiver's highest number is at most 32 above it. -/
  queue : ∀ stamped now, move = (s, .queue stamped now) → ∀ ch ch',
    (p.get s).conn.channel stamped.channel = some ch → ch.mode.reliable = true →
    (p.get s.other).conn.channel stamped.channel = some ch' →
    stamped.sequence ∈ acceptedOn (p.get s.other).trace stamped.channel →
      ch'.recvAck ≤ stamped.sequence + 32

/-- Coverage as a distance. -/
theorem covered_iff (hsound : (p.get s.other).Sound) :
    Covered s p ↔ ∀ id ch ch', (p.get s).conn.channel id = some ch →
      (p.get s.other).conn.channel id = some ch' → ∀ q ∈ ch.pendingSend,
        q.sequence ∈ acceptedOn (p.get s.other).trace id → ch'.recvAck ≤ q.sequence + 32 := by
  have hacked : ∀ id ch', (p.get s.other).conn.channel id = some ch' →
      ∀ seq ∈ acceptedOn (p.get s.other).trace id,
        (Channel.isAcked seq ch'.recvAck ch'.recvAckField = true ↔ ch'.recvAck ≤ seq + 32) := by
    intro id ch' hch' seq hseq
    have hexact := (hsound id ch' hch').exact
    rw [Channel.isAcked_iff hexact fun _ hzero => hexact.zero_notMem (hzero ▸ hseq)]
    exact and_iff_right hseq
  constructor
  · intro h id ch ch' hch hch' q hq hseq
    exact (hacked id ch' hch' _ hseq).mp (h id ch ch' hch hch' q hq hseq)
  · intro h id ch ch' hch hch' q hq hseq
    exact (hacked id ch' hch' _ hseq).mpr (h id ch ch' hch hch' q hq hseq)

/-- A step of the sender. -/
theorem covered_sender {a : Act} {e' : Endpoint} (hsound : (p.get s.other).Sound)
    (h : Covered s p) (hstep : (p.get s).step a = some e') :
    Covered s (p.set s e') ↔ InReach s p (s, a) := by
  have hsound' : ((p.set s e').get s.other).Sound := by simpa using hsound
  rw [covered_iff hsound] at h
  rw [covered_iff hsound', get_set, get_other_set]
  constructor
  · intro h'
    refine ⟨fun now data hmove => ?_, fun stamped now hmove ch ch' hch hmode hch' hseq => ?_⟩
    · exact absurd (congrArg Prod.fst hmove).symm s.other_ne
    · obtain rfl : a = .queue stamped now := congrArg Prod.snd hmove
      simp only [Endpoint.step] at hstep
      split at hstep <;> cases hstep
      obtain ⟨entry, hentry, -, hset⟩ := Endpoint.channels_queuePacket hch now
      rw [if_pos hmode] at hset
      have hqueued : ((p.get s).conn.queuePacket stamped now).channel stamped.channel =
          some (ch.addPending entry) := by
        rw [Connection.channel, hset]
        have hlt := (List.getElem?_eq_some_iff.mp hch).1
        simp [hlt]
      have hnear := h' stamped.channel _ ch' hqueued hch' entry (by simp [Channel.addPending])
      rw [hentry] at hnear
      exact hnear hseq
  · intro hreach id ch₁ ch' hch₁ hch' q hq hseq
    obtain ⟨ch, hch, hkept⟩ := Endpoint.send_step hstep hch₁
    rcases hkept.pending q hq with ⟨q₀, hq₀, hsame, -⟩ |
      ⟨stamped, now, rfl, -, hid, hmode, hsame, -⟩
    · rw [← hsame] at hseq ⊢
      exact h id ch ch' hch hch' q₀ hq₀ hseq
    · obtain rfl : stamped.channel = id := UInt8.toNat_inj.mp hid
      rw [hsame] at hseq ⊢
      exact hreach.queue stamped now rfl ch ch' hch hmode hch' hseq

/-- A step of the receiver. -/
theorem covered_receiver {a : Act} {e' : Endpoint} (hsound : (p.get s.other).Sound)
    (h : Covered s p) (hstep : (p.get s.other).step a = some e') :
    Covered s (p.set s.other e') ↔ InReach s p (s.other, a) := by
  have hsend : ∀ stamped now, (s.other, a) ≠ (s, .queue stamped now) := by
    intro stamped now hmove
    exact absurd (congrArg Prod.fst hmove) s.other_ne
  have hsound' : ((p.set s.other e').get s.other).Sound := by
    rw [get_set]
    exact hsound.step hstep
  rw [covered_iff hsound] at h
  rw [covered_iff hsound', get_set, get_set_other]
  rw [get_set] at hsound'
  rcases Endpoint.step_cases hstep with hidle | hacc
  · -- nothing is accepted, so both sides hold
    refine iff_of_true ?_ ⟨?_, fun stamped now hmove => absurd hmove (hsend stamped now)⟩
    · intro id ch ch₁ hch hch₁ q hq hseq
      obtain ⟨ch', hch', hsame⟩ := hidle.exists_channel hch₁
      rw [hidle.acceptedOn_eq] at hseq
      rw [hsame.ack_eq]
      exact h id ch ch' hch hch' q hq hseq
    · rintro now data hmove hdr body ch' hpacket
      rw [hidle.refused now data (congrArg Prod.snd hmove)] at hpacket
      cases hpacket
  obtain ⟨now, data, hdr, body, ch', acks, ps, n, ch₁, events, rfl, hpacket, hacc, heq⟩ := hacc
  have htrace : e'.trace = (p.get s.other).trace ++ events := by rw [heq]
  have hinv := hsound _ ch' hacc.channel_eq
  have hexact := (hsound' _ ch₁ hacc.channel_eq').exact
  have hseen : acceptedOn e'.trace hdr.channel =
      insert hdr.sequence.toNat (acceptedOn (p.get s.other).trace hdr.channel) := by
    rw [htrace]
    exact ReceiveInv.acceptedOn_accepting hacc
  rw [hseen] at hexact
  constructor
  · intro h'
    refine ⟨?_, fun stamped now hmove => absurd hmove (hsend stamped now)⟩
    rintro now' data' ⟨⟩ hdr' body' k hpacket' ch hch q hq hseq
    obtain ⟨rfl, -⟩ : hdr = hdr' ∧ body = body' ∧ ch' = k := by simpa [hpacket] using hpacket'
    have hnear := h' hdr.channel ch ch₁ hch hacc.channel_eq' q hq (by rw [hseen]; exact .inr hseq)
    exact (hexact.le_top _ (Set.mem_insert _ _)).trans hnear
  · intro hreach id ch k hch hk q hq hseq
    by_cases hid : id = hdr.channel
    · subst hid
      obtain rfl : ch₁ = k := Option.some.inj (hacc.channel_eq'.symm.trans hk)
      obtain ⟨-, -, -, hin⟩ := (Channel.recordReceive_iff hinv.exact).mp hacc.fresh
      rw [hseen] at hseq
      -- the new highest number is the accepted one or the old one
      by_cases hzero : ch₁.recvAck = 0
      · omega
      rcases hexact.top_mem hzero with htop | htop
      · rcases hseq with hself | hold
        · omega
        · rw [htop]
          exact hreach.accept now data rfl hdr body ch' hpacket ch hch q hq hold
      · have hle := hinv.exact.le_top _ htop
        rcases hseq with hself | hold
        · omega
        · exact hle.trans (h _ ch ch' hch hacc.channel_eq q hq hold)
    · obtain ⟨⟨k₀, hk₀, hsame⟩, hother, -, -⟩ := Endpoint.accepting_other hacc hid hk
      rw [htrace, hother] at hseq
      rw [hsame.ack_eq]
      exact h id ch k₀ hch hk₀ q hq hseq

/-- **Coverage.** In a run of the two ends every accepted packet that still waits
for its acknowledgement is covered all along, if and only if all steps keep
within reach. -/
theorem always_covered_iff (hrun : system.Run hist p) (s : Side) :
    System.Always (Covered s) hist p ↔ System.Guarded (InReach s) hist := by
  refine hrun.always_iff_guarded ?_ ?_
  · intro p hinit id ch ch' hch hch' q hq
    obtain ⟨input, now, heq, -⟩ := hinit s
    rw [heq] at hch
    obtain ⟨mode, streamIndex, window, rfl⟩ := Connection.channel_newConnection input now hch
    cases hq
  · rintro hist p ⟨side, a⟩ p' hprior h htaken
    obtain ⟨-, e', hstep, rfl⟩ := step_eq_some_iff.mp htaken
    have hsound := sound_get hprior s.other
    by_cases hside : side = s
    · subst hside
      exact covered_sender hsound h hstep
    · obtain rfl := Side.eq_other_of_ne hside
      exact covered_receiver hsound h hstep

/-- Packets 1 to 3 are sent, packet 3 and then packet 1 arrive, and no acknowledgement
comes back. -/
theorem always_covered_iff_waiting :
    ∃ hist p, system.Run hist p ∧
      ((p.left.conn.channel 0).any fun ch => ch.pendingSend.map (·.sequence) = [1, 2, 3]) = true ∧
      1 ∈ acceptedOn p.right.trace 0 ∧ 3 ∈ acceptedOn p.right.trace 0 ∧
      System.Always (Covered .left) hist p ∧ System.Guarded (InReach .left) hist := by
  let raw (n : ℕ) : Bytes := [0, 0, UInt8.ofNat n, 0, 0, 0, 0, 0, 7]
  let sent : List (Side × Act) :=
    (List.range' 1 3).flatMap fun n => (sendActs 0 n false [7] (raw n)).map fun a => (.left, a)
  let received : List (Side × Act) := [(.right, .packet 0 (raw 3)), (.right, .packet 0 (raw 1))]
  obtain ⟨hist, p, hrun, hpending, hfirst, hthird, hcovered⟩ :=
    System.exists_history (S := system) (fun _ _ _ hstep => hstep)
      (init_plain [(.reliableOrdered, 0)]) (sent ++ received)
      (fun hist p =>
        ((p.left.conn.channel 0).any fun ch => ch.pendingSend.map (·.sequence) = [1, 2, 3]) = true ∧
        1 ∈ acceptedOn p.right.trace 0 ∧ 3 ∈ acceptedOn p.right.trace 0 ∧
        System.Always (Covered .left) hist p) (by decide +kernel)
  exact ⟨hist, p, hrun, hpending, hfirst, hthird, hcovered,
    (always_covered_iff hrun .left).mp hcovered⟩

/-- Packets 1 to 34 are sent, packets 1 and 34 arrive. Packet 1 was accepted and
waits for its acknowledgement, but the receiver's state does not cover it. -/
theorem accepted_packet_not_covered :
    ∃ hist p ch ch' q, system.Run hist p ∧ p.left.conn.channel 0 = some ch ∧
      p.right.conn.channel 0 = some ch' ∧ ch.mode = .reliableOrdered ∧ q ∈ ch.pendingSend ∧
      q.sequence ∈ acceptedOn p.right.trace 0 ∧
      Channel.isAcked q.sequence ch'.recvAck ch'.recvAckField = false := by
  let raw (n : ℕ) : Bytes := [0, 0, UInt8.ofNat n, 0, 0, 0, 0, 0, 7]
  let sent : List (Side × Act) :=
    (List.range' 1 34).flatMap fun n => (sendActs 0 n false [7] (raw n)).map fun a => (.left, a)
  let received : List (Side × Act) := [(.right, .packet 0 (raw 1)), (.right, .packet 0 (raw 34))]
  obtain ⟨hist, p, hrun, hp⟩ := System.exists_run (S := system) (fun _ _ _ hstep => hstep)
    (init_plain [(.reliableOrdered, 0)]) (sent ++ received)
    (fun p => (p.left.conn.channel 0).any fun ch => (p.right.conn.channel 0).any fun ch' =>
      ch.pendingSend.any fun q => ch.mode = .reliableOrdered ∧
        q.sequence ∈ acceptedOn p.right.trace 0 ∧
        Channel.isAcked q.sequence ch'.recvAck ch'.recvAckField = false) (by decide +kernel)
  obtain ⟨ch, hch, hp⟩ := (Option.any_eq_true ..).mp hp
  obtain ⟨ch', hch', hp⟩ := (Option.any_eq_true ..).mp hp
  obtain ⟨q, hq, hp⟩ := List.any_eq_true.mp hp
  obtain ⟨hmode, hacc, hlost⟩ := of_decide_eq_true hp
  exact ⟨hist, p, ch, ch', q, hrun, hch, hch', hmode, hq, hacc, hlost⟩

end Fastwire.Pair
