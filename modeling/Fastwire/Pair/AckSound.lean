/-
# Acknowledgements are true

An acknowledgement is a snapshot of a receive window that may arrive at any
later time, in any order and any number of times: in the header of a data
packet, in the header of its retransmissions, in a multi-channel
acknowledgement. It stays true, because what has been accepted stays accepted.
So it is enough that every plaintext is true when it is built.
-/

import Fastwire.Pair.Basic

namespace Fastwire

open Lib

/-! ## The acknowledgements in the plaintexts that are built -/

/-- A data packet acknowledges for its own channel. -/
theorem acksOf_buildPacket {ch : Channel} {id flags : UInt8} {seq : ℕ} {body : Bytes} {p : Stamped}
    (hflags : flags &&& flagControl = 0)
    (hok : Connection.buildPacket ch id flags seq body = .ok p) :
    acksOf p.raw = [⟨id, UInt32.ofNat ch.recvAck, ch.recvAckField⟩] := by
  obtain ⟨n, hparse, -⟩ := unmarshalHeader_buildPacket hok
  simp [acksOf, hparse, Connection.dataHeader, hflags, Channel.ackState]

/-- The header of a control packet acknowledges nothing. -/
theorem acksOf_buildControlPacket {room : ℕ} {payload raw : Bytes}
    (hok : buildControlPacket room ⟨flagControl, 0, 0, 0, 0⟩ payload = .ok raw) :
    acksOf raw = ⟨0, 0, 0⟩ :: controlAcks payload := by
  obtain ⟨n, hparse, hbody⟩ := unmarshalHeader_buildControlPacket hok
  have hflag : flagControl &&& flagControl ≠ 0 := by decide
  simp only [acksOf, hparse, if_pos hflag, hbody]

/-- A multi-channel acknowledgement carries its entries. -/
theorem acksOf_multiAckPacket {entries : List MultiAckEntry} {raw : Bytes}
    (hok : Connection.multiAckPacket entries = .ok raw) :
    acksOf raw = ⟨0, 0, 0⟩ :: entries := by
  obtain ⟨room, tail, hbuild, hparse⟩ := Connection.multiAckPacket_ok hok
  rw [acksOf_buildControlPacket hbuild]
  simp [controlAcks, ControlType.ofByte_toByte, hparse]

/-! ## Truth -/

/-- The plaintext acknowledges only what the endpoint has accepted. -/
def Endpoint.Truthful (e : Endpoint) (raw : Bytes) : Prop :=
  ∀ entry ∈ acksOf raw, ∀ seq, entry.Covers entry.channel.toNat seq →
    seq ∈ acceptedOn e.trace entry.channel

/-- Everything the endpoint has sealed or may still seal is true. -/
def Endpoint.Honest (e : Endpoint) : Prop := ∀ raw, e.InPlay raw → e.Truthful raw

/-- The entry in the header of a control packet covers nothing. -/
theorem not_covers_zero (i seq : ℕ) : ¬ (MultiAckEntry.mk 0 0 0).Covers i seq :=
  fun h => h.2.1 rfl

namespace Endpoint

variable {e e' : Endpoint} {a : Act}

/-- Nothing that was accepted is forgotten. -/
theorem acceptedOn_step (hstep : e.step a = some e') (id : UInt8) :
    acceptedOn e.trace id ⊆ acceptedOn e'.trace id := by
  rcases step_cases hstep with hidle | ⟨_, _, _, _, _, _, _, _, _, events, -, -, -, heq⟩
  · rw [hidle.acceptedOn_eq]
  · rw [heq]
    simp only [acceptedOn_append, Set.subset_union_left]

theorem Truthful.step {raw : Bytes} (h : e.Truthful raw) (hstep : e.step a = some e') :
    e'.Truthful raw :=
  fun entry hentry seq hcovers => acceptedOn_step hstep _ (h entry hentry seq hcovers)

/-- A snapshot of a channel's acknowledgement state is true. -/
theorem mem_of_covers_snapshot {id : UInt8} {ch : Channel} (hinv : ReceiveInv e.trace id ch)
    {seq : ℕ}
    (hcovers :
      (MultiAckEntry.mk id (UInt32.ofNat ch.recvAck) ch.recvAckField).Covers id.toNat seq) :
    seq ∈ acceptedOn e.trace id := by
  obtain ⟨-, hne, hacked⟩ := hcovers
  have hfirst : ch.recvAck ≠ 0 := by
    intro hzero
    exact hne (by simp [hzero])
  have hlt : ch.recvAck < 2 ^ 32 := hinv.accepted_lt _ (hinv.exact.top_mem hfirst)
  have hwire : (UInt32.ofNat ch.recvAck).toNat = ch.recvAck := by
    rw [UInt32.toNat_ofNat', Nat.mod_eq_of_lt hlt]
  simp only [hwire] at hacked
  exact ((Channel.isAcked_iff hinv.exact fun hzero => absurd hzero hfirst).mp hacked).1

/-- What an act builds is true. -/
theorem truthful_of_composes (hsound : e.Sound) {raw : Bytes} (h : e.Composes a raw) :
    e.Truthful raw := by
  intro entry hentry seq hcovers
  cases a with
  | stamp id n fragment body =>
      obtain ⟨ch, p, hch, -, hbuild, rfl⟩ := h
      have hflags : (if fragment then flagFragment else 0) &&& flagControl = 0 := by
        cases fragment <;> decide
      rw [acksOf_buildPacket hflags hbuild, List.mem_singleton] at hentry
      subst hentry
      exact mem_of_covers_snapshot (hsound id ch hch) hcovers
  | sealAcks ids =>
      rw [acksOf_multiAckPacket h] at hentry
      rcases List.mem_cons.mp hentry with rfl | hentry
      · exact absurd hcovers (not_covers_zero _ _)
      · simp only [Connection.multiAckEntries, List.mem_filterMap, Option.map_eq_some_iff] at hentry
        obtain ⟨id, -, ch, hch, rfl⟩ := hentry
        exact mem_of_covers_snapshot (hsound id ch hch) hcovers
  | sealDisconnect =>
      have hnone : controlAcks [ControlType.disconnect.toByte] = [] := by decide
      rw [acksOf_buildControlPacket h, hnone, List.mem_singleton] at hentry
      subst hentry
      exact absurd hcovers (not_covers_zero _ _)
  | _ => cases h

theorem Honest.step (h : e.Honest) (hsound : e.Sound) (hstep : e.step a = some e') : e'.Honest := by
  intro raw hraw
  rcases inPlay_step hstep hraw with hold | hnew
  · exact (h raw hold).step hstep
  · exact (truthful_of_composes hsound hnew).step hstep

theorem honest_of_fresh (h : Pair.Fresh e) : e.Honest := by
  obtain ⟨input, now, rfl, hsealed⟩ := h
  intro raw hraw entry hentry seq hcovers
  obtain ⟨token, htoken⟩ := hsealed raw (inPlay_start hraw)
  have hnone : controlAcks (ControlType.response.toByte :: token) = [] := by
    simp [controlAcks, ControlType.ofByte_toByte]
  rw [acksOf_buildControlPacket htoken, hnone, List.mem_singleton] at hentry
  subst hentry
  exact absurd hcovers (not_covers_zero _ _)

end Endpoint

namespace Pair

variable {hist : List (Pair × (Side × Act))} {p p' : Pair} {s : Side}

/-- Both ends are honest in every reachable state. -/
theorem honest_get (hrun : system.Run hist p) (s : Side) : (p.get s).Honest := by
  have hboth : (p.get s).Sound ∧ (p.get s).Honest := by
    refine get_invariant (fun e => e.Sound ∧ e.Honest) (fun e hfresh => ?_)
      (fun e e' a hstep h => ?_) hrun s
    · refine ⟨?_, Endpoint.honest_of_fresh hfresh⟩
      obtain ⟨input, now, rfl, -⟩ := hfresh
      exact Endpoint.sound_start input now
    · exact ⟨h.1.step hstep, h.2.step h.1 hstep⟩
  exact hboth.2

/-- An acknowledgement that reaches an end is true of the other end. -/
theorem accepted_of_covers (hrun : system.Run hist p) {now : ℤ} {data : Bytes}
    (hauth : p.authentic s (.packet now data) = true) {entry : MultiAckEntry}
    (hentry : entry ∈ (p.get s).conn.acksIn data) {id : UInt8} {seq : ℕ}
    (hcovers : entry.Covers id.toNat seq) : seq ∈ acceptedOn (p.get s.other).trace id := by
  simp only [authentic] at hauth
  simp only [Connection.acksIn] at hentry
  split at hentry
  · cases hentry
  · rename_i plaintext cipher hdec
    simp only [hdec, decide_eq_true_eq] at hauth
    obtain rfl : entry.channel = id := UInt8.toNat_inj.mp hcovers.1
    exact honest_get hrun s.other plaintext (.sealed hauth) entry hentry seq hcovers

/-- **Acknowledgements are sound.** A packet that `processAcks` takes from the
retransmission queue of one end has been accepted by the other end before. The
trace records what `processAcks` returned, and a packet that is gone from the
queue after a step was returned by it, unless the step tore the connection
down. -/
theorem acked_accepted (hrun : system.Run hist p) {now : ℤ} {data : Bytes}
    (hstep : p.step (s, .packet now data) = some p') :
    (∃ events, (p'.get s).trace = (p.get s).trace ++ events ∧
      ∀ id seqs, .acked id seqs ∈ events →
        ∀ seq ∈ seqs, seq ∈ acceptedOn (p.get s.other).trace id) ∧
    ∀ id ch ch', (p.get s).conn.channel id = some ch → (p'.get s).conn.channel id = some ch' →
      ∀ q ∈ ch.pendingSend, q ∉ ch'.pendingSend →
        q.sequence ∈ acceptedOn (p.get s.other).trace id ∨
          (p.get s).conn.disconnects data = true := by
  obtain ⟨hauth, e', he', rfl⟩ := step_eq_some_iff.mp hstep
  simp only [Endpoint.step] at he'
  split at he' <;> cases he'
  rename_i c events hok
  have hacking := Connection.processPacket_acking hok
  rw [get_set]
  refine ⟨⟨events, rfl, fun id seqs hmem seq hseq => ?_⟩, fun id ch ch' hch hch' q hq hgone => ?_⟩
  · obtain ⟨entry, hentry, hcovers⟩ := hacking.acked id seqs hmem seq hseq
    exact accepted_of_covers hrun hauth hentry hcovers
  · obtain ⟨ch₁, hch₁, -, -, -, hremoved⟩ := hacking.channel id.toNat ch hch
    obtain rfl : ch₁ = ch' := Option.some.inj (hch₁.symm.trans hch')
    cases htorn : (p.get s).conn.disconnects data with
    | true => exact .inr rfl
    | false =>
        obtain ⟨entry, hentry, hcovers⟩ := hremoved htorn q hq hgone
        exact .inl (accepted_of_covers hrun hauth hentry hcovers)

/-- One packet is sent, received and acknowledged. -/
theorem acked_accepted_first :
    ∃ hist p p' ch ch' q, system.Run hist p ∧
      p.step (.left, .packet 0 [2, 0, 0, 0, 0, 0, 0, 0, 9, 1, 0, 1, 0, 0, 0, 0]) = some p' ∧
      p.left.conn.channel 0 = some ch ∧ p'.left.conn.channel 0 = some ch' ∧
      q ∈ ch.pendingSend ∧ q ∉ ch'.pendingSend ∧ q.sequence ∈ acceptedOn p.right.trace 0 := by
  let sent : List (Side × Act) :=
    (sendActs 0 1 false [7] [0, 0, 1, 0, 0, 0, 0, 0, 7]).map fun a => (.left, a)
  let received : List (Side × Act) :=
    [(.right, .packet 0 [0, 0, 1, 0, 0, 0, 0, 0, 7]), (.right, .sealAcks [0])]
  obtain ⟨hist, p, hrun, hp⟩ := System.exists_run (S := system) (fun _ _ _ hstep => hstep)
    (init_plain [(.reliableOrdered, 0)]) (sent ++ received)
    (fun p =>
      (p.step (.left, .packet 0 [2, 0, 0, 0, 0, 0, 0, 0, 9, 1, 0, 1, 0, 0, 0, 0])).any fun p' =>
      !p.left.conn.disconnects [2, 0, 0, 0, 0, 0, 0, 0, 9, 1, 0, 1, 0, 0, 0, 0] &&
      (p.left.conn.channel 0).any fun ch => (p'.left.conn.channel 0).any fun ch' =>
        ch.pendingSend.any fun q => decide (q ∉ ch'.pendingSend)) (by decide +kernel)
  obtain ⟨p', hstep, hp⟩ := (Option.any_eq_true ..).mp hp
  obtain ⟨hdis, hp⟩ := Bool.and_eq_true_iff.mp hp
  obtain ⟨ch, hch, hp⟩ := (Option.any_eq_true ..).mp hp
  obtain ⟨ch', hch', hp⟩ := (Option.any_eq_true ..).mp hp
  obtain ⟨q, hq, hgone⟩ := List.any_eq_true.mp hp
  have hgone : q ∉ ch'.pendingSend := of_decide_eq_true hgone
  refine ⟨hist, p, p', ch, ch', q, hrun, hstep, hch, hch', hq, hgone, ?_⟩
  rcases (acked_accepted hrun hstep).2 0 ch ch' hch hch' q hq hgone with hacc | htorn
  · exact hacc
  · have hstay : p.left.conn.disconnects [2, 0, 0, 0, 0, 0, 0, 0, 9, 1, 0, 1, 0, 0, 0, 0] =
        false := by
      simpa using hdis
    exact absurd (hstay.symm.trans htorn) Bool.false_ne_true

end Pair

end Fastwire
