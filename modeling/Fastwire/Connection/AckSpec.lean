/-
# What a packet acknowledges

The send side of processing a packet. A plaintext carries a list of
acknowledgements: the one in its header and, in a multi-channel acknowledgement,
the entries. Whatever else the packet does, packets leave the retransmission
queues only because one of these acknowledges them, or because the connection is
torn down.
-/

import Fastwire.Connection.ReceiveSpec

namespace Fastwire

open Crypto

def controlAcks : Bytes → List MultiAckEntry
  | [] => []
  | ct :: data =>
      if ControlType.ofByte ct = some .multiAck then
        match unmarshalMultiAck data with
        | .error _ => []
        | .ok (entries, _) => entries
      else []

/-- The acknowledgements in a plaintext. -/
def acksOf (plaintext : Bytes) : List MultiAckEntry :=
  match unmarshalHeader plaintext with
  | .error _ => []
  | .ok (hdr, n) =>
      ⟨hdr.channel, hdr.ack, hdr.ackField⟩ ::
        if hdr.flags &&& flagControl ≠ 0 then controlAcks (plaintext.drop n) else []

/-- The entry acknowledges a sequence number of the channel with the given
index. -/
def MultiAckEntry.Covers (entry : MultiAckEntry) (i seq : ℕ) : Prop :=
  entry.channel.toNat = i ∧ entry.ack ≠ 0 ∧
    Channel.isAcked seq entry.ack.toNat entry.ackField = true

instance (entry : MultiAckEntry) (i seq : ℕ) : Decidable (entry.Covers i seq) :=
  inferInstanceAs (Decidable (_ ∧ _ ∧ _))

/-- The packets removed by `processAcks` are acknowledged by what it was called
with. -/
theorem Channel.isAcked_of_mem_processAcks (ch : Channel) (now : ℤ) (ack : ℕ) (field : BitVec 32)
    (r : Rtt) {seq : ℕ} (hseq : seq ∈ (ch.processAcks now ack field r).2.1) :
    ack ≠ 0 ∧ isAcked seq ack field = true := by
  rw [processAcks] at hseq
  split at hseq
  · cases hseq
  · rename_i hsome
    simp only [List.mem_map, List.mem_filter] at hseq
    obtain ⟨p, ⟨-, hacked⟩, rfl⟩ := hseq
    exact ⟨fun hzero => hsome (.inl hzero), hacked⟩

/-- What `processAcks` leaves is not acknowledged. -/
theorem Channel.not_isAcked_of_mem (ch : Channel) (now : ℤ) {ack : ℕ} (field : BitVec 32)
    (r : Rtt) (hack : ack ≠ 0) {q : PendingPacket}
    (hq : q ∈ (ch.processAcks now ack field r).1.pendingSend) :
    Channel.isAcked q.sequence ack field = false := by
  rw [Channel.processAcks] at hq
  split at hq
  · rename_i hnone
    rw [hnone.resolve_left hack] at hq
    cases hq
  · simpa using (List.mem_filter.mp hq).2

namespace Connection

variable {c c' c'' : Connection}

/-- The send side after some acknowledgements have been applied. -/
structure Acking (acks : List MultiAckEntry) (torn : Bool) (c c' : Connection)
    (events : List Event) : Prop where
  channel : ∀ (i : ℕ) (ch : Channel), c.channels[i]? = some ch → ∃ ch', c'.channels[i]? = some ch' ∧
    ch'.mode = ch.mode ∧ ch'.sendSeq = ch.sendSeq ∧ ch'.pendingSend.Sublist ch.pendingSend ∧
    (torn = false → ∀ p ∈ ch.pendingSend, p ∉ ch'.pendingSend →
      ∃ entry ∈ acks, entry.Covers i p.sequence)
  length_eq : c'.channels.length = c.channels.length
  sendCipher_eq : c'.sendCipher = c.sendCipher
  fragmentID_eq : c'.fragmentID = c.fragmentID
  acked : ∀ id seqs, .acked id seqs ∈ events → ∀ seq ∈ seqs,
    ∃ entry ∈ acks, entry.Covers id.toNat seq

variable {acks acks' : List MultiAckEntry} {torn torn' : Bool} {events events' : List Event}

/-- Nothing happens on the send side. -/
theorem acking_of_channels {acks : List MultiAckEntry}
    (hch : ∀ (i : ℕ) (ch : Channel), c.channels[i]? = some ch → ∃ ch', c'.channels[i]? = some ch' ∧
      ch'.mode = ch.mode ∧ ch'.sendSeq = ch.sendSeq ∧ ch'.pendingSend = ch.pendingSend)
    (hlen : c'.channels.length = c.channels.length) (htx : c'.sendCipher = c.sendCipher)
    (hid : c'.fragmentID = c.fragmentID) (hev : ∀ id seqs, .acked id seqs ∉ events) :
    Acking acks false c c' events where
  channel i ch h := by
    obtain ⟨ch', h', hmode, hseq, hpending⟩ := hch i ch h
    refine ⟨ch', h', hmode, hseq, hpending ▸ List.Sublist.refl _, fun _ p hp hnot => ?_⟩
    exact absurd (hpending ▸ hp) hnot
  length_eq := hlen
  sendCipher_eq := htx
  fragmentID_eq := hid
  acked id seqs h := absurd h (hev id seqs)

theorem acking_refl (c : Connection) (hev : ∀ id seqs, .acked id seqs ∉ events) :
    Acking acks false c c events :=
  acking_of_channels (fun _ ch hch => ⟨ch, hch, rfl, rfl, rfl⟩) rfl rfl rfl hev

/-- Neither the replay window nor the time of the last packet matters. -/
theorem Acking.of_touchRecv {cipher : CipherState} {now : ℤ}
    (h : Acking acks torn ((c.withRecvCipher cipher).touchRecv now) c' events) :
    Acking acks torn c c' events :=
  ⟨h.channel, h.length_eq, h.sendCipher_eq, h.fragmentID_eq, h.acked⟩

theorem Acking.trans (h : Acking acks false c c' events) (h' : Acking acks torn c' c'' events') :
    Acking acks torn c c'' (events ++ events') where
  channel i ch hch := by
    obtain ⟨ch₁, hch₁, hmode₁, hseq₁, hsub₁, hgone₁⟩ := h.channel i ch hch
    obtain ⟨ch₂, hch₂, hmode₂, hseq₂, hsub₂, hgone₂⟩ := h'.channel i ch₁ hch₁
    refine ⟨ch₂, hch₂, hmode₂.trans hmode₁, hseq₂.trans hseq₁, hsub₂.trans hsub₁, ?_⟩
    intro htorn p hp hnot
    by_cases hmid : p ∈ ch₁.pendingSend
    · exact hgone₂ htorn p hmid hnot
    · exact hgone₁ rfl p hp hmid
  length_eq := h'.length_eq.trans h.length_eq
  sendCipher_eq := h'.sendCipher_eq.trans h.sendCipher_eq
  fragmentID_eq := h'.fragmentID_eq.trans h.fragmentID_eq
  acked id seqs hmem := by
    rcases List.mem_append.mp hmem with hhead | htail
    · exact h.acked id seqs hhead
    · exact h'.acked id seqs htail

theorem Acking.mono (h : Acking acks torn c c' events) (hsub : ∀ entry ∈ acks, entry ∈ acks') :
    Acking acks' torn c c' events where
  channel i ch hch := by
    obtain ⟨ch', hch', hmode, hseq, hpending, hgone⟩ := h.channel i ch hch
    refine ⟨ch', hch', hmode, hseq, hpending, fun htorn p hp hnot => ?_⟩
    obtain ⟨entry, hentry, hcovers⟩ := hgone htorn p hp hnot
    exact ⟨entry, hsub entry hentry, hcovers⟩
  length_eq := h.length_eq
  sendCipher_eq := h.sendCipher_eq
  fragmentID_eq := h.fragmentID_eq
  acked id seqs hmem seq hseq := by
    obtain ⟨entry, hentry, hcovers⟩ := h.acked id seqs hmem seq hseq
    exact ⟨entry, hsub entry hentry, hcovers⟩

/-! ## The functions -/

theorem countAcked_frame (c : Connection) (seqs : List ℕ) :
    (c.countAcked seqs).channels = c.channels ∧ (c.countAcked seqs).sendCipher = c.sendCipher ∧
      (c.countAcked seqs).fragmentID = c.fragmentID := by
  rw [countAcked]
  split <;> exact ⟨rfl, rfl, rfl⟩

theorem applyAcks_acking (c : Connection) (now : ℤ) (id : UInt8) (ack : UInt32)
    (field : BitVec 32) :
    Acking [⟨id, ack, field⟩] false c (c.applyAcks now id ack field).1
      (c.applyAcks now id ack field).2 := by
  rw [applyAcks]
  cases hch : c.channel id with
  | none =>
      exact acking_refl _ (by simp)
  | some ch =>
      dsimp only
      obtain ⟨hchannels, hcipher, hid⟩ := countAcked_frame
        { c.setChannel id (ch.processAcks now ack.toNat field c.rttState).1 with
          rttState := (ch.processAcks now ack.toNat field c.rttState).2.2 }
        (ch.processAcks now ack.toNat field c.rttState).2.1
      obtain ⟨ps, n, heq, hsub, hgone⟩ := ch.processAcks_eq now ack.toNat field c.rttState
      have hcovers : ∀ seq, ack.toNat ≠ 0 ∧ Channel.isAcked seq ack.toNat field = true →
          ∃ entry ∈ [MultiAckEntry.mk id ack field], entry.Covers id.toNat seq := by
        rintro seq ⟨hne, hacked⟩
        exact ⟨_, List.mem_singleton_self _, rfl, fun h => hne (congrArg UInt32.toNat h), hacked⟩
      refine ⟨?_, ?_, hcipher, hid, ?_⟩
      · intro i chi hi
        rw [hchannels]
        by_cases hiid : i = id.toNat
        · subst hiid
          obtain rfl : ch = chi := Option.some.inj (hch.symm.trans hi)
          refine ⟨_, (getElem?_setChannel hch _ _).trans (if_pos rfl), ?_⟩
          rw [heq]
          exact ⟨rfl, rfl, hsub, fun _ p hp hnot => hcovers _ (hgone p hp hnot)⟩
        · refine ⟨chi, (getElem?_setChannel hch _ _).trans ((if_neg hiid).trans hi), rfl, rfl,
            List.Sublist.refl _, ?_⟩
          exact fun _ p hp hnot => absurd hp hnot
      · rw [hchannels]
        exact List.length_set
      · intro k seqs hmem seq hseq
        simp only [List.mem_singleton, Event.acked.injEq] at hmem
        obtain ⟨rfl, rfl⟩ := hmem
        exact hcovers seq (ch.isAcked_of_mem_processAcks now ack.toNat field c.rttState hseq)

theorem applyMultiAck_acking (now : ℤ) (c : Connection) (entries : List MultiAckEntry) :
    Acking entries false c (applyMultiAck now c entries).1 (applyMultiAck now c entries).2 := by
  induction entries generalizing c with
  | nil => exact acking_refl _ (by simp [applyMultiAck])
  | cons entry entries ih =>
      have hhead := applyAcks_acking c now entry.channel entry.ack entry.ackField
      exact (hhead.mono (by simp)).trans ((ih _).mono fun e he => List.mem_cons_of_mem entry he)

theorem shutDown_acking (c : Connection) (acks : List MultiAckEntry) (reason : DisconnectReason) :
    Acking acks true c c.shutDown [.onDisconnect reason] where
  channel i ch hch :=
    ⟨ch.releasePendingBuffers, by simp [shutDown, Connection.releasePendingBuffers, hch], rfl, rfl,
      List.nil_sublist _, fun h => by cases h⟩
  length_eq := by simp [shutDown, Connection.releasePendingBuffers]
  sendCipher_eq := rfl
  fragmentID_eq := rfl
  acked id seqs h := by simp at h

theorem handleControl_acking (c : Connection) (now : ℤ) (body : Bytes) :
    Acking (controlAcks body) (isDisconnect body) c (c.handleControl now body).1
      (c.handleControl now body).2 := by
  have hstay : ∀ acks, Acking acks false c c [] := fun acks =>
    acking_refl c (by simp)
  cases body with
  | nil => exact hstay _
  | cons ct data =>
      rw [handleControl, isDisconnect, controlAcks]
      cases hct : ControlType.ofByte ct with
      | none => exact hstay _
      | some kind =>
          cases kind with
          | multiAck =>
              cases hentries : unmarshalMultiAck data with
              | error e => exact hstay _
              | ok result => exact applyMultiAck_acking now c result.1
          | disconnect => exact c.shutDown_acking _ _
          | _ => exact hstay _

/-- A channel is replaced by one with the same send side. -/
theorem acking_setChannel {acks : List MultiAckEntry} {id : UInt8} {ch ch' : Channel}
    (hch : c.channel id = some ch) (hsend : ch'.mode = ch.mode ∧ ch'.sendSeq = ch.sendSeq ∧
      ch'.pendingSend = ch.pendingSend) (hset : c'.channels = (c.setChannel id ch').channels)
    (htx : c'.sendCipher = c.sendCipher) (hid : c'.fragmentID = c.fragmentID)
    (hev : ∀ k seqs, .acked k seqs ∉ events) : Acking acks false c c' events := by
  refine acking_of_channels ?_ ?_ htx hid hev
  · intro i chi hi
    rw [hset]
    by_cases hiid : i = id.toNat
    · subst hiid
      obtain rfl : ch = chi := Option.some.inj (hch.symm.trans hi)
      exact ⟨ch', (getElem?_setChannel hch _ _).trans (if_pos rfl), hsend⟩
    · exact ⟨chi, (getElem?_setChannel hch _ _).trans ((if_neg hiid).trans hi), rfl, rfl, rfl⟩
  · rw [hset]
    exact List.length_set

theorem receiveData_acking (c : Connection) (acks : List MultiAckEntry) (now : ℤ)
    (hdr : PacketHeader) (body : Bytes) :
    Acking acks false c (c.receiveData now hdr body).1 (c.receiveData now hdr body).2.1 := by
  rw [receiveData]
  split
  · exact acking_refl _ (by simp)
  · rename_i ch hch
    dsimp only
    split
    · have hsend : (ch.recordReceive hdr.sequence.toNat).1.mode = ch.mode ∧
          (ch.recordReceive hdr.sequence.toNat).1.sendSeq = ch.sendSeq ∧
          (ch.recordReceive hdr.sequence.toNat).1.pendingSend = ch.pendingSend := by simp
      split <;> exact acking_setChannel hch hsend rfl rfl rfl (by simp)
    · exact acking_refl _ (by simp)

theorem finish_acking {verdict : Verdict} (hok : c.finish verdict = .ok (c', events)) :
    Acking acks false c c' events := by
  have hstay : Acking acks false c c [] :=
    acking_refl c (by simp)
  cases verdict with
  | done =>
      cases hok
      exact hstay
  | deliver id seq payload emit =>
      simp only [finish] at hok
      split at hok
      · cases hok
        exact hstay
      rename_i ch hch
      split at hok
      · cases hok
      rename_i ch' msgs hdel
      cases hok
      refine acking_setChannel hch (Channel.deliver_frame hdel) rfl rfl rfl ?_
      intro k seqs hmem
      simp only [List.mem_cons, reduceCtorEq, false_or] at hmem
      split at hmem
      · simp [messageEvents] at hmem
      · cases hmem

/-! ## The pipeline -/

/-- The acknowledgements in a packet that decrypts. -/
def acksIn (c : Connection) (data : Bytes) : List MultiAckEntry :=
  match c.recvCipher.decrypt data with
  | .error _ => []
  | .ok (plaintext, _) => acksOf plaintext

/-- **What a packet does to the send side.** Only an acknowledgement in it
removes packets from the retransmission queues, unless the packet is a
disconnect. -/
theorem processPacket_acking {now : ℤ} {data : Bytes}
    (hok : c.processPacket now data = .ok (c', events)) :
    Acking (c.acksIn data) (c.disconnects data) c c' events := by
  cases hdec : c.recvCipher.decrypt data with
  | error e =>
      have hstay : c.disconnects data = false := by simp [disconnects, openPacket, hdec]
      simp only [processPacket, hdec] at hok
      cases hok
      rw [hstay]
      exact acking_refl _ (by simp)
  | ok result =>
      obtain ⟨plaintext, cipher⟩ := result
      simp only [processPacket, hdec, handleDecrypted, receive] at hok
      simp only [acksIn, hdec, acksOf, disconnects, openPacket]
      cases hhdr : unmarshalHeader plaintext with
      | error e =>
          simp only [hhdr, finish, Except.map] at hok
          cases hok
          refine acking_of_channels (fun k ch hk => ⟨ch, hk, rfl, rfl, rfl⟩) rfl rfl rfl ?_
          simp
      | ok parsed =>
          obtain ⟨hdr, n⟩ := parsed
          have hsame : ((c.withRecvCipher cipher).touchRecv now).channel hdr.channel =
            c.channel hdr.channel := rfl
          simp only [hhdr, hsame] at hok
          cases hch : c.channel hdr.channel with
          | none =>
              simp only [hch, finish, Except.map] at hok
              cases hok
              simp only [hch, Option.isSome_none, Bool.false_and]
              refine acking_of_channels (fun k ch hk => ⟨ch, hk, rfl, rfl, rfl⟩) rfl rfl rfl ?_
              simp
          | some ch =>
              simp only [hch] at hok
              refine @Acking.of_touchRecv _ _ _ _ _ cipher now ?_
              have hacks := applyAcks_acking ((c.withRecvCipher cipher).touchRecv now) now
                hdr.channel hdr.ack hdr.ackField
              by_cases hctl : hdr.flags &&& flagControl = 0
              · simp only [hctl, ne_eq, not_true_eq_false, if_false] at hok
                simp only [hctl, ne_eq, not_true_eq_false, if_false] at hacks ⊢
                generalize applyAcks _ now hdr.channel hdr.ack hdr.ackField = acked at hok hacks
                have hdata := acked.1.receiveData_acking
                  [⟨hdr.channel, hdr.ack, hdr.ackField⟩] now hdr (plaintext.drop n)
                cases hfinish : (acked.1.receiveData now hdr (plaintext.drop n)).1.finish
                    (acked.1.receiveData now hdr (plaintext.drop n)).2.2 with
                | error p => simp [hfinish, Except.map] at hok
                | ok result =>
                    simp only [hfinish, Except.map] at hok
                    cases hok
                    simpa [hch] using (hacks.trans hdata).trans (finish_acking hfinish)
              · simp only [hctl, ne_eq, not_false_eq_true, if_true, finish, Except.map]
                  at hok hacks ⊢
                cases hok
                have hboth := (hacks.mono (by simp)).trans
                  ((handleControl_acking _ now (plaintext.drop n)).mono fun entry =>
                    List.mem_cons_of_mem (MultiAckEntry.mk hdr.channel hdr.ack hdr.ackField))
                have hflag : (hdr.flags &&& flagControl != 0) = true := by simpa using hctl
                simpa [hch, hflag] using hboth

/-! ## What is acknowledged is removed -/

/-- Nothing that the entry acknowledges is in a retransmission queue. -/
def Clears (entry : MultiAckEntry) (c : Connection) : Prop :=
  ∀ (i : ℕ) (ch : Channel), c.channels[i]? = some ch →
    ∀ q ∈ ch.pendingSend, ¬ entry.Covers i q.sequence

variable {entry : MultiAckEntry}

/-- Receiving adds nothing to the queues. -/
theorem Acking.clears (h : Acking acks torn c c' events) (hclears : Clears entry c) :
    Clears entry c' := by
  intro i ch' hch' q hq
  have hlt : i < c.channels.length := h.length_eq ▸ (List.getElem?_eq_some_iff.mp hch').1
  obtain ⟨ch₁, hch₁, -, -, hsub, -⟩ := h.channel i _ (List.getElem?_eq_getElem hlt)
  obtain rfl : ch₁ = ch' := Option.some.inj (hch₁.symm.trans hch')
  exact hclears i _ (List.getElem?_eq_getElem hlt) q (hsub.subset hq)

theorem applyAcks_clears (c : Connection) (now : ℤ) (id : UInt8) (ack : UInt32)
    (field : BitVec 32) : Clears ⟨id, ack, field⟩ (c.applyAcks now id ack field).1 := by
  rintro i ch' hch' q hq ⟨rfl, hne, hacked⟩
  have hzero : ack.toNat ≠ 0 := fun h => hne (UInt32.toNat_inj.mp h)
  rw [applyAcks] at hch'
  cases hch : c.channel id with
  | none =>
      simp only [hch] at hch'
      cases hch.symm.trans hch'
  | some ch =>
      simp only [hch, (countAcked_frame _ _).1] at hch'
      have hnew := (getElem?_setChannel hch (ch.processAcks now ack.toNat field c.rttState).1
        id.toNat).trans (if_pos rfl)
      obtain rfl := Option.some.inj (hnew.symm.trans hch')
      rw [ch.not_isAcked_of_mem now field c.rttState hzero hq] at hacked
      cases hacked

theorem applyMultiAck_clears (now : ℤ) (c : Connection) (entries : List MultiAckEntry) :
    ∀ entry ∈ entries, Clears entry (applyMultiAck now c entries).1 := by
  induction entries generalizing c with
  | nil => simp
  | cons first entries ih =>
      rw [List.forall_mem_cons]
      have hrest := applyMultiAck_acking now
        (c.applyAcks now first.channel first.ack first.ackField).1 entries
      exact ⟨hrest.clears (c.applyAcks_clears now first.channel first.ack first.ackField), ih _⟩

theorem handleControl_clears (c : Connection) (now : ℤ) (body : Bytes) :
    ∀ entry ∈ controlAcks body, Clears entry (c.handleControl now body).1 := by
  intro entry hentry
  cases body with
  | nil => cases hentry
  | cons ct data =>
      rw [controlAcks] at hentry
      split at hentry
      · rename_i hct
        rw [handleControl, hct]
        cases hparse : unmarshalMultiAck data with
        | error err =>
            rw [hparse] at hentry
            cases hentry
        | ok parsed =>
            rw [hparse] at hentry
            exact applyMultiAck_clears now c parsed.1 entry hentry
      · cases hentry

/-- The acknowledgements in a plaintext that are applied: a packet for a channel that does
not exist is dropped. -/
def appliedAcks (c : Connection) (plaintext : Bytes) : List MultiAckEntry :=
  match unmarshalHeader plaintext with
  | .error _ => []
  | .ok (hdr, _) => if (c.channel hdr.channel).isSome then acksOf plaintext else []

theorem receive_clears (c : Connection) (now : ℤ) (plaintext : Bytes) :
    ∀ entry ∈ c.appliedAcks plaintext, Clears entry (c.receive now plaintext).1 := by
  intro entry hentry
  rw [appliedAcks] at hentry
  split at hentry
  · cases hentry
  · rename_i hdr n hparse
    split at hentry
    · rename_i hsome
      obtain ⟨ch, hch⟩ := Option.isSome_iff_exists.mp hsome
      have hfound : (c.touchRecv now).channel hdr.channel = some ch := hch
      have hheader := (c.touchRecv now).applyAcks_clears now hdr.channel hdr.ack hdr.ackField
      simp only [acksOf, hparse] at hentry
      simp only [receive, hparse, hfound]
      generalize (c.touchRecv now).applyAcks now hdr.channel hdr.ack hdr.ackField = acked at hheader
      rcases List.mem_cons.mp hentry with rfl | hentry
      · split
        · exact (handleControl_acking acked.1 now (plaintext.drop n)).clears hheader
        · exact (receiveData_acking acked.1 [] now hdr (plaintext.drop n)).clears hheader
      · split at hentry
        · rename_i hcontrol
          rw [if_pos hcontrol]
          exact handleControl_clears acked.1 now (plaintext.drop n) entry hentry
        · cases hentry
    · cases hentry

/-- The acknowledgements in a packet that are applied. -/
def appliedIn (c : Connection) (data : Bytes) : List MultiAckEntry :=
  match c.recvCipher.decrypt data with
  | .error _ => []
  | .ok (plaintext, _) => c.appliedAcks plaintext

theorem acksIn_of_appliedIn {data : Bytes} (h : entry ∈ c.appliedIn data) :
    entry ∈ c.acksIn data := by
  rw [appliedIn] at h
  rw [acksIn]
  split at h
  · cases h
  · rw [appliedAcks] at h
    split at h
    · cases h
    · split at h
      · exact h
      · cases h

/-- **What a packet acknowledges is not waiting any more** when it has been processed. -/
theorem processPacket_clears {now : ℤ} {data : Bytes}
    (hok : c.processPacket now data = .ok (c', events)) (hentry : entry ∈ c.appliedIn data) :
    Clears entry c' := by
  rw [appliedIn] at hentry
  split at hentry
  · cases hentry
  · rename_i plaintext cipher hdecrypt
    rw [processPacket, hdecrypt] at hok
    obtain ⟨events', hfinish, -⟩ := handleDecrypted_inv hok
    have hacks : entry ∈ (c.withRecvCipher cipher).appliedAcks plaintext := hentry
    have hcleared := receive_clears (c.withRecvCipher cipher) now plaintext entry hacks
    have hfinished : Acking [] false _ c' events' := finish_acking hfinish
    exact hfinished.clears hcleared

end Connection

end Fastwire
