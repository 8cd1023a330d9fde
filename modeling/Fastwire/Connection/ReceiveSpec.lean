/-
# What processing a packet can do

One inversion lemma for the whole pipeline, from which every invariant of the
receive side is derived. A packet either leaves the receive state of all
channels alone, or it is a data packet whose number is accepted on its channel;
then everything else that happens is one reassembly step and at most one call
of `deliver`.
-/

import Fastwire.Connection.Receive

namespace Fastwire

open Crypto

/-- Events that say nothing about the receive side of a channel. -/
def Event.quiet : Event → Bool
  | .accepted _ _ => false
  | .handed _ _ _ => false
  | .onMessage _ _ => false
  | .acked _ _ => true
  | .onError _ => true
  | .onDisconnect _ => true

/-! ## Channels that keep their receive side -/

namespace Channel

/-- The receive side of two channels agrees, except that the second has been
torn down if `torn` says so. -/
structure SameReceive (torn : Bool) (ch ch' : Channel) : Prop where
  mode_eq : ch'.mode = ch.mode
  window_eq : ch'.maxReorderWindow = ch.maxReorderWindow
  ack_eq : ch'.recvAck = ch.recvAck
  field_eq : ch'.recvAckField = ch.recvAckField
  next_eq : ch'.recvNextDeliver = ch.recvNextDeliver
  last_eq : ch'.lastRecvSeq = ch.lastRecvSeq
  buffer_eq : ch'.recvBuffer = if torn then none else ch.recvBuffer

variable {ch ch' ch'' : Channel} {torn : Bool}

theorem SameReceive.refl (ch : Channel) : SameReceive false ch ch :=
  ⟨rfl, rfl, rfl, rfl, rfl, rfl, rfl⟩

theorem SameReceive.trans (h : SameReceive false ch ch') (h' : SameReceive torn ch' ch'') :
    SameReceive torn ch ch'' where
  mode_eq := h'.mode_eq.trans h.mode_eq
  window_eq := h'.window_eq.trans h.window_eq
  ack_eq := h'.ack_eq.trans h.ack_eq
  field_eq := h'.field_eq.trans h.field_eq
  next_eq := h'.next_eq.trans h.next_eq
  last_eq := h'.last_eq.trans h.last_eq
  buffer_eq := by
    have hkept : ch'.recvBuffer = ch.recvBuffer := h.buffer_eq
    rw [h'.buffer_eq, hkept]

def withPending (ch : Channel) (pendingSend : List PendingPacket) (pending : ℤ) : Channel :=
  { ch with pendingSend := pendingSend, pending := pending }

section WithPending

variable (ch : Channel) (ps : List PendingPacket) (n : ℤ)

@[simp]
theorem withPending_mode : (ch.withPending ps n).mode = ch.mode := rfl

@[simp]
theorem withPending_recvBuffer : (ch.withPending ps n).recvBuffer = ch.recvBuffer := rfl

@[simp]
theorem withPending_recvNextDeliver :
    (ch.withPending ps n).recvNextDeliver = ch.recvNextDeliver := rfl

end WithPending

theorem sameReceive_withPending (ch : Channel) (ps : List PendingPacket) (n : ℤ) :
    SameReceive false ch (ch.withPending ps n) := ⟨rfl, rfl, rfl, rfl, rfl, rfl, rfl⟩

theorem sameReceive_release (ch : Channel) : SameReceive true ch ch.releasePendingBuffers :=
  ⟨rfl, rfl, rfl, rfl, rfl, rfl, rfl⟩

/-- `processAcks` changes the retransmission queue only, and only by removing
what `isAcked` says. -/
theorem processAcks_eq (ch : Channel) (now : ℤ) (ack : ℕ) (field : BitVec 32) (r : Rtt) :
    ∃ ps n, (ch.processAcks now ack field r).1 = ch.withPending ps n ∧ ps.Sublist ch.pendingSend ∧
      ∀ p ∈ ch.pendingSend, p ∉ ps →
        ack ≠ 0 ∧ isAcked p.sequence ack field = true := by
  rw [processAcks]
  split
  · refine ⟨ch.pendingSend, ch.pending, rfl, List.Sublist.refl _, ?_⟩
    intro p hp hnot
    exact absurd hp hnot
  · rename_i hsome
    refine ⟨_, _, rfl, List.filter_sublist, ?_⟩
    intro p hp hnot
    refine ⟨fun hzero => hsome (.inl hzero), ?_⟩
    by_contra hacked
    exact hnot (List.mem_filter.mpr ⟨hp, by simpa using hacked⟩)

/-- The duplicate check does not look at the retransmission queue. -/
theorem recordReceive_withPending (ch : Channel) (ps : List PendingPacket) (n : ℤ) (seq : ℕ) :
    (ch.withPending ps n).recordReceive seq =
      ((ch.recordReceive seq).1.withPending ps n, (ch.recordReceive seq).2) := by
  have hwin : (ch.withPending ps n).beyondWindow seq = ch.beyondWindow seq := rfl
  have hack : (ch.withPending ps n).recvAck = ch.recvAck := rfl
  have hfield : (ch.withPending ps n).recvAckField = ch.recvAckField := rfl
  rw [recordReceive, recordReceive, hwin, hack, hfield]
  by_cases hzero : seq = 0
  · rw [if_pos hzero, if_pos hzero]
  rw [if_neg hzero, if_neg hzero]
  by_cases hbeyond : ch.beyondWindow seq = true
  · rw [if_pos hbeyond, if_pos hbeyond]
  rw [if_neg hbeyond, if_neg hbeyond]
  by_cases hfirst : ch.recvAck = 0
  · rw [if_pos hfirst, if_pos hfirst]
    rfl
  rw [if_neg hfirst, if_neg hfirst]
  by_cases hnewer : seq > ch.recvAck
  · rw [if_pos hnewer, if_pos hnewer]
    rfl
  rw [if_neg hnewer, if_neg hnewer]
  by_cases hsame : seq = ch.recvAck
  · rw [if_pos hsame, if_pos hsame]
  rw [if_neg hsame, if_neg hsame]
  dsimp only
  by_cases hnear : ch.recvAck - seq ≤ 32
  · rw [if_pos hnear, if_pos hnear]
    by_cases hseen : ch.recvAckField &&& 1#32 <<< (ch.recvAck - seq - 1) ≠ 0#32
    · rw [if_pos hseen, if_pos hseen]
    · rw [if_neg hseen, if_neg hseen]
      rfl
  · rw [if_neg hnear, if_neg hnear]

end Channel

namespace Connection

variable {c c' c'' : Connection}

/-- Every channel keeps its receive side, and what reassembly reads is the
same. -/
structure SendOnly (c c' : Connection) : Prop where
  channel : ∀ id ch, c.channel id = some ch →
    ∃ ps n, c'.channel id = some (ch.withPending ps n) ∧ ps.Sublist ch.pendingSend
  length_eq : c'.channels.length = c.channels.length
  reassembly_eq : c'.reassembly = c.reassembly
  compress_eq : c'.compress = c.compress
  recvCipher_eq : c'.recvCipher = c.recvCipher
  sendCipher_eq : c'.sendCipher = c.sendCipher

theorem SendOnly.trans (h : SendOnly c c') (h' : SendOnly c' c'') : SendOnly c c'' where
  channel id ch hch := by
    obtain ⟨ps, n, hch', hsub⟩ := h.channel id ch hch
    obtain ⟨ps', n', hch'', hsub'⟩ := h'.channel id _ hch'
    exact ⟨ps', n', hch'', hsub'.trans hsub⟩
  length_eq := h'.length_eq.trans h.length_eq
  reassembly_eq := h'.reassembly_eq.trans h.reassembly_eq
  compress_eq := h'.compress_eq.trans h.compress_eq
  recvCipher_eq := h'.recvCipher_eq.trans h.recvCipher_eq
  sendCipher_eq := h'.sendCipher_eq.trans h.sendCipher_eq

/-- A connection with the same channels, store, pool and ciphers. -/
theorem sendOnly_of_eq (hch : c'.channels = c.channels) (hre : c'.reassembly = c.reassembly)
    (hco : c'.compress = c.compress) (hrx : c'.recvCipher = c.recvCipher)
    (htx : c'.sendCipher = c.sendCipher) : SendOnly c c' where
  channel id ch h := ⟨ch.pendingSend, ch.pending, by rw [channel, hch]; exact h,
    List.Sublist.refl _⟩
  length_eq := by rw [hch]
  reassembly_eq := hre
  compress_eq := hco
  recvCipher_eq := hrx
  sendCipher_eq := htx

theorem countAcked_sendOnly (c : Connection) (seqs : List ℕ) : SendOnly c (c.countAcked seqs) := by
  rw [countAcked]
  split <;> exact sendOnly_of_eq rfl rfl rfl rfl rfl

theorem applyAcks_sendOnly (c : Connection) (now : ℤ) (id : UInt8) (ack : UInt32)
    (field : BitVec 32) : SendOnly c (c.applyAcks now id ack field).1 := by
  rw [applyAcks]
  cases hch : c.channel id with
  | none => exact sendOnly_of_eq rfl rfl rfl rfl rfl
  | some ch =>
      dsimp only
      refine SendOnly.trans ?_ (countAcked_sendOnly _ _)
      obtain ⟨ps, n, heq, hsub, -⟩ := ch.processAcks_eq now ack.toNat field c.rttState
      refine ⟨?_, List.length_set, rfl, rfl, rfl, rfl⟩
      intro k chk hk
      by_cases hkid : k = id
      · subst hkid
        obtain rfl : chk = ch := by simpa [hch] using hk.symm
        refine ⟨ps, n, ?_, hsub⟩
        rw [← heq]
        exact (channel_setChannel hch k).trans (if_pos rfl)
      · refine ⟨chk.pendingSend, chk.pending, ?_, List.Sublist.refl _⟩
        exact (channel_setChannel hch k).trans ((if_neg hkid).trans hk)

theorem applyMultiAck_sendOnly (now : ℤ) (c : Connection) (entries : List MultiAckEntry) :
    SendOnly c (applyMultiAck now c entries).1 := by
  induction entries generalizing c with
  | nil => exact sendOnly_of_eq rfl rfl rfl rfl rfl
  | cons e es ih => exact (applyAcks_sendOnly c now e.channel e.ack e.ackField).trans (ih _)

theorem applyAcks_quiet (c : Connection) (now : ℤ) (id : UInt8) (ack : UInt32)
    (field : BitVec 32) : ∀ ev ∈ (c.applyAcks now id ack field).2, ev.quiet = true := by
  rw [applyAcks]
  split
  · simp
  · simp [Event.quiet]

theorem applyMultiAck_quiet (now : ℤ) (c : Connection) (entries : List MultiAckEntry) :
    ∀ ev ∈ (applyMultiAck now c entries).2, ev.quiet = true := by
  induction entries generalizing c with
  | nil => simp [applyMultiAck]
  | cons e es ih =>
      intro ev hev
      simp only [applyMultiAck, List.mem_append] at hev
      rcases hev with hhead | htail
      · exact applyAcks_quiet c now e.channel e.ack e.ackField ev hhead
      · exact ih _ ev htail

/-! ## Steps that accept nothing -/

/-- Nothing was accepted or delivered, and the receive side is as before unless
the connection was torn down. -/
structure Quiet (torn : Bool) (c c' : Connection) (events : List Event) : Prop where
  events_quiet : ∀ ev ∈ events, ev.quiet = true
  channel : ∀ id ch, c.channel id = some ch →
    ∃ ch', c'.channel id = some ch' ∧ ch.SameReceive torn ch' ∧ ch'.needsAck = ch.needsAck
  length_eq : c'.channels.length = c.channels.length
  compress_eq : c'.compress = c.compress
  reassembly_eq : c'.reassembly = if torn then c.reassembly.reset else c.reassembly

variable {torn : Bool}

theorem SendOnly.quiet (h : SendOnly c c') {events : List Event}
    (hev : ∀ ev ∈ events, ev.quiet = true) : Quiet false c c' events where
  events_quiet := hev
  channel id ch hch := by
    obtain ⟨ps, n, hch', -⟩ := h.channel id ch hch
    exact ⟨_, hch', ch.sameReceive_withPending ps n, rfl⟩
  length_eq := h.length_eq
  compress_eq := h.compress_eq
  reassembly_eq := h.reassembly_eq

/-- Neither the replay window nor the time of the last packet matters. -/
theorem Quiet.of_withRecvCipher {cipher : CipherState} {events : List Event}
    (h : Quiet torn (c.withRecvCipher cipher) c' events) : Quiet torn c c' events :=
  ⟨h.events_quiet, h.channel, h.length_eq, h.compress_eq, h.reassembly_eq⟩

theorem channel_shutDown {id : UInt8} {ch : Channel} (h : c.channel id = some ch) :
    c.shutDown.channel id = some ch.releasePendingBuffers := by
  rw [channel] at h
  simp [channel, shutDown, Connection.releasePendingBuffers, h]

/-- Teardown, with whatever is reported. -/
theorem shutDown_quiet (c : Connection) {events : List Event}
    (hev : ∀ ev ∈ events, ev.quiet = true) : Quiet true c c.shutDown events where
  events_quiet := hev
  channel _ ch hch := ⟨_, channel_shutDown hch, ch.sameReceive_release, rfl⟩
  length_eq := by simp [shutDown, Connection.releasePendingBuffers]
  compress_eq := rfl
  reassembly_eq := rfl

def isDisconnect : Bytes → Bool
  | [] => false
  | ct :: _ => ControlType.ofByte ct = some .disconnect

theorem handleControl_quiet (c : Connection) (now : ℤ) (body : Bytes) :
    Quiet (isDisconnect body) c (c.handleControl now body).1 (c.handleControl now body).2 := by
  have hstay : Quiet false c c [] := (sendOnly_of_eq rfl rfl rfl rfl rfl).quiet (by simp)
  cases body with
  | nil => exact hstay
  | cons ct data =>
      rw [handleControl, isDisconnect]
      split
      · rename_i hct
        rw [hct]
        split
        · exact hstay
        · exact (applyMultiAck_sendOnly now c _).quiet (applyMultiAck_quiet now c _)
      · rename_i hct
        rw [hct]
        exact c.shutDown_quiet (by simp [Event.quiet])
      · rename_i hnot
        have hother : decide (ControlType.ofByte ct = some .disconnect) = false := by
          simpa using hnot
        rw [hother]
        exact hstay

/-- Acknowledgements first, then something quiet. -/
theorem SendOnly.trans_quiet (h : SendOnly c c') {events events' : List Event}
    (hev : ∀ ev ∈ events, ev.quiet = true) (h' : Quiet torn c' c'' events') :
    Quiet torn c c'' (events ++ events') where
  events_quiet ev hmem := by
    rcases List.mem_append.mp hmem with hhead | htail
    · exact hev ev hhead
    · exact h'.events_quiet ev htail
  channel id ch hch := by
    obtain ⟨ps, n, hmid, -⟩ := h.channel id ch hch
    obtain ⟨ch'', hch'', hsame, hneeds⟩ := h'.channel id _ hmid
    exact ⟨ch'', hch'', (ch.sameReceive_withPending ps n).trans hsame, hneeds⟩
  length_eq := h'.length_eq.trans h.length_eq
  compress_eq := h'.compress_eq.trans h.compress_eq
  reassembly_eq := by rw [h'.reassembly_eq, h.reassembly_eq]

/-! ## Data packets -/

def openPacket (c : Connection) (data : Bytes) : Option (PacketHeader × Bytes) :=
  match c.recvCipher.decrypt data with
  | .error _ => none
  | .ok (decrypted, _) =>
      match unmarshalHeader decrypted with
      | .error _ => none
      | .ok (hdr, n) => some (hdr, decrypted.drop n)

/-- An authenticated disconnect packet. -/
def disconnects (c : Connection) (data : Bytes) : Bool :=
  match c.openPacket data with
  | none => false
  | some (hdr, body) =>
      (c.channel hdr.channel).isSome && hdr.flags &&& flagControl != 0 && isDisconnect body

/-- Header, body and channel of a data packet that the duplicate check
accepts. -/
def acceptedPacket (c : Connection) (data : Bytes) : Option (PacketHeader × Bytes × Channel) :=
  match c.openPacket data with
  | none => none
  | some (hdr, body) =>
      match c.channel hdr.channel with
      | none => none
      | some ch =>
          if hdr.flags &&& flagControl = 0 ∧ (ch.recordReceive hdr.sequence.toNat).2 = true then
            some (hdr, body, ch)
          else none

theorem acceptedPacket_eq_some_iff {data : Bytes} {hdr : PacketHeader} {body : Bytes}
    {ch : Channel} :
    c.acceptedPacket data = some (hdr, body, ch) ↔
      c.openPacket data = some (hdr, body) ∧ c.channel hdr.channel = some ch ∧
        hdr.flags &&& flagControl = 0 ∧ (ch.recordReceive hdr.sequence.toNat).2 = true := by
  rw [acceptedPacket]
  constructor
  · intro h
    split at h
    · cases h
    rename_i hopen
    split at h
    · cases h
    rename_i hch
    split at h
    · rename_i hdata
      cases h
      exact ⟨hopen, hch, hdata⟩
    · cases h
  · rintro ⟨hopen, hch, hdata⟩
    simp [hopen, hch, hdata]

/-- A data packet is accepted on its channel: the body goes through reassembly
and, unless that fails, the slot is filled. `acks` is what the header
acknowledged before. -/
structure Accepting (c : Connection) (now : ℤ) (hdr : PacketHeader) (body : Bytes)
    (ch : Channel) (acks : List Event) (ps : List PendingPacket) (n : ℤ) (c' : Connection)
    (ch' : Channel) (events : List Event) : Prop where
  channel_eq : c.channel hdr.channel = some ch
  fresh : (ch.recordReceive hdr.sequence.toNat).2 = true
  channel_eq' : c'.channel hdr.channel = some ch'
  others : ∀ id ≠ hdr.channel, ∀ k, c.channel id = some k →
    ∃ ps n, c'.channel id = some (k.withPending ps n)
  length_eq : c'.channels.length = c.channels.length
  compress_eq : c'.compress = c.compress
  reassembly_eq : c'.reassembly = (c.reassemble now hdr body).1
  acks_quiet : ∀ ev ∈ acks, ev.quiet = true
  outcome :
    match (c.reassemble now hdr body).2 with
    | .error e =>
        ch' = (ch.recordReceive hdr.sequence.toNat).1.withPending ps n ∧
        events = acks ++ [.accepted hdr.channel hdr.sequence.toNat, .onError e]
    | .ok (payload, emit) =>
        ∃ msgs, ((ch.recordReceive hdr.sequence.toNat).1.withPending ps n).deliver
            hdr.sequence.toNat payload = .ok (ch', msgs) ∧
          events = acks ++ [.accepted hdr.channel hdr.sequence.toNat,
            .handed hdr.channel hdr.sequence.toNat payload] ++
              if emit then messageEvents hdr.channel msgs else []

/-- The pipeline of a data packet: the acknowledgements it carries, then the
rest on a connection whose receive side is unchanged. -/
theorem processPacket_data {data : Bytes} {hdr : PacketHeader} {body : Bytes} {ch : Channel}
    (hopen : c.openPacket data = some (hdr, body)) (hdata : hdr.flags &&& flagControl = 0)
    (hch : c.channel hdr.channel = some ch) (now : ℤ) :
    ∃ cipher c₁ acks, SendOnly (c.withRecvCipher cipher) c₁ ∧
      (∀ ev ∈ acks, ev.quiet = true) ∧
      c.processPacket now data =
        ((c₁.receiveData now hdr body).1.finish (c₁.receiveData now hdr body).2.2).map
          fun r => (r.1, acks ++ (c₁.receiveData now hdr body).2.1 ++ r.2) := by
  simp only [openPacket] at hopen
  cases hdec : c.recvCipher.decrypt data with
  | error e => simp [hdec] at hopen
  | ok result =>
      obtain ⟨decrypted, cipher⟩ := result
      simp only [hdec] at hopen
      cases hhdr : unmarshalHeader decrypted with
      | error e => simp [hhdr] at hopen
      | ok parsed =>
          obtain ⟨hdr', n⟩ := parsed
          simp only [hhdr, Option.some.injEq, Prod.mk.injEq] at hopen
          obtain ⟨rfl, rfl⟩ := hopen
          have hthere : ((c.withRecvCipher cipher).touchRecv now).channel hdr'.channel = some ch :=
            hch
          have htouch : SendOnly (c.withRecvCipher cipher)
              ((c.withRecvCipher cipher).touchRecv now) :=
            sendOnly_of_eq rfl rfl rfl rfl rfl
          have hacks := applyAcks_sendOnly ((c.withRecvCipher cipher).touchRecv now) now
            hdr'.channel hdr'.ack hdr'.ackField
          have hquiet := applyAcks_quiet ((c.withRecvCipher cipher).touchRecv now) now
            hdr'.channel hdr'.ack hdr'.ackField
          refine ⟨cipher, _, _, htouch.trans hacks, hquiet, ?_⟩
          simp only [processPacket, hdec, handleDecrypted, receive, hhdr, hthere, hdata, ne_eq,
            not_true_eq_false, ↓reduceIte, List.append_assoc]

/-- Reassembly reads the store and the pool only. -/
theorem reassemble_congr (hre : c'.reassembly = c.reassembly) (hco : c'.compress = c.compress)
    (now : ℤ) (hdr : PacketHeader) (body : Bytes) :
    c'.reassemble now hdr body = c.reassemble now hdr body := by
  rw [reassemble, reassemble, hre, hco]

/-- A data packet that the duplicate check refuses. -/
theorem processPacket_refused {data : Bytes} {hdr : PacketHeader} {body : Bytes} {ch : Channel}
    (hopen : c.openPacket data = some (hdr, body)) (hdata : hdr.flags &&& flagControl = 0)
    (hch : c.channel hdr.channel = some ch)
    (hdup : (ch.recordReceive hdr.sequence.toNat).2 = false) (now : ℤ) :
    ∃ c' events, c.processPacket now data = .ok (c', events) ∧ Quiet false c c' events := by
  obtain ⟨cipher, c₁, acks, hsend, hquiet, heq⟩ := processPacket_data hopen hdata hch now
  obtain ⟨ps, n, hch₁, -⟩ := hsend.channel hdr.channel ch hch
  have hdata₁ : c₁.receiveData now hdr body = (c₁, [], .done) := by
    simp [receiveData, hch₁, Channel.recordReceive_withPending, hdup]
  refine ⟨c₁, acks, ?_, ?_⟩
  · rw [heq, hdata₁]
    simp [finish, Except.map]
  · exact (hsend.quiet hquiet).of_withRecvCipher

/-- A data packet that the duplicate check accepts: either reassembly reports an
error, or `deliver` is called and decides whether the process survives. -/
theorem processPacket_accepted {data : Bytes} {hdr : PacketHeader} {body : Bytes} {ch : Channel}
    (hopen : c.openPacket data = some (hdr, body)) (hdata : hdr.flags &&& flagControl = 0)
    (hch : c.channel hdr.channel = some ch)
    (hfresh : (ch.recordReceive hdr.sequence.toNat).2 = true) (now : ℤ) :
    ∃ acks ps n,
      match (c.reassemble now hdr body).2 with
      | .error _ => ∃ c' ch' events, c.processPacket now data = .ok (c', events) ∧
          Accepting c now hdr body ch acks ps n c' ch' events
      | .ok (payload, _) =>
          match ((ch.recordReceive hdr.sequence.toNat).1.withPending ps n).deliver
              hdr.sequence.toNat payload with
          | .error p => c.processPacket now data = .error p
          | .ok (ch', _) => ∃ c' events, c.processPacket now data = .ok (c', events) ∧
              Accepting c now hdr body ch acks ps n c' ch' events := by
  obtain ⟨cipher, c₁, acks, hsend, hquiet, heq⟩ := processPacket_data hopen hdata hch now
  obtain ⟨ps, n, hch₁, -⟩ := hsend.channel hdr.channel ch hch
  let rec₁ := (ch.recordReceive hdr.sequence.toNat).1.withPending ps n
  have hre : (c₁.setChannel hdr.channel rec₁).reassemble now hdr body = c.reassemble now hdr body :=
    reassemble_congr hsend.reassembly_eq hsend.compress_eq now hdr body
  refine ⟨acks, ps, n, ?_⟩
  -- the other channels, whatever is written to this one
  have hothers : ∀ (c' : Connection) (chx : Channel),
      c'.channels = (c₁.setChannel hdr.channel chx).channels → ∀ id ≠ hdr.channel, ∀ k,
        c.channel id = some k → ∃ ps n, c'.channel id = some (k.withPending ps n) := by
    intro c' chx hset id hid k hk
    obtain ⟨ps', n', hk', -⟩ := hsend.channel id k hk
    refine ⟨ps', n', ?_⟩
    rw [channel, hset]
    exact (channel_setChannel hch₁ id).trans ((if_neg hid).trans hk')
  have hthere : ∀ (c' : Connection) (chx : Channel),
      c'.channels = (c₁.setChannel hdr.channel chx).channels →
        c'.channel hdr.channel = some chx := by
    intro c' chx hset
    rw [channel, hset]
    exact (channel_setChannel hch₁ hdr.channel).trans (if_pos rfl)
  have hlength : ∀ chx, (c₁.setChannel hdr.channel chx).channels.length = c.channels.length :=
    fun _ => List.length_set.trans hsend.length_eq
  cases hres : (c.reassemble now hdr body).2 with
  | error e =>
      dsimp only
      have hrd : c₁.receiveData now hdr body =
          ({ c₁.setChannel hdr.channel rec₁ with reassembly := (c.reassemble now hdr body).1 },
            [.accepted hdr.channel hdr.sequence.toNat, .onError e], .done) := by
        simp [receiveData, hch₁, Channel.recordReceive_withPending, hfresh, hre, hres, rec₁]
      refine ⟨_, rec₁, _, by rw [heq, hrd]; rfl, ?_⟩
      refine ⟨hch, hfresh, hthere _ rec₁ rfl, hothers _ rec₁ rfl, hlength rec₁,
        hsend.compress_eq, rfl, hquiet, ?_⟩
      rw [hres]
      exact ⟨rfl, by simp⟩
  | ok result =>
      obtain ⟨payload, emit⟩ := result
      dsimp only
      have hrd : c₁.receiveData now hdr body =
          ({ c₁.setChannel hdr.channel rec₁ with reassembly := (c.reassemble now hdr body).1 },
            [.accepted hdr.channel hdr.sequence.toNat],
            .deliver hdr.channel hdr.sequence.toNat payload emit) := by
        simp [receiveData, hch₁, Channel.recordReceive_withPending, hfresh, hre, hres, rec₁]
      have hrec := hthere { c₁.setChannel hdr.channel rec₁ with
        reassembly := (c.reassemble now hdr body).1 } rec₁ rfl
      cases hdel : rec₁.deliver hdr.sequence.toNat payload with
      | error p =>
          dsimp only
          rw [heq, hrd]
          simp only [finish, hrec, hdel]
          rfl
      | ok result =>
          obtain ⟨ch', msgs⟩ := result
          dsimp only
          have hsame : ∀ st : ReassemblyStore,
              (({ c₁.setChannel hdr.channel rec₁ with reassembly := st } : Connection).setChannel
                hdr.channel ch').channels = (c₁.setChannel hdr.channel ch').channels := by
            intro st
            simp [setChannel, List.set_set]
          refine ⟨_, _, by rw [heq, hrd]; simp only [finish, hrec, hdel]; rfl, ?_⟩
          refine ⟨hch, hfresh, hthere _ ch' (hsame _), hothers _ ch' (hsame _), ?_,
            hsend.compress_eq, rfl, hquiet, ?_⟩
          · rw [hsame]
            exact hlength ch'
          · rw [hres]
            exact ⟨msgs, hdel, by simp⟩

/-! ## The inversion lemma -/

/-- A packet that is not a data packet for one of the channels accepts
nothing. -/
theorem processPacket_other {data : Bytes}
    (hother : ∀ hdr body, c.openPacket data = some (hdr, body) →
      c.channel hdr.channel = none ∨ hdr.flags &&& flagControl ≠ 0) (now : ℤ) :
    ∃ c' events, c.processPacket now data = .ok (c', events) ∧
      Quiet (c.disconnects data) c c' events := by
  cases hdec : c.recvCipher.decrypt data with
  | error e =>
      refine ⟨c, [.onError e], by simp [processPacket, hdec], ?_⟩
      have hnot : c.disconnects data = false := by simp [disconnects, openPacket, hdec]
      rw [hnot]
      exact (sendOnly_of_eq rfl rfl rfl rfl rfl).quiet (by simp [Event.quiet])
  | ok result =>
      obtain ⟨decrypted, cipher⟩ := result
      cases hhdr : unmarshalHeader decrypted with
      | error e =>
          refine ⟨c.withRecvCipher cipher, [.onError e], ?_, ?_⟩
          · simp [processPacket, hdec, handleDecrypted, receive, hhdr, finish, Except.map]
          · have hnot : c.disconnects data = false := by simp [disconnects, openPacket, hdec, hhdr]
            rw [hnot]
            exact ⟨by simp [Event.quiet], fun id ch hch => ⟨ch, hch, .refl ch, rfl⟩, rfl, rfl, rfl⟩
      | ok parsed =>
          obtain ⟨hdr, n⟩ := parsed
          let c₀ := (c.withRecvCipher cipher).touchRecv now
          cases hch : c.channel hdr.channel with
          | none =>
              have hnone : c₀.channel hdr.channel = none := hch
              have hnot : c.disconnects data = false := by
                simp [disconnects, openPacket, hdec, hhdr, hch]
              refine ⟨c₀, [], ?_, ?_⟩
              · simp [processPacket, hdec, handleDecrypted, receive, hhdr, finish, Except.map, c₀,
                  hnone]
              · rw [hnot]
                exact ⟨by simp, fun id ch hch => ⟨ch, hch, .refl ch, rfl⟩, rfl, rfl, rfl⟩
          | some ch =>
              have hopen : c.openPacket data = some (hdr, decrypted.drop n) := by
                simp [openPacket, hdec, hhdr]
              have hctl : hdr.flags &&& flagControl ≠ 0 := by
                rcases hother _ _ hopen with hnone | hctl
                · rw [hnone] at hch
                  cases hch
                · exact hctl
              have hdis : c.disconnects data = isDisconnect (decrypted.drop n) := by
                simp [disconnects, hopen, hch, hctl]
              have hthere : c₀.channel hdr.channel = some ch := hch
              have htouch : SendOnly (c.withRecvCipher cipher) c₀ :=
                sendOnly_of_eq rfl rfl rfl rfl rfl
              have hacks := htouch.trans
                (applyAcks_sendOnly c₀ now hdr.channel hdr.ack hdr.ackField)
              have hquiet := applyAcks_quiet c₀ now hdr.channel hdr.ack hdr.ackField
              have hcontrol := hacks.trans_quiet hquiet
                (handleControl_quiet _ now (decrypted.drop n))
              rw [hdis]
              refine ⟨_, _, ?_, hcontrol.of_withRecvCipher⟩
              simp [processPacket, hdec, handleDecrypted, receive, hhdr, finish, Except.map, c₀,
                hthere, hctl]

/-- Data packets tear nothing down. -/
theorem disconnects_of_data {data : Bytes} {hdr : PacketHeader} {body : Bytes}
    (hopen : c.openPacket data = some (hdr, body)) (hdata : hdr.flags &&& flagControl = 0) :
    c.disconnects data = false := by
  simp [disconnects, hopen, hdata]

theorem disconnects_of_acceptedPacket {data : Bytes} {hdr : PacketHeader} {body : Bytes}
    {ch : Channel} (hacc : c.acceptedPacket data = some (hdr, body, ch)) :
    c.disconnects data = false :=
  have hpacket := acceptedPacket_eq_some_iff.mp hacc
  disconnects_of_data hpacket.1 hpacket.2.2.1

/-- **What processing a packet can do.** If the process survives it, the packet
was quiet or it was accepted on its channel. -/
theorem processPacket_cases {now : ℤ} {data : Bytes} {events : List Event}
    (hok : c.processPacket now data = .ok (c', events)) :
    (c.acceptedPacket data = none ∧ Quiet (c.disconnects data) c c' events) ∨
      ∃ hdr body ch acks ps n ch', c.acceptedPacket data = some (hdr, body, ch) ∧
        Accepting c now hdr body ch acks ps n c' ch' events := by
  cases hacc : c.acceptedPacket data with
  | some packet =>
      obtain ⟨hdr, body, ch⟩ := packet
      obtain ⟨hopen, hch, hdata, hfresh⟩ := acceptedPacket_eq_some_iff.mp hacc
      obtain ⟨acks, ps, n, hcase⟩ := processPacket_accepted hopen hdata hch hfresh now
      refine .inr ⟨hdr, body, ch, acks, ps, n, ?_⟩
      split at hcase
      · obtain ⟨c₁, ch', events₁, heq, hacc⟩ := hcase
        obtain ⟨rfl, rfl⟩ : c₁ = c' ∧ events₁ = events := by simpa [heq] using hok
        exact ⟨ch', rfl, hacc⟩
      · split at hcase
        · rw [hcase] at hok
          cases hok
        · obtain ⟨c₁, events₁, heq, hacc⟩ := hcase
          obtain ⟨rfl, rfl⟩ : c₁ = c' ∧ events₁ = events := by simpa [heq] using hok
          exact ⟨_, rfl, hacc⟩
  | none =>
      refine .inl ⟨rfl, ?_⟩
      by_cases hother : ∀ hdr body, c.openPacket data = some (hdr, body) →
          c.channel hdr.channel = none ∨ hdr.flags &&& flagControl ≠ 0
      · obtain ⟨c₁, events₁, heq, hquiet⟩ := processPacket_other hother now
        obtain ⟨rfl, rfl⟩ : c₁ = c' ∧ events₁ = events := by simpa [heq] using hok
        exact hquiet
      push Not at hother
      obtain ⟨hdr, body, hopen, hsome, hdata⟩ := hother
      obtain ⟨ch, hch⟩ := Option.ne_none_iff_exists'.mp hsome
      have hrefused : (ch.recordReceive hdr.sequence.toNat).2 = false := by
        simpa [acceptedPacket, hopen, hch, hdata] using hacc
      obtain ⟨c₁, events₁, heq, hquiet⟩ := processPacket_refused hopen hdata hch hrefused now
      obtain ⟨rfl, rfl⟩ : c₁ = c' ∧ events₁ = events := by simpa [heq] using hok
      rw [disconnects_of_data hopen hdata]
      exact hquiet

end Connection

end Fastwire
