/-
# The acknowledgements of a tick

A tick collects the acknowledgements of all channels in one control packet. The
flags of the channels are cleared first; then the packet is marshalled into a
buffer of fixed size and written, and nobody looks at the outcome.

An entry of the packet takes six to ten bytes and the marshaller wants ten bytes
free for each, so the packet exists exactly if all entries but the last leave
ten bytes. If it does not exist, or the socket refuses it, the acknowledgements
are lost, with one exception: a heartbeat of the same tick acknowledges channel 0
again.
-/

import Fastwire.Connection.BatchOrder
import Mathlib.Algebra.Order.BigOperators.Group.List

namespace Fastwire

open Crypto

/-! ## The room of the entries -/

theorem putVarInt_mono {room room' v : ℕ} {bs : Bytes} (h : putVarInt room v = some bs)
    (hle : room ≤ room') : putVarInt room' v = some bs := by
  induction room generalizing room' v bs with
  | zero => simp [putVarInt] at h
  | succ room ih =>
      obtain ⟨room', rfl⟩ : ∃ k, room' = k + 1 := ⟨room' - 1, by omega⟩
      rw [putVarInt] at h ⊢
      split
      · rename_i hbig
        rw [if_pos hbig] at h
        obtain ⟨tail, htail, rfl⟩ := Option.map_eq_some_iff.mp h
        rw [ih htail (by omega)]
        rfl
      · rename_i hsmall
        rwa [if_neg hsmall] at h

def ackEntrySize (e : MultiAckEntry) : ℕ := (marshalMultiAckEntry 10 e).length

theorem marshalMultiAckEntry_eq (e : MultiAckEntry) {room : ℕ} (hroom : 10 ≤ room) :
    marshalMultiAckEntry room e = marshalMultiAckEntry 10 e := by
  obtain ⟨ack, hack, -, -⟩ := putVarInt_uint32 9 e.ack (by omega)
  rw [marshalMultiAckEntry, marshalMultiAckEntry, hack, putVarInt_mono hack (by omega)]

/-- All entries but the last leave ten of the bytes for entries. -/
def ackEntriesFit (entries : List MultiAckEntry) : Prop :=
  (entries.dropLast.map ackEntrySize).sum + 10 ≤ 254

instance (entries : List MultiAckEntry) : Decidable (ackEntriesFit entries) :=
  inferInstanceAs (Decidable (_ ≤ _))

theorem marshalMultiAckEntries_isOk_iff {room : ℕ} {entries : List MultiAckEntry}
    (hne : entries ≠ []) :
    (∃ bs, marshalMultiAckEntries room entries = .ok bs) ↔
      (entries.dropLast.map ackEntrySize).sum + 10 ≤ room := by
  induction entries generalizing room with
  | nil => exact absurd rfl hne
  | cons e es ih =>
      by_cases hroom : room < 10
      · simp only [marshalMultiAckEntries, if_pos hroom]
        constructor
        · rintro ⟨bs, ⟨⟩⟩
        · omega
      have hsize : (marshalMultiAckEntry room e).length = ackEntrySize e := by
        rw [marshalMultiAckEntry_eq e (by omega), ackEntrySize]
      simp only [marshalMultiAckEntries, if_neg hroom, hsize]
      cases es with
      | nil =>
          simp only [marshalMultiAckEntries, Except.map, Except.ok.injEq, exists_eq']
          simp
          omega
      | cons e' es =>
          have hrest : (∃ bs, marshalMultiAckEntries (room - ackEntrySize e) (e' :: es) = .ok bs) ↔
              ((e' :: es).dropLast.map ackEntrySize).sum + 10 ≤ room - ackEntrySize e :=
            ih (List.cons_ne_nil _ _)
          have hsum : ((e :: e' :: es).dropLast.map ackEntrySize).sum =
              ackEntrySize e + ((e' :: es).dropLast.map ackEntrySize).sum := rfl
          rw [hsum]
          refine Iff.trans ?_ (hrest.trans (by omega))
          cases marshalMultiAckEntries (room - ackEntrySize e) (e' :: es) with
          | error err => simp [Except.map]
          | ok bs => simp [Except.map]

theorem marshalMultiAckEntries_length_le {room : ℕ} {entries : List MultiAckEntry} {bs : Bytes}
    (hok : marshalMultiAckEntries room entries = .ok bs) : bs.length ≤ room := by
  induction entries generalizing room bs with
  | nil =>
      cases hok
      exact Nat.zero_le _
  | cons e es ih =>
      obtain ⟨hroom, tail, hrest, rfl⟩ := marshalMultiAckEntries_cons_ok hok
      have hlen := marshalMultiAckEntry_length room e hroom
      have htail := ih hrest
      rw [List.length_append]
      omega

namespace Connection

/-- The packet of the listed entries exists exactly if they fit. -/
theorem multiAckPacket_isOk_iff {entries : List MultiAckEntry} (hne : entries ≠ []) :
    (∃ raw, multiAckPacket entries = .ok raw) ↔ ackEntriesFit entries := by
  have hentries : (∃ bs, marshalMultiAckEntries 254 entries = .ok bs) ↔ ackEntriesFit entries :=
    marshalMultiAckEntries_isOk_iff hne
  rw [← hentries, multiAckPacket, marshalMultiAck, if_neg (by omega)]
  cases marshalMultiAckEntries 254 entries with
  | error e => simp [Except.map]
  | ok body =>
      refine iff_of_true ?_ ⟨body, rfl⟩
      simp only [Except.map]
      generalize [ControlType.multiAck.toByte, UInt8.ofNat entries.length] ++ body = payload
      have hroom : 16 ≤ 64 + payload.length := by omega
      obtain ⟨header, hheader⟩ := marshalHeader_ok ⟨flagControl ||| flagControl, 0, 0, 0, 0⟩ hroom
      have hlen := marshalHeader_length_le hheader
      refine ⟨header ++ payload, ?_⟩
      rw [buildControlPacket, hheader]
      exact if_neg (by omega)

theorem multiAckPacket_length_le {entries : List MultiAckEntry} {raw : Bytes}
    (hok : multiAckPacket entries = .ok raw) : raw.length ≤ 16 + 256 := by
  rw [multiAckPacket] at hok
  split at hok
  · cases hok
  · rename_i payload hpayload
    rw [marshalMultiAck, if_neg (by omega)] at hpayload
    cases hbody : marshalMultiAckEntries 254 entries with
    | error e => simp [hbody, Except.map] at hpayload
    | ok body =>
        have hsize := marshalMultiAckEntries_length_le hbody
        simp only [hbody, Except.map, Except.ok.injEq] at hpayload
        rw [buildControlPacket] at hok
        split at hok
        · cases hok
        · rename_i header hheader
          have hlen := marshalHeader_length_le hheader
          split at hok <;> cases hok
          rw [← hpayload]
          simp only [List.length_append, List.length_cons, List.length_nil]
          omega

end Connection

/-! ## Reading the acknowledgements -/

def multiAckOf (plaintext : Bytes) : Option (List MultiAckEntry) :=
  match unmarshalHeader plaintext with
  | .error _ => none
  | .ok (hdr, n) =>
      if hdr.flags &&& flagControl = 0 then none
      else
        match plaintext.drop n with
        | [] => none
        | ct :: data =>
            if ControlType.ofByte ct = some .multiAck then
              (unmarshalMultiAck data).toOption.map Prod.fst
            else none

def multiAcksIn (aead : Option Aead) (batched : Bool) (datagram : Bytes) :
    List (List MultiAckEntry) :=
  ((if batched then packetsOf datagram else [datagram]).filterMap (openWire aead)).filterMap
    multiAckOf

theorem multiAckOf_multiAckPacket {entries : List MultiAckEntry} {raw : Bytes}
    (hok : Connection.multiAckPacket entries = .ok raw) : multiAckOf raw = some entries := by
  obtain ⟨room, tail, hbuild, hparse⟩ := Connection.multiAckPacket_ok hok
  obtain ⟨n, hheader, hbody⟩ := unmarshalHeader_buildControlPacket hbuild
  have hflag : ¬flagControl &&& flagControl = 0 := by decide
  simp only [multiAckOf, hheader, if_neg hflag, hbody, ControlType.ofByte_toByte, if_true, hparse,
    Except.toOption, Option.map_some]

/-- The peer reads what was sealed and framed. -/
theorem multiAcksIn_framed (tx : CipherState) (batched : Bool) {entries : List MultiAckEntry}
    {raw : Bytes} (hok : Connection.multiAckPacket entries = .ok raw) :
    multiAcksIn tx.aead batched
      (if batched then singleFrame (tx.encrypt raw).2 else (tx.encrypt raw).2) = [entries] := by
  have hread : ([(tx.encrypt raw).2].filterMap (openWire tx.aead)).filterMap multiAckOf =
      [entries] := by
    simp only [List.filterMap_cons, openWire_encrypt, List.filterMap_nil,
      multiAckOf_multiAckPacket hok]
  cases batched with
  | false => exact hread
  | true =>
      have hshort : (tx.encrypt raw).2.length < 2 ^ 16 := by
        have hlen := Connection.multiAckPacket_length_le hok
        have hsealed := tx.encrypt_length raw
        have hoverhead : nonceSize + tagSize = 24 := rfl
        split at hsealed <;> omega
      rw [multiAcksIn, if_pos rfl, if_pos rfl, packetsOf, unmarshalBatch_singleFrame hshort]
      exact hread

/-! ## One multi-channel acknowledgement -/

/-- The next write succeeds. -/
def Socket.takes (s : Socket) : Bool := s.failures.head? != some true

theorem Socket.write_eq (s : Socket) (datagram : Bytes) :
    s.write datagram =
      if s.takes then (⟨s.failures.tail, s.written ++ [datagram]⟩, .ok ())
      else ({ s with failures := s.failures.tail }, .error .socket) := by
  obtain ⟨failures, written⟩ := s
  match failures with
  | [] => rfl
  | false :: rest => rfl
  | true :: rest => rfl

namespace Connection

/-- What becomes of entries that are to be sent. -/
inductive AckSend (c : Connection) (s : Socket) (entries : List MultiAckEntry) :
    Connection → Socket → Prop
  | tooMany (unfit : ¬ackEntriesFit entries) : AckSend c s entries c s
  | lost {cipher : CipherState} (fit : ackEntriesFit entries) (refused : s.takes = false)
      (same : cipher.aead = c.sendCipher.aead) :
      AckSend c s entries { c with sendCipher := cipher } { s with failures := s.failures.tail }
  | sent {cipher : CipherState} {now : ℤ} {datagram : Bytes} (fit : ackEntriesFit entries)
      (taken : s.takes = true) (same : cipher.aead = c.sendCipher.aead)
      (reads : multiAcksIn c.sendCipher.aead c.batchEnabled datagram = [entries]) :
      AckSend c s entries { c with sendCipher := cipher, lastSend := now }
        ⟨s.failures.tail, s.written ++ [datagram]⟩

theorem sendMultiChannelHeartbeat_outcome (c : Connection) (s : Socket) {ids : List UInt8}
    (now : ℤ) (hne : c.multiAckEntries ids ≠ []) :
    AckSend c s (c.multiAckEntries ids) (c.sendMultiChannelHeartbeat s ids now).1
      (c.sendMultiChannelHeartbeat s ids now).2.1 := by
  rw [sendMultiChannelHeartbeat]
  simp only [if_neg hne]
  cases hpacket : multiAckPacket (c.multiAckEntries ids) with
  | error e =>
      refine .tooMany fun hfit => ?_
      obtain ⟨raw, hraw⟩ := (multiAckPacket_isOk_iff hne).mpr hfit
      cases hpacket.symm.trans hraw
  | ok raw =>
      have hfit := (multiAckPacket_isOk_iff hne).mp ⟨raw, hpacket⟩
      have hreads := multiAcksIn_framed c.sendCipher c.batchEnabled hpacket
      have haead := c.sendCipher.encrypt_aead raw
      dsimp only
      rw [sendFramed, Socket.write_eq]
      cases htakes : s.takes with
      | false => exact .lost hfit htakes haead
      | true => exact .sent hfit htakes haead hreads

/-! ## Which channels want one -/

def wanting (c : Connection) : List ℕ :=
  (List.range c.channels.length).filter fun i => c.channels[i]?.any Channel.needsAck

/-- What is to be acknowledged. -/
def owed (c : Connection) : List MultiAckEntry :=
  c.multiAckEntries (c.wanting.map UInt8.ofNat)

theorem mem_wanting {c : Connection} {i : ℕ} :
    i ∈ c.wanting ↔ ∃ ch, c.channels[i]? = some ch ∧ ch.needsAck = true := by
  rw [wanting, List.mem_filter, Option.any_eq_true, List.mem_range]
  constructor
  · exact And.right
  · rintro ⟨ch, hch, hneeds⟩
    exact ⟨(List.getElem?_eq_some_iff.mp hch).1, ch, hch, hneeds⟩

theorem clearNeedsAck_eq (ch : Channel) :
    ch.clearNeedsAck = ({ ch with needsAck := false }, ch.needsAck) := by
  rw [Channel.clearNeedsAck]
  split
  · rename_i hneeds
    rw [hneeds]
  · rename_i hneeds
    rw [Bool.eq_false_of_not_eq_true hneeds]
    congr 1
    rw [← Bool.eq_false_of_not_eq_true hneeds]

/-- The channels after `clearNeedsAck`. -/
theorem collectAcks_spec (c : Connection) {is : List ℕ} (hnodup : is.Nodup) :
    (collectAcks c is).2 =
      (is.filter fun i => c.channels[i]?.any Channel.needsAck).map UInt8.ofNat ∧
    ∃ channels, (collectAcks c is).1 = { c with channels } ∧
      ∀ i, channels[i]? = c.channels[i]?.map fun ch =>
        if i ∈ is then { ch with needsAck := false } else ch := by
  induction is generalizing c with
  | nil => exact ⟨rfl, c.channels, rfl, by simp⟩
  | cons i is ih =>
      rw [List.nodup_cons] at hnodup
      rw [collectAcks]
      cases hch : c.channels[i]? with
      | none =>
          obtain ⟨hids, channels, hconn, hget⟩ := ih c hnodup.2
          refine ⟨by simp [hids, hch], channels, hconn, ?_⟩
          intro j
          rw [hget]
          by_cases hj : j = i
          · rw [hj, hch]
            rfl
          · simp [hj]
      | some ch =>
          have hlt := (List.getElem?_eq_some_iff.mp hch).1
          obtain ⟨hids, channels, hconn, hget⟩ :=
            ih { c with channels := c.channels.set i { ch with needsAck := false } } hnodup.2
          simp only [clearNeedsAck_eq]
          have hother : ∀ j ∈ is, (c.channels.set i { ch with needsAck := false })[j]? =
              c.channels[j]? := by
            intro j hj
            have hne : i ≠ j := by
              rintro rfl
              exact hnodup.1 hj
            exact List.getElem?_set_ne hne
          refine ⟨?_, channels, hconn, ?_⟩
          · have hfilter : is.filter (fun j =>
                (c.channels.set i { ch with needsAck := false })[j]?.any Channel.needsAck) =
                is.filter fun j => c.channels[j]?.any Channel.needsAck :=
              List.filter_congr fun j hj => by rw [hother j hj]
            rw [hids, hfilter, List.filter_cons, hch, Option.any_some]
            split <;> rfl
          · intro j
            rw [hget]
            by_cases hj : j = i
            · rw [hj, List.getElem?_set_self hlt, hch]
              simp [hnodup.1]
            · rw [List.getElem?_set_ne (Ne.symm hj)]
              simp [hj]

/-! ## The tick up to the flush -/

/-- What the receive side of the channels wants to be acknowledged. -/
def ackStates (c : Connection) : List (Bool × ℕ × BitVec 32) :=
  c.channels.map fun ch => (ch.needsAck, ch.ackState)

/-- What the steps before the flush do not change. -/
def ackView (c : Connection) : List (Bool × ℕ × BitVec 32) × Option Aead × Bool :=
  (c.ackStates, c.sendCipher.aead, c.batchEnabled)

theorem ackStates_set {c : Connection} {i : ℕ} {ch ch' : Channel}
    (hch : c.channels[i]? = some ch)
    (hsame : (ch'.needsAck, ch'.ackState) = (ch.needsAck, ch.ackState)) :
    ({ c with channels := c.channels.set i ch' } : Connection).ackStates = c.ackStates :=
  map_set_channel hch _ hsame

theorem ackView_writeEncrypted (c : Connection) (s : Socket) (encrypted : Bytes) :
    (c.writeEncrypted s encrypted).1.ackView = c.ackView := by
  rw [writeEncrypted]
  split <;> rfl

theorem sendInvariant_ackView (mtu : ℤ)
    (view : List (Bool × ℕ × BitVec 32) × Option Aead × Bool) :
    SendInvariant mtu fun c _ => c.ackView = view where
  books {c c' _} h same := by
    simp only [core, wire, Prod.mk.injEq] at same
    rw [← h]
    simp only [ackView, ackStates, same]
  number {c _ id ch} found h := by
    rw [← h]
    exact congrArg (fun states => (states, c.sendCipher.aead, c.batchEnabled))
      (ackStates_set found rfl)
  transmit {c s raw} _ h := by
    have haead := c.sendCipher.encrypt_aead raw
    rw [← h, transmitPacket]
    dsimp only
    rw [ackView_writeEncrypted, ackView, haead]
    rfl
  queue {c _ p} now _ h := by
    rw [← h, queuePacket]
    split
    · rfl
    · rename_i ch found
      split
      · exact congrArg (fun states => (states, c.sendCipher.aead, c.batchEnabled))
          (ackStates_set found rfl)
      · rfl
  check {c _ i ch} now rto maxRetries found h := by
    rw [← h]
    exact congrArg (fun states => (states, c.sendCipher.aead, c.batchEnabled))
      (ackStates_set found rfl)
  resend {c _ raw} now _ h := by
    have haead := c.sendCipher.encrypt_aead raw
    rw [← h, retransmitPacket]
    dsimp only
    rw [ackView, haead]
    rfl
  flush h := h

theorem ackStates_shutDown (c : Connection) : c.shutDown.ackStates = c.ackStates := by
  simp only [ackStates, shutDown, releasePendingBuffers, List.map_map]
  rfl

/-- The connection and the socket when the tick comes to the flush. -/
def beforeAcks (c : Connection) (cfg : TickConfig) (s : Socket) (now : ℤ) :
    Option (Connection × Socket) :=
  if c.state = .connected ∧ now - c.lastRecv < cfg.connTimeout then
    match retransmitChannels now c.retransmitTimeout cfg.maxRetransmits c s
        (List.range c.channels.length) with
    | (_, _, true) => none
    | (c, s, false) =>
        let drained := drainQueue now { c with sendQueue := [] } s c.sendQueue
        let flushed := drained.1.flushStage cfg drained.2.1
        some (flushed.1, flushed.2.1)
  else none

theorem ackView_beforeAcks {c c₁ : Connection} {cfg : TickConfig} {s s₁ : Socket} {now : ℤ}
    (h : c.beforeAcks cfg s now = some (c₁, s₁)) : c₁.ackView = c.ackView := by
  have hI := sendInvariant_ackView cfg.mtu c.ackView
  rw [beforeAcks] at h
  split at h
  · obtain ⟨halive, -⟩ := hI.retransmitChannels now c.retransmitTimeout cfg.maxRetransmits
      (List.range c.channels.length) (c := c) (s := s) rfl
    split at h
    · cases h
    · rename_i c₂ s₂ heq
      rw [heq] at halive
      cases h
      exact hI.flushStage cfg rfl
        (hI.drainQueue (fun _ h => h) now c₂.sendQueue (s := s₂) (halive rfl))
  · cases h

/-- The rest of a tick that comes to the flush. -/
theorem tickConnection_of_beforeAcks {c c₁ : Connection} {cfg : TickConfig} {s s₁ : Socket}
    {now : ℤ}
    (h : c.beforeAcks cfg s now = some (c₁, s₁)) :
    (c.tickConnection cfg s now).1.channels =
        ((c₁.flushAcks s₁ now).1.heartbeatStage cfg (c₁.flushAcks s₁ now).2 now).1.channels ∧
      (c.tickConnection cfg s now).2.1 =
        ((c₁.flushAcks s₁ now).1.heartbeatStage cfg (c₁.flushAcks s₁ now).2 now).2 := by
  rw [beforeAcks] at h
  split at h
  · rename_i hlive
    split at h
    · cases h
    · rename_i c₂ s₂ heq
      rw [tickConnection, hlive.1]
      simp only [tickSeen, if_neg (not_le.mpr hlive.2), heq, tickSend_eq]
      cases h
      exact ⟨rfl, rfl⟩
  · cases h

/-- A tick that does not come to the flush leaves the flags alone. -/
theorem ackStates_of_beforeAcks {c : Connection} {cfg : TickConfig} {s : Socket} {now : ℤ}
    (h : c.beforeAcks cfg s now = none) :
    (c.tickConnection cfg s now).1.ackStates = c.ackStates := by
  have hI := sendInvariant_ackView cfg.mtu c.ackView
  rw [tickConnection, tickSeen.eq_def]
  split
  · rw [tickDisconnecting]
    split
    · exact c.ackStates_shutDown
    · split
      · split <;> rfl
      · rfl
  · rename_i hstate
    split
    · exact c.ackStates_shutDown
    · rename_i hfresh
      rw [beforeAcks, if_pos ⟨hstate, not_le.mp hfresh⟩] at h
      obtain ⟨-, hkilled⟩ := hI.retransmitChannels now c.retransmitTimeout cfg.maxRetransmits
        (List.range c.channels.length) (c := c) (s := s) rfl
      split
      · rename_i heq
        rw [heq] at hkilled
        obtain ⟨c', hview, heq'⟩ := hkilled rfl
        dsimp only at heq' ⊢
        rw [heq', ackStates_shutDown]
        exact congrArg Prod.fst hview
      · rename_i heq
        rw [heq] at h
        cases h
  · rfl

/-! ## What is owed -/

def ackEntry (i : ℕ) (ch : Channel) : MultiAckEntry :=
  ⟨UInt8.ofNat i, UInt32.ofNat ch.recvAck, ch.recvAckField⟩

theorem multiAckEntries_congr {c c' : Connection}
    (h : c'.channels.map Channel.ackState = c.channels.map Channel.ackState) (ids : List UInt8) :
    c'.multiAckEntries ids = c.multiAckEntries ids := by
  have heq : ∀ (c : Connection), c.multiAckEntries ids = ids.filterMap fun id =>
      (c.channels.map Channel.ackState)[id.toNat]?.map fun st => ⟨id, UInt32.ofNat st.1, st.2⟩ := by
    intro c
    apply List.filterMap_congr
    intro id _
    rw [List.getElem?_map, Option.map_map]
    rfl
  rw [heq c', heq c, h]

theorem wanting_congr {c c' : Connection} (h : c'.ackStates = c.ackStates) :
    c'.wanting = c.wanting := by
  have heq : ∀ (c : Connection), c.wanting =
      (List.range c.ackStates.length).filter fun i => c.ackStates[i]?.any Prod.fst := by
    intro c
    rw [wanting, ackStates, List.length_map]
    apply List.filter_congr
    intro i _
    rw [List.getElem?_map]
    cases c.channels[i]? <;> rfl
  rw [heq c', heq c, h]

theorem channel_of_ackStates {c c' : Connection} (h : c'.ackStates = c.ackStates) {i : ℕ}
    {ch : Channel} (hch : c.channels[i]? = some ch) :
    ∃ ch', c'.channels[i]? = some ch' ∧ ch'.ackState = ch.ackState := by
  have hget : c'.ackStates[i]? = some (ch.needsAck, ch.ackState) := by
    rw [h, ackStates, List.getElem?_map, hch]
    rfl
  rw [ackStates, List.getElem?_map, Option.map_eq_some_iff] at hget
  obtain ⟨ch', hch', hview⟩ := hget
  exact ⟨ch', hch', congrArg Prod.snd hview⟩

theorem owed_congr {c c' : Connection} (h : c'.ackStates = c.ackStates) : c'.owed = c.owed := by
  have hstates : c'.channels.map Channel.ackState = c.channels.map Channel.ackState := by
    have hsnd := congrArg (List.map Prod.snd) h
    rwa [ackStates, ackStates, List.map_map, List.map_map] at hsnd
  rw [owed, owed, wanting_congr h, multiAckEntries_congr hstates]

theorem exists_channel_zero {c : Connection} (h : c.wanting ≠ []) :
    ∃ ch, c.channels[0]? = some ch := by
  obtain ⟨i, hi⟩ := List.exists_mem_of_ne_nil _ h
  obtain ⟨ch, hch, -⟩ := mem_wanting.mp hi
  have hpos : 0 < c.channels.length := Nat.zero_lt_of_lt (List.getElem?_eq_some_iff.mp hch).1
  exact ⟨_, List.getElem?_eq_getElem hpos⟩

section

variable {c : Connection} (hlayout : c.channels.length ≤ 256)

include hlayout

theorem channel_ofNat {i : ℕ} {ch : Channel} (hch : c.channels[i]? = some ch) :
    (UInt8.ofNat i).toNat = i ∧ c.channel (UInt8.ofNat i) = some ch := by
  have hlt := (List.getElem?_eq_some_iff.mp hch).1
  have hbyte : (UInt8.ofNat i).toNat = i := by
    rw [UInt8.toNat_ofNat']
    omega
  exact ⟨hbyte, by rw [channel, hbyte, hch]⟩

theorem ackEntry_mem_owed {i : ℕ} {ch : Channel} (hch : c.channels[i]? = some ch)
    (hneeds : ch.needsAck = true) : ackEntry i ch ∈ c.owed := by
  rw [owed, multiAckEntries, List.mem_filterMap]
  refine ⟨UInt8.ofNat i, List.mem_map_of_mem (mem_wanting.mpr ⟨ch, hch, hneeds⟩), ?_⟩
  rw [(channel_ofNat hlayout hch).2]
  rfl

theorem owed_ne_nil (h : c.wanting ≠ []) : c.owed ≠ [] := by
  obtain ⟨i, hi⟩ := List.exists_mem_of_ne_nil _ h
  obtain ⟨ch, hch, hneeds⟩ := mem_wanting.mp hi
  exact List.ne_nil_of_mem (ackEntry_mem_owed hlayout hch hneeds)

theorem owed_of_wanting {ch : Channel} (hch : c.channels[0]? = some ch) (h : c.wanting = [0]) :
    c.owed = [ackEntry 0 ch] := by
  have hchannel : c.channel (UInt8.ofNat 0) = some ch := (channel_ofNat hlayout hch).2
  rw [owed, h, List.map_singleton, multiAckEntries, List.filterMap_cons, hchannel]
  rfl

end

/-! ## The flush and the heartbeat -/

def heartbeatDue (c : Connection) (cfg : TickConfig) (now : ℤ) : Prop :=
  c.state = .connected ∧ now - c.lastSend ≥ cfg.heartbeatInterval

instance (c : Connection) (cfg : TickConfig) (now : ℤ) : Decidable (c.heartbeatDue cfg now) :=
  inferInstanceAs (Decidable (_ ∧ _))

def cleared (c : Connection) : Connection :=
  { c with channels := c.channels.map fun ch => { ch with needsAck := false } }

theorem collectAcks_range (c : Connection) :
    collectAcks c (List.range c.channels.length) = (c.cleared, c.wanting.map UInt8.ofNat) := by
  obtain ⟨hids, channels, hconn, hget⟩ :=
    collectAcks_spec c (List.nodup_range (n := c.channels.length))
  have hchannels : channels = c.channels.map fun ch => { ch with needsAck := false } := by
    apply List.ext_getElem?
    intro i
    rw [hget, List.getElem?_map]
    cases hch : c.channels[i]? with
    | none => rfl
    | some ch =>
        have hlt := (List.getElem?_eq_some_iff.mp hch).1
        simp [hlt]
  rw [hchannels] at hconn
  exact Prod.ext hconn hids

theorem multiAckEntries_cleared (c : Connection) (ids : List UInt8) :
    c.cleared.multiAckEntries ids = c.multiAckEntries ids := by
  apply multiAckEntries_congr
  rw [cleared, List.map_map]
  rfl

/-- What the flush does if there is something to flush: it clears all flags, and
the acknowledgements are sent or lost. -/
theorem flushAcks_outcome (c : Connection) (s : Socket) (now : ℤ) (howed : c.owed ≠ []) :
    AckSend c.cleared s c.owed (c.flushAcks s now).1 (c.flushAcks s now).2 := by
  have hids : c.wanting.map UInt8.ofNat ≠ [] := by
    intro hnil
    rw [owed, hnil] at howed
    exact howed rfl
  have hentries : c.cleared.multiAckEntries (c.wanting.map UInt8.ofNat) = c.owed :=
    multiAckEntries_cleared c _
  have hsend := c.cleared.sendMultiChannelHeartbeat_outcome s now (hentries.symm ▸ howed)
  rw [hentries] at hsend
  simp only [flushAcks, collectAcks_range, if_neg hids]
  exact hsend

/-- What the flush leaves behind. -/
theorem AckSend.spec {c c' : Connection} {s s' : Socket} {entries : List MultiAckEntry}
    (h : AckSend c s entries c' s') :
    c'.channels = c.channels ∧ c'.sendCipher.aead = c.sendCipher.aead ∧
      c'.batchEnabled = c.batchEnabled ∧
      ∃ datagrams, s'.written = s.written ++ datagrams ∧
        datagrams.flatMap (multiAcksIn c.sendCipher.aead c.batchEnabled) =
          if ackEntriesFit entries ∧ s.takes = true then [entries] else [] := by
  cases h with
  | tooMany unfit =>
      refine ⟨rfl, rfl, rfl, [], (List.append_nil _).symm, ?_⟩
      rw [if_neg fun hboth => unfit hboth.1]
      rfl
  | lost fit refused same =>
      refine ⟨rfl, same, rfl, [], (List.append_nil _).symm, ?_⟩
      simp [refused]
  | @sent cipher now datagram fit taken same reads =>
      refine ⟨rfl, same, rfl, [datagram], rfl, ?_⟩
      rw [if_pos ⟨fit, taken⟩, List.flatMap_singleton, reads]

/-- Entries that are not sent leave the timers alone. If they fit, one write has
been tried. -/
theorem AckSend.spec_lost {c c' : Connection} {s s' : Socket} {entries : List MultiAckEntry}
    (h : AckSend c s entries c' s') (hlost : ¬(ackEntriesFit entries ∧ s.takes = true)) :
    c'.state = c.state ∧ c'.lastSend = c.lastSend ∧
      (ackEntriesFit entries → s'.failures = s.failures.tail) := by
  cases h with
  | tooMany unfit => exact ⟨rfl, rfl, fun hfit => absurd hfit unfit⟩
  | lost fit refused same => exact ⟨rfl, rfl, fun _ => rfl⟩
  | sent fit taken same reads => exact absurd ⟨fit, taken⟩ hlost

theorem ackEntriesFit_singleton (e : MultiAckEntry) : ackEntriesFit [e] := by
  simp [ackEntriesFit]

/-- The heartbeat of a tick acknowledges channel 0. -/
theorem heartbeatStage_spec (c : Connection) (cfg : TickConfig) (s : Socket) (now : ℤ)
    {ch : Channel} (hch : c.channels[0]? = some ch) :
    (c.heartbeatStage cfg s now).1.channels = c.channels ∧
      ∃ datagrams, (c.heartbeatStage cfg s now).2.written = s.written ++ datagrams ∧
        datagrams.flatMap (multiAcksIn c.sendCipher.aead c.batchEnabled) =
          if c.heartbeatDue cfg now ∧ s.takes = true then [[ackEntry 0 ch]] else [] := by
  have hstage : c.heartbeatStage cfg s now = if c.heartbeatDue cfg now then
      ((c.sendHeartbeat s now).1, (c.sendHeartbeat s now).2.1) else (c, s) := rfl
  rw [hstage]
  by_cases hdue : c.heartbeatDue cfg now
  · have hentries : c.multiAckEntries [0] = [ackEntry 0 ch] := by
      have hchannel : c.channel 0 = some ch := hch
      rw [multiAckEntries, List.filterMap_cons, hchannel]
      rfl
    have hsend := c.sendMultiChannelHeartbeat_outcome s now (hentries ▸ List.cons_ne_nil _ _)
    rw [hentries] at hsend
    obtain ⟨hchannels, -, -, datagrams, hwritten, hreads⟩ := hsend.spec
    rw [if_pos hdue]
    refine ⟨hchannels, datagrams, hwritten, ?_⟩
    rw [hreads]
    simp [hdue, ackEntriesFit_singleton]
  · rw [if_neg hdue]
    refine ⟨rfl, [], (List.append_nil _).symm, ?_⟩
    simp [hdue]

/-! ## Nothing is discarded -/

section

variable (c : Connection) (cfg : TickConfig) (s : Socket) (now : ℤ)

/-- What the tick writes from the flush on. Before, it writes data packets; the
acknowledgements in their headers are not counted. -/
def ackDatagrams : List Bytes :=
  match c.beforeAcks cfg s now with
  | none => []
  | some (_, s₁) => (c.tickConnection cfg s now).2.1.written.drop s₁.written.length

/-- The multi-channel acknowledgements that the peer reads from it. -/
def acksRead : List (List MultiAckEntry) :=
  (c.ackDatagrams cfg s now).flatMap (multiAcksIn c.sendCipher.aead c.batchEnabled)

/-- No acknowledgement is discarded: one packet carries exactly those of all
channels that want one, or a channel whose acknowledgement was not sent wants it
still. Whether a data packet of the same tick carries it in its header makes no
difference. -/
def AcksKept : Prop :=
  c.owed ∈ c.acksRead cfg s now ∨
    ∀ i ch, c.channels[i]? = some ch → ch.needsAck = true →
      (∃ entries ∈ c.acksRead cfg s now, ackEntry i ch ∈ entries) ∨
        ∃ ch', (c.tickConnection cfg s now).1.channels[i]? = some ch' ∧ ch'.needsAck = true

/-- If the tick comes to the flush and some channel wants an acknowledgement, then
all entries fit and the socket takes the packet; or only channel 0 wants one, a
heartbeat is due, and the socket takes the packet after the first one. -/
def acksGoOut : Prop :=
  ∀ c₁ s₁, c.beforeAcks cfg s now = some (c₁, s₁) →
    c.wanting = [] ∨ (ackEntriesFit c.owed ∧ s₁.takes = true) ∨
      (c.wanting = [0] ∧ c₁.heartbeatDue cfg now ∧ s₁.failures.tail.head? ≠ some true)

end

variable {c : Connection} {cfg : TickConfig} {s : Socket} {now : ℤ}

/-- What the peer reads if the tick comes to the flush. -/
theorem acksRead_of_beforeAcks {c₁ : Connection} {s₁ : Socket}
    (hbefore : c.beforeAcks cfg s now = some (c₁, s₁)) (howed : c.owed ≠ []) {ch : Channel}
    (hch : c.channels[0]? = some ch) :
    (c.tickConnection cfg s now).1.channels = c₁.cleared.channels ∧
      c.acksRead cfg s now =
        (if ackEntriesFit c.owed ∧ s₁.takes = true then [c.owed] else []) ++
          if (c₁.flushAcks s₁ now).1.heartbeatDue cfg now ∧
              (c₁.flushAcks s₁ now).2.takes = true then
            [[ackEntry 0 ch]] else [] := by
  have hview := ackView_beforeAcks hbefore
  simp only [ackView, Prod.mk.injEq] at hview
  obtain ⟨hstates, haead, hbatch⟩ := hview
  have howed₁ := owed_congr hstates
  obtain ⟨hchannels, hwritten⟩ := tickConnection_of_beforeAcks hbefore
  have hflush := c₁.flushAcks_outcome s₁ now (howed₁ ▸ howed)
  rw [howed₁] at hflush
  obtain ⟨hcleared, haead', hbatch', first, hfirst, hreads⟩ := hflush.spec
  obtain ⟨ch₁, hch₁, hsame⟩ := channel_of_ackStates hstates hch
  have hch' : (c₁.flushAcks s₁ now).1.channels[0]? = some { ch₁ with needsAck := false } := by
    rw [hcleared, cleared, List.getElem?_map, hch₁]
    rfl
  have hentry : ackEntry 0 { ch₁ with needsAck := false } = ackEntry 0 ch := by
    simp only [Channel.ackState, Prod.mk.injEq] at hsame
    simp only [ackEntry, hsame]
  obtain ⟨hkept, second, hsecond, hreads'⟩ :=
    (c₁.flushAcks s₁ now).1.heartbeatStage_spec cfg (c₁.flushAcks s₁ now).2 now hch'
  refine ⟨hchannels.trans (hkept.trans hcleared), ?_⟩
  have hdatagrams : c.ackDatagrams cfg s now = first ++ second := by
    rw [ackDatagrams, hbefore]
    dsimp only
    rw [hwritten, hsecond, hfirst, List.append_assoc, List.drop_left]
  rw [haead', hbatch'] at hreads'
  have haead₀ : c₁.cleared.sendCipher.aead = c.sendCipher.aead := haead
  have hbatch₀ : c₁.cleared.batchEnabled = c.batchEnabled := hbatch
  rw [haead₀, hbatch₀] at hreads hreads'
  rw [acksRead, hdatagrams, List.flatMap_append, hreads, hreads', hentry]

/-- A connection of which only channel 0 can want an acknowledgement. -/
theorem wanting_eq_singleton (hne : c.wanting ≠ []) (h : ∀ i ∈ c.wanting, i = 0) :
    c.wanting = [0] := by
  have hnodup : c.wanting.Nodup := List.nodup_range.filter _
  cases hw : c.wanting with
  | nil => exact absurd hw hne
  | cons i is =>
      rw [hw] at h hnodup
      rw [List.forall_mem_cons] at h
      obtain rfl : i = 0 := h.1
      cases is with
      | nil => rfl
      | cons j js =>
          have hj := h.2 j List.mem_cons_self
          rw [hj] at hnodup
          simp at hnodup

theorem acksKept_of_none (hbefore : c.beforeAcks cfg s now = none) : c.AcksKept cfg s now := by
  refine .inr fun i ch hch hneeds => .inr ?_
  have hstates := ackStates_of_beforeAcks hbefore
  have hmem : i ∈ (c.tickConnection cfg s now).1.wanting := by
    rw [wanting_congr hstates]
    exact mem_wanting.mpr ⟨ch, hch, hneeds⟩
  exact mem_wanting.mp hmem

/-- If the acknowledgements are not sent together, then only that of channel 0
can be saved. -/
theorem acksKept_iff_of_lost (hlayout : c.channels.length ≤ 256) {c₁ : Connection} {s₁ : Socket}
    (hbefore : c.beforeAcks cfg s now = some (c₁, s₁)) (hwanting : c.wanting ≠ [])
    (hlost : ¬(ackEntriesFit c.owed ∧ s₁.takes = true)) :
    c.AcksKept cfg s now ↔ c.wanting = [0] ∧ c₁.heartbeatDue cfg now ∧
      s₁.failures.tail.head? ≠ some true := by
  have hstates : c₁.ackStates = c.ackStates := congrArg Prod.fst (ackView_beforeAcks hbefore)
  have howed := owed_ne_nil hlayout hwanting
  obtain ⟨ch₀, hch₀⟩ := exists_channel_zero hwanting
  obtain ⟨hchannels, hread⟩ := acksRead_of_beforeAcks hbefore howed hch₀
  have hflush := c₁.flushAcks_outcome s₁ now (by rwa [owed_congr hstates])
  rw [owed_congr hstates] at hflush
  obtain ⟨hstate, hlast, hfailures⟩ := hflush.spec_lost hlost
  have hdue : (c₁.flushAcks s₁ now).1.heartbeatDue cfg now ↔ c₁.heartbeatDue cfg now := by
    rw [heartbeatDue, heartbeatDue, hstate, hlast]
    rfl
  rw [if_neg hlost, List.nil_append] at hread
  -- if only channel 0 wanted something, the first write was refused
  have htakes : c.wanting = [0] →
      ((c₁.flushAcks s₁ now).2.takes = true ↔ s₁.failures.tail.head? ≠ some true) := by
    intro hsingle
    have hfit : ackEntriesFit c.owed := by
      rw [owed_of_wanting hlayout hch₀ hsingle]
      exact ackEntriesFit_singleton _
    rw [Socket.takes, hfailures hfit, bne_iff_ne]
  constructor
  · intro hkept
    -- whoever wanted an acknowledgement has lost its flag, so the heartbeat has it
    have hsent : ∀ i ∈ c.wanting, ∃ ch, ∃ entries ∈ c.acksRead cfg s now,
        ackEntry i ch ∈ entries ∧ i < c.channels.length := by
      intro i hi
      obtain ⟨ch, hch, hneeds⟩ := mem_wanting.mp hi
      have hlt := (List.getElem?_eq_some_iff.mp hch).1
      rcases hkept with hall | hkept
      · exact ⟨ch, c.owed, hall, ackEntry_mem_owed hlayout hch hneeds, hlt⟩
      · rcases hkept i ch hch hneeds with ⟨entries, hentries, hmem⟩ | ⟨ch', hch', hneeds'⟩
        · exact ⟨ch, entries, hentries, hmem, hlt⟩
        · rw [hchannels, cleared, List.getElem?_map, Option.map_eq_some_iff] at hch'
          obtain ⟨ch₁, -, rfl⟩ := hch'
          cases hneeds'
    rw [hread] at hsent
    by_cases hbeat : (c₁.flushAcks s₁ now).1.heartbeatDue cfg now ∧
        (c₁.flushAcks s₁ now).2.takes = true
    · rw [if_pos hbeat] at hsent
      have hzero : ∀ i ∈ c.wanting, i = 0 := by
        intro i hi
        obtain ⟨ch, entries, hentries, hmem, hlt⟩ := hsent i hi
        rw [List.mem_singleton.mp hentries] at hmem
        have hchannel := congrArg (fun e => e.channel.toNat) (List.mem_singleton.mp hmem)
        simp only [ackEntry, UInt8.toNat_ofNat'] at hchannel
        omega
      have hsingle := wanting_eq_singleton hwanting hzero
      exact ⟨hsingle, hdue.mp hbeat.1, (htakes hsingle).mp hbeat.2⟩
    · rw [if_neg hbeat] at hsent
      obtain ⟨i, hi⟩ := List.exists_mem_of_ne_nil _ hwanting
      obtain ⟨ch, entries, hentries, -⟩ := hsent i hi
      cases hentries
  · rintro ⟨hsingle, hdue', htakes'⟩
    left
    rw [hread, if_pos ⟨hdue.mpr hdue', (htakes hsingle).mpr htakes'⟩,
      owed_of_wanting hlayout hch₀ hsingle]
    exact List.mem_singleton_self _

/-- A tick discards no acknowledgement exactly if they go out. -/
theorem acks_kept_iff (hlayout : c.channels.length ≤ 256) :
    c.AcksKept cfg s now ↔ c.acksGoOut cfg s now := by
  cases hbefore : c.beforeAcks cfg s now with
  | none => exact iff_of_true (acksKept_of_none hbefore) fun _ _ h => by cases hbefore.symm.trans h
  | some before =>
      obtain ⟨c₁, s₁⟩ := before
      have hgoOut : c.acksGoOut cfg s now ↔
          c.wanting = [] ∨ (ackEntriesFit c.owed ∧ s₁.takes = true) ∨
            (c.wanting = [0] ∧ c₁.heartbeatDue cfg now ∧ s₁.failures.tail.head? ≠ some true) := by
        constructor
        · exact fun h => h c₁ s₁ hbefore
        · intro h c₂ s₂ h₂
          cases hbefore.symm.trans h₂
          exact h
      rw [hgoOut]
      by_cases hwanting : c.wanting = []
      · refine iff_of_true (.inr fun i ch hch hneeds => ?_) (.inl hwanting)
        have hmem := mem_wanting.mpr ⟨ch, hch, hneeds⟩
        rw [hwanting] at hmem
        cases hmem
      by_cases hsent : ackEntriesFit c.owed ∧ s₁.takes = true
      · refine iff_of_true (.inl ?_) (.inr (.inl hsent))
        obtain ⟨ch₀, hch₀⟩ := exists_channel_zero hwanting
        rw [(acksRead_of_beforeAcks hbefore (owed_ne_nil hlayout hwanting) hch₀).2, if_pos hsent]
        exact List.mem_append_left _ (List.mem_singleton_self _)
      · rw [acksKept_iff_of_lost hlayout hbefore hwanting hsent]
        simp only [hwanting, hsent, false_or]

/-! ## How many channels -/

theorem ackEntrySize_bounds (e : MultiAckEntry) : 6 ≤ ackEntrySize e ∧ ackEntrySize e ≤ 10 :=
  marshalMultiAckEntry_length 10 e le_rfl

/-- The acknowledgements of 25 channels always fit. -/
theorem ackEntriesFit_of_length_le {entries : List MultiAckEntry} (h : entries.length ≤ 25) :
    ackEntriesFit entries := by
  have hsum : (entries.dropLast.map ackEntrySize).sum ≤
      (entries.dropLast.map ackEntrySize).length * 10 := by
    refine List.sum_le_card_nsmul _ 10 ?_
    intro n hn
    obtain ⟨e, -, rfl⟩ := List.mem_map.mp hn
    exact (ackEntrySize_bounds e).2
  rw [List.length_map, List.length_dropLast] at hsum
  rw [ackEntriesFit]
  omega

/-- Those of 42 channels never do. -/
theorem not_ackEntriesFit_of_le_length {entries : List MultiAckEntry} (h : 42 ≤ entries.length) :
    ¬ackEntriesFit entries := by
  have hsum : (entries.dropLast.map ackEntrySize).length * 6 ≤
      (entries.dropLast.map ackEntrySize).sum := by
    refine List.card_nsmul_le_sum _ 6 ?_
    intro n hn
    obtain ⟨e, -, rfl⟩ := List.mem_map.mp hn
    exact (ackEntrySize_bounds e).1
  rw [List.length_map, List.length_dropLast] at hsum
  rw [ackEntriesFit]
  omega

/-- A connection that has received packet 1 on each of its channels. -/
def allWanting (n : ℕ) : Connection :=
  let c := newConnection
    { addr := ⟨0, 0⟩
      sendCipher := .init none
      recvCipher := .init none
      layout := List.replicate n (.unreliable, 0)
      compress := .init .none 0 none
        ⟨fun _ => none, fun _ _ => none, fun _ => none, fun _ src => src, fun _ _ _ => none⟩
      cc := .aggressive 0
      features := 0
      token := []
      settings := ⟨0, 0, 0, 0⟩ } 0
  { c with channels := c.channels.map fun ch => (ch.recordReceive 1).1 }

def flushConfig : TickConfig := ⟨1200, 10, 10, 10, 10⟩

/-- Two channels get their acknowledgements. -/
theorem acks_kept_iff_two : (allWanting 2).AcksKept flushConfig ⟨[], []⟩ 0 := by
  refine (acks_kept_iff (by decide)).mpr fun c₁ s₁ hbefore => .inr (.inl ⟨?_, ?_⟩)
  · decide +kernel
  · have htakes : ((allWanting 2).beforeAcks flushConfig ⟨[], []⟩ 0).all fun b => b.2.takes := by
      decide +kernel
    rw [hbefore] at htakes
    exact htakes

/-- Of 42 channels that want an acknowledgement none gets one, and none wants it
any more. -/
theorem acks_discarded : ¬(allWanting 42).AcksKept flushConfig ⟨[], []⟩ 0 := by
  have hread : (allWanting 42).acksRead flushConfig ⟨[], []⟩ 0 = [] := by decide +kernel
  have hafter : ((allWanting 42).tickConnection flushConfig ⟨[], []⟩ 0).1.wanting = [] := by
    decide +kernel
  have hbefore : 0 ∈ (allWanting 42).wanting := by decide +kernel
  obtain ⟨ch, hch, hneeds⟩ := mem_wanting.mp hbefore
  rintro (hall | hkept)
  · rw [hread] at hall
    cases hall
  · rcases hkept 0 ch hch hneeds with ⟨entries, hentries, -⟩ | hstill
    · rw [hread] at hentries
      cases hentries
    · have hmem := mem_wanting.mpr hstill
      rw [hafter] at hmem
      cases hmem

end Connection

end Fastwire
