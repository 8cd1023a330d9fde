/-
# The order of batched packets

With batching a packet takes one of two ways to the socket. It is queued as long
as the queue has room, and the queue leaves at the end of the tick; once the
queue is full it is written at once. So what is written at once overtakes what
is queued.

The send pipeline is followed packet by packet: every packet of a tick is
numbered, sealed and then queued or written, and on every channel the numbers
count up.
-/

import Fastwire.Connection.Packets
import Fastwire.Connection.Packing

namespace Fastwire

open Crypto

/-! ## Reading datagrams -/

/-- What `Decrypt` opens a packet to, the replay check apart. -/
def openWire : Option Aead → Bytes → Option Bytes
  | none, packet => some packet
  | some a, packet => a.openBytes (CipherState.wireNonce packet) (packet.drop nonceSize)

theorem openWire_encrypt (tx : CipherState) (plaintext : Bytes) :
    openWire tx.aead (tx.encrypt plaintext).2 = some plaintext := by
  cases htx : tx.aead with
  | none => simp [openWire, CipherState.encrypt, htx]
  | some a =>
      rw [openWire, CipherState.wireNonce_encrypt htx]
      simp only [CipherState.encrypt, htx]
      rw [List.drop_left' (putLE_length _ _), a.openBytes_sealBytes]

def packetsOf (datagram : Bytes) : List Bytes :=
  match unmarshalBatch datagram with
  | .ok packets => packets
  | .error _ => []

def numberOn (id : UInt8) (plaintext : Bytes) : Option ℕ :=
  match unmarshalHeader plaintext with
  | .ok (hdr, _) => if hdr.channel = id then some hdr.sequence.toNat else none
  | .error _ => none

def readNumbers (aead : Option Aead) (id : UInt8) (packets : List Bytes) : List ℕ :=
  (packets.filterMap (openWire aead)).filterMap (numberOn id)

/-- The numbers of the packets of a channel, in the order in which the datagrams
carry them. -/
def arrivals (aead : Option Aead) (id : UInt8) (datagrams : List Bytes) : List ℕ :=
  readNumbers aead id (datagrams.flatMap packetsOf)

namespace Connection

/-! ## Flushing -/

/-- The datagrams of a flush carry the queued packets in order. -/
theorem packetsOf_packBatch (mtu : ℤ) {packets : List Bytes}
    (hshort : ∀ p ∈ packets, p.length < 2 ^ 16) :
    (packBatch mtu 0 [] packets).flatMap packetsOf = packets := by
  obtain ⟨groups, hpack, hflatten, hgroups⟩ :=
    packBatch_groups mtu [] packets (by simp)
  rw [List.nil_append] at hflatten
  have hread : ∀ group ∈ groups, packetsOf (batchFrame group) = group := by
    intro group hgroup
    have hmem : ∀ p ∈ group, p ∈ packets := by
      intro p hp
      rw [← hflatten]
      exact List.mem_flatten.mpr ⟨group, hgroup, hp⟩
    have hpacked := hgroups group hgroup
    rw [packetsOf, unmarshalBatch_frame hpacked.ne_nil hpacked.count_le fun p hp =>
      hshort p (hmem p hp)]
  calc (packBatch mtu 0 [] packets).flatMap packetsOf
      = (groups.map batchFrame).flatMap packetsOf := congrArg _ hpack
    _ = groups.flatMap id := by rw [List.flatMap_map, List.flatMap_congr hread]; rfl
    _ = packets := by rw [List.flatMap_id, hflatten]

/-! ## The packets of a tick -/

/-- A data packet on its way: what was built and what goes on the wire. -/
structure Outgoing where
  stamped : Stamped
  encrypted : Bytes

/-- The receiver reads the packet as it was built. -/
structure Outgoing.Readable (aead : Option Aead) (p : Outgoing) : Prop where
  opens : openWire aead p.encrypted = some p.stamped.raw
  numbered : ∀ id, numberOn id p.stamped.raw =
    if p.stamped.channel = id then some p.stamped.sequence else none
  short : p.encrypted.length < 2 ^ 16

def numbersOn (id : UInt8) (sent : List Outgoing) : List ℕ :=
  (sent.filter fun p => p.stamped.channel = id).map fun p => p.stamped.sequence

theorem numbersOn_append (id : UInt8) (sent sent' : List Outgoing) :
    numbersOn id (sent ++ sent') = numbersOn id sent ++ numbersOn id sent' := by
  simp [numbersOn]

/-- The numbers of a channel after its counter, `count` of them. -/
def countUp (sendSeq count : ℕ) : List ℕ :=
  (List.range count).map fun k => (sendSeq + 1 + k) % 2 ^ 32

theorem countUp_zero (sendSeq : ℕ) : countUp sendSeq 0 = [] := rfl

theorem countUp_append (sendSeq sendSeq' m n : ℕ)
    (hnext : sendSeq' % 2 ^ 32 = (sendSeq + m) % 2 ^ 32) :
    countUp sendSeq m ++ countUp sendSeq' n = countUp sendSeq (m + n) := by
  rw [countUp, countUp, countUp, List.range_add, List.map_append, List.map_map]
  congr 1
  apply List.map_congr_left
  intro k _
  simp only [Function.comp_apply]
  omega

/-- The connection has sent these packets, in this order: as many as the batch
queue takes are queued, the others are written. -/
structure Sends (c : Connection) (s : Socket) (c' : Connection) (s' : Socket)
    (sent : List Outgoing) : Prop where
  cc_eq : c'.cc = c.cc
  aead_eq : c'.sendCipher.aead = c.sendCipher.aead
  batchEnabled_eq : c'.batchEnabled = c.batchEnabled
  skipBatch_eq : c'.skipBatch = c.skipBatch
  batchBuf_eq : c'.batchBuf = c.batchBuf ++ (sent.take c.batchRoom).map Outgoing.encrypted
  written_eq : s'.written =
    s.written ++ (sent.drop c.batchRoom).map fun p => singleFrame p.encrypted
  reliable : Reliable s'
  readable : ∀ p ∈ sent, p.Readable c.sendCipher.aead
  numbers : ∀ id ch, c.channel id = some ch → ∃ ch', c'.channel id = some ch' ∧
    ch'.sendSeq % 2 ^ 32 = (ch.sendSeq + (numbersOn id sent).length) % 2 ^ 32 ∧
    numbersOn id sent = countUp ch.sendSeq (numbersOn id sent).length

section

variable {c c' c'' : Connection} {s s' s'' : Socket} {sent sent' : List Outgoing}

/-- A change that touches none of it. -/
theorem sends_nil (hcc : c'.cc = c.cc) (hcipher : c'.sendCipher = c.sendCipher)
    (hbatchEnabled : c'.batchEnabled = c.batchEnabled) (hskip : c'.skipBatch = c.skipBatch)
    (hbuf : c'.batchBuf = c.batchBuf) (hs : Reliable s)
    (hchannels : ∀ id ch, c.channel id = some ch →
      ∃ ch', c'.channel id = some ch' ∧ ch'.sendSeq = ch.sendSeq) :
    Sends c s c' s [] where
  cc_eq := hcc
  aead_eq := by rw [hcipher]
  batchEnabled_eq := hbatchEnabled
  skipBatch_eq := hskip
  batchBuf_eq := by simp [hbuf]
  written_eq := by simp
  reliable := hs
  readable := by simp
  numbers id ch hch := by
    obtain ⟨ch', hch', hseq⟩ := hchannels id ch hch
    exact ⟨ch', hch', by simp [numbersOn, hseq], rfl⟩

theorem Sends.batchRoom_eq (h : Sends c s c' s' sent) :
    c'.batchRoom = c.batchRoom - sent.length := by
  have hbuf := congrArg List.length h.batchBuf_eq
  rw [List.length_append, List.length_map, List.length_take] at hbuf
  rw [batchRoom, batchRoom, h.batchEnabled_eq, h.skipBatch_eq] at *
  split
  · rename_i hqueues
    rw [if_pos hqueues] at hbuf
    omega
  · simp

theorem Sends.trans (h : Sends c s c' s' sent) (h' : Sends c' s' c'' s'' sent') :
    Sends c s c'' s'' (sent ++ sent') where
  cc_eq := h'.cc_eq.trans h.cc_eq
  aead_eq := h'.aead_eq.trans h.aead_eq
  batchEnabled_eq := h'.batchEnabled_eq.trans h.batchEnabled_eq
  skipBatch_eq := h'.skipBatch_eq.trans h.skipBatch_eq
  batchBuf_eq := by
    rw [h'.batchBuf_eq, h.batchBuf_eq, h.batchRoom_eq, List.take_append, List.map_append,
      List.append_assoc]
  written_eq := by
    rw [h'.written_eq, h.written_eq, h.batchRoom_eq, List.drop_append, List.map_append,
      List.append_assoc]
  reliable := h'.reliable
  readable p hp := by
    rcases List.mem_append.mp hp with hp | hp
    · exact h.readable p hp
    · exact h.aead_eq ▸ h'.readable p hp
  numbers id ch hch := by
    obtain ⟨ch', hch', hseq, hnum⟩ := h.numbers id ch hch
    obtain ⟨ch'', hch'', hseq', hnum'⟩ := h'.numbers id ch' hch'
    refine ⟨ch'', hch'', ?_, ?_⟩
    · rw [numbersOn_append, List.length_append]
      omega
    · rw [numbersOn_append, List.length_append, ← countUp_append _ _ _ _ hseq, ← hnum, ← hnum']

/-- A packet that was written or queued. -/
theorem writeEncrypted_sends (hbatch : c.batchEnabled = true) (hs : Reliable s)
    (encrypted : Bytes) :
    ∃ s', c.writeEncrypted s encrypted =
        ({ c with batchBuf := c.batchBuf ++ [encrypted].take c.batchRoom }, s', .ok ()) ∧
      s'.written = s.written ++ ([encrypted].drop c.batchRoom).map singleFrame ∧ Reliable s' := by
  by_cases hroom : 0 < c.batchRoom
  · obtain ⟨room, hroomEq⟩ : ∃ room, c.batchRoom = room + 1 := ⟨c.batchRoom - 1, by omega⟩
    have hqueue : c.batchEnabled ∧ ¬ c.skipBatch ∧ c.batchBuf.length < maxBatchQueueSize := by
      rw [batchRoom] at hroom
      split at hroom
      · rename_i hqueues
        exact ⟨hbatch, hqueues.2, by omega⟩
      · omega
    refine ⟨s, ?_, by simp [hroomEq], hs⟩
    rw [writeEncrypted, if_pos hqueue]
    simp [hroomEq]
  · have hzero : c.batchRoom = 0 := by omega
    have hdirect : ¬ (c.batchEnabled ∧ ¬ c.skipBatch ∧ c.batchBuf.length < maxBatchQueueSize) := by
      rintro ⟨-, hskip, hlen⟩
      rw [batchRoom, if_pos ⟨hbatch, hskip⟩] at hzero
      omega
    obtain ⟨s', hwrite, hwritten, hs'⟩ := hs.write (singleFrame encrypted)
    refine ⟨s', ?_, by simp [hzero, hwritten], hs'⟩
    have hframe : c.sendFramed s encrypted = (s', .ok ()) := by
      rw [sendFramed, if_pos hbatch, hwrite]
    rw [writeEncrypted, if_neg hdirect, hframe]
    simp [hzero]

/-- A packet that was built and sealed is read back. -/
theorem readable_encrypt {tx : CipherState} {ch : Channel} {id flags : UInt8} {seq : ℕ}
    {body : Bytes}
    {p : Stamped} (hok : buildPacket ch id flags seq body = .ok p) (hchannel : p.channel = id)
    (hsequence : p.sequence = seq) (hseq : seq < 2 ^ 32)
    (hlen : p.raw.length ≤ maxHeaderSize + bodyLimit) :
    Outgoing.Readable tx.aead ⟨p, (tx.encrypt p.raw).2⟩ where
  opens := openWire_encrypt tx p.raw
  numbered k := by
    obtain ⟨n, hheader, -⟩ := unmarshalHeader_buildPacket hok
    simp only [numberOn, hheader, dataHeader, hchannel, hsequence, UInt32.toNat_ofNat']
    rw [Nat.mod_eq_of_lt hseq]
  short := by
    have hwire : (tx.encrypt p.raw).2.length ≤ p.raw.length + (nonceSize + tagSize) := by
      rw [CipherState.encrypt_length]
      split <;> omega
    have hlimit : maxHeaderSize + bodyLimit + (nonceSize + tagSize) < 2 ^ 16 := by decide
    show (tx.encrypt p.raw).2.length < 2 ^ 16
    omega

/-- Writing back a channel with the same counter. -/
theorem sendSeq_setChannel {k : UInt8} {ch ch' : Channel} (hch : c.channel k = some ch)
    (hseq : ch'.sendSeq = ch.sendSeq) (id : UInt8) (chk : Channel) (h : c.channel id = some chk) :
    ∃ chk', (c.setChannel k ch').channel id = some chk' ∧ chk'.sendSeq = chk.sendSeq := by
  rw [channel_setChannel hch]
  by_cases hid : id = k
  · subst hid
    rw [hch, Option.some.injEq] at h
    exact ⟨ch', if_pos rfl, hseq.trans (congrArg _ h)⟩
  · exact ⟨chk, by rw [if_neg hid, h], rfl⟩

/-- Entering a packet into the retransmission queue sends nothing. -/
theorem queuePacket_sends (c : Connection) (p : Stamped) (now : ℤ) (hs : Reliable s) :
    Sends c s (c.queuePacket p now) s [] := by
  cases hch : c.channel p.channel with
  | none =>
      simp only [queuePacket, hch]
      exact sends_nil rfl rfl rfl rfl rfl hs fun id ch h => ⟨ch, h, rfl⟩
  | some ch =>
      cases hmode : ch.mode.reliable with
      | false =>
          simp only [queuePacket, hch, hmode, Bool.false_eq_true, ↓reduceIte]
          exact sends_nil rfl rfl rfl rfl rfl hs fun id ch h => ⟨ch, h, rfl⟩
      | true =>
          simp only [queuePacket, hch, hmode, ↓reduceIte]
          exact sends_nil rfl rfl rfl rfl rfl hs (sendSeq_setChannel hch rfl)

/-- One packet. -/
theorem sendPacket_sends (hbatch : c.batchEnabled = true) (hs : Reliable s) {ch : Channel}
    {id : UInt8}
    (hch : c.channel id = some ch) (flags : UInt8) {body : Bytes} (hbody : body.length ≤ bodyLimit)
    (now : ℤ) :
    ∃ c' s' p, c.sendPacket s ch id flags body now = (c', s', .ok ()) ∧ Sends c s c' s' [p] ∧
      p.stamped.channel = id := by
  have hseq : ch.nextSequence.2 < 2 ^ 32 := Nat.mod_lt _ (by decide)
  obtain ⟨p, hbuild, hchannel, hsequence, hlen⟩ :=
    buildPacket_ok ch.nextSequence.1 id flags ch.nextSequence.2 body
  have hreadable : Outgoing.Readable c.sendCipher.aead ⟨p, (c.sendCipher.encrypt p.raw).2⟩ :=
    readable_encrypt hbuild hchannel hsequence hseq
      (hlen.trans (Nat.add_le_add_left hbody maxHeaderSize))
  -- the connection when the packet is written
  let cx : Connection := { c.setChannel id ch.nextSequence.1 with
    sendCipher := (c.sendCipher.encrypt p.raw).1
    transmissions := c.transmissions ++
      [⟨p.raw, (c.setChannel id ch.nextSequence.1).inFlightCount⟩] }
  have hroom : cx.batchRoom = c.batchRoom := rfl
  obtain ⟨s', hwrite, hwritten, hs'⟩ :=
    writeEncrypted_sends (c := cx) hbatch hs (c.sendCipher.encrypt p.raw).2
  rw [hroom] at hwrite hwritten
  have hsent : Sends c s { cx with batchBuf := c.batchBuf ++
      [(c.sendCipher.encrypt p.raw).2].take c.batchRoom } s'
        [⟨p, (c.sendCipher.encrypt p.raw).2⟩] :=
    { cc_eq := rfl
      aead_eq := CipherState.encrypt_aead _ _
      batchEnabled_eq := rfl
      skipBatch_eq := rfl
      batchBuf_eq := by rw [List.map_take]; rfl
      written_eq := by rw [hwritten, List.map_drop, List.map_drop]; rfl
      reliable := hs'
      readable := by simpa using hreadable
      numbers := by
        intro k chk hk
        have hchannel' : (c.setChannel id ch.nextSequence.1).channel k =
          if k = id then some ch.nextSequence.1 else c.channel k := channel_setChannel hch k
        by_cases hid : k = id
        · subst hid
          rw [hch, Option.some.injEq] at hk
          subst hk
          refine ⟨ch.nextSequence.1, hchannel'.trans (if_pos rfl), ?_, ?_⟩
          · simp [numbersOn, hchannel, Channel.nextSequence]
          · simp [numbersOn, hchannel, hsequence, countUp, Channel.nextSequence]
        · have hnone : numbersOn k [⟨p, (c.sendCipher.encrypt p.raw).2⟩] = [] := by
            simp [numbersOn, hchannel, Ne.symm hid]
          refine ⟨chk, (hchannel'.trans (if_neg hid)).trans hk, ?_, ?_⟩
          · rw [hnone]
            rfl
          · rw [hnone]
            rfl }
  refine ⟨_, s', _, ?_, hsent.trans (queuePacket_sends _ p now hs'), hchannel⟩
  have hstamp : c.stampPacket ch id flags body = (c.setChannel id ch.nextSequence.1, .ok p) :=
    congrArg (Prod.mk _) hbuild
  have htransmit : (c.setChannel id ch.nextSequence.1).transmitPacket s p.raw = _ := hwrite
  simp only [sendPacket, hstamp, htransmit]
  rfl

def channelsOf (sent : List Outgoing) : List UInt8 := sent.map fun p => p.stamped.channel

theorem channelsOf_append (sent sent' : List Outgoing) :
    channelsOf (sent ++ sent') = channelsOf sent ++ channelsOf sent' :=
  List.map_append

theorem sendFragments_sends (hbatch : c.batchEnabled = true) (hs : Reliable s) {id : UInt8}
    (hchannel : (c.channel id).isSome) (now : ℤ) {frags : List Bytes}
    (hfrags : ∀ frag ∈ frags, frag.length ≤ bodyLimit) :
    ∃ c' s' sent, sendFragments id now c s frags = (c', s', .ok ()) ∧ Sends c s c' s' sent ∧
      channelsOf sent = List.replicate frags.length id := by
  induction frags generalizing c s with
  | nil =>
      refine ⟨_, s, [], rfl, ?_, rfl⟩
      exact sends_nil rfl rfl rfl rfl rfl hs fun id ch h => ⟨ch, h, rfl⟩
  | cons frag frags ih =>
      rw [List.forall_mem_cons] at hfrags
      obtain ⟨ch, hch⟩ := Option.isSome_iff_exists.mp hchannel
      obtain ⟨c₁, s₁, p, hpacket, hsends, hp⟩ :=
        sendPacket_sends hbatch hs hch flagFragment hfrags.1 now
      obtain ⟨ch₁, hch₁, -⟩ := hsends.numbers id ch hch
      obtain ⟨c₂, s₂, sent₂, hrest, hsends', hchannels⟩ := ih (hsends.batchEnabled_eq.trans hbatch)
        hsends.reliable (by rw [hch₁]; rfl) hfrags.2
      refine ⟨c₂, s₂, [p] ++ sent₂, ?_, hsends.trans hsends', ?_⟩
      · simp only [sendFragments, hch, hpacket, hrest]
      · rw [channelsOf_append, hchannels]
        exact congrArg (· :: _) hp

/-- One message. It may be refused, but no packet of it is lost. -/
theorem sendMessage_sends (hbatch : c.batchEnabled = true) (hs : Reliable s)
    (msg : OutgoingMessage) (now : ℤ) :
    ∃ c' s' result sent, c.sendMessage s msg.data msg.channel now = (c', s', result) ∧
      Sends c s c' s' sent ∧ channelsOf sent = List.replicate (c.packetCount msg) msg.channel := by
  have hnothing : ∀ c' : Connection, (c' = c ∨ c' = c.nextFragmentID.1) → Sends c s c' s [] := by
    rintro c' (rfl | rfl)
    · exact sends_nil rfl rfl rfl rfl rfl hs fun id ch h => ⟨ch, h, rfl⟩
    · exact sends_nil rfl rfl rfl rfl rfl hs fun id ch h => ⟨ch, h, rfl⟩
  rcases c.sendMessage_cases s msg.data msg.channel now with
    ⟨hcount, c', e, hsend, hsame⟩ | ⟨ch, payload, hch, hcount, hshort, hsend⟩ |
    ⟨fragments, hchannel, hcount, hfragments, hsend⟩
  · exact ⟨c', s, .error e, [], hsend, hnothing c' hsame, by rw [hcount]; rfl⟩
  · obtain ⟨c', s', p, hpacket, hsends, hp⟩ := sendPacket_sends hbatch hs hch 0
      (hshort.trans (Nat.le_add_left _ _)) now
    refine ⟨{ c' with lastSend := now }, s', .ok (), [p] ++ [], ?_, hsends.trans ?_, ?_⟩
    · rw [hsend]
      simp only [sendSinglePacket, hpacket]
    · exact sends_nil rfl rfl rfl rfl rfl hsends.reliable fun id ch h => ⟨ch, h, rfl⟩
    · rw [hcount]
      exact congrArg (· :: _) hp
  · obtain ⟨c', s', sent, hloop, hsends, hchannels⟩ :=
      sendFragments_sends (c := c.nextFragmentID.1) hbatch hs hchannel now hfragments
    refine ⟨c', s', .ok (), [] ++ sent, hsend.trans hloop,
      (hnothing _ (.inr rfl)).trans hsends, ?_⟩
    rw [hcount]
    exact hchannels

/-- The drain sends the packets of a first part of the queue and puts the rest back. -/
theorem drainQueue_sends (hbatch : c.batchEnabled = true) (hs : Reliable s) (now : ℤ)
    (msgs : List OutgoingMessage) :
    ∃ c' s' events sent taken rest, drainQueue now c s msgs = (c', s', events) ∧
      Sends c s c' s' sent ∧ msgs = taken ++ rest ∧ c'.sendQueue = rest ++ c.sendQueue ∧
      channelsOf sent = c.packetChannels taken ∧
      (rest = [] ∨ ∃ n, c.cc.canSend n = false) := by
  induction msgs generalizing c s with
  | nil =>
      refine ⟨c, s, [], [], [], [], rfl, ?_, rfl, rfl, rfl, .inl rfl⟩
      exact sends_nil rfl rfl rfl rfl rfl hs fun id ch h => ⟨ch, h, rfl⟩
  | cons msg msgs ih =>
      cases hgate : c.cc.canSend c.inFlightCount with
      | false =>
          refine ⟨_, s, _, [], [], msg :: msgs, drainQueue_of_full c s now hgate, ?_, rfl, rfl,
            rfl, .inr ⟨_, hgate⟩⟩
          exact sends_nil rfl rfl rfl rfl rfl hs fun id ch h => ⟨ch, h, rfl⟩
      | true =>
          obtain ⟨c₁, s₁, result, sent₁, hmessage, hsends, hchannels⟩ :=
            sendMessage_sends hbatch hs msg now
          obtain ⟨hcompress, hmodes⟩ := c.sendMessage_plan s msg.data msg.channel now
          have hqueue := congrArg Prod.snd (c.kept_sendMessage s msg.data msg.channel now)
          rw [hmessage] at hcompress hmodes hqueue
          obtain ⟨c₂, s₂, events, sent₂, taken, rest, hrest, hsends', rfl, hqueue', hchannels',
            hstop⟩ := ih (hsends.batchEnabled_eq.trans hbatch) hsends.reliable
          have hall : channelsOf (sent₁ ++ sent₂) = c.packetChannels (msg :: taken) := by
            rw [channelsOf_append, hchannels, hchannels', packetChannels_congr hcompress hmodes,
              packetChannels, packetChannels, List.flatMap_cons]
          have hdrain : ∃ events',
              drainQueue now c s (msg :: (taken ++ rest)) = (c₂, s₂, events') := by
            simp only [drainQueue, hgate, hmessage, hrest]
            cases result <;> exact ⟨_, rfl⟩
          obtain ⟨events', hdrain⟩ := hdrain
          exact ⟨c₂, s₂, events', sent₁ ++ sent₂, msg :: taken, rest, hdrain,
            hsends.trans hsends', rfl, hqueue'.trans (congrArg (rest ++ ·) hqueue), hall,
            hsends.cc_eq ▸ hstop⟩

end

/-! ## The order at the socket -/

section

variable {c c' : Connection} {s s' : Socket} {sent : List Outgoing}

/-- The receiver reads the numbers in the order of the packets. -/
theorem readNumbers_encrypted {aead : Option Aead} (hreadable : ∀ p ∈ sent, p.Readable aead)
    (id : UInt8) : readNumbers aead id (sent.map Outgoing.encrypted) = numbersOn id sent := by
  induction sent with
  | nil => rfl
  | cons p sent ih =>
      rw [List.forall_mem_cons] at hreadable
      have hrest := ih hreadable.2
      rw [readNumbers] at hrest ⊢
      simp only [List.map_cons, List.filterMap_cons, hreadable.1.opens, hreadable.1.numbered, hrest]
      by_cases hid : p.stamped.channel = id <;> simp [numbersOn, hid]

theorem readNumbers_append (aead : Option Aead) (id : UInt8) (packets packets' : List Bytes) :
    readNumbers aead id (packets ++ packets') =
      readNumbers aead id packets ++ readNumbers aead id packets' := by
  simp [readNumbers]

/-- What arrives in a tick: what was written at once, then what had been waiting in the
batch queue, then what was queued. -/
theorem Sends.arrivals_eq (h : Sends c s c' s' sent)
    (hshort : ∀ packet ∈ c.batchBuf, packet.length < 2 ^ 16) (mtu : ℤ) :
    ∃ s'', c'.flushBatch s' mtu = ({ c' with batchBuf := [] }, s'', .ok ()) ∧
      ∀ id, arrivals c.sendCipher.aead id (s''.written.drop s.written.length) =
        numbersOn id (sent.drop c.batchRoom) ++ readNumbers c.sendCipher.aead id c.batchBuf ++
          numbersOn id (sent.take c.batchRoom) := by
  obtain ⟨s'', hwrite, hwritten⟩ := writeAll_reliable h.reliable (packBatch mtu 0 [] c'.batchBuf)
  refine ⟨s'', by rw [flushBatch, hwrite], fun id => ?_⟩
  have hnew : s''.written.drop s.written.length =
      (sent.drop c.batchRoom).map (fun p => singleFrame p.encrypted) ++
        packBatch mtu 0 [] c'.batchBuf := by
    rw [hwritten, h.written_eq, List.append_assoc, List.drop_left]
  have hqueue : (packBatch mtu 0 [] c'.batchBuf).flatMap packetsOf =
      c.batchBuf ++ (sent.take c.batchRoom).map Outgoing.encrypted := by
    rw [packetsOf_packBatch, h.batchBuf_eq]
    rw [h.batchBuf_eq, List.forall_mem_append]
    refine ⟨hshort, fun e he => ?_⟩
    obtain ⟨p, hp, rfl⟩ := List.mem_map.mp he
    exact (h.readable p (List.mem_of_mem_take hp)).short
  have hframes : ((sent.drop c.batchRoom).map fun p => singleFrame p.encrypted).flatMap packetsOf =
      (sent.drop c.batchRoom).map Outgoing.encrypted := by
    have hone : ∀ p ∈ sent.drop c.batchRoom,
        packetsOf (singleFrame p.encrypted) = [p.encrypted] := by
      intro p hp
      rw [packetsOf, unmarshalBatch_singleFrame (h.readable p (List.mem_of_mem_drop hp)).short]
    rw [List.flatMap_map, List.flatMap_congr hone, List.map_eq_flatMap]
  rw [arrivals, hnew, List.flatMap_append, hframes, hqueue, readNumbers_append, readNumbers_append,
    readNumbers_encrypted fun p hp => h.readable p (List.mem_of_mem_drop hp),
    readNumbers_encrypted fun p hp => h.readable p (List.mem_of_mem_take hp), List.append_assoc]

end

/-! ## Numbers that count up -/

theorem mem_countUp {sendSeq n x : ℕ} :
    x ∈ countUp sendSeq n ↔ ∃ k < n, (sendSeq + 1 + k) % 2 ^ 32 = x := by
  simp [countUp]

theorem pairwise_countUp_iff (sendSeq n : ℕ) :
    (countUp sendSeq n).Pairwise (· < ·) ↔ ∀ i j, i < j → j < n →
      (sendSeq + 1 + i) % 2 ^ 32 < (sendSeq + 1 + j) % 2 ^ 32 := by
  rw [countUp, List.pairwise_map, List.pairwise_iff_getElem]
  simp only [List.length_range, List.getElem_range]
  exact ⟨fun h i j hij hj => h i j (hij.trans hj) hj hij, fun h i j _ hj hij => h i j hij hj⟩

/-- Counting up is increasing unless it runs over the end of the 32-bit range. -/
theorem pairwise_countUp {sendSeq : ℕ} (hseq : sendSeq < 2 ^ 32) (n : ℕ) :
    (countUp sendSeq n).Pairwise (· < ·) ↔
      sendSeq + n < 2 ^ 32 ∨ sendSeq + 1 = 2 ^ 32 ∧ n ≤ 2 ^ 32 := by
  rw [pairwise_countUp_iff]
  constructor
  · intro h
    by_contra hwraps
    rcases Nat.lt_or_ge (sendSeq + 1) (2 ^ 32) with hlow | hhigh
    · -- the last number of the range is followed by zero
      have hlast := h (2 ^ 32 - sendSeq - 2) (2 ^ 32 - sendSeq - 1) (by omega) (by omega)
      omega
    · have hround := h 0 (2 ^ 32) (by omega) (by omega)
      omega
  · rintro (hlow | ⟨hend, hn⟩) i j hij hj
    · omega
    · omega

/-- On a channel whose counter is at `sendSeq`, `queued` packets are put into the batch
queue and the `overflow` packets after them are written at once: one of the two is zero
and the numbers do not wrap, or they wrap exactly where the queue is full. -/
def splitInOrder (sendSeq queued overflow : ℕ) : Prop :=
  (queued = 0 ∨ overflow = 0) ∧ (sendSeq + queued + overflow < 2 ^ 32 ∨
      sendSeq + 1 = 2 ^ 32 ∧ queued + overflow ≤ 2 ^ 32) ∨
    sendSeq + queued + 1 = 2 ^ 32 ∧ queued + overflow ≤ 2 ^ 32

theorem pairwise_rotated {sendSeq : ℕ} (hseq : sendSeq < 2 ^ 32) (queued overflow : ℕ) :
    (countUp (sendSeq + queued) overflow ++ countUp sendSeq queued).Pairwise (· < ·) ↔
      splitInOrder sendSeq queued overflow := by
  rcases Nat.eq_zero_or_pos queued with rfl | hqueued
  · rw [countUp_zero, List.append_nil, Nat.add_zero, pairwise_countUp hseq, splitInOrder]
    omega
  rcases Nat.eq_zero_or_pos overflow with rfl | hoverflow
  · rw [countUp_zero, List.nil_append, pairwise_countUp hseq, splitInOrder]
    omega
  rw [List.pairwise_append, pairwise_countUp hseq, pairwise_countUp_iff, splitInOrder]
  simp only [mem_countUp, forall_exists_index, and_imp]
  constructor
  · rintro ⟨-, hqueue, hcross⟩
    -- the first number written at once is below the first queued one
    have hfirst := hcross _ 0 hoverflow rfl _ 0 hqueued rfl
    right
    have hfull : sendSeq + queued + 1 = 2 ^ 32 := by omega
    refine ⟨hfull, ?_⟩
    by_contra hmany
    have hlast := hcross _ (2 ^ 32 - queued) (by omega) rfl _ 0 hqueued rfl
    omega
  · intro horder
    have hfull : sendSeq + queued + 1 = 2 ^ 32 ∧ queued + overflow ≤ 2 ^ 32 := by omega
    refine ⟨fun i j hij hj => by omega, by omega, ?_⟩
    rintro _ i hi rfl _ j hj rfl
    omega

/-- The packets that were waiting in the batch queue are in order, above what overtakes
them and below what is queued behind them, and the packets of the tick are in order. -/
def keepsOrder (waiting : List ℕ) (sendSeq queued overflow : ℕ) : Prop :=
  waiting.Pairwise (· < ·) ∧
    (∀ n ∈ waiting, (∀ k < overflow, (sendSeq + queued + 1 + k) % 2 ^ 32 < n) ∧
      ∀ k < queued, n < (sendSeq + 1 + k) % 2 ^ 32) ∧
    splitInOrder sendSeq queued overflow

instance (sendSeq queued overflow : ℕ) : Decidable (splitInOrder sendSeq queued overflow) :=
  inferInstanceAs (Decidable (_ ∨ _))

instance (waiting : List ℕ) (sendSeq queued overflow : ℕ) :
    Decidable (keepsOrder waiting sendSeq queued overflow) :=
  inferInstanceAs (Decidable (_ ∧ _))

theorem pairwise_around {a b l : List ℕ} :
    (a ++ l ++ b).Pairwise (· < ·) ↔ l.Pairwise (· < ·) ∧
      (∀ n ∈ l, (∀ x ∈ a, x < n) ∧ ∀ y ∈ b, n < y) ∧ (a ++ b).Pairwise (· < ·) := by
  simp only [List.pairwise_append, List.mem_append]
  constructor
  · rintro ⟨⟨ha, hl, hal⟩, hb, hcross⟩
    exact ⟨hl, fun n hn => ⟨fun x hx => hal x hx n hn, fun y hy => hcross n (.inr hn) y hy⟩, ha, hb,
      fun x hx y hy => hcross x (.inl hx) y hy⟩
  · rintro ⟨hl, haround, ha, hb, hab⟩
    refine ⟨⟨ha, hl, fun x hx n hn => (haround n hn).1 x hx⟩, hb, ?_⟩
    rintro x (hx | hx) y hy
    · exact hab x hx y hy
    · exact (haround x hx).2 y hy

theorem pairwise_keepsOrder (waiting : List ℕ) {sendSeq : ℕ} (hseq : sendSeq < 2 ^ 32)
    (queued overflow : ℕ) :
    (countUp (sendSeq + queued) overflow ++ waiting ++ countUp sendSeq queued).Pairwise (· < ·) ↔
      keepsOrder waiting sendSeq queued overflow := by
  rw [pairwise_around, pairwise_rotated hseq, keepsOrder]
  simp only [mem_countUp, forall_exists_index, and_imp, forall_apply_eq_imp_iff₂]

section

variable {c c' : Connection} {s s' : Socket} {sent : List Outgoing}

theorem length_numbersOn (id : UInt8) (sent : List Outgoing) :
    (numbersOn id sent).length = (channelsOf sent).count id := by
  rw [numbersOn, List.length_map, channelsOf, List.count, List.countP_map,
    List.countP_eq_length_filter]
  congr 1

/-- The two parts of the numbers of a channel. -/
theorem Sends.numbersOn_split (h : Sends c s c' s' sent) {id : UInt8} {ch : Channel}
    (hch : c.channel id = some ch) (room : ℕ) :
    numbersOn id (sent.take room) = countUp ch.sendSeq (numbersOn id (sent.take room)).length ∧
      numbersOn id (sent.drop room) =
        countUp (ch.sendSeq + (numbersOn id (sent.take room)).length)
          (numbersOn id (sent.drop room)).length := by
  obtain ⟨-, -, -, hnum⟩ := h.numbers id ch hch
  have hsplit : numbersOn id sent =
      numbersOn id (sent.take room) ++ numbersOn id (sent.drop room) := by
    rw [← numbersOn_append, List.take_append_drop]
  rw [hsplit, List.length_append, ← countUp_append ch.sendSeq _ _ _ rfl] at hnum
  exact List.append_inj hnum (by simp [countUp])

end

/-- Draining the send queue and flushing the batch, with a socket that takes everything:
on each channel the first transmissions arrive in increasing order exactly if the packets
of the channel do not fall on both sides of the moment the batch queue was full, a wrap of
the counter at that very moment apart. Which packets the queue takes is a matter of the
packet counts of the drained messages and of the room in it.

The packets that wait in the queue when the tick begins are the rest of overlapping calls
of `SendImmediate`, if there is any, and like all that are built they are short. -/
theorem drained_in_order_iff (c : Connection) (s : Socket) (now mtu : ℤ)
    (hbatch : c.batchEnabled = true) (hshort : ∀ packet ∈ c.batchBuf, packet.length < 2 ^ 16)
    (hsocket : ∀ failure ∈ s.failures, failure = false) {id : UInt8} {ch : Channel}
    (hch : c.channel id = some ch) (hseq : ch.sendSeq < 2 ^ 32) :
    let drained := drainQueue now { c with sendQueue := [] } s c.sendQueue
    let flushed := drained.1.flushBatch drained.2.1 mtu
    let msgs := c.sendQueue.take (c.sendQueue.length - drained.1.sendQueue.length)
    let packets := c.packetChannels msgs
    flushed.2.2 = .ok () ∧
      ((arrivals c.sendCipher.aead id
          (flushed.2.1.written.drop s.written.length)).Pairwise (· < ·) ↔
        keepsOrder (readNumbers c.sendCipher.aead id c.batchBuf) ch.sendSeq
          ((packets.take c.batchRoom).count id) ((packets.drop c.batchRoom).count id)) := by
  obtain ⟨c', s', events, sent, taken, rest, hdrain, hsends, hsplit, hqueue, hchannels, -⟩ :=
    drainQueue_sends (c := { c with sendQueue := [] }) hbatch hsocket now c.sendQueue
  obtain ⟨s'', hflush, harrivals⟩ := hsends.arrivals_eq hshort mtu
  have htaken : c.sendQueue.take (c.sendQueue.length - c'.sendQueue.length) = taken := by
    rw [hqueue, List.append_nil, hsplit, List.length_append, Nat.add_sub_cancel, List.take_left]
  have hpackets : c.packetChannels taken = channelsOf sent := hchannels.symm
  simp only [hdrain, hflush, htaken, hpackets]
  refine ⟨trivial, ?_⟩
  obtain ⟨hqueued, hoverflow⟩ := hsends.numbersOn_split hch c.batchRoom
  have hcount : ∀ part : List Outgoing, (channelsOf part).count id = (numbersOn id part).length :=
    fun part => (length_numbersOn id part).symm
  rw [channelsOf, ← List.map_take, ← List.map_drop, ← channelsOf, ← channelsOf, hcount, hcount,
    ← pairwise_keepsOrder _ hseq, ← hqueued, ← hoverflow]
  exact iff_of_eq (congrArg _ (harrivals id))

/-- A connection with batching and one ordered channel, whose send queue holds
messages of one byte. -/
def batching (count : ℕ) : Connection :=
  { newConnection { plainInput [(.reliableOrdered, 0)] with features := featureSendBatching } 0 with
    sendQueue := List.replicate count ⟨[7], 0⟩ }

/-- The numbers that arrive when a connection without encryption is drained and flushed. -/
def tickArrivals (c : Connection) : List ℕ :=
  let drained := drainQueue 0 { c with sendQueue := [] } ⟨[], []⟩ c.sendQueue
  let flushed := drained.1.flushBatch drained.2.1 1200
  arrivals none 0 flushed.2.1.written

/-- Such a connection with one packet in its batch queue and two messages to send, the
first one of two fragments. -/
def batchingOn : Connection :=
  { ((batching 0).sendMessage ⟨[], []⟩ [7] 0 0).1 with
    sendQueue := [⟨List.replicate 1500 7, 0⟩, ⟨[8], 0⟩] }

theorem drained_in_order_iff_waiting :
    batchingOn.batchBuf.length = 1 ∧ batchingOn.packetChannels batchingOn.sendQueue = [0, 0, 0] ∧
      (tickArrivals batchingOn).Pairwise (· < ·) := by
  refine ⟨by decide +kernel, by decide +kernel, ?_⟩
  have hch : batchingOn.channel 0 = some (batchingOn.channels.head (by decide +kernel)) := by
    rfl
  refine (drained_in_order_iff batchingOn ⟨[], []⟩ 0 1200 rfl (by decide +kernel) (by simp) hch
    (by decide +kernel)).2.mpr ?_
  decide +kernel

/-- The first 256 packets of a tick are queued and arrive behind the others. -/
theorem tickArrivals_batching (count : ℕ) :
    tickArrivals (batching count) =
      countUp (min 256 count) (count - 256) ++ countUp 0 (min 256 count) := by
  obtain ⟨c', s', events, sent, taken, rest, hdrain, hsends, hsplit, -, hchannels, hstop⟩ :=
    drainQueue_sends (c := { batching count with sendQueue := [] }) (s := ⟨[], []⟩) rfl
      (by simp [Reliable]) 0 (batching count).sendQueue
  have hall : taken = List.replicate count ⟨[7], 0⟩ := by
    rcases hstop with rfl | ⟨n, hgate⟩
    · exact (hsplit.trans (List.append_nil taken)).symm
    · cases hgate
  have hone : ∀ n, (batching count).packetChannels (List.replicate n ⟨[7], 0⟩) =
      List.replicate n 0 := by
    intro n
    induction n with
    | zero => rfl
    | succ n ih => exact congrArg (0 :: ·) ih
  have hcounts : ∀ part, part.Sublist sent → (numbersOn 0 part).length = part.length := by
    intro part hpart
    have hzero : ∀ id ∈ channelsOf part, id = 0 := by
      intro id hid
      have hmem : id ∈ channelsOf sent := (hpart.map _).subset hid
      rw [hchannels, hall] at hmem
      exact List.eq_of_mem_replicate (hone count ▸ hmem)
    rw [length_numbersOn, List.count_eq_length.mpr fun id hid => (hzero id hid).symm, channelsOf,
      List.length_map]
  have hlength : sent.length = count := by
    have hlen := congrArg List.length hchannels
    rw [hall] at hlen
    rw [channelsOf, List.length_map] at hlen
    exact hlen.trans ((congrArg List.length (hone count)).trans List.length_replicate)
  obtain ⟨s'', hflush, harrivals⟩ := hsends.arrivals_eq (by simp [batching, newConnection]) 1200
  have hch : ({ batching count with sendQueue := [] } : Connection).channel 0 =
    some (Channel.init .reliableOrdered 0 1024) := rfl
  obtain ⟨hqueued, hoverflow⟩ := hsends.numbersOn_split hch 256
  rw [hcounts _ (List.take_sublist _ _), List.length_take, hlength] at hqueued hoverflow
  rw [hcounts _ (List.drop_sublist _ _), List.length_drop, hlength] at hoverflow
  have harrived : arrivals none 0 s''.written =
      numbersOn 0 (sent.drop 256) ++ [] ++ numbersOn 0 (sent.take 256) := harrivals 0
  simp only [tickArrivals, hdrain, hflush]
  rw [harrived, List.append_nil, hqueued, hoverflow]
  congr 2
  exact Nat.zero_add _

/-- The 257th packet of a tick reaches the socket first. -/
theorem last_packet_overtakes :
    tickArrivals (batching 257) = 257 :: (List.range 256).map (· + 1) ∧
      ¬ (tickArrivals (batching 257)).Pairwise (· < ·) := by
  have heq : tickArrivals (batching 257) = 257 :: (List.range 256).map (· + 1) := by
    rw [tickArrivals_batching]
    decide +kernel
  refine ⟨heq, fun hsorted => ?_⟩
  rw [heq] at hsorted
  have hfirst : 1 ∈ (List.range 256).map (· + 1) := List.mem_map.mpr ⟨0, by simp, rfl⟩
  exact absurd (List.rel_of_pairwise_cons hsorted hfirst) (by decide)

end Connection

end Fastwire
