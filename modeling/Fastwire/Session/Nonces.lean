/-
# Nonces

Every packet of a connection is sealed under the next value of one counter, by
whatever path it leaves: data, retransmissions, acknowledgements, heartbeats, the
disconnect. The disconnect packet is repeated by the ticks as it is, and everything else
is sealed anew each time. So no nonce ever protects two plaintexts.
-/

import Fastwire.Endpoint.Datagrams
import Fastwire.Handshake.Agreement
import Fastwire.Session.Basic

namespace Fastwire

open Crypto Lib

/-! ## Sealed packets -/

namespace Crypto

/-- A packet as `Encrypt` builds it. -/
def Aead.sealPacket (a : Aead) (nonce : ℕ) (plaintext : Bytes) : Bytes :=
  putLE nonceSize nonce ++ a.sealBytes nonce plaintext

theorem Aead.wireNonce_sealPacket (a : Aead) {nonce : ℕ} (hlt : nonce < 2 ^ 64)
    (plaintext : Bytes) : CipherState.wireNonce (a.sealPacket nonce plaintext) = nonce := by
  rw [CipherState.wireNonce, Aead.sealPacket, List.take_left' (putLE_length _ _)]
  exact readLE_putLE hlt

namespace CipherState

/-- The packet is the seal of one of the plaintexts, under that plaintext's number. -/
def Seals (a : Aead) (state : CipherState) (packet : Bytes) : Prop :=
  ∃ i plaintext, state.sealed.reverse[i]? = some plaintext ∧
    packet = a.sealPacket (i + 1) plaintext

variable {a : Aead} {state : CipherState} {packet plaintext : Bytes}

theorem Counted.encrypt (hcounted : state.Counted) (plaintext : Bytes) :
    (state.encrypt plaintext).1.Counted := by
  intro a haead
  rw [encrypt_aead] at haead
  have hnonce : (state.encrypt plaintext).1.nonce = (state.nonce + 1) % 2 ^ 64 := by
    simp only [CipherState.encrypt, haead]
  rw [hnonce, hcounted a haead, encrypt_sealed, List.length_cons]
  exact Nat.mod_add_mod _ _ _

theorem Seals.encrypt (h : Seals a state packet) (plaintext : Bytes) :
    Seals a (state.encrypt plaintext).1 packet := by
  obtain ⟨i, earlier, hget, rfl⟩ := h
  refine ⟨i, earlier, ?_, rfl⟩
  rw [encrypt_sealed, List.reverse_cons,
    List.getElem?_append_left (List.getElem?_eq_some_iff.mp hget).1]
  exact hget

/-- What `Encrypt` returns is sealed under the number of packets so far. -/
theorem seals_encrypt (hcounted : state.Counted) (haead : state.aead = some a)
    (hroom : (state.encrypt plaintext).1.sealed.length < 2 ^ 64) :
    Seals a (state.encrypt plaintext).1 (state.encrypt plaintext).2 := by
  rw [encrypt_sealed, List.length_cons] at hroom
  have hnonce : (state.nonce + 1) % 2 ^ 64 = state.sealed.length + 1 := by
    rw [hcounted a haead, Nat.mod_eq_of_lt (Nat.lt_of_succ_lt hroom), Nat.mod_eq_of_lt hroom]
  refine ⟨state.sealed.length, plaintext, ?_, ?_⟩
  · rw [encrypt_sealed, List.reverse_cons, ← List.length_reverse]
    exact List.getElem?_concat_length
  · simp only [CipherState.encrypt, haead, hnonce]
    rfl

/-- The number on a sealed packet determines the packet. -/
theorem Seals.unique {packet' : Bytes} (h : Seals a state packet) (h' : Seals a state packet')
    (hfew : state.sealed.length < 2 ^ 64) (hnonce : wireNonce packet = wireNonce packet') :
    packet = packet' := by
  obtain ⟨i, plaintext, hget, rfl⟩ := h
  obtain ⟨j, plaintext', hget', rfl⟩ := h'
  have hi := (List.getElem?_eq_some_iff.mp hget).1
  have hj := (List.getElem?_eq_some_iff.mp hget').1
  rw [List.length_reverse] at hi hj
  rw [a.wireNonce_sealPacket (by omega), a.wireNonce_sealPacket (by omega)] at hnonce
  obtain rfl : i = j := Nat.succ_injective hnonce
  rw [Option.some.inj (hget.symm.trans hget')]

end CipherState

end Crypto

/-! ## Datagrams -/

/-- The packets of a datagram, for a connection with or without batching. -/
def unframe (batched : Bool) (datagram : Bytes) : List Bytes :=
  if batched then packetsOf datagram else [datagram]

theorem unframe_frame (batched : Bool) {packet : Bytes} (hshort : packet.length < 2 ^ 16) :
    unframe batched (if batched then singleFrame packet else packet) = [packet] := by
  cases batched with
  | false => rfl
  | true => simp only [unframe, if_true, packetsOf, unmarshalBatch_singleFrame hshort]

namespace Connection

/-! ## The ledger -/

/-- The packets that were on the wire before, those that the socket has taken since,
those in the batch and the one that announces the close. -/
def outgoing (earlier : List Bytes) (c : Connection) (s : Socket) : List Bytes :=
  earlier ++ s.written.flatMap (unframe c.batchEnabled) ++ c.batchBuf ++
    c.disconnectPacket.elim [] (unframe c.batchEnabled)

/-- Every packet that has left or waits is one of the sealed ones. -/
structure Ledger (a : Aead) (earlier : List Bytes) (c : Connection) (s : Socket) : Prop where
  aead_eq : c.sendCipher.aead = some a
  counted : c.sendCipher.Counted
  entered : ∀ packet ∈ outgoing earlier c s, c.sendCipher.Seals a packet

section

variable {a : Aead} {earlier : List Bytes} {c c' : Connection} {s s' : Socket}

/-- Nothing is sealed and nothing but what waits is written. -/
theorem Ledger.quiet (h : Ledger a earlier c s) (hcipher : c'.sendCipher = c.sendCipher)
    (hout : outgoing earlier c' s' ⊆ outgoing earlier c s) : Ledger a earlier c' s' := by
  refine ⟨hcipher ▸ h.aead_eq, hcipher ▸ h.counted, ?_⟩
  rw [hcipher]
  exact fun packet hp => h.entered packet (hout hp)

/-- A plaintext is sealed, and the packet is written, queued or lost. -/
theorem Ledger.after_seal (h : Ledger a earlier c s) {plaintext : Bytes}
    (hroom : (c.sendCipher.encrypt plaintext).1.sealed.length < 2 ^ 64)
    (hcipher : c'.sendCipher = (c.sendCipher.encrypt plaintext).1)
    (hout : outgoing earlier c' s' ⊆
      outgoing earlier c s ++ [(c.sendCipher.encrypt plaintext).2]) :
    Ledger a earlier c' s' := by
  refine ⟨?_, ?_, ?_⟩
  · rw [hcipher, CipherState.encrypt_aead]
    exact h.aead_eq
  · rw [hcipher]
    exact h.counted.encrypt plaintext
  · intro packet hp
    rw [hcipher]
    rcases List.mem_append.mp (hout hp) with hold | hnew
    · exact (h.entered packet hold).encrypt plaintext
    · rw [List.mem_singleton.mp hnew]
      exact CipherState.seals_encrypt h.counted h.aead_eq hroom

theorem outgoing_cleared (hbatch : c'.batchEnabled = c.batchEnabled)
    (hclear : c'.batchBuf = [] ∧ c'.disconnectPacket = none) :
    outgoing earlier c' s ⊆ outgoing earlier c s := by
  intro packet hp
  simp only [outgoing, hclear, hbatch, List.append_nil, Option.elim_none] at hp
  exact List.mem_append_left _ (List.mem_append_left _ hp)

/-- What writes add to the packets that have left. -/
theorem outgoing_written {out : List Bytes}
    (hwritten : ∀ d ∈ s'.written, d ∈ s.written ∨ unframe c.batchEnabled d ⊆ out) :
    outgoing earlier c s' ⊆ outgoing earlier c s ++ out := by
  intro packet hp
  simp only [outgoing, List.mem_append, List.mem_flatMap] at hp ⊢
  rcases hp with ((hearlier | ⟨d, hd, hmem⟩) | hbatch) | hwaiting
  · exact .inl (.inl (.inl (.inl hearlier)))
  · rcases hwritten d hd with hold | hnew
    · exact .inl (.inl (.inl (.inr ⟨d, hold, hmem⟩)))
    · exact .inr (hnew hmem)
  · exact .inl (.inl (.inr hbatch))
  · exact .inl (.inr hwaiting)

theorem outgoing_write (earlier : List Bytes) (c : Connection) (s : Socket) (datagram : Bytes) :
    outgoing earlier c (s.write datagram).1 ⊆
      outgoing earlier c s ++ unframe c.batchEnabled datagram := by
  apply outgoing_written
  intro d hd
  rw [Socket.write_eq] at hd
  split at hd
  · rcases List.mem_append.mp hd with hold | hnew
    · exact .inl hold
    · rw [List.mem_singleton.mp hnew]
      exact .inr (List.Subset.refl _)
  · exact .inl hd

/-! ## The changes -/

theorem Ledger.flushBatch (h : Ledger a earlier c s)
    (hshort : ∀ packet ∈ c.batchBuf, c.batchEnabled = true ∧ packet.length < 2 ^ 16) (mtu : ℤ) :
    Ledger a earlier (c.flushBatch s mtu).1 (c.flushBatch s mtu).2.1 := by
  refine h.quiet rfl ?_
  have hall : outgoing earlier c (writeAll s (packBatch mtu 0 [] c.batchBuf)).1 ⊆
      outgoing earlier c s ++ c.batchBuf := by
    apply outgoing_written
    intro d hd
    refine (writeAll_written s _ d hd).imp_right fun hpacked packet hp => ?_
    rw [← packetsOf_packBatch mtu fun packet hp => (hshort packet hp).2]
    refine List.mem_flatMap.mpr ⟨d, hpacked, ?_⟩
    cases hbuf : c.batchBuf with
    | nil =>
        rw [hbuf] at hpacked
        cases hpacked
    | cons first rest =>
        have hbatch := (hshort first (hbuf ▸ List.mem_cons_self)).1
        rwa [unframe, if_pos hbatch] at hp
  intro packet hp
  have hmem : packet ∈ outgoing earlier c (writeAll s (packBatch mtu 0 [] c.batchBuf)).1 := by
    simp only [outgoing, Connection.flushBatch, List.mem_append] at hp ⊢
    tauto
  rcases List.mem_append.mp (hall hmem) with hold | hbuf
  · exact hold
  · simp only [outgoing, List.mem_append]
    exact .inl (.inr hbuf)

/-- A sealed packet is written on its own. -/
theorem Ledger.sendFramed (h : Ledger a earlier c s) {plaintext : Bytes}
    (hroom : (c.sendCipher.encrypt plaintext).1.sealed.length < 2 ^ 64)
    (hshort : (c.sendCipher.encrypt plaintext).2.length < 2 ^ 16)
    (hcipher : c'.sendCipher = (c.sendCipher.encrypt plaintext).1)
    (hsame : outgoing earlier c' = outgoing earlier c)
    (hsocket : s' = (c.sendFramed s (c.sendCipher.encrypt plaintext).2).1) :
    Ledger a earlier c' s' := by
  refine h.after_seal hroom hcipher ?_
  rw [hsame, hsocket, ← unframe_frame c.batchEnabled hshort]
  exact outgoing_write earlier c s _

theorem Ledger.transmitPacket (h : Ledger a earlier c s) {raw : Bytes}
    (hroom : (c.sendCipher.encrypt raw).1.sealed.length < 2 ^ 64)
    (hshort : (c.sendCipher.encrypt raw).2.length < 2 ^ 16) :
    Ledger a earlier (c.transmitPacket s raw).1 (c.transmitPacket s raw).2.1 := by
  rw [Connection.transmitPacket]
  dsimp only
  rw [writeEncrypted]
  split
  · refine h.after_seal hroom rfl fun packet hp => ?_
    simp only [outgoing, List.mem_append] at hp ⊢
    tauto
  · exact h.sendFramed hroom hshort rfl rfl rfl

theorem Ledger.acks (h : Ledger a earlier c s) (ids : List UInt8) (now : ℤ)
    (hroom : (c.sendMultiChannelHeartbeat s ids now).1.sendCipher.sealed.length < 2 ^ 64)
    (hshort : ∀ raw : Bytes, raw.length ≤ maxPlaintext →
      (c.sendCipher.encrypt raw).2.length < 2 ^ 16) :
    Ledger a earlier (c.sendMultiChannelHeartbeat s ids now).1
      (c.sendMultiChannelHeartbeat s ids now).2.1 := by
  rw [sendMultiChannelHeartbeat] at hroom ⊢
  dsimp only at hroom ⊢
  split
  · exact h
  · rename_i hsome
    rw [if_neg hsome] at hroom
    split
    · exact h
    · rename_i packet hpacket
      simp only [hpacket] at hroom
      have hlen := (multiAckPacket_length_le hpacket).trans (by decide : 16 + 256 ≤ maxPlaintext)
      split <;> rename_i heq <;> rw [heq] at hroom
      · exact h.sendFramed hroom (hshort packet hlen) rfl rfl (congrArg Prod.fst heq).symm
      · exact h.sendFramed hroom (hshort packet hlen) rfl rfl (congrArg Prod.fst heq).symm

/-- The disconnect packet is written once more. -/
theorem Ledger.repeatDisconnect (h : Ledger a earlier c s) {frame : Bytes}
    (hwaiting : c.disconnectPacket = some frame) (retries : ℕ) (next : ℤ) :
    Ledger a earlier { c with
      disconnectRetries := retries
      nextDisconnectRetry := next } (s.write frame).1 := by
  refine h.quiet rfl fun packet hp => ?_
  rcases List.mem_append.mp (outgoing_write earlier c s frame hp) with hold | hframe
  · exact hold
  · simp only [outgoing, List.mem_append, hwaiting]
    exact .inr hframe

theorem disconnectPlaintext_length {plaintext : Bytes} (h : disconnectPlaintext = .ok plaintext) :
    plaintext.length ≤ maxPlaintext := by
  have hbuilt : disconnectPlaintext.toOption.all fun p => p.length ≤ maxPlaintext := by decide
  rw [h] at hbuilt
  exact of_decide_eq_true hbuilt

theorem Ledger.close (h : Ledger a earlier c s) (now : ℤ) (hlive : c.state = .connected)
    (hroom : (c.close s now).1.sendCipher.sealed.length < 2 ^ 64)
    (hshort : ∀ raw : Bytes, raw.length ≤ maxPlaintext →
      (c.sendCipher.encrypt raw).2.length < 2 ^ 16) :
    Ledger a earlier (c.close s now).1 (c.close s now).2.1 := by
  rw [Connection.close, if_neg (by simp [hlive])] at hroom ⊢
  cases hplaintext : disconnectPlaintext with
  | error e => exact h.quiet rfl (List.Subset.refl _)
  | ok plaintext =>
      simp only [hplaintext] at hroom ⊢
      have hframe := unframe_frame c.batchEnabled
        (hshort plaintext (disconnectPlaintext_length hplaintext))
      refine h.after_seal hroom rfl fun packet hp => ?_
      rcases List.mem_append.mp hp with hleft | hwaiting
      · rw [← hframe]
        exact outgoing_write earlier c s _ (List.mem_append_left _ hleft)
      · exact List.mem_append_right _ (hframe ▸ hwaiting)

/-! ## Elementary changes -/

theorem sealSize_le (aead : Option Aead) : sealSize aead ≤ 24 := by
  rw [sealSize]
  split <;> decide

/-- Sealed packets fit the length field of a frame. -/
theorem Sized.encrypt_short {shape : Option Aead × Bool × UInt8 × Bytes} {limit : ℤ}
    (h : Sized shape limit c s) {raw : Bytes} (hraw : raw.length ≤ maxPlaintext) :
    (c.sendCipher.encrypt raw).2.length < 2 ^ 16 := by
  have hlength := h.encrypt_length_le hraw
  have hplain : maxPlaintext = 1176 := rfl
  have hseal := sealSize_le shape.1
  omega

/-- Every elementary change is entered in the ledger. -/
theorem Ledger.elementary {cfg : TickConfig} {now : ℤ} {op : Op} {x y : Connection × Socket}
    {shape : Option Aead × Bool × UInt8 × Bytes} {limit : ℤ}
    (hstep : Elementary cfg now op x y) (hsized : Sized shape limit x.1 x.2)
    (hroom : y.1.sendCipher.sealed.length < 2 ^ 64)
    (h : Ledger a earlier x.1 x.2) : Ledger a earlier y.1 y.2 := by
  have hshort : ∀ raw : Bytes, raw.length ≤ maxPlaintext →
      (x.1.sendCipher.encrypt raw).2.length < 2 ^ 16 := fun raw hraw => hsized.encrypt_short hraw
  cases hstep with
  | @transmit c s raw short =>
      obtain ⟨batchBuf, transmissions, heq⟩ := c.transmitPacket_books s raw
      rw [heq] at hroom
      exact h.transmitPacket hroom (hshort raw short)
  | @queue c s p short =>
      obtain ⟨channels, loss, heq⟩ := c.queuePacket_books p now
      rw [heq]
      exact h.quiet rfl (List.Subset.refl _)
  | resend unacked =>
      exact h.sendFramed hroom (hshort _ (hsized.unacked _ unacked)) rfl rfl rfl
  | @flush c s =>
      refine h.flushBatch ?_ cfg.mtu
      intro packet hpacket
      obtain ⟨hbatch, hlen⟩ := hsized.batched packet hpacket
      have hplain : maxPlaintext = 1176 := rfl
      have hseal := sealSize_le shape.1
      exact ⟨hbatch, by omega⟩
  | acks ids => exact h.acks ids now hroom hshort
  | repeatDisconnect waiting => exact h.repeatDisconnect waiting _ _
  | close live => exact h.close now live hroom hshort
  | shutDown => exact h.quiet rfl (outgoing_cleared rfl ⟨rfl, rfl⟩)
  | release => exact h.quiet rfl (outgoing_cleared rfl ⟨rfl, rfl⟩)
  | @applyAcks c s id ack field =>
      obtain ⟨channels, rttState, cc, loss, heq⟩ := c.applyAcks_books now id ack field
      rw [heq]
      exact h.quiet rfl (List.Subset.refl _)
  | _ => exact h.quiet rfl (List.Subset.refl _)

end

end Connection

/-! ## Runs -/

namespace Session

variable {cfg : TickConfig} {σ σ' : Session} {call : Call}

/-- The packets that have been written, in order. -/
def packets (σ : Session) : List Bytes :=
  σ.wire.flatMap fun d => unframe σ.conn.batchEnabled d.2

def plaintexts (σ : Session) : List Bytes := σ.conn.sendCipher.sealed.reverse

/-- Everything fits, and everything is entered in the ledger. -/
structure Booked (shape : Option Aead × Bool × UInt8 × Bytes) (limit : ℤ) (earlier : List Bytes)
    (c : Connection) (s : Socket) : Prop where
  sized : Connection.Sized shape limit c s
  ledger : ∀ a, c.sendCipher.aead = some a → c.sendCipher.sealed.length < 2 ^ 64 →
    Connection.Ledger a earlier c s

section

variable {shape : Option Aead × Bool × UInt8 × Bytes} {limit : ℤ} {earlier : List Bytes}

theorem Booked.elementary (hmtu : cfg.mtu ≤ limit)
    (hframed : (Connection.maxFramed shape : ℤ) ≤ limit) {now : ℤ} {op : Op}
    {x y : Connection × Socket}
    (hstep : Connection.Elementary cfg now op x y) (h : Booked shape limit earlier x.1 x.2) :
    Booked shape limit earlier y.1 y.2 := by
  have hsized := hstep.pipeline (Connection.tickInvariant_sized hmtu hframed)
    (Connection.receiveInvariant_sized shape limit) (fun hs same => hs.of_wire same) h.sized
  refine ⟨hsized, fun a haead hroom => ?_⟩
  have hsame : x.1.sendCipher.aead = y.1.sendCipher.aead :=
    congrArg Prod.fst (h.sized.shape_eq.trans hsized.shape_eq.symm)
  have hledger := h.ledger a (hsame.trans haead) (hstep.effect.sealed_le.trans_lt hroom)
  exact hledger.elementary hstep h.sized hroom

/-- At the end of a call its datagrams are on the wire, and the next call begins with a
new list of outcomes. -/
theorem Booked.settle {c : Connection} {s : Socket} (h : Booked shape limit earlier c s)
    (failures : List Bool) :
    Booked shape limit (earlier ++ s.written.flatMap (unframe c.batchEnabled)) c
      ⟨failures, []⟩ := by
  refine ⟨⟨h.sized.shape_eq, h.sized.unacked, h.sized.batched, h.sized.disconnect, by simp⟩,
    fun a haead hroom => ?_⟩
  have hledger := h.ledger a haead hroom
  have hsame : Connection.outgoing (earlier ++ s.written.flatMap (unframe c.batchEnabled)) c
      ⟨failures, []⟩ = Connection.outgoing earlier c s := by
    simp [Connection.outgoing]
  exact ⟨hledger.aead_eq, hledger.counted, hsame ▸ hledger.entered⟩

end

/-- What every state of a run has in its books. -/
def BookedSession (cfg : TickConfig) (σ : Session) : Prop :=
  ∃ limit, cfg.mtu ≤ limit ∧ (Connection.maxFramed σ.conn.shape : ℤ) ≤ limit ∧
    ∀ failures, Booked σ.conn.shape limit σ.packets σ.conn ⟨failures, []⟩

theorem booked_start {input : ConnectionInput} (hcounted : input.sendCipher.Counted) (now : ℤ) :
    BookedSession cfg (start input now) := by
  refine ⟨_, le_max_left _ _, le_max_right _ _, fun failures => ⟨⟨rfl, ?_, ?_, ?_, ?_⟩, ?_⟩⟩
  · rintro raw ⟨ch, hch, p, hp, -⟩
    obtain ⟨d, -, rfl⟩ := List.mem_map.mp hch
    cases hp
  · simp [start, newConnection]
  · simp [start, newConnection]
  · simp
  · intro a haead _
    refine ⟨haead, hcounted, ?_⟩
    simp [Connection.outgoing, packets, start, newConnection]

theorem BookedSession.next (h : BookedSession cfg σ) (hnext : σ.next cfg call = some σ') :
    BookedSession cfg σ' := by
  obtain ⟨limit, hmtu, hframed, hbooked⟩ := h
  obtain ⟨c, s, events, hok, rfl⟩ := next_inv hnext
  have hend : Booked σ.conn.shape limit σ.packets c s :=
    (Op.chain_apply hok).invariant
      (I := fun x => Booked σ.conn.shape limit σ.packets x.1 x.2)
      (fun x y hstep h => h.elementary hmtu hframed hstep) (hbooked call.failures)
  have hshape := hend.sized.shape_eq
  have hbatch : c.batchEnabled = σ.conn.batchEnabled := congrArg (fun v => v.2.1) hshape
  refine ⟨limit, hmtu, ?_, ?_⟩
  · show (Connection.maxFramed c.shape : ℤ) ≤ limit
    rw [hshape]
    exact hframed
  · have hpackets : (σ.record call c s events).packets =
        σ.packets ++ s.written.flatMap (unframe c.batchEnabled) := by
      simp only [packets, record, List.flatMap_append, List.flatMap_map, hbatch]
    rw [hpackets]
    show ∀ failures, Booked c.shape limit _ c ⟨failures, []⟩
    rw [hshape]
    exact hend.settle

/-- **No nonce protects two plaintexts.** Over every run of a connection with an
authenticated cipher, as long as fewer than 2^64 packets have been sealed: a packet on
the wire is the seal of one of the plaintexts, under that plaintext's own number, and
two packets with one nonce are the same packet. -/
theorem nonces_never_reused {a : Aead} {hist : List (Session × Call)}
    (hrun : (system cfg).Run hist σ) (haead : σ.conn.sendCipher.aead = some a)
    (hfew : σ.plaintexts.length < 2 ^ 64) :
    (∀ packet ∈ σ.packets, ∃ i plaintext, σ.plaintexts[i]? = some plaintext ∧
      packet = a.sealPacket (i + 1) plaintext) ∧
    ∀ p ∈ σ.packets, ∀ q ∈ σ.packets,
      CipherState.wireNonce p = CipherState.wireNonce q → p = q := by
  have hstart : ∀ σ, (system cfg).init σ → BookedSession cfg σ := by
    rintro σ ⟨input, now, hcounted, rfl⟩
    exact booked_start hcounted now
  have hfew' : σ.conn.sendCipher.sealed.length < 2 ^ 64 := by
    rwa [plaintexts, List.length_reverse] at hfew
  obtain ⟨limit, -, -, hbooked⟩ := hrun.invariant hstart fun _ _ _ h hnext => h.next hnext
  have hledger := (hbooked []).ledger a haead hfew'
  have hsealed : ∀ packet ∈ σ.packets, σ.conn.sendCipher.Seals a packet := by
    intro packet hp
    apply hledger.entered
    simp only [Connection.outgoing, List.mem_append]
    exact .inl (.inl (.inl hp))
  exact ⟨hsealed, fun p hp q hq hnonce => (hsealed p hp).unique (hsealed q hq) hfew' hnonce⟩

/-- A batching connection with one reliable channel and an authenticated cipher. -/
def sealingInput : ConnectionInput :=
  { plainInput [(.reliableOrdered, 0)] with
    sendCipher := .init (some zeroTagAead)
    features := featureSendBatching }

/-- A message that leaves, is sent again after its timeout, and a close that is
repeated: four packets under three nonces. -/
theorem nonces_never_reused_close : ∃ a hist σ,
    (system ⟨1200, 10 * second, 10, second, second⟩).Run hist σ ∧
      σ.conn.sendCipher.aead = some a ∧ σ.plaintexts.length = 3 ∧ σ.packets.length = 4 ∧
      ∀ packet ∈ σ.packets, ∃ i plaintext, σ.plaintexts[i]? = some plaintext ∧
        packet = a.sealPacket (i + 1) plaintext := by
  obtain ⟨hist, σ, hrun, haead, hplain, hpackets⟩ := System.exists_history
    (S := system ⟨1200, 10 * second, 10, second, second⟩) (fun _ _ _ h => h)
    ⟨sealingInput, 0, fun _ _ => rfl, rfl⟩
    [⟨0, [], .send [7] 0⟩, ⟨0, [], .work (.ticking .connected)⟩,
      ⟨second - 1, [], .work (.ticking .connected)⟩, ⟨second, [], .close⟩,
      ⟨3 * second, [], .work (.ticking .disconnecting)⟩]
    (fun _ σ => σ.conn.sendCipher.aead.isSome = true ∧ σ.plaintexts.length = 3 ∧
      σ.packets.length = 4) (by decide +kernel)
  obtain ⟨a, haead⟩ := Option.isSome_iff_exists.mp haead
  have hfew : σ.plaintexts.length < 2 ^ 64 := by omega
  exact ⟨a, hist, σ, hrun, haead, hplain, hpackets, (nonces_never_reused hrun haead hfew).1⟩

end Session

end Fastwire
