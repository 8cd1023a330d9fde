/-
# Work in progress

The tick goroutine works in sections, and other goroutines run between them: a
datagram is unpacked, each of its packets is decrypted, handled and delivered,
and a tick reads the state first and goes by what it has read. What is left to
do is data here, so that the owner of a connection can be followed one section
at a time.

Two facts about a section are what the owners need. A connection ends from
within only by a disconnect or by a tick, and as long as the reorder buffers are
there, or nothing asks for them any more, delivery does not fail.
-/

import Fastwire.Connection.BatchOrder
import Fastwire.Connection.ReceiveSpec
import Fastwire.Server.Basic

namespace Fastwire

open Crypto

/-- What the tick goroutine is in the middle of. -/
inductive Work
  /-- A datagram of a known connection, without its token. -/
  | datagram (data : Bytes)
  /-- Packets of a datagram that have not been looked at. -/
  | packets (rest : List Bytes)
  /-- A packet that `Decrypt` has accepted, and the ones behind it. -/
  | handling (plaintext : Bytes) (rest : List Bytes)
  /-- A packet before the call of `deliver`, and the ones behind it. -/
  | delivering (verdict : Verdict) (rest : List Bytes)
  /-- `tickConnection` after it has read the state. -/
  | ticking (seen : ConnState)
  deriving DecidableEq, Repr

namespace Work

/-- The packets that are left, if there are any. -/
def ofPackets : List Bytes → Option Work
  | [] => none
  | packet :: rest => some (.packets (packet :: rest))

/-- What is left after a packet has been handled. -/
def ofVerdict : Verdict → List Bytes → Option Work
  | .done, rest => ofPackets rest
  | .deliver channel seq payload emit, rest =>
      some (.delivering (.deliver channel seq payload emit) rest)

def inDatagram : Work → Bool
  | .ticking _ => false
  | _ => true

/-- The next section: the connection, what is left to do and what was reported. -/
def advance (c : Connection) (cfg : TickConfig) (s : Socket) (now : ℤ) :
    Work → Except GoPanic (Connection × Socket × Option Work × List Event)
  | .datagram data =>
      match Server.datagramPackets c data with
      | .error e => .ok (c, s, none, [.onError e])
      | .ok unpacked => .ok (c, s, ofPackets unpacked, [])
  | .packets [] => .ok (c, s, none, [])
  | .packets (packet :: rest) =>
      match c.recvCipher.decrypt packet with
      | .error e => .ok (c, s, ofPackets rest, [.onError e])
      | .ok (plaintext, cipher) =>
          .ok (c.withRecvCipher cipher, s, some (.handling plaintext rest), [])
  | .handling plaintext rest =>
      let (c, events, verdict) := c.receive now plaintext
      .ok (c, s, ofVerdict verdict rest, events)
  | .delivering verdict rest =>
      match c.finish verdict with
      | .error p => .error p
      | .ok (c, events) => .ok (c, s, ofPackets rest, events)
  | .ticking seen =>
      let (c, s, events) := c.tickSeen cfg s now seen
      .ok (c, s, none, events)

/-- The nonce of the packet that the next section opens. -/
def opening (c : Connection) : Work → Option ℕ
  | .packets (packet :: _) =>
      match c.recvCipher.decrypt packet with
      | .error _ => none
      | .ok _ => some (CipherState.wireNonce packet)
  | _ => none

end Work

/-! ## What packets do -/

theorem openWire_of_decrypt {state state' : CipherState} {packet plaintext : Bytes}
    (hok : state.decrypt packet = .ok (plaintext, state')) :
    openWire state.aead packet = some plaintext := by
  cases haead : state.aead with
  | none =>
      simp only [CipherState.decrypt, haead, Except.ok.injEq, Prod.mk.injEq] at hok
      exact congrArg some hok.1
  | some a => exact ((CipherState.decrypt_eq_ok_iff haead).mp hok).2.1

namespace Connection

variable (c : Connection)

/-- A plaintext that ends the connection: a disconnect on a channel that
exists. -/
def endedBy (plaintext : Bytes) : Bool :=
  match unmarshalHeader plaintext with
  | .error _ => false
  | .ok (hdr, n) => (c.channel hdr.channel).isSome && hdr.flags &&& flagControl != 0 &&
      isDisconnect (plaintext.drop n)

def carriesOrdered (plaintext : Bytes) : Bool :=
  match unmarshalHeader plaintext with
  | .error _ => false
  | .ok (hdr, _) => hdr.flags &&& flagControl = 0 ∧
      c.modes[hdr.channel.toNat]? = some .reliableOrdered

/-- None of the packets opens to data for a ReliableOrdered channel. -/
def Harmless (packets : List Bytes) : Prop :=
  ∀ packet ∈ packets, ∀ plaintext, openWire c.recvCipher.aead packet = some plaintext →
    c.carriesOrdered plaintext = false

/-- Every ReliableOrdered channel has its reorder buffer. -/
def Intact : Prop := (.reliableOrdered, false) ∉ c.life.2

/-- The channel, if it is a ReliableOrdered one, has its reorder buffer. -/
def CanDeliver (id : UInt8) : Prop :=
  ∀ ch, c.channel id = some ch → ch.mode = .reliableOrdered → ch.recvBuffer ≠ none

theorem getElem?_modes (i : ℕ) : c.modes[i]? = c.channels[i]?.map Channel.mode := by
  simp only [modes, life, List.map_map, List.getElem?_map]
  rfl

/-- A body reports a disconnect exactly if it is one. -/
theorem handleControl_any (now : ℤ) (body : Bytes) :
    (c.handleControl now body).2.any Event.isDisconnect = isDisconnect body := by
  cases body with
  | nil => rfl
  | cons ct data =>
      simp only [handleControl, isDisconnect]
      split
      · rename_i hct
        split
        · simp [hct]
        · obtain ⟨hquiet, -⟩ := applyMultiAck_lifecycle now c _
          simpa [hct] using hquiet
      · rename_i hct
        simp [hct, Event.isDisconnect]
      · rename_i hct
        simpa using hct

/-- A packet reports a disconnect exactly if it is one. -/
theorem receive_any (now : ℤ) (plaintext : Bytes) :
    (c.receive now plaintext).2.1.any Event.isDisconnect = c.endedBy plaintext := by
  rw [receive, endedBy]
  cases unmarshalHeader plaintext with
  | error e => rfl
  | ok result =>
      obtain ⟨hdr, n⟩ := result
      have hsame : (c.touchRecv now).channel hdr.channel = c.channel hdr.channel := rfl
      dsimp only
      rw [hsame]
      cases c.channel hdr.channel with
      | none => rfl
      | some ch =>
          obtain ⟨hquiet, -⟩ :=
            (c.touchRecv now).applyAcks_lifecycle now hdr.channel hdr.ack hdr.ackField
          generalize (c.touchRecv now).applyAcks now hdr.channel hdr.ack hdr.ackField = acked
            at hquiet
          have hacks : acked.2.any Event.isDisconnect = false := by simpa using hquiet
          dsimp only
          split
          · rename_i hcontrol
            simp [hacks, handleControl_any, hcontrol]
          · rename_i hdata
            obtain ⟨hquiet', -⟩ := receiveData_lifecycle acked.1 now hdr (plaintext.drop n)
            have hrest : (acked.1.receiveData now hdr (plaintext.drop n)).2.1.any
                Event.isDisconnect = false := by simpa using hquiet'
            have hzero : hdr.flags &&& flagControl = 0 := Decidable.not_not.mp hdata
            simp [hacks, hrest, hzero]

theorem receiveData_verdict {now : ℤ} {hdr : PacketHeader} {body : Bytes} {id : UInt8} {seq : ℕ}
    {payload : Slice} {emit : Bool}
    (h : (c.receiveData now hdr body).2.2 = .deliver id seq payload emit) : id = hdr.channel := by
  rw [receiveData] at h
  split at h
  · cases h
  · dsimp only at h
    split at h
    · split at h
      · cases h
      · cases h
        rfl
    · cases h

/-- What is delivered on a ReliableOrdered channel was data for it. -/
theorem receive_verdict {now : ℤ} {plaintext : Bytes} {id : UInt8} {seq : ℕ} {payload : Slice}
    {emit : Bool} (h : (c.receive now plaintext).2.2 = .deliver id seq payload emit)
    (hmode : c.modes[id.toNat]? = some .reliableOrdered) : c.carriesOrdered plaintext = true := by
  rw [receive] at h
  split at h
  · cases h
  · rename_i hdr n heq
    rw [carriesOrdered, heq]
    dsimp only at h
    split at h
    · cases h
    · split at h
      · cases h
      · rename_i hdata
        obtain rfl := receiveData_verdict _ h
        simpa [hmode] using hdata

/-! ## The reorder buffers -/

variable {c}

theorem Intact.canDeliver (h : c.Intact) (id : UInt8) : c.CanDeliver id := by
  intro ch hch hmode hnone
  refine h (List.mem_map.mpr ⟨ch, List.mem_of_getElem? hch, ?_⟩)
  rw [Channel.buffering, hmode, hnone]
  rfl

theorem intact_newConnection (input : ConnectionInput) (now : ℤ) :
    (newConnection input now).Intact := by
  intro hmem
  obtain ⟨ch, hch, hbuffering⟩ := List.mem_map.mp hmem
  obtain ⟨d, -, rfl⟩ := List.mem_map.mp hch
  obtain ⟨mode, index⟩ := d
  cases mode <;> simp [Channel.buffering, Channel.init] at hbuffering

end Connection

namespace Work

open Connection

variable {c c' : Connection}

/-- The work can be done: the reorder buffers are there, or what is left does not
ask for them. -/
def Ready (c : Connection) : Work → Prop
  | .datagram _ => c.Intact
  | .packets rest => c.Intact ∨ c.Harmless rest
  | .handling plaintext rest => c.Intact ∨ c.carriesOrdered plaintext = false ∧ c.Harmless rest
  | .delivering verdict rest =>
      (∀ id seq payload emit, verdict = .deliver id seq payload emit →
        c.modes[id.toNat]? = some .reliableOrdered → c.Intact) ∧ (c.Intact ∨ c.Harmless rest)
  | .ticking _ => True

/-- A packet that ends the connection is followed by nothing that asks for its
buffers. -/
def Spares (c : Connection) : Work → Prop
  | .handling plaintext rest => c.endedBy plaintext = true → c.Harmless rest
  | _ => True

theorem carriesOrdered_congr (hmodes : c'.modes = c.modes) :
    c'.carriesOrdered = c.carriesOrdered := by
  funext plaintext
  rw [carriesOrdered, carriesOrdered, hmodes]

theorem harmless_congr (hmodes : c'.modes = c.modes)
    (haead : c'.recvCipher.aead = c.recvCipher.aead) : c'.Harmless = c.Harmless := by
  funext rest
  rw [Harmless, Harmless, haead, carriesOrdered_congr hmodes]

theorem Ready.congr (hlife : c'.life.2 = c.life.2)
    (haead : c'.recvCipher.aead = c.recvCipher.aead) {w : Work} (h : w.Ready c) : w.Ready c' := by
  have hmodes : c'.modes = c.modes := congrArg (List.map Prod.fst) hlife
  have hintact : c'.Intact = c.Intact := by rw [Intact, Intact, hlife]
  have hharmless := harmless_congr hmodes haead
  have hordered := carriesOrdered_congr hmodes
  cases w with
  | datagram data => rwa [Ready, hintact]
  | packets rest => rwa [Ready, hintact, hharmless]
  | handling plaintext rest => rwa [Ready, hintact, hharmless, hordered]
  | delivering verdict rest => rwa [Ready, hintact, hharmless, hmodes]
  | ticking seen => exact trivial

theorem Ready.canDeliver {id : UInt8} {seq : ℕ} {payload : Slice} {emit : Bool}
    {rest : List Bytes} (h : (Work.delivering (.deliver id seq payload emit) rest).Ready c) :
    c.CanDeliver id := by
  intro ch hch hmode
  have hordered : c.modes[id.toNat]? = some .reliableOrdered := by
    rw [getElem?_modes, show c.channels[id.toNat]? = some ch from hch]
    exact congrArg some hmode
  exact (h.1 id seq payload emit rfl hordered).canDeliver id ch hch hmode

/-! ## Sections -/

section

variable {cfg : TickConfig} {s s' : Socket} {now : ℤ} {w : Work} {w' : Option Work}
  {events : List Event}

theorem handling_inv {plaintext : Bytes} {rest : List Bytes}
    (hok : (Work.handling plaintext rest).advance c cfg s now = .ok (c', s', w', events)) :
    c' = (c.receive now plaintext).1 ∧ w' = ofVerdict (c.receive now plaintext).2.2 rest ∧
      events = (c.receive now plaintext).2.1 := by
  simp only [advance, Except.ok.injEq, Prod.mk.injEq] at hok
  exact ⟨hok.1.symm, hok.2.2.1.symm, hok.2.2.2.symm⟩

theorem advance_lifecycle (hok : w.advance c cfg s now = .ok (c', s', w', events)) :
    Lifecycle c c' events := by
  cases w with
  | datagram data =>
      rw [advance] at hok
      split at hok <;> cases hok
      · exact .goesOn (by simp [Event.isDisconnect]) rfl
      · exact .refl c
  | packets rest =>
      cases rest with
      | nil =>
          cases hok
          exact .refl c
      | cons packet rest =>
          rw [advance] at hok
          split at hok <;> cases hok
          · exact .goesOn (by simp [Event.isDisconnect]) rfl
          · exact .goesOn (by simp) rfl
  | handling plaintext rest =>
      obtain ⟨rfl, -, rfl⟩ := handling_inv hok
      exact c.receive_lifecycle now plaintext
  | delivering verdict rest =>
      rw [advance] at hok
      split at hok
      · cases hok
      · rename_i hfinish
        cases hok
        obtain ⟨hquiet, hlife⟩ := c.finish_lifecycle hfinish
        exact .goesOn hquiet hlife
  | ticking seen =>
      cases hok
      exact c.tickSeen_lifecycle cfg s now seen

/-- Only `Decrypt` touches what the owner goes by. -/
theorem advance_identity (hok : w.advance c cfg s now = .ok (c', s', w', events))
    (hw : ∀ rest, w ≠ .packets rest) : c'.identity = c.identity := by
  cases w with
  | datagram data =>
      rw [advance] at hok
      split at hok <;> cases hok <;> rfl
  | packets rest => exact absurd rfl (hw rest)
  | handling plaintext rest =>
      obtain ⟨rfl, -, -⟩ := handling_inv hok
      exact c.identity_receive now plaintext
  | delivering verdict rest =>
      rw [advance] at hok
      split at hok
      · cases hok
      · rename_i hfinish
        cases hok
        exact c.identity_finish hfinish
  | ticking seen =>
      cases hok
      exact c.identity_tickSeen cfg s now seen

/-- `Decrypt` itself touches the replay window only. -/
theorem packets_inv {rest : List Bytes}
    (hok : (Work.packets rest).advance c cfg s now = .ok (c', s', w', events)) :
    c' = c ∨ ∃ packet plaintext cipher,
      c.recvCipher.decrypt packet = .ok (plaintext, cipher) ∧ c' = c.withRecvCipher cipher := by
  cases rest with
  | nil =>
      cases hok
      exact .inl rfl
  | cons packet rest =>
      rw [advance] at hok
      split at hok
      · cases hok
        exact .inl rfl
      · rename_i hopen
        cases hok
        exact .inr ⟨_, _, _, hopen, rfl⟩

theorem advance_aead (hok : w.advance c cfg s now = .ok (c', s', w', events)) :
    c'.recvCipher.aead = c.recvCipher.aead := by
  by_cases hw : ∃ rest, w = .packets rest
  · obtain ⟨rest, rfl⟩ := hw
    rcases packets_inv hok with rfl | ⟨packet, plaintext, cipher, hopen, rfl⟩
    · rfl
    · exact (CipherState.decrypt_ok_inv hopen).1
  · have hidentity := advance_identity hok fun rest heq => hw ⟨rest, heq⟩
    exact congrArg (fun identity => identity.2.2.2.2.aead) hidentity

theorem advance_remoteAddr (hok : w.advance c cfg s now = .ok (c', s', w', events)) :
    c'.remoteAddr = c.remoteAddr := by
  by_cases hw : ∃ rest, w = .packets rest
  · obtain ⟨rest, rfl⟩ := hw
    rcases packets_inv hok with rfl | ⟨packet, plaintext, cipher, hopen, rfl⟩ <;> rfl
  · exact congrArg Prod.fst (advance_identity hok fun rest heq => hw ⟨rest, heq⟩)

/-- A connection ends by a disconnect packet or by a tick. -/
theorem advance_ends (hok : w.advance c cfg s now = .ok (c', s', w', events))
    (hany : events.any Event.isDisconnect = true) :
    (∃ plaintext rest, w = .handling plaintext rest ∧ c.endedBy plaintext = true ∧
      w' = ofPackets rest) ∨ w.inDatagram = false ∧ w' = none := by
  cases w with
  | datagram data =>
      rw [advance] at hok
      split at hok <;> cases hok <;> cases hany
  | packets rest =>
      cases rest with
      | nil =>
          cases hok
          cases hany
      | cons packet rest =>
          rw [advance] at hok
          split at hok <;> cases hok <;> cases hany
  | handling plaintext rest =>
      obtain ⟨-, rfl, rfl⟩ := handling_inv hok
      refine .inl ⟨plaintext, rest, rfl, (c.receive_any now plaintext).symm.trans hany, ?_⟩
      rw [c.receive_ends hany]
      rfl
  | delivering verdict rest =>
      rw [advance] at hok
      split at hok
      · cases hok
      · rename_i hfinish
        cases hok
        obtain ⟨ev, hev, htrue⟩ := List.any_eq_true.mp hany
        rw [(c.finish_lifecycle hfinish).1 ev hev] at htrue
        cases htrue
  | ticking seen =>
      cases hok
      exact .inr ⟨rfl, rfl⟩

theorem ready_ofPackets {rest : List Bytes} (h : c.Intact ∨ c.Harmless rest) :
    ∀ v ∈ ofPackets rest, v.Ready c := by
  cases rest with
  | nil => simp [ofPackets]
  | cons packet rest =>
      rintro v ⟨⟩
      exact h

/-- Work that can be done leaves work that can be done. -/
theorem advance_ready (h : w.Ready c) (hspares : w.Spares c)
    (hok : w.advance c cfg s now = .ok (c', s', w', events)) : ∀ v ∈ w', v.Ready c' := by
  have hlife := advance_lifecycle hok
  have haead := advance_aead hok
  have hharmless := harmless_congr hlife.modes_eq haead
  cases w with
  | datagram data =>
      rw [advance] at hok
      split at hok <;> cases hok
      · simp
      · exact ready_ofPackets (.inl h)
  | packets rest =>
      cases rest with
      | nil =>
          cases hok
          simp
      | cons packet rest =>
          rw [advance] at hok
          split at hok
          · cases hok
            exact ready_ofPackets (h.imp_right fun hall p hp => hall p (List.mem_cons_of_mem _ hp))
          · rename_i plaintext cipher hopen
            cases hok
            rintro v ⟨⟩
            refine h.imp id fun hall => ⟨?_, ?_⟩
            · exact hall packet List.mem_cons_self plaintext (openWire_of_decrypt hopen)
            · rw [hharmless]
              exact fun p hp => hall p (List.mem_cons_of_mem _ hp)
  | handling plaintext rest =>
      obtain ⟨rfl, rfl, rfl⟩ := handling_inv hok
      cases hlife with
      | goesOn quiet life_eq =>
          have hintact : (c.receive now plaintext).1.Intact = c.Intact := by
            rw [Intact, Intact, life_eq]
          have hrest : c.Intact ∨ c.Harmless rest := h.imp_right And.right
          cases hverdict : (c.receive now plaintext).2.2 with
          | done =>
              refine ready_ofPackets ?_
              rwa [hintact, hharmless]
          | deliver id seq payload emit =>
              rintro v ⟨⟩
              rw [Ready, hintact, hharmless]
              refine ⟨?_, hrest⟩
              rintro id' seq' payload' emit' ⟨⟩ hmode
              rw [modes, life_eq] at hmode
              refine h.resolve_right fun hother => ?_
              rw [c.receive_verdict hverdict hmode] at hother
              cases hother.1
      | ends before reason events_eq quiet state_eq modes_eq =>
          -- the buffers are gone, but the packets behind do not ask for them
          have hany : (c.receive now plaintext).2.1.any Event.isDisconnect = true := by
            simp [events_eq, Event.isDisconnect]
          rw [c.receive_ends hany]
          refine ready_ofPackets (.inr ?_)
          rw [hharmless]
          exact hspares ((c.receive_any now plaintext).symm.trans hany)
  | delivering verdict rest =>
      rw [advance] at hok
      split at hok
      · cases hok
      · rename_i hfinish
        cases hok
        refine ready_ofPackets ?_
        rw [hharmless, Intact, (c.finish_lifecycle hfinish).2]
        exact h.2
  | ticking seen =>
      cases hok
      simp

end

end Work

end Fastwire
