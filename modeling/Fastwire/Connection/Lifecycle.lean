/-
# The end of a connection

Every call into a connection either leaves its state and the existence of its
reorder buffers alone and reports no disconnect, or it tears the connection
down, and then the disconnect is the last thing it reports. The graceful close is
the one call that changes the state without a report.
-/

import Fastwire.Connection.Pipeline

namespace Fastwire

namespace Event

/-- The connection was torn down. -/
def isDisconnect : Event → Bool
  | .onDisconnect _ => true
  | _ => false

end Event

/-- What a teardown changes: the state and the reorder buffers. -/
def Connection.life (c : Connection) : ConnState × List (DeliveryMode × Bool) :=
  (c.state, c.channels.map Channel.buffering)

def Connection.modes (c : Connection) : List DeliveryMode := c.life.2.map Prod.fst

/-- What a call did to the life of a connection. -/
inductive Lifecycle (c c' : Connection) (events : List Event) : Prop
  | goesOn (quiet : ∀ ev ∈ events, ev.isDisconnect = false) (life_eq : c'.life = c.life)
  | ends (before : List Event) (reason : DisconnectReason)
      (events_eq : events = before ++ [.onDisconnect reason])
      (quiet : ∀ ev ∈ before, ev.isDisconnect = false) (state_eq : c'.state = .disconnected)
      (modes_eq : c'.modes = c.modes)

namespace Lifecycle

variable {c c' c'' : Connection} {events events' : List Event}

theorem refl (c : Connection) : Lifecycle c c [] := .goesOn (by simp) rfl

/-- A quiet call before another one. -/
theorem prepend (h : Lifecycle c' c'' events') (hquiet : ∀ ev ∈ events, ev.isDisconnect = false)
    (hlife : c'.life = c.life) : Lifecycle c c'' (events ++ events') := by
  cases h with
  | goesOn quiet life_eq =>
      refine .goesOn ?_ (life_eq.trans hlife)
      intro ev hev
      exact (List.mem_append.mp hev).elim (hquiet ev) (quiet ev)
  | ends before reason events_eq quiet state_eq modes_eq =>
      refine .ends (events ++ before) reason (by simp [events_eq]) ?_ state_eq
        (modes_eq.trans (congrArg (fun l => l.2.map Prod.fst) hlife))
      intro ev hev
      exact (List.mem_append.mp hev).elim (hquiet ev) (quiet ev)

/-- A call that reports a disconnect leaves the connection disconnected. -/
theorem state_of_any (h : Lifecycle c c' events) (hany : events.any Event.isDisconnect = true) :
    c'.state = .disconnected := by
  obtain ⟨ev, hev, htrue⟩ := List.any_eq_true.mp hany
  cases h with
  | goesOn quiet life_eq =>
      rw [quiet ev hev] at htrue
      cases htrue
  | ends before reason events_eq quiet state_eq modes_eq => exact state_eq

/-- What is disconnected stays so. -/
theorem disconnected (h : Lifecycle c c' events) (hstate : c.state = .disconnected) :
    c'.state = .disconnected := by
  cases h with
  | goesOn quiet life_eq => exact (congrArg Prod.fst life_eq).trans hstate
  | ends before reason events_eq quiet state_eq modes_eq => exact state_eq

/-- No call changes the mode of a channel. -/
theorem modes_eq (h : Lifecycle c c' events) : c'.modes = c.modes := by
  cases h with
  | goesOn quiet life_eq => exact congrArg (fun l => l.2.map Prod.fst) life_eq
  | ends before reason events_eq quiet state_eq modes_eq => exact modes_eq

end Lifecycle

namespace Connection

section

variable (c : Connection)

/-! ## Channels -/

theorem life_setIndex {i : ℕ} {ch ch' : Channel} (hch : c.channels[i]? = some ch)
    (hbuffering : ch'.buffering = ch.buffering) :
    ({ c with channels := c.channels.set i ch' } : Connection).life = c.life := by
  have hset : (c.channels.set i ch').map Channel.buffering = c.channels.map Channel.buffering :=
    map_set_channel hch Channel.buffering hbuffering
  simp only [life, hset]

@[simp]
theorem modes_shutDown : c.shutDown.modes = c.modes := by
  simp only [modes, life, shutDown, releasePendingBuffers, List.map_map]
  rfl

/-- A teardown, whatever its reason. -/
theorem shutDown_lifecycle (reason : DisconnectReason) :
    Lifecycle c c.shutDown [.onDisconnect reason] :=
  .ends [] reason rfl (by simp) rfl c.modes_shutDown

theorem life_setChannel {id : UInt8} {ch ch' : Channel} (hch : c.channel id = some ch)
    (hbuffering : ch'.buffering = ch.buffering) : (c.setChannel id ch').life = c.life :=
  life_setIndex c hch hbuffering

theorem life_of_core {c c' : Connection} (same : c'.core = c.core) : c'.life = c.life := by
  simp only [core, wire, Prod.mk.injEq] at same
  simp only [life, same]

/-! ## Receiving -/

/-- Only a disconnect packet ends the life of a connection. -/
theorem receiveInvariant_life (life : ConnState × List (DeliveryMode × Bool)) :
    ReceiveInvariant fun c => c.life = life where
  books h same := (life_of_core same).trans h
  channel found _ same h := (life_setChannel _ found same).trans h

theorem applyAcks_lifecycle (now : ℤ) (id : UInt8) (ack : UInt32) (ackField : BitVec 32) :
    (∀ ev ∈ (c.applyAcks now id ack ackField).2, ev.isDisconnect = false) ∧
      (c.applyAcks now id ack ackField).1.life = c.life := by
  refine ⟨?_, (receiveInvariant_life c.life).applyAcks now id ack ackField rfl⟩
  rw [applyAcks]
  split <;> simp [Event.isDisconnect]

theorem applyMultiAck_lifecycle (now : ℤ) (c : Connection) (entries : List MultiAckEntry) :
    (∀ ev ∈ (applyMultiAck now c entries).2, ev.isDisconnect = false) ∧
      (applyMultiAck now c entries).1.life = c.life := by
  induction entries generalizing c with
  | nil => simp [applyMultiAck]
  | cons e es ih =>
      obtain ⟨hquiet, hlife⟩ := c.applyAcks_lifecycle now e.channel e.ack e.ackField
      obtain ⟨hquiet', hlife'⟩ := ih (c.applyAcks now e.channel e.ack e.ackField).1
      refine ⟨?_, hlife'.trans hlife⟩
      intro ev hev
      exact (List.mem_append.mp hev).elim (hquiet ev) (hquiet' ev)

theorem handleControl_lifecycle (now : ℤ) (body : Bytes) :
    Lifecycle c (c.handleControl now body).1 (c.handleControl now body).2 := by
  cases body with
  | nil => exact .refl c
  | cons ct data =>
      simp only [handleControl]
      split
      · split
        · exact .refl c
        · obtain ⟨hquiet, hlife⟩ := applyMultiAck_lifecycle now c _
          exact .goesOn hquiet hlife
      · exact c.shutDown_lifecycle .graceful
      · exact .refl c

theorem receiveData_lifecycle (now : ℤ) (hdr : PacketHeader) (body : Bytes) :
    (∀ ev ∈ (c.receiveData now hdr body).2.1, ev.isDisconnect = false) ∧
      (c.receiveData now hdr body).1.life = c.life := by
  refine ⟨?_, (receiveInvariant_life c.life).receiveData now hdr body rfl⟩
  rw [receiveData]
  split
  · simp
  · dsimp only
    split
    · split <;> simp [Event.isDisconnect]
    · simp

theorem receive_lifecycle (now : ℤ) (decrypted : Bytes) :
    Lifecycle c (c.receive now decrypted).1 (c.receive now decrypted).2.1 := by
  rw [receive]
  split
  · exact .goesOn (by simp [Event.isDisconnect]) rfl
  · rename_i hdr n _
    dsimp only
    split
    · exact .goesOn (by simp) rfl
    · obtain ⟨hquiet, hlife⟩ :=
        (c.touchRecv now).applyAcks_lifecycle now hdr.channel hdr.ack hdr.ackField
      split
      · exact (handleControl_lifecycle _ now _).prepend hquiet hlife
      · obtain ⟨hquiet', hlife'⟩ := receiveData_lifecycle
          ((c.touchRecv now).applyAcks now hdr.channel hdr.ack hdr.ackField).1 now hdr
          (decrypted.drop n)
        exact (Lifecycle.goesOn hquiet' hlife').prepend hquiet hlife

/-- Delivery never ends a connection. -/
theorem finish_lifecycle {verdict : Verdict} {c' : Connection} {events : List Event}
    (hok : c.finish verdict = .ok (c', events)) :
    (∀ ev ∈ events, ev.isDisconnect = false) ∧ c'.life = c.life := by
  refine ⟨?_, (receiveInvariant_life c.life).finish hok rfl⟩
  cases verdict with
  | done =>
      cases hok
      simp
  | deliver id seq payload emit =>
      simp only [finish] at hok
      split at hok
      · cases hok
        simp
      · split at hok <;> cases hok
        cases emit <;> simp [Event.isDisconnect, messageEvents]

/-- A packet that ends the connection has nothing to deliver. -/
theorem receive_ends {now : ℤ} {decrypted : Bytes}
    (h : (c.receive now decrypted).2.1.any Event.isDisconnect = true) :
    (c.receive now decrypted).2.2 = .done := by
  rw [receive] at h ⊢
  split
  · rfl
  · rename_i hdr n heq
    rw [heq] at h
    dsimp only at h ⊢
    split
    · rfl
    · rename_i hch
      rw [hch] at h
      split
      · rfl
      · rename_i hdata
        rw [if_neg hdata] at h
        obtain ⟨hquiet, -⟩ :=
          (c.touchRecv now).applyAcks_lifecycle now hdr.channel hdr.ack hdr.ackField
        obtain ⟨hquiet', -⟩ := receiveData_lifecycle
          ((c.touchRecv now).applyAcks now hdr.channel hdr.ack hdr.ackField).1 now hdr
          (decrypted.drop n)
        rw [List.any_append, Bool.or_eq_true, List.any_eq_true, List.any_eq_true] at h
        rcases h with ⟨ev, hev, htrue⟩ | ⟨ev, hev, htrue⟩
        · rw [hquiet ev hev] at htrue
          cases htrue
        · rw [hquiet' ev hev] at htrue
          cases htrue

theorem handleDecrypted_lifecycle {now : ℤ} {decrypted : Bytes} {c' : Connection}
    {events : List Event} (hok : c.handleDecrypted now decrypted = .ok (c', events)) :
    Lifecycle c c' events := by
  obtain ⟨events', hfinish, rfl⟩ := handleDecrypted_inv hok
  obtain ⟨hquiet, hlife⟩ := finish_lifecycle _ hfinish
  cases c.receive_lifecycle now decrypted with
  | goesOn hquiet' hlife' => exact (Lifecycle.goesOn hquiet hlife).prepend hquiet' hlife'
  | ends before reason events_eq hquiet' hstate' hmodes =>
      -- nothing is delivered, so the report stays the last one
      have hdone : (c.receive now decrypted).2.2 = .done :=
        receive_ends c (by simp [events_eq, Event.isDisconnect])
      rw [hdone] at hfinish
      cases hfinish
      exact .ends before reason (by simp [events_eq]) hquiet' hstate' hmodes

/-! ## Sending

No call that sends touches the state, and what it reports are errors. -/

theorem life_transmitPacket (s : Socket) (raw : Bytes) :
    (c.transmitPacket s raw).1.life = c.life := by
  obtain ⟨_, _, heq⟩ := c.transmitPacket_books s raw
  rw [heq]
  rfl

theorem life_queuePacket (p : Stamped) (now : ℤ) : (c.queuePacket p now).life = c.life := by
  rw [queuePacket]
  split
  · rfl
  · rename_i ch hch
    split
    · exact life_setChannel c hch rfl
    · rfl

theorem life_sendMultiChannelHeartbeat (s : Socket) (ids : List UInt8) (now : ℤ) :
    (c.sendMultiChannelHeartbeat s ids now).1.life = c.life := by
  obtain ⟨_, _, heq, -⟩ := c.acks_books s ids now
  rw [heq]
  rfl

theorem stageInvariant_life (mtu : ℤ) (life : ConnState × List (DeliveryMode × Bool)) :
    StageInvariant mtu fun c _ => c.life = life where
  books h same := (life_of_core same).trans h
  number found h := h ▸ life_setChannel _ found rfl
  transmit _ h := (life_transmitPacket _ _ _).trans h
  queue now _ h := (life_queuePacket _ _ now).trans h
  check _ _ _ found h := h ▸ life_setIndex _ found rfl
  resend _ _ h := h
  flush h := h
  clear {_ _ _ ch} found h := (life_setIndex _ found ch.buffering_clearNeedsAck).trans h
  acks ids now h := (life_sendMultiChannelHeartbeat _ _ ids now).trans h
  backlog _ h := h

theorem life_sendImmediate (s : Socket) (data : Bytes) (id : UInt8) (now : ℤ) :
    (c.sendImmediate s data id now).1.life = c.life :=
  (stageInvariant_life 0 c.life).sendImmediate data id now (s := s) rfl

theorem life_enqueueSend (data : Bytes) (id : UInt8) :
    (c.enqueueSend data id).1.life = c.life := by
  rw [enqueueSend]
  split
  · rfl
  · split <;> rfl

/-! ## The tick -/

/-- The retransmission check either kills the connection or leaves it alone. -/
theorem retransmitChannels_life (now rto maxRetransmits : ℤ) (c : Connection) (s : Socket)
    (is : List ℕ) :
    ((retransmitChannels now rto maxRetransmits c s is).2.2 = true →
      (retransmitChannels now rto maxRetransmits c s is).1.state = .disconnected ∧
        (retransmitChannels now rto maxRetransmits c s is).1.modes = c.modes) ∧
    ((retransmitChannels now rto maxRetransmits c s is).2.2 = false →
      (retransmitChannels now rto maxRetransmits c s is).1.life = c.life) := by
  obtain ⟨halive, hkilled⟩ := (stageInvariant_life 0 c.life).retransmitChannels now rto
    maxRetransmits is (s := s) rfl
  refine ⟨fun hkill => ?_, halive⟩
  obtain ⟨c', hlife, heq⟩ := hkilled hkill
  rw [heq, modes_shutDown, modes, hlife]
  exact ⟨rfl, rfl⟩

/-- What the drain reports are errors. -/
theorem quiet_drainQueue (now : ℤ) (c : Connection) (s : Socket) (msgs : List OutgoingMessage) :
    ∀ ev ∈ (drainQueue now c s msgs).2.2, ev.isDisconnect = false := by
  induction msgs generalizing c s with
  | nil => simp [drainQueue]
  | cons msg msgs ih =>
      have hrest := ih (c.sendMessage s msg.data msg.channel now).1
        (c.sendMessage s msg.data msg.channel now).2.1
      rw [drainQueue]
      split
      · dsimp only
        split
        · exact List.forall_mem_cons.mpr ⟨rfl, hrest⟩
        · exact hrest
      · simp

theorem quiet_flushStage (cfg : TickConfig) (s : Socket) :
    ∀ ev ∈ (c.flushStage cfg s).2.2, ev.isDisconnect = false := by
  rw [flushStage]
  split
  · split <;> simp [Event.isDisconnect]
  · simp

theorem tickSend_lifecycle (cfg : TickConfig) (s : Socket) (now : ℤ) :
    (∀ ev ∈ (c.tickSend cfg s now).2.2, ev.isDisconnect = false) ∧
      (c.tickSend cfg s now).1.life = c.life := by
  refine ⟨?_, (stageInvariant_life cfg.mtu c.life).tickSend cfg rfl now (s := s) rfl⟩
  rw [tickSend_eq]
  intro ev hev
  exact (List.mem_append.mp hev).elim (quiet_drainQueue now _ s _ ev) (quiet_flushStage _ cfg _ ev)

theorem tickSeen_lifecycle (cfg : TickConfig) (s : Socket) (now : ℤ) (seen : ConnState) :
    Lifecycle c (c.tickSeen cfg s now seen).1 (c.tickSeen cfg s now seen).2.2 := by
  rw [tickSeen.eq_def]
  split
  · rw [tickDisconnecting]
    split
    · exact c.shutDown_lifecycle .graceful
    · split
      · split <;> exact .goesOn (by simp) rfl
      · exact .refl c
  · split
    · exact c.shutDown_lifecycle .timeout
    · have hretransmit := retransmitChannels_life now c.retransmitTimeout cfg.maxRetransmits c s
        (List.range c.channels.length)
      split
      · rename_i heq
        rw [heq] at hretransmit
        exact .ends [.onError .maxRetransmits] .error rfl (by simp [Event.isDisconnect])
          (hretransmit.1 rfl).1 (hretransmit.1 rfl).2
      · rename_i c₁ s₁ heq
        rw [heq] at hretransmit
        obtain ⟨hquiet, hlife⟩ := c₁.tickSend_lifecycle cfg s₁ now
        exact .goesOn hquiet (hlife.trans (hretransmit.2 rfl))
  · exact .refl c

/-! ## After the end -/

/-- The tick does nothing with a disconnected connection. -/
theorem tickConnection_disconnected (hstate : c.state = .disconnected) (cfg : TickConfig)
    (s : Socket) (now : ℤ) : c.tickConnection cfg s now = (c, s, []) := by
  rw [tickConnection, hstate]
  rfl

/-- A close either does nothing or begins to disconnect. -/
theorem close_life (s : Socket) (now : ℤ) : (c.close s now).1 = c ∨
    c.state = .connected ∧ (c.close s now).1.life = (.disconnecting, c.life.2) := by
  rw [close]
  split
  · exact .inl rfl
  · rename_i hlive
    refine .inr ⟨Decidable.not_not.mp hlive, ?_⟩
    dsimp only
    split <;> rfl

theorem sendImmediate_disconnected (hstate : c.state = .disconnected) (s : Socket) (data : Bytes)
    (id : UInt8) (now : ℤ) :
    c.sendImmediate s data id now = (c, s, .error .connectionClosed) := by
  rw [sendImmediate, if_pos (by simp [hstate])]

theorem enqueueSend_disconnected (hstate : c.state = .disconnected) (data : Bytes) (id : UInt8) :
    c.enqueueSend data id = (c, .error .connectionClosed) := by
  rw [enqueueSend, if_pos (by simp [hstate])]

end

end Connection

end Fastwire
