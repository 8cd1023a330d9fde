/-
# The congestion window

The tick asks the congestion controller once for every message, not once for every
packet. A message that the gate lets through is sent to its end, however many packets
it takes, unless a write fails. What the window is worth therefore depends on the
messages: it is respected packet by packet exactly if every message that passes the
gate still fits into it. Which messages pass is a matter of numbers alone, of the
packets in flight before the drain and of the packets that every message makes.
-/

import Fastwire.Connection.Packets
import Mathlib.Algebra.BigOperators.Group.List.Basic

namespace Fastwire

/-- `Window`; 0 stands for unlimited. -/
def Congestion.window : Congestion → ℤ
  | conservative cwnd => ⌊cwnd⌋
  | aggressive _ => 0

/-! ## What is taken -/

/-- What decides whether a packet is taken: the room in the batch queue and, if there is
none, the outcome of the next write. -/
structure Outlet where
  room : ℕ
  failures : List Bool
  deriving DecidableEq

/-- Of a message, how many packets are handed over and how many of them are taken. -/
structure Share where
  handed : ℕ
  taken : ℕ
  deriving DecidableEq

namespace Outlet

def put : Outlet → Outlet × Bool
  | ⟨room + 1, failures⟩ => (⟨room, failures⟩, true)
  | ⟨0, true :: failures⟩ => (⟨0, failures⟩, false)
  | ⟨0, failures⟩ => (⟨0, failures.tail⟩, true)

/-- The packets of a message, up to the first one that is not taken. -/
def putAll : Outlet → ℕ → Outlet × Share
  | o, 0 => (o, ⟨0, 0⟩)
  | o, n + 1 =>
      match o.put with
      | (o, false) => (o, ⟨1, 0⟩)
      | (o, true) =>
          let (o, share) := o.putAll n
          (o, ⟨share.handed + 1, share.taken + 1⟩)

def shares : Outlet → List ℕ → List Share
  | _, [] => []
  | o, n :: ns =>
      let (o, share) := o.putAll n
      share :: o.shares ns

theorem putAll_of_refused {o o' : Outlet} (h : o.put = (o', false)) (n : ℕ) :
    o.putAll (n + 1) = (o', ⟨1, 0⟩) := by
  rw [putAll, h]

theorem putAll_of_taken {o o' : Outlet} (h : o.put = (o', true)) (n : ℕ) :
    o.putAll (n + 1) =
      ((o'.putAll n).1, ⟨(o'.putAll n).2.handed + 1, (o'.putAll n).2.taken + 1⟩) := by
  rw [putAll, h]

theorem taken_le_handed (o : Outlet) (n : ℕ) : (o.putAll n).2.taken ≤ (o.putAll n).2.handed := by
  induction n generalizing o with
  | zero => exact le_rfl
  | succ n ih =>
      rcases hput : o.put with ⟨o', taken⟩
      cases taken with
      | false =>
          rw [putAll_of_refused hput]
          exact Nat.zero_le _
      | true =>
          rw [putAll_of_taken hput]
          exact Nat.succ_le_succ (ih o')

/-- A socket without failures takes everything. -/
theorem putAll_of_quiet (o : Outlet) (hquiet : ∀ failure ∈ o.failures, failure = false) (n : ℕ) :
    (o.putAll n).2 = ⟨n, n⟩ ∧ ∀ failure ∈ (o.putAll n).1.failures, failure = false := by
  induction n generalizing o with
  | zero => exact ⟨rfl, hquiet⟩
  | succ n ih =>
      have hput : ∃ o', o.put = (o', true) ∧ ∀ failure ∈ o'.failures, failure = false := by
        obtain ⟨room, failures⟩ := o
        rcases room with _ | room
        · rcases failures with _ | ⟨failure, failures⟩
          · exact ⟨_, rfl, hquiet⟩
          · rw [List.forall_mem_cons] at hquiet
            obtain ⟨rfl, hquiet⟩ := hquiet
            exact ⟨_, rfl, hquiet⟩
        · exact ⟨_, rfl, hquiet⟩
      obtain ⟨o', hput, hquiet'⟩ := hput
      obtain ⟨hshare, hrest⟩ := ih o' hquiet'
      rw [putAll_of_taken hput, hshare]
      exact ⟨rfl, hrest⟩

theorem shares_of_quiet (o : Outlet) (hquiet : ∀ failure ∈ o.failures, failure = false)
    (counts : List ℕ) : o.shares counts = counts.map fun n => ⟨n, n⟩ := by
  induction counts generalizing o with
  | nil => rfl
  | cons n counts ih =>
      obtain ⟨hshare, hrest⟩ := o.putAll_of_quiet hquiet n
      rw [List.map_cons, ← hshare, ← ih _ hrest]
      rfl

end Outlet

/-- With `inFlight` packets in flight before, every message that finds fewer than `window`
packets in flight fits with all the packets it hands over. -/
def FitWindow (window inFlight : ℤ) (shares : List Share) : Prop :=
  ∀ k (_ : k < shares.length),
    inFlight + ((shares.take k).map Share.taken).sum < window →
      inFlight + ((shares.take k).map Share.taken).sum + shares[k].handed ≤ window

instance (window inFlight : ℤ) (shares : List Share) :
    Decidable (FitWindow window inFlight shares) :=
  inferInstanceAs (Decidable (∀ k (_ : k < shares.length), _ → _))

theorem fitWindow_cons {window inFlight : ℤ} {share : Share} {shares : List Share} :
    FitWindow window inFlight (share :: shares) ↔
      (inFlight < window → inFlight + share.handed ≤ window) ∧
        FitWindow window (inFlight + share.taken) shares := by
  constructor
  · intro h
    refine ⟨fun hgate => ?_, fun k hk hgate => ?_⟩
    · simpa using h 0 (Nat.zero_lt_succ _) (by simpa using hgate)
    · have hlater := h (k + 1) (Nat.succ_lt_succ hk)
      simp only [List.take_succ_cons, List.map_cons, List.sum_cons, List.getElem_cons_succ,
        Nat.cast_add, ← add_assoc] at hlater
      exact hlater hgate
  · rintro ⟨hfirst, hrest⟩ k hk
    cases k with
    | zero => simpa using hfirst
    | succ k =>
        have hlater := hrest k (Nat.lt_of_succ_lt_succ hk)
        simpa only [List.take_succ_cons, List.map_cons, List.sum_cons, List.getElem_cons_succ,
          Nat.cast_add, ← add_assoc] using hlater

/-- With a full window nothing passes. -/
theorem fitWindow_of_full {window inFlight : ℤ} (hfull : window ≤ inFlight) (shares : List Share) :
    FitWindow window inFlight shares := by
  intro k hk hgate
  omega

namespace Connection

/-! ## Counting -/

section

variable {c : Connection} {id : UInt8} {ch : Channel}

/-- A total over the channels after one of them has been written back. -/
theorem sum_setChannel (found : c.channel id = some ch) (f : Channel → ℤ) (ch' : Channel) :
    ((c.setChannel id ch').channels.map f).sum = (c.channels.map f).sum + (f ch' - f ch) := by
  obtain ⟨hlt, hget⟩ := List.getElem?_eq_some_iff.mp found
  have hlt' : id.toNat < (c.channels.map f).length := by simpa using hlt
  simp only [setChannel, List.map_set, List.sum_set', dif_pos hlt', List.getElem_map, hget]
  ring

/-- The counters are right, and on no channel do `n` more packets reach 2^31. -/
def Ample (c : Connection) (n : ℕ) : Prop :=
  ∀ ch ∈ c.channels, ch.Counted ∧ ch.pendingSend.length + n < 2 ^ 31

instance : DecidablePred Channel.Counted := fun ch => inferInstanceAs (Decidable (ch.pending = _))

instance (c : Connection) (n : ℕ) : Decidable (c.Ample n) :=
  inferInstanceAs (Decidable (∀ ch ∈ c.channels, _))

theorem Ample.mono {m n : ℕ} (h : c.Ample n) (hle : m ≤ n) : c.Ample m :=
  fun ch hch => ⟨(h ch hch).1, by have := (h ch hch).2; omega⟩

theorem Ample.setChannel {n : ℕ} (h : c.Ample n) {ch' : Channel}
    (hch' : ch'.Counted ∧ ch'.pendingSend.length + n < 2 ^ 31) : (c.setChannel id ch').Ample n := by
  intro k hk
  rcases List.mem_or_eq_of_mem_set hk with hold | rfl
  · exact h k hold
  · exact hch'

def reliableOn (c : Connection) (id : UInt8) : Bool :=
  c.modes[id.toNat]?.any DeliveryMode.reliable

theorem reliableOn_eq (found : c.channel id = some ch) : c.reliableOn id = ch.mode.reliable := by
  rw [reliableOn, ← map_mode_channel, found]
  rfl

/-- The plaintext is a packet of the channel. -/
def CarriedOn (id : UInt8) (raw : Bytes) : Prop :=
  ∃ hdr n, unmarshalHeader raw = .ok (hdr, n) ∧ hdr.channel = id

/-- The outlet as the pipeline finds it. -/
def outlet (c : Connection) (s : Socket) : Outlet := ⟨c.batchRoom, s.failures⟩

theorem Ample.inFlightCount_setChannel {n : ℕ} (h : c.Ample n) (found : c.channel id = some ch)
    {ch' : Channel} (hch' : ch'.Counted) (hfew : ch'.pendingSend.length < 2 ^ 31) :
    (c.setChannel id ch').inFlightCount =
      c.inFlightCount + (ch'.pendingSend.length - ch.pendingSend.length) := by
  have hch := h ch (List.mem_of_getElem? found)
  rw [inFlightCount, sum_setChannel found, hch'.pendingCount hfew,
    hch.1.pendingCount (by have := hch.2; omega), ← inFlightCount]

/-! ## One packet -/

/-- The batch queue takes the packet, or the socket decides. -/
theorem writeEncrypted_outlet (c : Connection) (s : Socket) (encrypted : Bytes) :
    ∃ c' s' result, c.writeEncrypted s encrypted = (c', s', result) ∧
      (c.outlet s).put = (c'.outlet s', decide (result = .ok ())) ∧
      ∃ batchBuf, c' = { c with batchBuf := batchBuf } := by
  by_cases hqueue : c.batchEnabled ∧ ¬ c.skipBatch ∧ c.batchBuf.length < maxBatchQueueSize
  · refine ⟨_, s, .ok (), by rw [writeEncrypted, if_pos hqueue], ?_, _, rfl⟩
    have hroom : c.batchRoom = (maxBatchQueueSize - c.batchBuf.length - 1) + 1 := by
      rw [batchRoom, if_pos ⟨hqueue.1, hqueue.2.1⟩]
      omega
    rw [outlet, hroom, Outlet.put, outlet, batchRoom, if_pos ⟨hqueue.1, hqueue.2.1⟩]
    simp [Nat.sub_sub]
  · have hroom : c.batchRoom = 0 := by
      rw [batchRoom]
      split
      · rename_i hopen
        exact Nat.sub_eq_zero_of_le (not_lt.mp fun hlt => hqueue ⟨hopen.1, hopen.2, hlt⟩)
      · rfl
    refine ⟨c, (c.sendFramed s encrypted).1, (c.sendFramed s encrypted).2, ?_, ?_, _, rfl⟩
    · rw [writeEncrypted, if_neg hqueue]
    · rw [outlet, outlet, hroom, sendFramed, Socket.write]
      cases hfailures : s.failures with
      | nil => rfl
      | cons failure rest => cases failure <;> rfl

theorem transmitPacket_outlet (c : Connection) (s : Socket) (raw : Bytes) :
    ∃ c' s' result, c.transmitPacket s raw = (c', s', result) ∧
      (c.outlet s).put = (c'.outlet s', decide (result = .ok ())) ∧ c'.channels = c.channels ∧
      c'.cc = c.cc ∧ c'.transmissions = c.transmissions ++ [⟨raw, c.inFlightCount⟩] := by
  obtain ⟨c', s', result, hwrite, hput, batchBuf, rfl⟩ := writeEncrypted_outlet
    { c with
      sendCipher := (c.sendCipher.encrypt raw).1
      transmissions := c.transmissions ++ [⟨raw, c.inFlightCount⟩] }
    s (c.sendCipher.encrypt raw).2
  exact ⟨_, s', result, hwrite, hput, rfl, rfl, rfl⟩

/-- What waits for acknowledgements after a packet has been queued. -/
theorem queuePacket_inFlight {p : Stamped} {n : ℕ} (h : c.Ample (n + 1))
    (found : c.channel p.channel = some ch) (now : ℤ) :
    (c.queuePacket p now).Ample n ∧ (c.queuePacket p now).inFlightCount =
      c.inFlightCount + if ch.mode.reliable then 1 else 0 := by
  have hch := h ch (List.mem_of_getElem? found)
  rw [queuePacket, found]
  dsimp only
  split
  · have hcounted := hch.1.addPending
      ⟨p.raw, now, 0, now + c.retransmitTimeout, true, p.sequence⟩
    have hlength : (ch.addPending ⟨p.raw, now, 0, now + c.retransmitTimeout, true,
        p.sequence⟩).pendingSend.length = ch.pendingSend.length + 1 := List.length_append
    constructor
    · exact (h.mono (Nat.le_succ n)).setChannel ⟨hcounted, by rw [hlength]; omega⟩
    · refine (h.inFlightCount_setChannel found hcounted (by rw [hlength]; omega)).trans ?_
      rw [hlength]
      push_cast
      ring
  · exact ⟨h.mono (Nat.le_succ n), by simp⟩

/-- A packet has been handed over, and taken or not. -/
structure HandsOver (id : UInt8) (taken : Bool) (c : Connection) (s : Socket) (c' : Connection)
    (s' : Socket) : Prop where
  put_eq : (c.outlet s).put = (c'.outlet s', taken)
  cc_eq : c'.cc = c.cc
  modes_eq : c'.modes = c.modes
  logged : ∃ raw, c'.transmissions = c.transmissions ++ [⟨raw, c.inFlightCount⟩] ∧ CarriedOn id raw
  inFlight_eq : c'.inFlightCount = c.inFlightCount + if taken ∧ c.reliableOn id then 1 else 0

theorem sendPacket_handsOver {n : ℕ} (h : c.Ample (n + 1)) (found : c.channel id = some ch)
    (s : Socket) (flags : UInt8) {body : Bytes} (hbody : body.length ≤ bodyLimit) (now : ℤ) :
    ∃ c' s' result, c.sendPacket s ch id flags body now = (c', s', result) ∧ c'.Ample n ∧
      HandsOver id (decide (result = .ok ())) c s c' s' := by
  obtain ⟨p, hbuild, rfl, -, -⟩ :=
    buildPacket_ok ch.nextSequence.1 id flags ch.nextSequence.2 body
  have hcarried : CarriedOn p.channel p.raw := by
    obtain ⟨k, hheader, -⟩ := unmarshalHeader_buildPacket hbuild
    exact ⟨_, k, hheader, rfl⟩
  have hch := h ch (List.mem_of_getElem? found)
  have hlife := (stageInvariant_life 0 c.life).sendPacket found flags hbody now (s := s) rfl
  have hmodes : (c.sendPacket s ch p.channel flags body now).1.modes = c.modes :=
    congrArg (fun l => l.2.map Prod.fst) hlife
  -- taking a number does not count
  have hstamp : c.stampPacket ch p.channel flags body =
      (c.setChannel p.channel ch.nextSequence.1, .ok p) := congrArg (Prod.mk _) hbuild
  have hample : (c.setChannel p.channel ch.nextSequence.1).Ample (n + 1) := h.setChannel hch
  have hcount : (c.setChannel p.channel ch.nextSequence.1).inFlightCount = c.inFlightCount := by
    have hcounted : ch.nextSequence.1.Counted := hch.1
    have hsame := h.inFlightCount_setChannel found hcounted (by simp [Channel.nextSequence]; omega)
    simpa [Channel.nextSequence] using hsame
  have hstamped : (c.setChannel p.channel ch.nextSequence.1).channel p.channel =
      some ch.nextSequence.1 := by
    rw [channel_setChannel found, if_pos rfl]
  obtain ⟨c₁, s', result, htransmit, hput, hchannels, hcc, hlog⟩ :=
    (c.setChannel p.channel ch.nextSequence.1).transmitPacket_outlet s p.raw
  simp only [sendPacket, hstamp, htransmit] at hmodes ⊢
  have hample₁ : c₁.Ample (n + 1) := by rwa [Ample, hchannels]
  have hcount₁ : c₁.inFlightCount = c.inFlightCount := by rwa [inFlightCount, hchannels]
  rw [hcount] at hlog
  cases result with
  | error e =>
      exact ⟨c₁, s', .error e, rfl, hample₁.mono (Nat.le_succ n), hput, hcc, hmodes,
        ⟨p.raw, hlog, hcarried⟩, by simpa using hcount₁⟩
  | ok u =>
      have found₁ : c₁.channel p.channel = some ch.nextSequence.1 := by rwa [channel, hchannels]
      obtain ⟨hample₂, hcount₂⟩ := queuePacket_inFlight hample₁ found₁ now
      obtain ⟨channels, loss, hbooks⟩ := c₁.queuePacket_books p now
      refine ⟨_, s', .ok (), rfl, hample₂, ?_, ?_, hmodes, ⟨p.raw, ?_, hcarried⟩, ?_⟩
      · rw [hbooks]
        exact hput
      · rw [hbooks]
        exact hcc
      · rw [hbooks]
        exact hlog
      · rw [hcount₂, hcount₁, reliableOn_eq found]
        cases hmode : ch.mode.reliable <;> simp [Channel.nextSequence, hmode]

/-! ## One message -/

/-- The packets of a message have been handed over. -/
structure Passes (id : UInt8) (n : ℕ) (c : Connection) (s : Socket) (c' : Connection)
    (s' : Socket) : Prop where
  outlet_eq : c'.outlet s' = ((c.outlet s).putAll n).1
  cc_eq : c'.cc = c.cc
  logged : ∃ new : List Transmission, c'.transmissions = c.transmissions ++ new ∧
    (∀ t ∈ new, CarriedOn id t.raw) ∧
    (c.reliableOn id = true → new.map Transmission.inFlight =
      (List.range ((c.outlet s).putAll n).2.handed).map fun i : ℕ => c.inFlightCount + i)
  inFlight_eq : c'.inFlightCount = c.inFlightCount +
    if c.reliableOn id then (((c.outlet s).putAll n).2.taken : ℤ) else 0

variable {s s' s'' : Socket} {c' c'' : Connection}

/-- A change that touches none of it. -/
theorem passes_zero (houtlet : c'.outlet s = c.outlet s) (hcc : c'.cc = c.cc)
    (hlog : c'.transmissions = c.transmissions) (hcount : c'.inFlightCount = c.inFlightCount) :
    Passes id 0 c s c' s :=
  ⟨houtlet, hcc, ⟨[], by simp [hlog], by simp, fun _ => rfl⟩, by simp [Outlet.putAll, hcount]⟩

/-- A packet that is not taken ends the message. -/
theorem HandsOver.passes (h : HandsOver id false c s c' s') (n : ℕ) :
    Passes id (n + 1) c s c' s' := by
  obtain ⟨raw, hlog, hcarried⟩ := h.logged
  have hput := Outlet.putAll_of_refused h.put_eq n
  refine ⟨by rw [hput], h.cc_eq, ⟨_, hlog, by simpa using hcarried, fun _ => ?_⟩, ?_⟩
  · rw [hput]
    simp
  · rw [hput]
    simpa using h.inFlight_eq

theorem HandsOver.passes_succ {n : ℕ} (h : HandsOver id true c s c' s')
    (h' : Passes id n c' s' c'' s'') : Passes id (n + 1) c s c'' s'' := by
  obtain ⟨raw, hlog, hcarried⟩ := h.logged
  obtain ⟨new, hlog', hcarried', hcounts⟩ := h'.logged
  have hput := Outlet.putAll_of_taken h.put_eq n
  have hsame : c'.reliableOn id = c.reliableOn id := by rw [reliableOn, h.modes_eq, ← reliableOn]
  have hone := h.inFlight_eq
  refine ⟨by rw [hput]; exact h'.outlet_eq, h'.cc_eq.trans h.cc_eq,
    ⟨⟨raw, c.inFlightCount⟩ :: new, ?_, ?_, ?_⟩, ?_⟩
  · rw [hlog', hlog, List.append_assoc, List.singleton_append]
  · exact List.forall_mem_cons.mpr ⟨hcarried, hcarried'⟩
  · intro hreliable
    rw [hput, List.map_cons, hcounts (hsame.trans hreliable), List.range_succ_eq_map, List.map_cons,
      List.map_map]
    rw [hone]
    simp only [hreliable, and_self, if_true, Nat.cast_zero, add_zero, List.cons.injEq, true_and]
    apply List.map_congr_left
    intro i _
    simp only [Function.comp_apply]
    push_cast
    ring
  · rw [h'.inFlight_eq, hone, hsame, hput]
    cases c.reliableOn id <;> simp
    ring

/-- The loop of `sendFragmented`. -/
theorem sendFragments_passes {m : ℕ} {fragments : List Bytes} (h : c.Ample (fragments.length + m))
    (hchannel : (c.channel id).isSome) (hfragments : ∀ frag ∈ fragments, frag.length ≤ bodyLimit)
    (s : Socket) (now : ℤ) :
    (sendFragments id now c s fragments).1.Ample m ∧
      Passes id fragments.length c s (sendFragments id now c s fragments).1
        (sendFragments id now c s fragments).2.1 := by
  induction fragments generalizing c s with
  | nil => exact ⟨h.mono (Nat.le_add_left _ _), passes_zero rfl rfl rfl rfl⟩
  | cons frag fragments ih =>
      rw [List.forall_mem_cons] at hfragments
      obtain ⟨ch, found⟩ := Option.isSome_iff_exists.mp hchannel
      have hmore : c.Ample (fragments.length + m + 1) := by
        rwa [List.length_cons, Nat.add_right_comm] at h
      obtain ⟨c', s', result, hsend, hample, hhands⟩ :=
        sendPacket_handsOver hmore found s flagFragment hfragments.1 now
      simp only [sendFragments, found, hsend]
      cases result with
      | error e =>
          exact ⟨hample.mono (Nat.le_add_left _ _), HandsOver.passes hhands _⟩
      | ok u =>
          have hchannel' : (c'.channel id).isSome := by
            have hmode := c'.map_mode_channel id
            rw [hhands.modes_eq, ← map_mode_channel, found] at hmode
            exact Option.isSome_map.symm.trans (by rw [hmode]; rfl)
          obtain ⟨hrest, hpasses⟩ := ih hample hchannel' hfragments.2 s'
          exact ⟨hrest, HandsOver.passes_succ hhands hpasses⟩

/-- One message. -/
theorem sendMessage_passes {m : ℕ} (msg : OutgoingMessage) (h : c.Ample (c.packetCount msg + m))
    (s : Socket) (now : ℤ) :
    (c.sendMessage s msg.data msg.channel now).1.Ample m ∧
      Passes msg.channel (c.packetCount msg) c s
        (c.sendMessage s msg.data msg.channel now).1
        (c.sendMessage s msg.data msg.channel now).2.1 := by
  rcases c.sendMessage_cases s msg.data msg.channel now with
    ⟨hcount, c', e, hsend, hsame⟩ | ⟨ch, payload, found, hcount, hshort, hsend⟩ |
    ⟨fragments, hchannel, hcount, hfragments, hsend⟩
  · have hcount' : c.packetCount msg = 0 := hcount
    rw [hcount'] at h ⊢
    rw [Nat.zero_add] at h
    rw [hsend]
    rcases hsame with rfl | rfl
    · exact ⟨h, passes_zero rfl rfl rfl rfl⟩
    · exact ⟨h, passes_zero rfl rfl rfl rfl⟩
  · have hcount' : c.packetCount msg = 1 := hcount
    rw [hcount'] at h ⊢
    rw [Nat.add_comm] at h
    rw [hsend, sendSinglePacket]
    obtain ⟨c', s', result, hpacket, hample, hhands⟩ :=
      sendPacket_handsOver h found s 0 (hshort.trans (Nat.le_add_left _ _)) now
    rw [hpacket]
    cases result with
    | error e => exact ⟨hample, HandsOver.passes hhands 0⟩
    | ok u => exact ⟨hample, HandsOver.passes_succ hhands (passes_zero rfl rfl rfl rfl)⟩
  · have hcount' : c.packetCount msg = fragments.length := hcount
    rw [hcount'] at h ⊢
    rw [hsend]
    obtain ⟨hample, hpasses⟩ :=
      sendFragments_passes (c := c.nextFragmentID.1) h hchannel hfragments s now
    exact ⟨hample, hpasses.outlet_eq, hpasses.cc_eq, hpasses.logged, hpasses.inFlight_eq⟩

end

/-! ## The drain -/

/-- Of every message, the packets that are handed over and taken on a reliable channel. -/
def reliableShares (c : Connection) (s : Socket) (msgs : List OutgoingMessage) : List Share :=
  List.zipWith (fun msg share => if c.reliableOn msg.channel then share else ⟨0, 0⟩) msgs
    ((c.outlet s).shares (msgs.map c.packetCount))

/-- If no write fails, the shares are the packet counts. -/
theorem reliableShares_of_quiet (c : Connection) {s : Socket}
    (hquiet : ∀ failure ∈ s.failures, failure = false) (msgs : List OutgoingMessage) :
    c.reliableShares s msgs = msgs.map fun msg =>
      if c.reliableOn msg.channel then ⟨c.packetCount msg, c.packetCount msg⟩ else ⟨0, 0⟩ := by
  rw [reliableShares, Outlet.shares_of_quiet _ hquiet, List.map_map, List.zipWith_map_right,
    List.zipWith_self]
  rfl

def transmittedSince (c c' : Connection) : List Transmission :=
  c'.transmissions.drop c.transmissions.length

theorem transmittedSince_of_append {c c' : Connection} {new : List Transmission}
    (h : c'.transmissions = c.transmissions ++ new) : transmittedSince c c' = new := by
  rw [transmittedSince, h, List.drop_left]

def carriesReliable (c : Connection) (raw : Bytes) : Bool :=
  match unmarshalHeader raw with
  | .ok (hdr, _) => c.reliableOn hdr.channel
  | .error _ => false

theorem CarriedOn.carriesReliable {id : UInt8} {raw : Bytes} (h : CarriedOn id raw)
    (c : Connection) : c.carriesReliable raw = c.reliableOn id := by
  obtain ⟨hdr, n, hheader, rfl⟩ := h
  simp only [Connection.carriesReliable, hheader]

theorem canSend_conservative {cc : Congestion} {cwnd : ℚ} (hcc : cc = .conservative cwnd) (n : ℤ) :
    cc.canSend n = true ↔ n < cc.window := by
  rw [hcc, Congestion.canSend, Congestion.window, decide_eq_true_eq]

section

variable {c c' : Connection} {s s' : Socket} {id : UInt8} {n : ℕ}

/-- The share of a message, if its channel is reliable. -/
def reliableShare (c : Connection) (s : Socket) (id : UInt8) (n : ℕ) : Share :=
  if c.reliableOn id then ((c.outlet s).putAll n).2 else ⟨0, 0⟩

theorem reliableShares_cons (h : Passes id n c s c' s') {msg : OutgoingMessage}
    (hid : msg.channel = id) (hn : c.packetCount msg = n)
    (hcompress : c'.compress = c.compress) (hmodes : c'.modes = c.modes)
    (msgs : List OutgoingMessage) :
    c.reliableShares s (msg :: msgs) = c.reliableShare s id n :: c'.reliableShares s' msgs := by
  have hcounts : msgs.map c'.packetCount = msgs.map c.packetCount :=
    List.map_congr_left fun msg _ => packetCount_congr hcompress hmodes msg
  have hreliable : ∀ id, c'.reliableOn id = c.reliableOn id := fun id => by
    rw [reliableOn, hmodes, ← reliableOn]
  simp only [reliableShares, reliableShare, List.map_cons, Outlet.shares, List.zipWith_cons_cons,
    hid, hn, h.outlet_eq, hcounts, hreliable]

/-- The transmissions of a message that passed the gate stay below the window exactly if
all of them fit. -/
theorem Passes.below_iff (h : Passes id n c s c' s') {window : ℤ}
    (hgate : c.inFlightCount < window) :
    ∃ new, c'.transmissions = c.transmissions ++ new ∧
      ((∀ t ∈ new, c.carriesReliable t.raw = true → t.inFlight < window) ↔
        c.inFlightCount + (c.reliableShare s id n).handed ≤ window) := by
  obtain ⟨new, hlog, hcarried, hcounts⟩ := h.logged
  refine ⟨new, hlog, ?_⟩
  rw [reliableShare]
  cases hreliable : c.reliableOn id with
  | false =>
      simp only [Bool.false_eq_true, if_false, Nat.cast_zero, add_zero]
      refine iff_of_true (fun t ht hrel => ?_) hgate.le
      rw [(hcarried t ht).carriesReliable, hreliable] at hrel
      cases hrel
  | true =>
      have hall : (∀ t ∈ new, c.carriesReliable t.raw = true → t.inFlight < window) ↔
          ∀ x ∈ new.map Transmission.inFlight, x < window := by
        rw [List.forall_mem_map]
        refine forall₂_congr fun t ht => ?_
        rw [(hcarried t ht).carriesReliable, hreliable]
        simp
      rw [hall, hcounts hreliable]
      simp only [List.mem_map, List.mem_range, forall_exists_index, and_imp,
        forall_apply_eq_imp_iff₂, if_true]
      constructor
      · intro h
        by_contra hover
        have hlast := h (((c.outlet s).putAll n).2.handed - 1) (by omega)
        omega
      · intro hfits i hi
        omega

theorem Passes.inFlight_le (h : Passes id n c s c' s') :
    c'.inFlightCount = c.inFlightCount + (c.reliableShare s id n).taken ∧
      (c.reliableShare s id n).taken ≤ (c.reliableShare s id n).handed := by
  rw [h.inFlight_eq, reliableShare]
  cases c.reliableOn id with
  | false => simp
  | true => exact ⟨by simp, (c.outlet s).taken_le_handed n⟩

end

/-- The drain, with the log it has written. -/
theorem drainQueue_window (c : Connection) {cwnd : ℚ} (hcc : c.cc = .conservative cwnd)
    (s : Socket) (now : ℤ) (msgs : List OutgoingMessage)
    (hample : c.Ample (msgs.map c.packetCount).sum) :
    ∃ new, (drainQueue now c s msgs).1.transmissions = c.transmissions ++ new ∧
      (((∀ t ∈ new, c.carriesReliable t.raw = true → t.inFlight < c.cc.window) ∧
          (drainQueue now c s msgs).1.inFlightCount ≤ max c.inFlightCount c.cc.window) ↔
        FitWindow c.cc.window c.inFlightCount (c.reliableShares s msgs)) := by
  induction msgs generalizing c s with
  | nil =>
      refine ⟨[], by simp [drainQueue], ?_⟩
      simp [drainQueue, reliableShares, FitWindow]
  | cons msg msgs ih =>
      cases hgate : c.cc.canSend c.inFlightCount with
      | false =>
          have hfull : c.cc.window ≤ c.inFlightCount := by
            rw [← not_lt, ← canSend_conservative hcc, hgate]
            simp
          refine ⟨[], by rw [drainQueue_of_full c s now hgate, List.append_nil], ?_⟩
          rw [drainQueue_of_full c s now hgate]
          refine iff_of_true ⟨by simp, le_max_left _ _⟩ (fitWindow_of_full hfull _)
      | true =>
          have hbelow := (canSend_conservative hcc _).mp hgate
          obtain ⟨hample', hpasses⟩ := sendMessage_passes msg hample s now
          obtain ⟨hcompress, hmodes⟩ := c.sendMessage_plan s msg.data msg.channel now
          obtain ⟨first, hlog, hfirst⟩ := hpasses.below_iff hbelow
          obtain ⟨hcount, hle⟩ := hpasses.inFlight_le
          have hshares := reliableShares_cons hpasses rfl rfl hcompress hmodes msgs
          rw [drainQueue_of_room c s now hgate, hshares, fitWindow_cons]
          generalize c.reliableShare s msg.channel (c.packetCount msg) = share at *
          generalize (c.sendMessage s msg.data msg.channel now).1 = c₁ at *
          generalize (c.sendMessage s msg.data msg.channel now).2.1 = s₁ at *
          have hcounts : msgs.map c₁.packetCount = msgs.map c.packetCount :=
            List.map_congr_left fun msg _ => packetCount_congr hcompress hmodes msg
          obtain ⟨rest, hlog', hrest⟩ := ih c₁ (hpasses.cc_eq.trans hcc) s₁ (by rwa [hcounts])
          have hreliable : ∀ raw, c₁.carriesReliable raw = c.carriesReliable raw := by
            intro raw
            simp only [carriesReliable, reliableOn, hmodes]
          refine ⟨first ++ rest, by rw [hlog', hlog, List.append_assoc], ?_⟩
          rw [List.forall_mem_append, hfirst]
          simp only [hreliable, hpasses.cc_eq, hcount] at hrest
          constructor
          · rintro ⟨⟨hfits, hlater⟩, hfinal⟩
            refine ⟨fun _ => hfits, hrest.mp ⟨hlater, ?_⟩⟩
            omega
          · rintro ⟨hfits, hlater⟩
            obtain ⟨hall, hfinal⟩ := hrest.mpr hlater
            have := hfits hbelow
            refine ⟨⟨this, hall⟩, ?_⟩
            omega

/-- **The window, packet by packet.** In the conservative mode every first transmission of
a reliable packet in a drain happens below the window, and no more than the window is in
flight afterwards unless it was before, exactly if every message that finds room in the
window fits into it with all its packets. How many packets are in flight when the turn of
a message comes is counted from the packets in flight before the drain and from the
packet counts of the messages in front of it; a failed write ends its message. -/
theorem window_respected_iff (c : Connection) {cwnd : ℚ} (hcc : c.cc = .conservative cwnd)
    (s : Socket) (now : ℤ) (msgs : List OutgoingMessage)
    (hample : c.Ample (msgs.map c.packetCount).sum) :
    let drained := (drainQueue now c s msgs).1
    ((∀ t ∈ transmittedSince c drained, c.carriesReliable t.raw = true →
        t.inFlight < c.cc.window) ∧
      drained.inFlightCount ≤ max c.inFlightCount c.cc.window) ↔
      FitWindow c.cc.window c.inFlightCount (c.reliableShares s msgs) := by
  obtain ⟨new, hlog, hiff⟩ := drainQueue_window c hcc s now msgs hample
  dsimp only
  rw [transmittedSince_of_append hlog]
  exact hiff

/-- With a window of four packets, a message of two packets and one of one packet. -/
theorem window_respected_iff_three :
    let msgs : List OutgoingMessage := [⟨List.replicate 1500 7, 0⟩, ⟨[2], 0⟩]
    let drained := (drainQueue 0 (plainWindow 4) ⟨[], []⟩ msgs).1
    (transmittedSince (plainWindow 4) drained).length = 3 ∧
      (∀ t ∈ transmittedSince (plainWindow 4) drained,
        (plainWindow 4).carriesReliable t.raw = true → t.inFlight < 4) ∧
      drained.inFlightCount ≤ 4 := by
  intro msgs drained
  have hcc : (plainWindow 4).cc = .conservative 4 := rfl
  have hwindow : (plainWindow 4).cc.window = 4 := by decide
  have hcount : (plainWindow 4).inFlightCount = 0 := by decide
  have hample : (plainWindow 4).Ample (msgs.map (plainWindow 4).packetCount).sum := by
    decide +kernel
  have h := (window_respected_iff (plainWindow 4) hcc ⟨[], []⟩ 0 msgs hample).mpr
    (by rw [hwindow, hcount]; decide +kernel)
  rw [hwindow, hcount] at h
  exact ⟨by decide +kernel, h⟩

/-- A message of five fragments goes out at once: the fifth one with four packets in
flight already. -/
theorem window_exceeded :
    let drained := (drainQueue 0 (plainWindow 4) ⟨[], []⟩ [⟨List.replicate 4621 7, 0⟩]).1
    (plainWindow 4).cc.window = 4 ∧
      (transmittedSince (plainWindow 4) drained).map Transmission.inFlight = [0, 1, 2, 3, 4] ∧
      drained.inFlightCount = 5 := by
  decide +kernel

end Connection

end Fastwire
