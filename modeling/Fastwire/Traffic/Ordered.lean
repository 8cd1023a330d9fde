/-
# Messages come out of an ordered channel in the order of sending

A message comes out of reassembly at the slot of the packet that completes it; its other
slots are placeholders. So a slot with a payload tells which message it belongs to, and
no message has two of them. If the sends on the channel take turns, the slots are in the
order of the messages, and the channel reads them in order.

Two things have to be assumed. A fragment must not meet a live buffer of another message
under its identifier: identifiers come round again after 2^16 messages, and the messages
of all channels share them. And no placeholder may be shown to the application, which
the channel does when it finds one in its buffer.
-/

import Fastwire.Endpoint.Order
import Fastwire.Traffic.Turns

namespace Fastwire

open Lib

theorem Letter.Complete.length_le {m : Letter} {e : Endpoint} (h : m.Complete e) :
    m.bodies.length ≤ m.seqs.length := by
  refine length_le_of_numbered fun k hk => ?_
  obtain ⟨seq, hseq, -⟩ := h k hk
  exact ⟨seq, hseq⟩

/-- A placeholder is not passed on. -/
theorem Connection.reassemble_some {c : Connection} {now : ℤ} {hdr : PacketHeader} {body : Bytes}
    {bytes : Bytes} {emit : Bool} (h : (c.reassemble now hdr body).2 = .ok (some bytes, emit)) :
    emit = true := by
  grind [reassemble]

namespace Traffic

variable {s s' : Traffic} {id : UInt8} {letters letters' : List Letter} {e e' : Endpoint}
  {hist : List (Traffic × TrafficMove)}

/-! ## Conditions -/

/-- A fragment that the receiver accepts finds no live buffer of another message under
its identifier: what is there are accepted fragments of its own message. -/
def OwnBuffer (s : Traffic) (move : TrafficMove) : Prop :=
  ∀ now data hdr body ch m (k : ℕ), move = .act .right (.packet now data) →
    s.pair.right.conn.acceptedPacket data = some (hdr, body, ch) → m ∈ s.letters →
    m.channel = hdr.channel → m.seqs[k]? = some hdr.sequence.toNat → m.bodies[k]? = some body →
    m.Owns (m.Accepted s.pair.right) now s.pair.right

/-- The receiver does not show a placeholder to the application. -/
def HidesPlaceholders (id : UInt8) (s : Traffic) (move : TrafficMove) : Prop :=
  ∀ a, move = .act .right a → ¬ s.pair.right.ShowsPlaceholder id a

/-- As long as no identifier has come round again, buffers do not meet. -/
theorem ownBuffer_of_few (hrun : system.Run hist s) (hfew : System.Always Few hist s) :
    System.Guarded OwnBuffer hist := by
  induction hrun with
  | start starts => exact System.guarded_nil _
  | @step hist s s' move prior taken ih =>
      rw [System.always_cons] at hfew
      rw [System.guarded_cons]
      refine ⟨?_, ih hfew.2⟩
      intro now data hdr body ch m k _ _ hm _ _ _
      exact (receiver_of_run prior hfew.2).stored.owns (apart_of_run prior hfew.2) hm now

/-! ## Slots and messages -/

/-- A slot with a payload belongs to a message that is complete, and it is the only such
slot of this message. -/
def Slotted (id : UInt8) (letters : List Letter) (e : Endpoint) : Prop :=
  ∀ seq bytes, messageAt e.trace id seq = some bytes →
    ∃ m ∈ letters, m.channel = id ∧ seq ∈ m.seqs ∧ m.data = bytes ∧ m.Complete e ∧
      ∀ n ∈ m.seqs, (messageAt e.trace id n).isSome → n = seq

/-- Complete messages do not change when the list grows. -/
theorem Slotted.grown (h : Slotted id letters e) (hgrown : Grown Letter.Later letters letters')
    (hfits : ∀ m ∈ letters', m.Fits) : Slotted id letters' e := by
  intro seq bytes hbytes
  obtain ⟨m, hm, hch, hseq, hdata, hcomplete, honce⟩ := h seq bytes hbytes
  obtain ⟨m', hm', hlater⟩ := hgrown.exists_mem hm
  obtain rfl : m' = m := hlater.eq_of_full hcomplete.length_le (hfits m' hm')
  exact ⟨m', hm', hch, hseq, hdata, hcomplete, honce⟩

/-- No slot of the channel is filled. -/
theorem Slotted.mono (h : Slotted id letters e)
    (hmore : ∀ id, acceptedOn e.trace id ⊆ acceptedOn e'.trace id)
    (hsame : ∀ seq, payloadAt e'.trace id seq = payloadAt e.trace id seq) :
    Slotted id letters e' := by
  intro seq bytes hbytes
  simp only [messageAt, hsame] at hbytes ⊢
  obtain ⟨m, hm, hch, hseq, hdata, hcomplete, honce⟩ := h seq bytes hbytes
  exact ⟨m, hm, hch, hseq, hdata, fun k hk => (hcomplete k hk).mono hmore, honce⟩

/-- An accepted packet of a message of the channel. -/
theorem Slotted.accepting {now : ℤ} {hdr : PacketHeader} {body : Bytes} {ch ch' : Channel}
    {acks events : List Event} {ps : List PendingPacket} {n : ℤ} {m : Letter} {k : ℕ}
    (h : Slotted hdr.channel letters e) (hturns : Turns hdr.channel letters) (hsound : e.Sound)
    (hacc : e.conn.Accepting now hdr body ch acks ps n e'.conn ch' events)
    (htrace : e'.trace = e.trace ++ events) (hm : m ∈ letters) (hchannel : m.channel = hdr.channel)
    (hseq : m.seqs[k]? = some hdr.sequence.toNat) (hbody : m.bodies[k]? = some body)
    (hflag : hdr.flags &&& flagFragment = 0 ↔ m.fragmentID = none)
    (hformed : m.Formed e.conn.compress) (hown : m.Owns (m.Accepted e) now e) :
    Slotted hdr.channel letters e' := by
  have hmore := acceptedOn_mono htrace
  cases hres : (e.conn.reassemble now hdr body).2 with
  | error err =>
      refine h.mono hmore fun seq => ?_
      rw [htrace, payloadAt_append, hacc.payloadAt_error hres, Option.or_none]
  | ok result =>
      obtain ⟨payload, emit⟩ := result
      have hread : ∀ seq, messageAt e'.trace hdr.channel seq =
          if seq = hdr.sequence.toNat then payload else messageAt e.trace hdr.channel seq := by
        intro seq
        rw [messageAt, htrace,
          (hsound hdr.channel ch hacc.channel_eq).payloadAt_accepting hacc hres]
        split <;> rfl
      have hnew := not_accepted_accepting hacc hchannel hseq hsound
      have hlt : k < m.bodies.length := (List.getElem?_eq_some_iff.mp hbody).1
      -- the messages of the filled slots are complete, and this one is not
      have hother : ∀ m₀ ∈ letters, m₀.channel = hdr.channel → m₀.Complete e →
          hdr.sequence.toNat ∉ m₀.seqs := by
        intro m₀ hm₀ hch₀ hcomplete hmem
        obtain rfl : m₀ = m := hturns.eq_of_number hm₀ hm ⟨hch₀, hmem⟩
          ⟨hchannel, List.mem_of_getElem? hseq⟩
        exact hnew (hcomplete k hlt)
      intro seq bytes hbytes
      rw [hread] at hbytes
      split at hbytes
      · rename_i hhere
        subst hhere hbytes
        obtain rfl := Connection.reassemble_some hres
        obtain ⟨rfl, hothers⟩ := (reassemble_owned hown hformed hbody hflag hnew).2 bytes hres
        refine ⟨m, hm, hchannel, List.mem_of_getElem? hseq, rfl, fun j hj => ?_,
          fun n hn hsome => ?_⟩
        · exact accepted_accepting hacc htrace hchannel hseq j (hothers j hj)
        · by_contra hne
          rw [hread, if_neg hne] at hsome
          obtain ⟨old, hold⟩ := Option.isSome_iff_exists.mp hsome
          obtain ⟨m₀, hm₀, hch₀, hn₀, -, hcomplete, -⟩ := h n old hold
          obtain rfl : m₀ = m := hturns.eq_of_number hm₀ hm ⟨hch₀, hn₀⟩ ⟨hchannel, hn⟩
          exact hnew (hcomplete k hlt)
      · obtain ⟨m₀, hm₀, hch₀, hseq₀, hdata, hcomplete, honce⟩ := h seq bytes hbytes
        refine ⟨m₀, hm₀, hch₀, hseq₀, hdata, fun j hj => (hcomplete j hj).mono hmore,
          fun n hn hsome => ?_⟩
        have hne : n ≠ hdr.sequence.toNat := by
          rintro rfl
          exact hother m₀ hm₀ hch₀ hcomplete hn
        rw [hread, if_neg hne] at hsome
        exact honce n hn hsome

/-! ## Every run -/

theorem slotted_of_run (hrun : system.Run hist s) (hturn : System.Guarded (InTurn id) hist)
    (hown : System.Guarded OwnBuffer hist) : Slotted id s.letters s.pair.right := by
  induction hrun with
  | @start s starts =>
      obtain ⟨input, now, heq, -⟩ := starts.1 .right
      have hright : s.pair.right = Endpoint.start input now := heq
      rw [hright]
      intro seq bytes hbytes
      cases hbytes
  | @step hist s s' move prior taken ih =>
      rw [System.guarded_cons] at hturn hown
      have h := ih hturn.2 hown.2
      have hs := sender_of_run prior
      have hstep := steps_of_step taken
      have hfits := (hs.step hstep).fits
      cases hstep with
      | single id data => exact h.grown (.concat Letter.Later.refl _ _) hfits
      | rejected id data => exact h
      | split id data payload flags bodies hcompress hsplit =>
          exact h.grown (.concat Letter.Later.refl _ _) hfits
      | build i seq m body e' hm hbody hstep =>
          exact h.grown (.set Letter.Later.refl hm (m.later_build seq)) hfits
      | left a e' hmay hauth hstep => exact h
      | right a e' hauth hstep =>
          show Slotted id s.letters e'
          rcases Endpoint.step_cases hstep with hidle | ⟨now, data, hdr, body, ch, acks, ps, n, ch',
            events, rfl, hpacket, hacc, heq⟩
          · refine h.mono (fun id => ?_) (hidle.payloadAt_eq id)
            rw [hidle.acceptedOn_eq id]
          have htrace : e'.trace = s.pair.right.trace ++ events := by rw [heq]
          by_cases hid : id = hdr.channel
          · subst hid
            obtain ⟨m, hm, hchannel, k, hseq, hbody, hflag⟩ := hs.packet hauth hpacket
            exact h.accepting (turns_of_run prior hturn.2) (sound_of_run prior) hacc htrace hm
              hchannel hseq hbody hflag (hs.formed m hm)
              (hown.1 now data hdr body ch m k rfl hpacket hm hchannel hseq hbody)
          · refine h.mono (acceptedOn_mono htrace) fun seq => ?_
            rw [htrace, Endpoint.payloadAt_other hacc hid]

theorem inOrder_of_run (hrun : system.Run hist s)
    (hhidden : System.Guarded (HidesPlaceholders id) hist) : s.pair.right.InOrder id := by
  induction hrun with
  | @start s starts =>
      obtain ⟨input, now, heq, -⟩ := starts.1 .right
      have hright : s.pair.right = Endpoint.start input now := heq
      rw [hright]
      exact Endpoint.inOrder_start input now id
  | @step hist s s' move prior taken ih =>
      rw [System.guarded_cons] at hhidden
      have h := ih hhidden.2
      cases steps_of_step taken with
      | right a e' hauth hstep =>
          exact h.step (sound_of_run prior) (hhidden.1 a rfl) hstep
      | _ => exact h

/-- **Order and no invention.** If the sends on an ordered channel take turns, no fragment
meets a buffer of another message and no placeholder is shown, the messages passed to the
application are a part of the messages sent on the channel, in the order they were sent. -/
theorem delivered_sublist_sentOn (hrun : system.Run hist s) {ch : Channel}
    (hch : s.pair.right.conn.channel id = some ch) (hmode : ch.mode = .reliableOrdered)
    (hturn : System.Guarded (InTurn id) hist) (hown : System.Guarded OwnBuffer hist)
    (hhidden : System.Guarded (HidesPlaceholders id) hist) :
    (delivered s.pair.right.trace id).Sublist (s.sentOn id) := by
  have hslotted := slotted_of_run hrun hturn hown
  refine (inOrder_of_run hrun hhidden ch hch hmode).trans ?_
  refine (turns_of_run hrun hturn).ascending.filterMap_sublist (fun seq bytes hbytes => ?_)
    List.pairwise_lt_range'
  obtain ⟨m, hm, hchannel, hseq, hdata, -, honce⟩ := hslotted seq bytes hbytes
  exact ⟨m, hm, ⟨hchannel, hseq⟩, decide_eq_true hchannel, hdata, fun n hn => honce n hn.2⟩

/-! ## Two fragmented messages -/

def orderedInput : ConnectionInput :=
  { plainInput [(.reliableOrdered, 0), (.reliableUnordered, 0)] with
    compress := .init .none 0 none runCodecs }

/-- The packet with the given fragment of a message of 1156 equal bytes. -/
def fragmentPacket (id seq fid index byte : UInt8) : Bytes :=
  [1, id, seq, 0, 0, 0, 0, 0] ++ [0, fid, index, 2, 0] ++
    List.replicate (if index = 0 then 1155 else 1) byte

/-- Two fragmented messages on the two channels and a message of one byte are sent. -/
def sendingThree : List TrafficMove :=
  [.post 0 (List.replicate 1156 7), .post 1 (List.replicate 1156 8), .post 0 [9],
    .act .left (.number 0), .build 0 1, .act .left (.number 1), .build 1 1,
    .act .left (.number 0), .build 0 2, .act .left (.number 1), .build 1 2,
    .act .left (.number 0), .build 2 3,
    .act .left (.transmit ⟨0, 1, fragmentPacket 0 1 1 0 7⟩ true),
    .act .left (.transmit ⟨0, 2, fragmentPacket 0 2 1 1 7⟩ true),
    .act .left (.transmit ⟨1, 1, fragmentPacket 1 1 2 0 8⟩ true),
    .act .left (.transmit ⟨1, 2, fragmentPacket 1 2 2 1 8⟩ true),
    .act .left (.transmit ⟨0, 3, [0, 0, 3, 0, 0, 0, 0, 0, 9]⟩ true)]

/-- The single packet comes first, the fragments of the two messages come mixed, and one
of them comes twice. -/
theorem delivered_sublist_sentOn_mixed :
    ∃ hist s ch, system.Run hist s ∧ s.pair.right.conn.channel 0 = some ch ∧
      ch.mode = .reliableOrdered ∧ System.Guarded (InTurn 0) hist ∧
      System.Guarded OwnBuffer hist ∧ System.Guarded (HidesPlaceholders 0) hist ∧
      delivered s.pair.right.trace 0 = [List.replicate 1156 7, [9]] ∧
      delivered s.pair.right.trace 1 = [List.replicate 1156 8] ∧
      (delivered s.pair.right.trace 0).Sublist (s.sentOn 0) := by
  let arriving : List TrafficMove :=
    [[0, 0, 3, 0, 0, 0, 0, 0, 9], fragmentPacket 0 1 1 0 7, fragmentPacket 1 2 2 1 8,
      fragmentPacket 0 1 1 0 7, fragmentPacket 0 2 1 1 7, fragmentPacket 1 1 2 0 8].map
        (.act .right <| .packet 0 ·)
  obtain ⟨hist, s, hrun, hfew, hturn, hclear, hmodes, hdelivered, hother⟩ :=
    System.exists_history (S := system) (fun _ _ _ hstep => hstep)
      (init_same orderedInput rfl runCodecs_lawful.faithful) (sendingThree ++ arriving)
      (fun hist s => System.Always Few hist s ∧ System.Guarded (InTurn 0) hist ∧
        System.Guarded (fun s _ => s.pair.right.buffersPlaceholder 0 = false) hist ∧
        (s.pair.right.conn.channel 0).map Channel.mode = some .reliableOrdered ∧
        delivered s.pair.right.trace 0 = [List.replicate 1156 7, [9]] ∧
        delivered s.pair.right.trace 1 = [List.replicate 1156 8])
      (by decide +kernel)
  obtain ⟨ch, hch, hmode⟩ := Option.map_eq_some_iff.mp hmodes
  have hown := ownBuffer_of_few hrun hfew
  have hhidden : System.Guarded (HidesPlaceholders 0) hist :=
    fun taken htaken a _ => Endpoint.not_showsPlaceholder (hclear taken htaken)
  exact ⟨hist, s, ch, hrun, hch, hmode, hturn, hown, hhidden, hdelivered, hother,
    delivered_sublist_sentOn hrun hch hmode hturn hown hhidden⟩

/-- The second fragment arrives first. It is buffered as a placeholder, and comes out as
an empty message behind the message itself. -/
theorem placeholder_delivered_as_empty :
    ∃ hist s ch, system.Run hist s ∧ s.pair.right.conn.channel 0 = some ch ∧
      ch.mode = .reliableOrdered ∧ System.Guarded (InTurn 0) hist ∧
      System.Guarded OwnBuffer hist ∧ s.sentOn 0 = [List.replicate 1156 7] ∧
      delivered s.pair.right.trace 0 = [List.replicate 1156 7, []] ∧
      ¬ (delivered s.pair.right.trace 0).Sublist (s.sentOn 0) := by
  let moves : List TrafficMove :=
    [.post 0 (List.replicate 1156 7), .act .left (.number 0), .build 0 1,
      .act .left (.number 0), .build 0 2,
      .act .left (.transmit ⟨0, 1, fragmentPacket 0 1 1 0 7⟩ true),
      .act .left (.transmit ⟨0, 2, fragmentPacket 0 2 1 1 7⟩ true),
      .act .right (.packet 0 (fragmentPacket 0 2 1 1 7)),
      .act .right (.packet 0 (fragmentPacket 0 1 1 0 7))]
  obtain ⟨hist, s, hrun, hfew, hturn, hmodes, hsent, hdelivered⟩ :=
    System.exists_history (S := system) (fun _ _ _ hstep => hstep)
      (init_same orderedInput rfl runCodecs_lawful.faithful) moves
      (fun hist s => System.Always Few hist s ∧ System.Guarded (InTurn 0) hist ∧
        (s.pair.right.conn.channel 0).map Channel.mode = some .reliableOrdered ∧
        s.sentOn 0 = [List.replicate 1156 7] ∧
        delivered s.pair.right.trace 0 = [List.replicate 1156 7, []])
      (by decide +kernel)
  obtain ⟨ch, hch, hmode⟩ := Option.map_eq_some_iff.mp hmodes
  refine ⟨hist, s, ch, hrun, hch, hmode, hturn, ownBuffer_of_few hrun hfew, hsent, hdelivered,
    fun hsublist => ?_⟩
  have hlength := hsublist.length_le
  rw [hsent, hdelivered] at hlength
  exact absurd hlength (by decide)

end Traffic

end Fastwire
