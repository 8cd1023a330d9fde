/-
# The order of messages on a sequenced channel

A message comes out of a sequenced channel at the number of the packet that completes
it, if no higher number was handed to `deliver` before. All its other packets have been
handed to `deliver` by then, as placeholders. So the number is the highest one of the
message, and the messages that come out are ordered by their highest numbers, whatever
the network does and however the sends are interleaved.
-/

import Fastwire.Endpoint.Sequenced
import Fastwire.Traffic.Receiver

namespace Fastwire

open Lib

namespace Letter

variable {m m' : Letter} {e e' : Endpoint} {k : ℕ}

def HandedOn (m : Letter) (e : Endpoint) (k : ℕ) : Prop :=
  ∃ seq payload, m.seqs[k]? = some seq ∧ payloadAt e.trace m.channel seq = some payload

/-- The other message has a packet that is numbered after all packets of this one. -/
def Before (m m' : Letter) : Prop := ∃ last ∈ m'.seqs, ∀ seq ∈ m.seqs, seq < last

theorem HandedOn.later (h : m.HandedOn e k) (hlater : m.Later m') : m'.HandedOn e k := by
  obtain ⟨seq, payload, hseq, hpay⟩ := h
  have hseq' := hlater.getElem?_seqs hseq
  obtain ⟨more, rfl⟩ := hlater
  exact ⟨seq, payload, hseq', hpay⟩

theorem HandedOn.mono {events : List Event} (h : m.HandedOn e k)
    (htrace : e'.trace = e.trace ++ events) : m.HandedOn e' k := by
  obtain ⟨seq, payload, hseq, hpay⟩ := h
  refine ⟨seq, payload, hseq, ?_⟩
  rw [htrace, payloadAt_append, hpay, Option.some_or]

/-- What is handed on was accepted. -/
theorem HandedOn.accepted {ch : Channel} (h : m.HandedOn e k)
    (hinv : ReceiveInv e.trace m.channel ch) : m.Accepted e k := by
  obtain ⟨seq, payload, hseq, hpay⟩ := h
  exact ⟨seq, hseq, hinv.handed_accepted seq payload hpay⟩

end Letter

namespace Traffic

variable {letters letters' : List Letter} {e e' : Endpoint} {s s' : Traffic} {id : UInt8}

/-- What the application got on a channel: messages sent on it, in the order of their
last packets. All their packets have been handed to `deliver`. -/
def InSequence (letters : List Letter) (e : Endpoint) (id : UInt8) : Prop :=
  ∃ places : List ℕ, delivered e.trace id = (picks letters places).map Letter.data ∧
    places.Pairwise (fun i j => ∀ m m', letters[i]? = some m → letters[j]? = some m' →
      m.Before m') ∧
    ∀ i ∈ places, ∃ m, letters[i]? = some m ∧ m.channel = id ∧
      ∀ k < m.bodies.length, m.HandedOn e k

/-- Messages that came out do not change when the list grows. -/
theorem InSequence.grown (h : InSequence letters e id)
    (hgrown : Grown Letter.Later letters letters') (hfits : ∀ m ∈ letters', m.Fits) :
    InSequence letters' e id := by
  obtain ⟨places, hdelivered, hordered, hplaces⟩ := h
  have hsame : ∀ i ∈ places, letters'[i]? = letters[i]? := by
    intro i hi
    obtain ⟨m, hm, -, hhanded⟩ := hplaces i hi
    obtain ⟨m', hm', hlater⟩ := hgrown i m hm
    have hfull : m.bodies.length ≤ m.seqs.length := Letter.length_le_of_numbered fun k hk =>
      let ⟨seq, _, hseq, _⟩ := hhanded k hk
      ⟨seq, hseq⟩
    rw [hm', hm, hlater.eq_of_full hfull (hfits m' (List.mem_of_getElem? hm'))]
  refine ⟨places, ?_, ?_, fun i hi => ?_⟩
  · rw [hdelivered, picks, picks, List.filterMap_congr hsame]
  · refine hordered.imp_of_mem fun {i j} hi hj hbefore m m' hm hm' => ?_
    rw [hsame i hi] at hm
    rw [hsame j hj] at hm'
    exact hbefore m m' hm hm'
  · rw [hsame i hi]
    exact hplaces i hi

/-- Nothing comes out. -/
theorem InSequence.mono {events : List Event} (h : InSequence letters e id)
    (htrace : e'.trace = e.trace ++ events)
    (hsame : delivered e'.trace id = delivered e.trace id) : InSequence letters e' id := by
  obtain ⟨places, hdelivered, hordered, hplaces⟩ := h
  refine ⟨places, hsame.trans hdelivered, hordered, fun i hi => ?_⟩
  obtain ⟨m, hm, hch, hhanded⟩ := hplaces i hi
  exact ⟨m, hm, hch, fun k hk => (hhanded k hk).mono htrace⟩

/-- A message comes out at a number above all that was handed on before. -/
theorem InSequence.concat {events : List Event} {ch : Channel} {m : Letter} {seq : ℕ}
    (h : InSequence letters e id) (hfits : ∀ m ∈ letters, m.Fits)
    (hlatest : Endpoint.Latest e.trace id ch) (hnew : ch.lastRecvSeq < seq)
    (htrace : e'.trace = e.trace ++ events) (hm : m ∈ letters) (hch : m.channel = id)
    (hseq : seq ∈ m.seqs) (hhanded : ∀ k < m.bodies.length, m.HandedOn e' k)
    (hnext : delivered e'.trace id = delivered e.trace id ++ [m.data]) :
    InSequence letters e' id := by
  obtain ⟨places, hdelivered, hordered, hplaces⟩ := h
  obtain ⟨i, hi⟩ := List.mem_iff_getElem?.mp hm
  refine ⟨places ++ [i], ?_, ?_, fun j hj => ?_⟩
  · rw [hnext, hdelivered, picks_concat hi, List.map_append]
    rfl
  · rw [List.pairwise_append]
    refine ⟨hordered, List.pairwise_singleton _ _, fun j hj i' hi' m₀ m' hm₀ hm' => ?_⟩
    obtain rfl := List.mem_singleton.mp hi'
    obtain rfl : m = m' := Option.some.inj (hi.symm.trans hm')
    obtain ⟨m₁, hm₁, hch₁, hhanded₁⟩ := hplaces j hj
    obtain rfl : m₁ = m₀ := Option.some.inj (hm₁.symm.trans hm₀)
    refine ⟨seq, hseq, fun old hold => ?_⟩
    -- the numbers of the earlier message have been handed on
    obtain ⟨k, hk, hindex⟩ := (hfits m₁ (List.mem_of_getElem? hm₁)).exists_index hold
    obtain ⟨old', payload, hindex', hpay⟩ := hhanded₁ k hk
    obtain rfl : old = old' := Option.some.inj (hindex.symm.trans hindex')
    rw [hch₁] at hpay
    exact (hlatest.handed_le old payload hpay).trans_lt hnew
  · rcases List.mem_append.mp hj with hold | hlast
    · obtain ⟨m', hm', hch', hhanded'⟩ := hplaces j hold
      exact ⟨m', hm', hch', fun k hk => (hhanded' k hk).mono htrace⟩
    · rw [List.mem_singleton.mp hlast]
      exact ⟨m, hi, hch, hhanded⟩

/-- What holds on the receiver's side of sequenced channels. -/
structure Sequencing (letters : List Letter) (e : Endpoint) : Prop where
  stored : StoredAs (fun m k => m.HandedOn e k) letters e
  ordered : ∀ id ch, e.conn.channel id = some ch → ch.mode = .unreliableSequenced →
    InSequence letters e id

theorem Sequencing.grown (h : Sequencing letters e) (hgrown : Grown Letter.Later letters letters')
    (hfits : ∀ m ∈ letters', m.Fits) : Sequencing letters' e where
  stored := h.stored.grown hgrown fun _ _ _ hlater hhanded => hhanded.later hlater
  ordered id ch hch hmode := (h.ordered id ch hch hmode).grown hgrown hfits

/-- Acts that accept nothing. -/
theorem Sequencing.idle (h : Sequencing letters e) {a : Act} (hidle : e.Idle a e') :
    Sequencing letters e' := by
  obtain ⟨events, htrace, -⟩ := hidle.trace
  refine ⟨h.stored.idle hidle fun _ _ hhanded => hhanded.mono htrace,
    fun id ch' hch' hmode => ?_⟩
  obtain ⟨ch, hch, hsame⟩ := hidle.exists_channel hch'
  exact (h.ordered id ch hch (hsame.mode_eq ▸ hmode)).mono htrace (hidle.delivered_eq id)

/-! ## An accepted packet -/

section Accepting

variable {now : ℤ} {hdr : PacketHeader} {body : Bytes} {ch ch' : Channel}
  {acks events : List Event} {ps : List PendingPacket} {n : ℤ} {m : Letter} {k : ℕ}
  (hacc : e.conn.Accepting now hdr body ch acks ps n e'.conn ch' events)
  (htrace : e'.trace = e.trace ++ events) (hchannel : m.channel = hdr.channel)
  (hseq : m.seqs[k]? = some hdr.sequence.toNat) (hsound : e.Sound)

include hacc htrace hchannel hseq hsound

/-- A packet for which reassembly succeeds is handed on, along with those before. -/
theorem handedOn_accepting {result : Slice × Bool}
    (hres : (e.conn.reassemble now hdr body).2 = .ok result) (j : ℕ)
    (hj : j = k ∨ m.HandedOn e j) : m.HandedOn e' j := by
  rcases hj with rfl | hold
  · refine ⟨hdr.sequence.toNat, result.1, hseq, ?_⟩
    have hinv := hsound hdr.channel ch hacc.channel_eq
    rw [htrace, hchannel, hinv.payloadAt_accepting hacc hres, if_pos rfl]
  · exact hold.mono htrace

omit htrace in
/-- The packet has not been handed on before. -/
theorem not_handedOn_accepting : ¬ m.HandedOn e k := by
  intro hhanded
  have hinv : ReceiveInv e.trace m.channel ch := hchannel ▸ hsound hdr.channel ch hacc.channel_eq
  exact not_accepted_accepting hacc hchannel hseq hsound (hhanded.accepted hinv)

variable (h : Sequencing letters e) (hapart : Apart Letter.identifiers letters) (hm : m ∈ letters)
  (hformed : m.Formed e.conn.compress) (hbody : m.bodies[k]? = some body)
  (hflag : hdr.flags &&& flagFragment = 0 ↔ m.fragmentID = none)

include h hapart hm hformed hbody hflag

/-- The store after an accepted packet of a message. -/
theorem Sequencing.stored_accepting : StoredAs (fun m k => m.HandedOn e' k) letters e' := by
  have hnew := not_handedOn_accepting hacc hchannel hseq hsound
  refine h.stored.accepting (h.stored.owns hapart hm now) hformed hbody hflag hnew hm rfl
    hacc.reassembly_eq (fun _ _ hhanded => hhanded.mono htrace) fun hres => ?_
  exact handedOn_accepting hacc htrace hchannel hseq hsound hres k (.inl rfl)

/-- The deliveries on the channel of an accepted packet of a message. -/
theorem Sequencing.ordered_accepting (hfits : ∀ m ∈ letters, m.Fits)
    (hmode : ch.mode = .unreliableSequenced)
    (hlatest : Endpoint.Latest e.trace hdr.channel ch) : InSequence letters e' hdr.channel := by
  have hordered := h.ordered hdr.channel ch hacc.channel_eq hmode
  have happend : delivered e'.trace hdr.channel =
      delivered e.trace hdr.channel ++ delivered events hdr.channel := by
    rw [htrace, delivered_append]
  cases hres : (e.conn.reassemble now hdr body).2 with
  | error err =>
      rw [hacc.delivered_error hres, List.append_nil] at happend
      exact hordered.mono htrace happend
  | ok result =>
      obtain ⟨payload, emit⟩ := result
      rw [(hacc.sequenced_ok hmode hres).2] at happend
      split at happend
      · rename_i hout
        obtain ⟨rfl, hnew⟩ := hout
        cases payload with
        | none => exact hordered.mono htrace (by simpa using happend)
        | some bytes =>
            have hfresh := not_handedOn_accepting hacc hchannel hseq hsound
            have hown := h.stored.owns hapart hm now
            obtain ⟨rfl, hothers⟩ :=
              (reassemble_owned hown hformed hbody hflag hfresh).2 bytes hres
            refine hordered.concat hfits hlatest hnew htrace hm hchannel
              (List.mem_of_getElem? hseq) (fun j hj => ?_) happend
            exact handedOn_accepting hacc htrace hchannel hseq hsound hres j (hothers j hj)
      · exact hordered.mono htrace (by simpa using happend)

end Accepting

/-! ## Every run -/

/-- The moves keep the order. -/
theorem Sequencing.step (h : Sequencing s.letters s.pair.right) (hs : s.Sender)
    (hapart : Apart Letter.identifiers s.letters) (hsound : s.pair.right.Sound)
    (hlatest : ∀ id ch, s.pair.right.conn.channel id = some ch → ch.mode = .unreliableSequenced →
      Endpoint.Latest s.pair.right.trace id ch) {move : TrafficMove} (hstep : Steps s move s') :
    Sequencing s'.letters s'.pair.right := by
  have hfits := (hs.step hstep).fits
  cases hstep with
  | single id data => exact h.grown (.concat Letter.Later.refl _ _) hfits
  | rejected id data => exact h
  | split id data payload flags bodies hcompress hsplit =>
      exact h.grown (.concat Letter.Later.refl _ _) hfits
  | build i seq m body e' hm hbody hstep =>
      exact h.grown (.set Letter.Later.refl hm (m.later_build seq)) hfits
  | left a e' hmay hauth hstep => exact h
  | right a e' hauth hstep =>
      show Sequencing s.letters e'
      rcases Endpoint.step_cases hstep with hidle | ⟨now, data, hdr, body, ch, acks, ps, n, ch',
        events, rfl, hpacket, hacc, heq⟩
      · exact h.idle hidle
      have htrace : e'.trace = s.pair.right.trace ++ events := by rw [heq]
      obtain ⟨m, hm, hchannel, k, hseq, hbody, hflag⟩ := hs.packet hauth hpacket
      have hformed := hs.formed m hm
      refine ⟨h.stored_accepting hacc htrace hchannel hseq hsound hapart hm hformed hbody hflag,
        fun id c hc hmode => ?_⟩
      by_cases hid : id = hdr.channel
      · subst hid
        obtain rfl : ch' = c := Option.some.inj (hacc.channel_eq'.symm.trans hc)
        rw [hacc.mode_eq] at hmode
        exact h.ordered_accepting hacc htrace hchannel hseq hsound hapart hm hformed hbody hflag
          hs.fits hmode (hlatest _ ch hacc.channel_eq hmode)
      · obtain ⟨⟨c₀, hc₀, hkept⟩, -, -, hdelivered⟩ := Endpoint.accepting_other hacc hid hc
        refine (h.ordered id c₀ hc₀ (hkept.mode_eq ▸ hmode)).mono htrace ?_
        rw [htrace]
        exact hdelivered

theorem sequencing_init (hinit : system.init s) : Sequencing s.letters s.pair.right := by
  obtain ⟨input, now, heq, -⟩ := hinit.1 .right
  have hright : s.pair.right = Endpoint.start input now := heq
  rw [hinit.2.1, hright]
  refine ⟨fun fid buf hbuf => ?_, fun id ch hch hmode => ⟨[], rfl, .nil, by simp⟩⟩
  cases hbuf

/-- **The order of a sequenced channel**, in every run with few identifiers. -/
theorem sequencing_of_run {hist : List (Traffic × TrafficMove)} (hrun : system.Run hist s)
    (hfew : System.Always Few hist s) : Sequencing s.letters s.pair.right := by
  induction hrun with
  | start starts => exact sequencing_init starts
  | @step hist s s' move prior taken ih =>
      rw [System.always_cons] at hfew
      obtain ⟨hist', hpair⟩ := run_pair prior
      obtain ⟨hist'', hright⟩ := Pair.run_get hpair .right
      exact (ih hfew.2).step (sender_of_run prior) (apart_of_run prior hfew.2)
        (sound_of_run prior) (fun _ _ hch hmode => Endpoint.latest_of_run hright hch hmode)
        (steps_of_step taken)

end Traffic

end Fastwire
