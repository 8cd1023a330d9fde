/-
# Messages arrive unchanged and at most once

The receiver's side of the traffic, for messages with identifiers of their own. The
reassembly store holds nothing but chunks of messages whose packets were accepted,
under the identifiers of these messages. Timeouts, caps, `cleanup` and teardown only
take chunks away. A message comes out when its last packet is accepted, and since no
packet is accepted twice, no message comes out twice.
-/

import Fastwire.Traffic.Sender
import Fastwire.Endpoint.Fragments
import Fastwire.Handshake.Compression

namespace Fastwire

open Lib

namespace Letter

variable {m m' : Letter} {e e' : Endpoint} {k : ℕ}

def Accepted (m : Letter) (e : Endpoint) (k : ℕ) : Prop :=
  ∃ seq, m.seqs[k]? = some seq ∧ seq ∈ acceptedOn e.trace m.channel

/-- All packets have been accepted. -/
def Complete (m : Letter) (e : Endpoint) : Prop := ∀ k < m.bodies.length, m.Accepted e k

theorem Accepted.later (h : m.Accepted e k) (hlater : m.Later m') : m'.Accepted e k := by
  obtain ⟨seq, hseq, hmem⟩ := h
  have hseq' := hlater.getElem?_seqs hseq
  obtain ⟨more, rfl⟩ := hlater
  exact ⟨seq, hseq', hmem⟩

theorem Accepted.mono (h : m.Accepted e k)
    (hmore : ∀ id, acceptedOn e.trace id ⊆ acceptedOn e'.trace id) : m.Accepted e' k := by
  obtain ⟨seq, hseq, hmem⟩ := h
  exact ⟨seq, hseq, hmore m.channel hmem⟩

/-- A live buffer under the identifier of the message holds chunks of this message, and
all of these are marked. -/
def Owns (m : Letter) (marked : ℕ → Prop) (now : ℤ) (e : Endpoint) : Prop :=
  ∀ fid buf, m.fragmentID = some fid → e.conn.reassembly.buffers.lookup fid = some buf →
    e.conn.reassembly.stale now buf = false →
    ∃ got, buf.Holds (chunks m.payload) m.flags got ∧ ∀ k ∈ got, marked k

theorem Owns.collects {marked : ℕ → Prop} {now : ℤ} {fid : UInt16} (h : m.Owns marked now e)
    (hfid : m.fragmentID = some fid) :
    ∃ got, (e.conn.reassembly.evictStale now fid).Collects fid (chunks m.payload) m.flags got ∧
      ∀ k ∈ got, marked k := by
  cases hlook : (e.conn.reassembly.evictStale now fid).buffers.lookup fid with
  | none => exact ⟨∅, by simp [ReassemblyStore.Collects, hlook], by simp⟩
  | some buf =>
      have hfresh := ReassemblyStore.fresh_of_evictStale hlook
      have hsame := ReassemblyStore.evictStale_eq_of_lookup hlook
      rw [hsame] at hlook ⊢
      obtain ⟨got, hholds, hgot⟩ := h fid buf hfid hlook hfresh
      exact ⟨got, by simpa [ReassemblyStore.Collects, hlook] using hholds, hgot⟩

end Letter

/-- What an act leaves in the store without accepting anything was there
before. -/
theorem Endpoint.lookup_storeAfter {e : Endpoint} {a : Act} {fid : UInt16} {buf : ReassemblyBuffer}
    (h : (e.storeAfter a).buffers.lookup fid = some buf) :
    e.conn.reassembly.buffers.lookup fid = some buf := by
  cases a with
  | cleanup now timeout =>
      simp only [storeAfter, ReassemblyStore.cleanup, Table.lookup_filter] at h
      exact (Option.filter_eq_some_iff.mp h).1
  | _ =>
      simp only [storeAfter] at h
      split at h
      · simp [ReassemblyStore.reset] at h
      · exact h

namespace Traffic

variable {letters letters' : List Letter} {e e' : Endpoint} {s s' : Traffic} {id : UInt8}

/-- The buffers in the store hold chunks of messages, and all of these are marked. -/
def StoredAs (marked : Letter → ℕ → Prop) (letters : List Letter) (e : Endpoint) : Prop :=
  ∀ fid buf, e.conn.reassembly.buffers.lookup fid = some buf →
    ∃ m ∈ letters, m.fragmentID = some fid ∧
      ∃ got, buf.Holds (chunks m.payload) m.flags got ∧ ∀ k ∈ got, marked m k

/-- The buffers in the store hold accepted chunks of messages. -/
abbrev Stored (letters : List Letter) (e : Endpoint) : Prop :=
  StoredAs (fun m k => m.Accepted e k) letters e

/-- What the application got on a channel: some of the messages sent on it, none
of them twice. The packets of these messages are used up. -/
def DeliveredOnce (letters : List Letter) (e : Endpoint) (id : UInt8) : Prop :=
  ∃ places : List ℕ, places.Nodup ∧
    delivered e.trace id = (picks letters places).map Letter.data ∧
    ∀ i ∈ places, ∃ m, letters[i]? = some m ∧ m.channel = id ∧ m.Complete e

/-- The channel exists and does not put its packets in order. -/
def Unordered (e : Endpoint) (id : UInt8) : Prop :=
  ∃ ch, e.conn.channel id = some ch ∧ ch.mode ≠ .reliableOrdered

structure Receiver (letters : List Letter) (e : Endpoint) : Prop where
  stored : Stored letters e
  once : ∀ id, Unordered e id → DeliveredOnce letters e id

section StoredAs

variable {marked marked' : Letter → ℕ → Prop}

theorem StoredAs.grown (h : StoredAs marked letters e)
    (hgrown : Grown Letter.Later letters letters')
    (hlater : ∀ m m' k, m.Later m' → marked m k → marked m' k) : StoredAs marked letters' e := by
  intro fid buf hbuf
  obtain ⟨m, hm, hfid, got, hholds, hgot⟩ := h fid buf hbuf
  obtain ⟨m', hm', hm'later⟩ := hgrown.exists_mem hm
  have hgot' : ∀ k ∈ got, marked m' k := fun k hk => hlater m m' k hm'later (hgot k hk)
  obtain ⟨more, rfl⟩ := hm'later
  exact ⟨_, hm', hfid, got, hholds, hgot'⟩

theorem StoredAs.idle (h : StoredAs marked letters e) {a : Act} (hidle : e.Idle a e')
    (hmore : ∀ m k, marked m k → marked' m k) : StoredAs marked' letters e' := by
  intro fid buf hbuf
  rw [hidle.store_eq] at hbuf
  obtain ⟨m, hm, hfid, got, hholds, hgot⟩ := h fid buf (Endpoint.lookup_storeAfter hbuf)
  exact ⟨m, hm, hfid, got, hholds, fun k hk => hmore m k (hgot k hk)⟩

end StoredAs

/-- More messages are sent and more packets are built. -/
theorem Receiver.grown (h : Receiver letters e) (hgrown : Grown Letter.Later letters letters') :
    Receiver letters' e := by
  refine ⟨h.stored.grown hgrown fun _ _ _ hlater haccepted => haccepted.later hlater,
    fun id hid => ?_⟩
  obtain ⟨places, hnodup, hdelivered, hplaces⟩ := h.once id hid
  refine ⟨places, hnodup, ?_, fun i hi => ?_⟩
  · rw [hdelivered]
    refine (hgrown.map_picks ?_ fun i hi => ?_).symm
    · rintro m m' ⟨more, rfl⟩
      rfl
    · obtain ⟨m, hm, -⟩ := hplaces i hi
      exact ⟨m, hm⟩
  · obtain ⟨m, hm, hch, hcomplete⟩ := hplaces i hi
    obtain ⟨m', hm', hlater⟩ := hgrown i m hm
    have hcomplete' : ∀ k < m.bodies.length, m'.Accepted e k :=
      fun k hk => (hcomplete k hk).later hlater
    obtain ⟨more, rfl⟩ := hlater
    exact ⟨_, hm', hch, hcomplete'⟩

/-- Deliveries stay what they are when nothing is added. -/
theorem DeliveredOnce.mono (h : DeliveredOnce letters e id)
    (hmore : ∀ id, acceptedOn e.trace id ⊆ acceptedOn e'.trace id)
    (hsame : delivered e'.trace id = delivered e.trace id) : DeliveredOnce letters e' id := by
  obtain ⟨places, hnodup, hdelivered, hplaces⟩ := h
  refine ⟨places, hnodup, hsame.trans hdelivered, fun i hi => ?_⟩
  obtain ⟨m, hm, hch, hcomplete⟩ := hplaces i hi
  exact ⟨m, hm, hch, fun k hk => (hcomplete k hk).mono hmore⟩

/-- One more message, the last packet of which has just been accepted. -/
theorem DeliveredOnce.concat (h : DeliveredOnce letters e id) {m : Letter} (hm : m ∈ letters)
    (hch : m.channel = id) (hnew : ¬ m.Complete e) (hcomplete : m.Complete e')
    (hmore : ∀ id, acceptedOn e.trace id ⊆ acceptedOn e'.trace id)
    (hnext : delivered e'.trace id = delivered e.trace id ++ [m.data]) :
    DeliveredOnce letters e' id := by
  obtain ⟨places, hnodup, hdelivered, hplaces⟩ := h
  obtain ⟨i, hi⟩ := List.mem_iff_getElem?.mp hm
  have hfresh : i ∉ places := by
    intro hmem
    obtain ⟨m', hm', -, hcomplete'⟩ := hplaces i hmem
    obtain rfl : m = m' := Option.some.inj (hi.symm.trans hm')
    exact hnew hcomplete'
  refine ⟨places ++ [i], ?_, ?_, fun j hj => ?_⟩
  · exact List.nodup_append_comm.mp (List.nodup_cons.mpr ⟨hfresh, hnodup⟩)
  · rw [hnext, hdelivered, picks_concat hi, List.map_append]
    rfl
  · rcases List.mem_append.mp hj with hold | hlast
    · obtain ⟨m', hm', hch', hcomplete'⟩ := hplaces j hold
      exact ⟨m', hm', hch', fun k hk => (hcomplete' k hk).mono hmore⟩
    · rw [List.mem_singleton.mp hlast]
      exact ⟨m, hi, hch, hcomplete⟩

/-- Acts that accept nothing. -/
theorem Receiver.idle (h : Receiver letters e) {a : Act} (hidle : e.Idle a e') :
    Receiver letters e' := by
  have hmore : ∀ id, acceptedOn e.trace id ⊆ acceptedOn e'.trace id := by
    intro id
    rw [hidle.acceptedOn_eq id]
  refine ⟨h.stored.idle hidle fun _ _ haccepted => haccepted.mono hmore, fun id hid => ?_⟩
  obtain ⟨ch', hch', hmode⟩ := hid
  obtain ⟨ch, hch, hsame⟩ := hidle.exists_channel hch'
  refine (h.once id ⟨ch, hch, ?_⟩).mono hmore (hidle.delivered_eq id)
  rw [← hsame.mode_eq]
  exact hmode

/-! ## An accepted packet -/

/-- A packet accepted by the receiver is a packet of a message. -/
theorem Sender.packet (h : s.Sender) {now : ℤ} {data : Bytes} {hdr : PacketHeader}
    {body : Bytes} {ch : Channel} (hauth : s.pair.authentic .right (.packet now data) = true)
    (hpacket : s.pair.right.conn.acceptedPacket data = some (hdr, body, ch)) :
    ∃ m ∈ s.letters, m.channel = hdr.channel ∧ ∃ k : ℕ, m.seqs[k]? = some hdr.sequence.toNat ∧
      m.bodies[k]? = some body ∧ (hdr.flags &&& flagFragment = 0 ↔ m.fragmentID = none) := by
  obtain ⟨hopen, -, hdata, -⟩ := Connection.acceptedPacket_eq_some_iff.mp hpacket
  obtain ⟨plaintext, n, hsealed, hparse, rfl⟩ := Pair.sealed_of_openPacket hauth hopen
  exact h.carried plaintext (.sealed hsealed) hdr n hparse hdata

/-- The packets of a split message have the fragment flag. -/
theorem fragment_flag {m : Letter} {fid : UInt16} {flags : UInt8}
    (hflag : flags &&& flagFragment = 0 ↔ m.fragmentID = none)
    (hfid : m.fragmentID = some fid) : flags &&& flagFragment ≠ 0 := by
  intro hzero
  rw [hflag, hfid] at hzero
  cases hzero

/-- In a list in which an identifier has one owner, the messages own their buffers. -/
theorem StoredAs.owns {marked : Letter → ℕ → Prop} (h : StoredAs marked letters e)
    (hapart : Apart Letter.identifiers letters) {m : Letter} (hm : m ∈ letters) (now : ℤ) :
    m.Owns (marked m) now e := by
  intro fid buf hfid hlook _
  obtain ⟨m', hm', hfid', hholds⟩ := h fid buf hlook
  obtain ⟨i, hi⟩ := List.mem_iff_getElem?.mp hm
  obtain ⟨j, hj⟩ := List.mem_iff_getElem?.mp hm'
  obtain rfl : i = j := hapart i j m m' hi hj fid hfid hfid'
  obtain rfl : m = m' := Option.some.inj (hi.symm.trans hj)
  exact hholds

section Packet

variable {now : ℤ} {hdr : PacketHeader} {body : Bytes} {m : Letter} {k : ℕ} {mark : ℕ → Prop}
  (hown : m.Owns mark now e) (hformed : m.Formed e.conn.compress)
  (hbody : m.bodies[k]? = some body)
  (hflag : hdr.flags &&& flagFragment = 0 ↔ m.fragmentID = none) (hnew : ¬ mark k)

include hown hformed hbody hflag hnew

/-- **A packet of a message goes through reassembly.** As long as the message has a
buffer, this holds marked chunks and the new one, and a placeholder is handed on; and
what is handed on for delivery is the message, of which all other packets have been
marked. -/
theorem reassemble_owned :
    (∀ fid buf, m.fragmentID = some fid →
        (e.conn.reassemble now hdr body).1.buffers.lookup fid = some buf →
      (e.conn.reassemble now hdr body).2 = .ok (none, false) ∧
      ∃ got, buf.Holds (chunks m.payload) m.flags got ∧ ∀ j ∈ got, j = k ∨ mark j) ∧
    ∀ bytes, (e.conn.reassemble now hdr body).2 = .ok (some bytes, true) →
      bytes = m.data ∧ ∀ j < m.bodies.length, j = k ∨ mark j := by
  cases hfid : m.fragmentID with
  | none =>
      have hsingle := hformed.single hfid
      have hwhole : e.conn.reassemble now hdr body =
          (e.conn.reassembly, .ok (some body, true)) := by
        rw [Connection.reassemble, if_pos (hflag.mpr hfid)]
      obtain ⟨hlt, hget⟩ := List.getElem?_eq_some_iff.mp hbody
      refine ⟨by simp, fun bytes hbytes => ?_⟩
      rw [hwhole] at hbytes
      simp only [Except.ok.injEq, Prod.mk.injEq, Option.some.injEq, and_true] at hbytes
      simp only [hsingle, List.length_singleton, Nat.lt_one_iff] at hlt
      subst hlt
      refine ⟨?_, fun j hj => .inl ?_⟩
      · rw [← hbytes]
        simpa [hsingle] using hbody.symm
      · simpa [hsingle] using hj
  | some fid =>
      have hfragment := fragment_flag hflag hfid
      have hsplit := hformed.split fid hfid
      obtain ⟨hparse, hchunk⟩ := splitMessage_fragment hsplit hbody
      obtain ⟨hlength, hmax, -⟩ := splitMessage_ok hsplit
      obtain ⟨got, hcollects, hgot⟩ := hown.collects hfid
      obtain ⟨store, res, hadd, ⟨got', hsub, hcollects'⟩, hres⟩ :=
        ReassemblyStore.addFragment_missing hcollects hchunk (fun hmem => hnew (hgot k hmem))
          (by rwa [chunks_length])
      have hold : ∀ j ∈ insert k got, j = k ∨ mark j := fun j hj => hj.imp_right (hgot j)
      obtain ⟨hstore, hout⟩ := e.conn.reassemble_fragment hfragment hparse hadd
      refine ⟨fun fid' buf hfid' hbuf => ?_, fun bytes hbytes => ?_⟩
      · cases hfid'
        rw [hstore] at hbuf
        -- a complete message has no buffer
        have hnone : res = none := hres.resolve_right fun hdone => by simp [hdone.2.2] at hbuf
        subst hnone
        have hplaceholder : (e.conn.reassemble now hdr body).2 = .ok (none, false) := by
          simp only [Connection.reassemble, if_neg hfragment, hparse, hadd]
        have hholds : buf.Holds (chunks m.payload) m.flags got' := by
          simpa [ReassemblyStore.Collects, hbuf] using hcollects'
        exact ⟨hplaceholder, got', hholds, fun j hj => hold j (hsub hj)⟩
      · obtain ⟨assembled, rfl, hdecoded⟩ := hout bytes hbytes
        obtain ⟨heq, hall, -⟩ := hres.resolve_left (by simp)
        rw [Option.some.injEq] at heq
        rw [heq, flatten_chunks] at hdecoded
        refine ⟨hformed.decodes bytes hdecoded, fun j hj => hold j (hall j ?_)⟩
        rwa [chunks_length, ← hlength]

/-- The store after a packet of a message. The packet is marked if a placeholder is
handed on for it. -/
theorem StoredAs.accepting {marked marked' : Letter → ℕ → Prop}
    (hstored : StoredAs marked letters e) (hm : m ∈ letters) (hmarked : mark = marked m)
    (hstore : e'.conn.reassembly = (e.conn.reassemble now hdr body).1)
    (hmore : ∀ m k, marked m k → marked' m k)
    (hmark : (e.conn.reassemble now hdr body).2 = .ok (none, false) → marked' m k) :
    StoredAs marked' letters e' := by
  obtain ⟨hbuffer, -⟩ := reassemble_owned hown hformed hbody hflag hnew
  subst hmarked
  intro fid buf hbuf
  rw [hstore] at hbuf
  by_cases hfid : m.fragmentID = some fid
  · obtain ⟨hplaceholder, got, hholds, hgot⟩ := hbuffer fid buf hfid hbuf
    refine ⟨m, hm, hfid, got, hholds, fun j hj => ?_⟩
    rcases hgot j hj with rfl | hold
    · exact hmark hplaceholder
    · exact hmore m j hold
  · -- the buffer of another message
    rw [Connection.lookup_reassemble_ne] at hbuf
    · obtain ⟨m', hm', hfid', got, hholds, hgot⟩ := hstored fid buf hbuf
      exact ⟨m', hm', hfid', got, hholds, fun j hj => hmore m' j (hgot j hj)⟩
    · rintro fh size hfragment hparse rfl
      obtain ⟨own, hown⟩ := Option.ne_none_iff_exists'.mp fun hnone => hfragment (hflag.mpr hnone)
      have hheader := (splitMessage_fragment (hformed.split own hown) hbody).1
      rw [hparse, Except.ok.injEq, Prod.mk.injEq] at hheader
      rw [hheader.1] at hfid
      exact hfid hown

end Packet

/-- What an accepted packet passes to the application on a channel that is not
ordered: what came out of reassembly, or nothing. -/
theorem delivered_unordered {c c' : Connection} {now : ℤ} {hdr : PacketHeader} {body : Bytes}
    {ch ch' : Channel} {acks events : List Event} {ps : List PendingPacket} {n : ℤ}
    (hacc : c.Accepting now hdr body ch acks ps n c' ch' events)
    (hmode : ch.mode ≠ .reliableOrdered) :
    delivered events hdr.channel = [] ∨
      ∃ bytes, (c.reassemble now hdr body).2 = .ok (some bytes, true) ∧
        delivered events hdr.channel = [bytes] := by
  rcases hacc.outcome_cases with ⟨err, hres, -, -⟩ | ⟨payload, emit, msgs, hres, hdeliver, rfl⟩
  · exact .inl (hacc.delivered_error hres _)
  rw [Connection.Accepting.delivered_ok hacc.acks_quiet]
  have hmode' : ((ch.recordReceive hdr.sequence.toNat).1.withPending ps n).mode ≠
      .reliableOrdered := by
    simpa using hmode
  cases emit with
  | false => exact .inl (if_neg (by simp))
  | true =>
      rw [if_pos ⟨rfl, rfl⟩]
      rcases Channel.deliver_unordered_messages hmode' hdeliver with rfl | rfl
      · exact .inl rfl
      · cases payload with
        | none => exact .inl rfl
        | some bytes => exact .inr ⟨bytes, hres, rfl⟩

section Accepting

variable {now : ℤ} {hdr : PacketHeader} {body : Bytes} {ch ch' : Channel}
  {acks events : List Event} {ps : List PendingPacket} {n : ℤ} {m : Letter} {k : ℕ}
  (hacc : e.conn.Accepting now hdr body ch acks ps n e'.conn ch' events)
  (htrace : e'.trace = e.trace ++ events) (hchannel : m.channel = hdr.channel)
  (hseq : m.seqs[k]? = some hdr.sequence.toNat)

include hacc htrace

omit hacc in
theorem acceptedOn_mono (id : UInt8) : acceptedOn e.trace id ⊆ acceptedOn e'.trace id := by
  rw [htrace, acceptedOn_append]
  exact Set.subset_union_left

include hchannel hseq in
/-- The packet is accepted, along with those accepted before. -/
theorem accepted_accepting (j : ℕ) (hj : j = k ∨ m.Accepted e j) : m.Accepted e' j := by
  rcases hj with rfl | hold
  · refine ⟨hdr.sequence.toNat, hseq, ?_⟩
    rw [htrace, hchannel, ReceiveInv.acceptedOn_accepting hacc]
    exact Set.mem_insert _ _
  · exact hold.mono (acceptedOn_mono htrace)

include hchannel hseq in
omit htrace in
/-- The packet has not been accepted before. -/
theorem not_accepted_accepting (hsound : e.Sound) : ¬ m.Accepted e k := by
  rintro ⟨seq, hseq', hmem⟩
  obtain rfl : hdr.sequence.toNat = seq := Option.some.inj (hseq.symm.trans hseq')
  rw [hchannel] at hmem
  exact ((hsound hdr.channel ch hacc.channel_eq).fresh_number hacc).1 hmem

variable (hr : Receiver letters e) (hapart : Apart Letter.identifiers letters) (hm : m ∈ letters)
  (hformed : m.Formed e.conn.compress) (hbody : m.bodies[k]? = some body)
  (hflag : hdr.flags &&& flagFragment = 0 ↔ m.fragmentID = none) (hsound : e.Sound)

include hchannel hseq hr hapart hm hformed hbody hflag hsound

/-- The store after an accepted packet of a message. -/
theorem Receiver.stored_accepting : Stored letters e' := by
  have hnew := not_accepted_accepting hacc hchannel hseq hsound
  refine hr.stored.accepting (hr.stored.owns hapart hm now) hformed hbody hflag hnew hm rfl
    hacc.reassembly_eq (fun _ _ haccepted => haccepted.mono (acceptedOn_mono htrace)) fun _ => ?_
  exact accepted_accepting hacc htrace hchannel hseq k (.inl rfl)

/-- The deliveries on the channel of an accepted packet of a message. -/
theorem Receiver.once_accepting (hmode : ch.mode ≠ .reliableOrdered) :
    DeliveredOnce letters e' hdr.channel := by
  have hnew := not_accepted_accepting hacc hchannel hseq hsound
  have honce := hr.once hdr.channel ⟨ch, hacc.channel_eq, hmode⟩
  have happend : delivered e'.trace hdr.channel =
      delivered e.trace hdr.channel ++ delivered events hdr.channel := by
    rw [htrace, delivered_append]
  rcases delivered_unordered hacc hmode with hnone | ⟨bytes, hbytes, hone⟩
  · rw [hnone, List.append_nil] at happend
    exact honce.mono (acceptedOn_mono htrace) happend
  · obtain ⟨-, hout⟩ :=
      reassemble_owned (hr.stored.owns hapart hm now) hformed hbody hflag hnew
    obtain ⟨rfl, hothers⟩ := hout bytes hbytes
    rw [hone] at happend
    have hlt : k < m.bodies.length := (List.getElem?_eq_some_iff.mp hbody).1
    refine honce.concat hm hchannel (fun hcomplete => hnew (hcomplete k hlt)) (fun j hj => ?_)
      (acceptedOn_mono htrace) happend
    exact accepted_accepting hacc htrace hchannel hseq j (hothers j hj)

/-- An accepted packet of a message. -/
theorem Receiver.accepting : Receiver letters e' := by
  refine ⟨hr.stored_accepting hacc htrace hchannel hseq hapart hm hformed hbody hflag hsound,
    fun id hid => ?_⟩
  obtain ⟨c, hc, hmode⟩ := hid
  by_cases hsame : id = hdr.channel
  · subst hsame
    obtain rfl : ch' = c := Option.some.inj (hacc.channel_eq'.symm.trans hc)
    rw [hacc.mode_eq] at hmode
    exact hr.once_accepting hacc htrace hchannel hseq hapart hm hformed hbody hflag hsound hmode
  · obtain ⟨⟨c₀, hc₀, hkept⟩, -, -, hdelivered⟩ := Endpoint.accepting_other hacc hsame hc
    refine (hr.once id ⟨c₀, hc₀, hkept.mode_eq ▸ hmode⟩).mono (acceptedOn_mono htrace) ?_
    rw [htrace]
    exact hdelivered

end Accepting

/-- The moves keep the receiver's side. -/
theorem Receiver.step (hs : s.Sender) (hapart : Apart Letter.identifiers s.letters)
    (hr : Receiver s.letters s.pair.right) (hsound : s.pair.right.Sound) {move : TrafficMove}
    (hstep : Steps s move s') : Receiver s'.letters s'.pair.right := by
  cases hstep with
  | single id data => exact hr.grown (.concat Letter.Later.refl _ _)
  | rejected id data => exact hr
  | split id data payload flags bodies hcompress hsplit =>
      exact hr.grown (.concat Letter.Later.refl _ _)
  | build i seq m body e' hm hbody hstep =>
      exact hr.grown (.set Letter.Later.refl hm (m.later_build seq))
  | left a e' hmay hauth hstep => exact hr
  | right a e' hauth hstep =>
      show Receiver s.letters e'
      rcases Endpoint.step_cases hstep with hidle | ⟨now, data, hdr, body, ch, acks, ps, n, ch',
        events, rfl, hpacket, hacc, heq⟩
      · exact hr.idle hidle
      · obtain ⟨m, hm, hchannel, k, hseq, hbody, hflag⟩ := hs.packet hauth hpacket
        exact hr.accepting hacc (congrArg Endpoint.trace heq) hchannel hseq hapart hm
          (hs.formed m hm) hbody hflag hsound

theorem receiver_init (hinit : system.init s) : Receiver s.letters s.pair.right := by
  obtain ⟨input, now, heq, -⟩ := hinit.1 .right
  have hright : s.pair.right = Endpoint.start input now := heq
  rw [hright]
  refine ⟨fun fid buf hbuf => ?_, fun id hid => ⟨[], List.nodup_nil, rfl, ?_⟩⟩
  · cases hbuf
  · intro i hi
    cases hi

/-! ## Every run -/

theorem sound_of_run {hist : List (Traffic × TrafficMove)} (hrun : system.Run hist s) :
    s.pair.right.Sound := by
  obtain ⟨hist', hpair⟩ := run_pair hrun
  exact Pair.sound_get hpair .right

theorem receiver_of_run {hist : List (Traffic × TrafficMove)} (hrun : system.Run hist s)
    (hfew : System.Always Few hist s) : Receiver s.letters s.pair.right := by
  induction hrun with
  | start starts => exact receiver_init starts
  | @step hist s s' move prior taken ih =>
      rw [System.always_cons] at hfew
      exact (ih hfew.2).step (sender_of_run prior) (apart_of_run prior hfew.2)
        (sound_of_run prior) (steps_of_step taken)

/-- **Integrity, and delivery at most once.** In a run with few identifiers, what the
application gets on a channel that is not ordered are messages sent on this channel,
each of them at most once. -/
theorem delivered_subperm_sentOn {hist : List (Traffic × TrafficMove)} (hrun : system.Run hist s)
    (hfew : System.Always Few hist s) {ch : Channel} (hch : s.pair.right.conn.channel id = some ch)
    (hmode : ch.mode ≠ .reliableOrdered) :
    (delivered s.pair.right.trace id).Subperm (s.sentOn id) := by
  obtain ⟨places, hnodup, hdelivered, hplaces⟩ :=
    (receiver_of_run hrun hfew).once id ⟨ch, hch, hmode⟩
  have hpicked : (picks s.letters places).Subperm (s.letters.filter (·.channel = id)) := by
    refine picks_subperm_filter hnodup fun i hi x hx => ?_
    obtain ⟨m, hm, hchannel, -⟩ := hplaces i hi
    obtain rfl : m = x := Option.some.inj (hm.symm.trans hx)
    exact decide_eq_true hchannel
  obtain ⟨ms, hperm, hsublist⟩ := hpicked
  rw [hdelivered, sentOn]
  exact ⟨ms.map Letter.data, hperm.map Letter.data, hsublist.map Letter.data⟩

def twoChannels : ConnectionInput :=
  { plainInput [(.reliableUnordered, 0), (.unreliable, 0)] with
    compress := .init .none 0 none runCodecs }

/-- A message of two fragments and a message of one byte are sent at the same
time. The second fragment arrives first, and the first one arrives twice. -/
theorem delivered_subperm_sentOn_reordered :
    ∃ hist s ch, system.Run hist s ∧ System.Always Few hist s ∧
      s.pair.right.conn.channel 0 = some ch ∧ ch.mode ≠ .reliableOrdered ∧
      delivered s.pair.right.trace 0 = [List.replicate 1156 7] ∧
      (delivered s.pair.right.trace 0).Subperm (s.sentOn 0) := by
  let data : Bytes := List.replicate 1156 7
  let raw₁ : Bytes := [1, 0, 1, 0, 0, 0, 0, 0] ++ [0, 1, 0, 2, 0] ++ List.replicate 1155 7
  let raw₂ : Bytes := [1, 0, 2, 0, 0, 0, 0, 0] ++ [0, 1, 1, 2, 0] ++ [7]
  let raw₃ : Bytes := [0, 1, 1, 0, 0, 0, 0, 0, 9]
  let sending : List TrafficMove :=
    [.post 0 data, .post 1 [9], .act .left (.number 0), .act .left (.number 1),
      .act .left (.number 0), .build 0 1, .build 1 1, .build 0 2,
      .act .left (.transmit ⟨0, 1, raw₁⟩ true), .act .left (.transmit ⟨1, 1, raw₃⟩ true),
      .act .left (.transmit ⟨0, 2, raw₂⟩ true)]
  let arriving : List TrafficMove := [raw₂, raw₃, raw₁, raw₁].map (.act .right <| .packet 0 ·)
  obtain ⟨hist, s, hrun, hfew, hdelivered, hmodes⟩ := System.exists_history (S := system)
    (fun _ _ _ hstep => hstep) (init_same twoChannels rfl runCodecs_lawful.faithful)
    (sending ++ arriving)
    (fun hist s => System.Always Few hist s ∧ delivered s.pair.right.trace 0 = [data] ∧
      (s.pair.right.conn.channel 0).map Channel.mode = some .reliableUnordered)
    (by decide +kernel)
  obtain ⟨ch, hch, hmode⟩ := Option.map_eq_some_iff.mp hmodes
  have hother : ch.mode ≠ .reliableOrdered := by simp [hmode]
  exact ⟨hist, s, ch, hrun, hfew, hch, hother, hdelivered,
    delivered_subperm_sentOn hrun hfew hch hother⟩

end Traffic

end Fastwire
