/-
# The last fragment of the newest message

The fragments of a message on a sequenced channel arrive in any order. As long as the
reassembly store keeps them, the last missing fragment completes the message. Whether the
message is passed on depends on the number of this fragment: the placeholders of the
others have moved `lastRecvSeq` to the highest of their numbers.
-/

import Fastwire.Traffic.Sequenced
import Fastwire.Traffic.Turns

namespace Fastwire

open Lib

/-! ## Messages the store keeps -/

instance (m : Letter) (e : Endpoint) (k : ℕ) : Decidable (m.Accepted e k) :=
  inferInstanceAs (Decidable (∃ seq ∈ m.seqs[k]?, seq ∈ acceptedOn e.trace m.channel))

namespace Endpoint

variable {e e' : Endpoint} {a : Act} {fid : UInt16}

/-- Without an accepted packet the buffer stays as it is. -/
theorem lookup_of_keepsBuffer (h : e.keepsBuffer fid a = true) (hidle : e.Idle a e') :
    e'.conn.reassembly.buffers.lookup fid = e.conn.reassembly.buffers.lookup fid := by
  rw [hidle.store_eq]
  cases hbuf : e.conn.reassembly.buffers.lookup fid with
  | none =>
      rw [Option.eq_none_iff_forall_ne_some]
      intro buf hafter
      rw [lookup_storeAfter hafter] at hbuf
      cases hbuf
  | some buf =>
      have hkept := outlives_of_keepsBuffer h hbuf
      simp only [outlives, Bool.and_eq_true, Bool.not_eq_true'] at hkept
      obtain ⟨hlive, hyoung⟩ := hkept
      cases a with
      | cleanup now timeout =>
          simp only [storeAfter, ReassemblyStore.cleanup, Table.lookup_filter, hbuf]
          simpa using hyoung
      | _ =>
          simp only [storeAfter, hlive, Bool.false_eq_true, ↓reduceIte]
          exact hbuf

end Endpoint

namespace Letter

variable {m : Letter} {e e' : Endpoint} {fid : UInt16} {k : ℕ}

/-- The store holds all accepted fragments of an incomplete message, and `deliver` was
called for each of them. -/
structure Intact (fid : UInt16) (m : Letter) (e : Endpoint) : Prop where
  collects : ¬ m.Complete e →
    e.conn.reassembly.Collects fid (chunks m.payload) m.flags { k | m.Accepted e k }
  handed : ¬ m.Complete e → ∀ k, m.Accepted e k → m.HandedOn e k

/-- Nothing happens to the message. -/
theorem Intact.congr {events : List Event} (h : Intact fid m e)
    (hacc : ∀ k, m.Accepted e' k ↔ m.Accepted e k) (htrace : e'.trace = e.trace ++ events)
    (hlook : e'.conn.reassembly.buffers.lookup fid = e.conn.reassembly.buffers.lookup fid) :
    Intact fid m e' := by
  have hcomplete : m.Complete e' ↔ m.Complete e := by simp only [Complete, hacc]
  refine ⟨fun hnot => ?_, fun hnot k hk => ?_⟩
  · rw [hcomplete] at hnot
    simp only [ReassemblyStore.Collects, hlook, hacc]
    exact h.collects hnot
  · rw [hcomplete] at hnot
    exact (h.handed hnot k ((hacc k).mp hk)).mono htrace

/-- One more packet gets a number that was never accepted. -/
theorem Intact.build (h : Intact fid m e) {seq : ℕ}
    (hnew : seq ∉ acceptedOn e.trace m.channel) : Intact fid (m.build seq) e := by
  have hacc : ∀ k, (m.build seq).Accepted e k ↔ m.Accepted e k := by
    intro k
    refine ⟨?_, fun hold => hold.later (m.later_build seq)⟩
    rintro ⟨n, hn, hmem⟩
    have hn : (m.seqs ++ [seq])[k]? = some n := hn
    rcases getElem?_concat_cases hn with hold | ⟨-, rfl⟩
    · exact ⟨n, hold, hmem⟩
    · exact absurd hmem hnew
  have hcomplete : (m.build seq).Complete e ↔ m.Complete e := forall₂_congr fun k _ => hacc k
  refine ⟨fun hnot => ?_, fun hnot k hk => ?_⟩
  · simp only [hacc]
    exact h.collects (hcomplete.not.mp hnot)
  · exact (h.handed (hcomplete.not.mp hnot) k ((hacc k).mp hk)).later (m.later_build seq)

/-- A message without packets, whose identifier is free. -/
theorem intact_of_unnumbered (hnone : m.seqs = [])
    (hfree : e.conn.reassembly.buffers.lookup fid = none) : Intact fid m e := by
  have hacc : ∀ k, ¬ m.Accepted e k := by
    rintro k ⟨seq, hseq, -⟩
    simp [hnone] at hseq
  refine ⟨fun _ => ?_, fun _ k hk => absurd hk (hacc k)⟩
  simp [ReassemblyStore.Collects, hfree, hacc]

section Fragment

variable {pool : CompressorPool} {now : ℤ} {hdr : PacketHeader} {body : Bytes}
  (h : Intact fid m e) (hformed : m.Formed pool) (hfid : m.fragmentID = some fid)
  (hbody : m.bodies[k]? = some body) (hflag : hdr.flags &&& flagFragment ≠ 0)
  (hnew : ¬ m.Accepted e k)
  (hadm : e.conn.reassembly.Admits now fid (body.drop fragmentHeaderSize))

include h hformed hfid hbody hflag hnew hadm

/-- **A missing fragment.** It completes the message if it is the last one. -/
theorem Intact.reassemble :
    ∃ store, ((∃ j < m.bodies.length, j ≠ k ∧ ¬ m.Accepted e j) ∧
        e.conn.reassemble now hdr body = (store, .ok (none, false)) ∧
        store.Collects fid (chunks m.payload) m.flags (insert k { j | m.Accepted e j })) ∨
      ((∀ j < m.bodies.length, j ≠ k → m.Accepted e j) ∧
        e.conn.reassemble now hdr body =
          (store, (e.conn.compress.decompressPayload m.payload m.flags).map fun bytes =>
            (bytes, true))) := by
  have hsplit := hformed.split fid hfid
  obtain ⟨hparse, hchunk⟩ := splitMessage_fragment hsplit hbody
  obtain ⟨hlength, hmax, -⟩ := splitMessage_ok hsplit
  rw [hlength, ← chunks_length]
  rw [← chunks_length] at hmax
  have hlt : k < m.bodies.length := (List.getElem?_eq_some_iff.mp hbody).1
  have hcollects := h.collects fun hcomplete => hnew (hcomplete k hlt)
  obtain ⟨store, res, hadd, hcase⟩ :=
    ReassemblyStore.addFragment_collects hcollects hadm hchunk hnew hmax
  refine ⟨store, hcase.imp ?_ ?_⟩
  · rintro ⟨⟨j, hj, hmissing⟩, rfl, hcoll⟩
    rw [Set.mem_insert_iff, not_or] at hmissing
    refine ⟨⟨j, hj, hmissing⟩, ?_, hcoll⟩
    simp only [Connection.reassemble, if_neg hflag, hparse, hadd]
  · rintro ⟨hall, rfl, -⟩
    refine ⟨fun j hj hne => (hall j hj).resolve_left hne, ?_⟩
    simp only [Connection.reassemble, if_neg hflag, hparse, hadd, flatten_chunks]
    cases e.conn.compress.decompressPayload m.payload m.flags <;> rfl

/-- An accepted fragment of the message. -/
theorem Intact.accepting {ch ch' : Channel} {acks events : List Event} {ps : List PendingPacket}
    {n : ℤ} (hacc : e.conn.Accepting now hdr body ch acks ps n e'.conn ch' events)
    (htrace : e'.trace = e.trace ++ events) (hchannel : m.channel = hdr.channel)
    (hseq : m.seqs[k]? = some hdr.sequence.toNat) (hnodup : m.seqs.Nodup) (hsound : e.Sound) :
    Intact fid m e' := by
  have hmem : ∀ j, m.Accepted e' j ↔ j = k ∨ m.Accepted e j := by
    intro j
    refine ⟨?_, Traffic.accepted_accepting hacc htrace hchannel hseq j⟩
    rintro ⟨seq, hj, hin⟩
    rw [htrace, hchannel, ReceiveInv.acceptedOn_accepting hacc] at hin
    rcases hin with rfl | hold
    · have hlt := (List.getElem?_eq_some_iff.mp hj).1
      exact .inl ((List.getElem?_inj hlt hnodup).mp (hj.trans hseq.symm))
    · exact .inr ⟨seq, hj, hchannel ▸ hold⟩
  have hlt : k < m.bodies.length := (List.getElem?_eq_some_iff.mp hbody).1
  have hinc : ¬ m.Complete e := fun hcomplete => hnew (hcomplete k hlt)
  obtain ⟨store, hcase⟩ := h.reassemble hformed hfid hbody hflag hnew hadm
  rcases hcase with ⟨-, hre, hcoll⟩ | ⟨hall, -⟩
  · refine ⟨fun _ => ?_, fun _ j hj => ?_⟩
    · have hset : { j | m.Accepted e' j } = insert k { j | m.Accepted e j } := Set.ext hmem
      rw [hset, hacc.reassembly_eq, hre]
      exact hcoll
    · refine Traffic.handedOn_accepting hacc htrace hchannel hseq hsound (by rw [hre]) j ?_
      exact ((hmem j).mp hj).imp_right (h.handed hinc j)
  · have hcomplete : m.Complete e' := by
      intro j hj
      rw [hmem]
      by_cases hjk : j = k
      · exact .inl hjk
      · exact .inr (hall j hj hjk)
    exact ⟨fun hnot => absurd hcomplete hnot, fun hnot => absurd hcomplete hnot⟩

end Fragment

end Letter

namespace Traffic

variable {s s' : Traffic} {id : UInt8} {m : Letter} {fid : UInt16} {i : ℕ}

/-- The move does no harm to the message at the given place. -/
def kept (i : ℕ) (s : Traffic) : TrafficMove → Bool
  | .act .right a => s.letters[i]?.all fun m => m.fragmentID.all fun fid =>
      s.pair.right.keepsBuffer fid a
  | _ => true

theorem keepsBuffer_of_kept {a : Act} (h : s.kept i (.act .right a) = true)
    (hm : s.letters[i]? = some m) (hfid : m.fragmentID = some fid) :
    s.pair.right.keepsBuffer fid a = true := by
  simpa [kept, hm, hfid] using h

section Packet

variable {now : ℤ} {data : Bytes} {hdr : PacketHeader} {body : Bytes} {ch : Channel}
  (hs : s.Sender) (hauth : s.pair.authentic .right (.packet now data) = true)
  (hpacket : s.pair.right.conn.acceptedPacket data = some (hdr, body, ch))
  (hm : s.letters[i]? = some m)

include hs hauth hpacket hm

/-- The packet with a number of the message is a packet of the message. -/
theorem Sender.packet_of_number (hturns : Turns m.channel s.letters)
    (hchannel : hdr.channel = m.channel) {k : ℕ} (hseq : m.seqs[k]? = some hdr.sequence.toNat) :
    m.bodies[k]? = some body ∧ (hdr.flags &&& flagFragment = 0 ↔ m.fragmentID = none) := by
  obtain ⟨m', hm', hch', k', hseq', hbody, hflag⟩ := hs.packet hauth hpacket
  obtain rfl : m = m' := hturns.eq_of_number (List.mem_of_getElem? hm) hm'
    ⟨rfl, List.mem_of_getElem? hseq⟩ ⟨hch'.trans hchannel, List.mem_of_getElem? hseq'⟩
  have hlt := (List.getElem?_eq_some_iff.mp hseq).1
  have hnodup := hturns.nodup m (List.mem_of_getElem? hm) rfl
  obtain rfl : k = k' := (List.getElem?_inj hlt hnodup).mp (hseq.trans hseq'.symm)
  exact ⟨hbody, hflag⟩

/-- It is a fragment, and the store has room for it. -/
theorem Sender.fragment_of_number (hturns : Turns m.channel s.letters)
    (hfid : m.fragmentID = some fid) (hchannel : hdr.channel = m.channel) {k : ℕ}
    (hseq : m.seqs[k]? = some hdr.sequence.toNat)
    (hkept : s.kept i (.act .right (.packet now data)) = true) :
    m.bodies[k]? = some body ∧ hdr.flags &&& flagFragment ≠ 0 ∧
      s.pair.right.conn.reassembly.Admits now fid (body.drop fragmentHeaderSize) := by
  obtain ⟨hbody, hfrag⟩ := hs.packet_of_number hauth hpacket hm hturns hchannel hseq
  have hflag := fragment_flag hfrag hfid
  have hsplit := (hs.formed m (List.mem_of_getElem? hm)).split fid hfid
  have hparse := (splitMessage_fragment hsplit hbody).1
  exact ⟨hbody, hflag, Endpoint.admits_of_keepsBuffer (keepsBuffer_of_kept hkept hm hfid) hpacket
    hflag hparse rfl⟩

/-- Other packets leave the buffer of the message alone. -/
theorem Sender.lookup_other (hapart : Apart Letter.identifiers s.letters)
    (hfid : m.fragmentID = some fid)
    (hnot : ¬ (m.channel = hdr.channel ∧ hdr.sequence.toNat ∈ m.seqs)) :
    (s.pair.right.conn.reassemble now hdr body).1.buffers.lookup fid =
      s.pair.right.conn.reassembly.buffers.lookup fid := by
  refine s.pair.right.conn.lookup_reassemble_ne fun fh n hflag hparse heq => hnot ?_
  obtain ⟨m', hm', hch', k', hseq', hbody, hfrag⟩ := hs.packet hauth hpacket
  obtain ⟨own, hown⟩ := Option.ne_none_iff_exists'.mp fun hnone => hflag (hfrag.mpr hnone)
  have hheader := (splitMessage_fragment ((hs.formed m' hm').split own hown) hbody).1
  rw [hparse, Except.ok.injEq, Prod.mk.injEq] at hheader
  obtain rfl : own = fid := by rw [← heq, hheader.1]
  obtain ⟨j, hj⟩ := List.mem_iff_getElem?.mp hm'
  obtain rfl : i = j := hapart i j m m' hm hj own hfid hown
  obtain rfl : m = m' := Option.some.inj (hm.symm.trans hj)
  exact ⟨hch', List.mem_of_getElem? hseq'⟩

end Packet

/-- An act of the receiver. -/
theorem intact_right {a : Act} {e' : Endpoint} (hs : s.Sender)
    (hapart : Apart Letter.identifiers s.letters) (hsound : s.pair.right.Sound)
    (hauth : s.pair.authentic .right a = true) (hstep : s.pair.right.step a = some e')
    (hkept : s.kept i (.act .right a) = true) (hm : s.letters[i]? = some m)
    (hturns : Turns m.channel s.letters) (hfid : m.fragmentID = some fid)
    (h : m.Intact fid s.pair.right) : m.Intact fid e' := by
  have hmem := List.mem_of_getElem? hm
  rcases Endpoint.step_cases hstep with hidle | ⟨now, data, hdr, body, ch, acks, ps, n, ch',
    events, rfl, hpacket, hacc, heq⟩
  · obtain ⟨events, htrace, -⟩ := hidle.trace
    have hkeeps := keepsBuffer_of_kept hkept hm hfid
    refine h.congr (fun k => ?_) htrace (Endpoint.lookup_of_keepsBuffer hkeeps hidle)
    simp only [Letter.Accepted, hidle.acceptedOn_eq]
  have htrace : e'.trace = s.pair.right.trace ++ events := by rw [heq]
  by_cases hown : m.channel = hdr.channel ∧ hdr.sequence.toNat ∈ m.seqs
  · obtain ⟨hchannel, hin⟩ := hown
    obtain ⟨k, hseq⟩ := List.mem_iff_getElem?.mp hin
    obtain ⟨hbody, hflag, hadm⟩ :=
      hs.fragment_of_number hauth hpacket hm hturns hfid hchannel.symm hseq hkept
    exact h.accepting (hs.formed m hmem) hfid hbody hflag
      (not_accepted_accepting hacc hchannel hseq hsound) hadm hacc htrace hchannel hseq
      (hturns.nodup m hmem rfl) hsound
  · refine h.congr (fun k => ?_) htrace ?_
    · refine exists_congr fun seq => and_congr_right fun hseq => ?_
      rw [htrace, acceptedOn_append, hacc.acceptedOn_events]
      refine ⟨fun hin => hin.resolve_right fun hnew => ?_, .inl⟩
      split at hnew
      · rename_i hch
        rw [Set.mem_singleton_iff.mp hnew] at hseq
        exact hown ⟨hch, List.mem_of_getElem? hseq⟩
      · cases hnew
    · rw [hacc.reassembly_eq]
      exact hs.lookup_other hauth hpacket hm hapart hfid hown

/-- **A message that is not harmed** is intact. -/
theorem intact_of_run {hist : List (Traffic × TrafficMove)} (hrun : system.Run hist s)
    (hfew : System.Always Few hist s) (hturn : System.Guarded (InTurn id) hist)
    (hkept : System.Guarded (fun s move => s.kept i move = true) hist)
    (hm : s.letters[i]? = some m) (hch : m.channel = id) (hfid : m.fragmentID = some fid) :
    m.Intact fid s.pair.right := by
  induction hrun generalizing m with
  | start starts =>
      rw [starts.2.1] at hm
      cases hm
  | @step hist s s' move prior taken ih =>
      have hapart' := apart_of_run (.step prior taken) hfew
      rw [System.always_cons] at hfew
      rw [System.guarded_cons] at hturn hkept
      have hr := receiver_of_run prior hfew.2
      have hturns := turns_of_run prior hturn.2
      cases steps_of_step taken with
      | single id' data =>
          rcases getElem?_concat_cases hm with hold | ⟨-, rfl⟩
          · exact ih hfew.2 hturn.2 hkept.2 hold hch hfid
          · cases hfid
      | rejected id' data => exact ih hfew.2 hturn.2 hkept.2 hm hch hfid
      | split id' data payload flags bodies hcompress hsplit =>
          rcases getElem?_concat_cases hm with hold | ⟨hplace, hnew⟩
          · exact ih hfew.2 hturn.2 hkept.2 hold hch hfid
          refine Letter.intact_of_unnumbered (by rw [hnew]) ?_
          rw [Option.eq_none_iff_forall_ne_some]
          intro buf hbuf
          -- the identifier of a new message has no other owner
          obtain ⟨m', hm', hfid', -⟩ := hr.stored fid buf hbuf
          obtain ⟨j, hj⟩ := List.mem_iff_getElem?.mp hm'
          have hlt : j < s.letters.length := (List.getElem?_eq_some_iff.mp hj).1
          have hsame : i = j := hapart' i j m m' hm
            ((List.getElem?_append_left hlt).trans hj) fid hfid hfid'
          omega
      | build j seq m₀ body e' hm₀ hbody hstep =>
          rw [List.getElem?_set] at hm
          split at hm
          · rename_i hji
            subst hji
            have hlt : j < s.letters.length := (List.getElem?_eq_some_iff.mp hm₀).1
            rw [if_pos hlt, Option.some.injEq] at hm
            subst hm
            refine (ih hfew.2 hturn.2 hkept.2 hm₀ hch hfid).build fun hacc => ?_
            obtain ⟨m', hm', hch', hin⟩ := accepted_numbered prior hacc
            have habove := (hturn.1 m₀ hm₀ hch).2.1 m' hm' (hch'.trans hch) seq hin
            exact Nat.lt_irrefl _ habove
          · exact ih hfew.2 hturn.2 hkept.2 hm hch hfid
      | left a e' hmay hauth hstep => exact ih hfew.2 hturn.2 hkept.2 hm hch hfid
      | right a e' hauth hstep =>
          subst hch
          exact intact_right (sender_of_run prior) (apart_of_run prior hfew.2)
            (sound_of_run prior) hauth hstep hkept.1 hm hturns hfid
            (ih hfew.2 hturn.2 hkept.2 hm rfl hfid)

end Traffic

/-! ## The last fragment -/

namespace Letter

variable {m : Letter} {e : Endpoint} {data : Bytes} {k seq : ℕ} {ch : Channel}

/-- The packet carries the one fragment of the message that is missing, and its number is
within the acknowledgement window. -/
structure LastMissing (m : Letter) (e : Endpoint) (data : Bytes) (k seq : ℕ) : Prop where
  number : m.seqs[k]? = some seq
  carried : ∃ hdr body, e.conn.openPacket data = some (hdr, body) ∧
    hdr.flags &&& flagControl = 0 ∧ hdr.channel = m.channel ∧ hdr.sequence.toNat = seq
  window : ∀ ch, e.conn.channel m.channel = some ch → ch.recvAck ≤ seq + 32
  missing : ¬ m.Accepted e k
  others : ∀ j < m.bodies.length, j ≠ k → m.Accepted e j

/-- The packet is accepted. -/
theorem LastMissing.acceptedPacket (h : m.LastMissing e data k seq)
    (hch : e.conn.channel m.channel = some ch) (hmode : ch.mode = .unreliableSequenced)
    (hsound : e.Sound) (hpos : 0 < seq) :
    ∃ hdr body, e.conn.acceptedPacket data = some (hdr, body, ch) ∧ hdr.channel = m.channel ∧
      hdr.sequence.toNat = seq := by
  obtain ⟨hdr, body, hopen, hdata, hchannel, hseq⟩ := h.carried
  have hnew : seq ∉ acceptedOn e.trace m.channel := fun hmem => h.missing ⟨seq, h.number, hmem⟩
  have hnear : ch.beyondWindow seq = false := by simp [Channel.beyondWindow, hmode]
  have hfresh : (ch.recordReceive seq).2 = true :=
    (Channel.recordReceive_iff (hsound m.channel ch hch).exact).mpr
      ⟨hpos.ne', hnear, hnew, h.window ch hch⟩
  refine ⟨hdr, body, ?_, hchannel, hseq⟩
  rw [Connection.acceptedPacket_eq_some_iff, hchannel, hseq]
  exact ⟨hopen, hch, hdata, hfresh⟩

/-- The placeholders of the other fragments count. -/
theorem LastMissing.le_of_last_lt {fid : UInt16} (h : m.LastMissing e data k seq)
    (hfits : m.Fits) (hintact : m.Intact fid e) (hlatest : Endpoint.Latest e.trace m.channel ch)
    (hlt : ch.lastRecvSeq < seq) : ∀ n ∈ m.seqs, n ≤ seq := by
  intro n hn
  obtain ⟨j, hj, hindex⟩ := hfits.exists_index hn
  by_cases hjk : j = k
  · subst hjk
    exact (Option.some.inj (hindex.symm.trans h.number)).le
  · have hk : k < m.bodies.length :=
      (List.getElem?_eq_some_iff.mp h.number).1.trans_le hfits
    have hinc : ¬ m.Complete e := fun hcomplete => h.missing (hcomplete k hk)
    obtain ⟨n', payload, hindex', hpay⟩ := hintact.handed hinc j (h.others j hj hjk)
    obtain rfl : n = n' := Option.some.inj (hindex.symm.trans hindex')
    exact ((hlatest.handed_le n payload hpay).trans_lt hlt).le

theorem Formed.bodies_pos {pool : CompressorPool} (h : m.Formed pool) : 0 < m.bodies.length := by
  cases hfid : m.fragmentID with
  | none =>
      rw [h.single hfid]
      exact Nat.one_pos
  | some fid =>
      rw [(splitMessage_ok (h.split fid hfid)).1]
      exact fragmentCount_pos _

end Letter

namespace Traffic

variable {s s' : Traffic} {id : UInt8} {m : Letter} {fid : UInt16} {i k seq : ℕ} {ch : Channel}
  {now : ℤ} {data : Bytes} {hist : List (Traffic × TrafficMove)}

/-- No packet of a message sent later on the channel has been accepted. -/
def NoneLater (id : UInt8) (i : ℕ) (s : Traffic) : Prop :=
  ∀ (j : ℕ) (m' : Letter), i < j → s.letters[j]? = some m' → m'.channel = id →
    ∀ n ∈ m'.seqs, n ∉ acceptedOn s.pair.right.trace id

/-- If the number is the highest of the newest message, it is above all that was handed
on. -/
theorem last_lt_of_highest (hrun : system.Run hist s) (hturns : Turns m.channel s.letters)
    (hm : s.letters[i]? = some m) (hinv : ReceiveInv s.pair.right.trace m.channel ch)
    (hlatest : Endpoint.Latest s.pair.right.trace m.channel ch)
    (hlast : m.LastMissing s.pair.right data k seq) (hnone : NoneLater m.channel i s)
    (hhighest : ∀ n ∈ m.seqs, n ≤ seq) : ch.lastRecvSeq < seq := by
  have hseq : seq ∈ m.seqs := List.mem_of_getElem? hlast.number
  rcases hlatest.handed_last with hzero | ⟨payload, hpay⟩
  · rw [hzero]
    exact hturns.pos m (List.mem_of_getElem? hm) rfl seq hseq
  have haccepted := hinv.handed_accepted _ payload hpay
  obtain ⟨m', hm', hch', hmem⟩ := accepted_numbered hrun haccepted
  obtain ⟨j, hj⟩ := List.mem_iff_getElem?.mp hm'
  rcases Nat.lt_trichotomy j i with hji | rfl | hij
  · exact hturns.ascending j i m' m hji hj hm _ ⟨hch', hmem⟩ seq ⟨rfl, hseq⟩
  · obtain rfl : m = m' := Option.some.inj (hm.symm.trans hj)
    refine lt_of_le_of_ne (hhighest _ hmem) fun heq => hlast.missing ⟨seq, hlast.number, ?_⟩
    rw [← heq]
    exact haccepted
  · exact absurd haccepted (hnone j m' hij hj hch' _ hmem)

/-- The act of the receiver that takes a packet. -/
theorem step_packet {c' : Connection} {events : List Event}
    (hauth : s.pair.authentic .right (.packet now data) = true)
    (hok : s.pair.right.conn.processPacket now data = .ok (c', events)) :
    ∃ s', s.step (.act .right (.packet now data)) = some s' ∧
      s'.pair.right.trace = s.pair.right.trace ++ events := by
  let e' : Endpoint :=
    { s.pair.right with conn := c', trace := s.pair.right.trace ++ events }
  have hstep : s.pair.step (.right, .packet now data) = some (s.pair.set .right e') :=
    Pair.step_eq_some_iff.mpr ⟨hauth, e', Endpoint.step_packet _ hok, rfl⟩
  refine ⟨⟨s.pair.set .right e', s.letters⟩, ?_, rfl⟩
  rw [step, hstep]
  rfl

/-- **The last missing fragment** of the newest message completes it. The message is
passed on if the number of the fragment is the highest of the message. -/
theorem last_fragment (hrun : system.Run hist s) (hfew : System.Always Few hist s)
    (hturn : System.Guarded (InTurn m.channel) hist)
    (hkept : System.Guarded (fun s move => s.kept i move = true) hist)
    (hch : s.pair.right.conn.channel m.channel = some ch) (hmode : ch.mode = .unreliableSequenced)
    (hm : s.letters[i]? = some m) (hfid : m.fragmentID = some fid)
    (hlast : m.LastMissing s.pair.right data k seq) (hnone : NoneLater m.channel i s)
    (hauth : s.pair.authentic .right (.packet now data) = true)
    (hnow : s.kept i (.act .right (.packet now data)) = true) :
    ∃ s', s.step (.act .right (.packet now data)) = some s' ∧
      (delivered s'.pair.right.trace m.channel =
          delivered s.pair.right.trace m.channel ++ [m.data] ↔
        (∀ n ∈ m.seqs, n ≤ seq) ∧
          s.pair.right.conn.compress.decompressPayload m.payload m.flags = .ok (some m.data)) := by
  have hs := sender_of_run hrun
  obtain ⟨hist', hpair⟩ := run_pair hrun
  obtain ⟨hist'', hright⟩ := Pair.run_get hpair .right
  have hsound := sound_of_run hrun
  have hlatest : Endpoint.Latest s.pair.right.trace m.channel ch :=
    Endpoint.latest_of_run hright hch hmode
  have hturns := turns_of_run hrun hturn
  have hintact := intact_of_run hrun hfew hturn hkept hm rfl hfid
  have hmem := List.mem_of_getElem? hm
  have hpos := hturns.pos m hmem rfl seq (List.mem_of_getElem? hlast.number)
  obtain ⟨hdr, body, hpacket, hchannel, hseq⟩ := hlast.acceptedPacket hch hmode hsound hpos
  obtain ⟨acks, ps, n, c', ch', events, hok, hacc⟩ :=
    Connection.processPacket_sequenced hpacket hmode now
  -- the fragment completes the message
  have hindex : m.seqs[k]? = some hdr.sequence.toNat := hseq.symm ▸ hlast.number
  obtain ⟨hbody, hflag, hadm⟩ :=
    hs.fragment_of_number hauth hpacket hm hturns hfid hchannel hindex hnow
  obtain ⟨store, ⟨⟨j, hj, hne, hmissing⟩, -, -⟩ | ⟨-, hre⟩⟩ :=
    hintact.reassemble (hs.formed m hmem) hfid hbody hflag hlast.missing hadm
  · exact absurd (hlast.others j hj hne) hmissing
  obtain ⟨s', hstep, htrace⟩ := step_packet hauth hok
  refine ⟨s', hstep, ?_⟩
  rw [htrace, delivered_append, List.append_cancel_left_eq, ← hchannel]
  cases hdecoded : s.pair.right.conn.compress.decompressPayload m.payload m.flags with
  | error err =>
      rw [hdecoded] at hre
      rw [hacc.delivered_error (congrArg Prod.snd hre)]
      simp
  | ok payload =>
      rw [hdecoded] at hre
      rw [(hacc.sequenced_ok hmode (congrArg Prod.snd hre)).2, hseq, Except.ok.injEq]
      have hiff : ch.lastRecvSeq < seq ↔ ∀ n ∈ m.seqs, n ≤ seq :=
        ⟨hlast.le_of_last_lt (hs.fits m hmem) hintact hlatest,
          last_lt_of_highest hrun hturns hm (hsound m.channel ch hch) hlatest hlast hnone⟩
      rw [← hiff]
      by_cases hlt : ch.lastRecvSeq < seq
      · cases payload <;> simp [hlt]
      · simp [hlt]

/-- In turn, messages in the order of their last packets are in the order of sending. -/
theorem Turns.lt_of_before {letters : List Letter} (h : Turns id letters) {i j : ℕ}
    {m m' : Letter}
    (hm : letters[i]? = some m) (hm' : letters[j]? = some m') (hch : m.channel = id)
    (hch' : m'.channel = id) (hnumbered : m.seqs ≠ []) (hbefore : m.Before m') : i < j := by
  obtain ⟨last, hlast, hbelow⟩ := hbefore
  obtain ⟨first, hfirst⟩ := List.exists_mem_of_ne_nil _ hnumbered
  have hlt := hbelow first hfirst
  rcases Nat.lt_trichotomy i j with hij | rfl | hij
  · exact hij
  · obtain rfl : m = m' := Option.some.inj (hm.symm.trans hm')
    exact absurd (hbelow last hlast) (Nat.lt_irrefl _)
  · have hgt := h.ascending j i m' m hij hm' hm last ⟨hch', hlast⟩ first ⟨hch, hfirst⟩
    exact absurd hlt hgt.asymm

/-- In a run with few identifiers the messages come out of a sequenced channel in the order
of their last packets, which is the order of sending if the sends take turns. The last
missing fragment of the newest message passes the message on exactly if it has the highest
number. -/
theorem sequenced_delivery (hrun : system.Run hist s) (hfew : System.Always Few hist s)
    (hch : s.pair.right.conn.channel id = some ch) (hmode : ch.mode = .unreliableSequenced) :
    (∃ places : List ℕ,
      delivered s.pair.right.trace id = (picks s.letters places).map Letter.data ∧
      (∀ i ∈ places, ∃ m, s.letters[i]? = some m ∧ m.channel = id) ∧
      places.Pairwise (fun i j => ∀ m m', s.letters[i]? = some m → s.letters[j]? = some m' →
        m.Before m') ∧
      (System.Guarded (InTurn id) hist → places.Pairwise (· < ·))) ∧
    ∀ i m fid now data k seq, System.Guarded (InTurn id) hist →
      System.Guarded (fun s move => s.kept i move = true) hist →
      s.letters[i]? = some m → m.channel = id → m.fragmentID = some fid →
      m.LastMissing s.pair.right data k seq → NoneLater id i s →
      s.pair.authentic .right (.packet now data) = true →
      s.kept i (.act .right (.packet now data)) = true →
      ∃ s', s.step (.act .right (.packet now data)) = some s' ∧
        (delivered s'.pair.right.trace id = delivered s.pair.right.trace id ++ [m.data] ↔
          (∀ n ∈ m.seqs, n ≤ seq) ∧
            s.pair.right.conn.compress.decompressPayload m.payload m.flags =
              .ok (some m.data)) := by
  constructor
  · obtain ⟨places, hdelivered, hordered, hplaces⟩ :=
      (sequencing_of_run hrun hfew).ordered id ch hch hmode
    refine ⟨places, hdelivered, fun i hi => ?_, hordered, fun hturn => ?_⟩
    · obtain ⟨m, hm, hchannel, -⟩ := hplaces i hi
      exact ⟨m, hm, hchannel⟩
    · refine hordered.imp_of_mem fun {i j} hi hj hbefore => ?_
      obtain ⟨m, hm, hchannel, hhanded⟩ := hplaces i hi
      obtain ⟨m', hm', hchannel', -⟩ := hplaces j hj
      have hformed := (sender_of_run hrun).formed m (List.mem_of_getElem? hm)
      obtain ⟨n, -, hfirst, -⟩ := hhanded 0 hformed.bodies_pos
      have hnumbered : m.seqs ≠ [] := List.ne_nil_of_mem (List.mem_of_getElem? hfirst)
      exact (turns_of_run hrun hturn).lt_of_before hm hm' hchannel hchannel' hnumbered
        (hbefore m m' hm hm')
  · rintro i m fid now data k seq hturn hkept hm rfl hfid hlast hnone hauth hnow
    exact last_fragment hrun hfew hturn hkept hch hmode hm hfid hlast hnone hauth hnow

/-! ## Two fragments -/

def sequencedInput : ConnectionInput :=
  { plainInput [(.unreliableSequenced, 0)] with compress := .init .none 0 none runCodecs }

def twoBodies : List Bytes := [[0, 1, 0, 2, 0] ++ List.replicate 1155 7, [0, 1, 1, 2, 0, 7]]

def twoFragments : Letter :=
  ⟨0, List.replicate 1156 7, List.replicate 1156 7, 0, some 1, twoBodies, [1, 2]⟩

def fragmentRaw (k : ℕ) : Bytes :=
  [1, 0, UInt8.ofNat (k + 1), 0, 0, 0, 0, 0] ++ twoBodies.getD k []

def arrival (k : ℕ) : List TrafficMove :=
  [.post 0 (List.replicate 1156 7), .act .left (.number 0), .act .left (.number 0),
    .build 0 1, .build 0 2, .act .left (.transmit ⟨0, 1, fragmentRaw 0⟩ true),
    .act .left (.transmit ⟨0, 2, fragmentRaw 1⟩ true), .act .right (.packet 0 (fragmentRaw k))]

/-- Nothing harms the message, and its packet with the given index is the last missing
one. -/
def OneMissing (k : ℕ) (hist : List (Traffic × TrafficMove)) (s : Traffic) : Prop :=
  System.Always Few hist s ∧ System.Guarded (InTurn 0) hist ∧
    System.Guarded (fun s move => s.kept 0 move = true) hist ∧ s.letters = [twoFragments] ∧
    ((s.pair.right.conn.channel 0).any fun ch =>
      ch.mode = .unreliableSequenced ∧ ch.recvAck ≤ k + 1 + 32) = true ∧
    s.pair.right.conn.openPacket (fragmentRaw k) =
      some (⟨1, 0, UInt32.ofNat (k + 1), 0, 0⟩, twoBodies.getD k []) ∧
    (UInt32.ofNat (k + 1)).toNat = k + 1 ∧ twoFragments.seqs[k]? = some (k + 1) ∧
    ¬ twoFragments.Accepted s.pair.right k ∧
    (∀ j < twoFragments.bodies.length, j ≠ k → twoFragments.Accepted s.pair.right j) ∧
    s.pair.authentic .right (.packet 0 (fragmentRaw k)) = true ∧
    s.kept 0 (.act .right (.packet 0 (fragmentRaw k))) = true ∧
    delivered s.pair.right.trace 0 = []

instance (k : ℕ) (hist : List (Traffic × TrafficMove)) (s : Traffic) :
    Decidable (OneMissing k hist s) :=
  inferInstanceAs (Decidable (_ ∧ _))

theorem OneMissing.exists_channel {k : ℕ} {hist : List (Traffic × TrafficMove)} {s : Traffic}
    (h : OneMissing k hist s) :
    ∃ ch, s.pair.right.conn.channel 0 = some ch ∧ ch.mode = .unreliableSequenced ∧
      twoFragments.LastMissing s.pair.right (fragmentRaw k) k (k + 1) := by
  obtain ⟨-, -, -, -, hchannel, hopen, hnumber, hindex, hmissing, hothers, -⟩ := h
  obtain ⟨ch, hch, hchannel⟩ := (Option.any_eq_true ..).mp hchannel
  obtain ⟨hmode, hwindow⟩ := of_decide_eq_true hchannel
  have hdata : (1 : UInt8) &&& flagControl = 0 := by decide
  refine ⟨ch, hch, hmode, hindex, ⟨_, _, hopen, hdata, rfl, hnumber⟩, fun ch' hch' => ?_,
    hmissing, hothers⟩
  exact Option.some.inj (hch.symm.trans hch') ▸ hwindow

theorem noneLater_of_singleton (h : s.letters = [m]) : NoneLater id 0 s := by
  intro j m' hj hm'
  rw [h, List.getElem?_singleton, if_neg hj.ne'] at hm'
  cases hm'

/-- The fragments arrive in the order of sending, and the message is passed on. -/
theorem sequenced_delivery_in_order :
    ∃ hist s s', system.Run hist s ∧ OneMissing 1 hist s ∧
      s.step (.act .right (.packet 0 (fragmentRaw 1))) = some s' ∧
      delivered s'.pair.right.trace 0 = [twoFragments.data] := by
  obtain ⟨hist, s, hrun, h⟩ := System.exists_history (S := system) (fun _ _ _ hstep => hstep)
    (init_same sequencedInput rfl runCodecs_lawful.faithful) (arrival 0) (OneMissing 1)
    (by decide +kernel)
  obtain ⟨ch, hch, hmode, hlast⟩ := h.exists_channel
  have ⟨hfew, hturn, hkept, hletters, _, _, _, _, _, _, hauth, hnow, hempty⟩ := h
  have hfound : s.letters[0]? = some twoFragments := by rw [hletters]; rfl
  obtain ⟨s', hstep, hiff⟩ := (sequenced_delivery hrun hfew hch hmode).2 0 twoFragments 1 0
    (fragmentRaw 1) 1 2 hturn hkept hfound rfl rfl hlast (noneLater_of_singleton hletters) hauth
    hnow
  refine ⟨hist, s, s', hrun, h, hstep, ?_⟩
  rw [hiff.mpr ⟨by decide, CompressorPool.decompressPayload_plain _ _⟩, hempty]
  rfl

/-- The second fragment arrives first. Then the first one completes the message, but its
number is not the highest, and nothing is passed on. -/
theorem newest_message_dropped :
    ∃ hist s s' ch, system.Run hist s ∧ System.Always Few hist s ∧
      System.Guarded (InTurn 0) hist ∧ System.Guarded (fun s move => s.kept 0 move = true) hist ∧
      s.pair.right.conn.channel 0 = some ch ∧ ch.mode = .unreliableSequenced ∧
      s.letters = [twoFragments] ∧
      twoFragments.LastMissing s.pair.right (fragmentRaw 0) 0 1 ∧
      s.kept 0 (.act .right (.packet 0 (fragmentRaw 0))) = true ∧
      s.step (.act .right (.packet 0 (fragmentRaw 0))) = some s' ∧
      delivered s'.pair.right.trace 0 = [] := by
  obtain ⟨hist, s, hrun, h, hdropped⟩ := System.exists_history (S := system)
    (fun _ _ _ hstep => hstep) (init_same sequencedInput rfl runCodecs_lawful.faithful) (arrival 1)
    (fun hist s => OneMissing 0 hist s ∧
      ((s.step (.act .right (.packet 0 (fragmentRaw 0)))).any fun s' =>
        delivered s'.pair.right.trace 0 = []) = true) (by decide +kernel)
  obtain ⟨ch, hch, hmode, hlast⟩ := h.exists_channel
  obtain ⟨hfew, hturn, hkept, hletters, -, -, -, -, -, -, -, hnow, -⟩ := h
  obtain ⟨s', hstep, hnothing⟩ := (Option.any_eq_true ..).mp hdropped
  exact ⟨hist, s, s', ch, hrun, hfew, hturn, hkept, hch, hmode, hletters, hlast, hnow, hstep,
    of_decide_eq_true hnothing⟩

end Traffic

end Fastwire
