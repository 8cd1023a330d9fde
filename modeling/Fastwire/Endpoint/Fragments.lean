/-
# Accepted fragments and the reassembly store

A fragment is acknowledged as soon as its sequence number is accepted, and goes
to the reassembly store afterwards. The store may drop it: a stale buffer is
evicted, `cleanup` removes old buffers, two caps refuse chunks, and a teardown
forgets everything. A message is followed here from its first to its last
fragment, through everything else that happens at the endpoint, under the
condition that none of this hits it while it is incomplete.
-/

import Fastwire.Endpoint.Invariant

namespace Fastwire

open Lib

/-- Reassembly touches at most the buffer under the identifier of the
fragment. -/
theorem Connection.lookup_reassemble_ne (c : Connection) {now : ℤ} {hdr : PacketHeader}
    {body : Bytes} {id : UInt16}
    (hne : ∀ fh n, hdr.flags &&& flagFragment ≠ 0 → unmarshalFragmentHeader body = .ok (fh, n) →
      fh.fragmentID ≠ id) :
    (c.reassemble now hdr body).1.buffers.lookup id = c.reassembly.buffers.lookup id := by
  rw [reassemble]
  split
  · rfl
  rename_i hflag
  split
  · rfl
  rename_i fh n hparse
  have hlook := c.reassembly.lookup_addFragment_ne now fh (body.drop n)
    (hne fh n hflag hparse).symm
  split <;> rename_i hadd <;> rw [hadd] at hlook
  · exact hlook
  · exact hlook
  · split <;> exact hlook

/-- A fragment that the store takes: what `addFragment` returns is decompressed
and handed on. -/
theorem Connection.reassemble_fragment (c : Connection) {now : ℤ} {hdr : PacketHeader}
    {body : Bytes} {fh : FragmentHeader} {n : ℕ} {store : ReassemblyStore} {res : Option Bytes}
    (hflag : hdr.flags &&& flagFragment ≠ 0) (hparse : unmarshalFragmentHeader body = .ok (fh, n))
    (hadd : c.reassembly.addFragment now fh (body.drop n) = (store, .ok res)) :
    (c.reassemble now hdr body).1 = store ∧
      ∀ bytes, (c.reassemble now hdr body).2 = .ok (some bytes, true) →
        ∃ assembled, res = some assembled ∧
          c.compress.decompressPayload assembled fh.fragmentFlags = .ok (some bytes) := by
  rw [reassemble, if_neg hflag]
  simp only [hparse, hadd]
  cases res with
  | none => simp
  | some assembled =>
      dsimp only
      split
      · simp
      · rename_i payload hok
        refine ⟨rfl, fun bytes hbytes => ⟨assembled, rfl, ?_⟩⟩
        rw [hok]
        simpa using hbytes

namespace Endpoint

variable {e : Endpoint} {a : Act} {fid : UInt16}

/-- The act neither lets the buffer time out nor tears the connection down. -/
def outlives (e : Endpoint) (a : Act) (buf : ReassemblyBuffer) : Bool :=
  !e.tearsDown a && match a with
    | .packet now _ => !e.conn.reassembly.stale now buf
    | .cleanup now timeout => now - buf.createdAt < timeout
    | _ => true

def admits (e : Endpoint) (fid : UInt16) : Act → Bool
  | .packet _ data =>
      match e.conn.acceptedPacket data with
      | none => true
      | some (hdr, body, _) =>
          match unmarshalFragmentHeader body with
          | .error _ => true
          | .ok (fh, n) => hdr.flags &&& flagFragment = 0 ∨ fh.fragmentID ≠ fid ∨
              e.conn.reassembly.overflows (body.drop n) = false ∧
                ((e.conn.reassembly.buffers.lookup fid).isNone = true →
                  e.conn.reassembly.full = false)
  | _ => true

/-- The act does no harm to the message with the identifier. -/
def keepsBuffer (e : Endpoint) (fid : UInt16) (a : Act) : Bool :=
  (e.conn.reassembly.buffers.lookup fid).all (e.outlives a) && e.admits fid a

theorem outlives_of_keepsBuffer (h : e.keepsBuffer fid a = true) {buf : ReassemblyBuffer}
    (hbuf : e.conn.reassembly.buffers.lookup fid = some buf) : e.outlives a buf = true := by
  simp only [keepsBuffer, hbuf, Option.all_some, Bool.and_eq_true] at h
  exact h.1

/-- A fragment finds room. -/
theorem admits_of_keepsBuffer {now : ℤ} {data : Bytes}
    (h : e.keepsBuffer fid (.packet now data) = true) {hdr : PacketHeader} {body : Bytes}
    {ch : Channel} (hpacket : e.conn.acceptedPacket data = some (hdr, body, ch))
    (hflag : hdr.flags &&& flagFragment ≠ 0) {fh : FragmentHeader} {n : ℕ}
    (hparse : unmarshalFragmentHeader body = .ok (fh, n)) (hfid : fh.fragmentID = fid) :
    e.conn.reassembly.Admits now fid (body.drop n) := by
  have hfresh : ∀ buf, e.conn.reassembly.buffers.lookup fid = some buf →
      e.conn.reassembly.stale now buf = false := by
    intro buf hbuf
    have hkept := outlives_of_keepsBuffer h hbuf
    simp only [outlives, Bool.and_eq_true, Bool.not_eq_true'] at hkept
    exact hkept.2
  simp only [keepsBuffer, admits, hpacket, hparse, Bool.and_eq_true, decide_eq_true_eq] at h
  obtain ⟨hfits, hroom⟩ := (h.2.resolve_left hflag).resolve_left fun hne => hne hfid
  exact ⟨hfresh, fun hnone => hroom (by simp [hnone]), hfits⟩

end Endpoint

/-- A fragmented message on a channel, with the sequence numbers its fragments
were given so far. -/
structure FragmentedMessage where
  channel : UInt8
  fragmentID : UInt16
  flags : UInt8
  chunks : List Bytes
  seqs : List ℕ
  numbered_le : seqs.length ≤ chunks.length
  length_pos : 0 < chunks.length
  length_le : chunks.length ≤ maxFragments
  nodup : seqs.Nodup

namespace FragmentedMessage

variable (m : FragmentedMessage) {e e' : Endpoint} {a : Act}

def got (e : Endpoint) : Set ℕ :=
  { i | ∃ seq, m.seqs[i]? = some seq ∧ seq ∈ acceptedOn e.trace m.channel }

/-- Every fragment has been accepted. -/
def Received (e : Endpoint) : Prop := ∀ i < m.chunks.length, i ∈ m.got e

/-- Some fragment has been accepted, but not every one. -/
def Partial (e : Endpoint) : Prop :=
  (∃ seq ∈ m.seqs, seq ∈ acceptedOn e.trace m.channel) ∧ ¬ m.Received e

/-- The payload has been handed to `deliver` in the slot of one fragment, and
the slots of the others got placeholders. -/
def Handed (e : Endpoint) : Prop :=
  ∃ seq ∈ m.seqs, ∃ payload,
    e.conn.compress.decompressPayload m.chunks.flatten m.flags = .ok payload ∧
    payloadAt e.trace m.channel seq = some payload ∧
    ∀ other ∈ m.seqs, other ≠ seq → payloadAt e.trace m.channel other = some none

/-- The packets with the sequence numbers of the message are its fragments. -/
def Carries (e : Endpoint) (a : Act) : Prop :=
  ∀ now data, a = .packet now data → ∀ hdr body ch,
    e.conn.acceptedPacket data = some (hdr, body, ch) → hdr.channel = m.channel →
    ∀ i, m.seqs[i]? = some hdr.sequence.toNat →
      hdr.flags &&& flagFragment ≠ 0 ∧
      unmarshalFragmentHeader body =
        .ok (⟨m.fragmentID, UInt8.ofNat i, UInt8.ofNat m.chunks.length, m.flags⟩,
          fragmentHeaderSize) ∧
      m.chunks[i]? = some (body.drop fragmentHeaderSize)

/-- The step does not make the store lose an accepted fragment of the message. -/
structure Keeps (e : Endpoint) (a : Act) : Prop where
  /-- Neither cap is hit, and the identifier is free for the first fragment. -/
  room : ∀ now data, a = .packet now data → ∀ hdr body ch,
    e.conn.acceptedPacket data = some (hdr, body, ch) → hdr.channel = m.channel →
    hdr.sequence.toNat ∈ m.seqs →
      (e.conn.reassembly.evictStale now m.fragmentID).Admits now m.fragmentID
        (body.drop fragmentHeaderSize) ∧
      (m.got e = ∅ →
        (e.conn.reassembly.evictStale now m.fragmentID).buffers.lookup m.fragmentID = none)
  /-- The collected chunks are not stale. -/
  fresh : ∀ now data, a = .packet now data → m.Partial e →
    ∀ buf, e.conn.reassembly.buffers.lookup m.fragmentID = some buf →
      e.conn.reassembly.stale now buf = false
  /-- No other message uses the identifier meanwhile. -/
  apart : ∀ now data, a = .packet now data → ∀ hdr body ch fh n,
    e.conn.acceptedPacket data = some (hdr, body, ch) → hdr.flags &&& flagFragment ≠ 0 →
    unmarshalFragmentHeader body = .ok (fh, n) → fh.fragmentID = m.fragmentID → m.Partial e →
      hdr.channel = m.channel ∧ hdr.sequence.toNat ∈ m.seqs
  /-- The complete message can be decompressed. -/
  decodes : ∃ payload,
    e.conn.compress.decompressPayload m.chunks.flatten m.flags = .ok payload
  cleanup : ∀ now timeout, a = .cleanup now timeout → m.Partial e →
    ∀ buf, e.conn.reassembly.buffers.lookup m.fragmentID = some buf →
      now - buf.createdAt < timeout
  teardown : e.tearsDown a = true → ¬ m.Partial e

/-- The invariant: an incomplete message is in the store, chunk by chunk, and a
complete one has been handed on. -/
structure Tracked (e : Endpoint) : Prop where
  stored : m.Partial e → ∃ buf, e.conn.reassembly.buffers.lookup m.fragmentID = some buf ∧
    buf.Holds m.chunks m.flags (m.got e)
  placeholder : m.Partial e → ∀ seq ∈ m.seqs, seq ∈ acceptedOn e.trace m.channel →
    payloadAt e.trace m.channel seq = some none
  handed : m.Received e → m.Handed e

variable {m}

theorem Received.mem (h : m.Received e) {seq : ℕ} (hseq : seq ∈ m.seqs) :
    seq ∈ acceptedOn e.trace m.channel := by
  obtain ⟨i, hi⟩ := List.mem_iff_getElem?.mp hseq
  have hlt := (List.getElem?_eq_some_iff.mp hi).1
  obtain ⟨seq', hseq', hmem⟩ := h i (hlt.trans_le m.numbered_le)
  obtain rfl : seq = seq' := Option.some.inj (hi.symm.trans hseq')
  exact hmem

section Congr

variable (hacc : ∀ seq ∈ m.seqs,
  (seq ∈ acceptedOn e'.trace m.channel ↔ seq ∈ acceptedOn e.trace m.channel))
include hacc

/-- What is known about a message depends on what is accepted of it. -/
theorem got_congr : m.got e' = m.got e := by
  ext i
  refine exists_congr fun seq => and_congr_right fun hseq => ?_
  exact hacc seq (List.mem_of_getElem? hseq)

theorem received_congr : m.Received e' ↔ m.Received e := by
  rw [Received, Received, got_congr hacc]

theorem partial_congr : m.Partial e' ↔ m.Partial e := by
  rw [Partial, Partial, received_congr hacc]
  refine and_congr_left fun _ => exists_congr fun seq => ?_
  exact and_congr_right (hacc seq)

/-- The invariant survives a step that neither accepts a fragment of the message
nor touches its buffer. -/
theorem Tracked.congr (h : m.Tracked e)
    (hpay : ∀ seq ∈ m.seqs, payloadAt e'.trace m.channel seq = payloadAt e.trace m.channel seq)
    (hco : e'.conn.compress = e.conn.compress)
    (hlook : m.Partial e → e'.conn.reassembly.buffers.lookup m.fragmentID =
      e.conn.reassembly.buffers.lookup m.fragmentID) : m.Tracked e' where
  stored hpart := by
    rw [partial_congr hacc] at hpart
    rw [hlook hpart, got_congr hacc]
    exact h.stored hpart
  placeholder hpart seq hseq hmem := by
    rw [partial_congr hacc] at hpart
    rw [hpay seq hseq]
    exact h.placeholder hpart seq hseq ((hacc seq hseq).mp hmem)
  handed hrec := by
    rw [received_congr hacc] at hrec
    obtain ⟨seq, hseq, payload, hdec, hhere, hothers⟩ := h.handed hrec
    refine ⟨seq, hseq, payload, hco ▸ hdec, (hpay seq hseq).trans hhere, ?_⟩
    intro other hother hne
    rw [hpay other hother]
    exact hothers other hother hne

end Congr

/-- Idle steps. -/
theorem Tracked.idle (h : m.Tracked e) (hidle : e.Idle a e') (hkeeps : m.Keeps e a) :
    m.Tracked e' := by
  refine h.congr (fun seq _ => by rw [hidle.acceptedOn_eq]) (fun seq _ => hidle.payloadAt_eq _ seq)
    hidle.compress_eq ?_
  intro hpart
  obtain ⟨buf, hbuf, -⟩ := h.stored hpart
  have htorn : e.tearsDown a = false := by
    rw [← Bool.not_eq_true]
    exact fun htorn => hkeeps.teardown htorn hpart
  rw [hidle.store_eq]
  cases a with
  | cleanup now timeout =>
      have hyoung := hkeeps.cleanup now timeout rfl hpart buf hbuf
      simp [Endpoint.storeAfter, ReassemblyStore.cleanup, Table.lookup_filter, hbuf, hyoung]
  | _ => simp [Endpoint.storeAfter, htorn]

/-- What the store holds of the message when its next fragment comes. -/
theorem Tracked.collects {now : ℤ} {data : Bytes} {hdr : PacketHeader} {body : Bytes}
    {ch : Channel} (h : m.Tracked e) (hkeeps : m.Keeps e (.packet now data))
    (hpacket : e.conn.acceptedPacket data = some (hdr, body, ch)) (hch : hdr.channel = m.channel)
    (hmem : hdr.sequence.toNat ∈ m.seqs)
    (hnew : hdr.sequence.toNat ∉ acceptedOn e.trace m.channel) :
    (e.conn.reassembly.evictStale now m.fragmentID).Collects m.fragmentID m.chunks m.flags
      (m.got e) := by
  by_cases hempty : m.got e = ∅
  · have hnone := (hkeeps.room now data rfl hdr body ch hpacket hch hmem).2 hempty
    simpa [ReassemblyStore.Collects, hnone] using hempty
  · obtain ⟨i, seq, hseq, haccepted⟩ := Set.nonempty_iff_ne_empty.mpr hempty
    have hpart : m.Partial e :=
      ⟨⟨seq, List.mem_of_getElem? hseq, haccepted⟩, fun hall => hnew (hall.mem hmem)⟩
    obtain ⟨buf, hbuf, hholds⟩ := h.stored hpart
    rw [ReassemblyStore.evictStale_eq (hkeeps.fresh now data rfl hpart)]
    simpa [ReassemblyStore.Collects, hbuf] using hholds

section Accepting

variable {now : ℤ} {data : Bytes} {hdr : PacketHeader} {body : Bytes} {ch ch' : Channel}
  {acks events : List Event} {ps : List PendingPacket} {n : ℤ}
  (hinv : ReceiveInv e.trace hdr.channel ch)
  (hpacket : e.conn.acceptedPacket data = some (hdr, body, ch))
  (hacc : e.conn.Accepting now hdr body ch acks ps n e'.conn ch' events)
  (htrace : e'.trace = e.trace ++ events)

include hacc htrace

include hpacket in
/-- An accepted packet that is not a fragment of the message. -/
theorem Tracked.other (h : m.Tracked e) (hkeeps : m.Keeps e (.packet now data))
    (hnot : ¬ (hdr.channel = m.channel ∧ hdr.sequence.toNat ∈ m.seqs)) : m.Tracked e' := by
  have hmem : ∀ seq ∈ m.seqs,
      (seq ∈ acceptedOn e'.trace m.channel ↔ seq ∈ acceptedOn e.trace m.channel) := by
    intro seq hseq
    rw [htrace, acceptedOn_append, hacc.acceptedOn_events]
    split
    · rename_i hch
      have hne : seq ≠ hdr.sequence.toNat := by
        rintro rfl
        exact hnot ⟨hch.symm, hseq⟩
      simp [hne]
    · simp
  refine h.congr hmem ?_ hacc.compress_eq ?_
  · intro seq hseq
    rw [htrace, payloadAt_append]
    cases hres : (e.conn.reassemble now hdr body).2 with
    | error err => rw [hacc.payloadAt_error hres, Option.or_none]
    | ok result =>
        have hne : ¬ (m.channel = hdr.channel ∧ seq = hdr.sequence.toNat) := by
          rintro ⟨hch, rfl⟩
          exact hnot ⟨hch.symm, hseq⟩
        rw [hacc.payloadAt_ok hres, if_neg hne, Option.or_none]
  · intro hpart
    rw [hacc.reassembly_eq]
    apply e.conn.lookup_reassemble_ne
    intro fh n hflag hparse heq
    exact hnot (hkeeps.apart now data rfl hdr body ch fh n hpacket hflag hparse heq hpart)

/-- Accepting a fragment of the message. -/
theorem got_insert {i : ℕ} (hch : hdr.channel = m.channel)
    (hi : m.seqs[i]? = some hdr.sequence.toNat) : m.got e' = insert i (m.got e) := by
  have hmem : ∀ seq, seq ∈ acceptedOn e'.trace m.channel ↔
      seq = hdr.sequence.toNat ∨ seq ∈ acceptedOn e.trace m.channel := by
    intro seq
    rw [htrace, ← hch, ReceiveInv.acceptedOn_accepting hacc, Set.mem_insert_iff]
  ext k
  simp only [got, hmem, Set.mem_ofPred_eq, Set.mem_insert_iff]
  constructor
  · rintro ⟨seq, hk, rfl | hold⟩
    · have hlt := (List.getElem?_eq_some_iff.mp hk).1
      exact .inl ((List.getElem?_inj hlt m.nodup).mp (hk.trans hi.symm))
    · exact .inr ⟨seq, hk, hold⟩
  · rintro (rfl | ⟨seq, hk, hold⟩)
    · exact ⟨_, hi, .inl rfl⟩
    · exact ⟨seq, hk, .inr hold⟩

/-- A fragment that does not complete the message. -/
theorem tracked_of_incomplete (h : m.Tracked e) (hinv : ReceiveInv e.trace hdr.channel ch)
    (hch : hdr.channel = m.channel) {i : ℕ} (hi : m.seqs[i]? = some hdr.sequence.toNat)
    (hres : (e.conn.reassemble now hdr body).2 = .ok (none, false))
    (hmore : ∃ k < m.chunks.length, k ∉ insert i (m.got e))
    (hcoll : e'.conn.reassembly.Collects m.fragmentID m.chunks m.flags (insert i (m.got e))) :
    m.Tracked e' := by
  have hgot := got_insert hacc htrace hch hi
  have hnot : ¬ m.Received e' := by
    rw [Received, hgot]
    obtain ⟨k, hk, hmissing⟩ := hmore
    exact fun hall => hmissing (hall k hk)
  refine ⟨fun _ => ?_, fun _ seq hseq haccepted => ?_, fun hall => absurd hall hnot⟩
  · rw [hgot]
    simp only [ReassemblyStore.Collects] at hcoll
    split at hcoll
    · exact absurd hcoll (Set.insert_nonempty i _).ne_empty
    · rename_i buf hbuf
      exact ⟨buf, hbuf, hcoll⟩
  · rw [htrace, ← hch, hinv.payloadAt_accepting hacc hres]
    split
    · rfl
    · rename_i hne
      rw [htrace, ← hch, ReceiveInv.acceptedOn_accepting hacc] at haccepted
      rw [hch] at haccepted ⊢
      have hold := haccepted.resolve_left hne
      refine h.placeholder ⟨⟨seq, hseq, hold⟩, fun hall => ?_⟩ seq hseq hold
      exact (hinv.fresh_number hacc).1 (hch ▸ hall.mem (List.mem_of_getElem? hi))

/-- The fragment that completes it. -/
theorem tracked_of_complete (h : m.Tracked e) (hinv : ReceiveInv e.trace hdr.channel ch)
    (hch : hdr.channel = m.channel) {i : ℕ} (hi : m.seqs[i]? = some hdr.sequence.toNat)
    {payload : Slice} {emit : Bool}
    (hdec : e.conn.compress.decompressPayload m.chunks.flatten m.flags = .ok payload)
    (hres : (e.conn.reassemble now hdr body).2 = .ok (payload, emit))
    (hall : ∀ k < m.chunks.length, k ∈ insert i (m.got e)) : m.Tracked e' := by
  have hrec : m.Received e' := by
    rw [Received, got_insert hacc htrace hch hi]
    exact hall
  refine ⟨fun hpart => absurd hrec hpart.2, fun hpart => absurd hrec hpart.2, fun _ => ?_⟩
  refine ⟨hdr.sequence.toNat, List.mem_of_getElem? hi, payload, hacc.compress_eq ▸ hdec, ?_, ?_⟩
  · rw [htrace, ← hch, hinv.payloadAt_accepting hacc hres, if_pos rfl]
  · intro other hother hne
    have haccepted := hrec.mem hother
    rw [htrace, ← hch, ReceiveInv.acceptedOn_accepting hacc] at haccepted
    rw [htrace, ← hch, hinv.payloadAt_accepting hacc hres, if_neg hne]
    rw [hch] at haccepted ⊢
    have hold := haccepted.resolve_left hne
    refine h.placeholder ⟨⟨other, hother, hold⟩, fun hbefore => ?_⟩ other hother hold
    exact (hinv.fresh_number hacc).1 (hch ▸ hbefore.mem (List.mem_of_getElem? hi))

end Accepting

/-- What reassembly does with a fragment of the message that is still missing. -/
theorem Tracked.reassemble {now : ℤ} {data : Bytes} {hdr : PacketHeader} {body : Bytes}
    {ch : Channel} (h : m.Tracked e) (hcarries : m.Carries e (.packet now data))
    (hkeeps : m.Keeps e (.packet now data))
    (hpacket : e.conn.acceptedPacket data = some (hdr, body, ch)) (hch : hdr.channel = m.channel)
    {i : ℕ} (hi : m.seqs[i]? = some hdr.sequence.toNat)
    (hnew : hdr.sequence.toNat ∉ acceptedOn e.trace m.channel) :
    ∃ store, ((∃ k < m.chunks.length, k ∉ insert i (m.got e)) ∧
          e.conn.reassemble now hdr body = (store, .ok (none, false)) ∧
          store.Collects m.fragmentID m.chunks m.flags (insert i (m.got e))) ∨
        ((∀ k < m.chunks.length, k ∈ insert i (m.got e)) ∧
          (∃ payload, e.conn.compress.decompressPayload m.chunks.flatten m.flags = .ok payload ∧
            e.conn.reassemble now hdr body = (store, .ok (payload, true))) ∧
          store.buffers.lookup m.fragmentID = none) := by
  have hmem := List.mem_of_getElem? hi
  obtain ⟨hflag, hparse, hchunk⟩ := hcarries now data rfl hdr body ch hpacket hch i hi
  have hmissing : i ∉ m.got e := by
    rintro ⟨seq, hseq, hold⟩
    rw [hi, Option.some.injEq] at hseq
    exact hnew (hseq ▸ hold)
  obtain ⟨hadm, -⟩ := hkeeps.room now data rfl hdr body ch hpacket hch hmem
  obtain ⟨payload, hdec⟩ := hkeeps.decodes
  obtain ⟨store, res, hadd, hcase⟩ := ReassemblyStore.addFragment_collects
    (h.collects hkeeps hpacket hch hmem hnew) hadm hchunk hmissing m.length_le
  have hlt := (List.getElem?_eq_some_iff.mp hchunk).1
  have hadd := (ReassemblyStore.addFragment_evictStale hlt m.length_le _).symm.trans hadd
  refine ⟨store, hcase.imp ?_ ?_⟩
  · rintro ⟨hmore, rfl, hcoll⟩
    exact ⟨hmore, by simp [Connection.reassemble, hflag, hparse, hadd], hcoll⟩
  · rintro ⟨hall, rfl, hgone⟩
    exact ⟨hall, ⟨payload, hdec, by simp [Connection.reassemble, hflag, hparse, hadd, hdec]⟩, hgone⟩

/-- **One step** keeps track of the message. -/
theorem Tracked.step (h : m.Tracked e) (hsound : e.Sound) (hcarries : m.Carries e a)
    (hkeeps : m.Keeps e a) (hstep : e.step a = some e') : m.Tracked e' := by
  rcases Endpoint.step_cases hstep with hidle | hacc
  · exact h.idle hidle hkeeps
  obtain ⟨now, data, hdr, body, ch, acks, ps, n, ch', events, rfl, hpacket, hacc, heq⟩ := hacc
  have htrace : e'.trace = e.trace ++ events := by rw [heq]
  have hinv := hsound _ ch hacc.channel_eq
  by_cases hown : hdr.channel = m.channel ∧ hdr.sequence.toNat ∈ m.seqs
  swap
  · exact h.other hpacket hacc htrace hkeeps hown
  obtain ⟨hch, hmem⟩ := hown
  obtain ⟨i, hi⟩ := List.mem_iff_getElem?.mp hmem
  obtain ⟨store, hcase⟩ := h.reassemble hcarries hkeeps hpacket hch hi
    (hch ▸ (hinv.fresh_number hacc).1)
  rcases hcase with ⟨hmore, hre, hcoll⟩ | ⟨hall, ⟨payload, hdec, hre⟩, -⟩
  · refine tracked_of_incomplete hacc htrace h hinv hch hi (by rw [hre]) hmore ?_
    rw [hacc.reassembly_eq, hre]
    exact hcoll
  · exact tracked_of_complete hacc htrace h hinv hch hi hdec (by rw [hre]) hall

/-- **Acknowledged fragments are not lost.** In every run that carries the
message and keeps its fragments, the message has been handed to `deliver` once
all of its fragments are accepted. -/
theorem handed_of_received {hist : List (Endpoint × Act)} (hrun : Endpoint.system.Run hist e)
    (hcarries : System.Guarded m.Carries hist) (hkeeps : System.Guarded m.Keeps hist)
    (hrec : m.Received e) : m.Handed e := by
  have hguarded : System.Guarded (fun e a => m.Carries e a ∧ m.Keeps e a) hist :=
    fun taken htaken => ⟨hcarries taken htaken, hkeeps taken htaken⟩
  have htracked : m.Tracked e := by
    refine hrun.guarded_invariant ?_ ?_ hguarded
    · rintro e ⟨input, now, rfl⟩
      have hnone : ∀ seq, seq ∉ acceptedOn (Endpoint.start input now).trace m.channel := by
        simp [Endpoint.start]
      refine ⟨fun hpart => ?_, fun hpart => ?_, fun hall => ?_⟩
      · obtain ⟨⟨seq, -, hseq⟩, -⟩ := hpart
        exact absurd hseq (hnone seq)
      · obtain ⟨⟨seq, -, hseq⟩, -⟩ := hpart
        exact absurd hseq (hnone seq)
      · obtain ⟨seq, -, hseq⟩ := hall 0 m.length_pos
        exact absurd hseq (hnone seq)
    · rintro hist e a e' hprior htracked ⟨hcar, hkeep⟩ hstep
      exact htracked.step (Endpoint.sound_of_run hprior) hcar hkeep hstep
  exact htracked.handed hrec

/-! ## Following a message -/

variable (m) in
/-- Does the packet carry the fragment with its number, and is the identifier free for
the first one? -/
def ownFragment (e : Endpoint) (hdr : PacketHeader) (body : Bytes) : Bool :=
  let i := m.seqs.idxOf hdr.sequence.toNat
  hdr.flags &&& flagFragment ≠ 0 ∧
    unmarshalFragmentHeader body =
      .ok (⟨m.fragmentID, UInt8.ofNat i, UInt8.ofNat m.chunks.length, m.flags⟩,
        fragmentHeaderSize) ∧
    m.chunks[i]? = some (body.drop fragmentHeaderSize) ∧
    ((∃ seq ∈ m.seqs, seq ∈ acceptedOn e.trace m.channel) ∨
      (e.conn.reassembly.buffers.lookup m.fragmentID).isNone)

/-- Is the packet a fragment of another message with the same identifier? -/
def sharesID (fid : UInt16) (hdr : PacketHeader) (body : Bytes) : Bool :=
  hdr.flags &&& flagFragment ≠ 0 ∧
    (unmarshalFragmentHeader body).toOption.any fun header => header.1.fragmentID = fid

variable (m) in
/-- The act carries the message and keeps its fragments, as far as the state shows. -/
def follows (e : Endpoint) (a : Act) : Bool :=
  e.keepsBuffer m.fragmentID a && !e.tearsDown a &&
    (e.conn.compress.decompressPayload m.chunks.flatten m.flags).isOk &&
    match a with
    | .packet _ data => (e.conn.acceptedPacket data).all fun (hdr, body, _) =>
        if hdr.channel = m.channel ∧ hdr.sequence.toNat ∈ m.seqs then m.ownFragment e hdr body
        else !sharesID m.fragmentID hdr body
    | _ => true

section Follows

variable (h : m.follows e a = true)

include h

theorem follows_parts : e.keepsBuffer m.fragmentID a = true ∧ e.tearsDown a = false ∧
    ∃ payload, e.conn.compress.decompressPayload m.chunks.flatten m.flags = .ok payload := by
  simp only [follows, Bool.and_eq_true, Bool.not_eq_true'] at h
  refine ⟨h.1.1.1, h.1.1.2, ?_⟩
  have hok := h.1.2
  cases hdec : e.conn.compress.decompressPayload m.chunks.flatten m.flags with
  | error err => simp [hdec, Except.isOk, Except.toBool] at hok
  | ok payload => exact ⟨payload, rfl⟩

variable {now : ℤ} {data : Bytes} (hact : a = .packet now data) {hdr : PacketHeader}
  {body : Bytes} {ch : Channel} (hpacket : e.conn.acceptedPacket data = some (hdr, body, ch))

include hact hpacket

theorem ownFragment_of_follows (hchannel : hdr.channel = m.channel)
    (hseq : hdr.sequence.toNat ∈ m.seqs) : m.ownFragment e hdr body = true := by
  subst hact
  simp only [follows, hpacket, Option.all_some, Bool.and_eq_true] at h
  simpa [hchannel, hseq] using h.2

theorem not_sharesID_of_follows
    (hother : ¬ (hdr.channel = m.channel ∧ hdr.sequence.toNat ∈ m.seqs)) :
    sharesID m.fragmentID hdr body = false := by
  subst hact
  simp only [follows, hpacket, Option.all_some, Bool.and_eq_true] at h
  simpa [hother] using h.2

end Follows

theorem carries_of_follows (h : m.follows e a = true) : m.Carries e a := by
  intro now data hact hdr body ch hpacket hchannel i hi
  have hown := ownFragment_of_follows h hact hpacket hchannel (List.mem_of_getElem? hi)
  obtain ⟨hlt, hget⟩ := List.getElem?_eq_some_iff.mp hi
  have hindex : m.seqs.idxOf hdr.sequence.toNat = i := by
    rw [← hget]
    exact m.nodup.idxOf_getElem i hlt
  simp only [ownFragment, hindex, decide_eq_true_eq] at hown
  exact ⟨hown.1, hown.2.1, hown.2.2.1⟩

theorem keeps_of_follows (h : m.follows e a = true) : m.Keeps e a := by
  obtain ⟨hbuffer, htorn, hdecodes⟩ := follows_parts h
  have hfresh : ∀ now data, a = .packet now data → ∀ buf,
      e.conn.reassembly.buffers.lookup m.fragmentID = some buf →
        e.conn.reassembly.stale now buf = false := by
    rintro now data rfl buf hbuf
    have hkept := Endpoint.outlives_of_keepsBuffer hbuffer hbuf
    simp only [Endpoint.outlives, Bool.and_eq_true, Bool.not_eq_true'] at hkept
    exact hkept.2
  refine ⟨?_, fun now data hact _ => hfresh now data hact, ?_, hdecodes, ?_, ?_⟩
  · intro now data hact hdr body ch hpacket hchannel hseq
    have hown := ownFragment_of_follows h hact hpacket hchannel hseq
    simp only [ownFragment, decide_eq_true_eq] at hown
    obtain ⟨hflag, hparse, -, hfirst⟩ := hown
    rw [ReassemblyStore.evictStale_eq (hfresh now data hact)]
    subst hact
    refine ⟨Endpoint.admits_of_keepsBuffer hbuffer hpacket hflag hparse rfl, fun hnone => ?_⟩
    rcases hfirst with ⟨seq, hmem, hacc⟩ | hfree
    · obtain ⟨i, hi⟩ := List.mem_iff_getElem?.mp hmem
      have hgot : i ∈ m.got e := ⟨seq, hi, hacc⟩
      rw [hnone] at hgot
      cases hgot
    · exact Option.isNone_iff_eq_none.mp hfree
  · intro now data hact hdr body ch fh n hpacket hflag hparse hfid _
    by_contra hother
    have hshares := not_sharesID_of_follows h hact hpacket hother
    simp [sharesID, hflag, hparse, hfid, Except.toOption] at hshares
  · rintro now timeout rfl _ buf hbuf
    have hkept := Endpoint.outlives_of_keepsBuffer hbuffer hbuf
    simp only [Endpoint.outlives, Bool.and_eq_true, decide_eq_true_eq] at hkept
    exact hkept.2
  · intro htears
    rw [htorn] at htears
    cases htears

/-- A message of two fragments. -/
def pieces : FragmentedMessage where
  channel := 0
  fragmentID := 1
  flags := 0
  chunks := [[65], [66]]
  seqs := [1, 2]
  numbered_le := by decide
  length_pos := by decide
  length_le := by decide
  nodup := by decide

/-- Three seconds pass between the fragments, with a `cleanup`, and meanwhile the first
fragment of another message arrives. -/
theorem handed_of_received_pieces :
    ∃ hist e, Endpoint.system.Run hist e ∧ System.Guarded pieces.Carries hist ∧
      System.Guarded pieces.Keeps hist ∧ (∃ taken ∈ hist, pieces.Partial taken.1) ∧
      1 ∈ acceptedOn e.trace 1 ∧ pieces.Received e ∧ pieces.Handed e := by
  let acts : List Act :=
    [.packet 0 [1, 0, 1, 0, 0, 0, 0, 0, 0, 1, 0, 2, 0, 65], .cleanup second (5 * second),
      .packet (2 * second) [1, 1, 1, 0, 0, 0, 0, 0, 0, 2, 0, 2, 0, 70],
      .packet (3 * second) [1, 0, 2, 0, 0, 0, 0, 0, 0, 1, 1, 2, 0, 66]]
  obtain ⟨hist, e, hrun, hfollows, hpart, hother, hfirst, hsecond⟩ :=
    System.exists_history (S := Endpoint.system) (fun _ _ _ hstep => hstep)
      ⟨plainInput [(.reliableOrdered, 0), (.reliableUnordered, 0)], 0, rfl⟩ acts
      (fun hist e => System.Guarded (fun e a => pieces.follows e a = true) hist ∧
        (∃ taken ∈ hist, 1 ∈ acceptedOn taken.1.trace 0 ∧ 2 ∉ acceptedOn taken.1.trace 0) ∧
        1 ∈ acceptedOn e.trace 1 ∧ 1 ∈ acceptedOn e.trace 0 ∧ 2 ∈ acceptedOn e.trace 0)
      (by decide +kernel)
  have hcarries : System.Guarded pieces.Carries hist :=
    fun taken htaken => carries_of_follows (hfollows taken htaken)
  have hkeeps : System.Guarded pieces.Keeps hist :=
    fun taken htaken => keeps_of_follows (hfollows taken htaken)
  have hrec : pieces.Received e := by
    rintro (_ | _ | i) hi
    · exact ⟨1, rfl, hfirst⟩
    · exact ⟨2, rfl, hsecond⟩
    · exact absurd hi (Nat.not_lt.mpr (Nat.le_add_left 2 i))
  obtain ⟨taken, htaken, hthere, hmissing⟩ := hpart
  have hpartial : pieces.Partial taken.1 := by
    refine ⟨⟨1, by decide, hthere⟩, fun hall => hmissing ?_⟩
    obtain ⟨seq, hseq, hmem⟩ := hall 1 (by decide)
    cases hseq
    exact hmem
  exact ⟨hist, e, hrun, hcarries, hkeeps, ⟨taken, htaken, hpartial⟩, hother, hrec,
    handed_of_received hrun hcarries hkeeps hrec⟩

/-- Two fragments, of which the second comes more than five seconds after the
first. Both are accepted, and both slots hold placeholders. -/
theorem late_fragment_loses_message :
    ∃ hist e, Endpoint.system.Run hist e ∧
      (Endpoint.start (plainInput [(.reliableOrdered, 0)]) 0).exec
        [.packet 0 [1, 0, 1, 0, 0, 0, 0, 0, 0, 1, 0, 2, 0, 65], .cleanup (5 * second) (5 * second),
          .packet (6 * second) [1, 0, 2, 0, 0, 0, 0, 0, 0, 1, 1, 2, 0, 66]] = some e ∧
      1 ∈ acceptedOn e.trace 0 ∧ 2 ∈ acceptedOn e.trace 0 ∧
      payloadAt e.trace 0 1 = some none ∧ payloadAt e.trace 0 2 = some none := by
  have hany : ((Endpoint.start (plainInput [(.reliableOrdered, 0)]) 0).exec
      [.packet 0 [1, 0, 1, 0, 0, 0, 0, 0, 0, 1, 0, 2, 0, 65], .cleanup (5 * second) (5 * second),
        .packet (6 * second) [1, 0, 2, 0, 0, 0, 0, 0, 0, 1, 1, 2, 0, 66]]).any (fun e =>
      1 ∈ acceptedOn e.trace 0 ∧ 2 ∈ acceptedOn e.trace 0 ∧
        payloadAt e.trace 0 1 = some none ∧ payloadAt e.trace 0 2 = some none) = true := by
    decide +kernel
  obtain ⟨e, hexec, hlost⟩ := (Option.any_eq_true ..).mp hany
  obtain ⟨hist, hrun⟩ := Endpoint.run_exec (.start ⟨_, 0, rfl⟩) hexec
  exact ⟨hist, e, hrun, hexec, of_decide_eq_true hlost⟩

end FragmentedMessage

end Fastwire
