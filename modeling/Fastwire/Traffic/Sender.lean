/-
# The packets of all messages

The sender's side of the traffic. Whatever the sender seals is a packet of one of the
messages. An identifier goes to one message, as long as not all have been used up.
-/

import Fastwire.Traffic.Basic
import Fastwire.Compress
import Fastwire.Endpoint.SendSide

namespace Fastwire

open Lib

/-! ## Moves -/

namespace Traffic

/-- The left end after it has taken an identifier. -/
def identified (s : Traffic) : Pair :=
  s.pair.set .left { s.pair.left with conn := s.pair.left.conn.nextFragmentID.1 }

/-- The moves, one constructor for each kind. -/
inductive Steps (s : Traffic) : TrafficMove → Traffic → Prop
  | single (id : UInt8) (data : Bytes) :
      Steps s (.post id data) ⟨s.pair, s.letters ++ [⟨id, data, data, 0, none, [data], []⟩]⟩
  | rejected (id : UInt8) (data : Bytes) :
      Steps s (.post id data) ⟨s.identified, s.letters⟩
  | split (id : UInt8) (data payload : Bytes) (flags : UInt8) (bodies : List Bytes)
      (hcompress : s.pair.left.conn.compress.compressPayload data = .ok (payload, flags))
      (hsplit : splitMessage payload s.pair.left.conn.nextFragmentID.2 flags = .ok bodies) :
      Steps s (.post id data) ⟨s.identified, s.letters ++
        [⟨id, data, payload, flags, some s.pair.left.conn.nextFragmentID.2, bodies, []⟩]⟩
  | build (i seq : ℕ) (m : Letter) (body : Bytes) (e' : Endpoint) (hm : s.letters[i]? = some m)
      (hbody : m.bodies[m.seqs.length]? = some body)
      (hstep : s.pair.left.step (.stamp m.channel seq m.fragmentID.isSome body) = some e') :
      Steps s (.build i seq) ⟨s.pair.set .left e', s.letters.set i (m.build seq)⟩
  | left (a : Act) (e' : Endpoint) (hmay : mayAct a = true)
      (hauth : s.pair.authentic .left a = true) (hstep : s.pair.left.step a = some e') :
      Steps s (.act .left a) ⟨s.pair.set .left e', s.letters⟩
  | right (a : Act) (e' : Endpoint) (hauth : s.pair.authentic .right a = true)
      (hstep : s.pair.right.step a = some e') :
      Steps s (.act .right a) ⟨s.pair.set .right e', s.letters⟩

variable {s s' : Traffic} {move : TrafficMove}

theorem steps_of_step (hstep : s.step move = some s') : Steps s move s' := by
  cases move with
  | post id data =>
      simp only [step, post] at hstep
      split at hstep
      swap
      · cases hstep
      split at hstep
      · cases hstep
      rename_i payload flags hcompress
      split at hstep
      · split at hstep
        · cases hstep
          exact .rejected id data
        · rename_i bodies hsplit
          cases hstep
          exact .split id data payload flags bodies hcompress hsplit
      · rename_i hsmall
        cases hstep
        obtain rfl : flags = 0 := by
          by_contra hne
          exact hsmall (.inr hne)
        obtain rfl := CompressorPool.eq_of_compressPayload_zero hcompress
        exact .single id payload
  | build i seq =>
      simp only [step, Option.bind_eq_bind, Option.bind_eq_some_iff] at hstep
      obtain ⟨m, hm, ⟨fragment, body⟩, hnext, pair, hpair, hstep⟩ := hstep
      cases hstep
      simp only [Letter.nextPacket, Option.map_eq_some_iff, Prod.mk.injEq] at hnext
      obtain ⟨body, hbody, rfl, rfl⟩ := hnext
      obtain ⟨-, e', he', rfl⟩ := Pair.step_eq_some_iff.mp hpair
      exact .build i seq m body e' hm hbody he'
  | act side a =>
      cases side with
      | left =>
          simp only [step] at hstep
          split at hstep
          swap
          · cases hstep
          rename_i hmay
          obtain ⟨pair, hpair, rfl⟩ := Option.map_eq_some_iff.mp hstep
          obtain ⟨hauth, e', he', rfl⟩ := Pair.step_eq_some_iff.mp hpair
          exact .left a e' hmay hauth he'
      | right =>
          obtain ⟨pair, hpair, rfl⟩ := Option.map_eq_some_iff.mp hstep
          obtain ⟨hauth, e', he', rfl⟩ := Pair.step_eq_some_iff.mp hpair
          exact .right a e' hauth he'

/-- The two ends go through a run of a pair. -/
theorem run_pair {hist : List (Traffic × TrafficMove)} (hrun : system.Run hist s) :
    ∃ hist', Pair.system.Run hist' s.pair := by
  induction hrun with
  | start starts => exact ⟨[], .start starts.1⟩
  | @step hist s s' move prior taken ih =>
      obtain ⟨hist', hprior⟩ := ih
      have htake : s.pair.step (.left, .nextFragmentID) = some s.identified :=
        Pair.step_eq_some_iff.mpr ⟨rfl, _, rfl, rfl⟩
      cases steps_of_step taken with
      | single => exact ⟨hist', hprior⟩
      | rejected => exact ⟨_, .step hprior htake⟩
      | split => exact ⟨_, .step hprior htake⟩
      | build i seq m body e' hm hbody hstep =>
          have hpair : s.pair.step (.left, .stamp m.channel seq m.fragmentID.isSome body) =
              some (s.pair.set .left e') := Pair.step_eq_some_iff.mpr ⟨rfl, e', hstep, rfl⟩
          exact ⟨_, .step hprior hpair⟩
      | left a e' hmay hauth hstep =>
          exact ⟨_, .step hprior (Pair.step_eq_some_iff.mpr ⟨hauth, e', hstep, rfl⟩)⟩
      | right a e' hauth hstep =>
          exact ⟨_, .step hprior (Pair.step_eq_some_iff.mpr ⟨hauth, e', hstep, rfl⟩)⟩

end Traffic

/-! ## Messages -/

namespace Letter

variable {m m' : Letter}

/-- The same message at a later time: more of its packets are built. -/
def Later (m m' : Letter) : Prop := ∃ more, m' = { m with seqs := m.seqs ++ more }

theorem Later.refl (m : Letter) : m.Later m := ⟨[], by simp⟩

theorem later_build (m : Letter) (seq : ℕ) : m.Later (m.build seq) := ⟨[seq], rfl⟩

/-- The number of a packet does not change. -/
theorem Later.getElem?_seqs (h : m.Later m') {k seq : ℕ} (hk : m.seqs[k]? = some seq) :
    m'.seqs[k]? = some seq := by
  obtain ⟨more, rfl⟩ := h
  rw [List.getElem?_append_left (List.getElem?_eq_some_iff.mp hk).1]
  exact hk

/-- There are no more numbers than packets. -/
def Fits (m : Letter) : Prop := m.seqs.length ≤ m.bodies.length

theorem length_le_of_numbered (h : ∀ k < m.bodies.length, ∃ seq, m.seqs[k]? = some seq) :
    m.bodies.length ≤ m.seqs.length := by
  by_contra hlt
  obtain ⟨seq, hseq⟩ := h m.seqs.length (Nat.lt_of_not_le hlt)
  exact absurd (List.getElem?_eq_some_iff.mp hseq).1 (Nat.lt_irrefl _)

/-- A message with all its numbers does not change any more. -/
theorem Later.eq_of_full (h : m.Later m') (hfull : m.bodies.length ≤ m.seqs.length)
    (hfits : m'.Fits) : m' = m := by
  obtain ⟨more, rfl⟩ := h
  have hlen : (m.seqs ++ more).length ≤ m.bodies.length := hfits
  obtain rfl : more = [] := by
    rw [List.length_append] at hlen
    exact List.length_eq_zero_iff.mp (by omega)
  rw [List.append_nil]

/-- The numbers of a message belong to its packets. -/
theorem Fits.exists_index (h : m.Fits) {seq : ℕ} (hseq : seq ∈ m.seqs) :
    ∃ k < m.bodies.length, m.seqs[k]? = some seq := by
  obtain ⟨k, hk⟩ := List.mem_iff_getElem?.mp hseq
  exact ⟨k, (List.getElem?_eq_some_iff.mp hk).1.trans_le h, hk⟩

/-- What posting a message fixes. -/
structure Formed (pool : CompressorPool) (m : Letter) : Prop where
  single : m.fragmentID = none → m.bodies = [m.data]
  split : ∀ fid, m.fragmentID = some fid → splitMessage m.payload fid m.flags = .ok m.bodies
  decodes : ∀ bytes, pool.decompressPayload m.payload m.flags = .ok (some bytes) → bytes = m.data

theorem Formed.later {pool : CompressorPool} (h : m.Formed pool) (hlater : m.Later m') :
    m'.Formed pool := by
  obtain ⟨more, rfl⟩ := hlater
  exact ⟨h.single, h.split, h.decodes⟩

/-- The identifier of a message, if it has one. -/
def identifiers (m : Letter) : Set UInt16 := { fid | m.fragmentID = some fid }

end Letter

/-! ## Packets -/

namespace Traffic

/-- A data packet is a packet of one of the messages. -/
def Carried (letters : List Letter) (raw : Bytes) : Prop :=
  ∀ hdr n, unmarshalHeader raw = .ok (hdr, n) → hdr.flags &&& flagControl = 0 →
    ∃ m ∈ letters, m.channel = hdr.channel ∧ ∃ k : ℕ, m.seqs[k]? = some hdr.sequence.toNat ∧
      m.bodies[k]? = some (raw.drop n) ∧ (hdr.flags &&& flagFragment = 0 ↔ m.fragmentID = none)

/-- More messages and more packets. -/
theorem Carried.grown {letters letters' : List Letter} {raw : Bytes} (h : Carried letters raw)
    (hgrown : Grown Letter.Later letters letters') : Carried letters' raw := by
  intro hdr n hparse hdata
  obtain ⟨m, hm, hch, k, hseq, hbody, hfrag⟩ := h hdr n hparse hdata
  obtain ⟨m', hm', hlater⟩ := hgrown.exists_mem hm
  have hseq' := hlater.getElem?_seqs hseq
  obtain ⟨more, rfl⟩ := hlater
  exact ⟨_, hm', hch, k, hseq', hbody, hfrag⟩

structure Sender (s : Traffic) : Prop where
  faithful : s.pair.left.conn.compress.codecs.Faithful
  codecs_eq : s.pair.right.conn.compress.codecs = s.pair.left.conn.compress.codecs
  formed : ∀ m ∈ s.letters, m.Formed s.pair.right.conn.compress
  fits : ∀ m ∈ s.letters, m.Fits
  numbered_lt : ∀ p ∈ s.pair.left.numbered, p.2 < 2 ^ 32
  carried : ∀ raw, s.pair.left.InPlay raw → Carried s.letters raw

variable {s s' : Traffic} {move : TrafficMove}

/-- Taking an identifier changes nothing but the counter. -/
theorem Sender.identified_left (h : s.Sender) : Sender ⟨s.identified, s.letters⟩ := by
  have hstep : s.pair.left.step .nextFragmentID = some s.identified.left := rfl
  refine ⟨h.faithful, h.codecs_eq, h.formed, h.fits, ?_, fun raw hraw => ?_⟩
  · exact Endpoint.numbered_lt_step hstep h.numbered_lt
  · rcases Endpoint.inPlay_step hstep hraw with hold | hnew
    · exact h.carried raw hold
    · cases hnew

/-- A message is posted. -/
theorem Sender.concat (h : s.Sender) {m : Letter} (hm : m.Formed s.pair.right.conn.compress)
    (hseqs : m.seqs = []) : Sender ⟨s.pair, s.letters ++ [m]⟩ := by
  have hall : ∀ {P : Letter → Prop}, (∀ x ∈ s.letters, P x) → P m →
      ∀ x ∈ s.letters ++ [m], P x := by
    intro P hold hnew x hx
    rcases List.mem_append.mp hx with hx | hx
    · exact hold x hx
    · exact List.mem_singleton.mp hx ▸ hnew
  have hfits : m.Fits := by
    rw [Letter.Fits, hseqs]
    exact Nat.zero_le _
  refine ⟨h.faithful, h.codecs_eq, hall h.formed hm, hall h.fits hfits, h.numbered_lt,
    fun raw hraw => ?_⟩
  exact (h.carried raw hraw).grown (.concat Letter.Later.refl s.letters m)

/-- The next packet of a message is built. -/
theorem Sender.build (h : s.Sender) {i seq : ℕ} {m : Letter} {body : Bytes} {e' : Endpoint}
    (hm : s.letters[i]? = some m) (hbody : m.bodies[m.seqs.length]? = some body)
    (hstep : s.pair.left.step (.stamp m.channel seq m.fragmentID.isSome body) = some e') :
    Sender ⟨s.pair.set .left e', s.letters.set i (m.build seq)⟩ := by
  have hgrown : Grown Letter.Later s.letters (s.letters.set i (m.build seq)) :=
    .set Letter.Later.refl hm (m.later_build seq)
  have hcompress := Endpoint.compress_step hstep
  have hfaithful : e'.conn.compress.codecs.Faithful := hcompress ▸ h.faithful
  have hcodecs : s.pair.right.conn.compress.codecs = e'.conn.compress.codecs :=
    hcompress ▸ h.codecs_eq
  refine ⟨hfaithful, hcodecs, fun x hx => ?_, fun x hx => ?_,
    Endpoint.numbered_lt_step hstep h.numbered_lt, fun raw hraw => ?_⟩
  · rcases List.mem_or_eq_of_mem_set hx with hold | rfl
    · exact h.formed x hold
    · exact (h.formed m (List.mem_of_getElem? hm)).later (m.later_build seq)
  · rcases List.mem_or_eq_of_mem_set hx with hold | rfl
    · exact h.fits x hold
    · have hlt : m.seqs.length < m.bodies.length := (List.getElem?_eq_some_iff.mp hbody).1
      show (m.seqs ++ [seq]).length ≤ m.bodies.length
      rw [List.length_append]
      exact hlt
  · rcases Endpoint.inPlay_step hstep hraw with hold | ⟨ch, p, hch, htaken, hbuild, rfl⟩
    · exact (h.carried raw hold).grown hgrown
    intro hdr n hparse hdata
    obtain ⟨hchannel, hseq, hdrop, hfrag⟩ := read_buildPacket (h.numbered_lt _ htaken) hbuild hparse
    have hlt : i < s.letters.length := (List.getElem?_eq_some_iff.mp hm).1
    refine ⟨m.build seq, List.mem_set hlt _, hchannel.symm, m.seqs.length, ?_, ?_, ?_⟩
    · rw [hseq]
      exact List.getElem?_concat_length
    · rw [hdrop]
      exact hbody
    · rw [hfrag, Option.isSome_eq_false_iff, Option.isNone_iff_eq_none]
      rfl

/-- The other acts of the sender. -/
theorem Sender.left (h : s.Sender) {a : Act} {e' : Endpoint} (hmay : mayAct a = true)
    (hstep : s.pair.left.step a = some e') : Sender ⟨s.pair.set .left e', s.letters⟩ := by
  have hstamp : ∀ k seq fragment body, a ≠ .stamp k seq fragment body := by
    rintro k seq fragment body rfl
    cases hmay
  have hcompress := Endpoint.compress_step hstep
  have hfaithful : e'.conn.compress.codecs.Faithful := hcompress ▸ h.faithful
  have hcodecs : s.pair.right.conn.compress.codecs = e'.conn.compress.codecs :=
    hcompress ▸ h.codecs_eq
  refine ⟨hfaithful, hcodecs, h.formed, h.fits, Endpoint.numbered_lt_step hstep h.numbered_lt,
    fun raw hraw => ?_⟩
  rcases Endpoint.inPlay_step hstep hraw with hold | hnew
  · exact h.carried raw hold
  · intro hdr n hparse hdata
    exact absurd hdata (hnew.control hstamp hparse)

/-- The moves keep the sender's side. -/
theorem Sender.step (h : s.Sender) (hstep : Steps s move s') : s'.Sender := by
  cases hstep with
  | single id data =>
      refine h.concat ⟨fun _ => rfl, by simp, fun bytes hdecoded => ?_⟩ rfl
      rw [CompressorPool.decompressPayload_plain] at hdecoded
      simpa using hdecoded.symm
  | rejected id data => exact h.identified_left
  | split id data payload flags bodies hcompress hsplit =>
      refine h.identified_left.concat ⟨by simp, ?_, fun bytes hdecoded => ?_⟩ rfl
      · rintro fid ⟨⟩
        exact hsplit
      · exact CompressorPool.eq_of_decompressPayload h.faithful h.codecs_eq hcompress hdecoded
  | build i seq m body e' hm hbody hstep => exact h.build hm hbody hstep
  | left a e' hmay hauth hstep => exact h.left hmay hstep
  | right a e' hauth hstep =>
      have hcompress : e'.conn.compress = s.pair.right.conn.compress := Endpoint.compress_step hstep
      have hcodecs : e'.conn.compress.codecs = s.pair.left.conn.compress.codecs :=
        hcompress ▸ h.codecs_eq
      have hformed : ∀ m ∈ s.letters, m.Formed e'.conn.compress := hcompress ▸ h.formed
      exact ⟨h.faithful, hcodecs, hformed, h.fits, h.numbered_lt, h.carried⟩

/-- At the start nothing has been sent. -/
theorem sender_init (hinit : system.init s) : s.Sender := by
  obtain ⟨hfresh, hletters, hfaithful, hcodecs⟩ := hinit
  obtain ⟨input, now, heq, -⟩ := hfresh .left
  have hleft : s.pair.left = Endpoint.start input now := heq
  refine ⟨hfaithful, hcodecs, by simp [hletters], by simp [hletters], ?_,
    fun raw hraw hdr n hparse hdata => ?_⟩
  · rw [hleft]
    intro p hp
    cases hp
  · exact absurd hdata ((hfresh .left).control hraw hparse)

theorem sender_of_run {hist : List (Traffic × TrafficMove)} (hrun : system.Run hist s) :
    s.Sender :=
  hrun.invariant (fun _ => sender_init) fun _ _ _ h taken => h.step (steps_of_step taken)

end Traffic

/-! ## Identifiers -/

/-- The identifiers come from the counter, and no two messages have the same one. -/
structure Identified (counter : ℕ) (letters : List Letter) : Prop where
  counted : ∀ m ∈ letters, ∀ fid ∈ m.identifiers,
    ∃ n, 0 < n ∧ n ≤ counter ∧ fid = UInt16.ofNat n
  apart : Apart Letter.identifiers letters

namespace Identified

variable {counter : ℕ} {letters : List Letter} {m : Letter}

/-- The counter goes on. -/
theorem mono (h : Identified counter letters) {counter' : ℕ} (hle : counter ≤ counter') :
    Identified counter' letters := by
  refine ⟨fun m hm fid hfid => ?_, h.apart⟩
  obtain ⟨n, hpos, hn, heq⟩ := h.counted m hm fid hfid
  exact ⟨n, hpos, hn.trans hle, heq⟩

/-- A message without an identifier. -/
theorem concat_none (h : Identified counter letters) (hm : m.fragmentID = none) :
    Identified counter (letters ++ [m]) := by
  have hnone : ∀ fid, fid ∉ m.identifiers := by simp [Letter.identifiers, hm]
  refine ⟨fun x hx fid hfid => ?_, h.apart.concat fun _ _ fid hfid => ?_⟩
  · rcases List.mem_append.mp hx with hold | hnew
    · exact h.counted x hold fid hfid
    · rw [List.mem_singleton.mp hnew] at hfid
      exact absurd hfid (hnone fid)
  · exact absurd hfid (hnone fid)

/-- A message with the next identifier. -/
theorem concat_next (h : Identified counter letters) (hlt : counter < 2 ^ 16)
    (hm : m.fragmentID = some (UInt16.ofNat (counter + 1))) :
    Identified (counter + 1) (letters ++ [m]) := by
  have hown : ∀ fid ∈ m.identifiers, fid = UInt16.ofNat (counter + 1) := by
    intro fid hfid
    exact Option.some.inj (hfid.symm.trans hm)
  refine ⟨fun x hx fid hfid => ?_, h.apart.concat fun x hx fid hfid hold => ?_⟩
  · rcases List.mem_append.mp hx with hold | hnew
    · exact (h.mono (Nat.le_succ counter)).counted x hold fid hfid
    · rw [List.mem_singleton.mp hnew] at hfid
      exact ⟨counter + 1, Nat.succ_pos counter, Nat.le_refl _, hown fid hfid⟩
  · -- the numbers up to 2^16 are different identifiers
    obtain ⟨n, hpos, hn, heq⟩ := h.counted x hx fid hold
    have hsame := congrArg UInt16.toNat ((hown fid hfid).symm.trans heq)
    rw [UInt16.toNat_ofNat', UInt16.toNat_ofNat'] at hsame
    omega

/-- A packet is built. -/
theorem build (h : Identified counter letters) {i : ℕ} (hi : letters[i]? = some m) (seq : ℕ) :
    Identified counter (letters.set i (m.build seq)) := by
  refine ⟨fun x hx fid hfid => ?_, h.apart.set hi fun fid hfid => .inl hfid⟩
  rcases List.mem_or_eq_of_mem_set hx with hold | rfl
  · exact h.counted x hold fid hfid
  · exact h.counted m (List.mem_of_getElem? hi) fid hfid

end Identified

namespace Traffic

variable {s s' : Traffic} {move : TrafficMove}

/-- The counter does not overflow. -/
theorem nextFragmentID_eq {c : Connection} (hcount : c.fragmentID < 2 ^ 16) :
    c.nextFragmentID.1.fragmentID = c.fragmentID + 1 ∧
      c.nextFragmentID.2 = UInt16.ofNat (c.fragmentID + 1) := by
  have hmod : (c.fragmentID + 1) % 2 ^ 32 = c.fragmentID + 1 := by omega
  constructor
  · exact hmod
  · exact congrArg UInt16.ofNat hmod

theorem lt_of_few_identified (hfew : s.Few) (hnext : s.identified.left.conn.fragmentID ≤ 2 ^ 16) :
    s.pair.left.conn.fragmentID < 2 ^ 16 := by
  have hle : s.pair.left.conn.fragmentID ≤ 2 ^ 16 := hfew
  have hmod : (s.pair.left.conn.fragmentID + 1) % 2 ^ 32 ≤ 2 ^ 16 := hnext
  omega

/-- A move after which there are still few identifiers. -/
theorem identified_step (h : Identified s.pair.left.conn.fragmentID s.letters) (hfew : s.Few)
    (hfew' : s'.Few) (hstep : Steps s move s') :
    Identified s'.pair.left.conn.fragmentID s'.letters := by
  cases hstep with
  | single id data => exact h.concat_none rfl
  | rejected id data =>
      obtain ⟨hcounter, -⟩ := nextFragmentID_eq (lt_of_few_identified hfew hfew')
      show Identified s.pair.left.conn.nextFragmentID.1.fragmentID s.letters
      rw [hcounter]
      exact h.mono (Nat.le_succ _)
  | split id data payload flags bodies hcompress hsplit =>
      have hlt := lt_of_few_identified hfew hfew'
      obtain ⟨hcounter, hfid⟩ := nextFragmentID_eq hlt
      show Identified s.pair.left.conn.nextFragmentID.1.fragmentID _
      rw [hcounter]
      exact h.concat_next hlt (congrArg some hfid)
  | build i seq m body e' hm hbody hstep =>
      show Identified e'.conn.fragmentID _
      rw [Endpoint.fragmentID_step hstep (by simp)]
      exact h.build hm seq
  | left a e' hmay hauth hstep =>
      have hfid : a ≠ .nextFragmentID := by
        rintro rfl
        cases hmay
      show Identified e'.conn.fragmentID _
      rw [Endpoint.fragmentID_step hstep hfid]
      exact h
  | right a e' hauth hstep => exact h

/-- **An identifier has one owner**, if there are few of them. -/
theorem apart_of_run {hist : List (Traffic × TrafficMove)} (hrun : system.Run hist s)
    (hfew : System.Always Few hist s) : Apart Letter.identifiers s.letters := by
  suffices hid : Identified s.pair.left.conn.fragmentID s.letters from hid.apart
  induction hrun with
  | start starts =>
      rw [starts.2.1]
      exact ⟨by simp, .nil _⟩
  | @step hist s s' move prior taken ih =>
      rw [System.always_cons] at hfew
      exact identified_step (ih hfew.2) hfew.2.1 hfew.1 (steps_of_step taken)

end Traffic

end Fastwire
