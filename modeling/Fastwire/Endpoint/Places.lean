/-
# A number is on one packet

`nextSequence` hands out the numbers of a channel one after another, so as long as
the counter does not come round a number is in one place: with the send that has
taken it, on a packet that waits to be sealed, or on a packet that was sealed.
Retransmission seals a packet again, but never one that was not sealed before.
-/

import Fastwire.Endpoint.Numbers

namespace Fastwire

open Lib

def dataNumber (raw : Bytes) : Option (UInt8 × ℕ) :=
  match unmarshalHeader raw with
  | .error _ => none
  | .ok (hdr, _) =>
      if hdr.flags &&& flagControl = 0 then some (hdr.channel, hdr.sequence.toNat) else none

theorem dataNumber_buildPacket {ch : Channel} {id : UInt8} {fragment : Bool} {seq : ℕ}
    {body : Bytes} {p : Stamped} (hlt : seq < 2 ^ 32)
    (hok : Connection.buildPacket ch id (if fragment then flagFragment else 0) seq body = .ok p) :
    dataNumber p.raw = some (id, seq) := by
  have hdata : (if fragment then flagFragment else 0) &&& flagControl = 0 := by
    cases fragment <;> decide
  obtain ⟨n, hparse, -⟩ := unmarshalHeader_buildPacket hok
  simpa [dataNumber, hparse, Connection.dataHeader, hdata] using hlt

def Stamped.key (p : Stamped) : UInt8 × ℕ := (p.channel, p.sequence)

namespace Endpoint

variable {e e' : Endpoint} {a : Act} {key : UInt8 × ℕ}

/-- The numbers that are taken and not sealed yet. -/
def unsent (e : Endpoint) : List (UInt8 × ℕ) := e.numbered ++ e.stamped.map Stamped.key

/-- The number is on a packet that was sealed. -/
def Sealed (e : Endpoint) (key : UInt8 × ℕ) : Prop :=
  ∃ raw ∈ e.conn.sendCipher.sealed, dataNumber raw = some key

/-- The act does not make the counter of a channel come round. -/
def counts (e : Endpoint) : Act → Bool
  | .number id => (e.conn.channel id).all fun ch => ch.sendSeq + 1 < 2 ^ 32
  | _ => true

/-! ## One act -/

inductive Seals (e : Endpoint) : Act → Bytes → Prop
  | transmit (p : Stamped) (written : Bool) (hmem : p ∈ e.stamped) :
      Seals e (.transmit p written) p.raw
  | resend (raw : Bytes) (hmem : raw ∈ e.due) : Seals e (.resend raw) raw
  | control (a : Act) (raw : Bytes) (hnone : dataNumber raw = none) : Seals e a raw

theorem Composes.dataNumber_eq_none {raw : Bytes} (h : e.Composes a raw)
    (hstamp : ∀ k seq fragment body, a ≠ .stamp k seq fragment body) : dataNumber raw = none := by
  rw [dataNumber]
  split
  · rfl
  · rename_i hdr n hparse
    exact if_neg (h.control hstamp hparse)

theorem sealed_step (hstep : e.step a = some e') :
    e'.conn.sendCipher.sealed = e.conn.sendCipher.sealed ∨
      ∃ raw, e.Seals a raw ∧ e'.conn.sendCipher.sealed = raw :: e.conn.sendCipher.sealed := by
  have hseal : ∀ raw : Bytes, (e.conn.sealPlaintext raw).sendCipher.sealed =
      raw :: e.conn.sendCipher.sealed := fun raw => Crypto.CipherState.encrypt_sealed _ raw
  cases a with
  | packet now data =>
      simp only [step] at hstep
      split at hstep <;> cases hstep
      rename_i c events hok
      rw [(Connection.processPacket_acking hok).sendCipher_eq]
      exact .inl rfl
  | transmit p written =>
      simp only [step] at hstep
      split at hstep <;> cases hstep
      rename_i hmem
      exact .inr ⟨p.raw, .transmit p written hmem, hseal p.raw⟩
  | resend raw =>
      simp only [step] at hstep
      split at hstep <;> cases hstep
      rename_i hmem
      exact .inr ⟨raw, .resend raw hmem, hseal raw⟩
  | sealAcks ids =>
      simp only [step, Option.bind_eq_bind, Option.bind_eq_some_iff] at hstep
      obtain ⟨packet, hbuild, hstep⟩ := hstep
      cases hstep
      have hcomposed : e.Composes (.sealAcks ids) packet := eq_ok_of_toOption hbuild
      exact .inr ⟨packet, .control _ packet (hcomposed.dataNumber_eq_none (by simp)), hseal packet⟩
  | sealDisconnect =>
      simp only [step, Option.bind_eq_bind, Option.bind_eq_some_iff] at hstep
      obtain ⟨packet, hbuild, hstep⟩ := hstep
      cases hstep
      have hcomposed : e.Composes .sealDisconnect packet := eq_ok_of_toOption hbuild
      exact .inr ⟨packet, .control _ packet (hcomposed.dataNumber_eq_none (by simp)), hseal packet⟩
  | queue p now =>
      simp only [step] at hstep
      split at hstep <;> cases hstep
      refine .inl ?_
      rw [Connection.queuePacket]
      split
      · rfl
      · split <;> rfl
  | _ =>
      simp only [step, Option.bind_eq_bind, Option.bind_eq_some_iff] at hstep
      grind [Connection.setChannel, Connection.setIndex, Connection.shutDown,
        Connection.releasePendingBuffers, Connection.withBooks, Connection.nextFragmentID]

/-- What was sealed stays in the record. -/
theorem sealed_mono (hstep : e.step a = some e') {raw : Bytes}
    (h : raw ∈ e.conn.sendCipher.sealed) : raw ∈ e'.conn.sendCipher.sealed := by
  rcases sealed_step hstep with heq | ⟨packet, -, heq⟩
  · rw [heq]
    exact h
  · rw [heq]
    exact List.mem_cons_of_mem _ h

theorem Sealed.step (h : e.Sealed key) (hstep : e.step a = some e') : e'.Sealed key := by
  obtain ⟨raw, hraw, hkey⟩ := h
  exact ⟨raw, sealed_mono hstep hraw, hkey⟩

/-- What an act does to the numbers that are not sealed. -/
inductive Placing (e : Endpoint) : Act → Endpoint → Prop
  | number (id : UInt8) (ch : Channel) (e' : Endpoint) (hch : e.conn.channel id = some ch)
      (heq : e'.unsent = (id, ch.nextSequence.2) :: e.unsent) : Placing e (.number id) e'
  | transmit (p : Stamped) (written : Bool) (e' : Endpoint) (hmem : p ∈ e.stamped)
      (hperm : e.unsent.Perm (p.key :: e'.unsent)) : Placing e (.transmit p written) e'
  | other (a : Act) (e' : Endpoint) (hnumber : ∀ id, a ≠ .number id)
      (htransmit : ∀ p written, a ≠ .transmit p written) (hperm : e.unsent.Perm e'.unsent) :
      Placing e a e'

theorem placing_step (hstep : e.step a = some e') : Placing e a e' := by
  cases a with
  | number id =>
      simp only [step, Option.bind_eq_bind, Option.bind_eq_some_iff] at hstep
      obtain ⟨ch, hch, hstep⟩ := hstep
      cases hstep
      exact .number id ch _ hch rfl
  | transmit p written =>
      simp only [step] at hstep
      split at hstep <;> cases hstep
      rename_i hmem
      refine .transmit p written _ hmem ?_
      have hstamped : (e.stamped.map Stamped.key).Perm
          (p.key :: (e.stamped.erase p).map Stamped.key) :=
        (List.perm_cons_erase hmem).map Stamped.key
      exact (hstamped.append_left e.numbered).trans List.perm_middle
  | stamp id seq fragment body =>
      simp only [step, Option.bind_eq_bind, Option.bind_eq_some_iff] at hstep
      obtain ⟨ch, hch, hstep⟩ := hstep
      split at hstep <;> cases hstep
      rename_i hmem
      refine .other _ _ (by simp) (by simp) ?_
      obtain ⟨p, hbuild, hchannel, hsequence, -⟩ :=
        Connection.buildPacket_ok ch id (if fragment then flagFragment else 0) seq body
      have hkey : p.key = (id, seq) := by rw [Stamped.key, hchannel, hsequence]
      rw [unsent, unsent, hbuild]
      show (e.numbered ++ e.stamped.map Stamped.key).Perm
        (e.numbered.erase (id, seq) ++ p.key :: e.stamped.map Stamped.key)
      rw [hkey]
      have hnumbered := (List.perm_cons_erase hmem).append_right (e.stamped.map Stamped.key)
      exact hnumbered.trans List.perm_middle.symm
  | _ =>
      refine .other _ _ (by simp) (by simp) ?_
      rw [unsent, unsent, numbered_step hstep (by simp) (by simp),
        stamped_step hstep (by simp) (by simp)]

/-- The counters do not go back. -/
theorem sendSeq_step (hstep : e.step a = some e') (hcounts : e.counts a = true) {id : UInt8}
    {ch' : Channel} (hch' : e'.conn.channel id = some ch') :
    ∃ ch, e.conn.channel id = some ch ∧ ch.sendSeq ≤ ch'.sendSeq := by
  obtain ⟨ch, hch, hkept⟩ := send_step hstep hch'
  refine ⟨ch, hch, ?_⟩
  by_cases hnumber : a = .number id
  · subst hnumber
    have hfound : e.conn.channel id = some ch := hch
    have hlt : ch.sendSeq + 1 < 2 ^ 32 := by simpa [counts, hfound] using hcounts
    simp only [step, hfound, Option.bind_eq_bind, Option.bind_some] at hstep
    cases hstep
    have hnew := (Connection.getElem?_setChannel hfound ch.nextSequence.1 id.toNat).trans
      (if_pos rfl)
    obtain rfl := Option.some.inj (hnew.symm.trans hch')
    simp only [Channel.nextSequence, Nat.mod_eq_of_lt hlt]
    exact Nat.le_succ _
  · have hother : ∀ k, a = .number k → k.toNat ≠ id.toNat := by
      rintro k rfl heq
      exact hnumber (congrArg _ (UInt8.toNat_inj.mp heq))
    exact (hkept.sendSeq_eq hother).ge

/-! ## Runs -/

/-- Every number that was taken is in one place. -/
structure Placed (e : Endpoint) : Prop where
  nodup : e.unsent.Nodup
  numbered_lt : ∀ key ∈ e.numbered, key.2 < 2 ^ 32
  stamped_raw : ∀ p ∈ e.stamped, dataNumber p.raw = some p.key
  transmitted_sealed : ∀ p ∈ e.transmitted, p.raw ∈ e.conn.sendCipher.sealed
  due_sealed : ∀ raw ∈ e.due, raw ∈ e.conn.sendCipher.sealed
  pending_sealed : ∀ (i : ℕ) (ch : Channel), e.conn.channels[i]? = some ch →
    ∀ q ∈ ch.pendingSend, q.raw ∈ e.conn.sendCipher.sealed
  apart : ∀ key, e.Sealed key → key ∉ e.unsent
  low : ∀ key, key ∈ e.unsent ∨ e.Sealed key → ∀ ch, e.conn.channel key.1 = some ch →
    key.2 ≤ ch.sendSeq

namespace Placed

/-- A number that was not sealed before is sealed by `transmit`. -/
theorem sealed_inv (h : e.Placed) (hstep : e.step a = some e') (hkey : e'.Sealed key) :
    e.Sealed key ∨ ∃ p written, a = .transmit p written ∧ p ∈ e.stamped ∧ p.key = key := by
  obtain ⟨raw, hraw, hdata⟩ := hkey
  rcases sealed_step hstep with heq | ⟨packet, hseals, heq⟩
  · exact .inl ⟨raw, heq ▸ hraw, hdata⟩
  rw [heq] at hraw
  rcases List.mem_cons.mp hraw with rfl | hold
  · cases hseals with
    | transmit p written hmem =>
        have hsame : some p.key = some key := (h.stamped_raw p hmem).symm.trans hdata
        exact .inr ⟨p, written, rfl, hmem, Option.some.inj hsame⟩
    | resend _ hmem => exact .inl ⟨raw, h.due_sealed raw hmem, hdata⟩
    | control _ _ hnone => exact absurd (hnone.symm.trans hdata) (by simp)
  · exact .inl ⟨raw, hold, hdata⟩

theorem mem_unsent {p : Stamped} (hp : p ∈ e.stamped) : p.key ∈ e.unsent :=
  List.mem_append_right _ (List.mem_map_of_mem hp)

/-- The next number of a channel is new. -/
theorem next_new (h : e.Placed) {id : UInt8} {ch : Channel} (hch : e.conn.channel id = some ch)
    (hcounts : e.counts (.number id) = true) :
    (id, ch.nextSequence.2) ∉ e.unsent ∧ ¬ e.Sealed (id, ch.nextSequence.2) := by
  have hlt : ch.sendSeq + 1 < 2 ^ 32 := by simpa [counts, hch] using hcounts
  have hnext : ch.nextSequence.2 = ch.sendSeq + 1 := Nat.mod_eq_of_lt hlt
  have hhigh : ∀ key, key ∈ e.unsent ∨ e.Sealed key → key ≠ (id, ch.nextSequence.2) := by
    rintro key hkey rfl
    have hle := h.low _ hkey ch hch
    rw [hnext] at hle
    exact absurd hle (Nat.not_succ_le_self _)
  exact ⟨fun hmem => hhigh _ (.inl hmem) rfl, fun hsealed => hhigh _ (.inr hsealed) rfl⟩

theorem nodup_step (h : e.Placed) (hcounts : e.counts a = true) (hstep : e.step a = some e') :
    e'.unsent.Nodup := by
  cases placing_step hstep with
  | number id ch _ hch heq =>
      rw [heq]
      exact List.nodup_cons.mpr ⟨(h.next_new hch hcounts).1, h.nodup⟩
  | transmit p written _ hmem hperm => exact (List.nodup_cons.mp (hperm.nodup_iff.mp h.nodup)).2
  | other _ _ _ _ hperm => exact hperm.nodup_iff.mp h.nodup

theorem apart_step (h : e.Placed) (hcounts : e.counts a = true) (hstep : e.step a = some e')
    (hkey : e'.Sealed key) : key ∉ e'.unsent := by
  cases placing_step hstep with
  | number id ch _ hch heq =>
      rcases h.sealed_inv hstep hkey with hold | ⟨p, written, hmove, -⟩
      · rw [heq, List.mem_cons, not_or]
        refine ⟨?_, h.apart key hold⟩
        rintro rfl
        exact (h.next_new hch hcounts).2 hold
      · cases hmove
  | transmit p written _ hmem hperm =>
      rcases h.sealed_inv hstep hkey with hold | ⟨_, _, hmove, -, hsame⟩
      · intro hin
        exact h.apart key hold (hperm.mem_iff.mpr (List.mem_cons_of_mem _ hin))
      · cases hmove
        subst hsame
        exact (List.nodup_cons.mp (hperm.nodup_iff.mp h.nodup)).1
  | other _ _ _ htransmit hperm =>
      rcases h.sealed_inv hstep hkey with hold | ⟨p, written, hmove, -⟩
      · rw [← hperm.mem_iff]
        exact h.apart key hold
      · exact absurd hmove (htransmit p written)

/-- A number that is in use was in use before, or it was taken just now. -/
theorem used_inv (h : e.Placed) (hstep : e.step a = some e')
    (hkey : key ∈ e'.unsent ∨ e'.Sealed key) :
    (key ∈ e.unsent ∨ e.Sealed key) ∨
      ∃ ch, a = .number key.1 ∧ e.conn.channel key.1 = some ch ∧ key.2 = ch.nextSequence.2 := by
  rcases hkey with hkey | hkey
  · cases placing_step hstep with
    | number id ch _ hch heq =>
        rw [heq] at hkey
        rcases List.mem_cons.mp hkey with rfl | hold
        · exact .inr ⟨ch, rfl, hch, rfl⟩
        · exact .inl (.inl hold)
    | transmit p written _ hmem hperm =>
        exact .inl (.inl (hperm.mem_iff.mpr (List.mem_cons_of_mem _ hkey)))
    | other _ _ _ _ hperm => exact .inl (.inl (hperm.mem_iff.mpr hkey))
  · rcases h.sealed_inv hstep hkey with hold | ⟨p, written, -, hmem, rfl⟩
    · exact .inl (.inr hold)
    · exact .inl (.inl (mem_unsent hmem))

theorem low_step (h : e.Placed) (hcounts : e.counts a = true) (hstep : e.step a = some e')
    (hkey : key ∈ e'.unsent ∨ e'.Sealed key) {ch' : Channel}
    (hch' : e'.conn.channel key.1 = some ch') : key.2 ≤ ch'.sendSeq := by
  rcases h.used_inv hstep hkey with hold | ⟨ch, rfl, hch, hnext⟩
  · obtain ⟨ch, hch, hle⟩ := sendSeq_step hstep hcounts hch'
    exact (h.low key hold ch hch).trans hle
  · simp only [step, hch, Option.bind_eq_bind, Option.bind_some] at hstep
    cases hstep
    have hnew := (Connection.getElem?_setChannel hch ch.nextSequence.1 key.1.toNat).trans
      (if_pos rfl)
    obtain rfl := Option.some.inj (hnew.symm.trans hch')
    exact hnext.le

theorem stamped_raw_step (h : e.Placed) (hstep : e.step a = some e') {p : Stamped}
    (hp : p ∈ e'.stamped) : dataNumber p.raw = some p.key := by
  cases a with
  | stamp id seq fragment body =>
      simp only [step, Option.bind_eq_bind, Option.bind_eq_some_iff] at hstep
      obtain ⟨ch, hch, hstep⟩ := hstep
      split at hstep <;> cases hstep
      rename_i hmem
      rcases List.mem_append.mp hp with hnew | hold
      · have hbuild := eq_ok_of_toOption (Option.mem_toList.mp hnew)
        obtain ⟨p', hbuild', hchannel, hsequence, -⟩ :=
          Connection.buildPacket_ok ch id (if fragment then flagFragment else 0) seq body
        obtain rfl : p' = p := Except.ok.inj (hbuild'.symm.trans hbuild)
        rw [dataNumber_buildPacket (h.numbered_lt _ hmem) hbuild, Stamped.key, hchannel, hsequence]
      · exact h.stamped_raw p hold
  | transmit p' written =>
      simp only [step] at hstep
      split at hstep <;> cases hstep
      exact h.stamped_raw p (List.mem_of_mem_erase hp)
  | _ =>
      rw [stamped_step hstep (by simp) (by simp)] at hp
      exact h.stamped_raw p hp

theorem transmitted_sealed_step (h : e.Placed) (hstep : e.step a = some e') {p : Stamped}
    (hp : p ∈ e'.transmitted) : p.raw ∈ e'.conn.sendCipher.sealed := by
  cases a with
  | transmit p' written =>
      have hstep₀ := hstep
      simp only [step] at hstep
      split at hstep <;> cases hstep
      dsimp only at hp
      split at hp
      · rcases List.mem_cons.mp hp with rfl | hold
        · show p.raw ∈ (e.conn.sealPlaintext p.raw).sendCipher.sealed
          rw [Connection.sealPlaintext, Crypto.CipherState.encrypt_sealed]
          exact List.mem_cons_self
        · exact sealed_mono hstep₀ (h.transmitted_sealed p hold)
      · exact sealed_mono hstep₀ (h.transmitted_sealed p hp)
  | queue p' now =>
      have hstep₀ := hstep
      simp only [step] at hstep
      split at hstep <;> cases hstep
      exact sealed_mono hstep₀ (h.transmitted_sealed p (List.mem_of_mem_erase hp))
  | _ =>
      rw [transmitted_step hstep (by simp) (by simp)] at hp
      exact sealed_mono hstep (h.transmitted_sealed p hp)

theorem pending_sealed_step (h : e.Placed) (hstep : e.step a = some e') {i : ℕ} {ch' : Channel}
    (hch' : e'.conn.channels[i]? = some ch') {q : PendingPacket} (hq : q ∈ ch'.pendingSend) :
    q.raw ∈ e'.conn.sendCipher.sealed := by
  obtain ⟨ch, hch, hkept⟩ := send_step hstep hch'
  rcases hkept.pending q hq with ⟨q₀, hq₀, -, hraw⟩ | ⟨p, now, -, hp, -, -, -, hraw⟩
  · rw [← hraw]
    exact sealed_mono hstep (h.pending_sealed i ch hch q₀ hq₀)
  · rw [hraw]
    exact sealed_mono hstep (h.transmitted_sealed p hp)

/-- Only a retransmission check finds packets due. -/
theorem due_sealed_step (h : e.Placed) (hstep : e.step a = some e') {raw : Bytes}
    (hraw : raw ∈ e'.due) : raw ∈ e'.conn.sendCipher.sealed := by
  cases a with
  | check k now rto maxRetries =>
      have hstep₀ := hstep
      simp only [step, Option.bind_eq_bind, Option.bind_eq_some_iff] at hstep
      obtain ⟨ch, hch, hstep⟩ := hstep
      cases hstep
      rcases List.mem_append.mp hraw with hnew | hold
      · obtain ⟨q, hq, rfl⟩ := List.mem_map.mp hnew
        obtain ⟨q₀, hq₀, -, hsame⟩ := Channel.mem_checkPending now rto maxRetries (.inr hq)
        rw [← hsame]
        exact sealed_mono hstep₀ (h.pending_sealed k ch hch q₀ hq₀)
      · exact sealed_mono hstep₀ (h.due_sealed raw hold)
  | resend raw' =>
      have hstep₀ := hstep
      simp only [step] at hstep
      split at hstep <;> cases hstep
      exact sealed_mono hstep₀ (h.due_sealed raw (List.mem_of_mem_erase hraw))
  | _ =>
      have hdue : e'.due = e.due := by
        simp only [step, Option.bind_eq_bind, Option.bind_eq_some_iff] at hstep
        grind
      exact sealed_mono hstep (h.due_sealed raw (hdue ▸ hraw))

/-- **Numbers stay in one place** as long as the counters do not come round. -/
theorem step (h : e.Placed) (hcounts : e.counts a = true) (hstep : e.step a = some e') :
    e'.Placed where
  nodup := h.nodup_step hcounts hstep
  numbered_lt := numbered_lt_step hstep h.numbered_lt
  stamped_raw _ hp := h.stamped_raw_step hstep hp
  transmitted_sealed _ hp := h.transmitted_sealed_step hstep hp
  due_sealed _ hraw := h.due_sealed_step hstep hraw
  pending_sealed _ _ hch' _ hq := h.pending_sealed_step hstep hch' hq
  apart _ hkey := h.apart_step hcounts hstep hkey
  low _ hkey _ hch' := h.low_step hcounts hstep hkey hch'

end Placed

theorem placed_start {input : ConnectionInput} {now : ℤ}
    (hsealed : ∀ raw ∈ input.sendCipher.sealed, dataNumber raw = none) :
    (start input now).Placed := by
  have hnone : ∀ key, ¬ (start input now).Sealed key := by
    rintro key ⟨raw, hraw, hkey⟩
    rw [hsealed raw hraw] at hkey
    cases hkey
  refine ⟨List.nodup_nil, ?_, ?_, ?_, ?_, fun i ch hch q hq => ?_, ?_, ?_⟩
  · exact fun _ h => absurd h List.not_mem_nil
  · exact fun _ h => absurd h List.not_mem_nil
  · exact fun _ h => absurd h List.not_mem_nil
  · exact fun _ h => absurd h List.not_mem_nil
  · simp only [start, newConnection, newChannels, List.getElem?_map, Option.map_eq_some_iff] at hch
    obtain ⟨d, -, rfl⟩ := hch
    cases hq
  · exact fun key hkey => absurd hkey (hnone key)
  · rintro key (hkey | hkey)
    · exact absurd hkey List.not_mem_nil
    · exact absurd hkey (hnone key)

end Endpoint

end Fastwire
