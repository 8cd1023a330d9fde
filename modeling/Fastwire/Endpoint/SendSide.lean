/-
# What an endpoint can put on the wire

A plaintext is built by one act and then only moved: it waits to be sealed, is
sealed, waits in a retransmission queue, is found due and is sealed again. So
whatever an endpoint has ever sealed was built by one of its acts, out of the
state the act was taken in. The retransmission queues are followed along the way.
-/

import Fastwire.Connection.AckSpec
import Fastwire.Connection.Pipeline
import Fastwire.Endpoint.Invariant

namespace Fastwire

open Lib

theorem eq_ok_of_toOption {α : Type} {x : Except Err α} {a : α} (h : x.toOption = some a) :
    x = .ok a := by
  cases x with
  | error err => cases h
  | ok b =>
      cases h
      rfl

namespace Endpoint

variable {e e' : Endpoint} {a : Act}

/-- The plaintexts an act builds. -/
def Composes (e : Endpoint) (a : Act) (raw : Bytes) : Prop :=
  match a with
  | .stamp id seq fragment body =>
      ∃ ch p, e.conn.channel id = some ch ∧ (id, seq) ∈ e.numbered ∧
        Connection.buildPacket ch id (if fragment then flagFragment else 0) seq body = .ok p ∧
        p.raw = raw
  | .sealAcks ids => Connection.multiAckPacket (e.conn.multiAckEntries ids) = .ok raw
  | .sealDisconnect => Connection.disconnectPlaintext = .ok raw
  | _ => False

/-- The plaintexts an endpoint has sealed or may still seal. -/
inductive InPlay (e : Endpoint) (raw : Bytes) : Prop
  | sealed (hmem : raw ∈ e.conn.sendCipher.sealed)
  | stamped (p : Stamped) (hmem : p ∈ e.stamped) (hraw : p.raw = raw)
  | transmitted (p : Stamped) (hmem : p ∈ e.transmitted) (hraw : p.raw = raw)
  | due (hmem : raw ∈ e.due)
  | pending (i : ℕ) (ch : Channel) (q : PendingPacket) (hch : e.conn.channels[i]? = some ch)
      (hmem : q ∈ ch.pendingSend) (hraw : q.raw = raw)

/-! ## The retransmission queues -/

/-- The act enters a packet into the queue of a reliable channel, the one with
the given index. -/
def Queues (e : Endpoint) (a : Act) (i : ℕ) (ch : Channel) (q : PendingPacket) : Prop :=
  ∃ p now, a = .queue p now ∧ p ∈ e.transmitted ∧ p.channel.toNat = i ∧ ch.mode.reliable = true ∧
    q.sequence = p.sequence ∧ q.raw = p.raw

/-- What an act leaves of the send side of a channel. -/
structure SendStep (e : Endpoint) (a : Act) (i : ℕ) (ch ch' : Channel) : Prop where
  mode_eq : ch'.mode = ch.mode
  sendSeq_eq : (∀ id, a = .number id → id.toNat ≠ i) → ch'.sendSeq = ch.sendSeq
  pending : ∀ q ∈ ch'.pendingSend,
    (∃ q₀ ∈ ch.pendingSend, q₀.sequence = q.sequence ∧ q₀.raw = q.raw) ∨ e.Queues a i ch q

theorem SendStep.refl (i : ℕ) (ch : Channel) : SendStep e a i ch ch :=
  ⟨rfl, fun _ => rfl, fun q hq => .inl ⟨q, hq, rfl, rfl⟩⟩

/-- Acts that keep the list of channels. -/
theorem sendStep_of_eq (hch : e'.conn.channels = e.conn.channels) {i : ℕ} {ch' : Channel}
    (h : e'.conn.channels[i]? = some ch') :
    ∃ ch, e.conn.channels[i]? = some ch ∧ SendStep e a i ch ch' :=
  ⟨ch', hch ▸ h, .refl i ch'⟩

/-- Acts that replace one channel. -/
theorem sendStep_of_set {k : ℕ} {chk chk' : Channel} (hk : e.conn.channels[k]? = some chk)
    (hset : e'.conn.channels = e.conn.channels.set k chk') (hkept : SendStep e a k chk chk') {i : ℕ}
    {ch' : Channel} (h : e'.conn.channels[i]? = some ch') :
    ∃ ch, e.conn.channels[i]? = some ch ∧ SendStep e a i ch ch' := by
  rw [hset, List.getElem?_set] at h
  by_cases hki : k = i
  · subst hki
    have hlt := (List.getElem?_eq_some_iff.mp hk).1
    obtain rfl : chk' = ch' := by simpa [hlt] using h
    exact ⟨chk, hk, hkept⟩
  · rw [if_neg hki] at h
    exact ⟨ch', h, .refl i ch'⟩

/-- The packet's effect on its channel when it is entered into the queue. -/
theorem channels_queuePacket {c : Connection} {p : Stamped} {ch : Channel}
    (hch : c.channel p.channel = some ch) (now : ℤ) :
    ∃ entry : PendingPacket, entry.sequence = p.sequence ∧ entry.raw = p.raw ∧
      (c.queuePacket p now).channels =
        if ch.mode.reliable then c.channels.set p.channel.toNat (ch.addPending entry)
        else c.channels := by
  refine ⟨⟨p.raw, now, 0, now + c.retransmitTimeout, true, p.sequence⟩, rfl, rfl, ?_⟩
  rw [Connection.queuePacket, hch]
  dsimp only
  split <;> rfl

/-- **What an act does to the send side of a channel.** -/
theorem send_step (hstep : e.step a = some e') {i : ℕ} {ch' : Channel}
    (h : e'.conn.channels[i]? = some ch') :
    ∃ ch, e.conn.channels[i]? = some ch ∧ SendStep e a i ch ch' := by
  cases a with
  | packet now data =>
      simp only [step] at hstep
      split at hstep <;> cases hstep
      rename_i c events hok
      have hacking := Connection.processPacket_acking hok
      have hlt : i < e.conn.channels.length :=
        hacking.length_eq ▸ (List.getElem?_eq_some_iff.mp h).1
      obtain ⟨ch₁, hch₁, hmode, hseq, hsub, -⟩ :=
        hacking.channel i _ (List.getElem?_eq_getElem hlt)
      obtain rfl : ch₁ = ch' := Option.some.inj (hch₁.symm.trans h)
      exact ⟨_, List.getElem?_eq_getElem hlt, hmode, fun _ => hseq,
        fun q hq => .inl ⟨q, hsub.subset hq, rfl, rfl⟩⟩
  | number id =>
      simp only [step, Option.bind_eq_bind, Option.bind_eq_some_iff] at hstep
      obtain ⟨ch, hch, hstep⟩ := hstep
      cases hstep
      have hkept : SendStep e (.number id) id.toNat ch ch.nextSequence.1 :=
        ⟨rfl, fun hnot => absurd rfl (hnot id rfl), fun q hq => .inl ⟨q, hq, rfl, rfl⟩⟩
      exact sendStep_of_set hch rfl hkept h
  | queue p now =>
      simp only [step] at hstep
      split at hstep <;> cases hstep
      rename_i hmem
      cases hch : e.conn.channel p.channel with
      | none =>
          have hsame : e.conn.queuePacket p now = e.conn := by rw [Connection.queuePacket, hch]
          exact sendStep_of_eq (congrArg _ hsame) h
      | some ch =>
          obtain ⟨entry, hseq, hraw, hset⟩ := channels_queuePacket hch now
          split at hset
          · rename_i hmode
            have hkept : SendStep e (.queue p now) p.channel.toNat ch (ch.addPending entry) := by
              refine ⟨rfl, fun _ => rfl, fun q hq => ?_⟩
              rcases List.mem_append.mp hq with hold | hnew
              · exact .inl ⟨q, hold, rfl, rfl⟩
              · obtain rfl := List.mem_singleton.mp hnew
                exact .inr ⟨p, now, rfl, hmem, rfl, hmode, hseq, hraw⟩
            exact sendStep_of_set hch hset hkept h
          · exact sendStep_of_eq hset h
  | check k now rto maxRetries =>
      simp only [step, Option.bind_eq_bind, Option.bind_eq_some_iff] at hstep
      obtain ⟨ch, hch, hstep⟩ := hstep
      cases hstep
      have hkept : SendStep e (.check k now rto maxRetries) k ch
          (ch.checkRetransmissions now rto maxRetries).1 :=
        ⟨rfl, fun _ => rfl, fun q hq =>
          .inl (Channel.mem_checkPending now rto maxRetries (.inl hq))⟩
      exact sendStep_of_set hch rfl hkept h
  | clearAck k =>
      simp only [step, Option.bind_eq_bind, Option.bind_eq_some_iff] at hstep
      obtain ⟨ch, hch, hstep⟩ := hstep
      cases hstep
      have hkept : SendStep e (.clearAck k) k ch ch.clearNeedsAck.1 := by
        rw [Channel.clearNeedsAck]
        split <;> exact ⟨rfl, fun _ => rfl, fun q hq => .inl ⟨q, hq, rfl, rfl⟩⟩
      exact sendStep_of_set hch rfl hkept h
  | shutDown reason =>
      cases hstep
      simp only [Connection.shutDown, Connection.releasePendingBuffers, List.getElem?_map,
        Option.map_eq_some_iff] at h
      obtain ⟨ch, hch, rfl⟩ := h
      exact ⟨ch, hch, rfl, fun _ => rfl, fun q hq => by cases hq⟩
  | _ => exact sendStep_of_eq (channels_step hstep rfl) h

/-! ## The plaintexts -/

/-- How an act moves plaintexts. -/
structure Moves (e : Endpoint) (a : Act) (e' : Endpoint) : Prop where
  sealed : ∀ raw ∈ e'.conn.sendCipher.sealed, e.InPlay raw ∨ e.Composes a raw
  stamped : ∀ p ∈ e'.stamped, p ∈ e.stamped ∨ e.Composes a p.raw
  transmitted : ∀ p ∈ e'.transmitted, p ∈ e.transmitted ∨ p ∈ e.stamped
  due : ∀ raw ∈ e'.due, e.InPlay raw

/-- Acts that seal nothing and touch none of the lists. -/
theorem moves_of_eq (hsealed : e'.conn.sendCipher.sealed = e.conn.sendCipher.sealed)
    (hstamped : e'.stamped = e.stamped) (htrans : e'.transmitted = e.transmitted)
    (hdue : e'.due = e.due) : Moves e a e' where
  sealed _ h := .inl (.sealed (hsealed ▸ h))
  stamped _ h := .inl (hstamped ▸ h)
  transmitted _ h := .inl (htrans ▸ h)
  due _ h := .due (hdue ▸ h)

/-- Sealing a plaintext that is in play or just built. -/
theorem mem_sealPlaintext {raw packet : Bytes} (hpacket : e.InPlay packet ∨ e.Composes a packet)
    (hraw : raw ∈ (e.conn.sealPlaintext packet).sendCipher.sealed) :
    e.InPlay raw ∨ e.Composes a raw := by
  rw [Connection.sealPlaintext, Crypto.CipherState.encrypt_sealed] at hraw
  rcases List.mem_cons.mp hraw with rfl | hold
  · exact hpacket
  · exact .inl (.sealed hold)

/-- Acts that seal one packet and build nothing else. -/
theorem moves_of_seal {packet : Bytes} (hpacket : e.InPlay packet ∨ e.Composes a packet)
    (hsealed : e'.conn.sendCipher = (e.conn.sealPlaintext packet).sendCipher)
    (hstamped : e'.stamped ⊆ e.stamped)
    (htrans : ∀ p ∈ e'.transmitted, p ∈ e.transmitted ∨ p ∈ e.stamped)
    (hdue : e'.due ⊆ e.due) : Moves e a e' where
  sealed _ h := mem_sealPlaintext hpacket (hsealed ▸ h)
  stamped _ h := .inl (hstamped h)
  transmitted := htrans
  due _ h := .due (hdue h)

theorem moves_stamp {id : UInt8} {seq : ℕ} {fragment : Bool} {body : Bytes}
    (hstep : e.step (.stamp id seq fragment body) = some e') :
    Moves e (.stamp id seq fragment body) e' := by
  simp only [step, Option.bind_eq_bind, Option.bind_eq_some_iff] at hstep
  obtain ⟨ch, hch, hstep⟩ := hstep
  split at hstep <;> cases hstep
  rename_i hmem
  refine ⟨fun raw h => .inl (.sealed h), fun p hp => ?_, fun p hp => .inl hp, fun raw h => .due h⟩
  rcases List.mem_append.mp hp with hnew | hold
  · exact .inr ⟨ch, p, hch, hmem, eq_ok_of_toOption (Option.mem_toList.mp hnew), rfl⟩
  · exact .inl hold

theorem moves_transmit {p : Stamped} {written : Bool}
    (hstep : e.step (.transmit p written) = some e') : Moves e (.transmit p written) e' := by
  simp only [step] at hstep
  split at hstep <;> cases hstep
  rename_i hmem
  refine moves_of_seal (.inl (.stamped p hmem rfl)) rfl List.erase_subset (fun q hq => ?_)
    (List.Subset.refl _)
  split at hq
  · rcases List.mem_cons.mp hq with rfl | hold
    · exact .inr hmem
    · exact .inl hold
  · exact .inl hq

/-- A retransmission puts plaintexts of pending packets on the list of those due. -/
theorem moves_check {k : ℕ} {now rto maxRetries : ℤ}
    (hstep : e.step (.check k now rto maxRetries) = some e') :
    Moves e (.check k now rto maxRetries) e' := by
  simp only [step, Option.bind_eq_bind, Option.bind_eq_some_iff] at hstep
  obtain ⟨ch, hch, hstep⟩ := hstep
  cases hstep
  refine ⟨fun raw h => .inl (.sealed h), fun p hp => .inl hp, fun p hp => .inl hp, fun raw h => ?_⟩
  rcases List.mem_append.mp h with hnew | hold
  · obtain ⟨q, hq, rfl⟩ := List.mem_map.mp hnew
    obtain ⟨q₀, hq₀, -, hraw⟩ := Channel.mem_checkPending now rto maxRetries (.inr hq)
    exact .pending k ch q₀ hch hq₀ hraw
  · exact .due hold

theorem moves_step (hstep : e.step a = some e') : Moves e a e' := by
  cases a with
  | packet now data =>
      simp only [step] at hstep
      split at hstep <;> cases hstep
      rename_i c events hok
      have hcipher := (Connection.processPacket_acking hok).sendCipher_eq
      exact moves_of_eq (by rw [hcipher]) rfl rfl rfl
  | number | clearAck =>
      simp only [step, Option.bind_eq_bind, Option.bind_eq_some_iff] at hstep
      obtain ⟨ch, -, hstep⟩ := hstep
      cases hstep
      exact moves_of_eq rfl rfl rfl rfl
  | stamp id seq fragment body => exact moves_stamp hstep
  | transmit p written => exact moves_transmit hstep
  | queue p now =>
      simp only [step] at hstep
      split at hstep <;> cases hstep
      have hcipher : (e.conn.queuePacket p now).sendCipher = e.conn.sendCipher := by
        rw [Connection.queuePacket]
        split
        · rfl
        · split <;> rfl
      exact ⟨fun raw h => .inl (.sealed (hcipher ▸ h)), fun q hq => .inl hq,
        fun q hq => .inl (List.mem_of_mem_erase hq), fun raw h => .due h⟩
  | check k now rto maxRetries => exact moves_check hstep
  | resend raw =>
      simp only [step] at hstep
      split at hstep <;> cases hstep
      rename_i hmem
      exact moves_of_seal (.inl (.due hmem)) rfl (List.Subset.refl _) (fun p hp => .inl hp)
        List.erase_subset
  | sealAcks | sealDisconnect =>
      simp only [step, Option.bind_eq_bind, Option.bind_eq_some_iff] at hstep
      obtain ⟨packet, hbuild, hstep⟩ := hstep
      cases hstep
      exact moves_of_seal (.inr (eq_ok_of_toOption hbuild)) rfl (List.Subset.refl _)
        (fun p hp => .inl hp) (List.Subset.refl _)
  | nextFragmentID | cleanup now timeout | shutDown reason | report error | bookkeep books =>
      cases hstep
      exact moves_of_eq rfl rfl rfl rfl

/-- Only `stamp` builds data packets. -/
theorem Composes.control {raw : Bytes} {hdr : PacketHeader} {n : ℕ} (h : e.Composes a raw)
    (hstamp : ∀ k seq fragment body, a ≠ .stamp k seq fragment body)
    (hparse : unmarshalHeader raw = .ok (hdr, n)) : hdr.flags &&& flagControl ≠ 0 := by
  cases a with
  | stamp k seq fragment body => exact absurd rfl (hstamp k seq fragment body)
  | sealAcks ids =>
      simp only [Composes, Connection.multiAckPacket] at h
      split at h
      · cases h
      · exact control_of_buildControlPacket h hparse
  | sealDisconnect => exact control_of_buildControlPacket h hparse
  | _ => cases h

/-- **Every plaintext is built once.** What is in play after an act was in play
before, or the act has built it. -/
theorem inPlay_step (hstep : e.step a = some e') {raw : Bytes} (h : e'.InPlay raw) :
    e.InPlay raw ∨ e.Composes a raw := by
  have hmoves := moves_step hstep
  cases h with
  | sealed hmem => exact hmoves.sealed raw hmem
  | stamped p hmem hraw =>
      rcases hmoves.stamped p hmem with hold | hnew
      · exact .inl (.stamped p hold hraw)
      · exact .inr (hraw ▸ hnew)
  | transmitted p hmem hraw =>
      rcases hmoves.transmitted p hmem with hold | hstamped
      · exact .inl (.transmitted p hold hraw)
      · exact .inl (.stamped p hstamped hraw)
  | due hmem => exact .inl (hmoves.due raw hmem)
  | pending i ch' q hch' hmem hraw =>
      obtain ⟨ch, hch, hkept⟩ := send_step hstep hch'
      rcases hkept.pending q hmem with ⟨q₀, hq₀, -, hsame⟩ | ⟨p, now, -, hp, -, -, -, hsame⟩
      · exact .inl (.pending i ch q₀ hch hq₀ (hsame.trans hraw))
      · exact .inl (.transmitted p hp (hsame.symm.trans hraw))

/-- What is in play at the start. -/
theorem inPlay_start {input : ConnectionInput} {now : ℤ} {raw : Bytes}
    (h : (start input now).InPlay raw) : raw ∈ input.sendCipher.sealed := by
  cases h with
  | sealed hmem => exact hmem
  | stamped p hmem _ => cases hmem
  | transmitted p hmem _ => cases hmem
  | due hmem => cases hmem
  | pending i ch q hch hmem _ =>
      simp only [start, newConnection, newChannels, List.getElem?_map, Option.map_eq_some_iff]
        at hch
      obtain ⟨d, -, rfl⟩ := hch
      cases hmem

/-! ## Counters -/

theorem compress_step (hstep : e.step a = some e') : e'.conn.compress = e.conn.compress := by
  rcases step_cases hstep with hidle | ⟨_, _, _, _, _, _, _, _, _, _, -, -, hacc, -⟩
  · exact hidle.compress_eq
  · exact hacc.compress_eq

theorem queuePacket_fragmentID (c : Connection) (p : Stamped) (now : ℤ) :
    (c.queuePacket p now).fragmentID = c.fragmentID := by
  rw [Connection.queuePacket]
  split
  · rfl
  · split <;> rfl

/-- Identifiers are taken by one act only. -/
theorem fragmentID_step (hstep : e.step a = some e') (hother : a ≠ .nextFragmentID) :
    e'.conn.fragmentID = e.conn.fragmentID := by
  cases a with
  | packet now data =>
      simp only [step] at hstep
      split at hstep <;> cases hstep
      rename_i c events hok
      exact (Connection.processPacket_acking hok).fragmentID_eq
  | nextFragmentID => exact absurd rfl hother
  | queue p now =>
      simp only [step] at hstep
      split at hstep <;> cases hstep
      exact queuePacket_fragmentID e.conn p now
  | _ =>
      simp only [step, Option.bind_eq_bind, Option.bind_eq_some_iff] at hstep
      grind [Connection.setChannel, Connection.setIndex, Connection.sealPlaintext,
        Connection.shutDown, Connection.releasePendingBuffers, Connection.withBooks]

/-- Numbers are taken and used up by two acts. -/
theorem numbered_step (hstep : e.step a = some e') (hnumber : ∀ id, a ≠ .number id)
    (hstamp : ∀ id seq fragment body, a ≠ .stamp id seq fragment body) :
    e'.numbered = e.numbered := by
  cases a with
  | number id => exact absurd rfl (hnumber id)
  | stamp id seq fragment body => exact absurd rfl (hstamp id seq fragment body)
  | _ =>
      simp only [step, Option.bind_eq_bind, Option.bind_eq_some_iff] at hstep
      grind

/-- The numbers that are taken fit into a header. -/
theorem numbered_lt_step (hstep : e.step a = some e')
    (h : ∀ p ∈ e.numbered, p.2 < 2 ^ 32) : ∀ p ∈ e'.numbered, p.2 < 2 ^ 32 := by
  cases a with
  | number k =>
      simp only [step, Option.bind_eq_bind, Option.bind_eq_some_iff] at hstep
      obtain ⟨ch, -, hstep⟩ := hstep
      cases hstep
      intro p hp
      rcases List.mem_cons.mp hp with rfl | hold
      · exact Nat.mod_lt _ (Nat.two_pow_pos 32)
      · exact h p hold
  | stamp k seq fragment body =>
      simp only [step, Option.bind_eq_bind, Option.bind_eq_some_iff] at hstep
      obtain ⟨ch, -, hstep⟩ := hstep
      split at hstep <;> cases hstep
      intro p hp
      exact h p (List.mem_of_mem_erase hp)
  | _ =>
      rw [numbered_step hstep (by simp) (by simp)]
      exact h

end Endpoint

end Fastwire
