/-
# The packets of a message

How many packets a message takes is settled before the first of them is built, by
the layout and the compressor: none if the message is refused, one if it fits, else
one for every fragment. Nothing that a connection sends changes this number for the
messages behind.
-/

import Fastwire.Connection.Identity
import Fastwire.Connection.Lifecycle

namespace Fastwire

namespace Connection

variable (c : Connection)

/-- How many packets `sendMessage` makes of the message. -/
def packetCount (msg : OutgoingMessage) : ℕ :=
  match c.channel msg.channel with
  | none => 0
  | some _ =>
      match c.compress.compressPayload msg.data with
      | .error _ => 0
      | .ok (compressed, fragFlags) =>
          if compressed.length > maxFragmentPayload ∨ fragFlags ≠ 0 then
            -- a message of too many fragments is refused
            if fragmentCount compressed ≤ maxFragments then fragmentCount compressed else 0
          else 1

/-- The channels of the packets of some messages, packet by packet. -/
def packetChannels (msgs : List OutgoingMessage) : List UInt8 :=
  msgs.flatMap fun msg => List.replicate (c.packetCount msg) msg.channel

/-- How many packets the batch queue still takes. -/
def batchRoom : ℕ :=
  if c.batchEnabled ∧ ¬ c.skipBatch then maxBatchQueueSize - c.batchBuf.length else 0

/-! ## What a message becomes -/

/-- A message is refused, goes out in one packet, or goes out in fragments. -/
theorem sendMessage_cases (s : Socket) (data : Bytes) (id : UInt8) (now : ℤ) :
    (c.packetCount ⟨data, id⟩ = 0 ∧ ∃ c' e, c.sendMessage s data id now = (c', s, .error e) ∧
      (c' = c ∨ c' = c.nextFragmentID.1)) ∨
    (∃ ch payload, c.channel id = some ch ∧ c.packetCount ⟨data, id⟩ = 1 ∧
      payload.length ≤ maxFragmentPayload ∧
      c.sendMessage s data id now = c.sendSinglePacket s ch id payload now) ∨
    ∃ fragments, (c.channel id).isSome ∧ c.packetCount ⟨data, id⟩ = fragments.length ∧
      (∀ frag ∈ fragments, frag.length ≤ bodyLimit) ∧
      c.sendMessage s data id now = sendFragments id now c.nextFragmentID.1 s fragments := by
  cases hch : c.channel id with
  | none =>
      refine .inl ⟨by simp [packetCount, hch], c, .invalidChannel, ?_, .inl rfl⟩
      simp only [sendMessage, hch]
  | some ch =>
      cases hcompress : c.compress.compressPayload data with
      | error e =>
          refine .inl ⟨by simp [packetCount, hch, hcompress], c, e, ?_, .inl rfl⟩
          simp only [sendMessage, hch, hcompress]
      | ok result =>
          obtain ⟨compressed, fragFlags⟩ := result
          by_cases hlarge : compressed.length > maxFragmentPayload ∨ fragFlags ≠ 0
          · have hsend : c.sendMessage s data id now =
                c.sendFragmented s id compressed fragFlags now := by
              simp only [sendMessage, hch, hcompress]
              rw [if_pos hlarge]
            have hcount : c.packetCount ⟨data, id⟩ =
                if fragmentCount compressed ≤ maxFragments then fragmentCount compressed
                else 0 := by
              simp only [packetCount, hch, hcompress]
              rw [if_pos hlarge]
            rw [hsend, hcount, sendFragmented]
            by_cases hfew : fragmentCount compressed ≤ maxFragments
            · obtain ⟨fragments, hsplit⟩ :=
                splitMessage_of_le hfew c.nextFragmentID.2 fragFlags
              refine .inr (.inr ⟨fragments, rfl, ?_, splitMessage_length_le hsplit, ?_⟩)
              · rw [if_pos hfew, (splitMessage_ok hsplit).1]
              · simp only [hsplit]
            · refine .inl ⟨if_neg hfew, c.nextFragmentID.1, .messageTooLarge, ?_, .inr rfl⟩
              have hsplit : splitMessage compressed c.nextFragmentID.2 fragFlags =
                  .error .messageTooLarge := by rw [splitMessage, if_pos (by omega)]
              simp only [hsplit]
          · refine .inr (.inl ⟨ch, compressed, rfl, ?_, by omega, ?_⟩)
            · simp only [packetCount, hch, hcompress]
              rw [if_neg hlarge]
            · simp only [sendMessage, hch, hcompress]
              rw [if_neg hlarge]

/-! ## The number does not change -/

theorem sendInvariant_compress (mtu : ℤ) (pool : CompressorPool) :
    SendInvariant mtu fun c _ => c.compress = pool where
  books h same := by
    simp only [core, Prod.mk.injEq] at same
    exact same.2.2.2.2.2.trans h
  number _ h := h
  transmit {c s raw} _ h := by
    obtain ⟨_, _, heq⟩ := c.transmitPacket_books s raw
    rw [heq]
    exact h
  queue {c s p} now _ h := by
    obtain ⟨_, _, heq⟩ := c.queuePacket_books p now
    rw [heq]
    exact h
  check _ _ _ _ h := h
  resend _ _ h := h
  flush h := h

theorem map_mode_channel (id : UInt8) :
    (c.channel id).map Channel.mode = c.modes[id.toNat]? := by
  simp only [channel, modes, life, List.map_map, List.getElem?_map]
  rfl

variable {c}

theorem packetCount_congr {c' : Connection} (hcompress : c'.compress = c.compress)
    (hmodes : c'.modes = c.modes) (msg : OutgoingMessage) :
    c'.packetCount msg = c.packetCount msg := by
  have hmode := c'.map_mode_channel msg.channel
  rw [hmodes, ← c.map_mode_channel] at hmode
  rw [packetCount, packetCount, hcompress]
  cases hch : c.channel msg.channel <;> cases hch' : c'.channel msg.channel <;>
    simp [hch, hch'] at hmode ⊢

theorem packetChannels_congr {c' : Connection} (hcompress : c'.compress = c.compress)
    (hmodes : c'.modes = c.modes) (msgs : List OutgoingMessage) :
    c'.packetChannels msgs = c.packetChannels msgs := by
  simp only [packetChannels, packetCount_congr hcompress hmodes]

variable (c)

theorem sendMessage_plan (s : Socket) (data : Bytes) (id : UInt8) (now : ℤ) :
    (c.sendMessage s data id now).1.compress = c.compress ∧
      (c.sendMessage s data id now).1.modes = c.modes := by
  refine ⟨(sendInvariant_compress 0 c.compress).sendMessage data id now (s := s) rfl, ?_⟩
  have hlife := (stageInvariant_life 0 c.life).sendMessage data id now (s := s) rfl
  rw [modes, hlife, modes]

end Connection

end Fastwire
