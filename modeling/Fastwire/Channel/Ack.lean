/-
# What the acknowledgement state means

`recvAck` and the 32 bits below it are a sliding window over the accepted
sequence numbers, in the sense of `Lib.Tracks`. Everything that is known about
acceptance and about `isAcked` follows from this one reading: which packets
`recordReceive` takes, and which sequence numbers a snapshot of the state
acknowledges.
-/

import Fastwire.Channel.Basic
import Fastwire.Lib.SlidingWindow
import Mathlib.Data.List.MinMax
import Mathlib.Data.UInt

namespace Fastwire.Channel

open Lib

/-- The window bit at a given distance below `recvAck`. -/
def ackBit (ch : Channel) : ℕ → Prop
  | 0 => ch.recvAck ≠ 0
  | i + 1 => ch.recvAckField.getLsbD i = true

theorem ackBit_zero (ch : Channel) : ch.ackBit 0 ↔ ch.recvAck ≠ 0 := Iff.rfl

theorem ackBit_succ (ch : Channel) (i : ℕ) :
    ch.ackBit (i + 1) ↔ ch.recvAckField.getLsbD i = true := Iff.rfl

/-- The acknowledgement state is exact for the accepted sequence numbers. -/
def AckExact (ch : Channel) (seen : Set ℕ) : Prop :=
  Tracks 33 ch.recvAck ch.ackBit seen

variable {ch : Channel} {seen : Set ℕ} {seq : ℕ}

theorem ackExact_init (mode : DeliveryMode) (streamIndex : UInt8) (window : ℤ) :
    (init mode streamIndex window).AckExact ∅ := by
  apply Tracks.empty
  intro d _
  cases d with
  | zero => exact fun hne => hne rfl
  | succ i => simp [ackBit, init]

/-- Exactness reads the acknowledgement state only. -/
theorem AckExact.congr {ch' : Channel} (h : ch.AckExact seen) (hack : ch'.recvAck = ch.recvAck)
    (hfield : ch'.recvAckField = ch.recvAckField) : ch'.AckExact seen := by
  have hbit : ch'.ackBit = ch.ackBit := by
    funext d
    cases d with
    | zero => simp [ackBit, hack]
    | succ i => simp [ackBit, hfield]
  rw [AckExact, hack, hbit]
  exact h

/-- `recordReceive` either refuses and changes nothing, or accepts, touches the
acknowledgement state only and asks for an acknowledgement. -/
theorem recordReceive_cases (ch : Channel) (seq : ℕ) :
    ch.recordReceive seq = (ch, false) ∨
      ∃ ack field, ch.recordReceive seq =
        ({ ch with recvAck := ack, recvAckField := field, needsAck := true }, true) := by
  generalize hresult : ch.recordReceive seq = result
  rw [recordReceive] at hresult
  split at hresult
  · exact .inl hresult.symm
  split at hresult
  · exact .inl hresult.symm
  split at hresult
  · exact .inr ⟨_, _, hresult.symm⟩
  split at hresult
  · exact .inr ⟨_, _, hresult.symm⟩
  split at hresult
  · exact .inl hresult.symm
  dsimp only at hresult
  split at hresult
  · split at hresult
    · exact .inl hresult.symm
    · exact .inr ⟨_, _, hresult.symm⟩
  · exact .inl hresult.symm

section Frame

variable (ch : Channel) (seq : ℕ)

@[simp]
theorem recordReceive_mode : (ch.recordReceive seq).1.mode = ch.mode := by
  rcases ch.recordReceive_cases seq with h | ⟨ack, field, h⟩ <;> rw [h]

@[simp]
theorem recordReceive_recvBuffer : (ch.recordReceive seq).1.recvBuffer = ch.recvBuffer := by
  rcases ch.recordReceive_cases seq with h | ⟨ack, field, h⟩ <;> rw [h]

@[simp]
theorem recordReceive_recvNextDeliver :
    (ch.recordReceive seq).1.recvNextDeliver = ch.recvNextDeliver := by
  rcases ch.recordReceive_cases seq with h | ⟨ack, field, h⟩ <;> rw [h]

@[simp]
theorem recordReceive_lastRecvSeq : (ch.recordReceive seq).1.lastRecvSeq = ch.lastRecvSeq := by
  rcases ch.recordReceive_cases seq with h | ⟨ack, field, h⟩ <;> rw [h]

@[simp]
theorem recordReceive_sendSeq : (ch.recordReceive seq).1.sendSeq = ch.sendSeq := by
  rcases ch.recordReceive_cases seq with h | ⟨ack, field, h⟩ <;> rw [h]

@[simp]
theorem recordReceive_pendingSend : (ch.recordReceive seq).1.pendingSend = ch.pendingSend := by
  rcases ch.recordReceive_cases seq with h | ⟨ack, field, h⟩ <;> rw [h]

end Frame

/-! ## Acceptance -/

theorem recordReceive_zero (ch : Channel) : ch.recordReceive 0 = (ch, false) := by
  rw [recordReceive, if_pos rfl]

theorem recordReceive_beyond (hwin : ch.beyondWindow seq = true) :
    ch.recordReceive seq = (ch, false) := by
  rw [recordReceive, if_pos hwin, ite_self]

section Branches

variable (hzero : seq ≠ 0) (hwin : ch.beyondWindow seq = false)

include hzero hwin

/-- The first sequence number. -/
theorem recordReceive_first (hfirst : ch.recvAck = 0) :
    ch.recordReceive seq =
      ({ ch with recvAck := seq, recvAckField := 0, needsAck := true }, true) := by
  rw [recordReceive, if_neg hzero, if_neg (Bool.eq_false_iff.mp hwin), if_pos hfirst]

/-- Above the highest one. -/
theorem recordReceive_above (hfirst : ch.recvAck ≠ 0) (hlt : ch.recvAck < seq) :
    ch.recordReceive seq =
      ({ ch with
          recvAck := seq
          recvAckField :=
            if seq - ch.recvAck ≤ 32 then
              (ch.recvAckField <<< (seq - ch.recvAck)) ||| (1#32 <<< (seq - ch.recvAck - 1))
            else 0
          needsAck := true }, true) := by
  rw [recordReceive, if_neg hzero, if_neg (Bool.eq_false_iff.mp hwin), if_neg hfirst, if_pos hlt]

/-- The highest one again. -/
theorem recordReceive_top (heq : ch.recvAck = seq) : ch.recordReceive seq = (ch, false) := by
  rw [recordReceive, if_neg hzero, if_neg (Bool.eq_false_iff.mp hwin), if_neg (heq.trans_ne hzero),
    if_neg heq.not_lt, if_pos heq.symm]

/-- Below it, where there is a bit. -/
theorem recordReceive_below (hgt : seq < ch.recvAck) (hin : ch.recvAck - seq ≤ 32) :
    ch.recordReceive seq =
      if ch.recvAckField &&& (1#32 <<< (ch.recvAck - seq - 1)) ≠ 0#32 then (ch, false)
      else ({ ch with
          recvAckField := ch.recvAckField ||| (1#32 <<< (ch.recvAck - seq - 1))
          needsAck := true }, true) := by
  rw [recordReceive, if_neg hzero, if_neg (Bool.eq_false_iff.mp hwin),
    if_neg (Nat.ne_zero_of_lt hgt), if_neg hgt.not_gt, if_neg hgt.ne, if_pos hin]

/-- Further below. -/
theorem recordReceive_far (hin : 32 < ch.recvAck - seq) : ch.recordReceive seq = (ch, false) := by
  have hgt : seq < ch.recvAck := by omega
  rw [recordReceive, if_neg hzero, if_neg (Bool.eq_false_iff.mp hwin),
    if_neg (Nat.ne_zero_of_lt hgt), if_neg hgt.not_gt, if_neg hgt.ne, if_neg hin.not_ge]

/-- Above the highest sequence number only the receive window refuses. -/
theorem recordReceive_of_lt (hlt : ch.recvAck < seq) : (ch.recordReceive seq).2 = true := by
  by_cases hfirst : ch.recvAck = 0
  · rw [recordReceive_first hzero hwin hfirst]
  · rw [recordReceive_above hzero hwin hfirst hlt]

/-- Below it the bit decides, as long as there is one. -/
theorem recordReceive_of_gt (hlt : seq < ch.recvAck) (hin : ch.recvAck - seq ≤ 32) :
    (ch.recordReceive seq).2 = true ↔ ¬ ch.ackBit (ch.recvAck - seq) := by
  obtain ⟨d, hd⟩ : ∃ d, ch.recvAck - seq = d + 1 := ⟨ch.recvAck - seq - 1, by omega⟩
  have hmask := and_mask_eq_zero ch.recvAckField (k := d) (by omega)
  rw [recordReceive_below hzero hwin hlt hin, hd, Nat.add_sub_cancel, ackBit_succ]
  split
  · rename_i hset
    rw [ne_eq, hmask, Bool.not_eq_false] at hset
    simp [hset]
  · rename_i hclear
    rw [ne_eq, not_not, hmask] at hclear
    simp [hclear]

end Branches

/-- The acceptance rule: a sequence number is taken exactly when it is nonzero,
inside the receive window, new, and at most 32 below the highest one. -/
theorem recordReceive_iff (h : ch.AckExact seen) :
    (ch.recordReceive seq).2 = true ↔
      seq ≠ 0 ∧ ch.beyondWindow seq = false ∧ seq ∉ seen ∧ ch.recvAck ≤ seq + 32 := by
  by_cases hzero : seq = 0
  · simp [hzero, recordReceive_zero]
  cases hwin : ch.beyondWindow seq with
  | true => simp [recordReceive_beyond hwin]
  | false =>
      rcases Nat.lt_trichotomy ch.recvAck seq with hlt | heq | hgt
      · have hnew : seq ∉ seen := h.notMem_of_top_lt hlt
        have hin : ch.recvAck ≤ seq + 32 := by omega
        simp [recordReceive_of_lt hzero hwin hlt, hzero, hnew, hin]
      · have hmem : seq ∈ seen := heq ▸ h.top_mem (by omega)
        simp [recordReceive_top hzero hwin heq, hmem]
      · by_cases hin : ch.recvAck - seq ≤ 32
        · have hnear : ch.recvAck ≤ seq + 32 := by omega
          rw [recordReceive_of_gt hzero hwin hgt hin, ← h.mem_iff hgt.le (by omega)]
          simp [hzero, hnear]
        · have hfar : ¬ ch.recvAck ≤ seq + 32 := by omega
          simp [recordReceive_far hzero hwin (Nat.lt_of_not_le hin), hfar]

/-! ## Exactness is kept -/

/-- Before the first packet no bit of the window is set. -/
theorem not_ackBit_of_recvAck_eq_zero (h : ch.AckExact seen) (hfirst : ch.recvAck = 0) {d : ℕ}
    (hd : d < 33) : ¬ ch.ackBit d := by
  rw [h.bit_iff d hd, hfirst, Nat.zero_sub]
  exact h.zero_notMem

/-- Shifting the field in and setting the bit of the old highest number. -/
theorem getLsbD_shifted (field : BitVec 32) {diff i : ℕ} (hpos : 0 < diff) (hdiff : diff ≤ 32)
    (hi : i < 32) :
    ((field <<< diff) ||| (1#32 <<< (diff - 1))).getLsbD i = true ↔
      i + 1 = diff ∨ (diff ≤ i ∧ field.getLsbD (i - diff) = true) := by
  rw [getLsbD_or_mask _ (by omega), BitVec.getLsbD_shiftLeft]
  have hhere : i = diff - 1 ↔ i + 1 = diff := by omega
  rw [hhere]
  by_cases hlt : i < diff
  · have hnot : ¬ diff ≤ i := by omega
    simp [hlt, hnot]
  · have hle : diff ≤ i := by omega
    simp [hlt, hi, hle]

/-- Accepting a sequence number keeps the state exact. -/
theorem AckExact.recordReceive (h : ch.AckExact seen) (hacc : (ch.recordReceive seq).2 = true) :
    (ch.recordReceive seq).1.AckExact (insert seq seen) := by
  obtain ⟨hzero, hwin, hnew, hin⟩ := (recordReceive_iff h).mp hacc
  by_cases hfirst : ch.recvAck = 0
  · have hlt : ch.recvAck < seq := by omega
    rw [recordReceive_first hzero hwin hfirst]
    refine Tracks.advance h hlt fun d hd => ?_
    have hclear := not_ackBit_of_recvAck_eq_zero h hfirst (d := d - (seq - ch.recvAck)) (by omega)
    cases d with
    | zero => simp [ackBit_zero, hzero]
    | succ i => simp [ackBit_succ, hclear]
  rcases Nat.lt_trichotomy ch.recvAck seq with hlt | heq | hgt
  · rw [recordReceive_above hzero hwin hfirst hlt]
    refine Tracks.advance h hlt fun d hd => ?_
    cases d with
    | zero => simp [ackBit, hzero]
    | succ i =>
        simp only [ackBit_succ, Nat.add_eq_zero_iff, one_ne_zero, and_false, false_or]
        by_cases hdiff : seq - ch.recvAck ≤ 32
        · rw [if_pos hdiff, getLsbD_shifted _ (by omega) hdiff (by omega)]
          rcases Nat.lt_trichotomy (i + 1) (seq - ch.recvAck) with hbelow | hat | habove
          · have hno : ¬ seq - ch.recvAck ≤ i := by omega
            have hno' : ¬ seq - ch.recvAck ≤ i + 1 := by omega
            simp [hno, hno', hbelow.ne]
          · simp [hat, ackBit_zero, hfirst]
          · have hle : seq - ch.recvAck ≤ i := by omega
            have hback : i + 1 - (seq - ch.recvAck) = i - (seq - ch.recvAck) + 1 := by omega
            simp [hle, habove.ne', habove.le, hback, ackBit_succ]
        · have hno : ¬ seq - ch.recvAck ≤ i + 1 := by omega
          simp [hdiff, hno]
  · exact absurd (heq ▸ h.top_mem hfirst) hnew
  · have hnear : ch.recvAck - seq ≤ 32 := by omega
    obtain ⟨e, he⟩ : ∃ e, ch.recvAck - seq = e + 1 := ⟨ch.recvAck - seq - 1, by omega⟩
    have hclear : ch.recvAckField &&& (1#32 <<< (ch.recvAck - seq - 1)) = 0#32 := by
      rw [he, Nat.add_sub_cancel, and_mask_eq_zero _ (by omega)]
      have hbit := (h.mem_iff hgt.le (by omega)).not.mp hnew
      rw [he] at hbit
      simpa [ackBit] using hbit
    rw [recordReceive_below hzero hwin hgt hnear, if_neg (not_not.mpr hclear)]
    refine Tracks.mark h hzero hgt.le fun d hd => ?_
    cases d with
    | zero =>
        have hpos : 0 ≠ ch.recvAck - seq := by omega
        simp [ackBit, hpos]
    | succ i =>
        simp only [ackBit]
        rw [he, Nat.add_sub_cancel, getLsbD_or_mask _ (by omega), Nat.add_right_cancel_iff]

/-! ## What a snapshot acknowledges -/

/-- The current state acknowledges exactly the accepted sequence numbers that
are at most 32 below the highest one. The empty state is read as number 0, so it
must be told apart from it. -/
theorem isAcked_iff (h : ch.AckExact seen) (hzero : ch.recvAck = 0 → seq ≠ 0) :
    isAcked seq ch.recvAck ch.recvAckField = true ↔ seq ∈ seen ∧ ch.recvAck ≤ seq + 32 := by
  rcases Nat.lt_trichotomy ch.recvAck seq with hlt | heq | hgt
  · have hnew : seq ∉ seen := h.notMem_of_top_lt hlt
    have hne : seq ≠ ch.recvAck := by omega
    have hnot : ¬ seq < ch.recvAck := by omega
    simp [isAcked, hne, hnot, hnew]
  · have hmem : seq ∈ seen := heq ▸ h.top_mem (by omega)
    simp [isAcked, heq, hmem]
  · have hne : seq ≠ ch.recvAck := by omega
    by_cases hin : ch.recvAck - seq ≤ 32
    · have hnear : ch.recvAck ≤ seq + 32 := by omega
      obtain ⟨e, he⟩ : ∃ e, ch.recvAck - seq = e + 1 := ⟨ch.recvAck - seq - 1, by omega⟩
      rw [h.mem_iff hgt.le (by omega)]
      have hmask := and_mask_eq_zero ch.recvAckField (k := e) (by omega)
      rw [he] at hin ⊢
      simp only [isAcked, hne, hgt, he, hin, hnear, ↓reduceIte, Nat.add_sub_cancel, ackBit,
        and_true, bne_iff_ne, ne_eq, hmask, Bool.not_eq_false]
    · have hfar : ¬ ch.recvAck ≤ seq + 32 := by omega
      simp [isAcked, hne, hgt, hin, hfar]

/-! ## Sequences of calls -/

/-- One call of `recordReceive`, with the numbers accepted so far, newest first. -/
def recordCall (s : Channel × List UInt32) (seq : UInt32) : Channel × List UInt32 :=
  let (ch, accepted) := s.1.recordReceive seq.toNat
  (ch, if accepted then seq :: s.2 else s.2)

/-- The channel after a sequence of calls, and the numbers they accepted. -/
def recordCalls (ch : Channel) (seqs : List UInt32) : Channel × List UInt32 :=
  seqs.foldl recordCall (ch, [])

/-- What the calls keep: the state is exact for the accepted numbers, and none of
them was accepted twice. -/
structure Recorded (s : Channel × List UInt32) : Prop where
  exact : s.1.AckExact {n | ∃ seq ∈ s.2, seq.toNat = n}
  nodup : s.2.Nodup

theorem mem_accepted {accepted : List UInt32} {seq : UInt32} :
    seq.toNat ∈ {n | ∃ seq ∈ accepted, seq.toNat = n} ↔ seq ∈ accepted := by
  constructor
  · rintro ⟨seq', hmem, heq⟩
    rwa [← UInt32.toNat_inj.mp heq]
  · intro hmem
    exact ⟨seq, hmem, rfl⟩

/-- The step: an accepted number is new and goes to the others. -/
theorem Recorded.recordCall {s : Channel × List UInt32} (h : Recorded s) (seq : UInt32) :
    Recorded (recordCall s seq) := by
  unfold Channel.recordCall
  by_cases hacc : (s.1.recordReceive seq.toNat).2 = true
  · have hnew : seq.toNat ∉ {n | ∃ seq ∈ s.2, seq.toNat = n} :=
      ((recordReceive_iff h.exact).mp hacc).2.2.1
    have hset : {n | ∃ seq' ∈ seq :: s.2, seq'.toNat = n} =
        insert seq.toNat {n | ∃ seq ∈ s.2, seq.toNat = n} := by
      ext n
      simp [eq_comm]
    simp only [hacc, if_true]
    constructor
    · rw [hset]
      exact h.exact.recordReceive hacc
    · exact List.nodup_cons.mpr ⟨fun hmem => hnew (mem_accepted.mpr hmem), h.nodup⟩
  · have hsame : (s.1.recordReceive seq.toNat).1 = s.1 := by
      rcases recordReceive_cases s.1 seq.toNat with hkeep | ⟨ack, field, htake⟩
      · rw [hkeep]
      · exact absurd (by rw [htake]) hacc
    simp only [hacc, hsame]
    exact h

theorem Recorded.foldl {s : Channel × List UInt32} (h : Recorded s) (seqs : List UInt32) :
    Recorded (seqs.foldl Channel.recordCall s) := by
  induction seqs generalizing s with
  | nil => exact h
  | cons seq seqs ih => exact ih (h.recordCall seq)

/-- The largest number accepted is `recvAck`. -/
theorem Recorded.recvAck_eq {ch : Channel} {accepted : List UInt32} (h : Recorded (ch, accepted)) :
    ch.recvAck = (accepted.map UInt32.toNat).foldr max 0 := by
  apply Nat.le_antisymm
  · by_cases hzero : ch.recvAck = 0
    · rw [hzero]
      exact Nat.zero_le _
    · obtain ⟨seq, hmem, heq⟩ := h.exact.top_mem hzero
      exact List.le_max_of_le (List.mem_map_of_mem hmem) heq.ge
  · apply List.max_le_of_forall_le
    intro n hn
    obtain ⟨seq, hmem, rfl⟩ := List.mem_map.mp hn
    exact h.exact.le_top _ ⟨seq, hmem, rfl⟩

theorem Recorded.recvAck_lt {ch : Channel} {accepted : List UInt32} (h : Recorded (ch, accepted)) :
    ch.recvAck < 2 ^ 32 := by
  by_cases hzero : ch.recvAck = 0
  · omega
  · obtain ⟨seq, -, heq⟩ := h.exact.top_mem hzero
    exact heq ▸ seq.toNat_lt

/-- The bits below, with the subtraction of the wire format. Where it runs below zero
it lands above everything accepted. -/
theorem Recorded.getLsbD_iff {ch : Channel} {accepted : List UInt32}
    (h : Recorded (ch, accepted)) {i : ℕ} (hi : i < 32) :
    ch.recvAckField.getLsbD i = true ↔
      UInt32.ofNat ch.recvAck - UInt32.ofNat (i + 1) ∈ accepted := by
  have hlt := h.recvAck_lt
  have hsub : (UInt32.ofNat ch.recvAck - UInt32.ofNat (i + 1)).toNat =
      (2 ^ 32 - (i + 1) + ch.recvAck) % 2 ^ 32 := by
    rw [UInt32.toNat_sub, UInt32.toNat_ofNat', UInt32.toNat_ofNat', Nat.mod_eq_of_lt hlt,
      Nat.mod_eq_of_lt (show i + 1 < 2 ^ 32 by omega)]
  rw [← ackBit_succ, h.exact.bit_iff (i + 1) (by omega), ← mem_accepted, hsub]
  by_cases hbelow : i + 1 ≤ ch.recvAck
  · have hmod : (2 ^ 32 - (i + 1) + ch.recvAck) % 2 ^ 32 = ch.recvAck - (i + 1) := by omega
    rw [hmod]
  · have hmod : (2 ^ 32 - (i + 1) + ch.recvAck) % 2 ^ 32 > ch.recvAck := by omega
    have hzero : ch.recvAck - (i + 1) = 0 := by omega
    rw [hzero]
    exact iff_of_false h.exact.zero_notMem (h.exact.notMem_of_top_lt hmod)

/-- What is refused. -/
theorem Recorded.refused_iff {ch : Channel} {accepted : List UInt32}
    (h : Recorded (ch, accepted)) (seq : UInt32) :
    (ch.recordReceive seq.toNat).2 = false ↔
      seq = 0 ∨ ch.beyondWindow seq.toNat = true ∨ seq ∈ accepted ∨
        seq.toNat + 32 < ch.recvAck := by
  have hzero : seq.toNat = 0 ↔ seq = 0 := UInt32.toNat_inj (b := 0)
  have hiff : (ch.recordReceive seq.toNat).2 = true ↔ _ := recordReceive_iff h.exact
  rw [mem_accepted, ne_eq, hzero] at hiff
  rw [← Bool.not_eq_true, hiff]
  simp only [not_and_or, not_not, Bool.not_eq_false, Nat.not_le]

theorem recorded_init (mode : DeliveryMode) (streamIndex : UInt8) (window : ℤ) :
    Recorded (init mode streamIndex window, []) where
  exact := by simpa using ackExact_init mode streamIndex window
  nodup := List.nodup_nil

/-- **What the acknowledgement state means.** After any calls of `recordReceive` on a
new channel, `recvAck` is the largest number accepted, or zero; the bits below it tell
which of the 32 numbers below were accepted; no number was accepted twice; and the
next number is refused exactly if it is zero, beyond the receive window, accepted
before, or too old. -/
theorem ack_state_exact (mode : DeliveryMode) (streamIndex : UInt8) (window : ℤ)
    (seqs : List UInt32) :
    let (ch, accepted) := (init mode streamIndex window).recordCalls seqs
    ch.recvAck = (accepted.map UInt32.toNat).foldr max 0 ∧
    (∀ i < 32, ch.recvAckField.getLsbD i = true ↔
      UInt32.ofNat ch.recvAck - UInt32.ofNat (i + 1) ∈ accepted) ∧
    accepted.Nodup ∧
    ∀ seq : UInt32, (ch.recordReceive seq.toNat).2 = false ↔
      seq = 0 ∨ ch.beyondWindow seq.toNat = true ∨ seq ∈ accepted ∨
        seq.toNat + 32 < ch.recvAck := by
  have hrecorded : Recorded ((init mode streamIndex window).recordCalls seqs) :=
    (recorded_init mode streamIndex window).foldl seqs
  generalize (init mode streamIndex window).recordCalls seqs = s at hrecorded
  obtain ⟨ch, accepted⟩ := s
  exact ⟨hrecorded.recvAck_eq, fun i hi => hrecorded.getLsbD_iff hi, hrecorded.nodup,
    hrecorded.refused_iff⟩

end Fastwire.Channel
