/-
# Sends that take turns

`Send` may be called by several goroutines, and then the packets of two messages on one
channel can be mixed. If the sends on a channel take turns, the numbers of its packets
ascend with the messages, and a number tells which message it belongs to.
-/

import Fastwire.Traffic.Receiver

namespace Fastwire

open Lib

/-- The numbers of a message of the channel. -/
def Letter.numbersOn (id : UInt8) (m : Letter) : Set ℕ := { seq | m.channel = id ∧ seq ∈ m.seqs }

namespace Traffic

variable {letters : List Letter} {s : Traffic} {id : UInt8}

/-- The sends on the channel take turns: no packet is built when a later message has
packets, and the numbers ascend. -/
def InTurn (id : UInt8) (s : Traffic) : TrafficMove → Prop
  | .build i seq => ∀ m ∈ s.letters[i]?, m.channel = id →
      0 < seq ∧ (∀ m' ∈ s.letters, m'.channel = id → ∀ n ∈ m'.seqs, n < seq) ∧
        ∀ m' ∈ s.letters.drop (i + 1), m'.channel = id → m'.seqs = []
  | _ => True

instance (id : UInt8) (s : Traffic) (move : TrafficMove) : Decidable (InTurn id s move) :=
  match move with
  | .build _ _ => inferInstanceAs (Decidable (∀ m ∈ _, _))
  | .post _ _ => .isTrue trivial
  | .act _ _ => .isTrue trivial

/-- The numbers on a channel ascend with the messages. -/
structure Turns (id : UInt8) (letters : List Letter) : Prop where
  ascending : Ascending (Letter.numbersOn id) letters
  nodup : ∀ m ∈ letters, m.channel = id → m.seqs.Nodup
  pos : ∀ m ∈ letters, m.channel = id → ∀ seq ∈ m.seqs, 0 < seq

/-- A number tells which message it belongs to. -/
theorem Turns.eq_of_number (h : Turns id letters) {m m' : Letter} (hm : m ∈ letters)
    (hm' : m' ∈ letters) {n : ℕ} (hn : n ∈ m.numbersOn id) (hn' : n ∈ m'.numbersOn id) :
    m = m' := by
  obtain ⟨i, hi⟩ := List.mem_iff_getElem?.mp hm
  obtain ⟨j, hj⟩ := List.mem_iff_getElem?.mp hm'
  obtain rfl : i = j := h.ascending.apart i j m m' hi hj n hn hn'
  exact Option.some.inj (hi.symm.trans hj)

/-- A message without packets. -/
theorem Turns.concat (h : Turns id letters) {m : Letter} (hm : m.seqs = []) :
    Turns id (letters ++ [m]) := by
  have hnone : ∀ seq, seq ∉ m.numbersOn id := by simp [Letter.numbersOn, hm]
  refine ⟨h.ascending.concat hnone, fun x hx hch => ?_, fun x hx hch => ?_⟩
  · rcases List.mem_append.mp hx with hold | hnew
    · exact h.nodup x hold hch
    · rw [List.mem_singleton.mp hnew, hm]
      exact List.nodup_nil
  · rcases List.mem_append.mp hx with hold | hnew
    · exact h.pos x hold hch
    · simp [List.mem_singleton.mp hnew, hm]

/-- The next packet of a message. -/
theorem Turns.build (h : Turns id s.letters) {i seq : ℕ} (hturn : InTurn id s (.build i seq))
    {m : Letter} (hm : s.letters[i]? = some m) : Turns id (s.letters.set i (m.build seq)) := by
  have hmem := List.mem_of_getElem? hm
  by_cases hch : m.channel = id
  · obtain ⟨hpos, habove, hlast⟩ := hturn m hm hch
    refine ⟨h.ascending.set hm fun n hn => ?_, fun x hx hx' => ?_, fun x hx hx' => ?_⟩
    · rcases List.mem_append.mp hn.2 with hold | hnew
      · exact .inl ⟨hch, hold⟩
      · obtain rfl := List.mem_singleton.mp hnew
        refine .inr ⟨fun z hz b hb => habove z hz hb.1 b hb.2, fun j z hij hz b hb => ?_⟩
        have hbehind : z ∈ s.letters.drop (i + 1) := by
          refine List.mem_iff_getElem?.mpr ⟨j - (i + 1), ?_⟩
          rw [List.getElem?_drop, show i + 1 + (j - (i + 1)) = j by omega]
          exact hz
        rw [Letter.numbersOn, Set.mem_ofPred_eq, hlast z hbehind hb.1] at hb
        cases hb.2
    · rcases List.mem_or_eq_of_mem_set hx with hold | rfl
      · exact h.nodup x hold hx'
      · have hfresh : seq ∉ m.seqs := fun hseq => Nat.lt_irrefl _ (habove m hmem hch seq hseq)
        exact List.nodup_append_comm.mp (List.nodup_cons.mpr ⟨hfresh, h.nodup m hmem hch⟩)
    · rcases List.mem_or_eq_of_mem_set hx with hold | rfl
      · exact h.pos x hold hx'
      · intro n hn
        rcases List.mem_append.mp hn with hold | hnew
        · exact h.pos m hmem hch n hold
        · rw [List.mem_singleton.mp hnew]
          exact hpos
  · -- a message of another channel
    have hother : (m.build seq).channel ≠ id := hch
    refine ⟨h.ascending.set hm fun n hn => absurd hn.1 hother, fun x hx hx' => ?_,
      fun x hx hx' => ?_⟩
    · rcases List.mem_or_eq_of_mem_set hx with hold | rfl
      · exact h.nodup x hold hx'
      · exact absurd hx' hother
    · rcases List.mem_or_eq_of_mem_set hx with hold | rfl
      · exact h.pos x hold hx'
      · exact absurd hx' hother

theorem turns_of_run {hist : List (Traffic × TrafficMove)} (hrun : system.Run hist s)
    (hturn : System.Guarded (InTurn id) hist) : Turns id s.letters := by
  induction hrun with
  | @start s starts =>
      rw [starts.2.1]
      exact ⟨.nil _, by simp, by simp⟩
  | @step hist s s' move prior taken ih =>
      rw [System.guarded_cons] at hturn
      have h := ih hturn.2
      cases steps_of_step taken with
      | single id data => exact h.concat rfl
      | rejected id data => exact h
      | split id data payload flags bodies hcompress hsplit => exact h.concat rfl
      | build i seq m body e' hm hbody hstep => exact h.build hturn.1 hm
      | left a e' hmay hauth hstep => exact h
      | right a e' hauth hstep => exact h

/-- What the receiver has accepted are numbers of messages. -/
theorem accepted_numbered {hist : List (Traffic × TrafficMove)} (hrun : system.Run hist s)
    {seq : ℕ} (hseq : seq ∈ acceptedOn s.pair.right.trace id) :
    ∃ m ∈ s.letters, m.channel = id ∧ seq ∈ m.seqs := by
  induction hrun with
  | @start s starts =>
      obtain ⟨input, now, heq, -⟩ := starts.1 .right
      have hright : s.pair.right = Endpoint.start input now := heq
      rw [hright] at hseq
      cases hseq
  | @step hist s s' move prior taken ih =>
      have hgrow : ∀ letters', Grown Letter.Later s.letters letters' →
          seq ∈ acceptedOn s.pair.right.trace id →
          ∃ m ∈ letters', m.channel = id ∧ seq ∈ m.seqs := by
        intro letters' hgrown hold
        obtain ⟨m, hm, hch, hmem⟩ := ih hold
        obtain ⟨m', hm', more, rfl⟩ := hgrown.exists_mem hm
        exact ⟨_, hm', hch, List.mem_append_left _ hmem⟩
      cases steps_of_step taken with
      | single id data => exact hgrow _ (.concat Letter.Later.refl _ _) hseq
      | rejected id data => exact ih hseq
      | split id data payload flags bodies hcompress hsplit =>
          exact hgrow _ (.concat Letter.Later.refl _ _) hseq
      | build i n m body e' hm hbody hstep =>
          exact hgrow _ (.set Letter.Later.refl hm (m.later_build n)) hseq
      | left a e' hmay hauth hstep => exact ih hseq
      | right a e' hauth hstep =>
          have hseq : seq ∈ acceptedOn e'.trace id := hseq
          rcases Endpoint.step_cases hstep with hidle | ⟨now, data, hdr, body, ch, acks, ps, n, ch',
            events, rfl, hpacket, hacc, heq⟩
          · rw [hidle.acceptedOn_eq] at hseq
            exact ih hseq
          rw [heq, acceptedOn_append, hacc.acceptedOn_events] at hseq
          rcases hseq with hold | hnew
          · exact ih hold
          split at hnew
          · rename_i hid
            obtain ⟨m, hm, hchannel, k, hindex, -⟩ :=
              (sender_of_run prior).packet hauth hpacket
            rw [Set.mem_singleton_iff.mp hnew]
            exact ⟨m, hm, hchannel.trans hid.symm, List.mem_of_getElem? hindex⟩
          · cases hnew

end Traffic

end Fastwire
