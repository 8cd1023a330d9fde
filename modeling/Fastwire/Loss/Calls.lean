/-
# What the calls on a loss tracker leave

An entry of the window is acknowledged exactly if the next call about its number,
after its own send, is an acknowledgement: from then on it is the newest entry with the
number no more, or it is marked already. If all packets have been acknowledged, the
next call about a number is an acknowledgement unless it is another send. If no number
is sent twice, any acknowledgement behind the send will do, so that the counters are
those of the last hundred packets and of the acknowledged ones among them.
-/

import Fastwire.Loss.Window
import Mathlib.Data.List.DropRight
import Mathlib.Data.List.Nodup

namespace Fastwire.LossTracker

def sends (log : List LossCall) : List ℕ :=
  log.filterMap fun
    | .send seq => some seq
    | .ack _ => none

@[simp]
theorem sends_send (seq : ℕ) (log : List LossCall) :
    sends (.send seq :: log) = seq :: sends log := rfl

@[simp]
theorem sends_ack (seq : ℕ) (log : List LossCall) : sends (.ack seq :: log) = sends log := rfl

@[simp]
theorem sends_append (newer older : List LossCall) :
    sends (newer ++ older) = sends newer ++ sends older := List.filterMap_append

theorem send_mem_iff {seq : ℕ} {log : List LossCall} : seq ∈ sends log ↔ .send seq ∈ log := by
  constructor
  · intro hmem
    obtain ⟨c, hc, heq⟩ := List.mem_filterMap.mp hmem
    cases c with
    | send seq' =>
        cases heq
        exact hc
    | ack seq' => cases heq
  · intro hmem
    exact List.mem_filterMap.mpr ⟨.send seq, hmem, rfl⟩

theorem count_send_cons (c : LossCall) (log : List LossCall) (seq : ℕ) :
    (c :: log).count (.send seq) = log.count (.send seq) + if c = .send seq then 1 else 0 := by
  rw [List.count_cons]
  simp only [beq_iff_eq]

theorem count_ack_cons (c : LossCall) (log : List LossCall) (seq : ℕ) :
    (c :: log).count (.ack seq) = log.count (.ack seq) + if c = .ack seq then 1 else 0 := by
  rw [List.count_cons]
  simp only [beq_iff_eq]

/-- A place among the packets is a place in the log. -/
theorem exists_split {k : ℕ} {log : List LossCall} (hk : k < (sends log).length) :
    ∃ newer seq older, log = newer ++ .send seq :: older ∧ (sends newer).length = k := by
  induction log generalizing k with
  | nil => cases hk
  | cons c log ih =>
      cases c with
      | send seq =>
          cases k with
          | zero => exact ⟨[], seq, log, rfl, rfl⟩
          | succ k =>
              rw [sends_send, List.length_cons, Nat.add_lt_add_iff_right] at hk
              obtain ⟨newer, seq', older, hlog, hlength⟩ := ih hk
              exact ⟨.send seq :: newer, seq', older, by rw [hlog]; rfl,
                by rw [sends_send, List.length_cons, hlength]⟩
      | ack seq =>
          obtain ⟨newer, seq', older, hlog, hlength⟩ := ih hk
          exact ⟨.ack seq :: newer, seq', older, by rw [hlog]; rfl, hlength⟩

/-! ## One entry -/

theorem map_seq_mark (seq : ℕ) (w : List LossEntry) :
    (mark seq w).map LossEntry.seq = w.map LossEntry.seq := by
  induction w with
  | nil => rfl
  | cons e es ih =>
      rw [mark]
      split
      · rename_i hseq
        rw [List.map_cons, List.map_cons, hseq]
      · rw [List.map_cons, List.map_cons, ih]

/-- The window holds the last hundred packets. -/
theorem map_seq_window (log : List LossCall) :
    (window log).map LossEntry.seq = (sends log).take 100 := by
  induction log with
  | nil => rfl
  | cons c log ih =>
      cases c with
      | send seq =>
          rw [window, List.map_take, List.map_cons, ih, sends_send, List.take_succ_cons,
            List.take_succ_cons, List.take_take]
          rfl
      | ack seq => rw [window, map_seq_mark, ih, sends_ack]

/-- A mark changes an entry if no newer one has the number. -/
theorem getElem?_mark (seq : ℕ) (w : List LossEntry) (k : ℕ) :
    (mark seq w)[k]? = if seq ∈ (w.take k).map LossEntry.seq then w[k]?
      else (w[k]?).map fun e => if e.seq = seq then ⟨seq, true⟩ else e := by
  induction w generalizing k with
  | nil => simp [mark]
  | cons e es ih =>
      rw [mark]
      cases k with
      | zero =>
          by_cases hseq : e.seq = seq
          · simp [hseq]
          · simp [hseq]
      | succ k =>
          by_cases hseq : e.seq = seq
          · simp [hseq]
          · rw [if_neg hseq, List.getElem?_cons_succ, ih, List.take_succ_cons, List.map_cons,
              List.getElem?_cons_succ]
            simp [Ne.symm hseq]

def about (seq : ℕ) : LossCall → Bool
  | .send seq' => seq' = seq
  | .ack seq' => seq' = seq

/-- The oldest of the calls about a number is an acknowledgement. -/
def settled (seq : ℕ) : List LossCall → Bool
  | [] => false
  | c :: newer => if newer.any (about seq) then settled seq newer else c = .ack seq

theorem settled_eq_false {seq : ℕ} {newer : List LossCall} (hnone : newer.any (about seq) = false) :
    settled seq newer = false := by
  cases newer with
  | nil => rfl
  | cons c newer =>
      rw [List.any_cons, Bool.or_eq_false_iff] at hnone
      rw [settled, hnone.2]
      cases c with
      | send seq' => simp
      | ack seq' => simpa [about] using hnone.1

/-- Without another send the calls about a number are acknowledgements. -/
theorem settled_eq_true {seq : ℕ} {newer : List LossCall} (hsome : newer.any (about seq) = true)
    (hsend : seq ∉ sends newer) : settled seq newer = true := by
  induction newer with
  | nil => cases hsome
  | cons c newer ih =>
      rw [settled]
      split
      · rename_i hany
        apply ih hany
        intro hmem
        apply hsend
        rw [send_mem_iff] at hmem ⊢
        exact List.mem_cons_of_mem _ hmem
      · rename_i hany
        rw [List.any_cons, Bool.or_eq_true] at hsome
        have hc : about seq c = true := hsome.resolve_right hany
        cases c with
        | send seq' =>
            have heq : seq' = seq := of_decide_eq_true hc
            exact absurd (by rw [sends_send, heq]; exact List.mem_cons_self) hsend
        | ack seq' =>
            have heq : seq' = seq := of_decide_eq_true hc
            simp [heq]

theorem ack_mem_of_settled {seq : ℕ} {newer : List LossCall} (h : settled seq newer = true) :
    .ack seq ∈ newer := by
  induction newer with
  | nil => cases h
  | cons c newer ih =>
      rw [settled] at h
      split at h
      · exact List.mem_cons_of_mem _ (ih h)
      · rw [of_decide_eq_true h]
        exact List.mem_cons_self

/-- What is not settled though there is a call about it was sent again. -/
theorem exists_send_of_not_settled {seq : ℕ} {newer : List LossCall}
    (h : settled seq newer = false) (hsome : newer.any (about seq) = true) :
    ∃ newest between, newer = newest ++ .send seq :: between ∧
      between.any (about seq) = false := by
  induction newer with
  | nil => cases hsome
  | cons c newer ih =>
      rw [settled] at h
      by_cases hany : newer.any (about seq) = true
      · rw [if_pos hany] at h
        obtain ⟨newest, between, hnewer, hnone⟩ := ih h hany
        exact ⟨c :: newest, between, by rw [hnewer]; rfl, hnone⟩
      · rw [if_neg hany] at h
        rw [List.any_cons, Bool.or_eq_true] at hsome
        have hc : about seq c = true := hsome.resolve_right hany
        cases c with
        | send seq' =>
            have heq : seq' = seq := of_decide_eq_true hc
            exact ⟨[], newer, by rw [heq]; rfl, Bool.not_eq_true _ ▸ hany⟩
        | ack seq' =>
            have heq : seq' = seq := of_decide_eq_true hc
            simp [heq] at h

theorem settled_append {seq : ℕ} (newest : List LossCall) {between : List LossCall}
    (hsome : between.any (about seq) = true) :
    settled seq (newest ++ between) = settled seq between := by
  induction newest with
  | nil => rfl
  | cons c newest ih =>
      have hany : (newest ++ between).any (about seq) = true := by
        rw [List.any_append, hsome, Bool.or_true]
      rw [List.cons_append, settled, if_pos hany, ih]

/-- **What one entry looks like**: it is acknowledged exactly if the next call about
its number is an acknowledgement. -/
theorem getElem?_window (newer older : List LossCall) (seq : ℕ)
    (hin : (sends newer).length < 100) :
    (window (newer ++ .send seq :: older))[(sends newer).length]? =
      some ⟨seq, settled seq newer⟩ := by
  induction newer with
  | nil => simp [window, settled, sends]
  | cons c newer ih =>
      cases c with
      | send seq' =>
          rw [sends_send, List.length_cons] at hin ⊢
          rw [List.cons_append, window, List.getElem?_take_of_lt hin, List.getElem?_cons_succ,
            ih (by omega), settled]
          by_cases hany : newer.any (about seq) = true
          · rw [if_pos hany]
          · rw [if_neg hany, settled_eq_false (Bool.not_eq_true _ ▸ hany)]
            simp
      | ack seq' =>
          rw [sends_ack] at hin ⊢
          have htake : ((window (newer ++ .send seq :: older)).take (sends newer).length).map
              LossEntry.seq = sends newer := by
            rw [List.map_take, map_seq_window, sends_append, List.take_take,
              Nat.min_eq_left (by omega), List.take_left]
          rw [List.cons_append, window, getElem?_mark, htake, ih hin, settled]
          by_cases hany : newer.any (about seq) = true
          · rw [if_pos hany]
            by_cases hsend : seq' ∈ sends newer
            · rw [if_pos hsend]
            · rw [if_neg hsend, Option.map_some]
              by_cases hseq : seq = seq'
              · subst hseq
                rw [if_pos rfl, settled_eq_true hany hsend]
              · rw [if_neg hseq]
          · have hsame : seq' ∈ sends newer → seq' ≠ seq := by
              rintro hmem rfl
              apply hany
              rw [List.any_eq_true]
              exact ⟨.send seq', send_mem_iff.mp hmem, by simp [about]⟩
            rw [if_neg hany, settled_eq_false (Bool.not_eq_true _ ▸ hany)]
            by_cases hseq : seq' = seq
            · rw [if_neg (fun hmem => hsame hmem hseq)]
              simp [hseq]
            · by_cases hsend : seq' ∈ sends newer
              · simp [hsend, hseq]
              · simp [hsend, hseq, Ne.symm hseq]

/-- All entries are acknowledged if after each of the last hundred sends the next call
about its number is an acknowledgement. -/
theorem all_acked_iff (log : List LossCall) :
    (∀ e ∈ window log, e.acked = true) ↔
      ∀ newer seq older, log = newer ++ .send seq :: older → (sends newer).length < 100 →
        settled seq newer = true := by
  constructor
  · rintro hall newer seq older rfl hin
    have hentry := getElem?_window newer older seq hin
    exact hall _ (List.mem_of_getElem? hentry)
  · intro hall e he
    obtain ⟨k, hk, heq⟩ := List.mem_iff_getElem.mp he
    have hlength : k < ((sends log).take 100).length := by
      rw [← map_seq_window, List.length_map]
      exact hk
    rw [List.length_take] at hlength
    have hsends : k < (sends log).length := by omega
    obtain ⟨newer, seq, older, rfl, rfl⟩ := exists_split hsends
    have hentry := getElem?_window newer older seq (by omega)
    rw [List.getElem?_eq_getElem hk, heq, Option.some.injEq] at hentry
    rw [hentry]
    exact hall newer seq older rfl (by omega)

/-! ## When every packet has been acknowledged -/

/-- Whenever two of the last hundred packets carry the same number, an acknowledgement
of that number was recorded between their sends. -/
def Apart (log : List LossCall) : Prop :=
  ∀ newer between older seq, log = newer ++ .send seq :: (between ++ .send seq :: older) →
    (sends newer).length + (sends between).length + 2 ≤ 100 → .ack seq ∈ between

/-- No acknowledgement comes before its packet. -/
def Owed (log : List LossCall) : Prop :=
  ∀ older, older <:+ log → ∀ seq, older.count (.ack seq) ≤ older.count (.send seq)

/-- When every packet has been acknowledged once, all entries of the window are
acknowledged exactly if equal numbers are kept apart. -/
theorem all_acked_iff_apart {log : List LossCall} (howed : Owed log)
    (hdone : ∀ seq, log.count (.ack seq) = log.count (.send seq)) :
    (∀ e ∈ window log, e.acked = true) ↔ Apart log := by
  rw [all_acked_iff]
  constructor
  · intro hall newer between older seq hlog hin
    have hsplit : log = (newer ++ .send seq :: between) ++ .send seq :: older := by
      rw [hlog, List.append_assoc, List.cons_append]
    have hlength : (sends (newer ++ .send seq :: between)).length < 100 := by
      rw [sends_append, sends_send, List.length_append, List.length_cons]
      omega
    have hsettled := hall _ seq older hsplit hlength
    rw [settled_append newer (by simp [about]), settled] at hsettled
    split at hsettled
    · exact ack_mem_of_settled hsettled
    · simp at hsettled
  · intro hapart newer seq older hlog hin
    by_contra hnot
    have hunsettled : settled seq newer = false := Bool.not_eq_true _ ▸ hnot
    cases hany : newer.any (about seq) with
    | true =>
        -- the next call is another send, with nothing in between
        obtain ⟨newest, between, rfl, hnone⟩ := exists_send_of_not_settled hunsettled hany
        rw [sends_append, sends_send, List.length_append, List.length_cons] at hin
        have hack := hapart newest between older seq
          (by rw [hlog, List.append_assoc, List.cons_append]) (by omega)
        have habout : between.any (about seq) = true :=
          List.any_eq_true.mpr ⟨.ack seq, hack, by simp [about]⟩
        rw [hnone] at habout
        cases habout
    | false =>
        -- the packet itself would not have been acknowledged
        have hnone : ∀ c, about seq c = true → newer.count c = 0 := by
          intro c hc
          apply List.count_eq_zero.mpr
          intro hmem
          have htrue : newer.any (about seq) = true := List.any_eq_true.mpr ⟨c, hmem, hc⟩
          rw [hany] at htrue
          cases htrue
        have holder := howed older ⟨newer ++ [.send seq], by rw [hlog]; simp⟩ seq
        have htotal := hdone seq
        rw [hlog, List.count_append, List.count_append, hnone (.ack seq) (by simp [about]),
          hnone (.send seq) (by simp [about]), List.count_cons_self,
          List.count_cons_of_ne (by simp)] at htotal
        omega

/-! ## Distinct numbers -/

/-- `RecordAck` was called for the number after `RecordSend`. The calls are in the
order in which they were made. -/
def ackedAfterSend (calls : List LossCall) (seq : ℕ) : Bool :=
  (calls.dropWhile fun c => c ≠ .send seq).contains (.ack seq)

theorem ackedAfterSend_split {earlier : List LossCall} {seq : ℕ} (hfirst : seq ∉ sends earlier)
    (later : List LossCall) :
    ackedAfterSend (earlier ++ .send seq :: later) seq = decide (.ack seq ∈ later) := by
  have hskip : ∀ c ∈ earlier, decide (c ≠ .send seq) = true := by
    intro c hc
    apply decide_eq_true
    rintro rfl
    exact hfirst (send_mem_iff.mpr hc)
  rw [ackedAfterSend, List.dropWhile_append_of_pos hskip, List.dropWhile_cons_of_neg (by simp)]
  simp

theorem settled_eq_of_notMem {seq : ℕ} {newer : List LossCall} (hsend : seq ∉ sends newer) :
    settled seq newer = decide (.ack seq ∈ newer) := by
  by_cases hack : .ack seq ∈ newer
  · have hsome : newer.any (about seq) = true :=
      List.any_eq_true.mpr ⟨.ack seq, hack, by simp [about]⟩
    rw [settled_eq_true hsome hsend, decide_eq_true hack]
  · rw [decide_eq_false hack, ← Bool.not_eq_true]
    intro hsettled
    exact hack (ack_mem_of_settled hsettled)

/-- If no number is sent twice, an entry tells whether its number has been acknowledged
since it was sent. -/
theorem window_of_nodup {log : List LossCall} (hdistinct : (sends log).Nodup) :
    window log =
      ((sends log).take 100).map fun seq => ⟨seq, ackedAfterSend log.reverse seq⟩ := by
  have hlength : (window log).length = ((sends log).take 100).length := by
    rw [← map_seq_window, List.length_map]
  apply List.ext_getElem?
  intro k
  by_cases hk : k < ((sends log).take 100).length
  · rw [List.length_take] at hk
    obtain ⟨newer, seq, older, rfl, rfl⟩ := exists_split (show k < (sends log).length by omega)
    rw [sends_append, sends_send] at hdistinct ⊢
    -- the number is sent neither before nor after
    obtain ⟨-, hsends, hapart⟩ := List.nodup_append.mp hdistinct
    have hnewer : seq ∉ sends newer := fun hmem => hapart seq hmem seq List.mem_cons_self rfl
    have holder : seq ∉ sends older.reverse := by
      rw [send_mem_iff, List.mem_reverse, ← send_mem_iff]
      exact (List.nodup_cons.mp hsends).1
    have hreverse : (newer ++ .send seq :: older).reverse =
        older.reverse ++ .send seq :: newer.reverse := by simp
    rw [getElem?_window newer older seq (by omega), List.getElem?_map,
      List.getElem?_take_of_lt (by omega), List.getElem?_append_right (Nat.le_refl _),
      Nat.sub_self, List.getElem?_cons_zero, Option.map_some, hreverse,
      ackedAfterSend_split holder, settled_eq_of_notMem hnewer]
    simp
  · rw [List.getElem?_eq_none (by omega), List.getElem?_eq_none]
    rw [List.length_map]
    omega

/-- **The tracker counts the last hundred packets.** If no number is sent twice, then
after any calls `count` is the number of packets, up to a hundred, and `ackCount` the
number of those among the last hundred for which an acknowledgement was recorded after
the send. -/
theorem counters_of_distinct (calls : List LossCall) (hdistinct : (sends calls).Nodup) :
    (calls.foldl call init).count = min 100 (sends calls).length ∧
      (calls.foldl call init).ackCount =
        ((sends calls).rtake 100).countP (ackedAfterSend calls) := by
  have hsends : sends calls.reverse = (sends calls).reverse := List.filterMap_reverse
  have hstands := stands_window calls.reverse
  have hnodup : (sends calls.reverse).Nodup := by
    rw [hsends]
    exact List.nodup_reverse.mpr hdistinct
  rw [List.foldr_reverse, window_of_nodup hnodup, List.reverse_reverse, hsends] at hstands
  constructor
  · rw [hstands.count, List.length_map, List.length_take, List.length_reverse]
  · rw [hstands.ackCount, List.countP_map, List.rtake_eq_reverse_take_reverse,
      List.countP_reverse]
    rfl

/-- One packet more than the window holds. Number 0 is acknowledged but leaves the
window, number 1 is acknowledged twice, and number 100 only before it is sent. -/
def rotated : List LossCall :=
  .ack 100 :: .send 0 :: .ack 0 :: .send 1 :: .ack 1 :: .ack 1 ::
    (List.range 99).map fun i => .send (2 + i)

theorem counters_of_distinct_rotated :
    (rotated.foldl call init).count = 100 ∧ (rotated.foldl call init).ackCount = 1 := by
  have hsends : sends rotated = List.range 101 := by decide +kernel
  have hdistinct : (sends rotated).Nodup := by
    rw [hsends]
    exact List.nodup_range
  obtain ⟨hcount, hack⟩ := counters_of_distinct rotated hdistinct
  rw [hcount, hack, hsends]
  decide +kernel

end Fastwire.LossTracker
