/-
# The replay window as a number

The sixteen words of the window, least significant first, are the digits of a number
of 1024 bits, and shifting the window is multiplying that number by a power of two.

The loops of the shift stand here once more as the source writes them, with unsigned
counters that run down and accesses that are checked, so that it can be said that they
return.
-/

import Fastwire.Crypto.ReplayWindow
import Fastwire.Lib.Checked
import Mathlib.Data.Nat.Bitwise
import Mathlib.Data.Nat.Digits.Defs

namespace Fastwire.Crypto.Window

open Lib Lib.Checked

/-! ## The number -/

/-- The number whose digits are the words. -/
def value (w : Window) : ℕ := Nat.ofDigits (2 ^ 64) (w.toList.map BitVec.toNat)

theorem testBit_ofDigits (words : List (BitVec 64)) (d : ℕ) :
    (Nat.ofDigits (2 ^ 64) (words.map BitVec.toNat)).testBit d =
      ((words[d / 64]?).getD 0).getLsbD (d % 64) := by
  induction words generalizing d with
  | nil => simp
  | cons word words ih =>
      rw [List.map_cons, Nat.ofDigits_cons, Nat.add_comm,
        Nat.testBit_two_pow_mul_add _ word.isLt]
      by_cases hlow : d < 64
      · rw [if_pos hlow, Nat.div_eq_of_lt hlow, Nat.mod_eq_of_lt hlow]
        rfl
      · have hdiv : d / 64 = (d - 64) / 64 + 1 := by omega
        have hmod : d % 64 = (d - 64) % 64 := by omega
        rw [if_neg hlow, ih, hdiv, hmod, List.getElem?_cons_succ]

/-- The bits of the number are those of the window. -/
theorem testBit_value (w : Window) (d : ℕ) : w.value.testBit d = w.bit d := by
  rw [value, testBit_ofDigits, bit, Vector.getElem?_toList]

theorem bit_of_ge (w : Window) {d : ℕ} (hd : 1024 ≤ d) : w.bit d = false := by
  have hout : ¬ d / 64 < 16 := by omega
  simp [bit, hout]

/-- A shift of the window multiplies the number, in 1024 bits. -/
theorem value_shiftWindowLeft (w : Window) (shift : ℕ) :
    (w.shiftWindowLeft shift).value = (w.value * 2 ^ shift) % 2 ^ 1024 := by
  apply Nat.eq_of_testBit_eq
  intro d
  rw [testBit_value, Nat.testBit_mod_two_pow, ← Nat.shiftLeft_eq, Nat.testBit_shiftLeft,
    testBit_value]
  by_cases hd : d < 1024
  · rw [bit_shiftWindowLeft w shift hd]
    simp [hd]
  · rw [bit_of_ge _ (by omega)]
    simp [hd]

/-! ## The loops -/

/-- A word of the window. -/
theorem index_word (w : Window) {i : ℕ} (hi : i < 16) :
    (index w.toList i : Checked Unit (BitVec 64)) = .ok w[i] :=
  index_eq_of_getElem? (by simp [hi])

theorem update_word (w : Window) {i : ℕ} (hi : i < 16) (x : BitVec 64) :
    (update w.toList i x : Checked Unit (List (BitVec 64))) = .ok (w.set i x).toList := by
  rw [update_eq (by simpa using hi), Vector.toList_set]

/-- `window[i] = window[i-wordShift]; i--`. -/
def moveRound (wordShift : UInt64) (s : UInt64 × List (BitVec 64)) :
    Checked Unit (UInt64 × List (BitVec 64)) := do
  let word ← index s.2 (s.1 - wordShift).toNat
  let words ← update s.2 s.1.toNat word
  .ok (s.1 - 1, words)

/-- `window[i] = 0; i++`. -/
def clearRound (s : UInt64 × List (BitVec 64)) : Checked Unit (UInt64 × List (BitVec 64)) := do
  let words ← update s.2 s.1.toNat 0
  .ok (s.1 + 1, words)

/-- `window[i] = (window[i] << bitShift) | (window[i-1] >> (64 - bitShift)); i--`. -/
def bitRound (bitShift : UInt64) (s : ℕ × List (BitVec 64)) :
    Checked Unit (ℕ × List (BitVec 64)) := do
  let high ← index s.2 s.1
  let low ← index s.2 (s.1 - 1)
  let words ← update s.2 s.1 ((high <<< bitShift.toNat) ||| (low >>> (64 - bitShift).toNat))
  .ok (s.1 - 1, words)

/-- The first phase of `shiftWindowLeft`, with a bound on the rounds of each loop. -/
def wordPhase (fuel : ℕ) (words : List (BitVec 64)) (wordShift : UInt64) :
    Checked Unit (List (BitVec 64)) :=
  if wordShift > 0 then do
    let (_, words) ← loop () (fun s => s.1 ≥ wordShift) (moveRound wordShift) fuel (15, words)
    let (_, words) ← loop () (fun s => s.1 < wordShift) clearRound fuel (0, words)
    .ok words
  else .ok words

/-- The second phase. -/
def bitPhase (fuel : ℕ) (words : List (BitVec 64)) (bitShift : UInt64) :
    Checked Unit (List (BitVec 64)) :=
  if bitShift > 0 then do
    let (_, words) ← loop () (fun s => s.1 > 0) (bitRound bitShift) fuel (15, words)
    let word ← index words 0
    update words 0 (word <<< bitShift.toNat)
  else .ok words

/-- `shiftWindowLeft` on the words. -/
def shiftWordsLeft (fuel : ℕ) (words : List (BitVec 64)) (shift : UInt64) :
    Checked Unit (List (BitVec 64)) :=
  if shift ≥ 1024 then .ok (List.replicate 16 0)
  else do
    let words ← wordPhase fuel words (shift / 64)
    bitPhase fuel words (shift % 64)

/-! ## What the loops leave -/

/-- In the word loop, the rounds that are left lead from the words to the goal. -/
def Moving (wordShift : UInt64) (goal : Window) : UInt64 × List (BitVec 64) → Prop
  | (i, words) => ∃ (w : Window) (hi : i.toNat < 16),
      words = w.toList ∧ moveWords wordShift.toNat i.toNat hi w = goal

theorem moveRound_moving {wordShift : UInt64} (hpos : 0 < wordShift.toNat) {goal : Window}
    {s : UInt64 × List (BitVec 64)} (hs : Moving wordShift goal s) (hcond : s.1 ≥ wordShift) :
    ∃ t, moveRound wordShift s = .ok t ∧ Moving wordShift goal t ∧ t.1.toNat < s.1.toNat := by
  obtain ⟨i, words⟩ := s
  obtain ⟨w, hi, rfl, hgoal⟩ := hs
  have hle : wordShift.toNat ≤ i.toNat := UInt64.le_iff_toNat_le.mp hcond
  have hsub : (i - wordShift).toNat = i.toNat - wordShift.toNat :=
    UInt64.toNat_sub_of_le _ _ hcond
  have hone : (i - 1).toNat = i.toNat - 1 :=
    UInt64.toNat_sub_of_le _ _ (UInt64.le_iff_toNat_le.mpr (hpos.trans_le hle))
  obtain ⟨j, hj⟩ : ∃ j, i.toNat = j + 1 := ⟨i.toNat - 1, by omega⟩
  refine ⟨(i - 1, (w.set i.toNat w[i.toNat - wordShift.toNat]).toList), ?_,
    ⟨_, by omega, rfl, ?_⟩, by simp only; omega⟩
  · simp only [moveRound, hsub]
    rw [index_word w (by omega), ok_bind, update_word w hi, ok_bind]
  · simp only [hj, moveWords] at hgoal
    rw [if_pos (by omega)] at hgoal
    simp only [hone, hj, Nat.add_sub_cancel]
    exact hgoal

theorem moveWords_below {wordShift i : ℕ} (hi : i < 16) (hbelow : i < wordShift) (w : Window) :
    moveWords wordShift i hi w = w := by
  cases i with
  | zero => rfl
  | succ i => rw [moveWords, if_neg (by omega)]

/-- The word loop returns with the words moved. -/
theorem moveLoop_eq (w : Window) {wordShift : UInt64} (hpos : 0 < wordShift.toNat) {fuel : ℕ}
    (hfuel : 16 ≤ fuel) :
    ∃ i, loop () (fun s => s.1 ≥ wordShift) (moveRound wordShift) fuel (15, w.toList) =
      .ok (i, (moveWords wordShift.toNat 15 (by decide) w).toList) := by
  have hstart : Moving wordShift (moveWords wordShift.toNat 15 (by decide) w)
      ((15 : UInt64), w.toList) := ⟨w, by simp, rfl, rfl⟩
  obtain ⟨⟨i, words⟩, hloop, ⟨v, hi, rfl, hgoal⟩, hdone⟩ := loop_returns
    (Moving wordShift (moveWords wordShift.toNat 15 (by decide) w)) (fun s => s.1.toNat)
    (fun s hs hcond => moveRound_moving hpos hs (of_decide_eq_true hcond)) hstart
    (show (15 : UInt64).toNat < fuel by simp; omega)
  refine ⟨i, ?_⟩
  have hbelow : i.toNat < wordShift.toNat := by
    simpa [UInt64.lt_iff_toNat_lt] using hdone
  have hv : v = moveWords wordShift.toNat 15 (by decide) w := by
    rw [← hgoal, moveWords_below hi hbelow]
  rw [hloop, hv]

def Clearing (wordShift : UInt64) (w : Window) : UInt64 × List (BitVec 64) → Prop
  | (i, words) => ∃ hi : i.toNat ≤ 16,
      i.toNat ≤ wordShift.toNat ∧ words = (clearWords i.toNat hi w).toList

theorem clearRound_clearing {wordShift : UInt64} (hmax : wordShift.toNat ≤ 16) {w : Window}
    {s : UInt64 × List (BitVec 64)} (hs : Clearing wordShift w s) (hcond : s.1 < wordShift) :
    ∃ t, clearRound s = .ok t ∧ Clearing wordShift w t ∧
      wordShift.toNat - t.1.toNat < wordShift.toNat - s.1.toNat := by
  obtain ⟨i, words⟩ := s
  obtain ⟨hi, hle, rfl⟩ := hs
  have hlt : i.toNat < wordShift.toNat := UInt64.lt_iff_toNat_lt.mp hcond
  have hone : (i + 1).toNat = i.toNat + 1 := by
    rw [UInt64.toNat_add]
    simp
    omega
  refine ⟨(i + 1, ((clearWords i.toNat hi w).set i.toNat 0).toList), ?_,
    ⟨by omega, by omega, ?_⟩, by simp only; omega⟩
  · simp only [clearRound]
    rw [update_word _ (by omega), ok_bind]
  · simp only [hone, clearWords]

theorem clearLoop_eq (w : Window) {wordShift : UInt64} (hmax : wordShift.toNat ≤ 16) {fuel : ℕ}
    (hfuel : 17 ≤ fuel) :
    ∃ i, loop () (fun s => s.1 < wordShift) clearRound fuel (0, w.toList) =
      .ok (i, (clearWords wordShift.toNat hmax w).toList) := by
  have hstart : Clearing wordShift w ((0 : UInt64), w.toList) :=
    ⟨by simp, by simp, by simp [clearWords]⟩
  obtain ⟨⟨i, words⟩, hloop, ⟨hi, hle, hwords⟩, hdone⟩ := loop_returns
    (Clearing wordShift w) (fun s => wordShift.toNat - s.1.toNat)
    (fun s hs hcond => clearRound_clearing hmax hs (of_decide_eq_true hcond)) hstart
    (show wordShift.toNat - (0 : UInt64).toNat < fuel by simp; omega)
  refine ⟨i, ?_⟩
  have hend : i.toNat = wordShift.toNat := by
    have hge : wordShift.toNat ≤ i.toNat := by simpa [UInt64.le_iff_toNat_le] using hdone
    omega
  rw [hloop, hwords]
  simp only [hend]

/-- In the bit loop, the rounds that are left lead from the words to the goal. -/
def Shifting (bitShift : UInt64) (goal : Window) : ℕ × List (BitVec 64) → Prop
  | (i, words) => ∃ (w : Window) (hi : i < 16),
      words = w.toList ∧ shiftBits bitShift.toNat i hi w = goal

theorem bitRound_shifting {bitShift : UInt64} (hmax : bitShift.toNat < 64) {goal : Window}
    {s : ℕ × List (BitVec 64)} (hs : Shifting bitShift goal s) (hcond : s.1 > 0) :
    ∃ t, bitRound bitShift s = .ok t ∧ Shifting bitShift goal t ∧ t.1 < s.1 := by
  obtain ⟨i, words⟩ := s
  obtain ⟨w, hi, rfl, hgoal⟩ := hs
  simp only at hcond
  have hcarry : (64 - bitShift).toNat = 64 - bitShift.toNat :=
    UInt64.toNat_sub_of_le _ _ (UInt64.le_iff_toNat_le.mpr (by simp; omega))
  obtain ⟨j, rfl⟩ : ∃ j, i = j + 1 := ⟨i - 1, by omega⟩
  refine ⟨(j, (w.set (j + 1) ((w[j + 1] <<< bitShift.toNat) |||
    (w[j] >>> (64 - bitShift.toNat)))).toList), ?_, ⟨_, by omega, rfl, hgoal⟩, by simp⟩
  simp only [bitRound, hcarry, Nat.add_sub_cancel]
  rw [index_word w hi, ok_bind, index_word w (by omega), ok_bind, update_word w hi, ok_bind]

theorem bitLoop_eq (w : Window) {bitShift : UInt64} (hmax : bitShift.toNat < 64) {fuel : ℕ}
    (hfuel : 16 ≤ fuel) :
    ∃ i, loop () (fun s => s.1 > 0) (bitRound bitShift) fuel (15, w.toList) =
      .ok (i, (shiftBits bitShift.toNat 15 (by decide) w).toList) := by
  have hstart : Shifting bitShift (shiftBits bitShift.toNat 15 (by decide) w)
      (15, w.toList) := ⟨w, by simp, rfl, rfl⟩
  obtain ⟨⟨i, words⟩, hloop, ⟨v, hi, rfl, hgoal⟩, hdone⟩ := loop_returns
    (Shifting bitShift (shiftBits bitShift.toNat 15 (by decide) w)) (fun s => s.1)
    (fun s hs hcond => bitRound_shifting hmax hs (of_decide_eq_true hcond)) hstart
    (show 15 < fuel by omega)
  obtain rfl : i = 0 := by simpa using hdone
  exact ⟨0, by rw [hloop, ← hgoal]; rfl⟩

theorem uint64_pos (x : UInt64) : x > 0 ↔ x.toNat > 0 := UInt64.lt_iff_toNat_lt

theorem wordPhase_eq (w : Window) {wordShift : UInt64} (hmax : wordShift.toNat ≤ 16) {fuel : ℕ}
    (hfuel : 17 ≤ fuel) :
    wordPhase fuel w.toList wordShift = .ok (shiftWords w wordShift.toNat hmax).toList := by
  rw [wordPhase, shiftWords]
  by_cases hpos : wordShift.toNat > 0
  · obtain ⟨i, hmove⟩ := moveLoop_eq w hpos (by omega : 16 ≤ fuel)
    obtain ⟨j, hclear⟩ :=
      clearLoop_eq (moveWords wordShift.toNat 15 (by decide) w) hmax hfuel
    rw [if_pos ((uint64_pos _).mpr hpos), if_pos hpos, hmove, ok_bind]
    dsimp only
    rw [hclear, ok_bind]
  · rw [if_neg ((uint64_pos _).not.mpr hpos), if_neg hpos]

theorem bitPhase_eq (w : Window) {bitShift : UInt64} (hmax : bitShift.toNat < 64) {fuel : ℕ}
    (hfuel : 17 ≤ fuel) :
    bitPhase fuel w.toList bitShift = .ok (shiftWithin w bitShift.toNat).toList := by
  rw [bitPhase, shiftWithin]
  by_cases hpos : bitShift.toNat > 0
  · obtain ⟨i, hbits⟩ := bitLoop_eq w hmax (by omega : 16 ≤ fuel)
    rw [if_pos ((uint64_pos _).mpr hpos), if_pos hpos, hbits, ok_bind]
    dsimp only
    rw [index_word _ (by decide), ok_bind, update_word _ (by decide)]
  · rw [if_neg ((uint64_pos _).not.mpr hpos), if_neg hpos]

/-- The loops do what the model of the shift does, within sixteen rounds each. -/
theorem shiftWordsLeft_eq (w : Window) (shift : UInt64) {fuel : ℕ} (hfuel : 17 ≤ fuel) :
    shiftWordsLeft fuel w.toList shift = .ok (w.shiftWindowLeft shift.toNat).toList := by
  have hlarge : shift ≥ 1024 ↔ shift.toNat ≥ 1024 := UInt64.le_iff_toNat_le
  have hword : (shift / 64).toNat = shift.toNat / 64 := by simp
  have hbit : (shift % 64).toNat = shift.toNat % 64 := by simp
  rw [shiftWordsLeft, shiftWindowLeft]
  by_cases hshift : shift.toNat ≥ 1024
  · rw [if_pos (hlarge.mpr hshift), dif_pos hshift, Vector.toList_replicate]
  · rw [if_neg (hlarge.not.mpr hshift), dif_neg hshift, wordPhase_eq w (by omega) hfuel, ok_bind,
      bitPhase_eq _ (by omega) hfuel]
    simp only [hword, hbit]

/-- **The multi-word shift.** For every window and every shift the loops return, with
every access in range, and the words they leave are the number multiplied by the
power of two, in 1024 bits. -/
theorem shift_window_left (w : Window) (shift : UInt64) :
    ∃ shifted : Window,
      (∀ fuel ≥ 17, shiftWordsLeft fuel w.toList shift = .ok shifted.toList) ∧
      shifted = w.shiftWindowLeft shift.toNat ∧
      shifted.value = (w.value * 2 ^ shift.toNat) % 2 ^ 1024 :=
  ⟨w.shiftWindowLeft shift.toNat, fun _ hfuel => shiftWordsLeft_eq w shift hfuel, rfl,
    value_shiftWindowLeft w shift.toNat⟩

end Fastwire.Crypto.Window
