/-
# The replay window

Receiving nonces are remembered in sixteen 64-bit words, used as one shift
register of 1024 bits whose bit `d` stands for the nonce `maxNonce - d`. The
register is shifted in place, first by whole words and then by bits, and both
loops run downwards so that no word is overwritten before it has been read.

The bit-level effect of the shift is all that anything above this module uses.
-/

import Fastwire.Lib.SlidingWindow

namespace Fastwire.Crypto

/-- Sixteen words, least significant first. -/
abbrev Window := Vector (BitVec 64) 16

namespace Window

/-- Bit `d` of the register. -/
def bit (w : Window) (d : ℕ) : Bool := ((w[d / 64]?).getD 0).getLsbD (d % 64)

/-- The word loop `for i := 15; i >= wordShift; i--`, entered at `i`. It only
runs with `wordShift > 0`, so the counter never passes zero. -/
def moveWords (wordShift : ℕ) : (i : ℕ) → i < 16 → Window → Window
  | 0, _, w => w
  | i + 1, hi, w =>
      if i + 1 ≥ wordShift then
        moveWords wordShift i (by omega) (w.set (i + 1) w[i + 1 - wordShift])
      else w

/-- The loop that clears the lowest `n` words. -/
def clearWords : (n : ℕ) → n ≤ 16 → Window → Window
  | 0, _, w => w
  | n + 1, hn, w => (clearWords n (by omega) w).set n 0

/-- The bit loop `for i := 15; i > 0; i--`, entered at `i`. -/
def shiftBits (bitShift : ℕ) : (i : ℕ) → i < 16 → Window → Window
  | 0, _, w => w
  | i + 1, hi, w =>
      shiftBits bitShift i (by omega)
        (w.set (i + 1) ((w[i + 1] <<< bitShift) ||| (w[i] >>> (64 - bitShift))))

/-- The first phase of `shiftWindowLeft`: whole words. -/
def shiftWords (w : Window) (wordShift : ℕ) (h : wordShift ≤ 16) : Window :=
  if wordShift > 0 then clearWords wordShift h (moveWords wordShift 15 (by decide) w) else w

/-- The second phase: bits, with the carry of the word below. -/
def shiftWithin (w : Window) (bitShift : ℕ) : Window :=
  if bitShift > 0 then
    let w := shiftBits bitShift 15 (by decide) w
    w.set 0 (w[0] <<< bitShift)
  else w

def shiftWindowLeft (w : Window) (shift : ℕ) : Window :=
  if h : shift ≥ 1024 then Vector.replicate 16 0
  else shiftWithin (shiftWords w (shift / 64) (by omega)) (shift % 64)

/-! ## What the loops leave in each word -/

theorem getElem_moveWords {wordShift : ℕ} (hpos : 0 < wordShift) (i : ℕ) (hi : i < 16)
    (w : Window) (j : ℕ) (hj : j < 16) :
    (moveWords wordShift i hi w)[j] =
      if wordShift ≤ j ∧ j ≤ i then w[j - wordShift] else w[j] := by
  induction i generalizing w with
  | zero =>
      rw [if_neg (by omega)]
      rfl
  | succ i ih =>
      by_cases hge : i + 1 ≥ wordShift
      · simp only [moveWords, hge, ↓reduceIte, ih, Vector.getElem_set]
        -- the word just written is above everything the rest of the loop reads
        by_cases hji : i + 1 = j
        · subst hji
          simp [hge]
        · have hiff : (wordShift ≤ j ∧ j ≤ i) ↔ (wordShift ≤ j ∧ j ≤ i + 1) := by omega
          simp only [hji, ↓reduceIte, hiff]
          split
          · rw [if_neg (by omega)]
          · rfl
      · simp only [moveWords, hge, ↓reduceIte]
        rw [if_neg (by omega)]

theorem getElem_clearWords (n : ℕ) (hn : n ≤ 16) (w : Window) (j : ℕ) (hj : j < 16) :
    (clearWords n hn w)[j] = if j < n then 0 else w[j] := by
  induction n with
  | zero => simp [clearWords]
  | succ n ih =>
      simp only [clearWords, Vector.getElem_set, ih]
      by_cases hjn : n = j
      · simp [hjn]
      · have hiff : j < n + 1 ↔ j < n := by omega
        simp [hjn, hiff]

theorem getElem_shiftBits (bitShift i : ℕ) (hi : i < 16) (w : Window) (j : ℕ) (hj : j < 16) :
    (shiftBits bitShift i hi w)[j] =
      if 0 < j ∧ j ≤ i then (w[j] <<< bitShift) ||| (w[j - 1] >>> (64 - bitShift)) else w[j] := by
  induction i generalizing w with
  | zero =>
      rw [if_neg (by omega)]
      rfl
  | succ i ih =>
      simp only [shiftBits, ih, Vector.getElem_set]
      by_cases hji : i + 1 = j
      · subst hji
        simp
      · have hiff : (0 < j ∧ j ≤ i) ↔ (0 < j ∧ j ≤ i + 1) := by omega
        simp only [hji, ↓reduceIte, hiff]
        split
        · rw [if_neg (by omega)]
        · rfl

theorem getElem_shiftWords (w : Window) {wordShift : ℕ} (h : wordShift ≤ 16) (j : ℕ)
    (hj : j < 16) :
    (shiftWords w wordShift h)[j] = if wordShift ≤ j then w[j - wordShift] else 0 := by
  by_cases hpos : wordShift > 0
  · simp only [shiftWords, hpos, ↓reduceIte, getElem_clearWords, getElem_moveWords hpos]
    by_cases hle : wordShift ≤ j
    · rw [if_neg (by omega), if_pos (by omega), if_pos hle]
    · rw [if_pos (by omega), if_neg hle]
  · have hzero : wordShift = 0 := by omega
    subst hzero
    simp [shiftWords]

theorem getElem_shiftWithin (w : Window) {bitShift : ℕ} (hpos : bitShift > 0) (j : ℕ)
    (hj : j < 16) :
    (shiftWithin w bitShift)[j] =
      (w[j] <<< bitShift) ||| (if j = 0 then 0 else w[j - 1] >>> (64 - bitShift)) := by
  simp only [shiftWithin, hpos, ↓reduceIte, Vector.getElem_set, getElem_shiftBits]
  by_cases hzero : 0 = j
  · subst hzero
    simp
  · have hpos' : 0 < j ∧ j ≤ 15 := by omega
    have hne : j ≠ 0 := fun h => hzero h.symm
    simp [hzero, hpos', hne]

/-! ## The bits after a shift -/

theorem bit_eq (w : Window) {d : ℕ} (hd : d / 64 < 16) :
    w.bit d = w[d / 64].getLsbD (d % 64) := by
  simp [bit, hd]

@[simp]
theorem bit_replicate (d : ℕ) : bit (Vector.replicate 16 0) d = false := by
  unfold bit
  by_cases hd : d / 64 < 16
  · simp [hd]
  · simp [hd]

/-- Whole words move, so the position inside the word stays. -/
theorem bit_shiftWords (w : Window) {wordShift : ℕ} (h : wordShift ≤ 16) {d : ℕ}
    (hd : d < 1024) :
    (shiftWords w wordShift h).bit d =
      (decide (64 * wordShift ≤ d) && w.bit (d - 64 * wordShift)) := by
  have hj : d / 64 < 16 := by omega
  rw [bit_eq _ hj, getElem_shiftWords w h _ hj]
  by_cases hle : wordShift ≤ d / 64
  · have hpast : 64 * wordShift ≤ d := by omega
    have hdiv : (d - 64 * wordShift) / 64 = d / 64 - wordShift := by omega
    have hmod : (d - 64 * wordShift) % 64 = d % 64 := by omega
    rw [if_pos hle, bit_eq w (by omega)]
    simp only [hpast, hdiv, hmod, decide_true, Bool.true_and]
  · have hpast : ¬ 64 * wordShift ≤ d := by omega
    simp [hle, hpast]

/-- Inside a word the low bits come from the word below. -/
theorem bit_shiftWithin (w : Window) {bitShift d : ℕ} (hb : bitShift < 64) (hd : d < 1024) :
    (shiftWithin w bitShift).bit d = (decide (bitShift ≤ d) && w.bit (d - bitShift)) := by
  have hj : d / 64 < 16 := by omega
  by_cases hpos : bitShift > 0
  · rw [bit_eq _ hj, getElem_shiftWithin w hpos _ hj, BitVec.getLsbD_or,
      BitVec.getLsbD_shiftLeft]
    have hin : d % 64 < 64 := Nat.mod_lt d (by decide)
    by_cases hcarry : d % 64 < bitShift
    · -- the bit crossed a word boundary
      by_cases hzero : d / 64 = 0
      · have hpast : ¬ bitShift ≤ d := by omega
        simp [hcarry, hzero, hpast]
      · have hpast : bitShift ≤ d := by omega
        have hdiv : (d - bitShift) / 64 = d / 64 - 1 := by omega
        have hmod : (d - bitShift) % 64 = 64 - bitShift + d % 64 := by omega
        rw [bit_eq w (by omega)]
        simp only [hcarry, hzero, hpast, hdiv, hmod, decide_true, Bool.not_true,
          Bool.and_false, Bool.false_and, Bool.false_or, Bool.true_and, ↓reduceIte,
          BitVec.getLsbD_ushiftRight]
    · -- the bit stayed in its word, and the carry reaches only below it
      have hpast : bitShift ≤ d := by omega
      have hdiv : (d - bitShift) / 64 = d / 64 := by omega
      have hmod : (d - bitShift) % 64 = d % 64 - bitShift := by omega
      have hno : (if d / 64 = 0 then (0 : BitVec 64)
          else w[d / 64 - 1] >>> (64 - bitShift)).getLsbD (d % 64) = false := by
        split
        · simp
        · rw [BitVec.getLsbD_ushiftRight, BitVec.getLsbD_of_ge _ _ (by omega)]
      rw [hno, bit_eq w (by omega)]
      simp only [hin, hcarry, hpast, hdiv, hmod, decide_true, decide_false, Bool.not_false,
        Bool.true_and, Bool.or_false]
  · have hzero : bitShift = 0 := by omega
    simp [shiftWithin, hzero]

/-- Shifting the register moves every bit up; bits pushed beyond the last word
are lost and zeros come in at the bottom. -/
theorem bit_shiftWindowLeft (w : Window) (shift : ℕ) {d : ℕ} (hd : d < 1024) :
    (shiftWindowLeft w shift).bit d = (decide (shift ≤ d) && w.bit (d - shift)) := by
  by_cases hbig : shift ≥ 1024
  · have hno : ¬ shift ≤ d := by omega
    simp only [shiftWindowLeft, hbig, ↓reduceDIte, hno, decide_false, Bool.false_and]
    exact bit_replicate d
  · simp only [shiftWindowLeft, hbig, ↓reduceDIte]
    rw [bit_shiftWithin _ (Nat.mod_lt shift (by decide)) hd, bit_shiftWords w _ (by omega)]
    have hback : d - shift % 64 - 64 * (shift / 64) = d - shift := by omega
    have hiff : shift ≤ d ↔ shift % 64 ≤ d ∧ 64 * (shift / 64) ≤ d - shift % 64 := by omega
    rw [hback, ← Bool.and_assoc, ← Bool.decide_and, decide_eq_decide.mpr hiff]

/-- Writing one word changes the bits of that word. -/
theorem bit_set (w : Window) {j : ℕ} (hj : j < 16) (x : BitVec 64) {d : ℕ} (hd : d < 1024) :
    bit (w.set j x) d = if d / 64 = j then x.getLsbD (d % 64) else w.bit d := by
  rw [bit_eq _ (by omega), Vector.getElem_set, bit_eq w (by omega)]
  by_cases hsame : j = d / 64
  · simp [hsame]
  · simp [hsame, Ne.symm hsame]

/-- Setting the bit of one offset. -/
theorem bit_set_mask (w : Window) {e d : ℕ} (he : e / 64 < 16) (hd : d < 1024) :
    bit (w.set (e / 64) (w[e / 64] ||| (1#64 <<< (e % 64)))) d = true ↔
      d = e ∨ w.bit d = true := by
  rw [bit_set w he _ hd]
  by_cases hword : d / 64 = e / 64
  · have hpos : d % 64 = e % 64 ↔ d = e := by omega
    rw [if_pos hword, Lib.getLsbD_or_mask _ (Nat.mod_lt e (by decide)), hpos, bit_eq w (by omega)]
    simp only [hword]
  · have hne : d ≠ e := fun heq => hword (by rw [heq])
    simp [hword, hne]

end Window

/-! ## Checking and recording nonces -/

/-- The receive-side record of one cipher state. -/
structure ReplayWindow where
  maxNonce : ℕ
  window : Window

namespace ReplayWindow

def init : ReplayWindow := ⟨0, Vector.replicate 16 0⟩

/-- `replayWindow.check`: may this nonce be accepted? -/
def check (r : ReplayWindow) (nonce : ℕ) : Bool :=
  if nonce = 0 then false
  else if r.maxNonce = 0 then true
  else if nonce > r.maxNonce then true
  else
    let diff := r.maxNonce - nonce
    if _ : diff ≥ 1024 then false
    else r.window[diff / 64] &&& (1#64 <<< (diff % 64)) == 0#64

/-- `replayWindow.update`: mark a nonce as seen. -/
def update (r : ReplayWindow) (nonce : ℕ) : ReplayWindow :=
  if nonce = 0 then r
  else if r.maxNonce = 0 then
    { maxNonce := nonce, window := r.window.set 0 1#64 }
  else if nonce > r.maxNonce then
    let window := r.window.shiftWindowLeft (nonce - r.maxNonce)
    { maxNonce := nonce, window := window.set 0 (window[0] ||| 1#64) }
  else
    let diff := r.maxNonce - nonce
    if _ : diff < 1024 then
      { r with
        window := r.window.set (diff / 64)
          (r.window[diff / 64] ||| (1#64 <<< (diff % 64))) }
    else r

/-- The greatest nonce after an update. -/
theorem maxNonce_update (r : ReplayWindow) (nonce : ℕ) :
    (r.update nonce).maxNonce = max r.maxNonce nonce := by
  rw [update]
  split
  · rename_i hzero
    rw [hzero, Nat.max_zero]
  · split
    · rename_i hfirst
      rw [hfirst, Nat.zero_max]
    · split
      · rename_i habove
        exact (Nat.max_eq_right (Nat.le_of_lt habove)).symm
      · rename_i hbelow
        have hmax : max r.maxNonce nonce = r.maxNonce := Nat.max_eq_left (Nat.le_of_not_lt hbelow)
        dsimp only
        split <;> exact hmax.symm

/-- Only nonces up to the greatest one are refused. -/
theorem le_maxNonce_of_check (r : ReplayWindow) {nonce : ℕ} (h : r.check nonce = false) :
    nonce ≤ r.maxNonce := by
  rw [check] at h
  split at h
  · rename_i hzero
    rw [hzero]
    exact Nat.zero_le _
  · split at h
    · cases h
    · split at h
      · cases h
      · rename_i hbelow
        exact Nat.le_of_not_lt hbelow

/-- The record is exact for the set of accepted nonces. -/
def Exact (r : ReplayWindow) (seen : Set ℕ) : Prop :=
  Lib.Tracks 1024 r.maxNonce (fun d => r.window.bit d = true) seen

theorem exact_init : init.Exact ∅ :=
  Lib.Tracks.empty fun d _ hbit => by
    have hclear : init.window.bit d = false := Window.bit_replicate d
    rw [hclear] at hbit
    cases hbit

variable {r : ReplayWindow} {seen : Set ℕ} {nonce : ℕ}

/-- An exact record accepts precisely the nonces that are new and not too old. -/
theorem check_iff (h : r.Exact seen) :
    r.check nonce = true ↔ nonce ≠ 0 ∧ nonce ∉ seen ∧ r.maxNonce < nonce + 1024 := by
  by_cases hzero : nonce = 0
  · simp [check, hzero]
  by_cases habove : r.maxNonce < nonce
  · have hnew : nonce ∉ seen := h.notMem_of_top_lt habove
    simp only [check, hzero, habove, ↓reduceIte, ite_self, true_iff]
    exact ⟨hzero, hnew, by omega⟩
  have hmax : r.maxNonce ≠ 0 := by omega
  by_cases hold : r.maxNonce - nonce ≥ 1024
  · have hlow : ¬ r.maxNonce < nonce + 1024 := by omega
    simp [check, hzero, hmax, habove, hold, hlow]
  · have hin : r.maxNonce < nonce + 1024 := by omega
    have hword : (r.maxNonce - nonce) / 64 < 16 := by omega
    simp only [check, hzero, hmax, habove, hold, ↓reduceIte, ↓reduceDIte, beq_iff_eq]
    rw [Lib.and_mask_eq_zero _ (Nat.mod_lt _ (by decide)), ← Window.bit_eq _ hword,
      h.mem_iff (by omega) (by omega)]
    simp [hin, hzero]

/-- Before the first nonce the window is empty. -/
theorem bit_of_maxNonce_eq_zero (h : r.Exact seen) (hfirst : r.maxNonce = 0) {d : ℕ}
    (hd : d < 1024) : ¬ r.window.bit d = true := by
  intro hbit
  have hmem := (h.bit_iff d hd).mp hbit
  rw [hfirst, Nat.zero_sub] at hmem
  exact h.zero_notMem hmem

/-- Recording an acceptable nonce keeps the record exact. -/
theorem exact_update (h : r.Exact seen) (hcheck : r.check nonce = true) :
    (r.update nonce).Exact (insert nonce seen) := by
  obtain ⟨hzero, -, hin⟩ := (check_iff h).mp hcheck
  have hmask : (1#64 : BitVec 64) = 1#64 <<< (0 % 64) := by decide
  by_cases hfirst : r.maxNonce = 0
  · -- the code writes the word instead of or-ing into it; the window is empty
    have hlt : r.maxNonce < nonce := by omega
    simp only [update, hzero, hfirst, ↓reduceIte]
    refine Lib.Tracks.advance h hlt fun d hd => ?_
    have hclear := bit_of_maxNonce_eq_zero h hfirst (d := d - (nonce - r.maxNonce)) (by omega)
    rw [Window.bit_set _ (by decide) _ hd]
    by_cases hword : d / 64 = 0
    · have hpos : d % 64 = 0 ↔ d = 0 := by omega
      rw [if_pos hword]
      simp [hclear, hpos, BitVec.getLsbD_one]
    · have hne : d ≠ 0 := by omega
      simp [hword, hne, hclear, bit_of_maxNonce_eq_zero h hfirst hd]
  by_cases habove : nonce > r.maxNonce
  · simp only [update, hzero, hfirst, habove, ↓reduceIte]
    refine Lib.Tracks.advance h habove fun d hd => ?_
    rw [hmask, Window.bit_set_mask (e := 0) _ (by decide) hd, Window.bit_shiftWindowLeft _ _ hd]
    simp
  · have hdiff : r.maxNonce - nonce < 1024 := by omega
    have hle : nonce ≤ r.maxNonce := by omega
    simp only [update, hzero, hfirst, habove, hdiff, ↓reduceIte, ↓reduceDIte]
    exact Lib.Tracks.mark h hzero hle fun d hd => Window.bit_set_mask _ (by omega) hd

/-- Recording a new nonce keeps the record exact, also if it has become too old
to be recorded. -/
theorem exact_update_of_notMem (h : r.Exact seen) (hzero : nonce ≠ 0) (hnew : nonce ∉ seen) :
    (r.update nonce).Exact (insert nonce seen) := by
  by_cases hrecent : r.maxNonce < nonce + 1024
  · exact exact_update h ((check_iff h).mpr ⟨hzero, hnew, hrecent⟩)
  · have hsame : r.update nonce = r := by
      have hfirst : r.maxNonce ≠ 0 := by omega
      have hbelow : ¬nonce > r.maxNonce := by omega
      have hold : ¬r.maxNonce - nonce < 1024 := by omega
      simp [update, hzero, hfirst, hbelow, hold]
    rw [hsame]
    exact Lib.Tracks.forget h hzero (Nat.not_lt.mp hrecent)

end ReplayWindow

end Fastwire.Crypto
