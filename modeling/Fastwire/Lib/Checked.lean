/-
# Programs with checked accesses

A program that reads and writes lists by index and by slice ends with a value, with
an error it returns, or in an access that is out of range. The third outcome is what
a runtime answers with a panic; a program is safe if it never gets there. The
rules below replace an access in range by the value it yields, and a loop by what
its invariant says once it has returned.
-/

import Mathlib.Data.List.Basic

namespace Fastwire.Lib

universe u v

/-- How a program ends that checks its accesses. -/
inductive Checked (ε : Type u) (α : Type v)
  | ok (a : α)
  | error (e : ε)
  | outOfRange
  deriving DecidableEq, Repr

namespace Checked

variable {ε : Type u} {α β γ : Type v}

/-- One part of a program after another. -/
def andThen (x : Checked ε α) (f : α → Checked ε β) : Checked ε β :=
  match x with
  | ok a => f a
  | error e => error e
  | outOfRange => outOfRange

instance : Monad (Checked ε) where
  pure := ok
  bind := andThen

@[simp]
theorem ok_bind (a : α) (f : α → Checked ε β) : (ok a >>= f) = f a := rfl

@[simp]
theorem error_bind (e : ε) (f : α → Checked ε β) : (error e >>= f) = error e := rfl

/-- A program without accesses. -/
def ofResult : Except ε α → Checked ε α
  | .ok a => ok a
  | .error e => error e

@[simp]
theorem ofResult_ok (a : α) : ofResult (.ok a : Except ε α) = ok a := rfl

@[simp]
theorem ofResult_error (e : ε) : ofResult (.error e : Except ε α) = error e := rfl

theorem ofResult_ne_outOfRange (x : Except ε α) : ofResult x ≠ outOfRange := by
  cases x <;> simp [ofResult]

theorem ofResult_eq_ok {x : Except ε α} {a : α} : ofResult x = ok a ↔ x = .ok a := by
  cases x <;> simp [ofResult]

theorem ofResult_ite {c : Prop} [Decidable c] (x y : Except ε α) :
    ofResult (if c then x else y) = if c then ofResult x else ofResult y := by
  split <;> rfl

/-- Another error in place of the one that is returned. -/
def mapError (f : ε → ε) : Checked ε α → Checked ε α
  | ok a => ok a
  | error e => error (f e)
  | outOfRange => outOfRange

@[simp]
theorem mapError_ok (f : ε → ε) (a : α) : mapError f (ok a) = ok a := rfl

@[simp]
theorem mapError_error (f : ε → ε) (e : ε) :
    mapError f (error e : Checked ε α) = error (f e) := rfl

/-! ## Accesses -/

/-- `xs[i]`. -/
def index (xs : List α) (i : ℕ) : Checked ε α :=
  match xs[i]? with
  | some a => ok a
  | none => outOfRange

/-- `xs[i] = a`. -/
def update (xs : List α) (i : ℕ) (a : α) : Checked ε (List α) :=
  if i < xs.length then ok (xs.set i a) else outOfRange

/-- `xs[lo:hi]`. -/
def slice (xs : List α) (lo hi : ℕ) : Checked ε (List α) :=
  if lo ≤ hi ∧ hi ≤ xs.length then ok ((xs.take hi).drop lo) else outOfRange

/-- `xs[lo:]`. -/
def sliceFrom (xs : List α) (lo : ℕ) : Checked ε (List α) := slice xs lo xs.length

theorem index_eq {xs : List α} {i : ℕ} (hi : i < xs.length) (d : α) :
    (index xs i : Checked ε α) = ok (xs.getD i d) := by
  simp [index, hi]

theorem index_eq_of_getElem? {xs : List α} {i : ℕ} {a : α} (ha : xs[i]? = some a) :
    (index xs i : Checked ε α) = ok a := by
  rw [index, ha]

theorem index_cons_zero (a : α) (xs : List α) : (index (a :: xs) 0 : Checked ε α) = ok a := rfl

theorem update_eq {xs : List α} {i : ℕ} (hi : i < xs.length) (a : α) :
    (update xs i a : Checked ε (List α)) = ok (xs.set i a) := if_pos hi

theorem slice_eq {xs : List α} {lo hi : ℕ} (hlo : lo ≤ hi) (hhi : hi ≤ xs.length) :
    (slice xs lo hi : Checked ε (List α)) = ok ((xs.take hi).drop lo) := if_pos ⟨hlo, hhi⟩

theorem sliceFrom_eq {xs : List α} {lo : ℕ} (hlo : lo ≤ xs.length) :
    (sliceFrom xs lo : Checked ε (List α)) = ok (xs.drop lo) := by
  rw [sliceFrom, slice_eq hlo (Nat.le_refl _), List.take_length]

/-! ## Loops -/

/-- `for cond { body }`, with rounds to spare: a loop that needs more of them is
`stuck`. -/
def loop (stuck : ε) (cond : α → Bool) (body : α → Checked ε α) : ℕ → α → Checked ε α
  | 0, _ => error stuck
  | fuel + 1, s => if cond s then body s >>= loop stuck cond body fuel else ok s

/-- A loop returns if its rounds are in range, keep an invariant and lower a
variant, given as many rounds as the variant says. -/
theorem loop_returns {stuck : ε} {cond : α → Bool} {body : α → Checked ε α} (Inv : α → Prop)
    (variant : α → ℕ)
    (hbody : ∀ s, Inv s → cond s = true →
      ∃ t, body s = ok t ∧ Inv t ∧ variant t < variant s)
    {fuel : ℕ} {s : α} (hs : Inv s) (hfuel : variant s < fuel) :
    ∃ t, loop stuck cond body fuel s = ok t ∧ Inv t ∧ cond t = false := by
  induction fuel generalizing s with
  | zero => omega
  | succ fuel ih =>
      cases hcond : cond s with
      | false => exact ⟨s, by simp [loop, hcond], hs, hcond⟩
      | true =>
          obtain ⟨t, hround, ht, hless⟩ := hbody s hs hcond
          obtain ⟨u, hloop, hu, hdone⟩ := ih ht (by omega)
          refine ⟨u, ?_, hu, hdone⟩
          rw [loop, if_pos hcond, hround, ok_bind, hloop]

end Checked

end Fastwire.Lib
