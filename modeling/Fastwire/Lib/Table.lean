/-
# Finite tables and in-order draining

A table is a finite partial function that can be evaluated. The first part adds
to the association lists of Mathlib the two rewriting rules that all later
proofs use, reading a table after an insertion and after an erasure.

The second part is the loop at the heart of every reorder buffer: starting at
one key, take entries out along a successor function until a key is missing.
Its specification speaks about the table before the loop only, so that users
never follow the recursion.
-/

import Mathlib.Algebra.Ring.Int.Defs
import Mathlib.Data.List.AList
import Mathlib.Logic.Function.Iterate

namespace Fastwire.Lib

universe u v

/-- A finite partial function. -/
abbrev Table (α : Type u) (β : Type v) := AList fun _ : α => β

namespace Table

variable {α : Type u} {β : Type v} [DecidableEq α]

theorem lookup_insert_eq (t : Table α β) (a k : α) (b : β) :
    (t.insert a b).lookup k = if k = a then some b else t.lookup k := by
  split
  · rename_i heq
    subst heq
    exact AList.lookup_insert t
  · rename_i hne
    exact AList.lookup_insert_ne hne

theorem lookup_erase_eq (t : Table α β) (a k : α) :
    (t.erase a).lookup k = if k = a then none else t.lookup k := by
  split
  · rename_i heq
    subst heq
    exact AList.lookup_erase k t
  · rename_i hne
    exact AList.lookup_erase_ne hne

/-- Writing only where there is an entry. -/
theorem lookup_insert_present (t : Table α β) (a k : α) (b : β) :
    (if a ∈ t then t.insert a b else t).lookup k =
      if k = a then (t.lookup a).map fun _ => b else t.lookup k := by
  by_cases hmem : a ∈ t
  · obtain ⟨b', hb'⟩ := Option.isSome_iff_exists.mp (AList.lookup_isSome.mpr hmem)
    rw [if_pos hmem, lookup_insert_eq, hb', Option.map_some]
  · have hnone : t.lookup a = none := AList.lookup_eq_none.mpr hmem
    rw [if_neg hmem, hnone, Option.map_none]
    split
    · rename_i heq
      rw [heq, hnone]
    · rfl

theorem mem_of_lookup {t : Table α β} {a : α} {b : β} (h : t.lookup a = some b) : a ∈ t := by
  rw [← AList.lookup_isSome, h]
  rfl

/-- The entries whose value satisfies a test. -/
def filter (keep : β → Bool) (t : Table α β) : Table α β :=
  ⟨t.entries.filter fun e => keep e.2, t.nodupKeys.sublist List.filter_sublist⟩

theorem lookup_filter (keep : β → Bool) (t : Table α β) (k : α) :
    (t.filter keep).lookup k = (t.lookup k).filter keep := by
  obtain ⟨entries, hnodup⟩ := t
  induction entries with
  | nil => rfl
  | cons e entries ih =>
      obtain ⟨a, b⟩ := e
      obtain ⟨hfresh, htail⟩ := List.nodupKeys_cons.mp hnodup
      have hrest := ih htail
      simp only [AList.lookup, filter] at hrest ⊢
      by_cases hk : k = a
      · subst hk
        have hgone : (entries.filter fun e => keep e.2).dlookup k = none := by
          rw [hrest, List.dlookup_eq_none.mpr hfresh]
          rfl
        cases hkeep : keep b with
        | true => simp [hkeep, Option.filter]
        | false => simp [hkeep, hgone, Option.filter]
      · have hskip : ∀ l : List ((_ : α) × β),
            List.dlookup k (⟨a, b⟩ :: l) = List.dlookup k l :=
          fun l => List.dlookup_cons_ne l ⟨a, b⟩ hk
        cases hkeep : keep b with
        | true => simp [hkeep, hskip, hrest]
        | false => simp [hkeep, hskip, hrest]

/-! ## Another view of the values -/

variable {γ : Type v}

def mapValues (f : β → γ) (t : Table α β) : Table α γ where
  entries := t.entries.map fun e => ⟨e.1, f e.2⟩
  nodupKeys := by
    have hkeys : (t.entries.map fun e => (⟨e.1, f e.2⟩ : (_ : α) × γ)).keys = t.entries.keys := by
      simp [List.keys]
    rw [List.NodupKeys, hkeys]
    exact t.nodupKeys

omit [DecidableEq α] in
@[simp]
theorem keys_mapValues (f : β → γ) (t : Table α β) : (t.mapValues f).keys = t.keys := by
  simp [AList.keys, List.keys, mapValues]

theorem lookup_mapValues (f : β → γ) (t : Table α β) (k : α) :
    (t.mapValues f).lookup k = (t.lookup k).map f := by
  simp only [AList.lookup, mapValues]
  induction t.entries with
  | nil => rfl
  | cons e entries ih =>
      obtain ⟨a, b⟩ := e
      by_cases hk : k = a
      · subst hk
        rw [List.map_cons, List.dlookup_cons_eq, List.dlookup_cons_eq]
        rfl
      · have hskip : List.dlookup k (⟨a, b⟩ :: entries) = List.dlookup k entries :=
          List.dlookup_cons_ne entries ⟨a, b⟩ hk
        rw [hskip, ← ih]
        exact List.dlookup_cons_ne _ (⟨a, f b⟩ : (_ : α) × γ) hk

theorem mapValues_erase (f : β → γ) (t : Table α β) (a : α) :
    mapValues f (t.erase a) = (t.mapValues f).erase a := by
  apply AList.ext
  show (t.entries.kerase a).map _ = (t.entries.map _).kerase a
  rw [List.kerase, List.kerase, List.eraseP_map]
  rfl

theorem mapValues_insert (f : β → γ) (t : Table α β) (a : α) (b : β) :
    mapValues f (t.insert a b) = (t.mapValues f).insert a (f b) := by
  apply AList.ext
  have herase := congrArg AList.entries (mapValues_erase f t a)
  have hentries : (mapValues f (t.insert a b)).entries =
      ⟨a, f b⟩ :: (mapValues f (t.erase a)).entries := by
    show (t.insert a b).entries.map (fun e => (⟨e.1, f e.2⟩ : (_ : α) × γ)) = _
    rw [AList.entries_insert]
    rfl
  rw [hentries, AList.entries_insert, herase]
  rfl

omit [DecidableEq α] in
theorem mapValues_filter (f : β → γ) (keep : γ → Bool) (t : Table α β) :
    (t.filter fun b => keep (f b)).mapValues f = (t.mapValues f).filter keep := by
  apply AList.ext
  show (t.entries.filter _).map _ = (t.entries.map _).filter _
  rw [List.filter_map]
  rfl

/-! ## Totals -/

def total (f : β → ℤ) (t : Table α β) : ℤ := (t.entries.map fun e => f e.2).sum

omit [DecidableEq α] in
@[simp]
theorem total_empty (f : β → ℤ) : total f (∅ : Table α β) = 0 := rfl

theorem total_erase (f : β → ℤ) {t : Table α β} {a : α} {b : β} (h : t.lookup a = some b) :
    total f (t.erase a) = total f t - f b := by
  obtain ⟨b', before, behind, hfresh, hentries, herased⟩ :=
    List.exists_of_kerase (mem_of_lookup h : a ∈ t.entries.keys)
  obtain rfl : b' = b := by
    have hmem : (⟨a, b'⟩ : (_ : α) × β) ∈ t.entries := by
      rw [hentries]
      exact List.mem_append_right _ List.mem_cons_self
    have hb : t.lookup a = some b' := (List.mem_dlookup_iff t.nodupKeys).mpr hmem
    exact Option.some.inj (hb.symm.trans h)
  have hrest : (t.erase a).entries = before ++ behind := herased
  rw [total, total, hrest, hentries]
  simp only [List.map_append, List.map_cons, List.sum_append, List.sum_cons]
  omega

/-- An insertion replaces what was there. -/
theorem total_insert (f : β → ℤ) (t : Table α β) (a : α) (b : β) :
    total f (t.insert a b) = total f t + f b - ((t.lookup a).map f).getD 0 := by
  have hentries : total f (t.insert a b) = f b + total f (t.erase a) := by
    rw [total, AList.entries_insert]
    rfl
  rw [hentries]
  cases h : t.lookup a with
  | none =>
      have hsame : (t.erase a).entries = t.entries :=
        List.kerase_of_notMem_keys (AList.lookup_eq_none.mp h)
      have htotal : total f (t.erase a) = total f t := by rw [total, hsame, total]
      rw [htotal]
      simp [Int.add_comm]
  | some b' =>
      rw [total_erase f h]
      simp only [Option.map_some, Option.getD_some]
      omega

omit [DecidableEq α] in
/-- What a filter keeps, and what it takes away. -/
theorem total_filter (f : β → ℤ) (keep : β → Bool) (t : Table α β) :
    total f (t.filter keep) =
      total f t - ((t.entries.filter fun e => !keep e.2).map fun e => f e.2).sum := by
  show ((t.entries.filter fun e => keep e.2).map fun e => f e.2).sum =
    (t.entries.map fun e => f e.2).sum - _
  induction t.entries with
  | nil => rfl
  | cons e entries ih =>
      cases hkeep : keep e.2 <;>
        simp only [List.filter_cons, hkeep, Bool.not_true, Bool.not_false, ↓reduceIte,
          Bool.false_eq_true, List.map_cons, List.sum_cons] <;> omega

/-! ## Draining -/

/-- Take entries out of the table, starting at `next`, until one is missing.
Every round removes an entry, so the number of entries bounds the rounds. -/
def drain (succ : α → α) : ℕ → Table α β → α → List β × Table α β × α
  | 0, t, next => ([], t, next)
  | rounds + 1, t, next =>
      match t.lookup next with
      | none => ([], t, next)
      | some b =>
          let (out, rest, last) := drain succ rounds (t.erase next) (succ next)
          (b :: out, rest, last)

/-- What a drain did: it took out the entries of the first `out.length` keys
along `succ`, and stopped at a key that is missing. -/
structure Drained (succ : α → α) (t : Table α β) (next : α) (out : List β) (rest : Table α β)
    (last : α) : Prop where
  last_eq : last = succ^[out.length] next
  taken : ∀ i b, out[i]? = some b → t.lookup (succ^[i] next) = some b
  stopped : rest.lookup last = none
  lookup_rest : ∀ k, rest.lookup k =
    if ∃ i < out.length, k = succ^[i] next then none else t.lookup k

theorem drained_drain (succ : α → α) (rounds : ℕ) (t : Table α β) (next : α)
    (hrounds : t.keys.length ≤ rounds) :
    Drained succ t next (drain succ rounds t next).1 (drain succ rounds t next).2.1
      (drain succ rounds t next).2.2 := by
  induction rounds generalizing t next with
  | zero =>
      have hkeys : t.keys = [] := List.eq_nil_of_length_eq_zero (by omega)
      have hempty : t.lookup next = none := by
        rw [AList.lookup_eq_none, AList.mem_keys, hkeys]
        exact List.not_mem_nil
      exact ⟨rfl, by simp [drain], hempty, by simp [drain]⟩
  | succ rounds ih =>
      cases hlook : t.lookup next with
      | none =>
          simp only [drain, hlook]
          exact ⟨rfl, by simp, hlook, by simp⟩
      | some b =>
          have hlen : (t.erase next).keys.length ≤ rounds := by
            have hmem : next ∈ t.keys := mem_of_lookup hlook
            rw [AList.keys_erase, List.length_erase_of_mem hmem]
            omega
          have h := ih (t.erase next) (succ next) hlen
          simp only [drain, hlook]
          refine ⟨by simpa using h.last_eq, ?_, h.stopped, ?_⟩
          · intro i b' hi
            cases i with
            | zero => simpa [hlook] using hi
            | succ i =>
                have htaken := h.taken i b' (by simpa using hi)
                rw [lookup_erase_eq] at htaken
                split at htaken
                · cases htaken
                · simpa using htaken
          · intro k
            rw [h.lookup_rest k, lookup_erase_eq]
            by_cases hk : k = next
            · have hhere : ∃ i < (b :: (drain succ rounds (t.erase next) (succ next)).1).length,
                  k = succ^[i] next := ⟨0, by simp, hk⟩
              rw [if_pos hhere, if_pos hk, ite_self]
            · rw [if_neg hk]
              congr 1
              simp only [List.length_cons, eq_iff_iff]
              constructor
              · rintro ⟨i, hi, heq⟩
                exact ⟨i + 1, by omega, by simpa using heq⟩
              · rintro ⟨i, hi, heq⟩
                cases i with
                | zero => exact absurd heq hk
                | succ i => exact ⟨i, by omega, by simpa using heq⟩

namespace Drained

variable {succ : α → α} {t rest : Table α β} {next last : α} {out : List β}

/-- The keys taken out were all present. -/
theorem lookup_of_lt (h : Drained succ t next out rest last) {i : ℕ} (hi : i < out.length) :
    ∃ b, out[i]? = some b ∧ t.lookup (succ^[i] next) = some b :=
  ⟨out[i], by simp [hi], h.taken i _ (by simp [hi])⟩

end Drained

end Table

end Fastwire.Lib
