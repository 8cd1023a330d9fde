/-
# Sharded tables

A table that is kept in several shards, each with a lock of its own. A hash of the key
decides in which shard an entry is kept, and nothing else depends on it: read through
the hash, the shards are one table.
-/

import Fastwire.Lib.Table

namespace Fastwire.Lib

universe u v

/-- A table in shards: every key is in the shard of its hash. -/
structure Sharded {α : Type u} (β : Type v) {n : ℕ} (hash : α → Fin n) where
  shard : Fin n → Table α β
  placed : ∀ i a, a ∈ shard i → hash a = i

namespace Sharded

variable {α : Type u} {β : Type v} {n : ℕ} {hash : α → Fin n}

def empty : Sharded β hash where
  shard _ := ∅
  placed _ a h := absurd h (AList.notMem_empty a)

variable [DecidableEq α]

def lookup (t : Sharded β hash) (a : α) : Option β := (t.shard (hash a)).lookup a

def insert (t : Sharded β hash) (a : α) (b : β) : Sharded β hash where
  shard := Function.update t.shard (hash a) ((t.shard (hash a)).insert a b)
  placed := by
    intro i k hk
    by_cases hi : i = hash a
    · subst hi
      rw [Function.update_self, AList.mem_insert] at hk
      rcases hk with rfl | hk
      · rfl
      · exact t.placed _ k hk
    · rw [Function.update_of_ne hi] at hk
      exact t.placed i k hk

def erase (t : Sharded β hash) (a : α) : Sharded β hash where
  shard := Function.update t.shard (hash a) ((t.shard (hash a)).erase a)
  placed := by
    intro i k hk
    by_cases hi : i = hash a
    · subst hi
      rw [Function.update_self, AList.mem_erase] at hk
      exact t.placed _ k hk.2
    · rw [Function.update_of_ne hi] at hk
      exact t.placed i k hk

@[simp]
theorem lookup_empty (a : α) : (empty : Sharded β hash).lookup a = none := AList.lookup_empty a

theorem lookup_insert (t : Sharded β hash) (a k : α) (b : β) :
    (t.insert a b).lookup k = if k = a then some b else t.lookup k := by
  by_cases hhash : hash k = hash a
  · simp only [lookup, insert, hhash, Function.update_self, Table.lookup_insert_eq]
  · have hk : k ≠ a := fun heq => hhash (by rw [heq])
    simp only [lookup, insert, Function.update_of_ne hhash, if_neg hk]

theorem lookup_erase (t : Sharded β hash) (a k : α) :
    (t.erase a).lookup k = if k = a then none else t.lookup k := by
  by_cases hhash : hash k = hash a
  · simp only [lookup, erase, hhash, Function.update_self, Table.lookup_erase_eq]
  · have hk : k ≠ a := fun heq => hhash (by rw [heq])
    simp only [lookup, erase, Function.update_of_ne hhash, if_neg hk]

/-! ## One table -/

/-- The shards hold what the table holds. -/
def Represents (t : Sharded β hash) (m : Table α β) : Prop := ∀ a, t.lookup a = m.lookup a

theorem represents_empty : (empty : Sharded β hash).Represents ∅ := by
  intro a
  rw [lookup_empty, AList.lookup_empty]

theorem Represents.insert {t : Sharded β hash} {m : Table α β} (h : t.Represents m) (a : α)
    (b : β) : (t.insert a b).Represents (m.insert a b) := by
  intro k
  rw [lookup_insert, Table.lookup_insert_eq, h k]

theorem Represents.erase {t : Sharded β hash} {m : Table α β} (h : t.Represents m) (a : α) :
    (t.erase a).Represents (m.erase a) := by
  intro k
  rw [lookup_erase, Table.lookup_erase_eq, h k]

/-- A shard holds the part of the table with its hash. -/
theorem Represents.mem_shard_iff {t : Sharded β hash} {m : Table α β} (h : t.Represents m)
    (i : Fin n) (a : α) (b : β) :
    ⟨a, b⟩ ∈ (t.shard i).entries ↔ hash a = i ∧ m.lookup a = some b := by
  rw [← h a]
  constructor
  · intro hmem
    obtain rfl : hash a = i := t.placed i a (List.mem_keys_of_mem hmem)
    exact ⟨rfl, (List.mem_dlookup_iff (t.shard _).nodupKeys).mpr hmem⟩
  · rintro ⟨rfl, hlookup⟩
    exact (List.mem_dlookup_iff (t.shard _).nodupKeys).mp hlookup

end Sharded

end Fastwire.Lib
