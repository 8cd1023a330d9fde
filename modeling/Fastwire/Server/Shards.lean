/-
# The connection table

The server keeps its connections in 64 shards, and an FNV-1a hash of the address picks
the shard. Lookups, insertions and removals lock one shard, so that to them the shards
are the one table that the model of the server has. `forEach` and `count` lock one shard
after another: while they run, connections come, go and move.
-/

import Fastwire.Connection.Basic
import Fastwire.Lib.Run
import Fastwire.Lib.Sharded

namespace Fastwire

open Lib

def connShardCount : ℕ := 64

/-- `Addr.As16`. -/
def AddrPort.as16 (addr : AddrPort) : List UInt8 :=
  (List.range 16).map fun i => UInt8.ofNat (addr.addr.toNat >>> (8 * (15 - i)))

def fnvRound (h x : UInt32) : UInt32 := (h ^^^ x) * 16777619

/-- The hash of `shardFor`. -/
def AddrPort.fnv (addr : AddrPort) : UInt32 :=
  let h := addr.as16.foldl (fun h c => fnvRound h c.toUInt32) 2166136261
  fnvRound (fnvRound h (addr.port >>> 8).toUInt32) (addr.port &&& 0xFF).toUInt32

def shardFor (addr : AddrPort) : Fin connShardCount :=
  ⟨addr.fnv.toNat % connShardCount, Nat.mod_lt _ (by decide)⟩

/-- `connectionTable`, with the positions of the connections in the heap. -/
abbrev ConnectionTable := Sharded ℕ shardFor

namespace ConnectionTable

/-- `newConnectionTable`. -/
def new : ConnectionTable := Sharded.empty

variable (ct : ConnectionTable)

def get (addr : AddrPort) : Option ℕ := ct.lookup addr

def put (addr : AddrPort) (conn : ℕ) : ConnectionTable := ct.insert addr conn

def remove (addr : AddrPort) : ConnectionTable := ct.erase addr

end ConnectionTable

/-- The connection table while `forEach` or `count` goes through it, and the table of the
model. -/
structure TableScan where
  conns : Table AddrPort ℕ
  table : ConnectionTable
  /-- The shard whose turn it is. -/
  next : ℕ
  /-- What `forEach` has passed to its callback. -/
  visited : List ((_ : AddrPort) × ℕ)
  /-- What `count` has added up. -/
  total : ℕ

namespace TableScan

/-- What the goroutines of a server do to the table while one of them scans it. -/
inductive Act
  | put (addr : AddrPort) (conn : ℕ)
  | remove (addr : AddrPort)
  /-- The loop takes the lock of the next shard. -/
  | visit
  deriving DecidableEq, Repr

/-- The scan after an action, if the action is possible. -/
def after (s : TableScan) : Act → Option TableScan
  | .put addr conn =>
      some { s with conns := s.conns.insert addr conn, table := s.table.put addr conn }
  | .remove addr => some { s with conns := s.conns.erase addr, table := s.table.remove addr }
  | .visit =>
      if h : s.next < connShardCount then
        let shard := s.table.shard ⟨s.next, h⟩
        some { s with
          next := s.next + 1
          visited := s.visited ++ shard.entries
          total := s.total + shard.entries.length }
      else none

/-- The scans of a table: at the beginning the shards hold what the table of the model
holds. -/
def system : System TableScan Act where
  init s := s.table.Represents s.conns ∧ s.next = 0 ∧ s.visited = [] ∧ s.total = 0
  step s a s' := s.after a = some s'

section

variable {s s' : TableScan} {a : Act} {hist : List (TableScan × Act)}

/-- The shards hold what the table of the model holds, and the scan has seen what it
should have seen in the shards that it has visited. -/
structure Faithful (hist : List (TableScan × Act)) (s : TableScan) : Prop where
  represents : s.table.Represents s.conns
  nodupKeys : s.visited.NodupKeys
  before : ∀ e ∈ s.visited, (shardFor e.1 : ℕ) < s.next
  sound : ∀ addr conn, ⟨addr, conn⟩ ∈ s.visited → ∃ taken ∈ hist, taken.2 = .visit ∧
    taken.1.next = shardFor addr ∧ taken.1.conns.lookup addr = some conn
  complete : ∀ addr conn, (shardFor addr : ℕ) < s.next →
    (∀ taken ∈ hist, taken.1.conns.lookup addr = some conn) → ⟨addr, conn⟩ ∈ s.visited
  total_eq : s.total = s.visited.length

theorem faithful_start (h : system.init s) : Faithful [] s := by
  obtain ⟨conns, table, next, visited, total⟩ := s
  obtain ⟨hrepresents, rfl, rfl, rfl⟩ := h
  exact ⟨hrepresents, List.nodupKeys_nil, by simp, by simp, by simp, rfl⟩

/-- The scan does not notice a change. -/
theorem Faithful.change (h : Faithful hist s) (a : Act) {conns : Table AddrPort ℕ}
    {table : ConnectionTable} (hrepresents : table.Represents conns) :
    Faithful ((s, a) :: hist) { s with conns := conns, table := table } := by
  refine ⟨hrepresents, h.nodupKeys, h.before, ?_, ?_, h.total_eq⟩
  · intro addr conn hmem
    obtain ⟨taken, htaken, hvisit⟩ := h.sound addr conn hmem
    exact ⟨taken, List.mem_cons_of_mem _ htaken, hvisit⟩
  · intro addr conn hbefore hall
    rw [List.forall_mem_cons] at hall
    exact h.complete addr conn hbefore hall.2

/-- The shard that is visited next has keys of its own, and holds all of them. -/
theorem Faithful.visit (h : Faithful hist s) (hlt : s.next < connShardCount) :
    Faithful ((s, .visit) :: hist) { s with
      next := s.next + 1
      visited := s.visited ++ (s.table.shard ⟨s.next, hlt⟩).entries
      total := s.total + (s.table.shard ⟨s.next, hlt⟩).entries.length } := by
  have hshard := h.represents.mem_shard_iff ⟨s.next, hlt⟩
  refine ⟨h.represents, ?_, ?_, ?_, ?_, ?_⟩
  · rw [List.nodupKeys_iff_pairwise, List.pairwise_append]
    refine ⟨List.nodupKeys_iff_pairwise.mp h.nodupKeys,
      List.nodupKeys_iff_pairwise.mp (s.table.shard _).nodupKeys, ?_⟩
    rintro ⟨addr, conn⟩ hold ⟨addr', conn'⟩ hnew hkey
    have hbefore := h.before _ hold
    rw [hkey, ((hshard _ _).mp hnew).1] at hbefore
    exact absurd hbefore (lt_irrefl _)
  · rintro ⟨addr, conn⟩ hmem
    rcases List.mem_append.mp hmem with hold | hnew
    · exact Nat.lt_succ_of_lt (h.before _ hold)
    · rw [((hshard _ _).mp hnew).1]
      exact Nat.lt_succ_self _
  · intro addr conn hmem
    rcases List.mem_append.mp hmem with hold | hnew
    · obtain ⟨taken, htaken, hvisit⟩ := h.sound addr conn hold
      exact ⟨taken, List.mem_cons_of_mem _ htaken, hvisit⟩
    · obtain ⟨hown, hlookup⟩ := (hshard _ _).mp hnew
      exact ⟨_, List.mem_cons_self, rfl, by rw [hown], hlookup⟩
  · intro addr conn hbefore hall
    rw [List.forall_mem_cons] at hall
    rcases Nat.lt_succ_iff_lt_or_eq.mp hbefore with hold | hnow
    · exact List.mem_append_left _ (h.complete addr conn hold hall.2)
    · exact List.mem_append_right _ ((hshard _ _).mpr ⟨Fin.ext hnow, hall.1⟩)
  · rw [List.length_append, ← h.total_eq]

theorem Faithful.after (h : Faithful hist s) (hafter : s.after a = some s') :
    Faithful ((s, a) :: hist) s' := by
  cases a with
  | put addr conn =>
      cases hafter
      exact h.change _ (h.represents.insert addr conn)
  | remove addr =>
      cases hafter
      exact h.change _ (h.represents.erase addr)
  | visit =>
      rw [TableScan.after] at hafter
      split at hafter
      · rename_i hlt
        cases hafter
        exact h.visit hlt
      · cases hafter

theorem faithful_of_run (hrun : system.Run hist s) : Faithful hist s := by
  induction hrun with
  | start starts => exact faithful_start starts
  | step prior taken ih => exact ih.after taken

/-- **What a scan of the connection table sees.** While one goroutine is in `forEach` or
`count` and others put connections into the table and remove them: a lookup finds what
the table of the model has; no address is seen twice; a connection that is seen was
registered under its address in the step that visited the shard of the address; `count`
is the number of those seen; and when the scan is over, a connection that has been
registered under an address all the time has been seen. -/
theorem scan_under_changes (hrun : system.Run hist s) :
    (∀ addr, s.table.get addr = s.conns.lookup addr) ∧ s.visited.keys.Nodup ∧
    s.total = s.visited.length ∧
    (∀ addr conn, ⟨addr, conn⟩ ∈ s.visited → ∃ taken ∈ hist, taken.2 = .visit ∧
      taken.1.next = shardFor addr ∧ taken.1.conns.lookup addr = some conn) ∧
    (s.next = connShardCount → ∀ addr conn,
      (∀ taken ∈ hist, taken.1.conns.lookup addr = some conn) → ⟨addr, conn⟩ ∈ s.visited) := by
  have h := faithful_of_run hrun
  refine ⟨h.represents, h.nodupKeys, h.total_eq, h.sound, fun hdone addr conn => ?_⟩
  apply h.complete addr conn
  rw [hdone]
  exact (shardFor addr).2

end

/-- Two connections in different shards, and a third one that comes too late for its
shard. -/
theorem scan_under_changes_late : ∃ hist s, system.Run hist s ∧ s.next = connShardCount ∧
    s.conns.keys.length = 3 ∧ s.total = 2 ∧ s.visited.keys.Nodup ∧ s.total = s.visited.length := by
  obtain ⟨hist, s, hrun, hdone, hkeys, htotal⟩ := System.exists_history (S := system)
    (fun _ _ _ h => h) (s := ⟨∅, .new, 0, [], 0⟩) ⟨Sharded.represents_empty, rfl, rfl, rfl⟩
    (.put ⟨0, 1⟩ 0 :: .put ⟨0, 2⟩ 1 :: List.replicate 60 .visit ++
      .put ⟨0, 3⟩ 2 :: List.replicate 4 .visit)
    (fun hist s => s.next = connShardCount ∧ s.conns.keys.length = 3 ∧ s.total = 2)
    (by decide +kernel)
  obtain ⟨-, hnodup, hlen, -⟩ := scan_under_changes hrun
  exact ⟨hist, s, hrun, hdone, hkeys, htotal, hnodup, hlen⟩

end TableScan

end Fastwire
