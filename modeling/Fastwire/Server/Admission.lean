/-
# Admission of handshakes

What the limiter guarantees over any calls. As long as an address keeps its entry, the
handshakes admitted from it in an interval are bounded by the size of the bucket and
what flows in during the interval, whatever happens to other addresses.

Buckets are only ever refilled when they are asked, so none that is stored is full, and
`cleanup`, which waits for full ones, does not find any.
-/

import Fastwire.Server.Limiter

namespace Fastwire.LimiterState

open Lib HandshakeLimiter

variable {rate burst : ℚ} {s t : LimiterState}

/-! ## The rate -/

/-- Does the call admit a handshake from the address, at a time in
`[start, start + d]`? -/
def admits (addr : Addr) (start d : ℚ) (s : LimiterState) : LimiterCall → ℕ
  | .allow addr' now =>
      if addr' = addr then Bucket.counts start d now (s.limiter.allow addr' now).2 else 0
  | .cleanup _ _ => 0

/-- How many calls of a history do. -/
def admitted (addr : Addr) (start d : ℚ) (hist : List (LimiterState × LimiterCall)) : ℕ :=
  (hist.map fun taken => admits addr start d taken.1 taken.2).sum

def KeepsEntry (addr : Addr) (s : LimiterState) (call : LimiterCall) : Prop :=
  addr ∈ s.limiter.entries → addr ∈ (s.limiter.call call).entries

instance (addr : Addr) (s : LimiterState) (call : LimiterCall) :
    Decidable (KeepsEntry addr s call) :=
  inferInstanceAs (Decidable (_ → _))

theorem mem_entries_iff {l : HandshakeLimiter} (h : l.Linked) (addr : Addr) :
    addr ∈ l.entries ↔ l.bucket addr ≠ none := by
  have hlookup : addr ∉ l.entries ↔ l.bucket addr = none := by
    rw [bucket_eq_none h, AList.lookup_eq_none]
  rw [ne_eq, ← hlookup, not_not]

/-- A bucket that is not changed for another address is not changed at all, if its
entry is kept. -/
theorem bucket_of_kept {l l' : HandshakeLimiter} (h : l.Linked) (h' : l'.Linked) {addr : Addr}
    (hkept : addr ∈ l.entries → addr ∈ l'.entries)
    (hcases : l'.bucket addr = l.bucket addr ∨ l'.bucket addr = none) :
    l'.bucket addr = l.bucket addr := by
  rcases hcases with hsame | hnone
  · exact hsame
  · rw [mem_entries_iff h, mem_entries_iff h'] at hkept
    by_cases hold : l.bucket addr = none
    · rw [hnone, hold]
    · exact absurd hnone (hkept hold)

/-- The account of an address over an interval: without a bucket nothing has been
admitted. -/
def Accounted (rate burst start d : ℚ) (n : ℕ) : Option (Bucket ℚ) → Prop
  | none => n = 0
  | some b => Bucket.Covered rate burst start d b n

theorem Accounted.bound {start d : ℚ} {n : ℕ} {b : Option (Bucket ℚ)}
    (h : Accounted rate burst start d n b) (hrate : 0 ≤ rate) (hburst : 0 ≤ burst) (hd : 0 ≤ d) :
    (n : ℚ) ≤ burst + rate * d := by
  cases b with
  | none =>
      have hzero : n = 0 := h
      rw [hzero, Nat.cast_zero]
      exact add_nonneg hburst (mul_nonneg hrate hd)
  | some b => exact Bucket.Covered.bound h

/-- Asking the bucket of the address. -/
theorem Accounted.request {start d now : ℚ} {n : ℕ} {addr : Addr}
    (h : Accounted rate burst start d n (s.limiter.bucket addr)) (hsound : Sound rate burst s)
    (hrate : 0 ≤ rate) (hburst : 0 ≤ burst) (hd : 0 ≤ d) (hnow : s.clock ≤ now) :
    Bucket.Covered rate burst start d (s.limiter.bucketAt addr now).take.1
      (n + Bucket.counts start d now (s.limiter.bucketAt addr now).take.2) := by
  rw [bucketAt, hsound.rate_eq, hsound.burst_eq]
  cases hbucket : s.limiter.bucket addr with
  | none =>
      rw [hbucket] at h
      have hzero : n = 0 := h
      have hfull : Bucket.Covered rate burst start d (.full burst now) 0 :=
        (Bucket.full_within hburst).covered hrate hburst hd
      rw [hzero]
      exact hfull.request hrate hburst (le_refl now)
  | some b =>
      rw [hbucket] at h
      have hcovered : Bucket.Covered rate burst start d b n := h
      exact hcovered.request hrate hburst ((hsound.last_le addr b hbucket).trans hnow)

/-- The step of the account. -/
theorem Accounted.next {start d : ℚ} {n : ℕ} {addr : Addr} {call : LimiterCall}
    (h : Accounted rate burst start d n (s.limiter.bucket addr)) (hsound : Sound rate burst s)
    (hrate : 0 ≤ rate) (hburst : 0 ≤ burst) (hd : 0 ≤ d)
    (hkept : KeepsEntry addr s call) (hstep : (system rate burst).step s call t) :
    Accounted rate burst start d (n + admits addr start d s call) (t.limiter.bucket addr) := by
  cases call with
  | allow addr' now =>
      have hnext : s.next (.allow addr' now) = some t := hstep
      rw [LimiterState.next] at hnext
      split_ifs at hnext with hnow
      cases hnext
      obtain ⟨hallow, hverdict⟩ := hsound.linked.allow addr' now
      by_cases haddr : addr' = addr
      · subst haddr
        simp only [admits, if_true]
        rw [hallow.bucket, hverdict]
        exact h.request hsound hrate hburst hd hnow
      · have hsame := bucket_of_kept hsound.linked hallow.linked hkept
          (hallow.others addr (Ne.symm haddr))
        simp only [admits, if_neg haddr, Nat.add_zero]
        rw [hsame]
        exact h
  | cleanup now age =>
      have hnext : s.next (.cleanup now age) = some t := hstep
      cases hnext
      have hreduced := hsound.linked.cleanupLoop now age s.limiter.order.length
      have hsame := bucket_of_kept hsound.linked hreduced.linked hkept (hreduced.buckets addr)
      simp only [admits, Nat.add_zero, cleanup]
      rw [hsame]
      exact h

/-- The account over a part of a run in which the address keeps its entry. -/
theorem accounted_of_run {start d : ℚ} {addr : Addr}
    {later earlier : List (LimiterState × LimiterCall)}
    (hrun : (system rate burst).Run (later ++ earlier) s) (hrate : 0 ≤ rate) (hburst : 0 ≤ burst)
    (hd : 0 ≤ d) (hkept : System.Guarded (KeepsEntry addr) later) :
    Accounted rate burst start d (admitted addr start d later) (s.limiter.bucket addr) := by
  induction later generalizing s with
  | nil =>
      have hsound := sound_of_run hrate hburst hrun
      cases hbucket : s.limiter.bucket addr with
      | none => rfl
      | some b => exact (hsound.within addr b hbucket).covered hrate hburst hd
  | cons taken later ih =>
      cases hrun with
      | @step _ s' _ call prior hstep =>
          rw [System.guarded_cons] at hkept
          have hsum : admitted addr start d ((s', call) :: later) =
              admitted addr start d later + admits addr start d s' call := by
            simp [admitted, Nat.add_comm]
          rw [hsum]
          exact (ih prior hkept.2).next (sound_of_run hrate hburst prior) hrate hburst hd
            hkept.1 hstep

/-- The tokens stored in the list are those of the buckets. -/
theorem Sound.tokens_within (h : Sound rate burst s) {el : ℕ} (hel : el ∈ s.limiter.order)
    {e : HandshakeEntry} (he : s.limiter.elements[el]? = some e) :
    0 ≤ e.tokens ∧ e.tokens ≤ burst :=
  h.within e.addr (entryBucket e) (h.linked.bucket_of_mem hel he)

/-- **The handshake rate.** In any part of a run in which an address keeps its entry,
no more handshakes from it are admitted in an interval than the bucket holds and the
rate brings in. The tokens stored are never negative and never more than the bucket
holds. -/
theorem handshake_rate_bound (rate burst : ℚ) (hrate : 0 ≤ rate) (hburst : 0 ≤ burst)
    (later earlier : List (LimiterState × LimiterCall)) (s : LimiterState)
    (hrun : (system rate burst).Run (later ++ earlier) s) (addr : Addr)
    (hkept : System.Guarded (KeepsEntry addr) later) (start d : ℚ) (hd : 0 ≤ d) :
    (admitted addr start d later : ℚ) ≤ burst + rate * d ∧
      ∀ el ∈ s.limiter.order, ∀ e, s.limiter.elements[el]? = some e →
        0 ≤ e.tokens ∧ e.tokens ≤ burst := by
  constructor
  · exact (accounted_of_run hrun hrate hburst hd hkept).bound hrate hburst hd
  · intro el hel e he
    exact (sound_of_run hrate hburst hrun).tokens_within hel he

def start (rate burst : ℚ) : LimiterState := ⟨newHandshakeLimiter rate burst, 0⟩

/-- Two handshakes at once and a third after a second, with a bucket of two tokens and
one token a second: the bound is reached. -/
theorem handshake_rate_bound_reached :
    ∃ hist s, (system 1 2).Run hist s ∧ System.Guarded (KeepsEntry 7) hist ∧
      admitted 7 0 1 hist = 3 ∧ (admitted 7 0 1 hist : ℚ) ≤ 2 + 1 * 1 := by
  obtain ⟨hist, s, hrun, hkept, hcount⟩ := System.exists_history (S := system 1 2)
    (fun s call t h => h) (s := start 1 2) rfl
    [.allow 7 0, .allow 7 0, .allow 7 0, .allow 8 1, .allow 7 1, .allow 7 1]
    (fun hist _ => System.Guarded (KeepsEntry 7) hist ∧ admitted 7 0 1 hist = 3)
    (by decide +kernel)
  have hbound := handshake_rate_bound 1 2 (by decide) (by decide) hist [] s
    (by rwa [List.append_nil]) 7 hkept 0 1 (by decide)
  exact ⟨hist, s, hrun, hkept, hcount, hbound.1⟩

/-! ## Reclaiming -/

/-- No stored bucket is full. -/
def Spent (burst : ℚ) (s : LimiterState) : Prop :=
  ∀ addr b, s.limiter.bucket addr = some b → b.tokens < burst

theorem Spent.next (h : Spent burst s) (hsound : Sound rate burst s) (hrate : 0 ≤ rate)
    (hburst : 1 ≤ burst) {call : LimiterCall} (hstep : (system rate burst).step s call t) :
    Spent burst t := by
  intro addr b hb
  rcases (called_of_step hsound.linked hstep).buckets addr b hb with hold | ⟨asked, rfl⟩
  · exact h addr b hold
  · have hwithin := hsound.bucketAt_within hrate (zero_le_one.trans hburst) asked t.clock
    exact hwithin.take_tokens_lt hburst

theorem spent_of_run (hrate : 0 ≤ rate) (hburst : 1 ≤ burst)
    {hist : List (LimiterState × LimiterCall)} (hrun : (system rate burst).Run hist s) :
    Spent burst s := by
  have hinit : ∀ s, (system rate burst).init s → Sound rate burst s ∧ Spent burst s := by
    intro s hinit
    refine ⟨sound_init hinit, fun addr b hb => ?_⟩
    rw [hinit] at hb
    cases hb
  have hstep : ∀ s call t, Sound rate burst s ∧ Spent burst s →
      (system rate burst).step s call t → Sound rate burst t ∧ Spent burst t := by
    intro s call t hs hstep
    exact ⟨hs.1.next hrate (zero_le_one.trans hburst) hstep, hs.2.next hs.1 hrate hburst hstep⟩
  exact (hrun.invariant hinit hstep).2

/-- `cleanup` stops at the first element it looks at. -/
theorem Spent.cleanup_eq (h : Spent burst s) (hsound : Sound rate burst s) (now age : ℚ) :
    s.limiter.cleanup now age = s.limiter := by
  unfold cleanup
  cases hrounds : s.limiter.order.length with
  | zero => rfl
  | succ rounds =>
      cases hback : s.limiter.back with
      | none => rw [cleanupLoop, hback]
      | some e =>
          obtain ⟨el, horder, he⟩ := back_eq_some hback
          have hel : el ∈ s.limiter.order := by
            rw [horder]
            exact List.mem_append_right _ List.mem_cons_self
          have hspent : e.tokens < s.limiter.burst := by
            rw [hsound.burst_eq]
            exact h e.addr _ (hsound.linked.bucket_of_mem hel he)
          rw [cleanupLoop_succ now age rounds hback, if_pos (.inl hspent)]

/-- An entry that nobody needs: not used for the given age, and long enough for its
bucket to fill up. -/
def Idle (l : HandshakeLimiter) (now age : ℚ) (e : HandshakeEntry) : Prop :=
  age ≤ now - e.last ∧ l.burst / l.rate ≤ now - e.last

instance (l : HandshakeLimiter) (now age : ℚ) (e : HandshakeEntry) :
    Decidable (Idle l now age e) :=
  inferInstanceAs (Decidable (_ ∧ _))

/-- No entry of the list is idle. -/
def NoneIdle (l : HandshakeLimiter) (now age : ℚ) : Prop :=
  ∀ el ∈ l.order, ∀ e ∈ l.elements[el]?, ¬ Idle l now age e

instance (l : HandshakeLimiter) (now age : ℚ) : Decidable (NoneIdle l now age) :=
  inferInstanceAs (Decidable (∀ el ∈ l.order, ∀ e ∈ l.elements[el]?, ¬ Idle l now age e))

/-- **What `cleanup` reclaims.** After any calls, no idle entry is left behind exactly
if there was none to begin with: no entry is ever reclaimed. -/
theorem cleanup_none_idle_iff (rate burst : ℚ) (hrate : 0 < rate) (hburst : 1 ≤ burst)
    (hist : List (LimiterState × LimiterCall)) (s : LimiterState)
    (hrun : (system rate burst).Run hist s) (now age : ℚ) :
    NoneIdle (s.limiter.cleanup now age) now age ↔ NoneIdle s.limiter now age := by
  have hsound := sound_of_run hrate.le (zero_le_one.trans hburst) hrun
  rw [(spent_of_run hrate.le hburst hrun).cleanup_eq hsound]

/-- With the default rate and burst, a bucket is not idle a second after its use. -/
theorem cleanup_none_idle_after_second :
    ∃ hist s, (system 10 20).Run hist s ∧ s.limiter.size = 1 ∧
      NoneIdle (s.limiter.cleanup 1 5) 1 5 := by
  obtain ⟨hist, s, hrun, hsize, hidle⟩ := System.exists_history (S := system 10 20)
    (fun s call t h => h) (s := start 10 20) rfl [.allow 7 0]
    (fun _ s => s.limiter.size = 1 ∧ NoneIdle s.limiter 1 5) (by decide +kernel)
  have hiff := cleanup_none_idle_iff 10 20 (by decide) (by decide) hist s hrun 1 5
  exact ⟨hist, s, hrun, hsize, hiff.mpr hidle⟩

/-- A bucket that is used once is still there an hour later, although it has been idle
for all the time and two seconds would have filled it. -/
theorem cleanup_leaves_idle_bucket :
    ∃ hist s, (system 10 20).Run hist s ∧
      (s.limiter.cleanup 3600 5).size = 1 ∧ ¬ NoneIdle (s.limiter.cleanup 3600 5) 3600 5 :=
  System.exists_history (S := system 10 20) (fun s call t h => h) (s := start 10 20) rfl
    [.allow 7 0]
    (fun _ s => (s.limiter.cleanup 3600 5).size = 1 ∧
      ¬ NoneIdle (s.limiter.cleanup 3600 5) 3600 5) (by decide +kernel)

end Fastwire.LimiterState
