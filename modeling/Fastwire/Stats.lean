/-
# Round-trip estimation, congestion control and loss tracking

The three per-connection estimators. They are read by the send path only: the
retransmission timeout and the congestion gate. Floating-point quantities are
rationals here, so that `Rtt.timeout` can be a nanosecond above the timeout of the
code. The results about time use the timeout only through its clamp, in
`Rtt.InRange.timeout`, and rounding does not leave the clamp.
-/

import Mathlib.Data.Rat.Floor
import Mathlib.Data.Vector.Defs

namespace Fastwire

/-- Nanoseconds in a second. -/
def second : ℤ := 1000000000

/-! ## Round-trip time -/

/-- `rtt.State`, in seconds. -/
structure Rtt where
  srtt : ℚ
  rttvar : ℚ
  rto : ℚ
  hasSample : Bool
  deriving DecidableEq, Repr

namespace Rtt

def init : Rtt := ⟨0, 0, 1, false⟩

/-- `AddSample`: Jacobson/Karels smoothing, the timeout clamped to its range. -/
def addSample (r : Rtt) (sample : ℤ) : Rtt :=
  let s : ℚ := sample / second
  let rttvar := if r.hasSample then 3 / 4 * r.rttvar + 1 / 4 * |r.srtt - s| else s / 2
  let srtt := if r.hasSample then 7 / 8 * r.srtt + 1 / 8 * s else s
  { srtt := srtt
    rttvar := rttvar
    rto := min (max (srtt + 4 * rttvar) (1 / 20)) 5
    hasSample := true }

/-- `RTO`, a duration in nanoseconds. -/
def timeout (r : Rtt) : ℤ := ⌊r.rto * second⌋

end Rtt

/-! ## Congestion control -/

/-- The two implementations of `congestion.Controller`. -/
inductive Congestion
  | conservative (cwnd : ℚ)
  | aggressive (dupAckCount : ℕ)
  deriving DecidableEq, Repr

namespace Congestion

def onAck : Congestion → ℕ → Congestion
  | conservative cwnd, acked => conservative (cwnd + acked / cwnd)
  | aggressive _, _ => aggressive 0

def onLoss : Congestion → Congestion
  | conservative cwnd => conservative (max (cwnd * (1 / 2)) 2)
  | aggressive n => aggressive n

def canSend : Congestion → ℤ → Bool
  | conservative cwnd, inFlight => inFlight < ⌊cwnd⌋
  | aggressive _, _ => true

def halvesRTO : Congestion → Bool
  | conservative _ => false
  | aggressive _ => true

end Congestion

/-! ## Packet loss -/

structure LossEntry where
  seq : ℕ
  acked : Bool
  deriving DecidableEq, Repr

/-- `stats.LossTracker`: a ring of the last 100 reliable packets. -/
structure LossTracker where
  entries : Vector LossEntry 100
  head : Fin 100
  count : ℕ
  ackCount : ℤ

namespace LossTracker

def init : LossTracker := ⟨Vector.replicate 100 ⟨0, false⟩, 0, 0, 0⟩

def recordSend (lt : LossTracker) (seq : ℕ) : LossTracker :=
  let overwritten := lt.count = 100 ∧ lt.entries[lt.head].acked
  { entries := lt.entries.set lt.head ⟨seq, false⟩
    head := lt.head + 1
    count := if lt.count < 100 then lt.count + 1 else lt.count
    ackCount := if overwritten then lt.ackCount - 1 else lt.ackCount }

/-- The scan of `RecordAck`, newest entry first, with `k` entries left. -/
def recordAckFrom (lt : LossTracker) (seq : ℕ) : ℕ → Fin 100 → LossTracker
  | 0, _ => lt
  | k + 1, idx =>
      if lt.entries[idx].seq = seq then
        if lt.entries[idx].acked then lt
        else { lt with entries := lt.entries.set idx ⟨seq, true⟩, ackCount := lt.ackCount + 1 }
      else recordAckFrom lt seq k (idx - 1)

def recordAck (lt : LossTracker) (seq : ℕ) : LossTracker :=
  recordAckFrom lt seq lt.count (lt.head - 1)

end LossTracker

end Fastwire
