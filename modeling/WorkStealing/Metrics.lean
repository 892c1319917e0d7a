import WorkStealing.Metrics.Histogram
import WorkStealing.Metrics.Snapshot

set_option autoImplicit false

/-!
# Pool metrics

Eight counters and a histogram of lock waits. Nothing in a pool reads them back.
-/
namespace WorkStealing

inductive Tally where
  | push
  | pop
  | steal
  | stealMiss
  | remove
  | removeMiss
  | resize
  | rebase
  deriving DecidableEq

structure Metrics (W : Type) where
  pushes : Nat
  localPops : Nat
  steals : Nat
  stealMisses : Nat
  removes : Nat
  removeMisses : Nat
  resizes : Nat
  rebases : Nat
  lockWaits : W
  deriving DecidableEq

namespace Metrics

variable {W : Type}

def count (m : Metrics W) : Tally → Nat
  | .push => m.pushes
  | .pop => m.localPops
  | .steal => m.steals
  | .stealMiss => m.stealMisses
  | .remove => m.removes
  | .removeMiss => m.removeMisses
  | .resize => m.resizes
  | .rebase => m.rebases

def add (m : Metrics W) (n : Nat) : Tally → Metrics W
  | .push => { m with pushes := m.pushes + n }
  | .pop => { m with localPops := m.localPops + n }
  | .steal => { m with steals := m.steals + n }
  | .stealMiss => { m with stealMisses := m.stealMisses + n }
  | .remove => { m with removes := m.removes + n }
  | .removeMiss => { m with removeMisses := m.removeMisses + n }
  | .resize => { m with resizes := m.resizes + n }
  | .rebase => { m with rebases := m.rebases + n }

section Histogram

variable [Histogram W]

def new : Metrics W := ⟨0, 0, 0, 0, 0, 0, 0, 0, Histogram.empty⟩

def reset (m : Metrics W) : Metrics W :=
  ⟨0, 0, 0, 0, 0, 0, 0, 0, Histogram.reset m.lockWaits⟩

def addLockWait (m : Metrics W) (rounds times : Nat) : Metrics W :=
  if rounds = 0 then m
  else { m with lockWaits := Histogram.record m.lockWaits rounds times }

def snapshot (m : Metrics W) : MetricsSnapshot where
  pushes := m.pushes
  localPops := m.localPops
  steals := m.steals
  stealMisses := m.stealMisses
  removes := m.removes
  removeMisses := m.removeMisses
  resizes := m.resizes
  rebases := m.rebases
  contendedLocks := Histogram.total m.lockWaits
  p99LockWait := Histogram.p99 m.lockWaits
  maxLockWait := Histogram.max m.lockWaits

theorem count_addLockWait (m : Metrics W) (rounds times : Nat) (t : Tally) :
    (m.addLockWait rounds times).count t = m.count t := by
  unfold addLockWait
  split
  · rfl
  · cases t <;> rfl

end Histogram

theorem count_add (m : Metrics W) (n : Nat) (s t : Tally) :
    (m.add n s).count t = m.count t + if s = t then n else 0 := by
  cases s <;> cases t <;> rfl

theorem lockWaits_add (m : Metrics W) (n : Nat) (t : Tally) :
    (m.add n t).lockWaits = m.lockWaits := by
  cases t <;> rfl

end Metrics

inductive MetricsOp where
  | tally (tally : Tally) (times : Nat)
  | lockWait (rounds : UInt32) (times : Nat)
  | reset
  | snapshot

namespace Metrics

variable {W : Type} [Histogram W]

def apply (m : Metrics W) : MetricsOp → Metrics W
  | .tally t times => m.add times t
  | .lockWait rounds times => m.addLockWait rounds.toNat times
  | .reset => m.reset
  | .snapshot => m

/-- The snapshots taken during a run. Without telemetry nothing is recorded. -/
def snapshots (telemetry : Bool) (m : Metrics W) : List MetricsOp → List MetricsSnapshot
  | [] => []
  | .snapshot :: ops => m.snapshot :: snapshots telemetry m ops
  | op :: ops => snapshots telemetry (if telemetry then m.apply op else m) ops

end Metrics

end WorkStealing
