import WorkStealing.Binary64
import WorkStealing.Text.Outline
import WorkStealing.Text.Quoted

set_option autoImplicit false

/-!
# Metrics snapshots

The counters of a pool at one point in time, and what follows from them.
-/
namespace WorkStealing

open Text (Outline)

structure MetricsSnapshot where
  pushes : Nat
  localPops : Nat
  steals : Nat
  stealMisses : Nat
  removes : Nat
  removeMisses : Nat
  resizes : Nat
  rebases : Nat
  contendedLocks : Nat
  p99LockWait : Nat
  maxLockWait : Nat
  deriving DecidableEq

namespace MetricsSnapshot

def extracted (s : MetricsSnapshot) : Nat := s.localPops + s.steals + s.removes

/-- The bits of the double that says which part of the steal attempts came back empty. Both numbers
are doubles before they are divided; without attempts the ratio is zero. -/
def stealMissRatioBits (s : MetricsSnapshot) : UInt64 :=
  if s.stealMisses = 0 then 0
  else
    Binary64.quotientBits (Binary64.roundNat s.stealMisses)
      (Binary64.roundNat (s.steals + s.stealMisses))

def bitsText (bits : UInt64) : String :=
  let digits := Text.hexDigits bits.toNat
  "".pushn '0' (16 - digits.length) ++ digits

def fields (s : MetricsSnapshot) : List (String × Nat) :=
  [("pushes", s.pushes), ("local_pops", s.localPops), ("steals", s.steals),
   ("steal_misses", s.stealMisses), ("removes", s.removes), ("remove_misses", s.removeMisses),
   ("resizes", s.resizes), ("rebases", s.rebases), ("contended_locks", s.contendedLocks),
   ("p99_lock_wait", s.p99LockWait), ("max_lock_wait", s.maxLockWait)]

def outline (s : MetricsSnapshot) : Outline :=
  .record "PoolMetricsSnapshot" (s.fields.map fun f => (f.1, .nat f.2))

end MetricsSnapshot

end WorkStealing
