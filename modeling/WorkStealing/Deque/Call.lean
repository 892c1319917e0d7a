import WorkStealing.Deque.Site

set_option autoImplicit false

/-!
# Calls

What is asked of a pool, and what it answers. A call runs in free stages, which need no lock, and in
locked stages, which run while the call holds the pool's lock. A stage ends with the answer or with
the stage that follows it.
-/
namespace WorkStealing

inductive Side where
  | owner
  | foreign
  deriving DecidableEq

inductive Call where
  | push (u : UnitId)
  | pop
  | steal
  | remove (side : Side) (u : UnitId)
  deriving DecidableEq

inductive Reply where
  | stored
  | refused (error : PoolError)
  | taken (u : UnitId)
  | missed
  deriving DecidableEq

/-- A stretch of a call that runs without the lock. -/
inductive FreeStage where
  | push (u : UnitId)
  | place (u : UnitId)
  /-- Take the newest unit, or only the expected one if the newest slot holds it. -/
  | popBack (expected : Option UnitId)
  | steal
  | remove (side : Side) (u : UnitId)
  | scan (side : Side) (u : UnitId)
  deriving DecidableEq

/-- A stretch of a call that runs while it holds the lock. -/
inductive LockedStage where
  | rebase (u : UnitId)
  | store (u : UnitId)
  /-- Settle who gets the last slot, which the owner has taken off the window. -/
  | lastSlot (expected : Option UnitId)
  | steal
  /-- Take the unit out of the slot where a scan of the ring of that generation saw it. -/
  | extract (side : Side) (u : UnitId) (index generation : Nat)
  deriving DecidableEq

inductive Next (α : Type) where
  | reply (r : Reply)
  | go (stage : α)

namespace Call

def isOwner : Call → Bool
  | .push _ => true
  | .pop => true
  | .steal => false
  | .remove side _ => side = .owner

def tally? : Call → Reply → Option Tally
  | .push _, .stored => some .push
  | .pop, .taken _ => some .pop
  | .steal, .taken _ => some .steal
  | .steal, .missed => some .stealMiss
  | .remove _ _, .taken _ => some .remove
  | .remove _ _, .missed => some .removeMiss
  | _, _ => none

def launch (call : Call) (s : Site) : Checked (FreeStage × Site) :=
  match call with
  | .push u => do
    let s ← s.updateUnits (·.retain u)
    return (.push u, s)
  | .pop => return (.popBack none, s)
  | .steal => return (.steal, s)
  | .remove side u => return (.remove side u, s)

/-- The end of a call: it is counted, and the caller lets go of a unit that it got. -/
def conclude (call : Call) (r : Reply) (s : Site) : Checked Site := do
  let s := match call.tally? r with
    | some t => s.tally t
    | none => s
  match r with
  | .taken u => s.updateUnits (·.release u)
  | _ => return s

end Call

end WorkStealing
