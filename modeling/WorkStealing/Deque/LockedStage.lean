import WorkStealing.Deque.Call

set_option autoImplicit false

/-!
# Locked stages

What a call does while it holds the lock. Between its free stage and the lock anything may have
happened: stealers may have made room, the ring may have grown, the last unit may be gone.
-/
namespace WorkStealing

namespace Site

/-- Places a unit where the window ends, in a larger ring if it would fill this one. -/
def storeLocked (u : UnitId) (s : Site) : Checked (Next FreeStage × Site) := do
  require (s.deque.head ≤ s.deque.tail) .headPastTail
  let count ← Word.sub s.deque.tail s.deque.head
  if count < s.deque.ring.mask then
    let s ← s.putAtTail u
    return (.reply .stored, s)
  else
    match ← s.grow count with
    | (none, s) =>
      let s ← s.putAtTail u
      return (.reply .stored, s)
    | (some e, s) =>
      let s ← s.updateUnits (·.detach u)
      let s ← s.updateUnits (·.release u)
      return (.reply (.refused e), s)

/-- The owner has lowered the tail onto the head slot. It gets the slot back if a stealer has passed
it, and goes on if the slot is a hole. -/
def lastSlot (expected : Option UnitId) (s : Site) : Checked (Next FreeStage × Site) := do
  let tail := s.deque.tail
  if tail < s.deque.head then
    return (.reply .missed, s.setTail (← Word.succ tail))
  else
    match ← s.grab tail expected with
    | (.taken u, s) => return (.reply (.taken u), s)
    | (.hole, s) =>
      if expected = none then return (.go (.popBack none), s) else return (.reply .missed, s)
    | (.other, s) => return (.reply .missed, s.setTail (← Word.succ tail))

/-- Takes the oldest slot. A hole is consumed, and the stealer tries again. -/
def stealLocked (s : Site) : Checked (Next FreeStage × Site) := do
  let head := s.deque.head
  if s.deque.tail ≤ head then
    return (.reply .missed, s)
  else
    let next ← Word.succ head
    match ← (s.setHead next).grab head none with
    | (.taken u, s) => return (.reply (.taken u), s)
    | (_, s) => return (.go .steal, s)

/-- Takes the unit where the scan saw it, unless the ring was replaced since then. -/
def extract (side : Side) (u : UnitId) (index generation : Nat) (s : Site) :
    Checked (Next FreeStage × Site) := do
  if s.deque.generation ≠ generation then
    return (.go (.scan side u), s)
  else
    match ← s.grab index (some u) with
    | (.taken u, s) =>
      let s ← s.settleHead index
      return (.reply (.taken u), s)
    | (_, s) => return (.reply .missed, s)

end Site

def LockedStage.run : LockedStage → Site → Checked (Next FreeStage × Site)
  | .rebase u, s => do
    let s ← s.rebase
    return (.go (.place u), s)
  | .store u, s => s.storeLocked u
  | .lastSlot expected, s => s.lastSlot expected
  | .steal, s => s.stealLocked
  | .extract side u index generation, s => s.extract side u index generation

end WorkStealing
