import WorkStealing.Deque.Call

set_option autoImplicit false

/-!
# Free stages

What a call does without the lock. The owner places a unit as long as two slots are free and pops as
long as two slots of the window are left; a stealer only looks whether there is anything to take; a
removal looks for its unit.
-/
namespace WorkStealing

namespace Site

/-- The fast way to place a unit: no stealer can reach the slot at the tail. -/
def place (u : UnitId) (s : Site) : Checked (Next LockedStage × Site) := do
  if s.deque.head ≤ s.deque.tail ∧ s.deque.tail - s.deque.head < s.deque.ring.mask then
    let s ← s.putAtTail u
    return (.reply .stored, s)
  else
    return (.go (.store u), s)

def push (u : UnitId) (s : Site) : Checked (Next LockedStage × Site) := do
  match ← s.units.holder u with
  | some holder =>
    let s ← s.updateUnits (·.release u)
    return (.reply (.refused (.alreadyQueued holder)), s)
  | none =>
    let s := s.attach u
    if s.deque.tail = Word.max then return (.go (.rebase u), s) else s.place u

/-- Pops while `above` slots lie between the head slot and the newest one. A hole is consumed: a
plain pop moves on to the next slot. The head slot is taken off the window, and the lock decides
about it. -/
def popAbove (expected : Option UnitId) : Nat → Site → Checked (Next LockedStage × Site)
  | 0, s => do
    let tail ← Word.sub s.deque.tail 1
    return (.go (.lastSlot expected), s.setTail tail)
  | above + 1, s => do
    let tail ← Word.sub s.deque.tail 1
    match ← (s.setTail tail).grab tail expected with
    | (.taken u, s) => return (.reply (.taken u), s)
    | (.hole, s) =>
      if expected = none then popAbove expected above s else return (.reply .missed, s)
    | (.other, s) => return (.reply .missed, s.setTail (← Word.succ tail))

def popBack (expected : Option UnitId) (s : Site) : Checked (Next LockedStage × Site) :=
  if s.deque.tail ≤ s.deque.head then return (.reply .missed, s)
  else s.popAbove expected (s.deque.tail - s.deque.head - 1)

def peekSteal (s : Site) : Checked (Next LockedStage × Site) :=
  if s.deque.tail ≤ s.deque.head then return (.reply .missed, s) else return (.go .steal, s)

/-- Looks through the newest slots, at most one round of the ring. The owner leaves out the slot at
the tail, which it has looked at before. -/
def scan (side : Side) (u : UnitId) (s : Site) : Checked (Next LockedStage × Site) := do
  let last := if side = .owner then s.deque.tail - 1 else s.deque.tail
  let first := max s.deque.head (last - s.deque.capacity)
  match ← s.deque.ring.findBack u first (last - first) with
  | some index => return (.go (.extract side u index s.deque.generation), s)
  | none => return (.reply .missed, s)

/-- A unit that another pool holds, or none, is not looked for. The owner pops a unit in the newest
slot. -/
def remove (side : Side) (u : UnitId) (s : Site) : Checked (Next LockedStage × Site) := do
  if (← s.units.holder u) ≠ some s.deque.id then
    return (.reply .missed, s)
  else
    match side with
    | .foreign => s.scan .foreign u
    | .owner =>
      if s.deque.tail ≤ s.deque.head then
        return (.reply .missed, s)
      else
        let newest ← Word.sub s.deque.tail 1
        if (← s.deque.ring.read newest) = some u then s.popBack (some u) else s.scan .owner u

end Site

def FreeStage.run : FreeStage → Site → Checked (Next LockedStage × Site)
  | .push u, s => s.push u
  | .place u, s => s.place u
  | .popBack expected, s => s.popBack expected
  | .steal, s => s.peekSteal
  | .remove side u, s => s.remove side u
  | .scan side u, s => s.scan side u

end WorkStealing
