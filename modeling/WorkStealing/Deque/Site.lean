import WorkStealing.Deque

set_option autoImplicit false

/-!
# A pool among its surroundings

What pools share (the unit table, the allocation limit, the log and whether anything is counted) is
a `Context`; one pool in its context is a `Site`. The elementary changes of a site are defined here:
reporting, counting, taking the content of a slot, growing, and settling the head.
-/
namespace WorkStealing

structure Context where
  units : UnitTable
  /-- Rings of more slots than this cannot be allocated. -/
  limit : Option Nat
  telemetry : Bool
  log : Array Event

structure Site extends Context where
  deque : Deque

inductive Grab where
  | taken (u : UnitId)
  | hole
  | other
  deriving DecidableEq

namespace Site

def emit (s : Site) (e : Event) : Site := { s with log := s.log.push e }

def setHead (s : Site) (head : Nat) : Site := { s with deque := { s.deque with head } }

def setTail (s : Site) (tail : Nat) : Site := { s with deque := { s.deque with tail } }

def setUnits (s : Site) (units : UnitTable) : Site := { s with units }

def updateUnits (s : Site) (f : UnitTable → Checked UnitTable) : Checked Site := do
  let units ← f s.units
  return { s with units }

def setForeign (s : Site) (foreign : TicketLock Nat (List Ring)) : Site :=
  { s with deque := { s.deque with foreign } }

def tally (s : Site) (t : Tally) : Site :=
  if s.telemetry then
    { s with deque := { s.deque with metrics := s.deque.metrics.add 1 t } }
  else s

def noteWait (s : Site) (rounds : Nat) : Site :=
  if s.telemetry then
    { s with deque := { s.deque with metrics := s.deque.metrics.addLockWait rounds 1 } }
  else s

def attach (s : Site) (u : UnitId) : Site := { s with units := s.units.attach u s.deque.id }

def resetMetrics (s : Site) : Site :=
  { s with deque := { s.deque with metrics := s.deque.metrics.reset } }

def putAtTail (s : Site) (u : UnitId) : Checked Site := do
  let tail := s.deque.tail
  let next ← Word.succ tail
  let ring ← s.deque.ring.write tail (some u)
  return { s with deque := { s.deque with ring, tail := next } }

/-- Empties the slot of `index` and detaches the unit in it. With `expected` only that unit is
taken. -/
def grab (s : Site) (index : Nat) (expected : Option UnitId) : Checked (Grab × Site) := do
  match ← s.deque.ring.read index with
  | none => return (.hole, s)
  | some u =>
    if expected = none ∨ expected = some u then
      let ring ← s.deque.ring.write index none
      let units ← s.units.detach u
      return (.taken u, { s with units, deque := { s.deque with ring } })
    else
      return (.other, s)

/-- Replaces the ring by one of twice the size, which holds the `count` slots of the window from
position zero on. If it cannot be allocated the pool stays as it is. -/
def grow (s : Site) (count : Nat) : Checked (Option PoolError × Site) := do
  let d := s.deque
  match ← d.ring.grow s.limit d.head count with
  | .error e => return (some e, s.emit (.growthFailed d.id d.capacity e))
  | .ok growth =>
    let s := s.emit (.grew d.id d.name d.capacity growth.grown.capacity count)
    let foreign := s.deque.foreign.modify (growth.emptied :: ·)
    let s := { s with
      deque := { s.deque with ring := growth.grown, foreign, head := 0, tail := count } }
    return (none, s.tally .resize)

/-- Brings both counters below the capacity. Indices keep their slots, since the capacity divides
the number of machine words. -/
def rebase (s : Site) : Checked Site := do
  let head := s.deque.ring.position s.deque.head
  let tail := s.deque.ring.position s.deque.tail
  require (head ≤ tail) .headPastTail
  let s := (s.setHead head).setTail tail
  return (s.tally .rebase).emit (.rebased s.deque.id head tail)

/-- After the slot of `index` was emptied: moves the head past it if it stood there, unless the
owner has come down to it. -/
def settleHead (s : Site) (index : Nat) : Checked Site := do
  if s.deque.head = index then
    let next ← Word.succ index
    return if index < s.deque.tail then s.setHead next else s
  else
    return s

end Site

end WorkStealing
