import WorkStealing.Event
import WorkStealing.Metrics
import WorkStealing.Metrics.LockWaits
import WorkStealing.Ring
import WorkStealing.TicketLock

set_option autoImplicit false

/-!
# Deque pools

A pool is a ring of slots and two counters: the slots from `head` to `tail` are its window, in which
a slot without a unit is a hole. The owner works at the tail; everybody else takes from the head,
under a ticket lock. The lock also keeps the rings that growth has replaced.
-/
namespace WorkStealing

open Text (Outline quoted)

structure Deque where
  id : PoolId
  name : Option String
  head : Nat
  tail : Nat
  ring : Ring
  /-- The lock of the head side, around the replaced rings, newest first. Its tickets are natural
  numbers, since any number of calls may wait. -/
  foreign : TicketLock Nat (List Ring)
  metrics : Metrics LockWaits

namespace Deque

/-- The slots of the window, holes included. -/
def length (d : Deque) : Nat := d.tail - d.head

def isEmpty (d : Deque) : Bool := d.length == 0

def capacity (d : Deque) : Nat := d.ring.capacity

/-- How many rings growth has replaced. It tells one ring of the pool from the next. -/
def generation (d : Deque) : Nat := d.foreign.contents.length

def window (d : Deque) : List (Option UnitId) := d.ring.cells d.head d.length

def queued (d : Deque) : List UnitId := d.window.filterMap fun c => c

def holes (d : Deque) : Nat := d.window.count none

def create (limit : Option Nat) (config : PoolConfig) (start : Nat) (id : PoolId) :
    Checked (Except PoolError Deque) := do
  match ← Ring.allocate limit config.initialCapacity with
  | .error e => return .error e
  | .ok ring =>
    return .ok
      { id, name := config.name, head := start, tail := start, ring, foreign := .startingAt 0 [],
        metrics := .new }

def ownerOutline (d : Deque) : Outline :=
  .record "Worker"
    [("id", d.id.outline), ("name", .option (.atom ∘ quoted) d.name), ("len", .nat d.length),
     ("capacity", .nat d.capacity)]

def stealerOutline (d : Deque) : Outline :=
  .record "Stealer" [("id", d.id.outline), ("len", .nat d.length)]

theorem length_window (d : Deque) : d.window.length = d.length := d.ring.length_cells _ _

end Deque

end WorkStealing
