import WorkStealing.TicketLock

set_option autoImplicit false

/-!
# Crowds at a ticket lock

Any number of threads use one lock, in any order of their steps. A thread draws a ticket and looks
at the serving counter until its ticket is shown, or takes the lock if it is free; the holder gives
it back. A step that does not apply to its thread changes nothing. A holder that asks for the lock
again counts as another thread.
-/
namespace WorkStealing

inductive LockStand where
  | away
  /-- With a ticket, after looking `waited` times in vain. -/
  | waiting (ticket waited : UInt32)
  /-- With the guard, which shows how often it was waited for. -/
  | holding (waited : UInt32)
  deriving DecidableEq

inductive LockMove where
  | draw
  | look
  | tryLock
  | release
  deriving DecidableEq

structure Crowd (α : Type) where
  lock : TicketLock UInt32 α
  stands : List LockStand
  /-- The tickets with the threads that drew them, in the order of the draws. -/
  drawn : List (Nat × UInt32)
  /-- The tickets that the lock was granted to, in that order. -/
  granted : List (Nat × UInt32)

namespace LockStand

/-- The count of the rounds stays at its greatest value. -/
def oneMore (waited : UInt32) : UInt32 := if waited + 1 = 0 then waited else waited + 1

end LockStand

namespace Crowd

variable {α : Type}

/-- Threads without tickets around a free lock whose counters stand at `ticket`. -/
def gather (ticket : UInt32) (threads : Nat) (contents : α) : Crowd α where
  lock := .startingAt ticket contents
  stands := List.replicate threads .away
  drawn := []
  granted := []

def setStand (c : Crowd α) (t : Nat) (stand : LockStand) : Crowd α :=
  { c with stands := c.stands.set t stand }

def draw (c : Crowd α) (t : Nat) : Crowd α :=
  let (ticket, lock) := c.lock.draw
  { c with lock, drawn := c.drawn ++ [(t, ticket)] }.setStand t (.waiting ticket 0)

def look (c : Crowd α) (t : Nat) (ticket waited : UInt32) : Crowd α :=
  if c.lock.serves ticket then
    { c with granted := c.granted ++ [(t, ticket)] }.setStand t (.holding waited)
  else c.setStand t (.waiting ticket (LockStand.oneMore waited))

def tryLock (c : Crowd α) (t : Nat) : Crowd α :=
  match c.lock.tryLock with
  | some lock =>
    { c with
      lock
      drawn := c.drawn ++ [(t, c.lock.nowServing)]
      granted := c.granted ++ [(t, c.lock.nowServing)] }.setStand t (.holding 0)
  | none => c

def release (c : Crowd α) (t : Nat) : Crowd α :=
  { c with lock := c.lock.release }.setStand t .away

def step (c : Crowd α) (t : Nat) (move : LockMove) : Crowd α :=
  match c.stands[t]?, move with
  | some .away, .draw => c.draw t
  | some .away, .tryLock => c.tryLock t
  | some (.waiting ticket waited), .look => c.look t ticket waited
  | some (.holding _), .release => c.release t
  | _, _ => c

def run (c : Crowd α) : List (Nat × LockMove) → Crowd α
  | [] => c
  | (t, move) :: schedule => (c.step t move).run schedule

def outstanding (c : Crowd α) : Nat := c.stands.countP (· ≠ .away)

end Crowd

end WorkStealing
