import WorkStealing.TicketLock

set_option autoImplicit false

/-!
# Lock scripts

A script works on one ticket lock around a list of integers and may hold its guard. Each step has an
answer; a step that needs the guard when it is not held, or the other way round, is refused and
changes nothing. A step that applies but whose numbers are unreadable spoils the whole script
(`isValid`).
-/
namespace WorkStealing

inductive LockOp where
  | lock
  | tryLock
  | unlock
  | push (n : Int)
  | read
  | guard
  /-- Append without taking the lock, which only the sole user of a free lock can do. -/
  | appendFree (n : Int)
  /-- `count` threads queue up behind the guard; the one in place `i` appends `base + i`. -/
  | waiters (count : Nat) (base : Int)
  /-- A step whose numbers are unreadable, and whether it is one for the holder of the guard. -/
  | unreadable (onGuard : Bool)
  | unknown

inductive LockAnswer where
  | refused
  /-- The step applies, but its numbers are unreadable. -/
  | unreadable
  | flag (b : Bool)
  | length (n : Nat)
  | contents (values : List Int)
  | guard (waited : UInt32)
  | waiters (queue : List UInt32) (tryRefused : Bool)

abbrev ListLock := TicketLock UInt32 (List Int)

structure LockScript where
  lock : ListLock
  guarded : Bool

namespace LockScript

def start (ticket : UInt32) : LockScript := ⟨.startingAt ticket [], false⟩

/-- The counters start at zero. Only with the test entry points can a script choose another ticket.
-/
def startWith? (hooks : Bool) (ticket : Option UInt32) : Option LockScript :=
  if ticket.isSome && !hooks then none else some (start (ticket.getD 0))

def append (n : Int) (l : ListLock) : ListLock := l.modify (· ++ [n])

structure Waiter where
  ticket : UInt32
  value : Int

/-- Lets `count` threads draw tickets; gives the line, the queue length after each, and the lock. -/
def lineUp (lock : ListLock) (base : Int) : Nat → List Waiter × List UInt32 × ListLock
  | 0 => ([], [], lock)
  | count + 1 =>
    let (line, lengths, lock) := lineUp lock base count
    let (ticket, lock) := lock.draw
    (line ++ [⟨ticket, base + count⟩], lengths ++ [lock.queueLength], lock)

/-- Serves a line from its front. A waiter whose turn has not come holds up everyone behind it. -/
def serve (lock : ListLock) : List Waiter → ListLock
  | [] => lock
  | w :: line => if lock.serves w.ticket then serve (append w.value lock).release line else lock

def step (s : LockScript) : LockOp → LockAnswer × LockScript
  | .lock => if s.guarded then (.refused, s) else (.flag true, ⟨s.lock.draw.2, true⟩)
  | .tryLock =>
    match s.lock.tryLock with
    | some lock => (.flag true, ⟨lock, true⟩)
    | none => (.flag false, s)
  | .unlock => if s.guarded then (.flag true, ⟨s.lock.release, false⟩) else (.refused, s)
  | .push n =>
    if s.guarded then
      let lock := append n s.lock
      (.length lock.contents.length, ⟨lock, true⟩)
    else (.refused, s)
  | .read => if s.guarded then (.contents s.lock.contents, s) else (.refused, s)
  | .guard => if s.guarded then (.guard 0, s) else (.refused, s)
  | .appendFree n => if s.guarded then (.refused, s) else (.flag true, ⟨append n s.lock, false⟩)
  | .waiters count base =>
    if s.guarded then
      let (line, lengths, lock) := lineUp s.lock base count
      (.waiters lengths lock.tryLock.isNone, ⟨serve lock.release line, false⟩)
    else (.refused, s)
  | .unreadable onGuard => (if s.guarded = onGuard then .unreadable else .refused, s)
  | .unknown => (.refused, s)

/-- Each answer with the lock as the step left it, and the script at its end. -/
def run (s : LockScript) : List LockOp → List (LockAnswer × ListLock) × LockScript
  | [] => ([], s)
  | op :: ops =>
    let (answer, s) := s.step op
    let (answers, s') := run s ops
    ((answer, s.lock) :: answers, s')

def isValid (answers : List (LockAnswer × ListLock)) : Bool :=
  !answers.any (·.1 matches .unreadable)

end LockScript

end WorkStealing
