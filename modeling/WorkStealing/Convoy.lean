import WorkStealing.Deque.Flight

set_option autoImplicit false

/-!
# Convoys

Calls that pile up behind a held lock. While the lock is held each call runs, in the order given,
until it has landed or waits in line. Then the lock is let go and the line is served from its front:
a call runs its locked stage and the free stage after it, and goes to the end of the line if it
needs the lock again.
-/
namespace WorkStealing

structure Waiter where
  seat : Nat
  call : Call
  ticket : Nat
  ahead : Nat
  stage : LockedStage

inductive Passage where
  /-- It is not started: it does not apply, or an owner call waits before it. -/
  | barred
  /-- It landed while the lock was held. -/
  | direct (r : Reply)
  /-- It had to queue, and landed if there is a reply. -/
  | queued (r : Option Reply)

structure Convoy where
  line : List Waiter
  passages : Array Passage
  /-- How often the lock was granted since it was let go. -/
  grants : Nat

namespace Convoy

def empty : Convoy := ⟨[], #[], 0⟩

def hold (s : Site) : Checked Site := do
  let (ticket, foreign) := s.deque.foreign.draw
  require (foreign.serves ticket) .brokenLine
  return s.setForeign foreign

def letGo (s : Site) : Site := s.setForeign s.deque.foreign.release

def bar (c : Convoy) : Convoy := { c with passages := c.passages.push .barred }

def pass (c : Convoy) (r : Reply) : Convoy := { c with passages := c.passages.push (.direct r) }

/-- An owner makes one call at a time, so none of its calls starts while one waits. -/
def blocks (c : Convoy) (call : Call) : Bool := call.isOwner && c.line.any (·.call.isOwner)

def board (c : Convoy) (call : Call) (s : Site) : Checked (Convoy × Site) := do
  if c.blocks call then
    return (c.bar, s)
  else
    match ← call.start s with
    | (.landed r, s) => return (c.pass r, s)
    | (.waiting ticket ahead stage, s) =>
      let waiter : Waiter := { seat := c.passages.size, call, ticket, ahead, stage }
      return ({ c with line := c.line ++ [waiter], passages := c.passages.push (.queued none) }, s)

def boardAll (c : Convoy) (s : Site) : List Call → Checked (Convoy × Site)
  | [] => return (c, s)
  | call :: calls => do
    let (c, s) ← c.board call s
    c.boardAll s calls

def settle (c : Convoy) (seat : Nat) (r : Reply) : Convoy :=
  { c with passages := c.passages.modify seat fun _ => .queued (some r) }

/-- Serves the line until nobody waits, with at most `budget` grants. -/
def serve : Nat → Convoy → Site → Checked (Convoy × Site)
  | budget, c, s =>
    match c.line with
    | [] => return (c, s)
    | w :: line =>
      match budget with
      | 0 => throw .outOfGrants
      | budget + 1 => do
        let c := { c with line, grants := c.grants + 1 }
        match ← w.call.grant w.ticket w.ahead w.stage s with
        | (.reply r, s) => serve budget (c.settle w.seat r) s
        | (.go stage, s) =>
          match ← w.call.advance stage s with
          | (.landed r, s) => serve budget (c.settle w.seat r) s
          | (.waiting ticket ahead stage, s) =>
            serve budget { c with line := line ++ [{ w with ticket, ahead, stage }] } s

def finish (c : Convoy) (s : Site) : Checked (Convoy × Site) :=
  serve (Call.grantBudget c.line.length s.deque.length) c (letGo s)

def run (calls : List Call) (s : Site) : Checked (Convoy × Site) := do
  let s ← hold s
  let (c, s) ← empty.boardAll s calls
  c.finish s

end Convoy

end WorkStealing
