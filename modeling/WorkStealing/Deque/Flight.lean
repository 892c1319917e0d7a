import WorkStealing.Deque.FreeStage
import WorkStealing.Deque.LockedStage

set_option autoImplicit false

/-!
# Calls in flight

A call alternates between free stages and waiting for the lock. `Call.advance` runs one free stage,
at the end of which the call has landed or has drawn a ticket; `Call.grant` runs one locked stage of
the call whose turn it is. `Call.fly` goes on until the call has landed or waits behind somebody,
and `Call.perform` is a call that nobody disturbs.
-/
namespace WorkStealing

inductive Flight where
  | landed (r : Reply)
  /-- In line for the lock; `ahead` tickets were to be served first. -/
  | waiting (ticket ahead : Nat) (stage : LockedStage)

namespace Call

def advance (call : Call) (stage : FreeStage) (s : Site) : Checked (Flight × Site) := do
  match ← stage.run s with
  | (.reply r, s) => return (.landed r, ← call.conclude r s)
  | (.go locked, s) =>
    let (ticket, foreign) := s.deque.foreign.draw
    return (.waiting ticket (foreign.ahead ticket) locked, s.setForeign foreign)

def grant (call : Call) (ticket ahead : Nat) (stage : LockedStage) (s : Site) :
    Checked (Next FreeStage × Site) := do
  require (s.deque.foreign.serves ticket) .brokenLine
  let (next, s) ← stage.run (s.noteWait ahead)
  let s := s.setForeign s.deque.foreign.release
  match next with
  | .reply r => return (.reply r, ← call.conclude r s)
  | .go stage => return (.go stage, s)

/-- Runs until the call has landed or waits behind somebody, with at most `grants` locked stages. -/
def fly (call : Call) (grants : Nat) (stage : FreeStage) (s : Site) : Checked (Flight × Site) := do
  match ← call.advance stage s with
  | (.landed r, s) => return (.landed r, s)
  | (.waiting ticket ahead locked, s) =>
    if s.deque.foreign.serves ticket then
      match grants with
      | 0 => throw .outOfGrants
      | grants + 1 =>
        match ← call.grant ticket ahead locked s with
        | (.reply r, s) => return (.landed r, s)
        | (.go stage, s) => call.fly grants stage s
    else
      return (.waiting ticket ahead locked, s)

/-- Enough grants for `calls` calls on a window of `length` slots: each grant ends a call, brings
the counters back once, consumes a slot, or repeats a scan after growth. -/
def grantBudget (calls length : Nat) : Nat := length + (calls + 2) * (calls + 2)

def start (call : Call) (s : Site) : Checked (Flight × Site) := do
  let (stage, s) ← call.launch s
  call.fly (grantBudget 1 s.deque.length) stage s

def perform (call : Call) (s : Site) : Checked (Reply × Site) := do
  match ← call.start s with
  | (.landed r, s) => return (r, s)
  | (.waiting _ _ _, _) => throw .brokenLine

end Call

end WorkStealing
