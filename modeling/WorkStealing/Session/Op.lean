import WorkStealing.Session.World

set_option autoImplicit false

/-!
# Session steps

What one step of a session asks for. Handles are named by numbers that the session chooses, units by
the order of their creation.
-/
namespace WorkStealing

inductive BoardingCall where
  | steal (handle : Nat)
  | pop (handle : Nat)
  | push (handle : Nat) (u : UnitId)
  | remove (handle : Nat) (u : UnitId)
  /-- A call that is not understood, with the handle it names, if any. -/
  | unknown (handle : Option Nat)

namespace BoardingCall

def handle? : BoardingCall → Option Nat
  | .steal h | .pop h | .push h _ | .remove h _ => some h
  | .unknown h => h

def unit? : BoardingCall → Option UnitId
  | .push _ u | .remove _ u => some u
  | .steal _ | .pop _ | .unknown _ => none

end BoardingCall

inductive Op where
  | createUnit (kind : UnitKind)
  | unitInfo (u : UnitId)
  | whereabouts
  | clearUnit (u : UnitId)
  /-- Open a pool; what is left out is as in the default configuration. -/
  | new (handle : Nat) (capacity : Option Nat) (name : Option String)
  /-- Open a pool whose counters stand at `start`. -/
  | newAt (handle : Nat) (capacity : Option Nat) (start : UInt64)
  /-- Let rings of more slots fail to allocate, but not for the calls of a convoy. -/
  | limit (slots : Option Nat)
  | stealer (handle owner : Nat)
  | clone (handle stealer : Nat)
  | drop (handle : Nat)
  | push (handle : Nat) (u : UnitId)
  | pushNew (handle : Nat) (kind : UnitKind)
  /-- Push `times` new units with raw numbers from `first` on, wrapping with the word. -/
  | pushMany (handle : Nat) (type : UnitType) (first : UInt64) (times : Nat)
  | pop (handle : Nat)
  | steal (handle : Nat)
  | remove (handle : Nat) (u : UnitId)
  | popMany (handle times : Nat)
  | stealMany (handle times : Nat)
  | popAll (handle : Nat)
  | stealAll (handle : Nat)
  | info (handle : Nat)
  | compareIds (first second : Nat)
  | samePool (stealer owner : Nat)
  | metrics (handle : Nat)
  | resetMetrics (handle : Nat)
  | convoy (handle : Nat) (calls : List BoardingCall)
  /-- A step that is not understood, with the handle it names, if any. -/
  | unknown (handle : Option Nat)

namespace Op

/-- The handle behind whose pool the size is reported after the step. -/
def subject? : Op → Option Nat
  | .createUnit _ | .unitInfo _ | .whereabouts | .clearUnit _ | .limit _ => none
  | .new h _ _ | .newAt h _ _ | .stealer h _ | .clone h _ | .drop h | .push h _ | .pushNew h _
  | .pushMany h _ _ _ | .pop h | .steal h | .remove h _ | .popMany h _ | .stealMany h _ | .popAll h
  | .stealAll h | .info h | .compareIds h _ | .samePool h _ | .metrics h | .resetMetrics h
  | .convoy h _ => some h
  | .unknown h => h

/-- Whether the step uses an entry point for tests. -/
def needsHooks : Op → Bool
  | .newAt .. | .limit _ | .convoy .. => true
  | _ => false

end Op

end WorkStealing
