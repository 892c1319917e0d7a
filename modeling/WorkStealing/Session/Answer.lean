import WorkStealing.PoolAccess
import WorkStealing.Session.World

set_option autoImplicit false

/-!
# Session answers

What a step of a session answers.
-/
namespace WorkStealing

open Text (Outline)

structure NamedUnit where
  id : UnitId
  kind : UnitKind
  deriving DecidableEq

def NamedUnit.label (u : NamedUnit) : String :=
  "u" ++ toString u.id.number ++ ":" ++ u.kind.type.word ++ ":" ++ toString u.kind.raw.toNat

inductive Place where
  | outside
  | inPool (p : PoolId)
  | cleared
  deriving DecidableEq

structure PoolInfo where
  id : PoolId
  name : Option String
  access : PoolAccess
  length : Nat
  capacity : Nat
  outline : Outline

inductive Got where
  | ok
  | error (e : PoolError)
  | unit (u : Option NamedUnit)

inductive CallResult where
  /-- The call is not made. -/
  | refused
  | made (got : Got) (queued : Bool)

inductive Answer where
  /-- The step does not apply. -/
  | refused
  | number (n : Nat)
  | ok
  | flag (b : Bool)
  | error (e : PoolError)
  | opened (p : PoolId)
  | unit (u : Option NamedUnit)
  | units (us : List (Option NamedUnit))
  | failures (es : List PoolError)
  | unitInfo (entry : UnitEntry)
  | places (ps : List Place)
  | info (i : PoolInfo)
  | comparison (o : Ordering)
  | metrics (m : MetricsSnapshot)
  | convoy (results : List CallResult)

/-- The answer of a step, the size of the pool it was about, and what was logged meanwhile. -/
structure StepReport where
  answer : Answer
  size : Option (Nat × Nat)
  events : Array Event

end WorkStealing
