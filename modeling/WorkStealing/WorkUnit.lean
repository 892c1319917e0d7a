import WorkStealing.Distinct
import WorkStealing.PoolId

set_option autoImplicit false

/-!
# Work units

A unit wraps the handle of a user-level thread or of a one-shot task and remembers the pool that
holds it. Handles are opaque: the raw number serves to print and to order them and nothing else.
-/
namespace WorkStealing

open Text (Outline)

inductive UnitType where
  | thread
  | task
  deriving DecidableEq

namespace UnitType

def name : UnitType → String
  | .thread => "Thread"
  | .task => "Task"

def handleName (t : UnitType) : String := t.name ++ "Handle"

def word : UnitType → String
  | .thread => "thread"
  | .task => "task"

end UnitType

structure Handle (t : UnitType) where
  raw : UInt64
  deriving DecidableEq

abbrev ThreadHandle := Handle .thread

abbrev TaskHandle := Handle .task

namespace Handle

variable {t : UnitType}

instance : Ord (Handle t) := ⟨fun h k => compare h.raw k.raw⟩

def outline (h : Handle t) : Outline := .tuple t.handleName [.nat h.raw.toNat]

def comparisons : List (Handle t) → List Ordering
  | h :: k :: rest => compare h k :: comparisons (k :: rest)
  | _ => []

def sorted (hs : List (Handle t)) : List (Handle t) := hs.mergeSort fun h k => h.raw ≤ k.raw

def distinct (hs : List (Handle t)) : Nat := WorkStealing.distinct (hs.map fun h => h.raw.toNat)

end Handle

inductive UnitKind where
  | thread (handle : ThreadHandle)
  | task (handle : TaskHandle)
  deriving DecidableEq

namespace UnitKind

def ofRaw : UnitType → UInt64 → UnitKind
  | .thread, raw => .thread ⟨raw⟩
  | .task, raw => .task ⟨raw⟩

def type : UnitKind → UnitType
  | .thread _ => .thread
  | .task _ => .task

def raw : UnitKind → UInt64
  | .thread h => h.raw
  | .task h => h.raw

def thread? : UnitKind → Option ThreadHandle
  | .thread h => some h
  | .task _ => none

def task? : UnitKind → Option TaskHandle
  | .thread _ => none
  | .task h => some h

def outline : UnitKind → Outline
  | .thread h => .tuple "Thread" [h.outline]
  | .task h => .tuple "Task" [h.outline]

end UnitKind

structure WorkUnit where
  kind : UnitKind
  pool : Option PoolId

namespace WorkUnit

def new (kind : UnitKind) : WorkUnit := ⟨kind, none⟩

def isInPool (u : WorkUnit) : Bool := u.pool.isSome

def outline (u : WorkUnit) : Outline :=
  .record "Unit" [("kind", u.kind.outline), ("pool", .option PoolId.outline u.pool)]

end WorkUnit

end WorkStealing
