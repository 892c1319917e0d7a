import WorkStealing.Deque.Flight
import WorkStealing.Deque.Lifetime

set_option autoImplicit false

/-!
# The world of a session

Pools, the handles on them, and what the pools share. A pool lives as long as one of its handles: at
most one owner handle and any number of stealers. `World.visit` is the only way to change a pool.
-/
namespace WorkStealing

/-- A handle on a pool, of its owner or of a stealer. -/
structure PoolHandle where
  side : Side
  pool : PoolId
  deriving DecidableEq

structure World extends Context where
  hooks : Bool
  /-- Pools in the order of their identifiers; `none` for a pool that has ended. -/
  pools : Array (Option Deque)
  /-- Live handles under the numbers chosen for them. -/
  handles : List (Nat × PoolHandle)

namespace World

def start (telemetry hooks : Bool) : World where
  units := .empty
  limit := none
  telemetry := telemetry
  log := #[]
  hooks := hooks
  pools := #[]
  handles := []

def pool? (w : World) (p : PoolId) : Option Deque := (w.pools[p.index]?).getD none

def handle? (w : World) (h : Nat) : Option PoolHandle := w.handles.lookup h

def owned? (w : World) (h : Nat) : Option PoolId :=
  match w.handle? h with
  | some ⟨.owner, p⟩ => some p
  | _ => none

def stolen? (w : World) (h : Nat) : Option PoolId :=
  match w.handle? h with
  | some ⟨.foreign, p⟩ => some p
  | _ => none

/-- A unit that the registry still keeps. -/
def unit? (w : World) (u : UnitId) : Option UnitEntry :=
  (w.units.find? u).filter (·.registered)

/-- A pool and the array with its place left empty, so that nothing else refers to the pool. -/
@[noinline] def takeOut (pools : Array (Option Deque)) (i : Nat) :
    Option Deque × Array (Option Deque) :=
  ((pools[i]?).getD none, pools.setIfInBounds i none)

/-- Works on one pool. The pool is out of its place meanwhile, so that its ring is changed in place.
-/
def visit {α : Type} (w : World) (p : PoolId) (act : Site → Checked (α × Site)) :
    Checked (α × World) :=
  match takeOut w.pools p.index with
  | (none, _) => throw .noSuchPool
  | (some deque, pools) => do
    let (a, site) ← act ⟨w.toContext, deque⟩
    return (a, { w with
      toContext := site.toContext, pools := pools.setIfInBounds p.index (some site.deque) })

def createUnit (w : World) (kind : UnitKind) : UnitId × World :=
  let (u, units) := w.units.create kind
  (u, { w with units })

/-- Ends a pool: its units are let go, and it leaves its place. -/
def endPool (w : World) (p : PoolId) : Checked World := do
  let (_, w) ← w.visit p fun s => do return ((), ← s.teardown)
  return { w with pools := w.pools.setIfInBounds p.index none }

def settlePool (w : World) (p : PoolId) : Checked World :=
  if w.handles.any (·.2.pool = p) then return w else w.endPool p

def dropHandle (w : World) (h : Nat) : Checked World := do
  match w.handle? h with
  | none => return w
  | some handle =>
    let w := { w with handles := w.handles.filter (·.1 ≠ h) }
    w.settlePool handle.pool

/-- Gives a handle its number. A handle that had the number before is dropped. -/
def bind (w : World) (h : Nat) (handle : PoolHandle) : Checked World := do
  let former := w.handle? h
  let w := { w with handles := (h, handle) :: w.handles.filter (·.1 ≠ h) }
  match former with
  | none => return w
  | some old => w.settlePool old.pool

/-- Opens a pool and binds its owner handle. A configuration that is invalid or a ring that cannot
be allocated leaves the world as it is. -/
def openPool (w : World) (h : Nat) (config : PoolConfig) (start : Nat) :
    Checked (Except PoolError PoolId × World) := do
  match config.validate with
  | .error problem => return (.error (.ofProblem problem), w)
  | .ok _ =>
    let p := PoolId.ofIndex w.pools.size
    match ← Deque.create w.limit config start p with
    | .error e => return (.error e, w)
    | .ok deque =>
      let event := Event.created p config.name config.initialCapacity
      let w := { w with pools := w.pools.push (some deque), log := w.log.push event }
      return (.ok p, ← w.bind h ⟨.owner, p⟩)

def perform (w : World) (p : PoolId) (call : Call) : Checked (Reply × World) :=
  w.visit p call.perform

end World

end WorkStealing
