import WorkStealing.Checked
import WorkStealing.WorkUnit

set_option autoImplicit false

/-!
# The unit table

All units of a session, numbered in the order of their creation. A unit's number is its identity;
two units may wrap the same handle. The table counts the references to each unit, one of which the
registry keeps until it is cleared.
-/
namespace WorkStealing

structure UnitId where
  number : Nat
  deriving DecidableEq

structure UnitEntry where
  unit : WorkUnit
  refs : Nat
  /-- Whether the registry still keeps its reference. -/
  registered : Bool

structure UnitTable where
  entries : Array UnitEntry

namespace UnitTable

def empty : UnitTable := ⟨#[]⟩

def size (t : UnitTable) : Nat := t.entries.size

def find? (t : UnitTable) (u : UnitId) : Option UnitEntry := t.entries[u.number]?

def lookup (t : UnitTable) (u : UnitId) : Checked UnitEntry :=
  match t.find? u with
  | some e => .ok e
  | none => .error .noSuchUnit

def update (t : UnitTable) (u : UnitId) (f : UnitEntry → UnitEntry) : UnitTable :=
  ⟨t.entries.modify u.number f⟩

def create (t : UnitTable) (kind : UnitKind) : UnitId × UnitTable :=
  (⟨t.size⟩, ⟨t.entries.push ⟨.new kind, 1, true⟩⟩)

def holder (t : UnitTable) (u : UnitId) : Checked (Option PoolId) := do
  let e ← t.lookup u
  return e.unit.pool

def setHolder (t : UnitTable) (u : UnitId) (p : Option PoolId) : UnitTable :=
  t.update u fun e => { e with unit := { e.unit with pool := p } }

def attach (t : UnitTable) (u : UnitId) (p : PoolId) : UnitTable := t.setHolder u (some p)

def detach (t : UnitTable) (u : UnitId) : Checked UnitTable := do
  let _ ← t.lookup u
  return t.setHolder u none

def retain (t : UnitTable) (u : UnitId) : Checked UnitTable := do
  let e ← t.lookup u
  require (0 < e.refs) .deadReference
  return t.update u fun e => { e with refs := e.refs + 1 }

def release (t : UnitTable) (u : UnitId) : Checked UnitTable := do
  let e ← t.lookup u
  require (0 < e.refs) .deadReference
  return t.update u fun e => { e with refs := e.refs - 1 }

def clear (t : UnitTable) (u : UnitId) : Checked UnitTable := do
  let e ← t.lookup u
  if e.registered then
    let t ← t.release u
    return t.update u fun e => { e with registered := false }
  else
    return t

/-- What a unit with two references shows when one of them is let go. -/
structure Clearing where
  refsBefore : Nat
  refsAfter : Nat
  cleared : Bool

/-- A new unit, to which a second reference is made, and the registry's is then let go. -/
def clearing (kind : UnitKind) : Checked Clearing := do
  let (u, t) := empty.create kind
  let t ← t.retain u
  let before ← t.lookup u
  let t ← t.clear u
  let after ← t.lookup u
  return ⟨before.refs, after.refs, !after.registered⟩

theorem find?_update (t : UnitTable) (u v : UnitId) (f : UnitEntry → UnitEntry) :
    (t.update u f).find? v = if u = v then (t.find? v).map f else t.find? v := by
  have huv : u = v ↔ u.number = v.number := by
    cases u; cases v; simp
  simp only [update, find?, Array.getElem?_modify, huv]

theorem size_update (t : UnitTable) (u : UnitId) (f : UnitEntry → UnitEntry) :
    (t.update u f).size = t.size := Array.size_modify

theorem find?_create (t : UnitTable) (kind : UnitKind) (v : UnitId) :
    (t.create kind).2.find? v =
      if v.number = t.size then some ⟨.new kind, 1, true⟩ else t.find? v := by
  simp only [create, find?, size, Array.getElem?_push]
  rfl

end UnitTable

end WorkStealing
