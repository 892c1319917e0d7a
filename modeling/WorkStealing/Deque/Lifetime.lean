import WorkStealing.Deque.Site

set_option autoImplicit false

/-!
# The end of a pool

A pool that ends lets go of every unit that is still in a slot of its ring.
-/
namespace WorkStealing

namespace Site

def releaseAll (units : UnitTable) : List UnitId → Checked UnitTable
  | [] => return units
  | u :: us => do
    let units ← units.detach u
    let units ← units.release u
    releaseAll units us

def teardown (s : Site) : Checked Site := do
  let held := s.deque.ring.units
  let s ← s.updateUnits (releaseAll · held)
  return s.emit (.dropped s.deque.id held.length s.deque.generation)

end Site

end WorkStealing
