import Mathlib.Data.List.ReduceOption
import WorkStealing.Proofs.Session.Invariant

set_option autoImplicit false

/-!
# References

Between two steps of a session a unit has one reference of the registry, until it is cleared there,
and one for the slot it occupies. References that a call carries, or that a push hands over, are
settled by the end of the step.
-/
namespace WorkStealing

namespace World

/-- The units in the slots of all pools that have not ended. -/
def contents (w : World) : List UnitId :=
  w.pools.toList.reduceOption.flatMap fun d => d.ring.units

variable {w : World}

end World

end WorkStealing
