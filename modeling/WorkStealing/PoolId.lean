import WorkStealing.Text.Outline

set_option autoImplicit false

/-!
# Pool identifiers

Pools are numbered from one in the order in which they are created.
-/
namespace WorkStealing

open Text (Outline)

structure PoolId where
  number : Nat
  deriving DecidableEq

namespace PoolId

/-- The identifier of the pool that is created after `created` others. -/
def ofIndex (created : Nat) : PoolId := ⟨created + 1⟩

def index (p : PoolId) : Nat := p.number - 1

theorem index_ofIndex (n : Nat) : (ofIndex n).index = n := Nat.add_sub_cancel n 1

instance : Ord PoolId := ⟨fun p q => compare p.number q.number⟩

def label (p : PoolId) : String := "pool#" ++ toString p.number

def outline (p : PoolId) : Outline := .tuple "PoolId" [.nat p.number]

end PoolId

end WorkStealing
