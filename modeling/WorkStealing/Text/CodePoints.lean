set_option autoImplicit false

/-!
# Sets of code points

A set of characters is a list of inclusive ranges of code points.
-/
namespace WorkStealing.Text

abbrev CodePoints := List (Nat × Nat)

namespace CodePoints

def contains (ranges : CodePoints) (c : Char) : Bool :=
  ranges.any fun r => r.1 ≤ c.toNat && c.toNat ≤ r.2

end CodePoints

end WorkStealing.Text
