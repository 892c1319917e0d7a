set_option autoImplicit false

/-!
# Rounding to double precision

Natural numbers and quotients rounded to 53 significant bits, to the nearest and from a tie to the
even neighbour, in exact arithmetic.
-/
namespace WorkStealing.Binary64

/-- The quotient rounded to the nearest integer; a half goes to the even neighbour. -/
def roundDiv (n d : Nat) : Nat :=
  let q := n / d
  let r := n % d
  if 2 * r < d then q
  else if d < 2 * r then q + 1
  else q + q % 2

/-- The double nearest to `n`, which is itself a natural number. -/
def roundNat (n : Nat) : Nat :=
  let excess := n.log2 - 52
  roundDiv n (1 <<< excess) <<< excess

def places (m n : Nat) : Nat :=
  let s := 52 + n.log2 - m.log2
  if m <<< s < n <<< 52 then s + 1 else s

/-- The bit pattern of the double nearest to `m / n`, for positive `m ≤ n`. The significand keeps
its leading bit, which the exponent field takes up by starting one lower. -/
def quotientBits (m n : Nat) : UInt64 :=
  let s := places m n
  ((1074 - s) <<< 52 + roundDiv (m <<< s) n).toUInt64

end WorkStealing.Binary64
