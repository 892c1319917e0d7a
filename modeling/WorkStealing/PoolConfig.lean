import WorkStealing.Text.Outline
import WorkStealing.Text.Quoted

set_option autoImplicit false

/-!
# Pool configuration

The initial number of slots and an optional name. `PoolConfig.validate` names the first rule that a
configuration breaks; `PoolConfig.build` applies settings to the default and validates the result.
-/
namespace WorkStealing

open Text (Outline quoted)

structure PoolConfig where
  initialCapacity : Nat
  name : Option String
  deriving DecidableEq

/-- The rules, in the order in which they are tried. -/
inductive ConfigProblem where
  | tooSmall
  | notPowerOfTwo (capacity : Nat)
  | tooLarge
  | emptyName
  deriving DecidableEq

namespace PoolConfig

def defaultCapacity : Nat := 256

/-- The largest capacity accepted at construction; growth may pass it. -/
def maxCapacity : Nat := 1 <<< 24

protected def default : PoolConfig := ⟨defaultCapacity, none⟩

end PoolConfig

namespace ConfigProblem

def message : ConfigProblem → String
  | .tooSmall => "initial_capacity must be >= 2"
  | .notPowerOfTwo capacity =>
    "initial_capacity must be a power of two (got " ++ toString capacity ++ ")"
  | .tooLarge =>
    "initial_capacity too large (max " ++ toString PoolConfig.maxCapacity ++ ")"
  | .emptyName => "name must not be empty"

end ConfigProblem

def isPowerOfTwo (n : Nat) : Bool := n != 0 && 1 <<< n.log2 == n

theorem isPowerOfTwo_iff {n : Nat} : isPowerOfTwo n = true ↔ n.isPowerOfTwo := by
  constructor
  · intro h
    simp only [isPowerOfTwo, Bool.and_eq_true, beq_iff_eq, Nat.one_shiftLeft] at h
    exact ⟨n.log2, h.2.symm⟩
  · rintro ⟨k, rfl⟩
    simp [isPowerOfTwo, Nat.log2_two_pow, Nat.one_shiftLeft]

namespace PoolConfig

def validate (c : PoolConfig) : Except ConfigProblem Unit :=
  if c.initialCapacity < 2 then .error .tooSmall
  else if !isPowerOfTwo c.initialCapacity then .error (.notPowerOfTwo c.initialCapacity)
  else if maxCapacity < c.initialCapacity then .error .tooLarge
  else if c.name = some "" then .error .emptyName
  else .ok ()

inductive Setting where
  | capacity (n : Nat)
  | name (s : String)

def set (c : PoolConfig) : Setting → PoolConfig
  | .capacity n => { c with initialCapacity := n }
  | .name s => { c with name := some s }

def checked (c : PoolConfig) : Except ConfigProblem PoolConfig := do
  c.validate
  return c

def build (settings : List Setting) : Except ConfigProblem PoolConfig :=
  (settings.foldl set PoolConfig.default).checked

def outline (c : PoolConfig) : Outline :=
  .record "PoolConfig"
    [("initial_capacity", .nat c.initialCapacity), ("name", .option (.atom ∘ quoted) c.name)]

end PoolConfig

end WorkStealing
