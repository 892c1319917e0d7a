import WorkStealing.Text.Outline

set_option autoImplicit false

/-!
# Backing off

How a waiter spends its rounds: first spinning with a doubling number of hints, then giving up its
turn. A waiter that is far back in a line spins in proportion to its distance, and never advances
past the first round of yielding.
-/
namespace WorkStealing

open Text (Outline)

inductive Pause where
  | spin (hints : UInt32)
  | yield
  deriving DecidableEq

/-- The product, or the largest 32-bit number if the product does not fit. -/
def cappedMul (a b : UInt32) : UInt32 :=
  if a.toNat * b.toNat < UInt32.size then a * b else (UInt32.size - 1).toUInt32

structure Backoff where
  step : UInt32
  deriving DecidableEq

namespace Backoff

def spinLimit : UInt32 := 6

def yieldLimit : UInt32 := 10

def new : Backoff := ⟨0⟩

def spin (b : Backoff) : Pause × Backoff :=
  (if b.step ≤ spinLimit then .spin (1 <<< b.step) else .yield,
    if b.step ≤ yieldLimit then ⟨b.step + 1⟩ else b)

/-- One round of a waiter that is `distance` tickets away from being served. -/
def waitInLine (b : Backoff) (distance : UInt32) : Pause × Backoff :=
  if distance ≤ 1 then b.spin
  else if spinLimit < b.step then (.yield, b)
  else (.spin (cappedMul distance (1 <<< spinLimit)), ⟨b.step + 1⟩)

inductive Round where
  | spin
  | wait (distance : UInt32)

def round (b : Backoff) : Round → Pause × Backoff
  | .spin => b.spin
  | .wait distance => b.waitInLine distance

def states (b : Backoff) : List Round → List Backoff
  | [] => [b]
  | r :: rs => b :: states (b.round r).2 rs

def outline (b : Backoff) : Outline := .record "Backoff" [("step", .nat b.step.toNat)]

end Backoff

end WorkStealing
