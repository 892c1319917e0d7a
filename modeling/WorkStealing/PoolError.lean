import WorkStealing.PoolConfig
import WorkStealing.PoolId

set_option autoImplicit false

/-!
# Errors of a pool

A pool is refused a configuration, a ring of slots, or a unit that is already queued.
-/
namespace WorkStealing

open Text (Outline quoted)

inductive PoolError where
  | config (message : String)
  | resourceExhausted (requested : Nat)
  | alreadyQueued (holder : PoolId)
  deriving DecidableEq

namespace PoolError

def ofProblem (p : ConfigProblem) : PoolError := .config p.message

def kind : PoolError → String
  | .config _ => "Config"
  | .resourceExhausted _ => "ResourceExhausted"
  | .alreadyQueued _ => "AlreadyQueued"

def message : PoolError → String
  | .config message => "config error: " ++ message
  | .resourceExhausted requested =>
    "resource exhausted: cannot allocate a buffer of " ++ toString requested ++ " slots"
  | .alreadyQueued holder => "unit is already queued in " ++ holder.label

def isResourceExhausted : PoolError → Bool
  | .resourceExhausted _ => true
  | _ => false

def outline : PoolError → Outline
  | .config message => .tuple "Config" [.atom (quoted message)]
  | .resourceExhausted requested => .record "ResourceExhausted" [("requested", .nat requested)]
  | .alreadyQueued holder => .tuple "AlreadyQueued" [holder.outline]

end PoolError

end WorkStealing
