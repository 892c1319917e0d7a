import WorkStealing.PoolError

set_option autoImplicit false

/-!
# Log events

What a pool reports about itself: its creation and its end, growth that worked or failed, and the
return of its counters to small numbers.
-/
namespace WorkStealing

inductive Level where
  | trace
  | debug
  | warn
  deriving DecidableEq

def Level.name : Level → String
  | .trace => "TRACE"
  | .debug => "DEBUG"
  | .warn => "WARN"

inductive Event where
  | created (pool : PoolId) (name : Option String) (capacity : Nat)
  | grew (pool : PoolId) (name : Option String) (oldCapacity newCapacity live : Nat)
  | growthFailed (pool : PoolId) (capacity : Nat) (error : PoolError)
  | rebased (pool : PoolId) (head tail : Nat)
  | dropped (pool : PoolId) (released retired : Nat)
  deriving DecidableEq

inductive FieldValue where
  | number (n : Nat)
  | text (s : String)

namespace Event

def level : Event → Level
  | .created .. => .trace
  | .grew .. => .debug
  | .growthFailed .. => .warn
  | .rebased .. => .debug
  | .dropped .. => .trace

def message : Event → String
  | .created .. => "created deque pool"
  | .grew .. => "grew deque pool"
  | .growthFailed .. => "failed to grow deque pool"
  | .rebased .. => "rebased deque counters"
  | .dropped .. => "dropped deque pool"

/-- The fields beside the message. A pool without a name reports an empty one. -/
def fields : Event → List (String × FieldValue)
  | .created pool name capacity =>
    [("pool", .text pool.label), ("name", .text (name.getD "")), ("capacity", .number capacity)]
  | .grew pool name oldCapacity newCapacity live =>
    [("pool", .text pool.label), ("name", .text (name.getD "")),
     ("old_capacity", .number oldCapacity), ("new_capacity", .number newCapacity),
     ("live", .number live)]
  | .growthFailed pool capacity error =>
    [("pool", .text pool.label), ("capacity", .number capacity), ("error", .text error.message)]
  | .rebased pool head tail =>
    [("pool", .text pool.label), ("head", .number head), ("tail", .number tail)]
  | .dropped pool released retired =>
    [("pool", .text pool.label), ("released", .number released), ("retired", .number retired)]

end Event

end WorkStealing
