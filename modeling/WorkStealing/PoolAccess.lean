set_option autoImplicit false

/-!
# Access modes

Who may put units into a pool and who may take them out, beside the owner.
-/
namespace WorkStealing

inductive PoolAccess where
  | ownerOnly
  | spsc
  | mpsc
  | spmc
  | mpmc
  deriving DecidableEq

namespace PoolAccess

def name : PoolAccess → String
  | .ownerOnly => "Private"
  | .spsc => "Spsc"
  | .mpsc => "Mpsc"
  | .spmc => "Spmc"
  | .mpmc => "Mpmc"

def all : List PoolAccess := [.ownerOnly, .spsc, .mpsc, .spmc, .mpmc]

def ofName? (s : String) : Option PoolAccess := all.find? (·.name == s)

def allowsForeignPop : PoolAccess → Bool
  | .spmc | .mpmc => true
  | _ => false

def allowsForeignPush : PoolAccess → Bool
  | .mpsc | .mpmc => true
  | _ => false

/-- The mode of every deque pool: the owner produces, everybody consumes. -/
def deque : PoolAccess := .spmc

end PoolAccess

end WorkStealing
