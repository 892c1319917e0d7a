import WorkStealing.Binary64
import WorkStealing.Metrics.Histogram

set_option autoImplicit false

/-!
# Lock waits

The histogram that pools use. Values are grouped into classes of about three significant digits, and
a class stands for its highest value.
-/
namespace WorkStealing

/-- The highest value in the class of `v`: below 2048 each value is alone; from `2 ^ k` to `2 ^ (k +
1)` the classes are `2 ^ (k - 10)` wide. -/
def classTop (v : Nat) : Nat :=
  if v < 2048 then v
  else
    let width := 1 <<< (v.log2 - 10)
    (v / width + 1) * width - 1

/-- Classes by their highest values, in increasing order, each with its number of samples. -/
structure LockWaits where
  classes : List (Nat × Nat)
  deriving DecidableEq

namespace LockWaits

def empty : LockWaits := ⟨[]⟩

def insertClass (top n : Nat) : List (Nat × Nat) → List (Nat × Nat)
  | [] => [(top, n)]
  | (t, m) :: rest =>
    if top < t then (top, n) :: (t, m) :: rest
    else if top = t then (t, m + n) :: rest
    else (t, m) :: insertClass top n rest

def record (w : LockWaits) (value times : Nat) : LockWaits :=
  if times = 0 then w else ⟨insertClass (classTop value) times w.classes⟩

def total (w : LockWaits) : Nat := w.classes.foldr (fun c n => c.2 + n) 0

def max (w : LockWaits) : Nat := (w.classes.getLast?.map Prod.fst).getD 0

/-- The class that holds the sample of the given rank, counted from the smallest. -/
def atRank : List (Nat × Nat) → Nat → Nat
  | [], _ => 0
  | (top, n) :: rest, rank => if rank ≤ n then top else atRank rest (rank - n)

/-- The double nearest to 0.99, in units of `2 ^ (-53)`. -/
def p99Significand : Nat := 8917127262193582

/-- The rank of the 99th percentile: the double product rounded up, and at least one. -/
def p99Rank (total : Nat) : Nat :=
  let product := Binary64.roundNat (p99Significand * Binary64.roundNat total)
  Nat.max 1 ((product + ((1 <<< 53) - 1)) >>> 53)

def p99 (w : LockWaits) : Nat := atRank w.classes (p99Rank w.total)

@[default_instance]
instance : Histogram LockWaits where
  empty := empty
  record := record
  reset _ := empty
  total := total
  max := max
  p99 := p99

end LockWaits

end WorkStealing
