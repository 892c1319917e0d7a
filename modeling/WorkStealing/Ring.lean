import WorkStealing.Checked
import WorkStealing.PoolError
import WorkStealing.UnitTable

set_option autoImplicit false

/-!
# Rings of slots

A ring has a power of two of slots and is addressed by counters that only grow: an index stands for
the slot at its low bits. A slot holds a unit or nothing. A ring that is full gives way to one of
twice its size, which takes over the live slots from position zero on.
-/
namespace WorkStealing

structure Ring where
  slots : Array (Option UnitId)
  mask : Nat

namespace Ring

def capacity (r : Ring) : Nat := r.slots.size

def position (r : Ring) (index : Nat) : Nat := index &&& r.mask

/-- What the slot of an index holds; a slot outside the ring holds nothing. -/
def cell (r : Ring) (index : Nat) : Option UnitId := (r.slots[r.position index]?).getD none

def cells (r : Ring) (first n : Nat) : List (Option UnitId) :=
  (List.range n).map fun k => r.cell (first + k)

def read (r : Ring) (index : Nat) : Checked (Option UnitId) :=
  match r.slots[r.position index]? with
  | some c => .ok c
  | none => .error .outsideRing

def store (r : Ring) (position : Nat) (c : Option UnitId) : Checked Ring :=
  if h : position < r.slots.size then .ok { r with slots := r.slots.set position c h }
  else .error .outsideRing

def write (r : Ring) (index : Nat) (c : Option UnitId) : Checked Ring :=
  r.store (r.position index) c

/-- Slots take eight bytes, and no ring can be larger than half the address space. -/
def maxSlots : Nat := (1 <<< 60) - 1

def fits (limit : Option Nat) (capacity : Nat) : Bool :=
  capacity ≤ maxSlots && limit.all (capacity ≤ ·)

def allocate (limit : Option Nat) (capacity : Nat) : Checked (Except PoolError Ring) := do
  require (isPowerOfTwo capacity) .unevenCapacity
  if !fits limit capacity then
    return .error (.resourceExhausted capacity)
  else
    let mask ← Word.sub capacity 1
    return .ok ⟨Array.replicate capacity none, mask⟩

/-- A ring that took over the units of a smaller one, and the smaller one as it was left. -/
structure Growth where
  grown : Ring
  emptied : Ring

/-- Moves the cells of `n` indices of `old`, the first at `head + offset`, into the slots of `grown`
from `offset` on. Indices wrap with the machine word. -/
def moveFrom (head offset : Nat) : Nat → Ring → Ring → Checked Growth
  | 0, old, grown => .ok ⟨grown, old⟩
  | n + 1, old, grown => do
    let index := (head + offset) % Word.count
    let c ← old.read index
    let old ← old.write index none
    let grown ← grown.store offset c
    moveFrom head (offset + 1) n old grown

/-- A ring of twice the capacity with the `count` cells from `head` on in its first slots. -/
def grow (limit : Option Nat) (r : Ring) (head count : Nat) :
    Checked (Except PoolError Growth) := do
  if Word.count ≤ 2 * r.capacity then
    return .error (.resourceExhausted Word.max)
  else
    match ← allocate limit (2 * r.capacity) with
    | .error e => return .error e
    | .ok grown =>
      let growth ← moveFrom head 0 count r grown
      return .ok growth

def units (r : Ring) : List UnitId := r.slots.toList.filterMap id

/-- The highest of the `n` indices from `first` on whose slot holds `u`. -/
def findBack (r : Ring) (u : UnitId) (first : Nat) : Nat → Checked (Option Nat)
  | 0 => .ok none
  | n + 1 => do
    if (← r.read (first + n)) = some u then
      return some (first + n)
    else
      r.findBack u first n

theorem read_eq_ok {r : Ring} {index : Nat} (h : r.position index < r.capacity) :
    r.read index = .ok (r.cell index) := by
  have h' : r.position index < r.slots.size := h
  simp [read, cell, h']

theorem length_cells (r : Ring) (first n : Nat) : (r.cells first n).length = n := by
  simp [cells]

end Ring

end WorkStealing
