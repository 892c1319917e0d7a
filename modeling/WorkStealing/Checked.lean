set_option autoImplicit false

/-!
# Checked arithmetic

Counters and sizes are natural numbers that a machine word of 64 bits has to hold. Every step that
could leave the word, read outside a ring or give back a reference that nobody holds runs in
`Checked` and ends in a `Fault` instead. A run that returns `.ok` therefore stayed inside the
machine.
-/
namespace WorkStealing

inductive Fault where
  | overflow
  | underflow
  | headPastTail
  | unevenCapacity
  | outsideRing
  | noSuchUnit
  | noSuchPool
  | deadReference
  | brokenLine
  | outOfGrants
  deriving DecidableEq

namespace Fault

def message : Fault → String
  | .overflow => "a counter leaves the 64-bit word at the top"
  | .underflow => "a counter falls below zero"
  | .headPastTail => "head is past tail"
  | .unevenCapacity => "a ring needs a power of two of slots"
  | .outsideRing => "a slot outside the ring"
  | .noSuchUnit => "no such unit"
  | .noSuchPool => "no such pool"
  | .deadReference => "a reference is given back twice"
  | .brokenLine => "the lock serves a ticket that nobody waits with"
  | .outOfGrants => "a call never ends"

end Fault

abbrev Checked := Except Fault

@[simp] theorem ok_bind {α β : Type} (a : α) (f : α → Checked β) : (Except.ok a >>= f) = f a := rfl

@[simp] theorem pure_eq_ok {α : Type} (a : α) : (pure a : Checked α) = .ok a := rfl

def require (p : Prop) [Decidable p] (fault : Fault) : Checked Unit :=
  if p then .ok () else .error fault

namespace Word

def count : Nat := 1 <<< 64

def max : Nat := (1 <<< 64) - 1

def succ (n : Nat) : Checked Nat :=
  if n < max then .ok (n + 1) else .error .overflow

def sub (m n : Nat) : Checked Nat :=
  if n ≤ m then .ok (m - n) else .error .underflow

theorem succ_eq_ok {n : Nat} (h : n < max) : succ n = .ok (n + 1) := if_pos h

theorem sub_eq_ok {m n : Nat} (h : n ≤ m) : sub m n = .ok (m - n) := if_pos h

end Word

theorem require_eq_ok {p : Prop} [Decidable p] {fault : Fault} (h : p) :
    require p fault = .ok () := if_pos h

end WorkStealing
