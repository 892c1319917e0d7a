import WorkStealing.Text.Outline

set_option autoImplicit false

/-!
# Ticket lock

A fair lock around some contents. Whoever wants the lock draws the next ticket and is served when
the serving counter shows it; a release moves the counter on. Tickets are machine words that wrap,
or natural numbers where a line can have any length: the length of the line is the difference of the
counters in either arithmetic.
-/
namespace WorkStealing

open Text (Outline)

structure TicketLock (τ α : Type) where
  nextTicket : τ
  nowServing : τ
  contents : α

namespace TicketLock

variable {τ α : Type}

def startingAt (ticket : τ) (contents : α) : TicketLock τ α := ⟨ticket, ticket, contents⟩

def modify (f : α → α) (l : TicketLock τ α) : TicketLock τ α := { l with contents := f l.contents }

section

variable [OfNat τ 1] [Add τ]

def draw (l : TicketLock τ α) : τ × TicketLock τ α :=
  (l.nextTicket, { l with nextTicket := l.nextTicket + 1 })

def release (l : TicketLock τ α) : TicketLock τ α := { l with nowServing := l.nowServing + 1 }

def tryLock [DecidableEq τ] (l : TicketLock τ α) : Option (TicketLock τ α) :=
  if l.nextTicket = l.nowServing then some { l with nextTicket := l.nowServing + 1 } else none

end

section

variable [DecidableEq τ]

def serves (l : TicketLock τ α) (ticket : τ) : Bool := l.nowServing = ticket

def isLocked (l : TicketLock τ α) : Bool := l.nextTicket ≠ l.nowServing

end

section

variable [Sub τ]

/-- How many tickets are served before `ticket`. -/
def ahead (l : TicketLock τ α) (ticket : τ) : τ := ticket - l.nowServing

def queueLength (l : TicketLock τ α) : τ := l.nextTicket - l.nowServing

end

def outline (l : TicketLock UInt32 α) : Outline :=
  .excerpt "TicketLock"
    [("next_ticket", .nat l.nextTicket.toNat), ("now_serving", .nat l.nowServing.toNat)]

/-- A held lock shows how many rounds its holder waited for it. -/
def guardOutline (waited : UInt32) : Outline :=
  .excerpt "TicketLockGuard" [("waited", .nat waited.toNat)]

end TicketLock

end WorkStealing
