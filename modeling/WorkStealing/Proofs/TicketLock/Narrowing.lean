import Mathlib.Algebra.Ring.Nat
import WorkStealing.TicketLock

set_option autoImplicit false

/-!
# Tickets cut down to machine words

The locks of pools count in natural numbers. With counters that wrap they serve alike as long as
fewer tickets are outstanding than there are words: draws and releases lead from one to the other
anyway, and what is asked of the counters comes down to differences below `2 ^ 32`.
-/
namespace WorkStealing.TicketLock

variable {α : Type} {l : TicketLock Nat α} {ticket : Nat}

def narrow (l : TicketLock Nat α) : TicketLock UInt32 α :=
  ⟨.ofNat l.nextTicket, .ofNat l.nowServing, l.contents⟩

theorem draw_narrow (l : TicketLock Nat α) :
    l.narrow.draw = (.ofNat l.draw.1, l.draw.2.narrow) := by
  simp only [draw, narrow, UInt32.ofNat_add]
  rfl

theorem release_narrow (l : TicketLock Nat α) : l.narrow.release = l.release.narrow := by
  simp only [release, narrow, UInt32.ofNat_add]
  rfl

theorem toNat_ofNat_sub {m n : Nat} (hle : m ≤ n) (hlt : n - m < 2 ^ 32) :
    (UInt32.ofNat n - UInt32.ofNat m).toNat = n - m := by
  rw [← UInt32.ofNat_sub hle, UInt32.toNat_ofNat', Nat.mod_eq_of_lt hlt]

theorem ofNat_eq_iff {m n : Nat} (hle : m ≤ n) (hlt : n - m < 2 ^ 32) :
    UInt32.ofNat m = UInt32.ofNat n ↔ m = n := by
  constructor
  · intro heq
    have hsub := toNat_ofNat_sub hle hlt
    rw [heq, UInt32.sub_self] at hsub
    change 0 = n - m at hsub
    omega
  · rintro rfl
    rfl

theorem serves_narrow (hle : l.nowServing ≤ ticket) (hlt : ticket - l.nowServing < 2 ^ 32) :
    l.narrow.serves (.ofNat ticket) = l.serves ticket :=
  decide_eq_decide.2 (ofNat_eq_iff hle hlt)

theorem ahead_narrow (hle : l.nowServing ≤ ticket) (hlt : ticket - l.nowServing < 2 ^ 32) :
    (l.narrow.ahead (.ofNat ticket)).toNat = l.ahead ticket :=
  toNat_ofNat_sub hle hlt

theorem queueLength_narrow (hle : l.nowServing ≤ l.nextTicket) (hlt : l.queueLength < 2 ^ 32) :
    l.narrow.queueLength.toNat = l.queueLength :=
  toNat_ofNat_sub hle hlt

theorem isLocked_narrow (hle : l.nowServing ≤ l.nextTicket) (hlt : l.queueLength < 2 ^ 32) :
    l.narrow.isLocked = l.isLocked := by
  apply decide_eq_decide.2
  rw [ne_comm, ne_comm (b := l.nowServing)]
  exact not_congr (ofNat_eq_iff hle hlt)

theorem tryLock_narrow (hle : l.nowServing ≤ l.nextTicket) (hlt : l.queueLength < 2 ^ 32) :
    l.narrow.tryLock = l.tryLock.map narrow := by
  have hfree : l.narrow.nextTicket = l.narrow.nowServing ↔ l.nextTicket = l.nowServing := by
    rw [eq_comm, eq_comm (b := l.nowServing)]
    exact ofNat_eq_iff hle hlt
  unfold tryLock
  by_cases h : l.nextTicket = l.nowServing
  · rw [if_pos h, if_pos (hfree.2 h), Option.map_some]
    simp only [narrow, UInt32.ofNat_add]
    rfl
  · rw [if_neg h, if_neg (hfree.not.2 h)]
    rfl

/-- The lock and its cut have the same answers, also after one more step. -/
structure ServesAlike (l : TicketLock Nat α) : Prop where
  serves : ∀ ticket, l.nowServing ≤ ticket → ticket ≤ l.nextTicket →
    l.narrow.serves (.ofNat ticket) = l.serves ticket
  ahead : ∀ ticket, l.nowServing ≤ ticket → ticket ≤ l.nextTicket →
    (l.narrow.ahead (.ofNat ticket)).toNat = l.ahead ticket
  queueLength : l.narrow.queueLength.toNat = l.queueLength
  isLocked : l.narrow.isLocked = l.isLocked
  draw : l.narrow.draw = (.ofNat l.draw.1, l.draw.2.narrow)
  release : l.narrow.release = l.release.narrow
  tryLock : l.narrow.tryLock = l.tryLock.map narrow

theorem servesAlike (hle : l.nowServing ≤ l.nextTicket) (hlt : l.queueLength < 2 ^ 32) :
    l.ServesAlike where
  serves _ hnow hnext :=
    serves_narrow hnow (Nat.lt_of_le_of_lt (Nat.sub_le_sub_right hnext _) hlt)
  ahead _ hnow hnext :=
    ahead_narrow hnow (Nat.lt_of_le_of_lt (Nat.sub_le_sub_right hnext _) hlt)
  queueLength := queueLength_narrow hle hlt
  isLocked := isLocked_narrow hle hlt
  draw := draw_narrow l
  release := release_narrow l
  tryLock := tryLock_narrow hle hlt

end WorkStealing.TicketLock
