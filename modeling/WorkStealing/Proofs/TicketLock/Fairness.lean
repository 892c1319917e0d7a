import Mathlib.Algebra.Ring.Nat
import Mathlib.Data.List.Nodup
import WorkStealing.TicketLock.Crowd

set_option autoImplicit false

/-!
# Fairness of the ticket lock

The threads with a ticket form a line, whose tickets follow the serving counter one by one. As long
as there are fewer of them than machine words, no two tickets of the line are the same word, however
often the counters have wrapped.
-/
namespace WorkStealing

theorem UInt32.ofNat_eq_zero_iff {n : Nat} (h : n < 2 ^ 32) : UInt32.ofNat n = 0 ↔ n = 0 := by
  rw [← UInt32.toNat_inj, UInt32.toNat_ofNat', Nat.mod_eq_of_lt h]
  rfl

namespace Crowd

variable {α : Type}

def Holds (c : Crowd α) (t : Nat) : Prop := ∃ waited, c.stands[t]? = some (.holding waited)

def Waits (c : Crowd α) (t : Nat) (ticket : UInt32) : Prop :=
  ∃ waited, c.stands[t]? = some (.waiting ticket waited)

/-- Whether the thread holds the lock, or has the ticket that the serving counter shows. -/
def Served (c : Crowd α) (t : Nat) : Prop := c.Holds t ∨ c.Waits t c.lock.nowServing

/-- Who holds the lock, and who waits for it with which ticket, in the order of the tickets. -/
structure Lined (c : Crowd α) (holder : Option Nat) (queue : List (Nat × UInt32)) : Prop where
  holds : ∀ t, c.Holds t ↔ holder = some t
  waits : ∀ t ticket, c.Waits t ticket ↔ (t, ticket) ∈ queue
  distinct : (queue.map Prod.fst).Nodup
  tickets : ∀ i t ticket, queue[i]? = some (t, ticket) →
    ticket = c.lock.nowServing + UInt32.ofNat (holder.toList.length + i)
  counted : c.outstanding = holder.toList.length + queue.length
  next : c.lock.nextTicket = c.lock.nowServing + UInt32.ofNat c.outstanding
  order : c.drawn = c.granted ++ queue

section Stands

variable {c : Crowd α} {t s : Nat} {stand old : LockStand}

theorem getElem?_setStand (h : c.stands[t]? = some old) (stand : LockStand) (s : Nat) :
    (c.setStand t stand).stands[s]? = if t = s then some stand else c.stands[s]? := by
  obtain ⟨hlt, -⟩ := List.getElem?_eq_some_iff.1 h
  rw [setStand, List.getElem?_set, if_pos hlt]

theorem outstanding_setStand (h : c.stands[t]? = some old) (stand : LockStand) :
    (c.setStand t stand).outstanding + (if old ≠ .away then 1 else 0) =
      c.outstanding + if stand ≠ .away then 1 else 0 := by
  obtain ⟨hlt, hget⟩ := List.getElem?_eq_some_iff.1 h
  have hpos : old ≠ .away → 0 < c.outstanding := fun hne =>
    List.countP_pos_iff.2 ⟨old, hget ▸ List.getElem_mem hlt, decide_eq_true hne⟩
  have hcount : (c.setStand t stand).outstanding = c.outstanding - (if old ≠ .away then 1 else 0) +
      if stand ≠ .away then 1 else 0 := by
    rw [outstanding, setStand, List.countP_set hlt, hget]
    simp only [decide_eq_true_eq]
    rfl
  rw [hcount]
  by_cases hold : old = .away
  · rw [if_neg (not_not.2 hold)]
    omega
  · have := hpos hold
    rw [if_pos hold]
    omega

theorem holds_setStand (h : c.stands[t]? = some old) (stand : LockStand) :
    (c.setStand t stand).Holds s ↔
      if t = s then ∃ waited, stand = .holding waited else c.Holds s := by
  simp only [Holds, getElem?_setStand h]
  split <;> simp

theorem waits_setStand (h : c.stands[t]? = some old) (stand : LockStand) {ticket : UInt32} :
    (c.setStand t stand).Waits s ticket ↔
      if t = s then ∃ waited, stand = .waiting ticket waited else c.Waits s ticket := by
  simp only [Waits, getElem?_setStand h]
  split <;> simp

end Stands

namespace Lined

variable {c : Crowd α} {holder : Option Nat} {queue : List (Nat × UInt32)} {t : Nat}

theorem gather (ticket : UInt32) (threads : Nat) (contents : α) :
    (Crowd.gather ticket threads contents).Lined none [] where
  holds t := by simp [Holds, Crowd.gather, List.getElem?_replicate]
  waits t ticket := by simp [Waits, Crowd.gather, List.getElem?_replicate]
  distinct := .nil
  tickets _ _ _ h := by cases h
  counted := by simp [outstanding, Crowd.gather, List.countP_replicate]
  next := by simp [outstanding, Crowd.gather, TicketLock.startingAt, List.countP_replicate]
  order := rfl

theorem not_mem_of_away (h : c.Lined holder queue) (ht : c.stands[t]? = some .away) :
    holder ≠ some t ∧ ∀ ticket, (t, ticket) ∉ queue := by
  constructor
  · intro hheld
    obtain ⟨n, hn⟩ := (h.holds t).2 hheld
    rw [ht] at hn
    cases hn
  · intro ticket hmem
    obtain ⟨n, hn⟩ := (h.waits t ticket).2 hmem
    rw [ht] at hn
    cases hn

theorem first_of_served (h : c.Lined holder queue) (hfew : c.outstanding < 2 ^ 32)
    (ht : c.Waits t c.lock.nowServing) :
    holder = none ∧ ∃ rest, queue = (t, c.lock.nowServing) :: rest := by
  obtain ⟨i, hi⟩ := List.getElem?_of_mem ((h.waits t _).1 ht)
  have hlt := (List.getElem?_eq_some_iff.1 hi).1
  have hcounted := h.counted
  have hzero := (UInt32.ofNat_eq_zero_iff (by omega)).1
    (UInt32.add_eq_left.1 (h.tickets i t _ hi).symm)
  obtain rfl : i = 0 := by omega
  refine ⟨List.length_eq_zero_iff.1 (by omega) |> Option.toList_eq_nil_iff.1, queue.tail, ?_⟩
  cases queue with
  | nil => cases hi
  | cons entry rest =>
    cases hi
    rfl

theorem free_iff (h : c.Lined holder queue) (hfew : c.outstanding < 2 ^ 32) :
    c.lock.nextTicket = c.lock.nowServing ↔ c.outstanding = 0 := by
  rw [h.next, UInt32.add_eq_left, UInt32.ofNat_eq_zero_iff hfew]

theorem draw (h : c.Lined holder queue) (ht : c.stands[t]? = some .away) :
    (c.draw t).Lined holder (queue ++ [(t, c.lock.nextTicket)]) := by
  obtain ⟨hholder, hline⟩ := h.not_mem_of_away ht
  let c' : Crowd α :=
    { c with lock := c.lock.draw.2, drawn := c.drawn ++ [(t, c.lock.nextTicket)] }
  have ht' : c'.stands[t]? = some .away := ht
  have hcount := outstanding_setStand ht' (.waiting c.lock.nextTicket 0)
  have hcounted := h.counted
  have hout : (c.draw t).outstanding = c.outstanding + 1 := hcount
  constructor
  · intro s
    refine (holds_setStand ht' _).trans ?_
    split
    · rename_i hs
      subst hs
      simp [hholder]
    · exact h.holds s
  · intro s ticket
    refine (waits_setStand ht' _).trans ?_
    split
    · rename_i hs
      subst hs
      simp [hline, eq_comm]
    · rename_i hs
      rw [List.mem_append, List.mem_singleton, Prod.mk.injEq]
      exact (h.waits s ticket).trans ⟨.inl, fun hor => hor.resolve_right fun he => hs he.1.symm⟩
  · rw [List.map_append, List.map_singleton, List.nodup_append]
    refine ⟨h.distinct, List.nodup_singleton _, ?_⟩
    intro s hs s' hs' heq
    obtain ⟨⟨s, ticket⟩, hmem, rfl⟩ := List.mem_map.1 hs
    obtain rfl : s = t := heq.trans (List.mem_singleton.1 hs')
    exact hline ticket hmem
  · intro i s ticket hi
    rcases Nat.lt_trichotomy i queue.length with hlt | rfl | hgt
    · rw [List.getElem?_append_left hlt] at hi
      exact h.tickets i s ticket hi
    · rw [List.getElem?_concat_length] at hi
      cases hi
      rw [← hcounted]
      exact h.next
    · rw [List.getElem?_eq_none (by simp; omega)] at hi
      cases hi
  · rw [hout, List.length_append, hcounted]
    rfl
  · rw [hout, UInt32.ofNat_add, ← UInt32.add_assoc]
    exact congrArg (· + 1) h.next
  · change c.drawn ++ _ = c.granted ++ (queue ++ _)
    rw [h.order, List.append_assoc]

theorem grant {ticket waited : UInt32} (h : c.Lined none ((t, ticket) :: queue))
    (ht : c.stands[t]? = some (.waiting ticket waited)) :
    ({ c with granted := c.granted ++ [(t, ticket)] }.setStand t (.holding waited)).Lined
      (some t) queue := by
  let c' : Crowd α := { c with granted := c.granted ++ [(t, ticket)] }
  have ht' : c'.stands[t]? = some (.waiting ticket waited) := ht
  have hout : (c'.setStand t (.holding waited)).outstanding = c.outstanding :=
    Nat.add_right_cancel (outstanding_setStand ht' (.holding waited))
  have hnodup := List.nodup_cons.1 h.distinct
  constructor
  · intro s
    refine (holds_setStand ht' _).trans ?_
    split
    · rename_i hs
      subst hs
      simp
    · rename_i hs
      refine (h.holds s).trans ?_
      simp [hs]
  · intro s other
    refine (waits_setStand ht' _).trans ?_
    split
    · rename_i hs
      subst hs
      refine iff_of_false (fun ⟨_, hn⟩ => by cases hn) fun hmem => ?_
      exact hnodup.1 (List.mem_map.2 ⟨(t, other), hmem, rfl⟩)
    · rename_i hs
      refine (h.waits s other).trans ?_
      rw [List.mem_cons, Prod.mk.injEq]
      exact or_iff_right fun he => hs he.1.symm
  · exact hnodup.2
  · -- whoever waits moves up by one place, as the ticket at the front is no longer in the line
    intro i s other hi
    have hticket := h.tickets (i + 1) s other hi
    rw [Option.toList_none, List.length_nil, Nat.zero_add, Nat.add_comm] at hticket
    exact hticket
  · rw [hout, h.counted]
    simp only [Option.toList_none, Option.toList_some, List.length_nil, List.length_cons]
    omega
  · rw [hout]
    exact h.next
  · change c.drawn = (c.granted ++ [(t, ticket)]) ++ queue
    rw [h.order, List.append_assoc, List.singleton_append]

theorem look (h : c.Lined holder queue) (hfew : c.outstanding < 2 ^ 32) {ticket waited : UInt32}
    (ht : c.stands[t]? = some (.waiting ticket waited)) :
    ∃ holder' queue', (c.look t ticket waited).Lined holder' queue' := by
  unfold Crowd.look TicketLock.serves
  split
  · rename_i hserved
    obtain rfl : c.lock.nowServing = ticket := of_decide_eq_true hserved
    obtain ⟨rfl, rest, rfl⟩ := h.first_of_served hfew ⟨waited, ht⟩
    exact ⟨some t, rest, h.grant ht⟩
  · have hout : (c.setStand t (.waiting ticket (LockStand.oneMore waited))).outstanding =
        c.outstanding := Nat.add_right_cancel (outstanding_setStand ht _)
    refine ⟨holder, queue, ?_, ?_, h.distinct, h.tickets, hout.trans h.counted, ?_, h.order⟩
    · intro s
      rw [← h.holds, holds_setStand ht]
      split
      · rename_i hs
        subst hs
        simp [Holds, ht]
      · rfl
    · intro s other
      rw [← h.waits, waits_setStand ht]
      split
      · rename_i hs
        subst hs
        simp [Waits, ht]
      · rfl
    · rw [hout]
      exact h.next

theorem release (h : c.Lined holder queue) (ht : c.Holds t) :
    (c.release t).Lined none queue := by
  obtain rfl := (h.holds t).1 ht
  obtain ⟨waited, ht⟩ := ht
  let c' : Crowd α := { c with lock := c.lock.release }
  have ht' : c'.stands[t]? = some (.holding waited) := ht
  have hout : (c.release t).outstanding + 1 = c.outstanding := outstanding_setStand ht' .away
  have hcounted := h.counted
  have hone : (some t).toList.length = 1 := rfl
  constructor
  · intro s
    refine (holds_setStand ht' _).trans ?_
    split
    · exact iff_of_false (fun ⟨_, hn⟩ => by cases hn) fun hn => by cases hn
    · rename_i hs
      refine (h.holds s).trans ?_
      simp [hs]
  · intro s ticket
    refine (waits_setStand ht' _).trans ?_
    split
    · rename_i hs
      subst hs
      refine iff_of_false (fun ⟨_, hn⟩ => by cases hn) fun hmem => ?_
      obtain ⟨_, hn⟩ := (h.waits t ticket).2 hmem
      rw [ht] at hn
      cases hn
    · exact h.waits s ticket
  · exact h.distinct
  · -- the serving counter has moved on, and the places count from it
    intro i s ticket hi
    rw [h.tickets i s ticket hi, hone, UInt32.ofNat_add, ← UInt32.add_assoc]
    exact congrArg (fun n => c.lock.nowServing + 1 + UInt32.ofNat n) (Nat.zero_add i).symm
  · change (c.release t).outstanding = 0 + queue.length
    omega
  · have hnext := h.next
    rw [← hout, Nat.add_comm, UInt32.ofNat_add, ← UInt32.add_assoc] at hnext
    exact hnext
  · exact h.order

theorem tryLock_eq (c : Crowd α) (t : Nat) (hfree : c.lock.nextTicket = c.lock.nowServing) :
    c.tryLock t = { c.draw t with
      granted := c.granted ++ [(t, c.lock.nextTicket)] }.setStand t (.holding 0) := by
  unfold Crowd.tryLock TicketLock.tryLock
  rw [if_pos hfree]
  simp only [Crowd.draw, TicketLock.draw, setStand, List.set_set, hfree]

theorem tryLock (h : c.Lined holder queue) (hfew : c.outstanding < 2 ^ 32)
    (ht : c.stands[t]? = some .away) : ∃ holder' queue', (c.tryLock t).Lined holder' queue' := by
  by_cases hfree : c.lock.nextTicket = c.lock.nowServing
  · have hzero := (h.free_iff hfew).1 hfree
    have hcounted := h.counted
    obtain rfl : queue = [] := List.length_eq_zero_iff.1 (by omega)
    obtain rfl : holder = none := Option.toList_eq_nil_iff.1 (List.length_eq_zero_iff.1 (by omega))
    have hdrawn : (c.draw t).stands[t]? = some (.waiting c.lock.nextTicket 0) :=
      (getElem?_setStand ht _ t).trans (if_pos rfl)
    rw [tryLock_eq c t hfree]
    exact ⟨some t, [], (h.draw ht).grant hdrawn⟩
  · refine ⟨holder, queue, ?_⟩
    unfold Crowd.tryLock TicketLock.tryLock
    rw [if_neg hfree]
    exact h

theorem step (h : c.Lined holder queue) (hfew : c.outstanding < 2 ^ 32) (t : Nat)
    (move : LockMove) : ∃ holder' queue', (c.step t move).Lined holder' queue' := by
  unfold Crowd.step
  split
  · exact ⟨_, _, h.draw ‹_›⟩
  · exact h.tryLock hfew ‹_›
  · exact h.look hfew ‹_›
  · exact ⟨_, _, h.release ⟨_, ‹_›⟩⟩
  · exact ⟨_, _, h⟩

theorem run (h : c.Lined holder queue) {schedule : List (Nat × LockMove)}
    (hfew : ∀ first, first <+: schedule → (c.run first).outstanding < 2 ^ 32) :
    ∃ holder' queue', (c.run schedule).Lined holder' queue' := by
  induction schedule generalizing c holder queue with
  | nil => exact ⟨_, _, h⟩
  | cons entry schedule ih =>
    obtain ⟨t, move⟩ := entry
    obtain ⟨holder', queue', h'⟩ := h.step (hfew [] (List.nil_prefix)) t move
    exact ih h' fun first hfirst =>
      hfew ((t, move) :: first) (List.cons_prefix_cons.2 ⟨rfl, hfirst⟩)

theorem holder_of_holds (h : c.Lined holder queue) {s : Nat} (hs : c.Holds s) (ht : c.Holds t) :
    s = t := Option.some.inj (((h.holds s).1 hs).symm.trans ((h.holds t).1 ht))

theorem existsUnique_served (h : c.Lined holder queue) (hfew : c.outstanding < 2 ^ 32)
    (hsome : 0 < c.outstanding) : ∃! t, c.Served t := by
  have hcounted := h.counted
  cases holder with
  | some t =>
    refine ⟨t, .inl ((h.holds t).2 rfl), ?_⟩
    rintro s (hs | hs)
    · exact (Option.some.inj ((h.holds s).1 hs)).symm
    · cases (h.first_of_served hfew hs).1
  | none =>
    have hnone : ∀ t, ¬ c.Holds t := fun t ht => by cases (h.holds t).1 ht
    obtain ⟨⟨t, ticket⟩, rest, rfl⟩ := List.exists_cons_of_length_pos (l := queue) (by
      rw [hcounted] at hsome
      simpa using hsome)
    have hticket : ticket = c.lock.nowServing :=
      (h.tickets 0 t ticket rfl).trans (UInt32.add_zero _)
    refine ⟨t, .inr ((h.waits t _).2 (hticket ▸ List.mem_cons_self)), ?_⟩
    rintro s (hs | hs)
    · exact absurd hs (hnone s)
    · obtain ⟨-, rest', hline⟩ := h.first_of_served hfew hs
      exact (congrArg Prod.fst (List.cons.inj hline).1).symm

theorem queueLength_eq (h : c.Lined holder queue) (hfew : c.outstanding < 2 ^ 32) :
    c.lock.queueLength.toNat = c.outstanding := by
  rw [TicketLock.queueLength, h.next, UInt32.add_comm, UInt32.add_sub_cancel,
    UInt32.toNat_ofNat', Nat.mod_eq_of_lt hfew]

theorem isLocked_iff (h : c.Lined holder queue) (hfew : c.outstanding < 2 ^ 32) :
    c.lock.isLocked = true ↔ c.outstanding ≠ 0 := by
  rw [TicketLock.isLocked, decide_eq_true_iff, Ne, h.free_iff hfew]

theorem tryLock_isSome_iff (h : c.Lined holder queue) (hfew : c.outstanding < 2 ^ 32) :
    c.lock.tryLock.isSome = true ↔ c.outstanding = 0 := by
  rw [TicketLock.tryLock, Option.isSome_ite, h.free_iff hfew]

end Lined

/-- What everybody relies on who uses the lock. -/
structure Fair (c : Crowd α) : Prop where
  alone : ∀ s t, c.Holds s → c.Holds t → s = t
  /-- The tickets that were drawn are those that were granted, in the same order, and behind them
  those that wait. -/
  order : ∃ queue, c.drawn = c.granted ++ queue ∧ (queue.map Prod.fst).Nodup ∧
    ∀ t ticket, (t, ticket) ∈ queue ↔ c.Waits t ticket
  served : 0 < c.outstanding → ∃! t, c.Served t
  queue : c.lock.queueLength.toNat = c.outstanding
  locked : c.lock.isLocked = true ↔ c.outstanding ≠ 0
  free : c.lock.tryLock.isSome = true ↔ c.outstanding = 0

theorem Lined.fair {c : Crowd α} {holder : Option Nat} {queue : List (Nat × UInt32)}
    (h : c.Lined holder queue) (hfew : c.outstanding < 2 ^ 32) : c.Fair where
  alone _ _ hs ht := h.holder_of_holds hs ht
  order := ⟨queue, h.order, h.distinct, fun t ticket => (h.waits t ticket).symm⟩
  served := h.existsUnique_served hfew
  queue := h.queueLength_eq hfew
  locked := h.isLocked_iff hfew
  free := h.tryLock_isSome_iff hfew

/-- Wherever the counters start, however many threads there are and in whatever order they make
their steps: as long as fewer than `2 ^ 32` tickets are outstanding the lock has at most one holder,
is granted in the order of the draws, and tells how many tickets are outstanding. -/
theorem run_fair (ticket : UInt32) (threads : Nat) (contents : α)
    (schedule : List (Nat × LockMove))
    (hfew : ∀ first, first <+: schedule →
      ((gather ticket threads contents).run first).outstanding < 2 ^ 32) :
    ((gather ticket threads contents).run schedule).Fair := by
  obtain ⟨_, _, h⟩ := (Lined.gather ticket threads contents).run hfew
  exact h.fair (hfew schedule (List.prefix_refl _))

section Few

variable {c : Crowd α}

theorem length_stands_step (c : Crowd α) (t : Nat) (move : LockMove) :
    (c.step t move).stands.length = c.stands.length := by
  unfold step draw tryLock look release setStand
  split
  · exact List.length_set
  · split <;> simp
  · split <;> exact List.length_set
  · exact List.length_set
  · rfl

theorem length_stands_run (c : Crowd α) (schedule : List (Nat × LockMove)) :
    (c.run schedule).stands.length = c.stands.length := by
  induction schedule generalizing c with
  | nil => rfl
  | cons entry schedule ih => exact (ih _).trans (length_stands_step ..)

theorem outstanding_run_le (c : Crowd α) (schedule : List (Nat × LockMove)) :
    (c.run schedule).outstanding ≤ c.stands.length :=
  Nat.le_trans List.countP_le_length (Nat.le_of_eq (length_stands_run c schedule))

end Few

/-- Three threads at counters that are about to wrap. The first one finds the lock free; the last
one does not, draws a ticket, and looks in vain while the second one is served. -/
def wrapping : List (Nat × LockMove) :=
  [(0, .tryLock), (1, .draw), (2, .tryLock), (2, .draw), (0, .release), (2, .look), (1, .look)]

theorem run_fair_wrapping :
    (∀ first, first <+: wrapping → ((gather 4294967295 3 ()).run first).outstanding < 2 ^ 32) ∧
      ((gather 4294967295 3 ()).run wrapping).Fair ∧
      ((gather 4294967295 3 ()).run wrapping).drawn = [(0, 4294967295), (1, 0), (2, 1)] ∧
      ((gather 4294967295 3 ()).run wrapping).granted = [(0, 4294967295), (1, 0)] ∧
      ((gather 4294967295 3 ()).run wrapping).lock.queueLength = 2 := by
  have hfew : ∀ first, first <+: wrapping →
      ((gather 4294967295 3 ()).run first).outstanding < 2 ^ 32 := fun first _ =>
    Nat.lt_of_le_of_lt (outstanding_run_le _ first) (by decide)
  exact ⟨hfew, run_fair 4294967295 3 () wrapping hfew, by decide, by decide, by decide⟩

end Crowd

end WorkStealing
