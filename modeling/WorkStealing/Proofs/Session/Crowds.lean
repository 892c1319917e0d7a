import WorkStealing.Proofs.Session.Paths
import WorkStealing.Proofs.TicketLock.Fairness
import WorkStealing.Proofs.TicketLock.Narrowing

set_option autoImplicit false

/-!
# Convoys as crowds

The calls of a convoy are threads at the lock of their pool. With their tickets cut down to machine
words they stand as the threads of a fair crowd do, at every turn of every session.
-/
namespace WorkStealing

/-- The call with the ticket that it drew, as a thread that has yet to look. -/
def Waiter.stand (w : Waiter) : LockStand := .waiting (.ofNat w.ticket) 0

namespace Convoy

def stand (c : Convoy) (seat : Nat) : LockStand :=
  ((c.line.find? fun w => w.seat = seat).map Waiter.stand).getD .away

def queue (c : Convoy) : List (Nat × UInt32) :=
  c.line.map fun w => (w.seat, .ofNat w.ticket)

/-- The calls around the lock that was let go. -/
def crowd (c : Convoy) (s : Site) : Crowd (List Ring) where
  lock := s.deque.foreign.narrow
  stands := (List.range c.passages.size).map c.stand
  drawn := c.queue
  granted := []

variable {c : Convoy} {s : Site} {π : Pledge} {first : Nat}

theorem stand_cases (c : Convoy) (t : Nat) :
    (c.stand t = .away ∧ ∀ w ∈ c.line, w.seat ≠ t) ∨
      ∃ w ∈ c.line, w.seat = t ∧ c.stand t = w.stand := by
  unfold stand
  cases hfind : c.line.find? fun w => w.seat = t with
  | none =>
    refine .inl ⟨rfl, ?_⟩
    simpa using hfind
  | some w =>
    have hseat : w.seat = t := by simpa using List.find?_some hfind
    exact .inr ⟨w, List.mem_of_find?_eq_some hfind, hseat, rfl⟩

theorem stand_ne_away_iff (c : Convoy) (t : Nat) :
    c.stand t ≠ .away ↔ t ∈ c.line.map Waiter.seat := by
  rw [List.mem_map]
  rcases stand_cases c t with ⟨haway, hnone⟩ | ⟨w, hw, hseat, hstand⟩
  · refine iff_of_false (fun hne => hne haway) ?_
    rintro ⟨w, hw, hseat⟩
    exact hnone w hw hseat
  · refine iff_of_true ?_ ⟨w, hw, hseat⟩
    rw [hstand]
    exact LockStand.noConfusion

theorem Sound.stand_seat (h : c.Sound s π first) {w : Waiter} (hw : w ∈ c.line) :
    c.stand w.seat = w.stand := by
  rcases stand_cases c w.seat with ⟨-, hnone⟩ | ⟨v, hv, hseat, hstand⟩
  · exact absurd rfl (hnone w hw)
  · rw [hstand, List.inj_on_of_nodup_map h.seats hv hw hseat]

theorem crowd_stand {t : Nat} {stand : LockStand} (h : (c.crowd s).stands[t]? = some stand) :
    c.stand t = stand := by
  change ((List.range c.passages.size).map c.stand)[t]? = some stand at h
  rw [List.getElem?_map] at h
  obtain ⟨i, hi, hstand⟩ := Option.map_eq_some_iff.1 h
  obtain ⟨hlt, rfl⟩ := List.getElem?_eq_some_iff.1 hi
  rw [List.getElem_range] at hstand
  exact hstand

theorem Sound.crowd_seat (h : c.Sound s π first) {w : Waiter} (hw : w ∈ c.line) :
    (c.crowd s).stands[w.seat]? = some w.stand := by
  change ((List.range c.passages.size).map c.stand)[w.seat]? = some w.stand
  rw [List.getElem?_map, List.getElem?_range (h.lt_size hw), Option.map_some, h.stand_seat hw]

theorem Sound.outstanding_crowd (h : c.Sound s π first) :
    (c.crowd s).outstanding = c.line.length := by
  have hcount : (c.crowd s).outstanding =
      ((List.range c.passages.size).filter fun t => t ∈ c.line.map Waiter.seat).length := by
    change ((List.range c.passages.size).map c.stand).countP _ = _
    rw [List.countP_map, List.countP_eq_length_filter]
    congr 1
    apply List.filter_congr
    intro t _
    exact decide_eq_decide.2 (stand_ne_away_iff c t)
  have hperm : ((List.range c.passages.size).filter fun t => t ∈ c.line.map Waiter.seat).Perm
      (c.line.map Waiter.seat) := by
    apply (List.perm_ext_iff_of_nodup (List.nodup_range.filter _) h.seats).2
    intro t
    rw [List.mem_filter, List.mem_range, decide_eq_true_iff, and_iff_right_iff_imp]
    intro ht
    obtain ⟨w, hw, rfl⟩ := List.mem_map.1 ht
    exact h.lt_size hw
  rw [hcount, hperm.length_eq, List.length_map]

theorem Sound.lined_crowd (h : c.Sound s π first) (hnow : s.deque.foreign.nowServing = first) :
    (c.crowd s).Lined none c.queue where
  holds t := by
    refine iff_of_false ?_ (by simp)
    rintro ⟨waited, hheld⟩
    have hholding := crowd_stand hheld
    rcases stand_cases c t with ⟨haway, -⟩ | ⟨w, -, -, hstand⟩
    · cases haway.symm.trans hholding
    · cases hstand.symm.trans hholding
  waits t ticket := by
    constructor
    · rintro ⟨waited, hwaits⟩
      have hwaiting := crowd_stand hwaits
      rcases stand_cases c t with ⟨haway, -⟩ | ⟨w, hw, hseat, hstand⟩
      · cases haway.symm.trans hwaiting
      · cases hstand.symm.trans hwaiting
        exact List.mem_map.2 ⟨w, hw, congrArg (·, _) hseat⟩
    · intro hmem
      obtain ⟨w, hw, heq⟩ := List.mem_map.1 hmem
      cases heq
      exact ⟨0, h.crowd_seat hw⟩
  distinct := by
    rw [queue, List.map_map]
    exact h.seats
  tickets i t ticket hi := by
    rw [queue, List.getElem?_map] at hi
    obtain ⟨w, hw, heq⟩ := Option.map_eq_some_iff.1 hi
    cases heq
    have hticket := congrArg (fun tickets => tickets[i]?) h.tickets
    have hlt := (List.getElem?_eq_some_iff.1 hw).1
    simp only [List.getElem?_map, hw, Option.map_some, List.getElem?_range' hlt, Nat.one_mul,
      Option.some.injEq] at hticket
    change UInt32.ofNat w.ticket = UInt32.ofNat s.deque.foreign.nowServing + UInt32.ofNat (0 + i)
    rw [hticket, hnow, Nat.zero_add, UInt32.ofNat_add]
  counted := by
    rw [h.outstanding_crowd, queue, List.length_map]
    exact (Nat.zero_add _).symm
  next := by
    rw [h.outstanding_crowd]
    change UInt32.ofNat s.deque.foreign.nextTicket =
      UInt32.ofNat s.deque.foreign.nowServing + UInt32.ofNat c.line.length
    rw [h.next, hnow, UInt32.ofNat_add]
  order := rfl

theorem Sound.fair_crowd (h : c.Sound s π first) (hnow : s.deque.foreign.nowServing = first)
    (hfew : c.line.length < 2 ^ 32) : (c.crowd s).Fair :=
  (h.lined_crowd hnow).fair (by rw [h.outstanding_crowd]; exact hfew)

end Convoy

/-- The call of a turn stands in a fair crowd at a lock that may as well count in words, and is the
one that is served. -/
def Leg.FairTurn (l : Leg) : Prop :=
  l.before.deque.foreign.ServesAlike ∧
    ∃ (c : Convoy) (x : Waiter), x ∈ c.line ∧ x.call = l.call ∧ some x.stage = l.stage ∧
      (c.crowd l.before).Fair ∧ (c.crowd l.before).Served x.seat

theorem Leg.Ran.fairTurn {l : Leg} (h : l.Ran) (hstage : l.stage ≠ none)
    (hfew : l.before.deque.foreign.queueLength < 2 ^ 32) : l.FairTurn := by
  cases h with
  | alone | boards => exact absurd rfl hstage
  | @turns c x line s _ _ _ _ first _ sound front served run comes =>
    have hnext := sound.next
    have hline : c.line.length < 2 ^ 32 := by
      change s.deque.foreign.nextTicket - s.deque.foreign.nowServing < 2 ^ 32 at hfew
      omega
    have hx : x ∈ c.line := front ▸ List.mem_cons_self
    have hticket : x.ticket = s.deque.foreign.nowServing := by
      have htickets := sound.tickets
      rw [front, List.map_cons, List.length_cons, List.range'_succ] at htickets
      exact (List.cons.inj htickets).1.trans served.symm
    have hle : s.deque.foreign.nowServing ≤ s.deque.foreign.nextTicket := by omega
    refine ⟨TicketLock.servesAlike hle hfew, c, x, hx, rfl, rfl, sound.fair_crowd served hline,
      .inr ⟨0, ?_⟩⟩
    rw [sound.crowd_seat hx, Waiter.stand, hticket]
    rfl

namespace World

theorem Sound.course_ran {w : World} (h : w.Sound none none) (ops : List Op) {l : Leg}
    (hmem : .leg l ∈ w.course ops) : l.Ran := by
  induction ops generalizing w with
  | nil => cases hmem
  | cons op ops ih =>
    have hu : w.unlogged.Sound none none := h.congr rfl rfl h.counted fun _ => rfl
    obtain ⟨report, w', hstep, hw'⟩ := h.step op
    rw [course, hstep] at hmem
    rcases List.mem_append.1 hmem with hmem | hmem
    · split at hmem
      · cases hmem
      · obtain ⟨a, v, hrun, -⟩ := hu.act op
        exact (hu.leads_act op _ hrun).ran hmem
    · exact ih hw' hmem

/-- In every session, whoever takes a turn at the lock of a pool is the one whom words would
serve. -/
theorem run_turns_fair (telemetry hooks : Bool) (ops : List Op) {l : Leg}
    (hmem : .leg l ∈ (start telemetry hooks).course ops) (hstage : l.stage ≠ none)
    (hfew : l.before.deque.foreign.queueLength < 2 ^ 32) :
    l.FairTurn :=
  ((sound_start telemetry hooks).course_ran ops hmem).fairTurn hstage hfew

end World

end WorkStealing
