import WorkStealing.Proofs.Convoy.Spending
import WorkStealing.Proofs.Session.Course

set_option autoImplicit false

/-!
# How often the lock is granted

A line is served turn by turn, and each turn belongs to one of the calls that waited when the lock
was let go. So the grants are counted in two ways: all together, by what the line needs and the
holes of the window, and call by call, by the reasons for which a call waits again.
-/
namespace WorkStealing

structure Leg.PassesHole (l : Leg) : Prop where
  shown : l.before.deque.head < l.before.deque.tail
  hole : l.before.deque.ring.cell l.before.deque.head = none
  head : l.after.deque.head = l.before.deque.head + 1
  holes : l.after.deque.holes + 1 = l.before.deque.holes

/-- The turns of a call that waits for a stage, one after the other, until it has landed. -/
inductive Spell (call : Call) : LockedStage → List Leg → Prop
  | lands {stage : LockedStage} {l : Leg} {r : Reply} (called : l.call = call)
    (waited : l.stage = some stage) (landed : l.flight = .landed r) : Spell call stage [l]
  | waits {stage next : LockedStage} {l : Leg} {legs : List Leg} (called : l.call = call)
    (waited : l.stage = some stage)
    (spends : l.before.deque.Spends stage (.go next) l.after.deque)
    (rest : Spell call next legs) : Spell call stage (l :: legs)

namespace Spell

variable {call : Call} {stage : LockedStage} {legs : List Leg}

theorem called (h : Spell call stage legs) : ∀ l ∈ legs, l.call = call := by
  induction h with
  | lands called => exact List.forall_mem_singleton.2 called
  | waits called _ _ _ ih => exact List.forall_mem_cons.2 ⟨called, ih⟩

theorem ne_nil (h : Spell call stage legs) : legs ≠ [] := by
  cases h <;> simp

theorem landed (h : Spell call stage legs) :
    ∃ l r, legs.getLast? = some l ∧ l.flight = .landed r := by
  induction h with
  | lands _ _ landed => exact ⟨_, _, rfl, landed⟩
  | waits _ _ _ rest ih =>
    obtain ⟨l, r, hlast, hflight⟩ := ih
    refine ⟨l, r, ?_, hflight⟩
    rw [List.getLast?_cons_of_ne_nil rest.ne_nil]
    exact hlast

theorem lastSlot {e : Option UnitId} (h : Spell call (.lastSlot e) legs) : legs.length = 1 := by
  cases h with
  | lands => rfl
  | waits _ _ spends => cases spends

theorem store {u : UnitId} (h : Spell call (.store u) legs) :
    legs.map Leg.stage = [some (.store u)] := by
  cases h with
  | lands _ waited => exact congrArg (fun stage => [stage]) waited
  | waits _ _ spends => cases spends

theorem rebase {u : UnitId} (h : Spell call (.rebase u) legs) :
    legs.map Leg.stage = [some (.rebase u)] ∨
      legs.map Leg.stage = [some (.rebase u), some (.store u)] := by
  cases h with
  | lands _ waited => exact .inl (congrArg (fun stage => [stage]) waited)
  | waits _ waited spends rest =>
    cases spends with
    | rebased =>
      right
      rw [List.map_cons, rest.store, waited]

theorem steal (h : Spell call .steal legs) : ∀ l ∈ legs.dropLast, l.PassesHole := by
  generalize hstage : LockedStage.steal = stage at h
  induction h with
  | lands => simp
  | waits _ _ spends rest ih =>
    subst hstage
    cases spends with
    | passed shown hole head holes =>
      rw [List.dropLast_cons_of_ne_nil rest.ne_nil]
      exact List.forall_mem_cons.2 ⟨⟨shown, hole, head, holes⟩, ih rfl⟩

theorem extract {side : Side} {u : UnitId} {i g : Nat} (h : Spell call (.extract side u i g) legs)
    (hlength : legs.length ≤ 2) : ∀ l ∈ legs.dropLast, l.before.deque.generation ≠ g := by
  cases h with
  | lands => simp
  | @waits _ _ l legs _ _ spends rest =>
    have hone : legs.dropLast = [] := by
      rw [← List.length_eq_zero_iff, List.length_dropLast]
      rw [List.length_cons] at hlength
      omega
    rw [List.dropLast_cons_of_ne_nil rest.ne_nil, hone]
    refine List.forall_mem_singleton.2 ?_
    cases spends with
    | rescanned _ stale => exact stale.symm

end Spell

namespace Convoy

/-- The turns by which a line is served, each with the seat of the call that it is the turn of. -/
def rounds : Convoy → Nat → Site → List (Nat × Leg)
  | _, 0, _ => []
  | c, budget + 1, s =>
    match c.line with
    | [] => []
    | x :: line =>
      match x.call.turn x.ticket x.ahead x.stage s with
      | .ok (flight, s') =>
        (x.seat, ⟨x.call, some x.stage, s, flight, s'⟩) :: (c.served x line flight).rounds budget s'
      | .error _ => []

def turnsOf (seat : Nat) (rounds : List (Nat × Leg)) : List Leg :=
  (rounds.filter fun round => round.1 = seat).map Prod.snd

variable {c c' : Convoy} {s s' : Site} {π π' : Pledge} {first : Nat} {x y : Waiter}
  {line : List Waiter} {flight : Flight}

theorem rounds_cons (h : c.line = x :: line)
    (hrun : x.call.turn x.ticket x.ahead x.stage s = .ok (flight, s')) (budget : Nat) :
    c.rounds (budget + 1) s =
      (x.seat, ⟨x.call, some x.stage, s, flight, s'⟩) ::
        (c.served x line flight).rounds budget s' := by
  rw [rounds, h]
  simp only [hrun]

theorem rounds_nil (h : c.line = []) (budget : Nat) (s : Site) : c.rounds budget s = [] := by
  cases budget with
  | zero => rfl
  | succ budget => rw [rounds, h]

theorem grants_served (c : Convoy) (x : Waiter) (line : List Waiter) (flight : Flight) :
    (c.served x line flight).grants = c.grants + 1 := by
  cases flight <;> rfl

/-- Every grant is a round. -/
theorem grants_serve {budget : Nat} (h : serve budget c s = .ok (c', s')) :
    c'.grants = c.grants + (c.rounds budget s).length := by
  induction budget generalizing c s with
  | zero =>
    rw [serve] at h
    cases hline : c.line with
    | nil =>
      rw [hline] at h
      cases h
      rfl
    | cons x line =>
      rw [hline] at h
      cases h
  | succ budget ih =>
    cases hline : c.line with
    | nil =>
      rw [serve, hline] at h
      cases h
      rw [rounds_nil hline]
      rfl
    | cons x line =>
      rw [serve_cons hline] at h
      obtain ⟨⟨flight, s''⟩, hrun, hrest⟩ := Ensures.exists_of_bind h
      have hgrants := ih hrest
      rw [grants_served] at hgrants
      rw [rounds_cons hline hrun, List.length_cons, hgrants, Nat.add_assoc, Nat.add_comm 1]

section Cost

def cost (s : Site) (π : Pledge) (line : List Waiter) : Nat :=
  s.deque.holes + (line.map fun x => s.need π x.stage).sum

theorem cost_served (c : Convoy) (x : Waiter) (line : List Waiter) (flight : Flight) (s : Site)
    (π : Pledge) : cost s π (c.served x line flight).line =
      s.deque.holes + s.due π flight.next +
        (line.map fun x => s.need π x.stage).sum := by
  cases flight with
  | landed r => rfl
  | waiting ticket ahead stage =>
    change s.deque.holes + ((line ++ [_]).map fun y : Waiter => s.need π y.stage).sum =
      s.deque.holes + s.need π stage + _
    rw [List.map_append, List.sum_append, List.map_singleton, List.sum_singleton]
    dsimp only
    omega

theorem Sound.spends_turn (h : c.Sound s π first) (hnow : s.deque.foreign.nowServing = first)
    (hline : c.line = x :: line)
    (hrun : x.call.turn x.ticket x.ahead x.stage s = .ok (flight, s')) :
    s.deque.Spends x.stage flight.next s'.deque := by
  have hx : x ∈ c.line := hline ▸ List.mem_cons_self
  exact h.lined.stands.turn_spends (h.lined.awaits x hx) (h.lined.pledge x hx)
    (hnow.trans (h.ticket_eq hline).symm) x.ahead _ hrun

theorem Sound.cost_turn (h : c.Sound s π first) (hnow : s.deque.foreign.nowServing = first)
    (hline : c.line = x :: line)
    (hrun : x.call.turn x.ticket x.ahead x.stage s = .ok (flight, s')) {budget : Nat}
    (hcomes : s.Comes π x.call (some x.stage) budget flight s' π') :
    cost s' π' (c.served x line flight).line < cost s π c.line := by
  have hx : x ∈ c.line := hline ▸ List.mem_cons_self
  have ha := h.lined.awaits x hx
  have hπ := h.lined.pledge x hx
  have hless := hcomes.spends ha hπ (h.spends_turn hnow hline hrun)
  have hrest := sum_stages_le (f := s'.need π') (g := s.need π)
    (fun l => Nat.add_le_add_right (hcomes.allowance_le ha hπ l) l.scars) line
  rw [cost_served, cost, hline, List.map_cons, List.sum_cons]
  omega

theorem Sound.length_rounds_le (h : c.Sound s π first)
    (hnow : s.deque.foreign.nowServing = first) (budget : Nat) :
    (c.rounds budget s).length ≤ cost s π c.line := by
  induction budget generalizing c s π first with
  | zero => exact Nat.zero_le _
  | succ budget ih =>
    cases hline : c.line with
    | nil =>
      rw [rounds_nil hline]
      exact Nat.zero_le _
    | cons x line =>
      obtain ⟨_, flight, s', π', hrun, hcomes, hsound, hnow', -⟩ := h.turn hnow hline
      have hcost := h.cost_turn hnow hline hrun hcomes
      have hrest := ih hsound hnow'
      rw [hline] at hcost
      rw [rounds_cons hline hrun, List.length_cons]
      omega

/-- While the ring is the one that the removals in line have seen, three grants do for each call. -/
theorem cost_le (h : ∀ x ∈ line, s.deque.Spots x.stage) (π : Pledge) :
    cost s π line ≤ 3 * line.length + s.deque.holes := by
  have hsum : (line.map fun x => s.need π x.stage).sum ≤ 3 * line.length := by
    induction line with
    | nil => exact Nat.le_refl _
    | cons x line ih =>
      obtain ⟨hx, hrest⟩ := List.forall_mem_cons.1 h
      have hallowance := Site.allowance_le_two hx π
      have hscars := x.stage.scars_le_one
      have hneed : s.need π x.stage = s.allowance π x.stage + x.stage.scars := rfl
      have hline := ih hrest
      rw [List.map_cons, List.sum_cons, List.length_cons]
      omega
  rw [cost]
  omega

end Cost

section Seats

theorem turnsOf_cons_self (seat : Nat) (l : Leg) (rounds : List (Nat × Leg)) :
    turnsOf seat ((seat, l) :: rounds) = l :: turnsOf seat rounds := by
  rw [turnsOf, List.filter_cons_of_pos (by simp)]
  rfl

theorem turnsOf_cons_of_ne {i seat : Nat} (h : i ≠ seat) (l : Leg) (rounds : List (Nat × Leg)) :
    turnsOf seat ((i, l) :: rounds) = turnsOf seat rounds := by
  rw [turnsOf, List.filter_cons_of_neg (by simpa using h)]
  rfl

theorem mem_served (h : y ∈ line) : y ∈ (c.served x line flight).line := by
  cases flight with
  | landed r => exact h
  | waiting => exact List.mem_append_left _ h

theorem turnsOf_of_not_mem {seat : Nat} (h : ∀ x ∈ c.line, x.seat ≠ seat) (budget : Nat)
    (s : Site) : turnsOf seat (c.rounds budget s) = [] := by
  induction budget generalizing c s with
  | zero => rfl
  | succ budget ih =>
    cases hline : c.line with
    | nil =>
      rw [rounds_nil hline]
      rfl
    | cons x line =>
      rw [hline] at h
      obtain ⟨hx, hrest⟩ := List.forall_mem_cons.1 h
      cases hrun : x.call.turn x.ticket x.ahead x.stage s with
      | error e =>
        rw [rounds, hline]
        simp only [hrun]
        rfl
      | ok o =>
        obtain ⟨flight, s'⟩ := o
        rw [rounds_cons hline hrun, turnsOf_cons_of_ne hx]
        apply ih
        cases flight with
        | landed r => exact hrest
        | waiting ticket ahead stage =>
          exact List.forall_mem_append.2 ⟨hrest, List.forall_mem_singleton.2 hx⟩

theorem exists_seat_of_mem_rounds {budget : Nat} {round : Nat × Leg}
    (h : round ∈ c.rounds budget s) : ∃ x ∈ c.line, x.seat = round.1 := by
  by_contra hnone
  have hmem : round.2 ∈ turnsOf round.1 (c.rounds budget s) :=
    List.mem_map.2 ⟨round, List.mem_filter.2 ⟨h, decide_eq_true rfl⟩, rfl⟩
  rw [turnsOf_of_not_mem fun x hx hseat => hnone ⟨x, hx, hseat⟩] at hmem
  cases hmem

/-- The turns of a call in line, and how many there are if it is not a steal. -/
theorem Sound.spell (h : c.Sound s π first) (hnow : s.deque.foreign.nowServing = first)
    (hx : x ∈ c.line) {budget : Nat} (hbudget : load s π c.line ≤ budget) :
    Spell x.call x.stage (turnsOf x.seat (c.rounds budget s)) ∧
      (x.stage ≠ .steal →
        (turnsOf x.seat (c.rounds budget s)).length ≤ s.allowance π x.stage) := by
  induction budget generalizing c s π first x with
  | zero =>
    obtain ⟨y, line, hline⟩ := List.exists_cons_of_ne_nil (List.ne_nil_of_mem hx)
    have hpos := s.weight_pos π y.stage
    rw [hline, load, List.map_cons, List.sum_cons] at hbudget
    omega
  | succ budget ih =>
    obtain ⟨y, line, hline⟩ := List.exists_cons_of_ne_nil (List.ne_nil_of_mem hx)
    obtain ⟨_, flight, s', π', hrun, hcomes, hsound, hnow', hload⟩ := h.turn hnow hline
    have hy : y ∈ c.line := hline ▸ List.mem_cons_self
    have ha := h.lined.awaits y hy
    have hπ := h.lined.pledge y hy
    have hspends := h.spends_turn hnow hline hrun
    have hbudget' : load s' π' (c.served y line flight).line ≤ budget := by omega
    have hseats := h.seats
    rw [hline, List.map_cons, List.nodup_cons] at hseats
    rw [rounds_cons hline hrun]
    rw [hline] at hx
    rcases List.mem_cons.1 hx with rfl | hx
    · rw [turnsOf_cons_self]
      cases flight with
      | landed r =>
        -- its seat is free, and nobody else takes it
        have hnone : turnsOf x.seat ((c.served x line (.landed r)).rounds budget s') = [] :=
          turnsOf_of_not_mem (fun z hz hzx => hseats.1 (List.mem_map.2 ⟨z, hz, hzx⟩)) budget s'
        rw [hnone]
        exact ⟨.lands rfl rfl rfl, fun _ => s.allowance_pos π x.stage⟩
      | waiting ticket ahead next =>
        have hmem : { x with ticket, ahead, stage := next } ∈
            (c.served x line (.waiting ticket ahead next)).line :=
          List.mem_append_right line (List.mem_singleton_self _)
        obtain ⟨hrest, hlength⟩ := ih hsound hnow' hmem hbudget'
        refine ⟨.waits rfl rfl hspends hrest, fun hstage => ?_⟩
        have hnext : next ≠ .steal := by
          rintro rfl
          exact hstage hspends.eq_steal
        have hmore := hcomes.allowance_next_le ha hπ hspends
        have hless := hlength hnext
        rw [if_neg hstage] at hmore
        rw [List.length_cons]
        exact Nat.le_trans (Nat.succ_le_succ hless) hmore
    · have hne : y.seat ≠ x.seat := fun hyx =>
        hseats.1 (List.mem_map.2 ⟨x, hx, hyx.symm⟩)
      rw [turnsOf_cons_of_ne hne]
      obtain ⟨hspell, hlength⟩ := ih hsound hnow' (mem_served hx) hbudget'
      exact ⟨hspell, fun hstage => Nat.le_trans (hlength hstage)
        (hcomes.allowance_le ha hπ x.stage)⟩

end Seats

end Convoy

end WorkStealing
