import WorkStealing.Proofs.Convoy.Arrival
import WorkStealing.Proofs.Convoy.LastSlot
import WorkStealing.Proofs.Convoy.Outcomes
import WorkStealing.Proofs.Deque.Settling

set_option autoImplicit false

/-!
# What removals in line have seen

A removal waits with the index at which it saw its unit. While the line gathers the head stays where
it is. While it is served the head passes only slots that are emptied, and no unit comes back to a
slot for a removal that saw it there before. So, as long as the counters are not rebased, the index
is good when the turn comes, if the unit is still there.
-/
namespace WorkStealing

def LockedStage.seeks : LockedStage → Option UnitId
  | .extract _ u _ _ => some u
  | .steal | .lastSlot _ | .store _ | .rebase _ => none

namespace Deque

/-- The index at which a removal saw its unit lies in the round of the ring that begins at the
head. -/
def Spots (d : Deque) : LockedStage → Prop
  | .extract _ _ i g => g = d.generation ∧ d.head ≤ i ∧ i < d.head + d.ring.capacity
  | .steal | .lastSlot _ | .store _ | .rebase _ => True

/-- So it does if the ring is still the one that was scanned and the unit is still there. -/
def Sights (d : Deque) : LockedStage → Prop
  | .extract _ u i g => g ≤ d.generation ∧ (g = d.generation →
      i < d.head + d.ring.capacity ∧ (d.ring.cell i = some u → d.head ≤ i))
  | .steal | .lastSlot _ | .store _ | .rebase _ => True

/-- What the turn of a call does to the slots of a ring that stays. -/
structure Wends (d : Deque) (call : Call) (d' : Deque) : Prop where
  head_le : d.head ≤ d'.head
  capacity_eq : d'.ring.capacity = d.ring.capacity
  cell : ∀ i u, d'.ring.cell i = some u →
    call = .push u ∨ d.ring.cell i = some u ∧ (d.head ≤ i → d'.head ≤ i)

variable {d d' : Deque} {stage locked : LockedStage} {call : Call}

theorem Spots.sights (h : d.Spots stage) : d.Sights stage := by
  cases stage with
  | extract side u i g =>
    obtain ⟨rfl, hi, hi'⟩ := h
    exact ⟨Nat.le_refl _, fun _ => ⟨hi', fun _ => hi⟩⟩
  | steal | lastSlot | store | rebase => trivial

theorem Spots.of_same (h : d.Spots stage) (hgen : d'.generation = d.generation)
    (hhead : d'.head = d.head) (hcap : d'.ring.capacity = d.ring.capacity) : d'.Spots stage := by
  cases stage with
  | extract side u i g =>
    rw [Spots, hgen, hhead, hcap]
    exact h
  | steal | lastSlot | store | rebase => trivial

theorem Sights.wends (h : d.Sights stage) (hle : d.generation ≤ d'.generation)
    (hd : d'.generation = d.generation → d.Wends call d')
    (hcall : ∀ u, call = .push u → stage.seeks ≠ some u) : d'.Sights stage := by
  cases stage with
  | extract side u i g =>
    obtain ⟨hg, hsight⟩ := h
    refine ⟨Nat.le_trans hg hle, fun hg' => ?_⟩
    have hgen : d'.generation = d.generation := by omega
    obtain ⟨hi, hhead⟩ := hsight (hg'.trans hgen)
    have hw := hd hgen
    have hmove := hw.head_le
    refine ⟨by rw [hw.capacity_eq]; omega, fun hc => ?_⟩
    -- the unit was there before, as no call that may store it stands before the removal
    rcases hw.cell i u hc with hpush | ⟨hc, hpast⟩
    · exact absurd rfl (hcall u hpush)
    · exact hpast (hhead hc)
  | steal | lastSlot | store | rebase => trivial

theorem Wends.of_cells (hhead : d'.head = d.head ∨
      d'.head = d.head + 1 ∧ d'.ring.cell d.head = none)
    (hcap : d'.ring.capacity = d.ring.capacity)
    (hcell : ∀ i u, d'.ring.cell i = some u → call = .push u ∨ d.ring.cell i = some u) :
    d.Wends call d' where
  head_le := by omega
  capacity_eq := hcap
  cell i u hc := by
    refine (hcell i u hc).imp_right fun hc' => ⟨hc', fun hle => ?_⟩
    rcases hhead with hhead | ⟨hhead, hnone⟩
    · rw [hhead]
      exact hle
    · have hne : i ≠ d.head := by
        rintro rfl
        rw [hnone] at hc
        cases hc
      omega

theorem Wends.congr {e e' : Deque} (h : d.Wends call d') (hhead : e.head = d.head)
    (hring : e.ring = d.ring) (hhead' : e'.head = d'.head) (hring' : e'.ring = d'.ring) :
    e.Wends call e' := by
  constructor
  · rw [hhead, hhead']
    exact h.head_le
  · rw [hring, hring']
    exact h.capacity_eq
  · rw [hhead, hring, hhead', hring']
    exact h.cell

theorem Wends.of_ring (hring : d'.ring = d.ring) (hhead : d'.head = d.head) : d.Wends call d' :=
  .of_cells (.inl hhead) (congrArg Ring.capacity hring) fun i u hc => .inr (by rwa [hring] at hc)

theorem Wends.of_put (hr : d.ring.Sound) {i : Nat} (hring : d'.ring = d.ring.put i none)
    (hhead : d'.head = d.head ∨ d.head = i ∧ d'.head = i + 1) : d.Wends call d' := by
  refine .of_cells (hhead.imp_right ?_) (by rw [hring, Ring.capacity_put]) fun j u hc => .inr ?_
  · rintro ⟨rfl, hhead⟩
    rw [hring]
    exact ⟨hhead, hr.cell_put_self ..⟩
  · rw [hring, hr.cell_put] at hc
    split at hc
    · cases hc
    · exact hc

theorem Wends.of_fill (hr : d.ring.Sound) {u : UnitId}
    (hring : d'.ring = d.ring.put d.tail (some u)) (hhead : d'.head = d.head) :
    d.Wends (.push u) d' := by
  refine .of_cells (.inl hhead) (by rw [hring, Ring.capacity_put]) fun i v hc => ?_
  rw [hring, hr.cell_put] at hc
  split at hc
  · exact .inl (congrArg Call.push (Option.some.inj hc))
  · exact .inr hc

theorem Outcome.spots (h : d.Outcome stage (.go locked) d')
    (hround : d.tail ≤ d.head + d.ring.capacity) : d'.Spots locked := by
  cases h with
  | rebased | passed => trivial
  | rescanned _ _ first last => exact ⟨rfl, first, Nat.lt_of_lt_of_le last hround⟩

theorem Outcome.wends {next : Next LockedStage} (h : d.Outcome stage next d')
    (hr : d.ring.Sound) (hstage : ∀ u, stage ≠ .rebase u)
    (hcall : ∀ u, stage = .store u → call = .push u) (hgen : d'.generation = d.generation) :
    d.Wends call d' := by
  cases h with
  | kept | rescanned => exact .of_ring rfl rfl
  | rebased u | rebasedStored u => exact absurd rfl (hstage u)
  | stored u =>
    obtain rfl := hcall u rfl
    exact .of_fill hr rfl rfl
  | grown u _ _ retired =>
    have hmore := (congrArg List.length retired).symm.trans hgen
    exact absurd hmore (Nat.succ_ne_self _)
  | last | extracted => exact .of_put hr rfl (.inl rfl)
  | spent _ hole | passed _ hole => exact .of_cells (.inr ⟨rfl, hole⟩) rfl fun _ _ => .inr
  | stolen | extractedFirst => exact .of_put hr rfl (.inr ⟨rfl, rfl⟩)

end Deque

namespace Site

variable {s : Site} {π : Pledge} {call : Call} {stage : LockedStage} {u : UnitId}

section Turns

variable {ticket : Nat} {side : Side} {rebased : Prop}

/-- What a turn does to the head and the slots, unless it rebases the counters, and what a call has
seen that goes on waiting. -/
theorem Stands.turn_wends (h : s.Stands π) (ha : s.Awaits call stage)
    (hπ : call.isOwner = true → π = stage.pledge) (hstage : ∀ u, stage ≠ .rebase u)
    (hnow : s.deque.foreign.nowServing = ticket) (ahead : Nat) :
    Ensures (call.turn ticket ahead stage s) fun o =>
      (o.2.deque.generation = s.deque.generation → s.deque.Wends call o.2.deque) ∧
        ∀ ticket ahead locked, o.1 = .waiting ticket ahead locked → o.2.deque.Spots locked := by
  have hcall : ∀ u, stage = .store u → call = .push u := by
    rintro u rfl
    cases ha
    rfl
  refine (h.turn_leads ha hπ hnow ahead).mono ?_
  rintro ⟨flight, x⟩ ⟨d, houtcome, hd⟩
  refine ⟨fun hgen => ?_, fun ticket ahead locked hflight => ?_⟩
  · have hgen' : d.generation = s.deque.generation := hd.generation.symm.trans hgen
    exact (houtcome.wends h.ring hstage hcall hgen').congr rfl rfl hd.head hd.ring
  · obtain rfl : flight = .waiting ticket ahead locked := hflight
    exact (houtcome.spots h.tail_le_round).of_same hd.generation hd.head
      (congrArg Ring.capacity hd.ring)

theorem Stands.turn_settles (h : s.Stands π) (ha : s.Awaits (.remove side u) stage)
    (hπ : side = .owner → π = stage.pledge) (hsights : ¬ rebased → s.deque.Sights stage)
    (hnow : s.deque.foreign.nowServing = ticket) (ahead : Nat) :
    Ensures ((Call.remove side u).turn ticket ahead stage s) fun o =>
      o.1 = .landed (.taken u) → s.deque.Settles rebased u o.2.deque := by
  cases ha with
  | removeLast _ hc =>
    obtain rfl := hπ rfl
    refine (h.turn_offers (.removeLast u hc) (by simp) trivial hnow).mono ?_
    rintro x ⟨-, hoffered⟩ -
    have hlow := h.lowered rfl
    refine ⟨fun _ => hoffered.head, fun _ hlt => absurd hlow (Nat.ne_of_lt hlt), fun hc => ?_⟩
    rw [hoffered.slot, hc]
    exact Call.leaves_of_wants (decide_eq_true rfl)
  | extract _ _ i g hg ho =>
    refine (h.turn_leads (.extract side u i g hg ho) (fun hs => hπ (of_decide_eq_true hs)) hnow
      ahead).mono ?_
    rintro ⟨flight, x⟩ ⟨d, houtcome, hd⟩ hflight
    obtain rfl : flight = .landed (.taken u) := hflight
    have hsettles : s.deque.ring.cell i = some u → g = s.deque.generation →
        s.deque.Settles rebased u ((s.grabbed i u).settled i).deque := fun hc hgen => by
      refine settles_grabbed h.ring hc (fun j hj => h.mod_eq_of_cell hc hj) fun hnot => ?_
      obtain ⟨hi, hle⟩ := (hsights hnot).2 hgen
      exact ⟨hle hc, hi⟩
    -- a ring that has grown is looked through again, and the unit is not taken in this turn
    suffices hsettled : s.deque.Settles rebased u d from
      hsettled.congr rfl rfl rfl hd.head hd.ring
    cases houtcome with
    | kept _ hr => exact absurd rfl (hr u)
    | extracted _ held inside =>
      have hstays : (s.grabbed i u).settled i = s.grabbed i u := if_neg inside
      have hsettled := hsettles held rfl
      rw [hstays] at hsettled
      exact hsettled
    | extractedFirst _ shown held =>
      have hmoves : (s.grabbed s.deque.head u).settled s.deque.head =
          (s.grabbed s.deque.head u).setHead (s.deque.head + 1) := if_pos ⟨rfl, shown⟩
      have hsettled := hsettles held rfl
      rw [hmoves] at hsettled
      exact hsettled

end Turns

end Site

/-- What those in line have seen is as `P` says, and no unit that a removal has seen is to be stored
by a call before it. -/
structure Lookout (P : LockedStage → Prop) (line : List Waiter) : Prop where
  sights : ∀ x ∈ line, P x.stage
  behind : line.Pairwise fun x y => ∀ u, x.call = .push u → y.stage.seeks ≠ some u

namespace Lookout

variable {P Q : LockedStage → Prop} {line : List Waiter} {x : Waiter}

theorem join (h : Lookout P line) (hx : P x.stage)
    (hbehind : ∀ y ∈ line, ∀ u, y.call = .push u → x.stage.seeks ≠ some u) :
    Lookout P (line ++ [x]) where
  sights := List.forall_mem_append.2 ⟨h.sights, by simpa using hx⟩
  behind := by
    refine List.pairwise_append.2 ⟨h.behind, List.pairwise_singleton .., fun y hy z hz => ?_⟩
    obtain rfl := List.mem_singleton.1 hz
    exact hbehind y hy

theorem mono (h : Lookout P line) (hPQ : ∀ x ∈ line, P x.stage → Q x.stage) : Lookout Q line :=
  ⟨fun x hx => hPQ x hx (h.sights x hx), h.behind⟩

theorem tail (h : Lookout P (x :: line)) : Lookout P line :=
  ⟨fun y hy => h.sights y (List.mem_cons_of_mem x hy), (List.pairwise_cons.1 h.behind).2⟩

end Lookout

namespace Convoy

variable {c : Convoy} {s s' : Site} {π π' : Pledge} {first : Nat} {flight : Flight}
  {line : List Waiter} {x : Waiter}

theorem Lined.not_cell_of_push (h : Lined s π line) (hx : x ∈ line) {u : UnitId}
    (hcall : x.call = .push u) (i : Nat) : s.deque.ring.cell i ≠ some u := by
  have hawaits := h.awaits x hx
  have hpledge := h.pledge x hx (by rw [hcall]; rfl)
  rw [hcall] at hawaits
  have hstands := h.stands
  rw [hpledge.trans hawaits.pledge_of_push] at hstands
  exact hstands.not_cell_of_pending i

theorem Lined.lookout_board (h : Lined s π c.line) (hlook : Lookout s.deque.Spots c.line)
    {call : Call} (harrives : s.Arrives call flight s')
    (hgen : s'.deque.generation = s.deque.generation) :
    Lookout s'.deque.Spots (c.boarded call flight).line := by
  cases harrives with
  | landed spares =>
    exact hlook.mono fun _ _ hspots => hspots.of_same hgen spares.head spares.capacity
  | @waits ticket ahead stage s' head ring tail shown seen =>
    have hcap := congrArg Ring.capacity ring
    refine (hlook.mono fun _ _ hspots => hspots.of_same hgen head hcap).join ?_
      fun y hy u hcall hseeks => ?_
    · cases stage with
      | extract side u i g =>
        obtain ⟨hg, hi, hi', -⟩ := seen side u i g rfl
        refine Deque.Spots.of_same ?_ hgen head hcap
        exact ⟨hg, hi, Nat.lt_of_lt_of_le hi' h.stands.tail_le_round⟩
      | steal | lastSlot | store | rebase => trivial
    · cases stage with
      | extract side v i g =>
        obtain ⟨-, -, -, hc⟩ := seen side v i g rfl
        exact h.not_cell_of_push hy hcall i (hc.trans hseeks)
      | steal | lastSlot | store | rebase => cases hseeks

/-- What those in line have seen stays good from turn to turn, until the counters are rebased. -/
theorem Sound.lookout_turn (h : c.Sound s π first) (hline : c.line = x :: line)
    (hnow : s.deque.foreign.nowServing = first) (hlook : Lookout s.deque.Sights c.line)
    (hstage : ∀ u, x.stage ≠ .rebase u)
    (hrun : x.call.turn x.ticket x.ahead x.stage s = .ok (flight, s')) {budget : Nat}
    (hcomes : s.Comes π x.call (some x.stage) budget flight s' π')
    (hsound : (c.served x line flight).Sound s' π' (first + 1)) :
    Lookout s'.deque.Sights (c.served x line flight).line := by
  have hx : x ∈ c.line := hline ▸ List.mem_cons_self
  obtain ⟨hwends, hspots⟩ := h.lined.stands.turn_wends (h.lined.awaits x hx) (h.lined.pledge x hx)
    hstage (hnow.trans (h.ticket_eq hline).symm) x.ahead _ hrun
  rw [hline] at hlook
  have hbehind := (List.pairwise_cons.1 hlook.behind).1
  have hrest : Lookout s'.deque.Sights line := hlook.tail.mono fun y hy hsights =>
    hsights.wends hcomes.steps.generation_le hwends (hbehind y hy)
  cases flight with
  | landed r => exact hrest
  | waiting ticket ahead stage =>
    -- it waits again after a new scan, which does not see what others are still to store
    refine hrest.join (hspots ticket ahead stage rfl).sights fun y hy u hcall hseeks => ?_
    cases hcomes.fate with
    | waiting _ _ hs =>
      cases stage with
      | extract side v i g =>
        refine hsound.lined.not_cell_of_push (List.mem_append_left _ hy) hcall i ?_
        exact (hs side v i g rfl).2.trans hseeks
      | steal | lastSlot | store | rebase => cases hseeks

end Convoy

end WorkStealing
