import WorkStealing.Proofs.Convoy.Sights
import WorkStealing.Proofs.Deque.Holes

set_option autoImplicit false

/-!
# What a turn costs

A call whose turn comes lands or goes on waiting. It goes on waiting for a reason: the counters had
to be brought back, a hole was in its way, or the ring had grown since it looked. Every turn takes
one grant off what those in line need, where a hole counts as a grant and a removal may leave one.
-/
namespace WorkStealing

def LockedStage.scars : LockedStage → Nat
  | .extract .. => 1
  | .steal | .lastSlot _ | .store _ | .rebase _ => 0

theorem LockedStage.scars_le_one (stage : LockedStage) : stage.scars ≤ 1 := by
  cases stage with
  | extract => exact Nat.le_refl 1
  | steal | lastSlot | store | rebase => exact Nat.zero_le 1

namespace Deque

variable {d d' e : Deque}

section Holes

theorem Matches.holes (h : d.Matches e) : e.holes = d.holes := by
  refine congrArg (List.count none) (window_congr ?_ fun k _ => ?_)
  · rw [length, length, h.head, h.tail]
  · rw [h.ring, h.head]

theorem Sound.holes_vacate (h : d.Sound) (hn : d.queued.Nodup) {i : Nat} {u : UnitId}
    (hc : d.ring.cell i = some u) : (d.vacate i).holes = d.holes + 1 := by
  have hu : u ∈ Slots.units d.window := h.mem_queued_iff.2 ⟨i, hc⟩
  have hbefore := Slots.length_eq d.window
  have hafter := Slots.length_eq (Slots.punch d.window u)
  have hpos := List.length_pos_of_mem hu
  rw [Slots.units_punch hn, List.length_erase_of_mem hu, Slots.punch, List.length_map] at hafter
  rw [holes, holes, h.window_vacate_punch hn hc, Slots.punch]
  omega

end Holes

/-- What the turn of a call that has waited for a stage comes to: it is the last one of the call, or
the call goes on waiting for the next stage, with a reason. -/
inductive Spends (d : Deque) : LockedStage → Next LockedStage → Deque → Prop
  | lands {stage : LockedStage} {r : Reply} {d' : Deque} (holes : d'.holes ≤ d.holes + stage.scars)
    (generation : d'.generation ≤ d.generation + 1) : Spends d stage (.reply r) d'
  | rebased {d' : Deque} (u : UnitId) (holes : d'.holes = d.holes)
    (generation : d'.generation = d.generation) : Spends d (.rebase u) (.go (.store u)) d'
  | passed {d' : Deque} (shown : d.head < d.tail) (hole : d.ring.cell d.head = none)
    (head : d'.head = d.head + 1) (holes : d'.holes + 1 = d.holes)
    (generation : d'.generation = d.generation) : Spends d .steal (.go .steal) d'
  | rescanned {d' : Deque} {side : Side} {u : UnitId} {i g : Nat} (j : Nat)
    (stale : g ≠ d.generation) (holes : d'.holes = d.holes)
    (generation : d'.generation = d.generation) :
    Spends d (.extract side u i g) (.go (.extract side u j d.generation)) d'

variable {stage : LockedStage} {next : Next LockedStage}

theorem Spends.congr (h : d.Spends stage next d') (he : d'.Matches e) :
    d.Spends stage next e := by
  have hholes := he.holes
  have hgen := he.generation
  cases h with
  | lands holes generation =>
    exact .lands (hholes.trans_le holes) (hgen.trans_le generation)
  | rebased u holes generation => exact .rebased u (hholes.trans holes) (hgen.trans generation)
  | passed shown hole head holes generation =>
    exact .passed shown hole (he.head.trans head) ((congrArg (· + 1) hholes).trans holes)
      (hgen.trans generation)
  | rescanned j stale holes generation =>
    exact .rescanned j stale (hholes.trans holes) (hgen.trans generation)

theorem Spends.generation_le (h : d.Spends stage next d') :
    d'.generation ≤ d.generation + 1 := by
  cases h with
  | lands _ generation => exact generation
  | rebased _ _ generation | passed _ _ _ _ generation | rescanned _ _ _ generation => omega

theorem Spends.eq_steal (h : d.Spends stage (.go .steal) d') : stage = .steal := by
  cases h
  rfl

end Deque

namespace Site

variable {s s' : Site} {π π' : Pledge} {call : Call} {stage : LockedStage} {u : UnitId}

section Outcomes

theorem Stands.holes_vacate_le (h : s.Stands π) {i : Nat} (hc : s.deque.ring.cell i = some u) :
    (s.deque.vacate i).holes ≤ s.deque.holes + 1 := by
  by_cases hlt : s.deque.head < s.deque.tail
  · have hs := h.sound_of_lt hlt
    exact Nat.le_of_eq (hs.deque.holes_vacate hs.nodup_queued hc)
  · rw [Deque.holes_eq_zero (d := s.deque.vacate i) (Nat.le_of_not_lt hlt)]
    exact Nat.zero_le _

theorem Stands.outcome_spends (h : s.Stands π) {next : Next LockedStage} {d : Deque}
    (ho : s.deque.Outcome stage next d) : s.deque.Spends stage next d := by
  have hfront : s.deque.head < s.deque.tail → s.deque.Sound := fun hlt =>
    (h.sound_of_lt hlt).deque
  cases ho with
  | kept => exact .lands (Nat.le_add_right ..) (Nat.le_succ _)
  | rebased u sound low =>
    exact .rebased u (congrArg (List.count none) (sound.rebased low).2.2) rfl
  | rebasedStored u sound low =>
    obtain ⟨-, hd, hwindow⟩ := sound.rebased low
    refine .lands (Nat.le_of_eq ((hd.holes_fill u).trans ?_)) (Nat.le_succ _)
    exact congrArg (List.count none) hwindow
  | stored u sound => exact .lands (Nat.le_of_eq (sound.holes_fill u)) (Nat.le_succ _)
  | grown u sound grows retired =>
    -- the units move to the larger ring as they are, holes included
    obtain ⟨hd, hwindow⟩ := sound.grown grows retired
    refine .lands (Nat.le_of_eq ((hd.holes_fill u).trans ?_)) ?_
    · exact congrArg (List.count none) hwindow
    · exact Nat.le_of_eq (congrArg List.length retired)
  | last e low _ =>
    refine .lands ?_ (Nat.le_succ _)
    rw [Deque.holes_eq_zero (d := s.deque.vacate s.deque.tail) low]
    exact Nat.zero_le _
  | spent shown hole =>
    have hless := Deque.holes_dropFront shown hole
    exact .lands (Nat.le_of_lt (Nat.lt_of_succ_le (Nat.le_of_eq hless))) (Nat.le_succ _)
  | passed shown hole => exact .passed shown hole rfl (Deque.holes_dropFront shown hole) rfl
  | stolen shown held =>
    exact .lands (Nat.le_of_eq ((hfront shown).holes_takeFront shown held)) (Nat.le_succ _)
  | extracted side held => exact .lands (h.holes_vacate_le held) (Nat.le_succ _)
  | extractedFirst side shown held =>
    exact .lands (Nat.le_succ_of_le (Nat.le_of_eq ((hfront shown).holes_takeFront shown held)))
      (Nat.le_succ _)
  | rescanned side stale => exact .rescanned _ stale rfl rfl

theorem Stands.turn_spends (h : s.Stands π) (ha : s.Awaits call stage)
    (hπ : call.isOwner = true → π = stage.pledge) {ticket : Nat}
    (hnow : s.deque.foreign.nowServing = ticket) (ahead : Nat) :
    Ensures (call.turn ticket ahead stage s) fun o =>
      s.deque.Spends stage o.1.next o.2.deque := by
  refine (h.turn_leads ha hπ hnow ahead).mono ?_
  rintro o ⟨d, houtcome, hd⟩
  exact (h.outcome_spends houtcome).congr hd

end Outcomes

section Needs

/-- A bound on the grants that a call in line still needs, next to one for each hole that it passes.
The weight of a push also counts the slot that it adds to the window. -/
def allowance (s : Site) (π : Pledge) (stage : LockedStage) : Nat :=
  s.weight π stage - stage.pledge.pending.length

/-- What a call in line still needs, with the hole that it may leave. -/
def need (s : Site) (π : Pledge) (stage : LockedStage) : Nat := s.allowance π stage + stage.scars

theorem allowance_pos (s : Site) (π : Pledge) (stage : LockedStage) :
    0 < s.allowance π stage := by
  cases stage with
  | extract side u i g => exact s.weight_pos π (.extract side u i g)
  | steal | lastSlot | store | rebase => exact Nat.succ_pos _

/-- A removal that has seen the ring as it is looks again at most once, as one unit at most is still
to be placed. -/
theorem allowance_le_two (h : s.deque.Spots stage) (π : Pledge) : s.allowance π stage ≤ 2 := by
  have hpending := π.length_pending_le
  cases stage with
  | extract side u i g =>
    change 1 + (if g = s.deque.generation then 0 else 1) + π.pending.length ≤ 2
    rw [if_pos h.1]
    omega
  | steal | lastSlot | store => exact Nat.le_succ 1
  | rebase u => exact Nat.le_refl 2

theorem Comes.allowance_le {locked : LockedStage} {budget : Nat} {flight : Flight}
    (h : s.Comes π call (some locked) budget flight s' π') (ha : s.Awaits call locked)
    (hπ : call.isOwner = true → π = locked.pledge) (stage : LockedStage) :
    s'.allowance π' stage ≤ s.allowance π stage :=
  Nat.sub_le_sub_right (weight_le (h.lightens ha hπ) stage) _

/-- What a call needs is less after its turn, or it was a steal and has passed a hole. -/
theorem Comes.allowance_next_le {budget : Nat} {flight : Flight} {next : LockedStage}
    (h : s.Comes π call (some stage) budget flight s' π') (ha : s.Awaits call stage)
    (hπ : call.isOwner = true → π = stage.pledge)
    (hspends : s.deque.Spends stage (.go next) s'.deque) :
    s'.allowance π' next + (if stage = .steal then 0 else 1) ≤ s.allowance π stage := by
  have hlight := h.lightens ha hπ
  cases hspends with
  | rebased | passed => exact Nat.le_refl _
  | @rescanned _ side u i g j stale _ generation =>
    have hpending : π'.pending.length ≤ π.pending.length := by omega
    change 1 + (if s.deque.generation = s'.deque.generation then 0 else 1) + π'.pending.length + 1 ≤
      1 + (if g = s.deque.generation then 0 else 1) + π.pending.length
    rw [if_pos generation.symm, if_neg stale]
    omega

theorem Comes.generation_le {budget : Nat} {flight : Flight} {next : Next LockedStage}
    (h : s.Comes π call (some stage) budget flight s' π') (ha : s.Awaits call stage)
    (hπ : call.isOwner = true → π = stage.pledge)
    (hspends : s.deque.Spends stage next s'.deque) :
    s'.deque.generation + π'.pending.length ≤ s.deque.generation + π.pending.length := by
  have hlight := h.lightens ha hπ
  have hgen := hspends.generation_le
  omega

def due (s : Site) (π : Pledge) : Next LockedStage → Nat
  | .reply _ => 0
  | .go stage => s.need π stage

/-- Every turn takes a grant off what the call needs and what the holes stand for. -/
theorem Comes.spends {budget : Nat} {flight : Flight} {next : Next LockedStage}
    (h : s.Comes π call (some stage) budget flight s' π') (ha : s.Awaits call stage)
    (hπ : call.isOwner = true → π = stage.pledge)
    (hspends : s.deque.Spends stage next s'.deque) :
    s'.deque.holes + s'.due π' next < s.deque.holes + s.need π stage := by
  cases next with
  | reply r =>
    have hpos := s.allowance_pos π stage
    cases hspends with
    | lands holes =>
      rw [due, need]
      omega
  | go next =>
    have hless := h.allowance_next_le ha hπ hspends
    rw [due, need, need]
    cases hspends with
    | rebased _ holes =>
      rw [if_neg (by simp)] at hless
      change _ + (_ + 0) < _ + (_ + 0)
      omega
    | passed _ _ _ holes =>
      rw [if_pos rfl] at hless
      omega
    | rescanned _ _ holes =>
      rw [if_neg (by simp)] at hless
      change _ + (_ + 1) < _ + (_ + 1)
      omega

end Needs

end Site

end WorkStealing
