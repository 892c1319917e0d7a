import WorkStealing.Proofs.Deque.Solo

set_option autoImplicit false

/-!
# Settling the head

A removal that empties the head slot brings the head past it, so that it does not leave a hole
there. It knows the slot by the index at which it saw the unit, and goes wrong if the counters were
rebased since.
-/
namespace WorkStealing

/-- What the removal of `u` does to the head. It may have seen `u` before the counters were
`rebased`. -/
structure Deque.Settles (rebased : Prop) (u : UnitId) (d d' : Deque) : Prop where
  elsewhere : d.ring.cell d.head ≠ some u ∨ d.tail ≤ d.head → d'.head = d.head
  boundary : d.ring.cell d.head = some u → d.head < d.tail →
    d'.head = d.head + 1 ∨ rebased ∧ d'.head = d.head
  emptied : d.ring.cell d.head = some u → d'.ring.cell d.head = none

theorem Deque.Settles.congr {rebased : Prop} {u : UnitId} {d d' e e' : Deque}
    (h : d.Settles rebased u d') (hhead : e.head = d.head) (htail : e.tail = d.tail)
    (hring : e.ring = d.ring) (hhead' : e'.head = d'.head) (hring' : e'.ring = d'.ring) :
    e.Settles rebased u e' := by
  constructor
  · rw [hhead, htail, hring, hhead']
    exact h.elsewhere
  · rw [hhead, htail, hring, hhead']
    exact h.boundary
  · rw [hhead, hring, hring']
    exact h.emptied

namespace Site

variable {s : Site} {u : UnitId} {i : Nat} {rebased : Prop}

theorem settles_grabbed (hr : s.deque.ring.Sound) (hc : s.deque.ring.cell i = some u)
    (hmod : ∀ j, s.deque.ring.cell j = some u →
      i % s.deque.ring.capacity = j % s.deque.ring.capacity)
    (hi : ¬ rebased → s.deque.head ≤ i ∧ i < s.deque.head + s.deque.ring.capacity) :
    s.deque.Settles rebased u ((s.grabbed i u).settled i).deque := by
  by_cases hfront : s.deque.head = i ∧ i < s.deque.tail
  · have hsettled : (s.grabbed i u).settled i = (s.grabbed i u).setHead (i + 1) := if_pos hfront
    obtain ⟨rfl, hlt⟩ := hfront
    rw [hsettled]
    refine ⟨fun hother => ?_, fun _ _ => .inl rfl, fun _ => hr.cell_put_self ..⟩
    rcases hother with hne | hle
    · exact absurd hc hne
    · omega
  · have hsettled : (s.grabbed i u).settled i = s.grabbed i u := if_neg hfront
    rw [hsettled]
    refine ⟨fun _ => rfl, fun hhead hlt => .inr ⟨by_contra fun hnot => hfront ?_, rfl⟩,
      fun hhead => ?_⟩
    · obtain ⟨hle, hround⟩ := hi hnot
      obtain rfl := eq_of_mod_eq s.deque.head hle hround (Nat.le_refl _) (by omega) (hmod _ hhead)
      exact ⟨rfl, hlt⟩
    · change (s.deque.ring.put i none).cell s.deque.head = none
      rw [hr.cell_put, if_pos (hmod _ hhead).symm]

theorem scan_settles (h : s.Sound []) (hu : s.deque.Unlocked) (side : Side) (u : UnitId)
    (grants : Nat) :
    Ensures (s.scan side u >>= (Call.remove side u).proceed (grants + 1)) fun o =>
      o.1 = .landed (.taken u) → s.deque.Settles False u o.2.deque := by
  by_cases hseen : ∃ i, s.deque.head ≤ i ∧ i < s.scanEnd side ∧ s.deque.ring.cell i = some u
  · obtain ⟨i, hi, hi', hc⟩ := hseen
    obtain ⟨j, hj, hj', hcj, hscan⟩ := scan_found h.deque side hi hi' hc
    have hround := h.deque.lt_round
    have hmax := h.deque.tail_le
    have hextract := extract_taken (s := s.held) h.deque.ring hcj (h.knows_of_cell hcj)
      (show s.deque.head < Word.max by omega) side
    have hsettles : s.held.deque.Settles False u ((s.held.grabbed j u).settled j).deque :=
      settles_grabbed h.deque.ring hcj (fun k => h.deque.mod_eq_of_cell h.nodup_queued hcj)
        fun _ => ⟨hj, by change j < s.deque.head + s.deque.ring.capacity; omega⟩
    rw [hscan, ok_bind, Call.proceed_go hu, LockedStage.run]
    change Ensures (s.held.extract side u j s.held.deque.generation >>= _) _
    rw [hextract, ok_bind, Call.resume_reply, Call.proceed]
    refine .bind (Call.conclude_deque _ _ _) ?_
    rintro x ⟨m, hm⟩
    refine .ok fun _ => ?_
    dsimp only
    rw [hm]
    exact hsettles.congr rfl rfl rfl rfl rfl
  · rw [scan_missed h.deque.ring (Nat.le_of_lt h.deque.lt_round) side fun i hi hi' hc =>
      hseen ⟨i, hi, hi', hc⟩, ok_bind, Call.proceed]
    refine .bind (.trivial _) fun _ _ => .ok ?_
    simp

theorem start_settles (h : s.Sound []) (hu : s.deque.Unlocked) {side : Side}
    (hc : (Call.remove side u).Admissible s.units)
    (hlast : side = .owner → s.deque.ring.cell (s.deque.tail - 1) ≠ some u) :
    Ensures ((Call.remove side u).start s) fun o =>
      o.1 = .landed (.taken u) → s.deque.Settles False u o.2.deque := by
  have hmissed : Ensures ((Call.remove side u).proceed (s.deque.length + 8 + 1)
      (.reply .missed, s)) fun o =>
        o.1 = .landed (.taken u) → s.deque.Settles False u o.2.deque :=
    .bind (.trivial _) fun _ _ => .ok (by simp)
  rw [Call.start_eq]
  change Ensures (s.remove side u >>= (Call.remove side u).proceed (s.deque.length + 8 + 1)) _
  by_cases hheld : s.units.holder? u = some s.deque.id
  · cases side with
    | foreign =>
      rw [remove_foreign hheld]
      exact scan_settles h hu .foreign u _
    | owner =>
      rw [remove_owner h.deque.ring hheld, if_neg (hlast rfl)]
      split
      · exact hmissed
      · exact scan_settles h hu .owner u _
  · rw [remove_elsewhere (hc u rfl).knows hheld side]
    exact hmissed

end Site

end WorkStealing
