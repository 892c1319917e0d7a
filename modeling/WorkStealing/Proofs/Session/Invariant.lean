import WorkStealing.Proofs.Session.Convoys
import WorkStealing.Proofs.Session.Twins

set_option autoImplicit false

/-!
# What every session keeps

A session never ends in a fault, and after each of its steps the world is in order. `Consistent`
says what this means for rings, counters, locks, units and handles.
-/
namespace WorkStealing

section Steps

namespace World

variable {w : World}

theorem ready_of_knows {bc : BoardingCall} (h : w.knows bc = true) : w.Ready bc := by
  intro q call hres u hu
  have hunit : u ∈ bc.unit? := by
    cases bc with
    | steal n =>
      obtain ⟨p, _, hq⟩ := Option.map_eq_some_iff.1 hres
      cases hq
      cases hu
    | pop n =>
      obtain ⟨p, _, hq⟩ := Option.map_eq_some_iff.1 hres
      cases hq
      cases hu
    | push n v =>
      obtain ⟨p, _, hq⟩ := Option.map_eq_some_iff.1 hres
      cases hq
      exact hu
    | remove n v =>
      obtain ⟨k, _, hq⟩ := Option.map_eq_some_iff.1 hres
      cases hq
      exact hu
    | unknown n => cases hres
  rw [knows, Bool.and_eq_true] at h
  have hsome := h.2
  rw [hunit, Option.all_some, Option.isSome_iff_exists] at hsome
  obtain ⟨e, he⟩ := hsome
  exact registered_of_unit? he

theorem Sound.convoy_runs {p : PoolId} {d : Deque} (h : w.Sound none none) (hl : w.Live p d)
    {calls : List BoardingCall} (hready : ∀ bc ∈ calls, w.Ready bc) :
    ∃ results w', w.convoy p calls = .ok (results, w') ∧ w'.Sound none none := by
  obtain ⟨v, e, c, s, results, hc⟩ := h.exists_convoyed hl hready
  exact ⟨_, _, hc.run, hc.world.congr rfl rfl hc.world.counted fun _ => rfl⟩

theorem Sound.act (h : w.Sound none none) (op : Op) :
    ∃ a w', w.act op = .ok (a, w') ∧ w'.Sound none none := by
  cases hc : op.isConvoy with
  | false =>
    obtain ⟨o, _, hrun, _, _, hw⟩ := h.alike.act (.same op) hc
    exact ⟨o.1, o.2, hrun, hw.left⟩
  | true =>
    cases op with
    | convoy n calls =>
      rw [World.act]
      cases howned : w.owned? n with
      | none => exact ⟨_, w, rfl, h⟩
      | some p =>
        dsimp only
        split
        · rename_i hknows
          obtain ⟨d, hl⟩ := h.live_of_handle? (handle?_of_owned? howned)
          obtain ⟨results, w', hrun, hw⟩ := h.convoy_runs hl fun bc hbc =>
            ready_of_knows (List.all_eq_true.1 hknows bc hbc)
          refine ⟨.convoy results, w', ?_, hw⟩
          rw [hrun]
          rfl
        · exact ⟨_, w, rfl, h⟩
    | _ => cases hc

theorem Sound.step (h : w.Sound none none) (op : Op) :
    ∃ report w', w.step op = .ok (report, w') ∧ w'.Sound none none := by
  have hu : w.unlogged.Sound none none := h.congr rfl rfl h.counted fun _ => rfl
  have hanswer : ∃ a w', w.unlogged.answer op = .ok (a, w') ∧ w'.Sound none none := by
    rw [answer]
    split
    · exact ⟨_, _, rfl, hu⟩
    · exact hu.act op
  obtain ⟨a, w', hrun, hw⟩ := hanswer
  refine ⟨⟨a, op.subject? >>= w'.sizeOf, w'.log⟩, w', ?_, hw⟩
  rw [step_eq, hrun]
  rfl

theorem Sound.run (h : w.Sound none none) (ops : List Op) :
    ∃ reports w', w.run ops = .ok (reports, w') ∧ w'.Sound none none := by
  induction ops generalizing w with
  | nil => exact ⟨[], w, rfl, h⟩
  | cons op ops ih =>
    obtain ⟨report, w', hstep, hw⟩ := h.step op
    obtain ⟨reports, w'', hrun, hw'⟩ := ih hw
    refine ⟨report :: reports, w'', ?_, hw'⟩
    simp only [World.run, hstep, hrun, ok_bind, pure_eq_ok]

/-- Every run that ends in a result leaves a world in order. -/
theorem sound_of_run {telemetry hooks : Bool} {ops : List Op} {reports : List StepReport}
    (h : (start telemetry hooks).run ops = .ok (reports, w)) : w.Sound none none := by
  obtain ⟨reports', w', hrun, hw⟩ := (sound_start telemetry hooks).run ops
  cases h.symm.trans hrun
  exact hw

end World

end Steps

section Consistency

/-- A pool at rest: its ring, its counters and its lock. -/
structure Deque.WellFormed (d : Deque) : Prop where
  power : ∃ k, 0 < k ∧ d.ring.capacity = 2 ^ k
  mask : d.ring.mask = d.ring.capacity - 1
  head_le_tail : d.head ≤ d.tail
  length_le : d.tail - d.head ≤ d.ring.mask
  vacant : ∀ k, k < d.ring.capacity →
    (∀ i, d.head ≤ i → i < d.tail → d.ring.position i ≠ k) → d.ring.slots[k]? = some none
  retired : ∀ r ∈ d.foreign.contents, ∀ c ∈ r.slots, c = none
  unlocked : d.foreign.nextTicket = d.foreign.nowServing

theorem Deque.Sound.wellFormed {d : Deque} (h : d.Sound) (hu : d.Unlocked) : d.WellFormed where
  power := h.ring.power
  mask := by
    have := h.ring.mask_add_one
    omega
  head_le_tail := h.head_le_tail
  length_le := by
    have hlt := h.length_lt
    have hmask := h.ring.mask_add_one
    rw [Deque.length] at hlt
    omega
  vacant k hk hfree := by
    obtain ⟨j, hj, hj', hmod⟩ := h.exists_round k
    rw [Nat.mod_eq_of_lt hk] at hmod
    have htail : d.tail ≤ j := by
      refine Nat.le_of_not_lt fun hlt => hfree j hj hlt ?_
      rw [h.ring.position_eq, hmod]
    rw [h.ring.getElem?_slots hk, ← h.blank j htail hj']
    exact congrArg some (h.ring.cell_congr (by rw [hmod, Nat.mod_eq_of_lt hk]))
  retired := h.retired
  unlocked := hu

namespace World

def Occupies (w : World) (u : UnitId) (p : PoolId) (k : Nat) : Prop :=
  ∃ d, w.Live p d ∧ d.ring.slots[k]? = some (some u)

/-- What holds of the pools, the units and the handles between two steps. -/
structure Consistent (w : World) : Prop where
  pool : ∀ p d, w.Live p d → d.WellFormed
  id : ∀ i d, w.pools[i]? = some (some d) → w.Live (.ofIndex i) d
  once : ∀ u p q j k, w.Occupies u p j → w.Occupies u q k → p = q ∧ j = k
  holder : ∀ u p, w.units.holder? u = some p ↔ ∃ k, w.Occupies u p k
  handle : ∀ u p, w.units.holder? u = some p → ∃ x ∈ w.handles, x.2.pool = p

theorem occupies_iff {w : World} {p : PoolId} {d : Deque} (h : w.Sound none none)
    (hl : w.Live p d) {u : UnitId} {k : Nat} :
    w.Occupies u p k ↔ k < d.ring.capacity ∧ d.ring.cell k = some u := by
  have hring : d.ring.Sound := (h.site p d hl (by simp)).1.deque.ring
  constructor
  · rintro ⟨e, he, hk⟩
    obtain rfl := hl.unique he
    have hlt : k < d.ring.capacity := (Array.getElem?_eq_some_iff.1 hk).1
    rw [hring.getElem?_slots hlt] at hk
    exact ⟨hlt, Option.some.inj hk⟩
  · rintro ⟨hlt, hc⟩
    refine ⟨d, hl, ?_⟩
    rw [hring.getElem?_slots hlt, hc]

theorem Sound.holder_of_occupies {w : World} (h : w.Sound none none) {u : UnitId} {p : PoolId}
    {k : Nat} (hu : w.Occupies u p k) : w.units.holder? u = some p := by
  obtain ⟨d, hl, _⟩ := id hu
  have hheld := (h.site p d hl (by simp)).1.holder_of_cell ((occupies_iff h hl).1 hu).2
  rw [← hl.2]
  exact hheld

theorem Sound.consistent {w : World} (h : w.Sound none none) : w.Consistent where
  pool p d hl := by
    obtain ⟨hs, hu⟩ := h.site p d hl (by simp)
    exact hs.deque.wellFormed hu
  id i d hd := by
    rw [← h.ids i d hd]
    exact h.live hd
  once u p q j k hj hk := by
    have hpq : p = q := Option.some.inj
      ((h.holder_of_occupies hj).symm.trans (h.holder_of_occupies hk))
    subst hpq
    obtain ⟨d, hl, _⟩ := id hj
    obtain ⟨hs, _⟩ := h.site p d hl (by simp)
    obtain ⟨hjlt, hjc⟩ := (occupies_iff h hl).1 hj
    obtain ⟨hklt, hkc⟩ := (occupies_iff h hl).1 hk
    have hd : d.Sound := hs.deque
    have hmod := hd.mod_eq_of_cell hs.nodup_queued hjc hkc
    rw [Nat.mod_eq_of_lt hjlt, Nat.mod_eq_of_lt hklt] at hmod
    exact ⟨rfl, hmod⟩
  holder u p := by
    refine ⟨fun hu => ?_, fun ⟨k, hk⟩ => h.holder_of_occupies hk⟩
    obtain ⟨d, hl⟩ := h.holder u p hu
    obtain ⟨hs, _⟩ := h.site p d hl (by simp)
    have hd : d.Sound := hs.deque
    have hmem := (hs.holder u).1 (hu.trans (congrArg some hl.2.symm))
    rw [List.append_nil] at hmem
    obtain ⟨i, hi⟩ := hd.mem_queued_iff.1 hmem
    refine ⟨i % d.ring.capacity, (occupies_iff h hl).2 ⟨Nat.mod_lt _ hd.capacity_pos, ?_⟩⟩
    rw [hd.ring.cell_congr (Nat.mod_mod _ _)]
    exact hi
  handle u p hu := by
    obtain ⟨d, hl⟩ := h.holder u p hu
    exact h.held p d hl (by simp)

/-- Whatever a session asks for, it runs to its end and leaves its world consistent. -/
theorem run_consistent (telemetry hooks : Bool) (ops : List Op) :
    ∃ reports w, (start telemetry hooks).run ops = .ok (reports, w) ∧ w.Consistent := by
  obtain ⟨reports, w, hrun, hw⟩ := (sound_start telemetry hooks).run ops
  exact ⟨reports, w, hrun, hw.consistent⟩

end World

end Consistency

end WorkStealing
