import Mathlib.Algebra.Ring.Nat
import WorkStealing.Ring

set_option autoImplicit false

/-!
# The cells of a ring

An index and the index one round further on stand for the same cell, and the indices of one round
stand for different cells. A write changes one cell in every round.
-/
namespace WorkStealing

theorem eq_of_mod_eq {n i j : Nat} (first : Nat) (hi : first ≤ i) (hi' : i < first + n)
    (hj : first ≤ j) (hj' : j < first + n) (h : i % n = j % n) : i = j := by
  rcases Nat.le_total i j with hij | hij
  · have hmod := Nat.sub_mod_eq_zero_of_mod_eq h.symm
    rw [Nat.mod_eq_of_lt (by omega)] at hmod
    omega
  · have hmod := Nat.sub_mod_eq_zero_of_mod_eq h
    rw [Nat.mod_eq_of_lt (by omega)] at hmod
    omega

namespace Ring

/-- A power of two of slots under their mask. -/
structure Regular (r : Ring) : Prop where
  power : ∃ k, r.capacity = 2 ^ k
  mask_add_one : r.mask + 1 = r.capacity

theorem Regular.position_eq {r : Ring} (h : r.Regular) (index : Nat) :
    r.position index = index % r.capacity := by
  obtain ⟨k, hc⟩ := h.power
  have hm : r.mask = 2 ^ k - 1 := by
    have := h.mask_add_one
    omega
  rw [position, hm, hc, Nat.and_two_pow_sub_one_eq_mod]

theorem Regular.dvd_wordCount {r : Ring} (h : r.Regular) (hmax : r.capacity ≤ maxSlots) :
    r.capacity ∣ Word.count := by
  obtain ⟨k, hc⟩ := h.power
  have hk : k ≤ 64 := by
    apply Nat.le_of_not_lt
    intro hk
    have hpow := Nat.pow_le_pow_right (n := 2) (by omega) (Nat.le_of_lt hk)
    unfold maxSlots at hmax
    omega
  rw [hc, Word.count]
  exact Nat.pow_dvd_pow 2 hk

structure Sound (r : Ring) : Prop where
  power : ∃ k, 0 < k ∧ r.capacity = 2 ^ k
  mask_add_one : r.mask + 1 = r.capacity
  le_maxSlots : r.capacity ≤ maxSlots

theorem Sound.capacity_lt_max {r : Ring} (h : r.Sound) : r.capacity < Word.max := by
  have hcap := h.le_maxSlots
  unfold maxSlots at hcap
  unfold Word.max
  omega

theorem Sound.two_le {r : Ring} (h : r.Sound) : 2 ≤ r.capacity := by
  obtain ⟨k, hk, hc⟩ := h.power
  have hpow := Nat.pow_le_pow_right (n := 2) (by omega) hk
  omega

theorem Sound.pos {r : Ring} (h : r.Sound) : 0 < r.capacity :=
  Nat.lt_of_lt_of_le (by omega) h.two_le

theorem Sound.regular {r : Ring} (h : r.Sound) : r.Regular where
  power := h.power.imp fun _ hk => hk.2
  mask_add_one := h.mask_add_one

theorem Sound.position_eq {r : Ring} (h : r.Sound) (index : Nat) :
    r.position index = index % r.capacity := h.regular.position_eq index

theorem Sound.position_lt {r : Ring} (h : r.Sound) (index : Nat) :
    r.position index < r.capacity := by
  rw [h.position_eq]
  exact Nat.mod_lt _ h.pos

theorem Sound.dvd_wordCount {r : Ring} (h : r.Sound) : r.capacity ∣ Word.count :=
  h.regular.dvd_wordCount h.le_maxSlots

theorem Sound.read_eq {r : Ring} (h : r.Sound) (index : Nat) :
    r.read index = .ok (r.cell index) :=
  read_eq_ok (h.position_lt index)

theorem Sound.cell_congr {r : Ring} (h : r.Sound) {i j : Nat}
    (hij : i % r.capacity = j % r.capacity) : r.cell i = r.cell j := by
  simp only [cell, h.position_eq, hij]

theorem Sound.getElem?_slots {r : Ring} (h : r.Sound) {i : Nat} (hi : i < r.capacity) :
    r.slots[i]? = some (r.cell i) := by
  have hi' : i < r.slots.size := hi
  simp [cell, h.position_eq, Nat.mod_eq_of_lt hi, hi']

def put (r : Ring) (index : Nat) (c : Option UnitId) : Ring :=
  { r with slots := r.slots.setIfInBounds (r.position index) c }

@[simp] theorem mask_put (r : Ring) (index : Nat) (c : Option UnitId) :
    (r.put index c).mask = r.mask := rfl

@[simp] theorem capacity_put (r : Ring) (index : Nat) (c : Option UnitId) :
    (r.put index c).capacity = r.capacity := by
  simp [put, capacity]

theorem Sound.put {r : Ring} (h : r.Sound) (index : Nat) (c : Option UnitId) :
    (r.put index c).Sound where
  power := by simpa using h.power
  mask_add_one := by simpa using h.mask_add_one
  le_maxSlots := by simpa using h.le_maxSlots

theorem Sound.store_eq {r : Ring} {position : Nat} (h : position < r.capacity)
    (c : Option UnitId) : r.store position c =
      .ok { r with slots := r.slots.setIfInBounds position c } := by
  have h' : position < r.slots.size := h
  simp [store, Array.setIfInBounds, h']

theorem Sound.write_eq {r : Ring} (h : r.Sound) (index : Nat) (c : Option UnitId) :
    r.write index c = .ok (r.put index c) :=
  Sound.store_eq (h.position_lt index) c

theorem Sound.cell_put {r : Ring} (h : r.Sound) (i j : Nat) (c : Option UnitId) :
    (r.put i c).cell j = if j % r.capacity = i % r.capacity then c else r.cell j := by
  have hi : i % r.capacity < r.slots.size := Nat.mod_lt _ h.pos
  have hp : (r.put i c).position j = j % r.capacity := by
    rw [(h.put i c).position_eq, capacity_put]
  rw [cell, hp, Ring.put, h.position_eq, Array.getElem?_setIfInBounds, cell, h.position_eq]
  by_cases hij : j % r.capacity = i % r.capacity
  · simp [hij, hi]
  · simp [hij, Ne.symm hij]

theorem Sound.cell_put_self {r : Ring} (h : r.Sound) (i : Nat) (c : Option UnitId) :
    (r.put i c).cell i = c := by
  rw [h.cell_put, if_pos rfl]

theorem Sound.cell_put_of_ne {r : Ring} (h : r.Sound) {i j : Nat} (c : Option UnitId)
    (hij : j % r.capacity ≠ i % r.capacity) : (r.put i c).cell j = r.cell j := by
  rw [h.cell_put, if_neg hij]

theorem Sound.mem_units {r : Ring} (h : r.Sound) (u : UnitId) :
    u ∈ r.units ↔ ∃ i, r.cell i = some u := by
  simp only [units, List.mem_filterMap, id_eq, exists_eq_right, Array.mem_toList_iff,
    Array.mem_iff_getElem?]
  constructor
  · rintro ⟨i, hi⟩
    have hlt : i < r.capacity := (Array.getElem?_eq_some_iff.1 hi).1
    rw [h.getElem?_slots hlt] at hi
    exact ⟨i, Option.some.inj hi⟩
  · rintro ⟨i, hi⟩
    refine ⟨i % r.capacity, ?_⟩
    rw [h.getElem?_slots (Nat.mod_lt _ h.pos), h.cell_congr (Nat.mod_mod _ _), hi]

@[simp] theorem getElem?_cells (r : Ring) (first n k : Nat) :
    (r.cells first n)[k]? = if k < n then some (r.cell (first + k)) else none := by
  by_cases hk : k < n <;> simp [cells, hk]

theorem Sound.findBack_found {r : Ring} (h : r.Sound) (u : UnitId) (first n : Nat)
    (hu : ∃ i, first ≤ i ∧ i < first + n ∧ r.cell i = some u) :
    ∃ i, first ≤ i ∧ i < first + n ∧ r.cell i = some u ∧ r.findBack u first n = .ok (some i) := by
  induction n with
  | zero =>
    obtain ⟨i, hi, hi', _⟩ := hu
    omega
  | succ n ih =>
    by_cases hn : r.cell (first + n) = some u
    · refine ⟨first + n, by omega, by omega, hn, ?_⟩
      simp [findBack, h.read_eq, hn]
    · obtain ⟨i, hi, hi', hc⟩ := hu
      have hin : i ≠ first + n := by
        rintro rfl
        exact hn hc
      obtain ⟨j, hj, hj', hcj, hfind⟩ := ih ⟨i, hi, by omega, hc⟩
      refine ⟨j, hj, by omega, hcj, ?_⟩
      simp [findBack, h.read_eq, hn, hfind]

theorem Sound.findBack_missed {r : Ring} (h : r.Sound) (u : UnitId) (first n : Nat)
    (hu : ∀ i, first ≤ i → i < first + n → r.cell i ≠ some u) :
    r.findBack u first n = .ok none := by
  induction n with
  | zero => rfl
  | succ n ih =>
    have hn : r.cell (first + n) ≠ some u := hu _ (by omega) (by omega)
    simp [findBack, h.read_eq, hn, ih fun i hi hi' => hu i hi (by omega)]

end Ring

end WorkStealing
