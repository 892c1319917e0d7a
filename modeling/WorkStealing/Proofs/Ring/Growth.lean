import WorkStealing.Proofs.Ring.Cells

set_option autoImplicit false

/-!
# Growth of a ring

A ring that grows leaves nothing behind: the cells of a window move to the front of a ring of twice
the capacity, and every other cell of either ring stays as it was.
-/
namespace WorkStealing.Ring

def blank (capacity : Nat) : Ring := ⟨Array.replicate capacity none, capacity - 1⟩

@[simp] theorem capacity_blank (n : Nat) : (blank n).capacity = n := by
  simp [blank, capacity]

theorem sound_blank {capacity k : Nat} (hk : 0 < k) (hc : capacity = 2 ^ k)
    (hmax : capacity ≤ maxSlots) : (blank capacity).Sound where
  power := ⟨k, hk, by simpa using hc⟩
  mask_add_one := by
    have hpos := Nat.two_pow_pos k
    rw [capacity_blank]
    exact Nat.sub_add_cancel (by omega)
  le_maxSlots := by simpa using hmax

theorem cell_blank (capacity index : Nat) : (blank capacity).cell index = none := by
  simp only [blank, cell, Array.getElem?_replicate]
  split <;> rfl

theorem le_maxSlots_of_fits {limit : Option Nat} {capacity : Nat}
    (h : fits limit capacity = true) : capacity ≤ maxSlots := by
  simp only [fits, Bool.and_eq_true, decide_eq_true_eq] at h
  exact h.1

theorem lt_wordCount {n : Nat} (h : n ≤ 2 * maxSlots) : n < Word.count := by
  unfold maxSlots at h
  unfold Word.count
  omega

theorem allocate_eq {capacity k : Nat} (limit : Option Nat) (hc : capacity = 2 ^ k) :
    allocate limit capacity =
      .ok (if fits limit capacity then .ok (blank capacity)
        else .error (.resourceExhausted capacity)) := by
  have hpower : isPowerOfTwo capacity = true := isPowerOfTwo_iff.2 ⟨k, hc⟩
  have hpos := Nat.two_pow_pos k
  cases hfits : fits limit capacity with
  | false => simp [allocate, require_eq_ok hpower, hfits]
  | true =>
    simp [allocate, require_eq_ok hpower, hfits, blank, Word.sub_eq_ok (show 1 ≤ capacity by omega)]

/-- What the loop of growth has moved after `n` further cells, the one at step `k` from the slot at
`place k`. -/
structure Moved (place : Nat → Nat) (offset n : Nat) (old grown : Ring) (g : Growth) : Prop where
  capacity_grown : g.grown.capacity = grown.capacity
  mask_grown : g.grown.mask = grown.mask
  capacity_emptied : g.emptied.capacity = old.capacity
  mask_emptied : g.emptied.mask = old.mask
  slot : ∀ k, g.grown.slots[k]? =
    if offset ≤ k ∧ k < offset + n then old.slots[place k]? else grown.slots[k]?
  slot_moved : ∀ k, offset ≤ k → k < offset + n → g.emptied.slots[place k]? = some none
  slot_kept : ∀ i, (∀ k, offset ≤ k → k < offset + n → place k ≠ i) →
    g.emptied.slots[i]? = old.slots[i]?

theorem getElem?_setSlot {r : Ring} {position : Nat} (h : position < r.capacity)
    (c : Option UnitId) (k : Nat) : (r.slots.setIfInBounds position c)[k]? =
      if position = k then some c else r.slots[k]? := by
  have hsize : position < r.slots.size := h
  simp [Array.getElem?_setIfInBounds, hsize]

theorem Moved.cons {place : Nat → Nat} {offset n : Nat} {old grown : Ring} {g : Growth}
    {c : Option UnitId} (hold : place offset < old.capacity) (hgrown : offset < grown.capacity)
    (hc : old.slots[place offset]? = some c)
    (hne : ∀ k, offset < k → k < offset + (n + 1) → place offset ≠ place k)
    (h : Moved place (offset + 1) n
      { old with slots := old.slots.setIfInBounds (place offset) none }
      { grown with slots := grown.slots.setIfInBounds offset c } g) :
    Moved place offset (n + 1) old grown g := by
  have hleft := getElem?_setSlot hold none
  have hstored := getElem?_setSlot hgrown c
  have hcapacity (r : Ring) (i : Nat) (c : Option UnitId) :
      ({ r with slots := r.slots.setIfInBounds i c } : Ring).capacity = r.capacity := by
    simp [capacity]
  refine ⟨h.capacity_grown.trans (hcapacity ..), h.mask_grown,
    h.capacity_emptied.trans (hcapacity ..), h.mask_emptied, fun k => ?_, fun k hk hk' => ?_,
    fun i hi => ?_⟩
  · rw [h.slot k, hleft, hstored]
    by_cases hko : k = offset
    · subst k
      rw [if_neg (by omega), if_pos rfl, if_pos (by omega), hc]
    · by_cases hin : offset ≤ k ∧ k < offset + (n + 1)
      · rw [if_pos (by omega), if_pos hin, if_neg (hne k (by omega) hin.2)]
      · rw [if_neg (by omega), if_neg hin, if_neg (Ne.symm hko)]
  · by_cases hko : k = offset
    · subst k
      rw [h.slot_kept (place offset) fun j hj hj' => (hne j (by omega) (by omega)).symm, hleft,
        if_pos rfl]
    · exact h.slot_moved k (by omega) (by omega)
  · rw [h.slot_kept i fun k hk hk' => hi k (by omega) (by omega), hleft,
      if_neg (hi offset (by omega) (by omega))]

/-- The loop needs no more of a ring than that the places are its own, and all different. -/
theorem moveFrom_moved {head : Nat} {place : Nat → Nat} (offset n : Nat) (old grown : Ring)
    (hplace : ∀ k, old.position ((head + k) % Word.count) = place k)
    (hlt : ∀ k, offset ≤ k → k < offset + n → place k < old.capacity)
    (hne : ∀ j k, offset ≤ j → j < k → k < offset + n → place j ≠ place k)
    (hgrown : offset + n ≤ grown.capacity) :
    ∃ g, moveFrom head offset n old grown = .ok g ∧ Moved place offset n old grown g := by
  induction n generalizing offset old grown with
  | zero =>
    refine ⟨⟨grown, old⟩, rfl, rfl, rfl, rfl, rfl, fun k => ?_, fun k hk hk' => ?_, fun i _ => rfl⟩
    · rw [if_neg (by omega)]
    · omega
  | succ n ih =>
    let index := (head + offset) % Word.count
    have hindex : old.position index = place offset := hplace offset
    have hold : place offset < old.capacity := hlt offset (by omega) (by omega)
    have hpos : old.position index < old.capacity := hindex ▸ hold
    have hcell : old.slots[place offset]? = some (old.cell index) := by
      have hsize : old.position index < old.slots.size := hpos
      rw [← hindex, cell]
      simp [hsize]
    have hread : old.read index = .ok (old.cell index) := read_eq_ok hpos
    have hwrite : old.write index none =
        .ok { old with slots := old.slots.setIfInBounds (place offset) none } := by
      rw [write, hindex, Sound.store_eq hold]
    have hstore := Sound.store_eq (show offset < grown.capacity by omega) (old.cell index)
    -- the places differ, so the cells still to be moved are where they were
    obtain ⟨g, hg, hm⟩ := ih (offset + 1)
      { old with slots := old.slots.setIfInBounds (place offset) none }
      { grown with slots := grown.slots.setIfInBounds offset (old.cell index) } hplace
      (fun k hk hk' => by simpa [capacity] using hlt k (by omega) (by omega))
      (fun j k hj hjk hk => hne j k (by omega) hjk (by omega))
      (by simpa [capacity] using (show offset + 1 + n ≤ grown.capacity by omega))
    refine ⟨g, ?_, hm.cons hold (by omega) hcell fun k hk hk' =>
      hne offset k (Nat.le_refl _) hk hk'⟩
    simp only [index] at hread hwrite hstore
    simp only [moveFrom, hread, hwrite, hstore, ok_bind]
    exact hg

/-- A ring of twice the capacity that took over the window of `count` slots from `head` on, and what
is left of the smaller one. -/
structure Relocated (r : Ring) (head count : Nat) (g : Growth) : Prop where
  capacity_grown : g.grown.capacity = 2 * r.capacity
  mask_grown : g.grown.mask = 2 * r.capacity - 1
  slot : ∀ k, k < 2 * r.capacity → g.grown.slots[k]? =
    if k < count then r.slots[(head + k) % r.capacity]? else some none
  capacity_emptied : g.emptied.capacity = r.capacity
  mask_emptied : g.emptied.mask = r.mask
  slot_moved : ∀ k, k < count → g.emptied.slots[(head + k) % r.capacity]? = some none
  slot_kept : ∀ i, (∀ k, k < count → (head + k) % r.capacity ≠ i) →
    g.emptied.slots[i]? = r.slots[i]?

variable {r : Ring} {count : Nat}

theorem Regular.moveFrom_relocated (h : r.Regular) (hmax : r.capacity ≤ maxSlots) (head : Nat)
    (hcount : count ≤ r.capacity) :
    ∃ g, moveFrom head 0 count r (blank (2 * r.capacity)) = .ok g ∧ Relocated r head count g := by
  obtain ⟨k, hk⟩ := h.power
  have hpos : 0 < r.capacity := hk ▸ Nat.two_pow_pos k
  have hplace (k : Nat) : r.position ((head + k) % Word.count) = (head + k) % r.capacity := by
    rw [h.position_eq, Nat.mod_mod_of_dvd _ (h.dvd_wordCount hmax)]
  obtain ⟨g, hg, hm⟩ := moveFrom_moved 0 count r (blank (2 * r.capacity)) hplace
    (fun k _ _ => Nat.mod_lt _ hpos)
    (fun j k _ hjk hk hmod => by
      have := eq_of_mod_eq (head + j) (Nat.le_refl _) (by omega) (by omega) (by omega) hmod
      omega)
    (by rw [capacity_blank]; omega)
  refine ⟨g, hg, hm.capacity_grown.trans (capacity_blank _), hm.mask_grown, fun k hk => ?_,
    hm.capacity_emptied, hm.mask_emptied, fun k hk => hm.slot_moved k (by omega) (by omega),
    fun i hi => hm.slot_kept i fun k _ hk => hi k (by omega)⟩
  rw [hm.slot k]
  by_cases hin : k < count
  · rw [if_pos (by omega), if_pos hin]
  · rw [if_neg (by omega), if_neg hin]
    simp [blank, hk]

theorem Regular.allocate_double (h : r.Regular) (limit : Option Nat) :
    allocate limit (2 * r.capacity) =
      .ok (if fits limit (2 * r.capacity) then .ok (blank (2 * r.capacity))
        else .error (.resourceExhausted (2 * r.capacity))) := by
  obtain ⟨k, hk⟩ := h.power
  exact allocate_eq (k := k + 1) limit (by rw [hk, Nat.pow_succ, Nat.mul_comm])

theorem Regular.grow_eq (h : r.Regular) (limit : Option Nat) (head : Nat)
    (hcount : count ≤ r.capacity) :
    (fits limit (2 * r.capacity) = false ∧ r.grow limit head count = .ok (.error
      (.resourceExhausted (if Word.count ≤ 2 * r.capacity then Word.max else 2 * r.capacity)))) ∨
    (fits limit (2 * r.capacity) = true ∧
      ∃ g, r.grow limit head count = .ok (.ok g) ∧ Relocated r head count g) := by
  have halloc := h.allocate_double limit
  cases hfits : fits limit (2 * r.capacity) with
  | false =>
    refine .inl ⟨rfl, ?_⟩
    by_cases hword : Word.count ≤ 2 * r.capacity
    · simp [grow, hword]
    · simp [grow, hword, halloc, hfits]
  | true =>
    have hmax := le_maxSlots_of_fits hfits
    have hword : ¬ Word.count ≤ 2 * r.capacity := Nat.not_le.2 (lt_wordCount (by omega))
    obtain ⟨g, hg, hrelocated⟩ := h.moveFrom_relocated (by omega) head hcount
    refine .inr ⟨rfl, g, ?_, hrelocated⟩
    simp [grow, hword, halloc, hfits, hg]

structure Grown (r : Ring) (head count : Nat) (g : Growth) : Prop where
  sound : g.grown.Sound
  capacity_eq : g.grown.capacity = 2 * r.capacity
  cell_of_lt : ∀ k, k < count → g.grown.cell k = r.cell (head + k)
  cell_of_le : ∀ k, count ≤ k → k < 2 * r.capacity → g.grown.cell k = none
  sound_emptied : g.emptied.Sound
  capacity_emptied : g.emptied.capacity = r.capacity
  emptied_of_lt : ∀ k, k < count → g.emptied.cell (head + k) = none
  emptied_of_ne : ∀ i, (∀ k, k < count → (head + k) % r.capacity ≠ i % r.capacity) →
    g.emptied.cell i = r.cell i

theorem Sound.slot_eq (h : r.Sound) (i : Nat) : r.slots[i % r.capacity]? = some (r.cell i) := by
  rw [h.getElem?_slots (Nat.mod_lt _ h.pos), h.cell_congr (Nat.mod_mod _ _)]

theorem Sound.grown (h : r.Sound) {head : Nat} {g : Growth} (hcount : count ≤ r.capacity)
    (hmax : 2 * r.capacity ≤ maxSlots) (hg : Relocated r head count g) : Grown r head count g := by
  have hsound : g.grown.Sound := by
    obtain ⟨k, _, hk⟩ := h.power
    refine ⟨⟨k + 1, by omega, ?_⟩, ?_, ?_⟩
    · rw [hg.capacity_grown, hk, Nat.pow_succ, Nat.mul_comm]
    · rw [hg.capacity_grown, hg.mask_grown]
      have hpos := h.pos
      omega
    · rw [hg.capacity_grown]
      exact hmax
  have hemptied : g.emptied.Sound := by
    refine ⟨?_, ?_, ?_⟩
    · rw [hg.capacity_emptied]
      exact h.power
    · rw [hg.capacity_emptied, hg.mask_emptied]
      exact h.mask_add_one
    · rw [hg.capacity_emptied]
      exact h.le_maxSlots
  have hleft (i : Nat) : some (g.emptied.cell i) = g.emptied.slots[i % r.capacity]? := by
    rw [← hemptied.slot_eq, hg.capacity_emptied]
  have hcell (k : Nat) (hk : k < 2 * r.capacity) : some (g.grown.cell k) =
      if k < count then some (r.cell (head + k)) else some none := by
    rw [← hsound.getElem?_slots (hg.capacity_grown ▸ hk), hg.slot k hk, h.slot_eq]
  refine ⟨hsound, hg.capacity_grown, fun k hk => ?_, fun k hk hk' => ?_, hemptied,
    hg.capacity_emptied, fun k hk => ?_, fun i hi => ?_⟩
  · have hk' := hcell k (by omega)
    rw [if_pos hk] at hk'
    exact Option.some.inj hk'
  · have hk'' := hcell k hk'
    rw [if_neg (by omega)] at hk''
    exact Option.some.inj hk''
  · exact Option.some.inj ((hleft _).trans (hg.slot_moved k hk))
  · exact Option.some.inj ((hleft i).trans ((hg.slot_kept _ hi).trans (h.slot_eq i)))

/-- The ring of a pool is never so large that its double leaves the word. -/
theorem Sound.grow_eq (h : r.Sound) (limit : Option Nat) (head : Nat)
    (hcount : count ≤ r.capacity) :
    (fits limit (2 * r.capacity) = false ∧
      r.grow limit head count = .ok (.error (.resourceExhausted (2 * r.capacity)))) ∨
    (fits limit (2 * r.capacity) = true ∧
      ∃ g, r.grow limit head count = .ok (.ok g) ∧ Grown r head count g) := by
  have hword : ¬ Word.count ≤ 2 * r.capacity :=
    Nat.not_le.2 (lt_wordCount (Nat.mul_le_mul_left 2 h.le_maxSlots))
  rcases h.regular.grow_eq limit head hcount with ⟨hfits, hgrow⟩ | ⟨hfits, g, hgrow, hg⟩
  · rw [if_neg hword] at hgrow
    exact .inl ⟨hfits, hgrow⟩
  · exact .inr ⟨hfits, g, hgrow, h.grown hcount (le_maxSlots_of_fits hfits) hg⟩

end WorkStealing.Ring
