import WorkStealing.Deque
import WorkStealing.Proofs.Deque.Slots
import WorkStealing.Proofs.Ring.Growth

set_option autoImplicit false

/-!
# The window of a pool

What keeps a pool in order: the window is shorter than the ring, and the cells outside it, like
those of the replaced rings, are empty. Each elementary change of the counters and of one cell is
described by what it does to the window.
-/
namespace WorkStealing.Deque

structure Sound (d : Deque) : Prop where
  ring : d.ring.Sound
  head_le_tail : d.head ≤ d.tail
  length_lt : d.length < d.ring.capacity
  tail_le : d.tail ≤ Word.max
  blank : ∀ i, d.tail ≤ i → i < d.head + d.ring.capacity → d.ring.cell i = none
  retired : ∀ r ∈ d.foreign.contents, ∀ c ∈ r.slots, c = none

def Unlocked (d : Deque) : Prop := d.foreign.nextTicket = d.foreign.nowServing

theorem getElem?_window (d : Deque) (k : Nat) :
    d.window[k]? = if k < d.length then some (d.ring.cell (d.head + k)) else none :=
  Ring.getElem?_cells ..

theorem getElem?_window_of_lt {d : Deque} {k : Nat} (h : k < d.length) :
    d.window[k]? = some (d.ring.cell (d.head + k)) := by
  rw [getElem?_window, if_pos h]

theorem getElem?_window_sub {d : Deque} {i : Nat} (hi : d.head ≤ i) (hi' : i < d.tail) :
    d.window[i - d.head]? = some (d.ring.cell i) := by
  rw [getElem?_window_of_lt (by rw [length]; omega), show d.head + (i - d.head) = i by omega]

theorem window_congr {d e : Deque} (hlen : e.length = d.length)
    (hcell : ∀ k, k < d.length → e.ring.cell (e.head + k) = d.ring.cell (d.head + k)) :
    e.window = d.window := by
  rw [window, window, hlen]
  exact List.map_congr_left fun k hk => hcell k (List.mem_range.1 hk)

theorem queued_eq (d : Deque) : d.queued = Slots.units d.window := rfl

theorem window_eq_nil {d : Deque} : d.window = [] ↔ d.tail ≤ d.head := by
  rw [← List.length_eq_zero_iff, d.length_window, length]
  omega

theorem queued_eq_nil {d : Deque} (h : d.tail ≤ d.head) : d.queued = [] := by
  rw [queued_eq, window_eq_nil.2 h]
  rfl

theorem window_cons {d : Deque} (h : d.head < d.tail) :
    d.window = d.ring.cell d.head :: { d with head := d.head + 1 }.window := by
  apply List.ext_getElem?
  intro k
  cases k with
  | zero => rw [getElem?_window, if_pos (by rw [length]; omega)]; rfl
  | succ k =>
    rw [List.getElem?_cons_succ, getElem?_window, getElem?_window]
    simp only [length]
    have hk : k + 1 < d.tail - d.head ↔ k < d.tail - (d.head + 1) := by omega
    simp only [hk, Nat.add_assoc, Nat.add_comm 1 k]

theorem window_concat {d : Deque} (h : d.head < d.tail) :
    d.window = { d with tail := d.tail - 1 }.window ++ [d.ring.cell (d.tail - 1)] := by
  have hlen : d.length = (d.tail - 1 - d.head) + 1 := by
    rw [length]
    omega
  have hlast : d.head + (d.tail - 1 - d.head) = d.tail - 1 := by omega
  rw [window, window, Ring.cells, Ring.cells, hlen, List.range_succ, List.map_append]
  simp only [length, List.map_cons, List.map_nil, hlast]

theorem mem_queued {d : Deque} {u : UnitId} :
    u ∈ d.queued ↔ ∃ i, d.head ≤ i ∧ i < d.tail ∧ d.ring.cell i = some u := by
  rw [queued_eq, Slots.mem_units, List.mem_iff_getElem?]
  constructor
  · rintro ⟨k, hk⟩
    have hlt : k < d.length := by
      rw [← d.length_window]
      exact (List.getElem?_eq_some_iff.1 hk).1
    rw [getElem?_window_of_lt hlt] at hk
    rw [length] at hlt
    exact ⟨d.head + k, by omega, by omega, Option.some.inj hk⟩
  · rintro ⟨i, hi, hi', hc⟩
    exact ⟨i - d.head, (getElem?_window_sub hi hi').trans (congrArg some hc)⟩

namespace Sound

variable {d : Deque}

theorem capacity_pos (h : d.Sound) : 0 < d.ring.capacity := h.ring.pos

theorem lt_round (h : d.Sound) : d.tail < d.head + d.ring.capacity := by
  have hlen := h.length_lt
  have hle := h.head_le_tail
  unfold length at hlen
  omega

theorem congr {e : Deque} (h : d.Sound) (hring : e.ring = d.ring) (hhead : e.head = d.head)
    (htail : e.tail = d.tail) (hretired : e.foreign.contents = d.foreign.contents) : e.Sound := by
  obtain ⟨hr, hle, hlen, ht, hb, hret⟩ := h
  unfold length at *
  rw [← hring, ← hhead, ← htail] at *
  exact ⟨hr, hle, hlen, ht, hb, by rw [hretired]; exact hret⟩

theorem exists_round (h : d.Sound) (i : Nat) :
    ∃ j, d.head ≤ j ∧ j < d.head + d.ring.capacity ∧ j % d.ring.capacity = i % d.ring.capacity := by
  have hpos := h.capacity_pos
  refine ⟨d.head + (i + d.head * (d.ring.capacity - 1)) % d.ring.capacity, by omega, ?_, ?_⟩
  · have := Nat.mod_lt (i + d.head * (d.ring.capacity - 1)) hpos
    omega
  · have hcycle : d.head + (i + d.head * (d.ring.capacity - 1)) = i + d.ring.capacity * d.head := by
      obtain ⟨c, hc⟩ := Nat.exists_eq_succ_of_ne_zero (Nat.ne_of_gt hpos)
      rw [hc, Nat.succ_sub_one, Nat.succ_mul, Nat.mul_comm c]
      omega
    rw [Nat.add_mod_mod, hcycle, Nat.add_mul_mod_self_left]

theorem exists_index (h : d.Sound) {i : Nat} {u : UnitId} (hc : d.ring.cell i = some u) :
    ∃ j, d.head ≤ j ∧ j < d.tail ∧ j % d.ring.capacity = i % d.ring.capacity ∧
      d.ring.cell j = some u := by
  obtain ⟨j, hj, hj', hmod⟩ := h.exists_round i
  have hcj : d.ring.cell j = some u := (h.ring.cell_congr hmod).trans hc
  refine ⟨j, hj, ?_, hmod, hcj⟩
  apply Nat.lt_of_not_le
  intro hle
  rw [h.blank j hle hj'] at hcj
  cases hcj

theorem mem_queued_iff (h : d.Sound) {u : UnitId} :
    u ∈ d.queued ↔ ∃ i, d.ring.cell i = some u := by
  rw [mem_queued]
  constructor
  · rintro ⟨i, _, _, hc⟩
    exact ⟨i, hc⟩
  · rintro ⟨i, hc⟩
    obtain ⟨j, hj, hj', _, hcj⟩ := h.exists_index hc
    exact ⟨j, hj, hj', hcj⟩

theorem mem_units (h : d.Sound) {u : UnitId} : u ∈ d.ring.units ↔ u ∈ d.queued := by
  rw [h.ring.mem_units, h.mem_queued_iff]

theorem mod_eq_of_cell (h : d.Sound) (hn : d.queued.Nodup) {i j : Nat} {u : UnitId}
    (hi : d.ring.cell i = some u) (hj : d.ring.cell j = some u) :
    i % d.ring.capacity = j % d.ring.capacity := by
  obtain ⟨i', hi', hi'', hmi, hci⟩ := h.exists_index hi
  obtain ⟨j', hj', hj'', hmj, hcj⟩ := h.exists_index hj
  have hk : i' - d.head = j' - d.head := by
    refine Slots.nodup_units_iff.1 hn _ _ u ?_ ?_
    · rw [getElem?_window_sub hi' hi'', hci]
    · rw [getElem?_window_sub hj' hj'', hcj]
  rw [← hmi, ← hmj, show i' = j' by omega]

theorem nodup_units (h : d.Sound) (hn : d.queued.Nodup) : d.ring.units.Nodup := by
  apply Slots.nodup_units_iff.2
  intro i j u hi hj
  have hlt : ∀ k : Nat, d.ring.slots.toList[k]? = some (some u) → k < d.ring.capacity := by
    intro k hk
    exact (List.getElem?_eq_some_iff.1 hk).1
  have hcell : ∀ k : Nat, d.ring.slots.toList[k]? = some (some u) →
      d.ring.cell k = some u := by
    intro k hk
    have hslot := h.ring.getElem?_slots (hlt k hk)
    rw [← Array.getElem?_toList, hk] at hslot
    exact (Option.some.inj hslot).symm
  have hmod := h.mod_eq_of_cell hn (hcell i hi) (hcell j hj)
  rwa [Nat.mod_eq_of_lt (hlt i hi), Nat.mod_eq_of_lt (hlt j hj)] at hmod

end Sound

def fill (d : Deque) (u : UnitId) : Deque :=
  { d with ring := d.ring.put d.tail (some u), tail := d.tail + 1 }

def vacate (d : Deque) (index : Nat) : Deque := { d with ring := d.ring.put index none }

section Changes

variable {d : Deque}

theorem Sound.fill (h : d.Sound) (hroom : d.length + 1 < d.ring.capacity)
    (htail : d.tail < Word.max) (u : UnitId) : (d.fill u).Sound where
  ring := h.ring.put ..
  head_le_tail := Nat.le_succ_of_le h.head_le_tail
  length_lt := by
    have hle := h.head_le_tail
    simp only [Deque.fill, length, Ring.capacity_put] at hroom ⊢
    omega
  tail_le := htail
  blank i hi hi' := by
    simp only [Deque.fill, Ring.capacity_put] at hi hi' ⊢
    rw [h.ring.cell_put_of_ne]
    · exact h.blank i (by omega) hi'
    · intro hmod
      have := eq_of_mod_eq d.head (by have := h.head_le_tail; omega) hi'
        h.head_le_tail h.lt_round hmod
      omega
  retired := h.retired

theorem Sound.window_fill (h : d.Sound) (u : UnitId) :
    (d.fill u).window = d.window ++ [some u] := by
  have hlt : (d.fill u).head < (d.fill u).tail := Nat.lt_succ_of_le h.head_le_tail
  rw [window_concat hlt]
  have hlast : (d.fill u).tail - 1 = d.tail := rfl
  rw [hlast]
  congr 1
  · refine window_congr rfl ?_
    intro k hk
    change (d.ring.put d.tail (some u)).cell (d.head + k) = d.ring.cell (d.head + k)
    change k < d.tail - d.head at hk
    apply h.ring.cell_put_of_ne _
    intro hmod
    have := eq_of_mod_eq d.head (by omega) (by have := h.lt_round; omega)
      h.head_le_tail h.lt_round hmod
    omega
  · exact congrArg (fun c => [c]) (h.ring.cell_put_self ..)

theorem Sound.queued_fill (h : d.Sound) (u : UnitId) : (d.fill u).queued = d.queued ++ [u] := by
  rw [queued_eq, h.window_fill, Slots.units_append]
  rfl

theorem Sound.vacate (h : d.Sound) (index : Nat) : (d.vacate index).Sound where
  ring := h.ring.put ..
  head_le_tail := h.head_le_tail
  length_lt := by simpa [Deque.vacate, capacity, length] using h.length_lt
  tail_le := h.tail_le
  blank i hi hi' := by
    simp only [Deque.vacate, Ring.capacity_put] at hi hi' ⊢
    rw [h.ring.cell_put, h.blank i hi hi']
    exact ite_self none
  retired := h.retired

theorem Sound.window_vacate (h : d.Sound) {index : Nat} (hi : d.head ≤ index)
    (hi' : index < d.tail) : (d.vacate index).window = d.window.set (index - d.head) none := by
  apply List.ext_getElem?
  intro k
  rw [List.getElem?_set, getElem?_window, getElem?_window, d.length_window]
  have hlen : (d.vacate index).length = d.length := rfl
  rw [hlen]
  by_cases hk : k < d.length
  · have hk' : k < d.tail - d.head := hk
    have hround := h.lt_round
    rw [if_pos hk, if_pos hk]
    by_cases hki : index - d.head = k
    · rw [if_pos hki, if_pos (hki ▸ hk), ← hki]
      change some ((d.ring.put index none).cell (d.head + (index - d.head))) = _
      rw [show d.head + (index - d.head) = index by omega, h.ring.cell_put_self]
    · rw [if_neg hki]
      change some ((d.ring.put index none).cell (d.head + k)) = some (d.ring.cell (d.head + k))
      refine congrArg some (h.ring.cell_put_of_ne _ fun hmod => ?_)
      have := eq_of_mod_eq d.head (by omega) (by omega) hi (by omega) hmod
      omega
  · rw [if_neg hk, if_neg hk]
    split
    · rename_i hki
      rw [hki, if_neg hk]
    · rfl

theorem Sound.window_vacate_punch (h : d.Sound) (hn : d.queued.Nodup) {index : Nat} {u : UnitId}
    (hc : d.ring.cell index = some u) : (d.vacate index).window = Slots.punch d.window u := by
  obtain ⟨j, hj, hj', hmod, hcj⟩ := h.exists_index hc
  have hput : d.vacate index = d.vacate j := by
    unfold Deque.vacate Ring.put
    rw [h.ring.position_eq, h.ring.position_eq, hmod]
  rw [hput, h.window_vacate hj hj', Slots.punch_eq_set hn]
  rw [getElem?_window_sub hj hj', hcj]

theorem Sound.dropFront (h : d.Sound) (hlt : d.head < d.tail) (hc : d.ring.cell d.head = none) :
    { d with head := d.head + 1 }.Sound where
  ring := h.ring
  head_le_tail := hlt
  length_lt := by
    have hlen := h.length_lt
    simp only [length] at hlen ⊢
    omega
  tail_le := h.tail_le
  blank i hi hi' := by
    simp only at hi hi' ⊢
    by_cases hi'' : i < d.head + d.ring.capacity
    · exact h.blank i hi hi''
    · have hi : i = d.head + d.ring.capacity := by omega
      rw [hi, ← hc]
      exact h.ring.cell_congr (Nat.add_mod_right ..)
  retired := h.retired

theorem Sound.dropBack (h : d.Sound) (hlt : d.head < d.tail)
    (hc : d.ring.cell (d.tail - 1) = none) : { d with tail := d.tail - 1 }.Sound where
  ring := h.ring
  head_le_tail := Nat.le_sub_one_of_lt hlt
  length_lt := by
    have hlen := h.length_lt
    simp only [length] at hlen ⊢
    omega
  tail_le := Nat.le_trans (Nat.sub_le ..) h.tail_le
  blank i hi hi' := by
    simp only at hi hi' ⊢
    by_cases hi'' : i = d.tail - 1
    · rw [hi'', hc]
    · exact h.blank i (by omega) hi'
  retired := h.retired

theorem Sound.takeBack (h : d.Sound) (hlt : d.head < d.tail) {u : UnitId}
    (hc : d.ring.cell (d.tail - 1) = some u) :
    { d.vacate (d.tail - 1) with tail := d.tail - 1 }.Sound ∧
    { d.vacate (d.tail - 1) with tail := d.tail - 1 }.window = Slots.dropNewest d.window ∧
    Slots.newest d.window = some u := by
  have hwin := window_concat hlt
  rw [hc] at hwin
  have hhole : (d.vacate (d.tail - 1)).ring.cell (d.tail - 1) = none :=
    h.ring.cell_put_self ..
  refine ⟨(h.vacate _).dropBack hlt hhole, ?_, ?_⟩
  · rw [hwin, Slots.dropNewest_concat_some]
    refine window_congr rfl ?_
    intro k hk
    change k < d.tail - 1 - d.head at hk
    change (d.ring.put (d.tail - 1) none).cell (d.head + k) = d.ring.cell (d.head + k)
    apply h.ring.cell_put_of_ne _
    intro hmod
    have hround := h.lt_round
    have := eq_of_mod_eq d.head (by omega) (by omega) (by omega) (by omega) hmod
    omega
  · rw [hwin, Slots.newest_concat_some]

theorem Sound.takeFront (h : d.Sound) (hlt : d.head < d.tail) {u : UnitId}
    (hc : d.ring.cell d.head = some u) :
    { d.vacate d.head with head := d.head + 1 }.Sound ∧
    { d.vacate d.head with head := d.head + 1 }.window = Slots.dropOldest d.window ∧
    Slots.oldest d.window = some u := by
  have hwin := window_cons hlt
  rw [hc] at hwin
  have hhole : (d.vacate d.head).ring.cell d.head = none := h.ring.cell_put_self ..
  refine ⟨(h.vacate _).dropFront hlt hhole, ?_, ?_⟩
  · rw [hwin, Slots.dropOldest_cons_some]
    refine window_congr rfl ?_
    intro k hk
    change k < d.tail - (d.head + 1) at hk
    change (d.ring.put d.head none).cell (d.head + 1 + k) = d.ring.cell (d.head + 1 + k)
    apply h.ring.cell_put_of_ne _
    intro hmod
    have hround := h.lt_round
    have := eq_of_mod_eq d.head (by omega) (by omega) (by omega) (by omega) hmod
    omega
  · rw [hwin, Slots.oldest_cons_some]

theorem Sound.rebased (h : d.Sound) (htail : d.tail = Word.max) :
    d.head % d.ring.capacity ≤ d.tail % d.ring.capacity ∧
    { d with head := d.head % d.ring.capacity, tail := d.tail % d.ring.capacity }.Sound ∧
    { d with head := d.head % d.ring.capacity, tail := d.tail % d.ring.capacity }.window =
      d.window := by
  have hpos := h.capacity_pos
  have hle := h.head_le_tail
  have hround := h.lt_round
  obtain ⟨m, hm⟩ := h.ring.dvd_wordCount
  have hmul : d.tail + 1 = d.ring.capacity * m := by
    rw [← hm, htail]
    rfl
  obtain ⟨n, rfl⟩ : ∃ n, m = n + 1 := by
    refine Nat.exists_eq_succ_of_ne_zero ?_
    rintro rfl
    omega
  rw [Nat.mul_succ] at hmul
  -- the last word has the greatest remainder, so the whole window lies behind one multiple
  have htail' : d.tail % d.ring.capacity = d.ring.capacity - 1 := by
    rw [show d.tail = d.ring.capacity - 1 + d.ring.capacity * n by omega, Nat.add_mul_mod_self_left,
      Nat.mod_eq_of_lt (by omega)]
  have hhead' : d.head % d.ring.capacity = d.head - d.ring.capacity * n := by
    have hsplit : d.head = (d.head - d.ring.capacity * n) + d.ring.capacity * n := by omega
    rw [hsplit, Nat.add_mul_mod_self_left, Nat.mod_eq_of_lt (by omega)]
    omega
  have hshift : ∀ i, d.ring.cell (d.head % d.ring.capacity + i) = d.ring.cell (d.head + i) := by
    intro i
    refine h.ring.cell_congr ?_
    rw [Nat.mod_add_mod]
  refine ⟨by omega, ⟨h.ring, ?_, ?_, ?_, ?_, h.retired⟩, ?_⟩
  · change d.head % d.ring.capacity ≤ d.tail % d.ring.capacity
    omega
  · change d.tail % d.ring.capacity - d.head % d.ring.capacity < d.ring.capacity
    omega
  · change d.tail % d.ring.capacity ≤ Word.max
    have := h.tail_le
    have := Nat.mod_le d.tail d.capacity
    omega
  · intro i hi hi'
    change d.tail % d.ring.capacity ≤ i at hi
    change i < d.head % d.ring.capacity + d.ring.capacity at hi'
    change d.ring.cell i = none
    rw [show i = d.head % d.ring.capacity + (i - d.head % d.ring.capacity) by omega, hshift]
    exact h.blank _ (by omega) (by omega)
  · refine window_congr ?_ fun k _ => hshift k
    change d.tail % d.ring.capacity - d.head % d.ring.capacity = d.tail - d.head
    omega

theorem Sound.grown (h : d.Sound) {g : Ring.Growth} (hg : Ring.Grown d.ring d.head d.length g)
    {l : TicketLock Nat (List Ring)} (hl : l.contents = g.emptied :: d.foreign.contents) :
    { d with ring := g.grown, foreign := l, head := 0, tail := d.length }.Sound ∧
    { d with ring := g.grown, foreign := l, head := 0, tail := d.length }.window =
      d.window := by
  have hlen := h.length_lt
  refine ⟨⟨hg.sound, Nat.zero_le _, ?_, ?_, ?_, ?_⟩, ?_⟩
  · change d.length - 0 < g.grown.capacity
    rw [hg.capacity_eq]
    omega
  · exact Nat.le_trans (Nat.sub_le ..) h.tail_le
  · intro i hi hi'
    change d.length ≤ i at hi
    change i < 0 + g.grown.capacity at hi'
    rw [hg.capacity_eq] at hi'
    exact hg.cell_of_le i hi (by omega)
  · intro r hr c hc
    change r ∈ l.contents at hr
    rw [hl] at hr
    rcases List.mem_cons.1 hr with rfl | hr
    · obtain ⟨i, hi, rfl⟩ := Array.mem_iff_getElem.1 hc
      have hi' : i < g.emptied.capacity := hi
      have hcell : g.emptied.cell i = none := by
        obtain ⟨j, hj, hj', hmod⟩ := h.exists_round i
        rw [← hg.capacity_emptied] at hmod
        rw [← hg.sound_emptied.cell_congr hmod]
        by_cases hjt : j < d.tail
        · rw [show j = d.head + (j - d.head) by omega]
          exact hg.emptied_of_lt _ (by rw [length]; omega)
        · rw [hg.emptied_of_ne j]
          · exact h.blank j (by omega) hj'
          · intro k hk hmod'
            rw [length] at hk
            have := eq_of_mod_eq d.head (by omega)
              (by have := h.lt_round; omega) hj hj' hmod'
            omega
      have hslot := hg.sound_emptied.getElem?_slots hi'
      rw [Array.getElem?_eq_getElem hi, hcell] at hslot
      exact Option.some.inj hslot
    · exact h.retired r hr c hc
  · refine window_congr rfl ?_
    intro k hk
    change g.grown.cell (0 + k) = d.ring.cell (d.head + k)
    rw [Nat.zero_add, hg.cell_of_lt k hk]

end Changes

section Holes

variable {d : Deque}

theorem holes_eq_zero (h : d.tail ≤ d.head) : d.holes = 0 := by
  rw [holes, window_eq_nil.2 h]
  rfl

theorem holes_le_length (d : Deque) : d.holes ≤ d.length := by
  rw [← d.length_window]
  exact List.count_le_length

theorem holes_dropFront (hlt : d.head < d.tail) (hc : d.ring.cell d.head = none) :
    { d with head := d.head + 1 }.holes + 1 = d.holes := by
  rw [holes, holes, window_cons hlt, hc, List.count_cons_self]

theorem Sound.holes_fill (h : d.Sound) (u : UnitId) : (d.fill u).holes = d.holes := by
  rw [holes, holes, h.window_fill, List.count_append]
  rfl

theorem Sound.holes_takeFront (h : d.Sound) (hlt : d.head < d.tail) {u : UnitId}
    (hc : d.ring.cell d.head = some u) :
    { d.vacate d.head with head := d.head + 1 }.holes = d.holes := by
  rw [holes, holes, (h.takeFront hlt hc).2.1, window_cons hlt, hc, Slots.dropOldest_cons_some,
    List.count_cons_of_ne (by simp)]

end Holes

end WorkStealing.Deque
