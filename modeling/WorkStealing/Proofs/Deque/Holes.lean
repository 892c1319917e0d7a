import WorkStealing.Proofs.Deque.Scene

set_option autoImplicit false

/-!
# What a call does to the window

The slots of a window, units and holes, as a call changes them that nobody disturbs. A unit that
leaves at an end takes the holes between it and that end along; one that is removed elsewhere leaves
a hole.
-/
namespace WorkStealing

namespace Slots

/-- How a call with that reply changes a window. The owner shortens it by removing the last or the
first unit, a stealer by removing the first one only. -/
inductive Change : Slots → Call → Reply → Slots → Prop
  | stored (w : Slots) (u : UnitId) : Change w (.push u) .stored (w ++ [some u])
  | refused (w : Slots) (u : UnitId) (e : PoolError) : Change w (.push u) (.refused e) w
  | popped (w : Slots) (u : UnitId) (holes : Nat) :
    Change (w ++ some u :: List.replicate holes none) .pop (.taken u) w
  | notPopped (holes : Nat) : Change (List.replicate holes none) .pop .missed []
  | stolen (holes : Nat) (u : UnitId) (w : Slots) :
    Change (List.replicate holes none ++ some u :: w) .steal (.taken u) w
  | notStolen (holes : Nat) : Change (List.replicate holes none) .steal .missed []
  | removedLast (w : Slots) (u : UnitId) :
    Change (w ++ [some u]) (.remove .owner u) (.taken u) w
  | removedFirst (side : Side) (u : UnitId) (w : Slots) :
    Change (some u :: w) (.remove side u) (.taken u) w
  | removedInside (side : Side) (front : Slots) (u : UnitId) (back : Slots) (notFirst : front ≠ [])
    (notLast : side = .owner → back ≠ []) :
    Change (front ++ some u :: back) (.remove side u) (.taken u) (front ++ none :: back)
  | notRemoved (w : Slots) (side : Side) (u : UnitId) (absent : u ∉ units w) :
    Change w (.remove side u) .missed w

theorem exists_newest {w : Slots} {u : UnitId} (h : newest w = some u) :
    ∃ holes, w = dropNewest w ++ some u :: List.replicate holes none := by
  induction w using List.reverseRecOn with
  | nil => cases h
  | append_singleton w c ih =>
    cases c with
    | none =>
      rw [newest_concat_none] at h
      obtain ⟨holes, hw⟩ := ih h
      refine ⟨holes + 1, ?_⟩
      rw [dropNewest_concat_none, List.replicate_succ', ← List.cons_append, ← List.append_assoc,
        ← hw]
    | some v =>
      rw [newest_concat_some] at h
      cases h
      exact ⟨0, by rw [dropNewest_concat_some, List.replicate_zero]⟩

theorem exists_oldest {w : Slots} {u : UnitId} (h : oldest w = some u) :
    ∃ holes, w = List.replicate holes none ++ some u :: dropOldest w := by
  induction w with
  | nil => cases h
  | cons c w ih =>
    cases c with
    | none =>
      obtain ⟨holes, hw⟩ := ih h
      refine ⟨holes + 1, ?_⟩
      rw [dropOldest_cons_none, List.replicate_succ, List.cons_append, ← hw]
    | some v =>
      cases h
      exact ⟨0, rfl⟩

theorem eq_replicate_of_units_nil {w : Slots} (h : units w = []) :
    w = List.replicate w.length none := by
  refine List.eq_replicate_iff.2 ⟨rfl, fun c hc => ?_⟩
  cases c with
  | none => rfl
  | some u =>
    rw [← mem_units, h] at hc
    cases hc

theorem length_eq (w : Slots) : w.length = (units w).length + w.count none := by
  induction w with
  | nil => rfl
  | cons c w ih =>
    cases c with
    | none =>
      rw [List.length_cons, units_cons_none, List.count_cons_self]
      omega
    | some u =>
      rw [List.length_cons, units_cons_some, List.length_cons, List.count_cons_of_ne (by simp)]
      omega

theorem punch_append (front back : Slots) (u : UnitId) :
    punch (front ++ back) u = punch front u ++ punch back u := List.map_append ..

theorem change_remove {w : Slots} (hn : (units w).Nodup) (side : Side) {u : UnitId}
    (hu : u ∈ units w) : Change w (.remove side u) (.taken u) (remove w (side = .owner) u) := by
  by_cases hlast : side = .owner ∧ w.getLast? = some (some u)
  · obtain ⟨rfl, hlast⟩ := hlast
    obtain ⟨front, rfl⟩ := List.getLast?_eq_some_iff.1 hlast
    change Change _ _ _ (remove (front ++ [some u]) true u)
    rw [remove_concat]
    exact .removedLast front u
  · have hback : decide (side = .owner) = true → w.getLast? ≠ some (some u) := fun hside hw =>
      hlast ⟨of_decide_eq_true hside, hw⟩
    by_cases hfirst : w.head? = some (some u)
    · obtain ⟨back, rfl⟩ := List.head?_eq_some_iff.1 hfirst
      rw [remove_cons hback]
      exact .removedFirst side u back
    · obtain ⟨front, back, rfl⟩ := List.append_of_mem (mem_units.1 hu)
      rw [units_append, units_cons_some] at hn
      have hnot := (List.nodup_append.1 hn).2.2
      have hfront : u ∉ units front := fun hmem => hnot u hmem u List.mem_cons_self rfl
      have hbehind : u ∉ units back := (List.nodup_cons.1 (List.nodup_append.1 hn).2.1).1
      have hpunch : punch (some u :: back) u = none :: back := by
        change (if some u = some u then none else some u) :: punch back u = none :: back
        rw [if_pos rfl, punch_of_not_mem hbehind]
      rw [remove_inside hback hfirst, punch_append, punch_of_not_mem hfront, hpunch]
      refine .removedInside side front u back ?_ ?_
      · rintro rfl
        exact hfirst rfl
      · rintro hside rfl
        exact hback (decide_eq_true hside) List.getLast?_concat

end Slots

namespace Scene

/-- What a call does to the window of a scene, in which the pool holds the units of the window and
no others. -/
theorem change_perform {v : Scene} (hn : (Slots.units v.pool.slots).Nodup)
    (hv : ∀ u, v.units.holder? u = some v.pool.id ↔ u ∈ Slots.units v.pool.slots) (call : Call) :
    Slots.Change v.pool.slots call (v.perform call).1 (v.perform call).2.pool.slots := by
  cases call with
  | push u =>
    change Slots.Change _ _ (v.push u).1 (v.push u).2.pool.slots
    unfold push
    cases v.units.holder? u with
    | some q => exact .refused _ u _
    | none =>
      change Slots.Change _ _ (v.place u).1 (v.place u).2.pool.slots
      unfold place
      split
      · rw [slots_store]
        exact .stored _ u
      · split
        · rw [slots_store, slots_grow]
          exact .stored _ u
        · exact .refused _ u _
  | pop =>
    change Slots.Change _ _ v.pop.1 v.pop.2.pool.slots
    unfold pop
    cases hnew : Slots.newest v.pool.slots with
    | some u =>
      obtain ⟨holes, hw⟩ := Slots.exists_newest hnew
      dsimp only
      rw [slots_take]
      have hchange := Slots.Change.popped (Slots.dropNewest v.pool.slots) u holes
      rwa [← hw] at hchange
    | none =>
      have hw := Slots.eq_replicate_of_units_nil (Slots.units_of_newest_none hnew)
      rw [hw]
      exact .notPopped _
  | steal =>
    change Slots.Change _ _ v.steal.1 v.steal.2.pool.slots
    unfold steal
    cases hold : Slots.oldest v.pool.slots with
    | some u =>
      obtain ⟨holes, hw⟩ := Slots.exists_oldest hold
      dsimp only
      rw [slots_take]
      have hchange := Slots.Change.stolen holes u (Slots.dropOldest v.pool.slots)
      rwa [← hw] at hchange
    | none =>
      have hw := Slots.eq_replicate_of_units_nil (Slots.units_of_oldest_none hold)
      dsimp only
      rw [slots_tally, hw]
      exact .notStolen _
  | remove side u =>
    change Slots.Change _ _ (v.remove side u).1 (v.remove side u).2.pool.slots
    unfold remove
    split
    · rename_i hheld
      rw [slots_take]
      exact Slots.change_remove hn side ((hv u).1 hheld)
    · rename_i hheld
      rw [slots_tally]
      exact .notRemoved _ side u fun hu => hheld ((hv u).2 hu)

end Scene

end WorkStealing
