import Mathlib.Data.List.DropRight
import WorkStealing.UnitTable

set_option autoImplicit false

/-!
# Lists of slots

A window as a plain list of slots, oldest first: its units, its newest and its oldest unit, and
what is left of it when a unit is taken. Holes at the ends go with the unit next to them.
-/
namespace WorkStealing

/-- Slots from the oldest to the newest; a slot without a unit is a hole. -/
abbrev Slots := List (Option UnitId)

namespace Slots

def units (w : Slots) : List UnitId := w.filterMap fun c => c

def newest (w : Slots) : Option UnitId := (w.rdropWhile Option.isNone).getLast?.join

/-- Without the newest unit and the holes behind it. -/
def dropNewest (w : Slots) : Slots := (w.rdropWhile Option.isNone).dropLast

def oldest (w : Slots) : Option UnitId := (w.dropWhile Option.isNone).head?.join

/-- Without the oldest unit and the holes before it. -/
def dropOldest (w : Slots) : Slots := (w.dropWhile Option.isNone).tail

def punch (w : Slots) (u : UnitId) : Slots := w.map fun c => if c = some u then none else c

/-- Without `u`. The first slot goes, and so does the last one when the owner takes its unit;
elsewhere the unit leaves a hole. -/
def remove (w : Slots) (atBack : Bool) (u : UnitId) : Slots :=
  if atBack ∧ w.getLast? = some (some u) then w.dropLast
  else if w.head? = some (some u) then w.tail
  else punch w u

@[simp] theorem units_nil : units [] = [] := rfl

@[simp] theorem units_cons_none (w : Slots) : units (none :: w) = units w := rfl

@[simp] theorem units_cons_some (u : UnitId) (w : Slots) : units (some u :: w) = u :: units w := rfl

@[simp] theorem units_append (w w' : Slots) : units (w ++ w') = units w ++ units w' :=
  List.filterMap_append ..

theorem mem_units {w : Slots} {u : UnitId} : u ∈ units w ↔ some u ∈ w := by
  simp [units]

@[simp] theorem newest_nil : newest [] = none := rfl

@[simp] theorem newest_concat_none (w : Slots) : newest (w ++ [none]) = newest w := by
  rw [newest, List.rdropWhile_concat_pos _ _ _ rfl]
  rfl

@[simp] theorem newest_concat_some (w : Slots) (u : UnitId) :
    newest (w ++ [some u]) = some u := by
  rw [newest, List.rdropWhile_concat_neg _ _ _ (by simp)]
  simp

@[simp] theorem dropNewest_nil : dropNewest [] = [] := rfl

@[simp] theorem dropNewest_concat_none (w : Slots) : dropNewest (w ++ [none]) = dropNewest w := by
  rw [dropNewest, List.rdropWhile_concat_pos _ _ _ rfl]
  rfl

@[simp] theorem dropNewest_concat_some (w : Slots) (u : UnitId) :
    dropNewest (w ++ [some u]) = w := by
  rw [dropNewest, List.rdropWhile_concat_neg _ _ _ (by simp)]
  simp

@[simp] theorem oldest_nil : oldest [] = none := rfl

@[simp] theorem oldest_cons_none (w : Slots) : oldest (none :: w) = oldest w := rfl

@[simp] theorem oldest_cons_some (u : UnitId) (w : Slots) : oldest (some u :: w) = some u := rfl

@[simp] theorem dropOldest_nil : dropOldest [] = [] := rfl

@[simp] theorem dropOldest_cons_none (w : Slots) : dropOldest (none :: w) = dropOldest w := rfl

@[simp] theorem dropOldest_cons_some (u : UnitId) (w : Slots) : dropOldest (some u :: w) = w := rfl

theorem units_dropNewest (w : Slots) :
    units w = units (dropNewest w) ++ (newest w).toList := by
  induction w using List.reverseRecOn with
  | nil => rfl
  | append_singleton w c ih =>
    cases c with
    | none => simpa using ih
    | some u => simp

theorem units_dropOldest (w : Slots) :
    units w = (oldest w).toList ++ units (dropOldest w) := by
  induction w with
  | nil => rfl
  | cons c w ih =>
    cases c with
    | none => simpa using ih
    | some u => simp

theorem length_dropNewest_le (w : Slots) : (dropNewest w).length ≤ w.length := by
  have hle := (List.rdropWhile_prefix Option.isNone (l := w)).length_le
  rw [dropNewest, List.length_dropLast]
  omega

theorem units_of_newest_none {w : Slots} (h : newest w = none) : units w = [] := by
  induction w using List.reverseRecOn with
  | nil => rfl
  | append_singleton w c ih =>
    cases c with
    | none => simpa using ih (by simpa using h)
    | some u => simp at h

theorem units_of_oldest_none {w : Slots} (h : oldest w = none) : units w = [] := by
  induction w with
  | nil => rfl
  | cons c w ih =>
    cases c with
    | none => exact ih h
    | some u => cases h

theorem units_dropNewest_eq_erase {w : Slots} {u : UnitId} (h : (units w).Nodup)
    (hu : newest w = some u) : units (dropNewest w) = (units w).erase u := by
  rw [units_dropNewest w, hu] at h ⊢
  have hnot : u ∉ units (dropNewest w) := fun hmem =>
    (List.nodup_append.1 h).2.2 u hmem u (by simp) rfl
  rw [List.erase_append_right _ hnot]
  simp

theorem units_dropOldest_eq_erase {w : Slots} {u : UnitId} (hu : oldest w = some u) :
    units (dropOldest w) = (units w).erase u := by
  rw [units_dropOldest w, hu]
  simp

theorem nodup_of_cons {c : Option UnitId} {w : Slots} (h : (units (c :: w)).Nodup) :
    (units w).Nodup := by
  cases c with
  | none => exact h
  | some v => exact (List.nodup_cons.1 h).2

theorem punch_of_not_mem {w : Slots} {u : UnitId} (h : u ∉ units w) : punch w u = w := by
  induction w with
  | nil => rfl
  | cons c w ih =>
    have hc : c ≠ some u := fun hc => h (mem_units.2 (by simp [hc]))
    have hw : u ∉ units w := fun hw => h (mem_units.2 (by simp [mem_units.1 hw]))
    change (if c = some u then none else c) :: punch w u = c :: w
    rw [if_neg hc, ih hw]

theorem units_punch {w : Slots} {u : UnitId} (h : (units w).Nodup) :
    units (punch w u) = (units w).erase u := by
  induction w with
  | nil => rfl
  | cons c w ih =>
    cases c with
    | none => exact ih h
    | some v =>
      rw [units_cons_some, List.nodup_cons] at h
      by_cases hv : v = u
      · subst v
        change units ((if some u = some u then none else some u) :: punch w u) = _
        rw [if_pos rfl, units_cons_none, punch_of_not_mem h.1, units_cons_some,
          List.erase_cons_head]
      · change units ((if some v = some u then none else some v) :: punch w u) = _
        rw [if_neg (by simpa using hv), units_cons_some, ih h.2, units_cons_some,
          List.erase_cons_tail (by simpa using hv)]

theorem units_remove {w : Slots} {atBack : Bool} {u : UnitId} (h : (units w).Nodup) :
    units (remove w atBack u) = (units w).erase u := by
  unfold remove
  split
  · rename_i hb
    obtain ⟨w', rfl⟩ := List.getLast?_eq_some_iff.1 hb.2
    rw [units_append, units_cons_some, units_nil] at h ⊢
    have hu : u ∉ units w' := by
      intro hu
      exact (List.nodup_append.1 h).2.2 u hu u (by simp) rfl
    rw [List.dropLast_concat, List.erase_append_right _ hu]
    simp
  · split
    · rename_i hf
      obtain ⟨w', rfl⟩ := List.head?_eq_some_iff.1 hf
      simp
    · exact units_punch h

theorem remove_concat (w : Slots) (u : UnitId) : remove (w ++ [some u]) true u = w := by
  simp [remove]

theorem remove_cons {w : Slots} {atBack : Bool} {u : UnitId}
    (h : atBack → (some u :: w).getLast? ≠ some (some u)) : remove (some u :: w) atBack u = w := by
  rw [remove, if_neg fun hb => h hb.1 hb.2, if_pos List.head?_cons, List.tail_cons]

theorem remove_inside {w : Slots} {atBack : Bool} {u : UnitId}
    (h : atBack → w.getLast? ≠ some (some u)) (h' : w.head? ≠ some (some u)) :
    remove w atBack u = punch w u := by
  rw [remove, if_neg fun hb => h hb.1 hb.2, if_neg h']

theorem punch_eq_set {w : Slots} {u : UnitId} {k : Nat} (h : (units w).Nodup)
    (hk : w[k]? = some (some u)) : punch w u = w.set k none := by
  induction w generalizing k with
  | nil => simp at hk
  | cons c w ih =>
    cases k with
    | zero =>
      obtain rfl : c = some u := by simpa using hk
      rw [units_cons_some, List.nodup_cons] at h
      change (if some u = some u then none else some u) :: punch w u = none :: w
      rw [if_pos rfl, punch_of_not_mem h.1]
    | succ k =>
      have hk' : w[k]? = some (some u) := by simpa using hk
      have hc : c ≠ some u := by
        rintro rfl
        exact (List.nodup_cons.1 h).1 (mem_units.2 (List.mem_of_getElem? hk'))
      change (if c = some u then none else c) :: punch w u = c :: w.set k none
      rw [if_neg hc, ih (nodup_of_cons h) hk']

theorem nodup_units_iff {w : Slots} : (units w).Nodup ↔
    ∀ (i j : Nat) u, w[i]? = some (some u) → w[j]? = some (some u) → i = j := by
  induction w with
  | nil => simp
  | cons c w ih =>
    constructor
    · intro h i j u hi hj
      have hc : ∀ k : Nat, c = some u → w[k]? ≠ some (some u) := by
        rintro k rfl hk
        exact (List.nodup_cons.1 h).1 (mem_units.2 (List.mem_of_getElem? hk))
      cases i with
      | zero =>
        cases j with
        | zero => rfl
        | succ j => exact absurd (by simpa using hj) (hc j (by simpa using hi))
      | succ i =>
        cases j with
        | zero => exact absurd (by simpa using hi) (hc i (by simpa using hj))
        | succ j =>
          exact congrArg (· + 1)
            (ih.1 (nodup_of_cons h) i j u (by simpa using hi) (by simpa using hj))
    · intro h
      have hw : (units w).Nodup := ih.2 fun i j u hi hj =>
        Nat.succ.inj (h (i + 1) (j + 1) u (by simpa using hi) (by simpa using hj))
      cases c with
      | none => exact hw
      | some v =>
        refine List.nodup_cons.2 ⟨fun hv => ?_, hw⟩
        obtain ⟨k, hk⟩ := List.mem_iff_getElem?.1 (mem_units.1 hv)
        exact absurd (h 0 (k + 1) v rfl (by simpa using hk)) (by omega)

end Slots

end WorkStealing
