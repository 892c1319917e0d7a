import WorkStealing.Deque.Lifetime
import WorkStealing.Proofs.Deque.Soundness

set_option autoImplicit false

/-!
# What the end of a pool lets go

A pool that ends lets go of the units in its slots. These are the queued units, and the order in
which they are let go does not matter.
-/
namespace WorkStealing

namespace UnitTable

def letGoAll (t : UnitTable) (us : List UnitId) : UnitTable := us.foldl letGo t

theorem letGo_comm (t : UnitTable) (u v : UnitId) : (t.letGo u).letGo v = (t.letGo v).letGo u := by
  apply ext_find?
  intro x
  simp only [letGo, find?_update]
  by_cases hu : u = x
  · by_cases hv : v = x
    · simp [hu, hv]
    · simp [hu, hv]
  · by_cases hv : v = x
    · simp [hu, hv]
    · simp [hu, hv]

theorem letGoAll_perm (t : UnitTable) {us us' : List UnitId} (h : us.Perm us') :
    t.letGoAll us = t.letGoAll us' :=
  h.foldl_eq' (fun u _ v _ t => t.letGo_comm u v) t

theorem holder?_letGoAll (t : UnitTable) (us : List UnitId) (u : UnitId) :
    (t.letGoAll us).holder? u = if u ∈ us then none else t.holder? u := by
  induction us generalizing t with
  | nil => simp [letGoAll]
  | cons v us ih =>
    change ((t.letGo v).letGoAll us).holder? u = _
    rw [ih, holder?_letGo]
    by_cases hu : u ∈ us
    · simp [hu]
    · by_cases hv : v = u
      · simp [hv]
      · simp [hu, hv, Ne.symm hv]

theorem releaseAll_eq {t : UnitTable} {p : PoolId} {us : List UnitId} (hc : t.Counted)
    (hn : us.Nodup) (hu : ∀ u ∈ us, t.holder? u = some p) :
    Site.releaseAll t us = .ok (t.letGoAll us) ∧ (t.letGoAll us).Counted ∧
      Frame p t (t.letGoAll us) := by
  induction us generalizing t with
  | nil => exact ⟨rfl, hc, Frame.refl p t⟩
  | cons u us ih =>
    have hheld := hu u List.mem_cons_self
    obtain ⟨e, he⟩ := knows_of_holder? hheld
    have hnot := (List.nodup_cons.1 hn).1
    have hkept : ∀ v ∈ us, (t.letGo u).holder? v = some p := by
      intro v hv
      have huv : u ≠ v := by
        rintro rfl
        exact hnot hv
      rw [holder?_letGo, if_neg huv]
      exact hu v (List.mem_cons_of_mem u hv)
    obtain ⟨hrun, hc', hf⟩ := ih (hc.letGo hheld) (List.nodup_cons.1 hn).2 hkept
    refine ⟨?_, hc', (Frame.letGo hheld).trans hf⟩
    rw [Site.releaseAll, detach_eq ⟨e, he⟩, ok_bind,
      release_detached he (hc.refs_pos_of_holder? he hheld), ok_bind]
    exact hrun

end UnitTable

namespace Site

def ended (s : Site) : Site :=
  (s.setUnits (s.units.letGoAll s.deque.queued)).emit
    (.dropped s.deque.id s.deque.queued.length s.deque.generation)

theorem Sound.units_perm {s : Site} (h : s.Sound []) :
    s.deque.ring.units.Perm s.deque.queued :=
  (List.perm_ext_iff_of_nodup (h.deque.nodup_units h.nodup_queued) h.nodup_queued).2
    fun _ => h.deque.mem_units

theorem teardown_eq {s : Site} (h : s.Sound []) : s.teardown = .ok s.ended := by
  have hperm := h.units_perm
  have hrun := (UnitTable.releaseAll_eq (p := s.deque.id) h.counted
    (h.deque.nodup_units h.nodup_queued)
    fun u hu => h.holder_of_mem (h.deque.mem_units.1 hu)).1
  simp only [teardown, updateUnits, hrun, ok_bind, pure_eq_ok]
  rw [UnitTable.letGoAll_perm _ hperm, hperm.length_eq]
  rfl

end Site

end WorkStealing
