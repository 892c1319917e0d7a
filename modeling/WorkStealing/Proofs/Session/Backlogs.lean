import WorkStealing.Proofs.Deque.Sequential
import WorkStealing.Proofs.Session.Soundness

set_option autoImplicit false

/-!
# Pools as plain lists

The pools of a world in order are plain lists of units. A call on one of them is a call on these
lists, however often the ring has grown, wherever the counters stand and whatever holes there are.
-/
namespace WorkStealing.World

def live? (w : World) (p : PoolId) : Option Deque := (w.pool? p).filter fun d => d.id = p

/-- The queued units of each pool, oldest first. A pool that has ended holds nothing. -/
def backlogs (w : World) : Backlogs := fun p => (w.live? p).elim [] Deque.queued

/-- The slots that a push on the pool would ask for in vain. -/
def lack (w : World) (p : PoolId) : Option Nat := (w.live? p).bind (Deque.lack w.limit)

section Lists

variable {w : World} {busy loose : Option PoolId} {p : PoolId} {d : Deque}

theorem live?_eq_some : w.live? p = some d ↔ w.Live p d := by
  rw [live?, Option.filter_eq_some_iff, decide_eq_true_iff, Live, pool?]
  cases w.pools[p.index]? with
  | none => simp
  | some c => simp

theorem backlogs_of_live (h : w.Live p d) : w.backlogs p = d.queued := by
  rw [backlogs, live?_eq_some.2 h]
  rfl

theorem lack_of_live (h : w.Live p d) : w.lack p = (w.site d).lack := by
  rw [lack, live?_eq_some.2 h]
  rfl

theorem exists_live_of_mem {u : UnitId} (h : u ∈ w.backlogs p) :
    ∃ d, w.Live p d ∧ u ∈ d.queued := by
  unfold backlogs at h
  cases hd : w.live? p with
  | none =>
    rw [hd] at h
    cases h
  | some d =>
    rw [hd] at h
    exact ⟨d, live?_eq_some.1 hd, h⟩

theorem Sound.mem_backlogs (h : w.Sound busy loose) {u : UnitId} {q : PoolId}
    (hq : busy ≠ some q) : u ∈ w.backlogs q ↔ w.units.holder? u = some q := by
  constructor
  · intro hu
    obtain ⟨e, he, hmem⟩ := exists_live_of_mem hu
    have hheld := (h.site q e he hq).1.holder_of_mem hmem
    rw [← he.2]
    exact hheld
  · intro hu
    obtain ⟨e, he⟩ := h.holder u q hu
    have hmem := ((h.site q e he hq).1.holder u).1 (hu.trans (congrArg some he.2.symm))
    rw [List.append_nil] at hmem
    rw [backlogs_of_live he]
    exact hmem

theorem Sound.fits (h : w.Sound busy loose) (hbusy : ∀ q, q ≠ p → busy ≠ some q)
    (hl : w.Live p d) : w.backlogs.Fits w.units p d.queued where
  here := backlogs_of_live hl
  elsewhere q hq _ := h.mem_backlogs (hbusy q hq)

theorem backlogs_put (hl : w.Live p d) {s : Site} (hid : s.deque.id = p) :
    (w.put s).backlogs = Function.update w.backlogs p s.deque.queued := by
  funext q
  by_cases hq : q = p
  · rw [hq, Function.update_self]
    exact backlogs_of_live ((live_put hl hid).2 (.inl ⟨rfl, rfl⟩))
  · rw [Function.update_of_ne hq]
    have hsame : (w.put s).live? q = w.live? q := by
      ext e
      rw [live?_eq_some, live?_eq_some, live_put hl hid]
      simp [hq]
    rw [backlogs, backlogs, hsame]

end Lists

structure Performed (w : World) (loose : Option PoolId) (p : PoolId) (d : Deque) (call : Call)
    (s : Site) : Prop where
  run : w.perform p call = .ok (((w.site d).scene.perform call).1, w.put s)
  sound : (w.put s).Sound none loose
  frame : (w.site d).Frame s
  scene : s.scene = ((w.site d).scene.perform call).2
  allowed : w.backlogs.Allows (w.lack p) p call ((w.site d).scene.perform call).1
  backlogs_eq : (w.put s).backlogs =
    w.backlogs.after p call ((w.site d).scene.perform call).1

theorem Sound.perform_beside {w : World} {busy loose : Option PoolId} {p : PoolId} {d : Deque}
    {call : Call} (h : w.Sound busy loose) (hl : w.Live p d) (hp : busy ≠ some p)
    (hc : call.Admissible w.units) :
    ∃ s, call.perform (w.site d) = .ok (((w.site d).scene.perform call).1, s) ∧
      w.perform p call = .ok (((w.site d).scene.perform call).1, w.put s) ∧
      (w.put s).Sound busy loose ∧ (w.site d).Frame s ∧
      s.scene = ((w.site d).scene.perform call).2 := by
  obtain ⟨hs, hu⟩ := h.site p d hl hp
  obtain ⟨s, hrun, hb⟩ := Site.perform_scene hs hu hc
  exact ⟨s, hrun, visit_eq hl hrun (hb.frame.id.trans hl.2),
    h.put hl hb.frame hb.sound.counted (fun _ => ⟨hb.sound, hb.unlocked⟩) fun q _ hq => hq,
    hb.frame, hb.scene⟩

theorem Sound.perform {w : World} {loose : Option PoolId} {p : PoolId} {d : Deque} {call : Call}
    (h : w.Sound none loose) (hl : w.Live p d) (hc : call.Admissible w.units) :
    ∃ s, w.Performed loose p d call s := by
  obtain ⟨s, -, hrun, hsound, hframe, hscene⟩ := h.perform_beside hl (by simp) hc
  have hid : s.deque.id = p := hframe.id.trans hl.2
  have hfits : w.backlogs.Fits w.units (w.site d).deque.id (w.site d).deque.queued :=
    (show (w.site d).deque.id = p from hl.2) ▸ h.fits (by simp) hl
  obtain ⟨hallowed, hafter⟩ := Site.perform_allowed (h.site p d hl (by simp)).1 hfits call
  rw [show (w.site d).deque.id = p from hl.2] at hallowed hafter
  rw [← lack_of_live hl] at hallowed
  refine ⟨s, hrun, hsound, hframe, hscene, hallowed, ?_⟩
  rw [backlogs_put hl hid, Backlogs.after_eq_update, hafter, ← hscene]
  rfl

end WorkStealing.World
