import WorkStealing.Proofs.Deque.Solo
import WorkStealing.Session.World

set_option autoImplicit false

/-!
# A world in order

Every pool of the world is in order and numbered by its place, a unit is held by a pool that has not
ended, and a pool has not ended exactly when there is a handle on it. In the middle of a step one
pool may be `busy`, with calls waiting at its lock, or `loose`, without a handle.
-/
namespace WorkStealing

namespace World

def site (w : World) (d : Deque) : Site := ⟨w.toContext, d⟩

/-- Pool `p` has not ended, and is `d`. -/
def Live (w : World) (p : PoolId) (d : Deque) : Prop :=
  w.pools[p.index]? = some (some d) ∧ d.id = p

structure Sound (w : World) (busy loose : Option PoolId) : Prop where
  counted : w.units.Counted
  ids : ∀ i d, w.pools[i]? = some (some d) → d.id = PoolId.ofIndex i
  site : ∀ p d, w.Live p d → busy ≠ some p → (w.site d).Sound [] ∧ d.Unlocked
  holder : ∀ u p, w.units.holder? u = some p → ∃ d, w.Live p d
  handle : ∀ x ∈ w.handles, ∃ d, w.Live x.2.pool d
  held : ∀ p d, w.Live p d → loose ≠ some p → ∃ x ∈ w.handles, x.2.pool = p
  keys : (w.handles.map Prod.fst).Nodup

def put (w : World) (s : Site) : World :=
  { w with
    toContext := s.toContext, pools := w.pools.setIfInBounds s.deque.id.index (some s.deque) }

section Pools

variable {w : World} {busy loose : Option PoolId} {p : PoolId} {d : Deque}

theorem Live.pool?_eq (h : w.Live p d) : w.pool? p = some d := by
  rw [pool?, h.1]
  rfl

theorem Live.unique {e : Deque} (h : w.Live p d) (h' : w.Live p e) : d = e :=
  Option.some.inj (Option.some.inj (h.1.symm.trans h'.1))

theorem Sound.live (h : w.Sound busy loose) {i : Nat} (hd : w.pools[i]? = some (some d)) :
    w.Live d.id d := by
  refine ⟨?_, rfl⟩
  rw [h.ids i d hd, PoolId.index_ofIndex]
  exact hd

theorem mem_of_handle? {h : Nat} {k : PoolHandle} (hk : w.handle? h = some k) :
    (h, k) ∈ w.handles := by
  obtain ⟨l, l', hl, _⟩ := List.lookup_eq_some_iff.1 hk
  rw [hl]
  simp

theorem Sound.live_of_handle? (h : w.Sound busy loose) {n : Nat} {k : PoolHandle}
    (hk : w.handle? n = some k) : ∃ d, w.Live k.pool d :=
  h.handle _ (mem_of_handle? hk)

theorem handle?_of_owned? {n : Nat} (h : w.owned? n = some p) :
    w.handle? n = some ⟨.owner, p⟩ := by
  unfold owned? at h
  split at h
  · cases h
    assumption
  · cases h

theorem handle?_of_stolen? {n : Nat} (h : w.stolen? n = some p) :
    w.handle? n = some ⟨.foreign, p⟩ := by
  unfold stolen? at h
  split at h
  · cases h
    assumption
  · cases h

theorem visit_eq {α : Type} (h : w.Live p d) {f : Site → Checked (α × Site)} {a : α} {s : Site}
    (hact : f (w.site d) = .ok (a, s)) (hid : s.deque.id = p) :
    w.visit p f = .ok (a, w.put s) := by
  have htake : takeOut w.pools p.index = (some d, w.pools.setIfInBounds p.index none) := by
    rw [takeOut, h.1]
    rfl
  have hact' : f { toContext := w.toContext, deque := d } = .ok (a, s) := hact
  rw [visit, htake]
  simp only [hact', ok_bind, pure_eq_ok, put, hid, Array.setIfInBounds_setIfInBounds]

theorem live_put (h : w.Live p d) {s : Site} (hid : s.deque.id = p) {q : PoolId} {e : Deque} :
    (w.put s).Live q e ↔ (q = p ∧ e = s.deque) ∨ (q ≠ p ∧ w.Live q e) := by
  have hlt : p.index < w.pools.size := (Array.getElem?_eq_some_iff.1 h.1).1
  simp only [Live, put, hid, Array.getElem?_setIfInBounds, hlt]
  by_cases hi : p.index = q.index
  · simp only [hi, if_true, Option.some.injEq]
    constructor
    · rintro ⟨rfl, hq⟩
      exact .inl ⟨hq.symm.trans hid, rfl⟩
    · rintro (⟨rfl, rfl⟩ | ⟨hq, he, heq⟩)
      · exact ⟨rfl, hid⟩
      · rw [← hi, h.1] at he
        cases he
        exact absurd (heq.symm.trans h.2) hq
  · have hq : q ≠ p := fun hq => hi (congrArg PoolId.index hq.symm)
    simp only [if_neg hi, hq, false_and, false_or, ne_eq, not_false_eq_true, true_and]

end Pools

end World

theorem Site.Sound.elsewhere {c c' : Context} {d : Deque} {p : PoolId} {pending : List UnitId}
    (h : (⟨c, d⟩ : Site).Sound pending) (hf : UnitTable.Frame p c.units c'.units)
    (hc : c'.units.Counted) (hp : d.id ≠ p) : (⟨c', d⟩ : Site).Sound pending where
  deque := h.deque
  counted := hc
  nodup := h.nodup
  holder u := (hf.holder u d.id hp).trans (h.holder u)

namespace World

theorem Sound.put {w : World} {busy busy' loose : Option PoolId} {p : PoolId} {d : Deque}
    {s : Site} (h : w.Sound busy loose) (hl : w.Live p d) (hf : (w.site d).Frame s)
    (hc : s.units.Counted) (hs : busy' ≠ some p → s.Sound [] ∧ s.deque.Unlocked)
    (hbusy : ∀ q, q ≠ p → busy' ≠ some q → busy ≠ some q) : (w.put s).Sound busy' loose := by
  have hid : s.deque.id = p := hf.id.trans hl.2
  have hunits : UnitTable.Frame p w.units s.units := hl.2 ▸ hf.units
  have hlive : ∀ q, (∃ e, w.Live q e) → ∃ e, (w.put s).Live q e := by
    rintro q ⟨e, he⟩
    by_cases hq : q = p
    · exact ⟨_, (live_put hl hid).2 (.inl ⟨hq, rfl⟩)⟩
    · exact ⟨e, (live_put hl hid).2 (.inr ⟨hq, he⟩)⟩
  refine ⟨hc, ?_, ?_, ?_, ?_, ?_, h.keys⟩
  · intro i e he
    change (w.pools.setIfInBounds _ _)[i]? = _ at he
    rw [Array.getElem?_setIfInBounds] at he
    split at he
    · rename_i hi
      split at he
      · cases he
        rw [← hi, hid]
        exact hl.2.symm.trans (h.ids _ _ hl.1)
      · cases he
    · exact h.ids i e he
  · intro q e he hq
    rcases (live_put hl hid).1 he with ⟨rfl, rfl⟩ | ⟨hne, he⟩
    · exact hs hq
    · -- another pool holds what it held, since only marks of `p` have changed
      obtain ⟨hsound, hunlocked⟩ := h.site q e he (hbusy q hne hq)
      exact ⟨hsound.elsewhere hunits hc (he.2 ▸ hne), hunlocked⟩
  · intro u q hu
    by_cases hq : q = p
    · exact ⟨_, (live_put hl hid).2 (.inl ⟨hq, rfl⟩)⟩
    · exact hlive q (h.holder u q ((hunits.holder u q hq).1 hu))
  · intro x hx
    exact hlive _ (h.handle x hx)
  · intro q e he hq
    rcases (live_put hl hid).1 he with ⟨rfl, rfl⟩ | ⟨hne, he⟩
    · exact h.held _ d hl hq
    · exact h.held q e he hq

end World

end WorkStealing
