import WorkStealing.Proofs.Backlogs
import WorkStealing.Proofs.Deque.Solo

set_option autoImplicit false

/-!
# Calls on the list of queued units

What a call replies is what it replies on the plain list of the queued units, and it leaves that
list as it would.
-/
namespace WorkStealing

/-- The slots that a push would ask for in vain: the window has left only the slot that stays free,
and no ring of twice the size can be had. -/
def Deque.lack (limit : Option Nat) (d : Deque) : Option Nat :=
  if d.length + 1 = d.capacity ∧ Ring.fits limit (2 * d.capacity) = false then
    some (2 * d.capacity)
  else none

namespace Site

variable {s : Site} {b : Backlogs}

def lack (s : Site) : Option Nat := s.deque.lack s.limit

theorem lack_of_room (h : s.deque.length + 1 < s.deque.capacity) : s.lack = none :=
  if_neg fun hfull => Nat.ne_of_lt h hfull.1

theorem lack_of_fits (h : Ring.fits s.limit (2 * s.deque.capacity) = true) : s.lack = none :=
  if_neg fun hfull => absurd h (Bool.eq_false_iff.1 hfull.2)

theorem lack_of_full (h : s.deque.Sound) (hfull : s.deque.capacity ≤ s.deque.length + 1)
    (hfits : Ring.fits s.limit (2 * s.deque.capacity) = false) :
    s.lack = some (2 * s.deque.capacity) := by
  apply if_pos
  refine ⟨Nat.le_antisymm ?_ hfull, hfits⟩
  have hround : s.deque.tail < s.deque.head + s.deque.capacity := h.lt_round
  have hhead := h.head_le_tail
  rw [Deque.length]
  omega

/-- Slots that the pool asks for in vain: twice as many as it has, and they cannot be had. -/
def Lacks (s : Site) (n : Nat) : Prop := n = 2 * s.deque.capacity ∧ Ring.fits s.limit n = false

theorem lacks_of_mem {n : Nat} (h : n ∈ s.lack) : s.Lacks n := by
  rw [lack, Deque.lack] at h
  split at h
  · rename_i hfull
    obtain rfl := Option.some.inj h
    exact ⟨rfl, hfull.2⟩
  · cases h

theorem push_allowed (h : s.Sound []) (hb : b.Fits s.units s.deque.id s.deque.queued)
    (u : UnitId) :
    b.Allows s.lack s.deque.id (.push u) (s.scene.push u).1 ∧
      b.after s.deque.id (.push u) (s.scene.push u).1 s.deque.id =
        Slots.units (s.scene.push u).2.pool.slots := by
  cases hn : s.units.holder? u with
  | some q =>
    have hpush : s.scene.push u = (.refused (.alreadyQueued q), s.scene) := by
      have hn' : s.scene.units.holder? u = some q := hn
      rw [Scene.push, hn']
    rw [hpush]
    refine ⟨?_, hb.here⟩
    change u ∈ b q
    by_cases hq : q = s.deque.id
    · rw [hq, hb.here]
      simpa using (h.holder u).1 (hq ▸ hn)
    · exact (hb.elsewhere q hq u).2 hn
  | none =>
    have hpush : s.scene.push u = s.scene.place u := by
      have hn' : s.scene.units.holder? u = none := hn
      rw [Scene.push, hn']
    have hnot : ∀ q, u ∉ b q := by
      refine hb.not_mem (fun hu => ?_) fun q _ => by simp [hn]
      rw [h.holder_of_mem hu] at hn
      cases hn
    have hstored : b.after s.deque.id (.push u) .stored s.deque.id = s.deque.queued ++ [u] := by
      rw [← hb.here]
      exact Function.update_self ..
    have hlength : s.scene.pool.slots.length = s.deque.length := s.deque.length_window
    rw [hpush, Scene.place, hlength]
    split
    · rename_i hroom
      refine ⟨⟨hnot, lack_of_room hroom⟩, hstored.trans ?_⟩
      rw [Scene.slots_store, Slots.units_append]
      rfl
    · rename_i hfull
      split
      · rename_i hfits
        refine ⟨⟨hnot, lack_of_fits hfits⟩, hstored.trans ?_⟩
        rw [Scene.slots_store, Scene.slots_grow, Slots.units_append]
        rfl
      · rename_i hfits
        refine ⟨⟨hnot, lack_of_full h.deque ?_ (Bool.eq_false_iff.2 hfits)⟩, hb.here⟩
        exact Nat.le_of_not_lt hfull

theorem pop_allowed (hb : b s.deque.id = s.deque.queued) :
    b.Allows s.lack s.deque.id .pop s.scene.pop.1 ∧
      b.after s.deque.id .pop s.scene.pop.1 s.deque.id =
        Slots.units s.scene.pop.2.pool.slots := by
  have hunits : b s.deque.id = Slots.units (Slots.dropNewest s.deque.window) ++
      (Slots.newest s.deque.window).toList := hb.trans (Slots.units_dropNewest _)
  cases hnew : Slots.newest s.deque.window with
  | some u =>
    rw [hnew] at hunits
    rw [scene_pop_taken hnew]
    refine ⟨?_, ?_⟩
    · change (b s.deque.id).getLast? = some u
      rw [hunits, Option.toList_some, List.getLast?_concat]
    · rw [Scene.slots_take]
      change Function.update b s.deque.id (b s.deque.id).dropLast s.deque.id = _
      rw [Function.update_self, hunits, Option.toList_some, List.dropLast_concat]
  | none =>
    have hnil : b s.deque.id = [] := hb.trans (Slots.units_of_newest_none hnew)
    have hpop : s.scene.pop = (.missed, s.scene.setSlots []) := by
      have hnew' : Slots.newest s.scene.pool.slots = none := hnew
      rw [Scene.pop, hnew']
    rw [hpop]
    exact ⟨hnil, hnil⟩

theorem steal_allowed (hb : b s.deque.id = s.deque.queued) :
    b.Allows s.lack s.deque.id .steal s.scene.steal.1 ∧
      b.after s.deque.id .steal s.scene.steal.1 s.deque.id =
        Slots.units s.scene.steal.2.pool.slots := by
  have hunits : b s.deque.id = (Slots.oldest s.deque.window).toList ++
      Slots.units (Slots.dropOldest s.deque.window) := hb.trans (Slots.units_dropOldest _)
  cases hold : Slots.oldest s.deque.window with
  | some u =>
    rw [hold] at hunits
    rw [scene_steal_taken hold]
    refine ⟨?_, ?_⟩
    · change (b s.deque.id).head? = some u
      rw [hunits]
      rfl
    · rw [Scene.slots_take]
      change Function.update b s.deque.id (b s.deque.id).tail s.deque.id = _
      rw [Function.update_self, hunits]
      rfl
  | none =>
    have hnil : b s.deque.id = [] := hb.trans (Slots.units_of_oldest_none hold)
    have hsteal : s.scene.steal = (.missed, (s.scene.setSlots []).tally .stealMiss) := by
      have hold' : Slots.oldest s.scene.pool.slots = none := hold
      rw [Scene.steal, hold']
    rw [hsteal]
    refine ⟨hnil, hnil.trans ?_⟩
    rw [Scene.slots_tally]
    rfl

theorem remove_allowed (h : s.Sound []) (hb : b s.deque.id = s.deque.queued) (side : Side)
    (u : UnitId) :
    b.Allows s.lack s.deque.id (.remove side u) (s.scene.remove side u).1 ∧
      b.after s.deque.id (.remove side u) (s.scene.remove side u).1 s.deque.id =
        Slots.units (s.scene.remove side u).2.pool.slots := by
  have hmem : u ∈ b s.deque.id ↔ s.units.holder? u = some s.deque.id := by
    rw [hb, h.holder u, List.append_nil]
  by_cases hheld : s.units.holder? u = some s.deque.id
  · rw [scene_remove_taken hheld]
    refine ⟨⟨rfl, hmem.2 hheld⟩, ?_⟩
    rw [Scene.slots_take, Slots.units_remove h.nodup_queued, ← Deque.queued_eq, ← hb]
    exact Function.update_self ..
  · have hremove : s.scene.remove side u = (.missed, s.scene.tally .removeMiss) := if_neg hheld
    rw [hremove]
    refine ⟨fun hu => hheld (hmem.1 hu), hb.trans ?_⟩
    rw [Scene.slots_tally]
    rfl

/-- A call that nobody disturbs is a call on the list of the queued units. -/
theorem perform_allowed (h : s.Sound []) (hb : b.Fits s.units s.deque.id s.deque.queued)
    (call : Call) :
    b.Allows s.lack s.deque.id call (s.scene.perform call).1 ∧
      b.after s.deque.id call (s.scene.perform call).1 s.deque.id =
        Slots.units (s.scene.perform call).2.pool.slots := by
  cases call with
  | push u => exact push_allowed h hb u
  | pop => exact pop_allowed hb.here
  | steal => exact steal_allowed hb.here
  | remove side u => exact remove_allowed h hb.here side u

theorem push_not_taken (u v : UnitId) : (s.scene.push u).1 ≠ .taken v := by
  unfold Scene.push Scene.place
  split
  · simp
  · split
    · simp
    · split <;> simp

theorem mem_of_taken (h : s.Sound []) {call : Call} {u : UnitId}
    (hr : (s.scene.perform call).1 = .taken u) : u ∈ s.deque.queued := by
  let b : Backlogs := fun _ => s.deque.queued
  have hallowed : b.Allows s.lack s.deque.id call (s.scene.perform call).1 := by
    cases call with
    | push v => exact absurd hr (push_not_taken v u)
    | pop => exact (pop_allowed rfl).1
    | steal => exact (steal_allowed rfl).1
    | remove side v => exact (remove_allowed h rfl side v).1
  rw [hr] at hallowed
  exact hallowed.mem_of_taken

end Site

end WorkStealing
