import WorkStealing.Deque.Call
import WorkStealing.Proofs.Deque.Window
import WorkStealing.Proofs.UnitTable.Accounts

set_option autoImplicit false

/-!
# A pool in order among its surroundings

A site is sound when its pool is, when every reference is accounted for, and when the units marked
as held by the pool are those in its window and those that a waiting push is about to place. While
the owner waits for the lock its pool may be short of a slot; `Pledge` says what the owner has
already done.
-/
namespace WorkStealing

namespace Site

structure Sound (s : Site) (pending : List UnitId) : Prop where
  deque : s.deque.Sound
  counted : s.units.Counted
  nodup : (s.deque.queued ++ pending).Nodup
  holder : ∀ u, s.units.holder? u = some s.deque.id ↔ u ∈ s.deque.queued ++ pending

namespace Sound

variable {s s' : Site} {pending : List UnitId}

theorem nodup_queued (h : s.Sound pending) : s.deque.queued.Nodup :=
  (List.nodup_append.1 h.nodup).1

theorem holder_of_mem (h : s.Sound pending) {u : UnitId} (hu : u ∈ s.deque.queued) :
    s.units.holder? u = some s.deque.id :=
  (h.holder u).2 (List.mem_append_left _ hu)

theorem holder_of_cell (h : s.Sound pending) {i : Nat} {u : UnitId}
    (hc : s.deque.ring.cell i = some u) : s.units.holder? u = some s.deque.id :=
  h.holder_of_mem (h.deque.mem_queued_iff.2 ⟨i, hc⟩)

theorem knows_of_cell (h : s.Sound pending) {i : Nat} {u : UnitId}
    (hc : s.deque.ring.cell i = some u) : s.units.Knows u :=
  UnitTable.knows_of_holder? (h.holder_of_cell hc)

theorem congr (h : s.Sound pending) (hunits : s'.units = s.units)
    (hid : s'.deque.id = s.deque.id) (hring : s'.deque.ring = s.deque.ring)
    (hhead : s'.deque.head = s.deque.head) (htail : s'.deque.tail = s.deque.tail)
    (hretired : s'.deque.foreign.contents = s.deque.foreign.contents) : s'.Sound pending := by
  have hq : s'.deque.queued = s.deque.queued := by
    rw [Deque.queued, Deque.queued, Deque.window, Deque.window, Deque.length, Deque.length,
      hring, hhead, htail]
  refine ⟨h.deque.congr hring hhead htail hretired, ?_, ?_, ?_⟩
  · rw [hunits]
    exact h.counted
  · rw [hq]
    exact h.nodup
  · rw [hunits, hid, hq]
    exact h.holder

theorem same_units (h : s.Sound pending) (hunits : s'.units = s.units)
    (hid : s'.deque.id = s.deque.id) (hd : s'.deque.Sound)
    (hq : s'.deque.queued = s.deque.queued) : s'.Sound pending := by
  refine ⟨hd, ?_, ?_, ?_⟩
  · rw [hunits]
    exact h.counted
  · rw [hq]
    exact h.nodup
  · rw [hunits, hid, hq]
    exact h.holder

theorem hold (h : s.Sound []) {u : UnitId} (hu : s.units.Knows u)
    (hn : s.units.holder? u = none) : (s.setUnits (s.units.hold u s.deque.id)).Sound [u] where
  deque := h.deque
  counted := h.counted.hold hn
  nodup := by
    have hnot : u ∉ s.deque.queued := fun hq => by
      rw [h.holder_of_mem hq] at hn
      cases hn
    refine List.nodup_append.2 ⟨h.nodup_queued, by simp, ?_⟩
    rintro v hv w hw rfl
    exact hnot (List.mem_singleton.1 hw ▸ hv)
  holder v := by
    change (s.units.hold u s.deque.id).holder? v = some s.deque.id ↔ v ∈ s.deque.queued ++ [u]
    rw [UnitTable.holder?_hold hu, List.mem_append, List.mem_singleton]
    split
    · rename_i huv
      simp [huv]
    · rename_i huv
      rw [h.holder v]
      simp [Ne.symm huv]

theorem dropPending {u : UnitId} (h : s.Sound [u]) :
    (s.setUnits (s.units.letGo u)).Sound [] where
  deque := h.deque
  counted := h.counted.letGo ((h.holder u).2 (by simp))
  nodup := by
    rw [List.append_nil]
    exact h.nodup_queued
  holder v := by
    change (s.units.letGo u).holder? v = some s.deque.id ↔ v ∈ s.deque.queued ++ []
    have hnot : u ∉ s.deque.queued := fun hu =>
      (List.nodup_append.1 h.nodup).2.2 u hu u (by simp) rfl
    rw [UnitTable.holder?_letGo, List.append_nil]
    split
    · rename_i huv
      subst v
      simp [hnot]
    · rename_i huv
      rw [h.holder v, List.mem_append, List.mem_singleton]
      simp [Ne.symm huv]

theorem place {u : UnitId} (h : s.Sound [u]) {d : Deque} (hd : d.Sound)
    (hid : d.id = s.deque.id) (hq : d.queued = s.deque.queued ++ [u]) :
    { s with deque := d }.Sound [] where
  deque := hd
  counted := h.counted
  nodup := by
    change (d.queued ++ []).Nodup
    rw [List.append_nil, hq]
    exact h.nodup
  holder v := by
    change s.units.holder? v = some d.id ↔ v ∈ d.queued ++ []
    rw [List.append_nil, hid, hq]
    exact h.holder v

theorem take (h : s.Sound pending) {u : UnitId} (hu : u ∈ s.deque.queued) {d : Deque}
    (hd : d.Sound) (hid : d.id = s.deque.id) (hq : d.queued = s.deque.queued.erase u) :
    { s with units := s.units.letGo u, deque := d }.Sound pending where
  deque := hd
  counted := h.counted.letGo (h.holder_of_mem hu)
  nodup := by
    change (d.queued ++ pending).Nodup
    rw [hq, ← List.erase_append_left pending hu]
    exact h.nodup.erase u
  holder v := by
    change (s.units.letGo u).holder? v = some d.id ↔ v ∈ d.queued ++ pending
    rw [UnitTable.holder?_letGo, hid, hq, ← List.erase_append_left pending hu,
      h.nodup.mem_erase_iff, ← h.holder v]
    split
    · rename_i huv
      simp [huv]
    · rename_i huv
      simp [Ne.symm huv]

end Sound

/-- What a step of a pool leaves alone: what other pools hold, and what never changes. -/
structure Frame (s s' : Site) : Prop where
  units : UnitTable.Frame s.deque.id s.units s'.units
  id : s'.deque.id = s.deque.id
  name : s'.deque.name = s.deque.name
  limit : s'.limit = s.limit
  telemetry : s'.telemetry = s.telemetry

namespace Frame

variable {s s' s'' : Site}

theorem trans (h : s.Frame s') (h' : s'.Frame s'') : s.Frame s'' where
  units := h.units.trans (h.id ▸ h'.units)
  id := h'.id.trans h.id
  name := h'.name.trans h.name
  limit := h'.limit.trans h.limit
  telemetry := h'.telemetry.trans h.telemetry

theorem of_units (s : Site) {t : UnitTable} {d : Deque}
    (ht : UnitTable.Frame s.deque.id s.units t) (hid : d.id = s.deque.id)
    (hname : d.name = s.deque.name) : s.Frame { s with units := t, deque := d } :=
  ⟨ht, hid, hname, rfl, rfl⟩

theorem of_deque (s : Site) {d : Deque} (hid : d.id = s.deque.id)
    (hname : d.name = s.deque.name) : s.Frame { s with deque := d } :=
  of_units s (UnitTable.Frame.refl ..) hid hname

theorem refl (s : Site) : s.Frame s := of_deque s rfl rfl

end Frame

theorem exists_tally (s : Site) (t : Tally) :
    ∃ m, s.tally t = { s with deque := { s.deque with metrics := m } } := by
  unfold tally
  split
  · exact ⟨_, rfl⟩
  · exact ⟨s.deque.metrics, rfl⟩

theorem exists_noteWait (s : Site) (rounds : Nat) :
    ∃ m, s.noteWait rounds = { s with deque := { s.deque with metrics := m } } := by
  unfold noteWait
  split
  · exact ⟨_, rfl⟩
  · exact ⟨s.deque.metrics, rfl⟩

theorem exists_deque_noteWait (s : Site) (rounds : Nat) :
    ∃ m, (s.noteWait rounds).deque = { s.deque with metrics := m } := by
  obtain ⟨m, hm⟩ := s.exists_noteWait rounds
  exact ⟨m, congrArg Site.deque hm⟩

theorem noteWait_zero (s : Site) : s.noteWait 0 = s := by
  unfold noteWait
  split <;> rfl

end Site

/-- What the owner's waiting call has done to the pool before it got the lock. -/
inductive Pledge where
  | none
  | unit (u : UnitId)
  /-- It has taken the last slot off the window. -/
  | slot
  deriving DecidableEq

namespace Pledge

def pending : Pledge → List UnitId
  | .unit u => [u]
  | .none | .slot => []

theorem length_pending_le (π : Pledge) : π.pending.length ≤ 1 := by
  cases π <;> simp [pending]

end Pledge

def LockedStage.pledge : LockedStage → Pledge
  | .rebase u | .store u => .unit u
  | .lastSlot _ => .slot
  | .steal | .extract .. => .none

namespace Site

/-- The site with the slot back in the window that the owner has taken off it. -/
def whole (s : Site) : Pledge → Site
  | .slot => s.setTail (s.deque.tail + 1)
  | .none | .unit _ => s

/-- A site that is sound but for what the owner has pledged. -/
structure Stands (s : Site) (π : Pledge) : Prop where
  sound : (s.whole π).Sound π.pending
  lowered : π = .slot → s.deque.head = s.deque.tail

namespace Stands

variable {s s' : Site} {π : Pledge}

theorem of_sound (h : s.Sound []) : s.Stands .none := ⟨h, fun h => by cases h⟩

theorem of_pending {u : UnitId} (h : s.Sound [u]) : s.Stands (.unit u) := ⟨h, fun h => by cases h⟩

theorem counted (h : s.Stands π) : s.units.Counted := by
  cases π <;> exact h.sound.counted

theorem ring (h : s.Stands π) : s.deque.ring.Sound := by
  cases π <;> exact h.sound.deque.ring

theorem congr (h : s.Stands π) (hunits : s'.units = s.units)
    (hid : s'.deque.id = s.deque.id) (hring : s'.deque.ring = s.deque.ring)
    (hhead : s'.deque.head = s.deque.head) (htail : s'.deque.tail = s.deque.tail)
    (hretired : s'.deque.foreign.contents = s.deque.foreign.contents) : s'.Stands π := by
  refine ⟨?_, ?_⟩
  · cases π with
    | none | unit => exact h.sound.congr hunits hid hring hhead htail hretired
    | slot =>
      refine h.sound.congr hunits hid hring hhead ?_ hretired
      exact congrArg (· + 1) htail
  · rw [hhead, htail]
    exact h.lowered

end Stands

end Site

end WorkStealing
