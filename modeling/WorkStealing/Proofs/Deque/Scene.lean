import WorkStealing.Deque.Call
import WorkStealing.Proofs.Deque.Window
import WorkStealing.Proofs.UnitTable.Accounts

set_option autoImplicit false

/-!
# Pools as they show themselves

A scene is what can be told of a pool and its surroundings without knowing where its counters
stand: the window is a list of slots, the log is without reports of rebases, and the metrics do not
count them. The calls are defined on scenes by what they do to that list.
-/
namespace WorkStealing

def Event.isRebase : Event → Bool
  | .rebased .. => true
  | _ => false

/-- The metrics but for the number of rebases. -/
def Metrics.quiet {W : Type} (m : Metrics W) : Metrics W := { m with rebases := 0 }

theorem Metrics.quiet_add {W : Type} {t : Tally} (h : t ≠ .rebase) (m : Metrics W) (n : Nat) :
    (m.add n t).quiet = m.quiet.add n t := by
  cases t <;> first | rfl | exact absurd rfl h

structure Deque.View where
  id : PoolId
  name : Option String
  slots : Slots
  capacity : Nat
  generation : Nat
  metrics : Metrics LockWaits

def Deque.view (d : Deque) : Deque.View where
  id := d.id
  name := d.name
  slots := d.window
  capacity := d.capacity
  generation := d.generation
  metrics := d.metrics.quiet

theorem Deque.view_of_window {d e : Deque} (hid : e.id = d.id) (hname : e.name = d.name)
    (hcap : e.ring.capacity = d.ring.capacity) (hgen : e.foreign.contents = d.foreign.contents)
    (hmetrics : e.metrics = d.metrics) : e.view = { d.view with slots := e.window } := by
  simp only [view, generation, capacity, hid, hname, hcap, hgen, hmetrics]

structure Scene extends Context where
  pool : Deque.View

def Context.quiet (c : Context) : Context := { c with log := c.log.filter (!·.isRebase) }

def Site.scene (s : Site) : Scene := ⟨s.toContext.quiet, s.deque.view⟩

namespace Scene

def emit (v : Scene) (e : Event) : Scene := { v with log := v.log.push e }

def tally (v : Scene) (t : Tally) : Scene :=
  if v.telemetry then { v with pool := { v.pool with metrics := v.pool.metrics.add 1 t } } else v

def count (v : Scene) : Option Tally → Scene
  | some t => v.tally t
  | none => v

def setSlots (v : Scene) (slots : Slots) : Scene := { v with pool := { v.pool with slots } }

def setUnits (v : Scene) (units : UnitTable) : Scene := { v with units }

def store (v : Scene) (u : UnitId) : Scene :=
  ((v.setSlots (v.pool.slots ++ [some u])).setUnits (v.units.hold u v.pool.id)).tally .push

def take (v : Scene) (u : UnitId) (slots : Slots) (t : Tally) : Scene :=
  ((v.setSlots slots).setUnits (v.units.letGo u)).tally t

def grow (v : Scene) : Scene :=
  { v.emit (.grew v.pool.id v.pool.name v.pool.capacity (2 * v.pool.capacity)
      v.pool.slots.length) with
    pool := { v.pool with
      capacity := 2 * v.pool.capacity, generation := v.pool.generation + 1 } }.tally .resize

/-- `u` is stored, in a larger ring if need be, unless that cannot be had. -/
def place (v : Scene) (u : UnitId) : Reply × Scene :=
  if v.pool.slots.length + 1 < v.pool.capacity then (.stored, v.store u)
  else if Ring.fits v.limit (2 * v.pool.capacity) then (.stored, v.grow.store u)
  else
    let e := PoolError.resourceExhausted (2 * v.pool.capacity)
    (.refused e, v.emit (.growthFailed v.pool.id v.pool.capacity e))

def push (v : Scene) (u : UnitId) : Reply × Scene :=
  match v.units.holder? u with
  | some q => (.refused (.alreadyQueued q), v)
  | none => v.place u

def pop (v : Scene) : Reply × Scene :=
  match Slots.newest v.pool.slots with
  | some u => (.taken u, v.take u (Slots.dropNewest v.pool.slots) .pop)
  | none => (.missed, v.setSlots [])

def steal (v : Scene) : Reply × Scene :=
  match Slots.oldest v.pool.slots with
  | some u => (.taken u, v.take u (Slots.dropOldest v.pool.slots) .steal)
  | none => (.missed, (v.setSlots []).tally .stealMiss)

def remove (v : Scene) (side : Side) (u : UnitId) : Reply × Scene :=
  if v.units.holder? u = some v.pool.id then
    (.taken u, v.take u (Slots.remove v.pool.slots (side = .owner) u) .remove)
  else (.missed, v.tally .removeMiss)

theorem tally_setUnits (v : Scene) (t : Tally) (units : UnitTable) :
    (v.setUnits units).tally t = (v.tally t).setUnits units := by
  unfold tally
  have htel : (v.setUnits units).telemetry = v.telemetry := rfl
  rw [htel]
  split <;> rfl

theorem grow_setUnits (v : Scene) (units : UnitTable) :
    (v.setUnits units).grow = v.grow.setUnits units := by
  rw [grow, grow, ← tally_setUnits]
  rfl

theorem units_grow (v : Scene) : v.grow.units = v.units := by
  unfold grow tally
  split <;> rfl

theorem id_grow (v : Scene) : v.grow.pool.id = v.pool.id := by
  unfold grow tally
  split <;> rfl

theorem slots_tally (v : Scene) (t : Tally) : (v.tally t).pool.slots = v.pool.slots := by
  unfold tally
  split <;> rfl

theorem slots_store (v : Scene) (u : UnitId) :
    (v.store u).pool.slots = v.pool.slots ++ [some u] := slots_tally ..

theorem slots_take (v : Scene) (u : UnitId) (slots : Slots) (t : Tally) :
    (v.take u slots t).pool.slots = slots := slots_tally ..

theorem slots_grow (v : Scene) : v.grow.pool.slots = v.pool.slots := slots_tally ..

def perform (v : Scene) : Call → Reply × Scene
  | .push u => v.push u
  | .pop => v.pop
  | .steal => v.steal
  | .remove side u => v.remove side u

end Scene

namespace Site

theorem scene_emit (s : Site) {e : Event} (h : e.isRebase = false) :
    (s.emit e).scene = s.scene.emit e := by
  simp [scene, emit, Scene.emit, Context.quiet, h]

theorem scene_emit_rebased (s : Site) (p : PoolId) (head tail : Nat) :
    (s.emit (.rebased p head tail)).scene = s.scene := by
  simp [scene, emit, Context.quiet, Event.isRebase]

theorem scene_tally (s : Site) {t : Tally} (h : t ≠ .rebase) :
    (s.tally t).scene = s.scene.tally t := by
  unfold tally Scene.tally
  have ht : s.scene.telemetry = s.telemetry := rfl
  rw [ht]
  split
  · simp only [scene, Deque.view, Metrics.quiet_add h]
    rfl
  · rfl

theorem scene_tally_rebase (s : Site) : (s.tally .rebase).scene = s.scene := by
  unfold tally
  split <;> rfl

theorem scene_setUnits (s : Site) (t : UnitTable) :
    (s.setUnits t).scene = s.scene.setUnits t := rfl

end Site

end WorkStealing
