import WorkStealing.Proofs.Session.Lifetimes

set_option autoImplicit false

/-!
# Identifiers from a counter

The identifier of a new pool is told by its place among the pools. A counter that starts at one, and
from which an opening draws as soon as there is room for the ring, tells the same.
-/
namespace WorkStealing

def PoolId.draw (next : Nat) : PoolId × Nat := (⟨next⟩, next + 1)

theorem PoolId.length_first (n : Nat) : (first n).length = n := by
  rw [first, List.length_map, List.length_range]

namespace World

/-- Opens a pool as `openPool` does, but takes its identifier from a counter. -/
def openDrawing (w : World) (next h : Nat) (config : PoolConfig) (start : Nat) :
    Checked (Except PoolError PoolId × World × Nat) := do
  match config.validate with
  | .error problem => return (.error (.ofProblem problem), w, next)
  | .ok _ =>
    match ← Ring.allocate w.limit config.initialCapacity with
    | .error e => return (.error e, w, next)
    | .ok ring =>
      let (p, next) := PoolId.draw next
      let deque : Deque :=
        { id := p, name := config.name, head := start, tail := start, ring,
          foreign := .startingAt 0 [], metrics := .new }
      let event := Event.created p config.name config.initialCapacity
      let w := { w with pools := w.pools.push (some deque), log := w.log.push event }
      return (.ok p, ← w.bind h ⟨.owner, p⟩, next)

variable {w : World} {config : PoolConfig} {start : Nat}

theorem openDrawing_eq (w : World) (hc : config.validate = .ok ()) (n start : Nat) :
    w.openDrawing (w.pools.size + 1) n config start =
      if Ring.fits w.limit config.initialCapacity then do
        return (.ok (.ofIndex w.pools.size),
          ← (w.opened config start).bind n ⟨.owner, .ofIndex w.pools.size⟩, w.pools.size + 2)
      else .ok (.error (.resourceExhausted config.initialCapacity), w, w.pools.size + 1) := by
  obtain ⟨k, -, hk, -⟩ := PoolConfig.power_of_validate hc
  simp only [openDrawing, hc, Ring.allocate_eq w.limit hk, ok_bind]
  cases Ring.fits w.limit config.initialCapacity <;> rfl

/-- The counter that stands one above the number of pools gives what `openPool` gives, and stands
there again. -/
theorem Sound.openDrawing (h : w.Sound none none) (hstart : start ≤ Word.max) (n : Nat) :
    ∃ r v, w.openPool n config start = .ok (r, v) ∧
      w.openDrawing (w.pools.size + 1) n config start = .ok (r, v, v.pools.size + 1) := by
  cases hc : config.validate with
  | error problem =>
    refine ⟨.error (.ofProblem problem), w, ?_, ?_⟩
    · rw [openPool, hc]
      rfl
    · rw [World.openDrawing, hc]
      rfl
  | ok =>
    rw [openPool_eq w hc, openDrawing_eq w hc]
    split
    · have hlive : (w.opened config start).Live (.ofIndex w.pools.size) (.fresh config start _) :=
        live_opened.2 (.inl ⟨rfl, rfl⟩)
      obtain ⟨v, hrun, hrebound⟩ := (h.opened hc hstart).bind_rebound
        (k := ⟨.owner, .ofIndex w.pools.size⟩) hlive (fun p hp => (Option.some.inj hp).symm) n
      have hsize : v.pools.size = w.pools.size + 1 :=
        hrebound.size_eq.trans (Array.size_push ..)
      refine ⟨.ok (.ofIndex w.pools.size), v, ?_, ?_⟩
      · rw [hrun]
        rfl
      · rw [hrun, hsize]
        rfl
    · exact ⟨_, w, rfl, rfl⟩

/-- After any session the counter has been drawn from once for each pool that was opened, and the
next opening may as well draw from it. -/
theorem run_openDrawing {telemetry hooks : Bool} {ops : List Op} {reports : List StepReport}
    (hrun : (World.start telemetry hooks).run ops = .ok (reports, w)) (hstart : start ≤ Word.max)
    (n : Nat) :
    ∃ r v, w.openPool n config start = .ok (r, v) ∧
      w.openDrawing ((StepReport.openings reports).length + 1) n config start =
        .ok (r, v, v.pools.size + 1) := by
  have hopenings := (sound_start telemetry hooks).run_openings ops _ hrun
  have hcount : (StepReport.openings reports).length = w.pools.size := by
    have hlength := congrArg List.length hopenings
    rw [List.length_append, PoolId.length_first, PoolId.length_first] at hlength
    exact (Nat.zero_add _).symm.trans hlength
  rw [hcount]
  exact (sound_of_run hrun).openDrawing hstart n

end World

end WorkStealing
