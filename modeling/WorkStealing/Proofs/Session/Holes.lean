import WorkStealing.Proofs.Deque.Holes
import WorkStealing.Proofs.Session.Invariant

set_option autoImplicit false

/-!
# Holes of the pools

The length of a pool counts the holes of its window beside the units that are queued. No slot moves
within the window when the ring grows or the counters are brought back.
-/
namespace WorkStealing

theorem Deque.Sound.head_add_length {d : Deque} (h : d.Sound) :
    d.head + d.window.length = d.tail := by
  have hle := h.head_le_tail
  rw [d.length_window, Deque.length]
  omega

namespace Site

variable {s : Site}

theorem rebase_window (h : s.deque.Sound) (ht : s.deque.tail = Word.max) :
    ∃ s', s.rebase = .ok s' ∧ s'.deque.tail < s'.deque.capacity ∧
      s'.deque.capacity = s.deque.capacity ∧ s'.deque.window = s.deque.window := by
  obtain ⟨_, _, hw⟩ := h.rebased ht
  obtain ⟨_, _, hrebased⟩ := s.exists_rebased
  refine ⟨_, rebase_eq h ht, ?_⟩
  rw [hrebased]
  exact ⟨Nat.mod_lt _ h.capacity_pos, rfl, hw⟩

theorem grow_window (h : s.deque.Sound) : ∃ e? s', s.grow s.deque.length = .ok (e?, s') ∧
    (e? = none → s'.deque.capacity = 2 * s.deque.capacity) ∧
    (e? ≠ none → s'.deque = s.deque) ∧ s'.deque.window = s.deque.window := by
  rcases h.ring.grow_eq s.limit s.deque.head (Nat.le_of_lt h.length_lt) with
    ⟨-, hgrow⟩ | ⟨-, g, hgrow, hg⟩
  · have hrun : s.grow s.deque.length = .ok (some (.resourceExhausted (2 * s.deque.capacity)),
        s.emit (.growthFailed s.deque.id s.deque.capacity
          (.resourceExhausted (2 * s.deque.capacity)))) := by
      rw [grow, hgrow]
      rfl
    exact ⟨_, _, hrun, fun h => (by cases h), fun _ => rfl, rfl⟩
  · obtain ⟨_, hw⟩ := h.grown hg (l := s.deque.foreign.modify (g.emptied :: ·)) rfl
    obtain ⟨_, _, hgrown⟩ := s.exists_grown g
    refine ⟨none, s.grown g, ?_, fun _ => ?_, fun hne => absurd rfl hne, ?_⟩
    · rw [grow, hgrow]
      rfl
    · rw [hgrown]
      exact hg.capacity_eq
    · rw [hgrown]
      exact hw

end Site

namespace World

variable {w : World} {p : PoolId} {d : Deque}

theorem Sound.perform_change (h : w.Sound none none) (hl : w.Live p d) {call : Call}
    (hc : call.Admissible w.units) : ∃ r w' d', w.perform p call = .ok (r, w') ∧ w'.Live p d' ∧
      Slots.Change d.window call r d'.window := by
  obtain ⟨s, hp⟩ := h.perform hl hc
  have hsite := (h.site p d hl (by simp)).1
  have hid : s.deque.id = p := hp.frame.id.trans hl.2
  have hchange := Scene.change_perform (v := (w.site d).scene) hsite.nodup_queued
    (fun u => (hsite.holder u).trans (by rw [List.append_nil]; rfl)) call
  rw [← hp.scene] at hchange
  exact ⟨_, _, s.deque, hp.run, (live_put hl hid).2 (.inl ⟨rfl, rfl⟩), hchange⟩

/-- In every state that a session can reach the length of a pool is the number of its units and
holes, every call that nobody disturbs changes the window as its reply tells, and neither a rebase
nor growth moves a slot within the window. -/
theorem run_windows (telemetry hooks : Bool) (ops : List Op) : ∃ reports w,
    (start telemetry hooks).run ops = .ok (reports, w) ∧ ∀ p d, w.Live p d →
      d.head + d.window.length = d.tail ∧ d.window.length = d.length ∧
      d.length = d.queued.length + d.holes ∧
      (∀ call : Call, call.Admissible w.units → ∃ r w' d', w.perform p call = .ok (r, w') ∧
        w'.Live p d' ∧ Slots.Change d.window call r d'.window) ∧
      (d.tail = Word.max → ∃ s, (w.site d).rebase = .ok s ∧ s.deque.tail < s.deque.capacity ∧
        s.deque.capacity = d.capacity ∧ s.deque.window = d.window) ∧
      ∃ e? s, (w.site d).grow d.length = .ok (e?, s) ∧
        (e? = none → s.deque.capacity = 2 * d.capacity) ∧ (e? ≠ none → s.deque = d) ∧
        s.deque.window = d.window := by
  obtain ⟨reports, w, hrun, hw⟩ := (sound_start telemetry hooks).run ops
  refine ⟨reports, w, hrun, fun p d hl => ?_⟩
  have hd := (hw.site p d hl (by simp)).1.deque
  exact ⟨hd.head_add_length, d.length_window, d.length_window.symm.trans (Slots.length_eq d.window),
    fun call hc => hw.perform_change hl hc, fun ht => Site.rebase_window hd ht,
    Site.grow_window hd⟩

/-- A ring of four slots whose counters start close to the last machine word. A removal leaves a
hole in the last slot that the counters can name before they are brought back. -/
def holed : List Op :=
  [.newAt 0 (some 4) 18446744073709551612, .stealer 1 0, .pushMany 0 .task 1 3, .remove 1 ⟨2⟩]

/-- The pool has two units with a hole behind them, and the next push finds the tail at its end. -/
theorem run_windows_holed : ∃ reports w d, (start true true).run holed = .ok (reports, w) ∧
    w.Live (.ofIndex 0) d ∧ d.tail = Word.max ∧ d.window = [some ⟨0⟩, some ⟨1⟩, none] ∧
    d.length = d.queued.length + d.holes ∧
    (∃ r w' d', w.perform (.ofIndex 0) .pop = .ok (r, w') ∧ w'.Live (.ofIndex 0) d' ∧
      Slots.Change d.window .pop r d'.window) ∧
    (∃ s, (w.site d).rebase = .ok s ∧ s.deque.tail < s.deque.capacity ∧
      s.deque.capacity = d.capacity ∧ s.deque.window = d.window) ∧
    ∃ e? s, (w.site d).grow d.length = .ok (e?, s) ∧ s.deque.window = d.window := by
  obtain ⟨reports, w, hrun, hwindows⟩ := run_windows true true holed
  have hshown : ((start true true).run holed).toOption.any (fun o =>
      (o.2.live? (.ofIndex 0)).any fun d => decide (d.tail = Word.max) &&
        decide (d.window = [some ⟨0⟩, some ⟨1⟩, none])) = true := by
    decide +kernel
  rw [hrun] at hshown
  simp only [Except.toOption, Option.any_some, Option.any_eq_true, Bool.and_eq_true,
    decide_eq_true_eq] at hshown
  obtain ⟨d, hd, htail, hwindow⟩ := hshown
  have hl := live?_eq_some.1 hd
  obtain ⟨-, -, hlength, hcalls, hrebase, e?, s, hgrow, -, -, hgrown⟩ := hwindows _ d hl
  exact ⟨reports, w, d, hrun, hl, htail, hwindow, hlength, hcalls .pop (fun _ h => by cases h),
    hrebase htail, e?, s, hgrow, hgrown⟩

end World

end WorkStealing
