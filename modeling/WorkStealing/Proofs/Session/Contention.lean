import WorkStealing.Proofs.Deque.Contention
import WorkStealing.Proofs.Session.Backlogs
import WorkStealing.Proofs.Session.Invariant

set_option autoImplicit false

/-!
# Calls at a held lock

Between two steps of a session the locks of its pools are free. While somebody else takes the lock
of a pool, some calls wait in line and all others end as they would have ended without it.
-/
namespace WorkStealing

namespace World

variable {w : World} {p : PoolId} {d : Deque}

/-- Whether a call on that pool has to take the lock. A push does if its unit is in no pool but
there is no room for it, or the tail is at its end. -/
def Contends (w : World) (d : Deque) : Call → Prop
  | .push u => (∀ q e, w.Live q e → u ∉ e.queued) ∧
      (d.tail = Word.max ∨ d.capacity - 1 ≤ d.tail - d.head)
  | .pop => d.head < d.tail ∧ ∀ i, d.head + 1 ≤ i → i < d.tail → d.ring.cell i = none
  | .steal => d.head < d.tail
  | .remove .foreign u => u ∈ d.queued
  | .remove .owner u => u ∈ d.queued ∧
      (d.ring.cell (d.tail - 1) ≠ some u ∨ d.tail - d.head = 1)

theorem Sound.holder?_eq_none (h : w.Sound none none) {u : UnitId} :
    w.units.holder? u = none ↔ ∀ q e, w.Live q e → u ∉ e.queued := by
  constructor
  · intro hn q e he hu
    have hheld := (h.site q e he (by simp)).1.holder_of_mem hu
    exact nomatch hn.symm.trans hheld
  · intro hu
    refine Option.eq_none_iff_forall_ne_some.2 fun q hq => ?_
    obtain ⟨e, he⟩ := h.holder u q hq
    have hmem := ((h.site q e he (by simp)).1.holder u).1 (hq.trans (congrArg some he.2.symm))
    rw [List.append_nil] at hmem
    exact hu q e he hmem

theorem Sound.contends_iff (h : w.Sound none none) (d : Deque) (call : Call) :
    (w.site d).Contends call ↔ w.Contends d call := by
  cases call with
  | push u => exact and_congr_left' h.holder?_eq_none
  | pop => exact Iff.rfl
  | steal => exact Iff.rfl
  | remove side u => cases side <;> exact Iff.rfl

/-- In every state that a session can reach, with the lock of a pool in other hands, a call on it
waits in line exactly if the window and the unit say so. All other calls take no ticket, and end
with the answer and the state that they end with at a free lock. -/
theorem run_contention (telemetry hooks : Bool) (ops : List Op) : ∃ reports w,
    (start telemetry hooks).run ops = .ok (reports, w) ∧ ∀ p d, w.Live p d →
      d.foreign.nextTicket = d.foreign.nowServing ∧
      Convoy.hold (w.site d) =
        .ok ((w.site d).relocked (d.foreign.nextTicket + 1) d.foreign.nowServing) ∧
      ∀ call : Call, call.Admissible w.units → ∀ next now : Nat, now < next →
        ((∃ ticket ahead stage s, call.start ((w.site d).relocked next now) =
            .ok (.waiting ticket ahead stage, s)) ↔ w.Contends d call) ∧
        (w.Contends d call → ∃ stage s, call.start ((w.site d).relocked next now) =
            .ok (.waiting next (next - now) stage, s) ∧
          s.deque.foreign.nextTicket = next + 1 ∧ s.deque.foreign.nowServing = now) ∧
        (¬ w.Contends d call → ∃ r s, call.perform (w.site d) = .ok (r, s) ∧
          s.deque.foreign = d.foreign ∧
          call.start ((w.site d).relocked next now) = .ok (.landed r, s.relocked next now)) := by
  obtain ⟨reports, w, hrun, hw⟩ := (sound_start telemetry hooks).run ops
  refine ⟨reports, w, hrun, fun p d hl => ?_⟩
  obtain ⟨hs, hu⟩ := hw.site p d hl (by simp)
  refine ⟨hu, (Convoy.hold_eq hs hu).1, fun call hc next now hheld => ?_⟩
  rw [← hw.contends_iff d call]
  have hlands := Site.start_lands hs hu hc next now
  refine ⟨⟨fun ⟨ticket, ahead, stage, s, hwaits⟩ => ?_, fun hcontends => ?_⟩,
    Site.start_waits hs hc hheld, hlands⟩
  · by_contra hcontends
    obtain ⟨r, s', -, -, hstart⟩ := hlands hcontends
    exact nomatch hwaits.symm.trans hstart
  · obtain ⟨stage, s, hwaits, -⟩ := Site.start_waits hs hc hheld hcontends
    exact ⟨next, next - now, stage, s, hwaits⟩

/-- One pool with a unit and a hole behind it, and one without units. -/
def hollow : List Op :=
  [.new 0 (some 4) none, .stealer 1 0, .pushMany 0 .task 1 2, .remove 1 ⟨1⟩, .new 2 (some 4) none]

/-- A pop finds no unit above the head slot and waits, although the window has two slots. On an
empty pool it lands. -/
theorem run_contention_hollow : ∃ reports w d e,
    (start true true).run hollow = .ok (reports, w) ∧
      w.Live (.ofIndex 0) d ∧ w.Live (.ofIndex 1) e ∧ d.window = [some ⟨0⟩, none] ∧
      (∃ stage s, Call.pop.start ((w.site d).relocked 7 5) = .ok (.waiting 7 2 stage, s)) ∧
      ∃ r s, Call.pop.perform (w.site e) = .ok (r, s) ∧
        Call.pop.start ((w.site e).relocked 7 5) = .ok (.landed r, s.relocked 7 5) := by
  obtain ⟨reports, w, hrun, hcontention⟩ := run_contention true true hollow
  have hshown : ((start true true).run hollow).toOption.any (fun o =>
      ((o.2.live? (.ofIndex 0)).any fun d => decide (d.window = [some ⟨0⟩, none]) &&
        decide (d.head = 0) && decide (d.tail = 2) && decide (d.ring.cell 1 = none)) &&
      (o.2.live? (.ofIndex 1)).any fun e => decide (e.tail ≤ e.head)) = true := by
    decide +kernel
  rw [hrun] at hshown
  simp only [Except.toOption, Option.any_some, Option.any_eq_true, Bool.and_eq_true,
    decide_eq_true_eq] at hshown
  obtain ⟨⟨d, hd, ⟨⟨hwindow, hhead⟩, htail⟩, hhole⟩, e, he, hempty⟩ := hshown
  have hl := live?_eq_some.1 hd
  have hl' := live?_eq_some.1 he
  have hadmissible : Call.pop.Admissible w.units := fun _ h => by cases h
  have hcontends : w.Contends d .pop := by
    refine ⟨by omega, fun i hi hi' => ?_⟩
    obtain rfl : i = 1 := by omega
    exact hhole
  obtain ⟨stage, s, hwaits, -⟩ :=
    ((hcontention _ d hl).2.2 .pop hadmissible 7 5 (by decide)).2.1 hcontends
  obtain ⟨r, s', hperform, -, hlands⟩ :=
    ((hcontention _ e hl').2.2 .pop hadmissible 7 5 (by decide)).2.2 fun h =>
      Nat.not_lt.2 hempty h.1
  exact ⟨reports, w, d, e, hrun, hl, hl', hwindow, ⟨stage, s, hwaits⟩, r, s', hperform, hlands⟩

end World

end WorkStealing
