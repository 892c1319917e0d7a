import Mathlib.Data.List.Basic
import WorkStealing.Proofs.Convoy.Standing
import WorkStealing.Proofs.Deque.Effects

set_option autoImplicit false

/-!
# What goes in and what comes out

A call that lands moves at most one unit. The queued units after it, with the one that it handed
out, are those before it with the one that it stored; only their order may differ. The metrics count
what went in and what came out.
-/
namespace WorkStealing

def Reply.got : Reply → List UnitId
  | .taken u => [u]
  | .stored | .refused _ | .missed => []

def Call.gave : Call → Reply → List UnitId
  | .push u, .stored => [u]
  | _, _ => []

def Flight.got : Flight → List UnitId
  | .landed r => r.got
  | .waiting .. => []

def Flight.gave (call : Call) : Flight → List UnitId
  | .landed r => call.gave r
  | .waiting .. => []

/-- The replies that a call can have at all. -/
def Call.Answers : Call → Reply → Prop
  | .push _, .stored | .push _, .refused _ => True
  | .pop, .taken _ | .pop, .missed => True
  | .steal, .taken _ | .steal, .missed => True
  | .remove _ _, .taken _ | .remove _ _, .missed => True
  | _, _ => False

@[simp] theorem Call.gave_missed (call : Call) : call.gave .missed = [] := by
  cases call <;> rfl

namespace Backlogs

variable {lack : Option Nat} {b : Backlogs} {p : PoolId} {call : Call} {r : Reply}

theorem Allows.answers (h : b.Allows lack p call r) : call.Answers r := by
  cases call <;> cases r <;> trivial

theorem Allows.balance (h : b.Allows lack p call r) :
    (b.after p call r p ++ r.got).Perm (b p ++ call.gave r) := by
  cases call with
  | push u =>
    cases r with
    | stored =>
      rw [after, Function.update_self, Reply.got, List.append_nil]
      exact .refl _
    | refused e =>
      rw [after_refused]
      exact .refl _
    | taken v | missed => cases h
  | pop =>
    cases r with
    | taken u =>
      rw [after, Function.update_self]
      change ((b p).dropLast ++ [u]).Perm (b p ++ [])
      rw [List.append_nil, List.dropLast_append_getLast? u h]
    | missed => exact .refl _
    | stored | refused => cases h
  | steal =>
    cases r with
    | taken u =>
      rw [after, Function.update_self]
      change ((b p).tail ++ [u]).Perm (b p ++ [])
      obtain ⟨l, hl⟩ := List.head?_eq_some_iff.1 h
      rw [hl, List.append_nil]
      exact List.perm_append_singleton u l
    | missed => exact .refl _
    | stored | refused => cases h
  | remove side u =>
    cases r with
    | taken v =>
      obtain ⟨rfl, hv⟩ := h
      rw [after, Function.update_self]
      change ((b p).erase v ++ [v]).Perm (b p ++ [])
      rw [List.append_nil]
      exact (List.perm_append_singleton v _).trans (List.perm_cons_erase hv).symm
    | missed => exact .refl _
    | stored | refused => cases h

theorem exists_fits (t : UnitTable) (p : PoolId) (queued : List UnitId) :
    ∃ b : Backlogs, b.Fits t p queued := by
  refine ⟨fun q => if q = p then queued else
    ((List.range t.size).map UnitId.mk).filter (t.holder? · = some q), if_pos rfl, ?_⟩
  intro q hq u
  rw [if_neg hq, List.mem_filter, decide_eq_true_iff, and_iff_right_iff_imp, List.mem_map]
  intro hu
  obtain ⟨e, he⟩ := UnitTable.knows_of_holder? hu
  have hlt : u.number < t.size := (Array.getElem?_eq_some_iff.1 he).1
  exact ⟨u.number, List.mem_range.2 hlt, rfl⟩

end Backlogs

namespace Site

variable {s s' : Site} {π π' : Pledge} {call : Call} {stage : Option LockedStage}

theorem Bears.balance {r : Reply} (h : s.Bears π call stage s' π' r) :
    (s'.backlog π' ++ r.got).Perm (s.backlog π ++ call.gave r) := by
  cases h with
  | commit _ h =>
    obtain ⟨b, hb⟩ := Backlogs.exists_fits s.units s.deque.id (s.backlog π)
    obtain ⟨hallowed, hafter⟩ := h b hb
    have hbalance := hallowed.balance
    rw [hafter, hb.here] at hbalance
    exact hbalance
  | visible hq _ | late hq =>
    rw [hq, Call.gave_missed]
    exact .refl _

theorem Bears.answers {r : Reply} (h : s.Bears π call stage s' π' r) : call.Answers r := by
  obtain ⟨b, hb⟩ := Backlogs.exists_fits s.units s.deque.id (s.backlog π)
  cases h with
  | commit _ h => exact (h b hb).1.answers
  | visible _ h => exact (h (fun _ => s.deque.queued) rfl).answers
  | late _ hcall =>
    rw [hcall]
    trivial

/-- A call that nobody disturbs answers as the lists do, and moves at most one unit. -/
theorem perform_balance (h : s.Sound []) (hs : s'.scene = (s.scene.perform call).2) :
    call.Answers (s.scene.perform call).1 ∧
      (s'.deque.queued ++ (s.scene.perform call).1.got).Perm
        (s.deque.queued ++ call.gave (s.scene.perform call).1) := by
  obtain ⟨b, hb⟩ := Backlogs.exists_fits s.units s.deque.id s.deque.queued
  obtain ⟨hallowed, hafter⟩ := perform_allowed h hb call
  have hbalance := hallowed.balance
  rw [hafter, hb.here, ← hs] at hbalance
  exact ⟨hallowed.answers, hbalance⟩

/-- From `s` to `s'` the units of `gave` went in, those of `got` came out, and if anything is
counted both were. -/
structure Trades (s : Site) (π : Pledge) (gave got : List UnitId) (s' : Site) (π' : Pledge) :
    Prop where
  balance : (s'.backlog π' ++ got).Perm (s.backlog π ++ gave)
  telemetry : s'.telemetry = s.telemetry
  pushes : s.telemetry = true →
    s'.deque.metrics.snapshot.pushes = s.deque.metrics.snapshot.pushes + gave.length
  extracted : s.telemetry = true →
    s'.deque.metrics.snapshot.extracted = s.deque.metrics.snapshot.extracted + got.length

theorem Works.trades_none (h : s.Works none s') (hq : s'.backlog π' = s.backlog π) :
    s.Trades π [] [] s' π' where
  balance := by rw [hq]
  telemetry := h.telemetry
  pushes _ := by
    have hpushes := h.count .push rfl
    simpa [Metrics.count, Metrics.snapshot] using hpushes
  extracted _ := by
    have hpops := h.count .pop rfl
    have hsteals := h.count .steal rfl
    have hremoves := h.count .remove rfl
    simp only [Metrics.count] at hpops hsteals hremoves
    simp [Metrics.snapshot, MetricsSnapshot.extracted, hpops, hsteals, hremoves]

theorem Works.trades {r : Reply} (h : s.Works (call.tally? r) s')
    (hr : call.Answers r)
    (hb : (s'.backlog π' ++ r.got).Perm (s.backlog π ++ call.gave r)) :
    s.Trades π (call.gave r) r.got s' π' where
  balance := hb
  telemetry := h.telemetry
  pushes htel := by
    have hpushes := h.count .push rfl
    simp only [Metrics.count, htel, true_and] at hpushes
    rw [Metrics.snapshot, Metrics.snapshot, hpushes]
    cases call <;> cases r <;> rfl
  extracted htel := by
    have hpops := h.count .pop rfl
    have hsteals := h.count .steal rfl
    have hremoves := h.count .remove rfl
    simp only [Metrics.count, htel, true_and] at hpops hsteals hremoves
    simp only [Metrics.snapshot, MetricsSnapshot.extracted, hpops, hsteals, hremoves]
    cases call with
    | push u =>
      cases r with
      | stored | refused => rfl
      | taken | missed => cases hr
    | pop | steal | remove =>
      cases r with
      | taken v =>
        simp [Call.tally?, Reply.got]
        omega
      | missed => simp [Call.tally?, Reply.got]
      | stored | refused => cases hr

theorem Trades.refl (s : Site) (π : Pledge) : s.Trades π [] [] s π :=
  (Works.refl s).trades_none rfl

theorem Comes.trades {budget : Nat} {flight : Flight}
    (h : s.Comes π call stage budget flight s' π') (hw : s.Works (flight.tally? call) s') :
    s.Trades π (flight.gave call) flight.got s' π' := by
  cases h.fate with
  | landed hb _ => exact hw.trades hb.answers hb.balance
  | waiting hq => exact hw.trades_none hq

end Site

end WorkStealing
