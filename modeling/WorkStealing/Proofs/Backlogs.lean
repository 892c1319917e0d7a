import Mathlib.Logic.Function.Basic
import WorkStealing.Deque.Call
import WorkStealing.Proofs.UnitTable.Accounts

set_option autoImplicit false

/-!
# Queued units as plain lists

Pools as lists of units, oldest first, and the calls on such lists: which replies a call may have,
and what it leaves. A history of calls is legal when each reply is one that the lists allow at its
turn.
-/
namespace WorkStealing

/-- The queued units of every pool. -/
abbrev Backlogs := PoolId → List UnitId

structure Deed where
  pool : PoolId
  call : Call
  reply : Reply
  /-- The slots that a push at that moment would ask for in vain. -/
  lack : Option Nat

namespace Backlogs

/-- The reply that a call has. A unit that is queued nowhere is stored, unless slots are lacking. -/
def Allows (lack : Option Nat) (b : Backlogs) (p : PoolId) : Call → Reply → Prop
  | .push u, .stored => (∀ q, u ∉ b q) ∧ lack = none
  | .push u, .refused (.alreadyQueued q) => u ∈ b q
  | .push u, .refused (.resourceExhausted n) => (∀ q, u ∉ b q) ∧ lack = some n
  | .pop, .taken u => (b p).getLast? = some u
  | .pop, .missed => b p = []
  | .steal, .taken u => (b p).head? = some u
  | .steal, .missed => b p = []
  | .remove _ u, .taken v => v = u ∧ u ∈ b p
  | .remove _ u, .missed => u ∉ b p
  | _, _ => False

def after (b : Backlogs) (p : PoolId) : Call → Reply → Backlogs
  | .push u, .stored => Function.update b p (b p ++ [u])
  | .pop, .taken _ => Function.update b p (b p).dropLast
  | .steal, .taken _ => Function.update b p (b p).tail
  | .remove _ u, .taken _ => Function.update b p ((b p).erase u)
  | _, _ => b

def final (b : Backlogs) : List Deed → Backlogs
  | [] => b
  | x :: xs => (b.after x.pool x.call x.reply).final xs

def Legal (b : Backlogs) : List Deed → Prop
  | [] => True
  | x :: xs => b.Allows x.lack x.pool x.call x.reply ∧ (b.after x.pool x.call x.reply).Legal xs

variable {lack lack' : Option Nat} {b : Backlogs} {p : PoolId}

@[simp] theorem after_missed (b : Backlogs) (p : PoolId) (call : Call) :
    b.after p call .missed = b := by
  cases call <;> rfl

@[simp] theorem after_refused (b : Backlogs) (p : PoolId) (call : Call) (e : PoolError) :
    b.after p call (.refused e) = b := by
  cases call <;> rfl

theorem after_of_ne {q : PoolId} (hq : q ≠ p) (call : Call) (r : Reply) :
    b.after p call r q = b q := by
  cases call <;> cases r <;> first | rfl | exact Function.update_of_ne hq _ _

theorem after_eq_update (b : Backlogs) (p : PoolId) (call : Call) (r : Reply) :
    b.after p call r = Function.update b p (b.after p call r p) := by
  funext q
  by_cases hq : q = p
  · rw [hq, Function.update_self]
  · rw [Function.update_of_ne hq, after_of_ne hq]

theorem Allows.of_lack {call : Call} {r : Reply} (h : b.Allows lack p call r)
    (hlack : ∀ u, call = .push u → lack' = lack) : b.Allows lack' p call r := by
  cases call with
  | push u =>
    rw [hlack u rfl]
    exact h
  | pop | steal | remove => cases r <;> exact h

theorem allows_missed_of_nil (h : b p = []) {call : Call} (hc : ∀ u, call ≠ .push u) :
    b.Allows lack p call .missed := by
  cases call with
  | push u => exact absurd rfl (hc u)
  | pop => exact h
  | steal => exact h
  | remove side u =>
    change u ∉ b p
    rw [h]
    exact List.not_mem_nil

theorem Allows.mem_of_taken {call : Call} {u : UnitId} (h : b.Allows lack p call (.taken u)) :
    u ∈ b p := by
  cases call with
  | push v => cases h
  | pop => exact List.mem_of_getLast? h
  | steal => exact List.mem_of_head? h
  | remove side v =>
    obtain ⟨rfl, hu⟩ := h
    exact hu

theorem Allows.length_after_taken {call : Call} {u : UnitId}
    (h : b.Allows lack p call (.taken u)) :
    (b.after p call (.taken u) p).length + 1 = (b p).length := by
  have hpos := List.length_pos_of_mem h.mem_of_taken
  cases call with
  | push v => cases h
  | pop =>
    rw [after, Function.update_self, List.length_dropLast]
    omega
  | steal =>
    rw [after, Function.update_self, List.length_tail]
    omega
  | remove side v =>
    obtain ⟨rfl, hu⟩ := h
    rw [after, Function.update_self, List.length_erase_of_mem hu]
    omega

theorem final_append (b : Backlogs) (xs ys : List Deed) :
    b.final (xs ++ ys) = (b.final xs).final ys := by
  induction xs generalizing b with
  | nil => rfl
  | cons x xs ih => exact ih _

theorem legal_append {xs ys : List Deed} :
    b.Legal (xs ++ ys) ↔ b.Legal xs ∧ (b.final xs).Legal ys := by
  induction xs generalizing b with
  | nil => simp [Legal, final]
  | cons x xs ih => simp only [List.cons_append, Legal, final, ih, and_assoc]

theorem legal_concat {xs : List Deed} {x : Deed} (h : b.Legal xs)
    (hx : (b.final xs).Allows x.lack x.pool x.call x.reply) : b.Legal (xs ++ [x]) :=
  legal_append.2 ⟨h, hx, trivial⟩

theorem final_concat (b : Backlogs) (xs : List Deed) (x : Deed) :
    b.final (xs ++ [x]) = (b.final xs).after x.pool x.call x.reply :=
  b.final_append xs [x]

theorem final_of_ne {q : PoolId} {xs : List Deed} (h : ∀ x ∈ xs, x.pool = p) (hq : q ≠ p) :
    b.final xs q = b q := by
  induction xs generalizing b with
  | nil => rfl
  | cons x xs ih =>
    rw [final, ih fun y hy => h y (List.mem_cons_of_mem x hy)]
    refine after_of_ne ?_ x.call x.reply
    rw [h x List.mem_cons_self]
    exact hq

theorem legal_of_missed {xs : List Deed} (hb : b p = [])
    (h : ∀ x ∈ xs, x.pool = p ∧ x.reply = .missed ∧ ∀ u, x.call ≠ .push u) :
    b.Legal xs ∧ b.final xs = b := by
  induction xs with
  | nil => exact ⟨trivial, rfl⟩
  | cons x xs ih =>
    obtain ⟨hpool, hmiss, hcall⟩ := h x List.mem_cons_self
    obtain ⟨hlegal, hfinal⟩ := ih fun y hy => h y (List.mem_cons_of_mem x hy)
    have hallowed : b.Allows x.lack x.pool x.call .missed :=
      allows_missed_of_nil (hpool.symm ▸ hb) hcall
    rw [Legal, final, hmiss, after_missed]
    exact ⟨⟨hallowed, hlegal⟩, hfinal⟩

theorem legal_insert {xs ys : List Deed} {x : Deed} (h : b.Legal (xs ++ ys))
    (hmiss : x.reply = .missed) (hx : (b.final xs).Allows x.lack x.pool x.call x.reply) :
    b.Legal (xs ++ x :: ys) ∧ b.final (xs ++ x :: ys) = b.final (xs ++ ys) := by
  have hsame : (b.final xs).after x.pool x.call x.reply = b.final xs := by
    rw [hmiss, after_missed]
  rw [legal_append] at h
  refine ⟨legal_append.2 ⟨h.1, hx, ?_⟩, ?_⟩
  · rw [hsame]
    exact h.2
  · rw [final_append, final_append, final, hsame]

/-- The lists agree with the marks of the units, but for pool `p`, which holds `queued`. -/
structure Fits (b : Backlogs) (t : UnitTable) (p : PoolId) (queued : List UnitId) : Prop where
  here : b p = queued
  elsewhere : ∀ q, q ≠ p → ∀ u, u ∈ b q ↔ t.holder? u = some q

theorem Fits.frame {t t' : UnitTable} {queued queued' : List UnitId} {b' : Backlogs}
    (h : b.Fits t p queued) (hf : UnitTable.Frame p t t') (hhere : b' p = queued')
    (hb : ∀ q, q ≠ p → b' q = b q) : b'.Fits t' p queued' where
  here := hhere
  elsewhere q hq u := by rw [hb q hq, h.elsewhere q hq u, hf.holder u q hq]

theorem Fits.not_mem {t : UnitTable} {queued : List UnitId} (h : b.Fits t p queued) {u : UnitId}
    (hu : u ∉ queued) (hn : ∀ q, q ≠ p → t.holder? u ≠ some q) (q : PoolId) : u ∉ b q := by
  by_cases hq : q = p
  · rw [hq, h.here]
    exact hu
  · rw [h.elsewhere q hq u]
    exact hn q hq

end Backlogs

end WorkStealing
