import Mathlib.Algebra.Ring.Nat
import Mathlib.Data.List.Induction
import WorkStealing.Backoff

set_option autoImplicit false

/-!
# The pace of a waiter

A fresh waiter moves on in each of its first seven rounds, and after that only in those in which it
is next in line, until it has moved on eleven times. The steps stay far below the width of the word,
so that no power of two is lost, and a product that does not fit is cut to the largest word.
-/
namespace WorkStealing.Backoff

namespace Round

/-- How many tickets the waiter is away from being served. Without a line it is always next. -/
def distance : Round → Nat
  | .spin => 0
  | .wait distance => distance.toNat

def isNear (r : Round) : Bool := r.distance ≤ 1

def lastLeft (r : Round) : Nat := if r.isNear then 10 else 6

theorem six_le_lastLeft (r : Round) : 6 ≤ r.lastLeft := by
  unfold lastLeft
  split <;> omega

theorem isNear_wait (distance : UInt32) : (wait distance).isNear = decide (distance ≤ 1) := rfl

end Round

def after (b : Backoff) (rs : List Round) : Backoff := rs.foldl (fun b r => (b.round r).2) b

theorem after_append (b : Backoff) (rs rs' : List Round) :
    b.after (rs ++ rs') = (b.after rs).after rs' := List.foldl_append

section Rounds

variable (b : Backoff)

theorem toNat_step_add_one (h : b.step.toNat ≤ 10) : (b.step + 1).toNat = b.step.toNat + 1 := by
  rw [UInt32.toNat_add]
  exact Nat.mod_eq_of_lt (by simp; omega)

theorem step_spin : b.spin.2.step.toNat =
    if b.step.toNat ≤ 10 then b.step.toNat + 1 else b.step.toNat := by
  have hle : b.step ≤ yieldLimit ↔ b.step.toNat ≤ 10 := UInt32.le_iff_toNat_le
  simp only [spin, hle]
  split
  · exact b.toNat_step_add_one ‹_›
  · rfl

theorem step_round (r : Round) : (b.round r).2.step.toNat =
    if b.step.toNat ≤ r.lastLeft then b.step.toNat + 1 else b.step.toNat := by
  cases r with
  | spin => exact b.step_spin
  | wait distance =>
    simp only [round, waitInLine, Round.lastLeft, Round.isNear_wait]
    by_cases hnear : distance ≤ 1
    · simpa [hnear] using b.step_spin
    · have hlt : spinLimit < b.step ↔ 6 < b.step.toNat := UInt32.lt_iff_toNat_lt
      simp only [hnear, hlt, if_false, decide_false, Bool.false_eq_true]
      split
      · rw [if_neg (by omega)]
      · rw [if_pos (by omega)]
        exact b.toNat_step_add_one (by omega)

theorem step_round_of_far {r : Round} (hfar : r.isNear = false) :
    (b.round r).2.step ≤ 7 ∨ (b.round r).2 = b := by
  have hstep := b.step_round r
  have hleft : r.lastLeft = 6 := if_neg (by simp [hfar])
  rw [hleft] at hstep
  split at hstep
  · refine .inl (UInt32.le_iff_toNat_le.2 ?_)
    rw [hstep]
    exact Nat.succ_le_succ ‹_›
  · exact .inr (congrArg Backoff.mk (UInt32.toNat.inj hstep))

theorem step_le_round (r : Round) : b.step.toNat ≤ (b.round r).2.step.toNat := by
  rw [step_round]
  split
  · exact Nat.le_succ _
  · exact Nat.le_refl _

theorem toNat_one_shiftLeft_step (h : b.step.toNat ≤ 6) :
    (1 <<< b.step : UInt32).toNat = 2 ^ b.step.toNat := by
  have hpow : 2 ^ b.step.toNat ≤ 2 ^ 6 := Nat.pow_le_pow_right (by omega) h
  rw [UInt32.toNat_shiftLeft, Nat.mod_eq_of_lt (show b.step.toNat < 32 by omega),
    UInt32.toNat_one, Nat.one_shiftLeft, Nat.mod_eq_of_lt (by omega)]

theorem toNat_cappedMul (c d : UInt32) :
    (cappedMul c d).toNat = min (c.toNat * d.toNat) (2 ^ 32 - 1) := by
  unfold cappedMul
  split
  · rename_i h
    rw [UInt32.toNat_mul, Nat.mod_eq_of_lt h]
    exact (Nat.min_eq_left (Nat.le_sub_one_of_lt h)).symm
  · rename_i h
    exact (Nat.min_eq_right (Nat.le_trans (Nat.sub_le _ 1) (Nat.le_of_not_lt h))).symm

inductive Paused (step : Nat) (r : Round) : Pause → Prop
  | yields (late : 6 < step) : Paused step r .yield
  | spins {hints : UInt32} (early : step ≤ 6)
      (enough : hints.toNat =
        if r.isNear then 2 ^ step else min (r.distance * 64) (2 ^ 32 - 1)) :
      Paused step r (.spin hints)

theorem paused_spin {r : Round} (hnear : r.isNear = true) : Paused b.step.toNat r b.spin.1 := by
  have hle : b.step ≤ spinLimit ↔ b.step.toNat ≤ 6 := UInt32.le_iff_toNat_le
  simp only [spin, hle]
  split
  · rename_i h
    exact .spins h (by rw [if_pos hnear, b.toNat_one_shiftLeft_step h])
  · exact .yields (by omega)

theorem paused_round (r : Round) : Paused b.step.toNat r (b.round r).1 := by
  cases r with
  | spin => exact b.paused_spin rfl
  | wait distance =>
    have hlt : spinLimit < b.step ↔ 6 < b.step.toNat := UInt32.lt_iff_toNat_lt
    simp only [round, waitInLine, hlt]
    by_cases hnear : distance ≤ 1
    · rw [if_pos hnear]
      exact b.paused_spin (decide_eq_true hnear)
    · rw [if_neg hnear]
      split
      · exact .yields ‹_›
      · refine .spins (by omega) ?_
        rw [if_neg (by simpa [Round.isNear_wait] using hnear), toNat_cappedMul]
        rfl

end Rounds

theorem getElem?_states (b : Backoff) (rs : List Round) (n : Nat) :
    (b.states rs)[n]? = if n ≤ rs.length then some (b.after (rs.take n)) else none := by
  induction rs generalizing b n with
  | nil => cases n <;> simp [states, after]
  | cons r rs ih =>
    cases n with
    | zero => simp [states, after]
    | succ n => simpa [states, after] using ih (b.round r).2 n

theorem length_states (b : Backoff) (rs : List Round) :
    (b.states rs).length = rs.length + 1 := by
  induction rs generalizing b with
  | nil => rfl
  | cons r rs ih => exact congrArg (· + 1) (ih _)

theorem step_le_after (b : Backoff) (rs : List Round) : b.step.toNat ≤ (b.after rs).step.toNat := by
  induction rs generalizing b with
  | nil => exact Nat.le_refl _
  | cons r rs ih => exact Nat.le_trans (b.step_le_round r) (ih _)

/-- Seven rounds move a fresh waiter on, whatever they are, and then at most four near ones. -/
theorem step_after_new (rs : List Round) : (new.after rs).step.toNat =
    min rs.length 7 + min 4 ((rs.drop 7).countP Round.isNear) := by
  induction rs using List.reverseRecOn with
  | nil => rfl
  | append_singleton rs r ih =>
    have hround : (new.after (rs ++ [r])).step.toNat = ((new.after rs).round r).2.step.toNat := by
      rw [after_append]
      rfl
    rw [hround, step_round, ih, List.length_append, List.length_singleton]
    rcases Nat.lt_or_ge rs.length 7 with hlt | hge
    · have hbefore : rs.drop 7 = [] := List.drop_of_length_le (by omega)
      have hafter : (rs ++ [r]).drop 7 = [] := List.drop_of_length_le (by simp; omega)
      have hleft := r.six_le_lastLeft
      rw [hbefore, hafter, List.countP_nil, if_pos (by omega)]
      omega
    · rw [List.drop_append_of_le_length hge, List.countP_append, List.countP_singleton]
      have hleft : r.lastLeft = if r.isNear then 10 else 6 := rfl
      rw [hleft]
      cases r.isNear with
      | false =>
        simp only [Bool.false_eq_true, if_false]
        rw [if_neg (by omega)]
        omega
      | true =>
        simp only [if_true]
        split <;> omega

/-- Two far rounds too many, then more near ones than it takes. -/
example : (new.after (List.replicate 9 (.wait 4) ++ List.replicate 5 .spin)).step = 11 := by
  decide

/-- What a fresh waiter does in a list of rounds. -/
structure Paced (rs : List Round) : Prop where
  length : (new.states rs).length = rs.length + 1
  step : ∀ (n : Nat) (b : Backoff), (new.states rs)[n]? = some b → b.step.toNat =
    if n ≤ 7 then n else min 11 (7 + ((rs.take n).drop 7).countP Round.isNear)
  rising : (new.states rs).Pairwise fun b b' => b.step ≤ b'.step
  next : ∀ (n : Nat) (b : Backoff) (r : Round), (new.states rs)[n]? = some b → rs[n]? = some r →
    (new.states rs)[n + 1]? = some (b.round r).2
  /-- A far round moves nobody past the seventh step. -/
  far : ∀ (n : Nat) (b : Backoff) (r : Round), (new.states rs)[n]? = some b → rs[n]? = some r →
    r.isNear = false → (b.round r).2.step ≤ 7 ∨ (b.round r).2 = b
  /-- Only a product is ever cut to the word, and it becomes the largest word. -/
  pause : ∀ (n : Nat) (b : Backoff) (r : Round), (new.states rs)[n]? = some b →
    rs[n]? = some r → Paused b.step.toNat r (b.round r).1

theorem getElem?_states_new {rs : List Round} {n : Nat} {b : Backoff} :
    (new.states rs)[n]? = some b ↔ n ≤ rs.length ∧ new.after (rs.take n) = b := by
  rw [getElem?_states]
  split
  · simp [*]
  · simp [*]

/-- However near and far rounds alternate, the state after each of them has a closed form. -/
theorem states_paced (rs : List Round) : Paced rs := by
  constructor
  · exact length_states new rs
  · intro n b hb
    obtain ⟨hn, rfl⟩ := getElem?_states_new.1 hb
    rw [step_after_new, List.length_take_of_le hn]
    split
    · rw [List.drop_of_length_le (by simp; omega), List.countP_nil]
      omega
    · omega
  · rw [List.pairwise_iff_getElem]
    intro m n hm hn hmn
    obtain ⟨-, hb⟩ := getElem?_states_new.1 (List.getElem?_eq_getElem hm)
    obtain ⟨-, hb'⟩ := getElem?_states_new.1 (List.getElem?_eq_getElem hn)
    have htake := List.take_append_drop m (rs.take n)
    rw [List.take_take, Nat.min_eq_left (Nat.le_of_lt hmn)] at htake
    rw [UInt32.le_iff_toNat_le, ← hb, ← hb', ← htake, after_append]
    exact step_le_after _ _
  · intro n b r hb hr
    obtain ⟨hn, rfl⟩ := getElem?_states_new.1 hb
    obtain ⟨hlt, rfl⟩ := List.getElem?_eq_some_iff.1 hr
    refine getElem?_states_new.2 ⟨hlt, ?_⟩
    rw [List.take_succ_eq_append_getElem hlt, after_append]
    rfl
  · exact fun n b r _ _ hfar => b.step_round_of_far hfar
  · exact fun n b r _ _ => b.paused_round r

end WorkStealing.Backoff
