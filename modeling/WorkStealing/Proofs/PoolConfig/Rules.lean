import Mathlib.Algebra.Ring.Nat
import Mathlib.Data.List.Induction
import WorkStealing.PoolConfig

set_option autoImplicit false

/-!
# The rules for configurations

There are four rules, tried in a fixed order. What settings ask for is decided by the last capacity
and the last name among them, and they fail with the first rule that it breaks.
-/
namespace WorkStealing.PoolConfig

def Breaks (c : PoolConfig) : ConfigProblem → Prop
  | .tooSmall => c.initialCapacity < 2
  | .notPowerOfTwo _ => ¬ c.initialCapacity.isPowerOfTwo
  | .tooLarge => 2 ^ 24 < c.initialCapacity
  | .emptyName => c.name = some ""

def problems (c : PoolConfig) : List ConfigProblem :=
  [.tooSmall, .notPowerOfTwo c.initialCapacity, .tooLarge, .emptyName]

def FirstBreaks (c : PoolConfig) (p : ConfigProblem) : Prop :=
  ∃ before rest, c.problems = before ++ p :: rest ∧ c.Breaks p ∧ ∀ q ∈ before, ¬ c.Breaks q

structure Acceptable (c : PoolConfig) : Prop where
  capacity : ∃ k, 1 ≤ k ∧ k ≤ 24 ∧ c.initialCapacity = 2 ^ k
  name : c.name ≠ some ""

variable {c : PoolConfig} {p : ConfigProblem}

theorem acceptable_iff : c.Acceptable ↔ ∀ p ∈ c.problems, ¬ c.Breaks p := by
  simp only [problems, List.forall_mem_cons, Breaks]
  constructor
  · rintro ⟨⟨k, hk, hk', hc⟩, hname⟩
    have hlow := Nat.pow_le_pow_right (n := 2) (by omega) hk
    have hhigh := Nat.pow_le_pow_right (n := 2) (by omega) hk'
    exact ⟨by omega, fun hno => hno ⟨k, hc⟩, by omega, hname, by simp⟩
  · rintro ⟨hlow, hpower, hhigh, hname, -⟩
    obtain ⟨k, hk⟩ := Classical.not_not.1 hpower
    refine ⟨⟨k, ?_, ?_, hk⟩, hname⟩
    · refine Nat.pos_of_ne_zero fun hzero => hlow ?_
      rw [hk, hzero]
      omega
    · refine Nat.le_of_not_lt fun hlt => hhigh ?_
      rw [hk]
      exact Nat.pow_lt_pow_right (by omega) hlt

instance (c : PoolConfig) : DecidablePred c.Breaks
  | .tooSmall => inferInstanceAs (Decidable (c.initialCapacity < 2))
  | .notPowerOfTwo _ =>
    decidable_of_iff (isPowerOfTwo c.initialCapacity ≠ true) isPowerOfTwo_iff.not
  | .tooLarge => inferInstanceAs (Decidable (2 ^ 24 < c.initialCapacity))
  | .emptyName => inferInstanceAs (Decidable (c.name = some ""))

def blame (c : PoolConfig) (ps : List ConfigProblem) : Except ConfigProblem Unit :=
  match ps.find? fun p => decide (c.Breaks p) with
  | some p => .error p
  | none => .ok ()

theorem blame_cons (c : PoolConfig) (p : ConfigProblem) (ps : List ConfigProblem) :
    c.blame (p :: ps) = if c.Breaks p then .error p else c.blame ps := by
  unfold blame
  by_cases h : c.Breaks p <;> simp [h]

theorem validate_eq (c : PoolConfig) : c.validate = c.blame c.problems := by
  have hpower : (!isPowerOfTwo c.initialCapacity) = true ↔
      c.Breaks (.notPowerOfTwo c.initialCapacity) := by
    rw [Bool.not_eq_true', ← Bool.not_eq_true, isPowerOfTwo_iff]
    rfl
  simp only [problems, blame_cons]
  exact if_congr Iff.rfl rfl (if_congr hpower rfl (if_congr Iff.rfl rfl
    (if_congr Iff.rfl rfl rfl)))

theorem validate_eq_ok_iff : c.validate = .ok () ↔ c.Acceptable := by
  rw [validate_eq, acceptable_iff, blame]
  split
  · rename_i p hp
    have hbreaks := List.find?_some hp
    simpa using ⟨p, List.mem_of_find?_eq_some hp, of_decide_eq_true hbreaks⟩
  · rename_i hnone
    simpa using hnone

theorem firstBreaks_iff :
    c.FirstBreaks p ↔ c.problems.find? (fun q => decide (c.Breaks q)) = some p := by
  rw [List.find?_eq_some_iff_append, FirstBreaks]
  constructor
  · rintro ⟨before, rest, hproblems, hp, hbefore⟩
    exact ⟨decide_eq_true hp, before, rest, hproblems, fun q hq => by simpa using hbefore q hq⟩
  · rintro ⟨hp, before, rest, hproblems, hbefore⟩
    exact ⟨before, rest, hproblems, of_decide_eq_true hp, fun q hq => by simpa using hbefore q hq⟩

theorem validate_eq_error_iff : c.validate = .error p ↔ c.FirstBreaks p := by
  rw [validate_eq, firstBreaks_iff, blame]
  cases c.problems.find? fun q => decide (c.Breaks q) <;> simp

namespace Setting

def capacity? : Setting → Option Nat
  | .capacity n => some n
  | .name _ => none

def name? : Setting → Option String
  | .capacity _ => none
  | .name s => some s

end Setting

/-- The last capacity and the last name among the settings. -/
def asked (settings : List Setting) : PoolConfig where
  initialCapacity := (settings.filterMap Setting.capacity?).getLastD 256
  name := (settings.filterMap Setting.name?).getLast?

theorem foldl_set (settings : List Setting) :
    settings.foldl set PoolConfig.default = asked settings := by
  induction settings using List.reverseRecOn with
  | nil => rfl
  | append_singleton settings s ih =>
    rw [List.foldl_append, List.foldl_cons, List.foldl_nil, ih]
    cases s <;> simp [asked, set, Setting.capacity?, Setting.name?]

theorem build_eq (settings : List Setting) :
    build settings = (asked settings).validate.map fun _ => asked settings := by
  rw [build, foldl_set]
  rfl

theorem build_eq_ok_iff {settings : List Setting} :
    build settings = .ok c ↔ c = asked settings ∧ c.Acceptable := by
  rw [build_eq]
  constructor
  · intro h
    cases hv : (asked settings).validate with
    | error p =>
      rw [hv] at h
      cases h
    | ok _ =>
      rw [hv] at h
      cases h
      exact ⟨rfl, validate_eq_ok_iff.1 hv⟩
  · rintro ⟨rfl, hc⟩
    rw [validate_eq_ok_iff.2 hc]
    rfl

theorem build_eq_error_iff {settings : List Setting} :
    build settings = .error p ↔ (asked settings).FirstBreaks p := by
  rw [build_eq, ← validate_eq_error_iff]
  cases (asked settings).validate <;> simp [Except.map]

end WorkStealing.PoolConfig
