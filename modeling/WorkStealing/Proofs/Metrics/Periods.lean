import Mathlib.Algebra.Ring.Nat
import Mathlib.Data.List.DropRight
import WorkStealing.Metrics
import WorkStealing.Proofs.Metrics.Samples

set_option autoImplicit false

/-!
# What snapshots tell

A snapshot tells of the calls since the last reset and of nothing else. Each counter is the number
of calls of its kind, and what it tells of lock waits depends on the bag of the waits alone. The
histogram of the waits can be any that does what is documented of one.
-/
namespace WorkStealing

namespace MetricsOp

def isReset (op : MetricsOp) : Bool := op matches .reset

def isSnapshot (op : MetricsOp) : Bool := op matches .snapshot

def tallied (t : Tally) : MetricsOp → Nat
  | .tally s times => if s = t then times else 0
  | _ => 0

/-- The waits that the step reports. A wait of no rounds is none. -/
def waits : MetricsOp → List Nat
  | .lockWait rounds times => if rounds = 0 then [] else .replicate times rounds.toNat
  | _ => []

end MetricsOp

namespace Metrics

section Periods

variable (ops : List MetricsOp)

def sinceReset : List MetricsOp := ops.rtakeWhile fun op => !op.isReset

def tallied (t : Tally) : Nat := (ops.map (·.tallied t)).sum

def waits : List Nat := ops.flatMap (·.waits)

end Periods

section Histogram

variable {W : Type} [Histogram W]

structure Counts (m : Metrics W) (ops : List MetricsOp) : Prop where
  count : ∀ t, m.count t = tallied ops t
  holds : Histogram.Holds m.lockWaits (waits ops)

def after (m : Metrics W) (ops : List MetricsOp) : Metrics W := ops.foldl apply m

theorem counts_new : (new : Metrics W).Counts [] := ⟨fun t => by cases t <;> rfl, .empty⟩

theorem tallied_concat (ops : List MetricsOp) (op : MetricsOp) (t : Tally) :
    tallied (ops ++ [op]) t = tallied ops t + op.tallied t := by
  simp [tallied]

theorem waits_concat (ops : List MetricsOp) (op : MetricsOp) :
    waits (ops ++ [op]) = waits ops ++ op.waits := by
  simp [waits]

theorem Counts.reset {m : Metrics W} {ops : List MetricsOp} (h : m.Counts ops) :
    m.reset.Counts [] :=
  ⟨fun t => by cases t <;> rfl, h.holds.reset⟩

theorem Counts.apply {m : Metrics W} {ops : List MetricsOp} (h : m.Counts ops) {op : MetricsOp}
    (hop : op.isReset = false) : (m.apply op).Counts (ops ++ [op]) := by
  constructor
  · intro t
    rw [tallied_concat, ← h.count t]
    cases op with
    | tally s times => exact count_add m times s t
    | lockWait rounds times => exact count_addLockWait m rounds.toNat times t
    | reset => cases hop
    | snapshot => rfl
  · rw [waits_concat]
    cases op with
    | tally s times =>
      change Histogram.Holds (m.add times s).lockWaits (waits ops ++ [])
      rw [lockWaits_add, List.append_nil]
      exact h.holds
    | lockWait rounds times =>
      change Histogram.Holds (m.addLockWait rounds.toNat times).lockWaits _
      by_cases hrounds : rounds = 0
      · subst hrounds
        rw [MetricsOp.waits, if_pos rfl, List.append_nil]
        exact h.holds
      · have hpos : rounds.toNat ≠ 0 := fun hzero => hrounds (UInt32.toNat.inj hzero)
        rw [MetricsOp.waits, if_neg hrounds, addLockWait, if_neg hpos]
        exact h.holds.record rounds.toNat times
    | reset => cases hop
    | snapshot =>
      change Histogram.Holds m.lockWaits (waits ops ++ [])
      rw [List.append_nil]
      exact h.holds

theorem counts_after (ops : List MetricsOp) :
    ((new : Metrics W).after ops).Counts (sinceReset ops) := by
  induction ops using List.reverseRecOn with
  | nil => exact counts_new
  | append_singleton ops op ih =>
    have hafter : (new : Metrics W).after (ops ++ [op]) = (new.after ops).apply op :=
      List.foldl_concat ..
    rw [hafter, sinceReset, List.rtakeWhile_concat]
    cases hop : op.isReset with
    | false => exact ih.apply hop
    | true =>
      cases op with
      | reset => exact ih.reset
      | _ => cases hop

theorem snapshots_cons (m : Metrics W) (op : MetricsOp) (ops : List MetricsOp) :
    m.snapshots true (op :: ops) =
      (if op.isSnapshot then [m.snapshot] else []) ++ (m.apply op).snapshots true ops := by
  cases op <;> rfl

theorem snapshots_append (m : Metrics W) (ops ops' : List MetricsOp) :
    m.snapshots true (ops ++ ops') = m.snapshots true ops ++ (m.after ops).snapshots true ops' := by
  induction ops generalizing m with
  | nil => rfl
  | cons op ops ih =>
    rw [List.cons_append, snapshots_cons, snapshots_cons, ih, List.append_assoc]
    rfl

theorem length_snapshots (m : Metrics W) (ops : List MetricsOp) :
    (m.snapshots true ops).length = ops.countP (·.isSnapshot) := by
  induction ops generalizing m with
  | nil => rfl
  | cons op ops ih =>
    rw [snapshots_cons, List.length_append, ih, List.countP_cons]
    cases op.isSnapshot <;> simp [Nat.add_comm]

variable (W) in
/-- A script that starts with nothing counted takes the snapshot `s` after the calls `before`. -/
def Takes (ops before : List MetricsOp) (s : MetricsSnapshot) : Prop :=
  ∃ rest, ops = before ++ .snapshot :: rest ∧
    ((new : Metrics W).snapshots true ops)[before.countP (·.isSnapshot)]? = some s

theorem takes_iff {before rest : List MetricsOp} {s : MetricsSnapshot} :
    Takes W (before ++ .snapshot :: rest) before s ↔
      s = ((new : Metrics W).after before).snapshot := by
  have hsnapshots := snapshots_append (new : Metrics W) before (.snapshot :: rest)
  rw [Takes, hsnapshots, ← length_snapshots (new : Metrics W),
    List.getElem?_append_right (Nat.le_refl _), Nat.sub_self, snapshots_cons]
  constructor
  · rintro ⟨-, -, hs⟩
    exact (Option.some.inj hs).symm
  · rintro rfl
    exact ⟨rest, rfl, rfl⟩

end Histogram

end Metrics

open Histogram (Lawful Reads)
open Metrics (tallied waits)

/-- What a snapshot tells, from the calls since the last reset. -/
structure MetricsSnapshot.Tells (top p99Rank : Nat → Nat) (s : MetricsSnapshot)
    (ops : List MetricsOp) : Prop where
  pushes : s.pushes = tallied ops .push
  localPops : s.localPops = tallied ops .pop
  steals : s.steals = tallied ops .steal
  stealMisses : s.stealMisses = tallied ops .stealMiss
  removes : s.removes = tallied ops .remove
  removeMisses : s.removeMisses = tallied ops .removeMiss
  resizes : s.resizes = tallied ops .resize
  rebases : s.rebases = tallied ops .rebase
  contendedLocks : s.contendedLocks = (waits ops).length
  p99LockWait : Reads top (waits ops) (p99Rank (waits ops).length) s.p99LockWait
  maxLockWait : Reads top (waits ops) (waits ops).length s.maxLockWait
  le_max : ∀ v ∈ waits ops, v ≤ s.maxLockWait
  p99_le_max : s.p99LockWait ≤ s.maxLockWait

theorem MetricsSnapshot.Tells.unique {top p99Rank : Nat → Nat} {s s' : MetricsSnapshot}
    {ops : List MetricsOp} (h : s.Tells top p99Rank ops) (h' : s'.Tells top p99Rank ops) :
    s = s' := by
  cases s
  cases s'
  rw [MetricsSnapshot.mk.injEq]
  exact ⟨h.pushes.trans h'.pushes.symm, h.localPops.trans h'.localPops.symm,
    h.steals.trans h'.steals.symm, h.stealMisses.trans h'.stealMisses.symm,
    h.removes.trans h'.removes.symm, h.removeMisses.trans h'.removeMisses.symm,
    h.resizes.trans h'.resizes.symm, h.rebases.trans h'.rebases.symm,
    h.contendedLocks.trans h'.contendedLocks.symm,
    h.p99LockWait.eq_of_perm h'.p99LockWait (.refl _),
    h.maxLockWait.eq_of_perm h'.maxLockWait (.refl _)⟩

namespace Metrics

variable {W : Type} [Histogram W] {top p99Rank : Nat → Nat}

theorem Counts.tells (laws : Lawful W top p99Rank) {m : Metrics W} {ops : List MetricsOp}
    (h : m.Counts ops) : m.snapshot.Tells top p99Rank ops where
  pushes := h.count .push
  localPops := h.count .pop
  steals := h.count .steal
  stealMisses := h.count .stealMiss
  removes := h.count .remove
  removeMisses := h.count .removeMiss
  resizes := h.count .resize
  rebases := h.count .rebase
  contendedLocks := laws.total_eq _ _ h.holds
  p99LockWait := laws.p99_reads _ _ h.holds
  maxLockWait := laws.max_reads _ _ h.holds
  le_max _ hv := (laws.max_reads _ _ h.holds).le_of_mem laws.le_top hv
  p99_le_max :=
    (laws.p99_reads _ _ h.holds).mono laws.top_mono (laws.max_reads _ _ h.holds) fun hne =>
      laws.p99Rank_le _ (List.length_pos_iff.2 hne)

/-- What the counters show does not depend on how the histogram came to hold its samples. -/
theorem Counts.snapshots_eq (laws : Lawful W top p99Rank) {m m' : Metrics W}
    {before : List MetricsOp} (h : m.Counts before) (h' : m'.Counts before)
    (ops : List MetricsOp) : m.snapshots true ops = m'.snapshots true ops := by
  induction ops generalizing m m' before with
  | nil => rfl
  | cons op ops ih =>
    rw [snapshots_cons, snapshots_cons, (h.tells laws).unique (h'.tells laws)]
    cases hop : op.isReset with
    | false => rw [ih (h.apply hop) (h'.apply hop)]
    | true =>
      cases op with
      | reset => exact congrArg _ (ih h.reset h'.reset)
      | _ => cases hop

variable (W top p99Rank) in
/-- What the snapshots of a script tell. -/
structure Told (ops : List MetricsOp) : Prop where
  length : ((new : Metrics W).snapshots true ops).length = ops.countP (·.isSnapshot)
  taken : ∀ before rest : List MetricsOp, ops = before ++ .snapshot :: rest →
    ∃ s, Takes W ops before s
  tells : ∀ (before : List MetricsOp) (s : MetricsSnapshot), Takes W ops before s →
    s.Tells top p99Rank (sinceReset before)
  /-- Equal bags of waits look alike, in whatever scripts. -/
  alike : ∀ (ops' before before' : List MetricsOp) (s s' : MetricsSnapshot), Takes W ops before s →
    Takes W ops' before' s' → (waits (sinceReset before)).Perm (waits (sinceReset before')) →
      s.p99LockWait = s'.p99LockWait ∧ s.maxLockWait = s'.maxLockWait
  /-- From a reset on a script goes on like a new one. -/
  afresh : ∀ before rest : List MetricsOp, ops = before ++ .reset :: rest →
    (new : Metrics W).snapshots true ops =
      (new : Metrics W).snapshots true before ++ (new : Metrics W).snapshots true rest

theorem tells_of_takes (laws : Lawful W top p99Rank) {ops before : List MetricsOp}
    {s : MetricsSnapshot} (h : Takes W ops before s) : s.Tells top p99Rank (sinceReset before) := by
  obtain ⟨rest, rfl, -⟩ := id h
  rw [takes_iff.1 h]
  exact (counts_after before).tells laws

theorem snapshots_told (laws : Lawful W top p99Rank) (ops : List MetricsOp) :
    Told W top p99Rank ops where
  length := length_snapshots new ops
  taken before rest hops := by
    subst hops
    exact ⟨_, takes_iff.2 rfl⟩
  tells before s h := tells_of_takes laws h
  alike ops' before before' s s' h h' hwaits := by
    have hp99 := (tells_of_takes laws h).p99LockWait
    have hmax := (tells_of_takes laws h).maxLockWait
    rw [hwaits.length_eq] at hp99 hmax
    exact ⟨hp99.eq_of_perm (tells_of_takes laws h').p99LockWait hwaits,
      hmax.eq_of_perm (tells_of_takes laws h').maxLockWait hwaits⟩
  afresh before rest hops := by
    have hreset := (counts_after (W := W) before).reset
    rw [hops, snapshots_append, snapshots_cons]
    exact congrArg _ (hreset.snapshots_eq laws counts_new rest)

/-- Waits far past the exact range, in one order and after a reset in another. -/
def busyLock : List MetricsOp :=
  [.lockWait 4294967295 1, .lockWait 0 5, .tally .push 2, .lockWait 3 2, .snapshot, .reset,
   .lockWait 3 2, .snapshot, .tally .steal 1, .lockWait 4294967295 1, .snapshot]

theorem snapshots_told_busy :
    Told LockWaits classTop LockWaits.p99Rank busyLock ∧
      (new : Metrics LockWaits).snapshots true busyLock =
        [⟨2, 0, 0, 0, 0, 0, 0, 0, 3, 4294967295, 4294967295⟩,
         ⟨0, 0, 0, 0, 0, 0, 0, 0, 2, 3, 3⟩,
         ⟨0, 0, 1, 0, 0, 0, 0, 0, 3, 4294967295, 4294967295⟩] :=
  ⟨snapshots_told LockWaits.lawful busyLock, by decide +kernel⟩

end Metrics

end WorkStealing
