import Mathlib.Algebra.Ring.Nat
import WorkStealing.Metrics.LockWaits
import WorkStealing.Proofs.Metrics.Histograms

set_option autoImplicit false

/-!
# The samples of a histogram

The histogram of lock waits keeps its samples in order, each as the highest value of its class, and
does what is asked of a histogram.
-/
namespace WorkStealing

section Classes

theorem classTop_of_lt {v : Nat} (h : v < 2048) : classTop v = v := if_pos h

theorem classTop_of_le {v : Nat} (h : 2048 ≤ v) :
    classTop v = (v / 2 ^ (v.log2 - 10) + 1) * 2 ^ (v.log2 - 10) - 1 := by
  rw [classTop, if_neg (Nat.not_lt.2 h), Nat.one_shiftLeft]

theorem le_classTop (v : Nat) : v ≤ classTop v := by
  rcases Nat.lt_or_ge v 2048 with hlt | hge
  · rw [classTop_of_lt hlt]
  · have hwidth : v < v / 2 ^ (v.log2 - 10) * 2 ^ (v.log2 - 10) + 2 ^ (v.log2 - 10) :=
      Nat.lt_div_mul_add (Nat.two_pow_pos _)
    rw [classTop_of_le hge, Nat.succ_mul]
    omega

theorem classTop_lt {v : Nat} (h : 2048 ≤ v) : classTop v < 2 ^ (v.log2 + 1) := by
  have hlog : 11 ≤ v.log2 := (Nat.le_log2 (by omega)).2 h
  have hpow : 2 ^ (v.log2 + 1) = 2 ^ 11 * 2 ^ (v.log2 - 10) := by
    rw [← Nat.pow_add]
    congr 1
    omega
  have hdiv : v / 2 ^ (v.log2 - 10) < 2 ^ 11 := by
    rw [Nat.div_lt_iff_lt_mul (Nat.two_pow_pos _), ← hpow]
    exact Nat.lt_log2_self
  have hmul := Nat.mul_le_mul_right (2 ^ (v.log2 - 10)) hdiv
  have hpos := Nat.two_pow_pos (v.log2 - 10)
  rw [classTop_of_le h, hpow]
  rw [Nat.succ_mul] at hmul ⊢
  omega

theorem classTop_mono {u v : Nat} (h : u ≤ v) : classTop u ≤ classTop v := by
  rcases Nat.lt_or_ge u 2048 with hu | hu
  · rw [classTop_of_lt hu]
    exact Nat.le_trans h (le_classTop v)
  · have hv : 2048 ≤ v := Nat.le_trans hu h
    have hself : 2 ^ u.log2 ≤ u := Nat.log2_self_le (by omega)
    have hlog : u.log2 ≤ v.log2 := (Nat.le_log2 (by omega)).2 (Nat.le_trans hself h)
    rcases Nat.lt_or_eq_of_le hlog with hlt | heq
    · have htop := classTop_lt hu
      have hpow := Nat.pow_le_pow_right (n := 2) (by omega) hlt
      have hself := Nat.log2_self_le (n := v) (by omega)
      have hle := le_classTop v
      omega
    · rw [classTop_of_le hu, classTop_of_le hv, heq]
      have hdiv := Nat.div_le_div_right (c := 2 ^ (v.log2 - 10)) h
      have hmul := Nat.mul_le_mul_right (2 ^ (v.log2 - 10)) (Nat.succ_le_succ hdiv)
      exact Nat.sub_le_sub_right hmul 1

end Classes

namespace Binary64

theorem two_mul_roundDiv_le (n d : Nat) : 2 * (roundDiv n d * d) ≤ 2 * n + d := by
  have hn : n / d * d + n % d = n := Nat.div_add_mod' n d
  unfold roundDiv
  dsimp only
  split
  · omega
  · split
    · rw [Nat.add_mul, Nat.one_mul]
      omega
    · rcases Nat.mod_two_eq_zero_or_one (n / d) with heven | hodd
      · rw [heven, Nat.add_zero]
        omega
      · rw [hodd, Nat.add_mul, Nat.one_mul]
        omega

/-- A double is off by at most half a unit in the last of its 53 places. -/
theorem roundNat_le (n : Nat) : 2 ^ 53 * roundNat n ≤ (2 ^ 53 + 1) * n := by
  have hround := two_mul_roundDiv_le n (2 ^ (n.log2 - 52))
  have hnat : roundNat n = roundDiv n (2 ^ (n.log2 - 52)) * 2 ^ (n.log2 - 52) := by
    rw [roundNat, Nat.one_shiftLeft, Nat.shiftLeft_eq]
  rw [← hnat] at hround
  rcases Nat.eq_zero_or_pos (n.log2 - 52) with hexact | hexcess
  · rw [hexact] at hround
    omega
  · have hunit : 2 ^ 52 * 2 ^ (n.log2 - 52) ≤ n := by
      rw [← Nat.pow_add, Nat.add_sub_cancel' (by omega)]
      apply Nat.log2_self_le
      rintro rfl
      cases hexcess
    omega

end Binary64

namespace LockWaits

open Histogram (Holds Lawful Ranked Reads)

/-- The samples one by one, each as the highest value of its class. -/
def spread (classes : List (Nat × Nat)) : List Nat :=
  classes.flatMap fun c => List.replicate c.2 c.1

@[simp] theorem spread_nil : spread [] = [] := rfl

@[simp] theorem spread_cons (c : Nat × Nat) (classes : List (Nat × Nat)) :
    spread (c :: classes) = List.replicate c.2 c.1 ++ spread classes := rfl

theorem spread_insertClass (top n : Nat) (classes : List (Nat × Nat)) :
    (spread (insertClass top n classes)).Perm (List.replicate n top ++ spread classes) := by
  fun_induction insertClass top n classes with
  | case1 => simp
  | case2 t m rest hlt => rfl
  | case3 m rest hlt =>
    rw [spread_cons, spread_cons, ← List.append_assoc, List.replicate_append_replicate,
      Nat.add_comm]
  | case4 t m rest hlt hne ih =>
    rw [spread_cons, spread_cons]
    exact (ih.append_left _).trans (List.perm_append_comm_assoc ..)

theorem fst_mem_insertClass {top n : Nat} {classes : List (Nat × Nat)} {c : Nat × Nat}
    (h : c ∈ insertClass top n classes) : c.1 = top ∨ ∃ d ∈ classes, d.1 = c.1 := by
  fun_induction insertClass top n classes with
  | case1 =>
    rw [List.mem_singleton.1 h]
    exact .inl rfl
  | case2 t m rest hlt =>
    rcases List.mem_cons.1 h with rfl | h
    · exact .inl rfl
    · exact .inr ⟨c, h, rfl⟩
  | case3 m rest hlt =>
    rcases List.mem_cons.1 h with rfl | h
    · exact .inl rfl
    · exact .inr ⟨c, List.mem_cons_of_mem _ h, rfl⟩
  | case4 t m rest hlt hne ih =>
    rcases List.mem_cons.1 h with rfl | h
    · exact .inr ⟨(t, m), List.mem_cons_self, rfl⟩
    · exact (ih h).imp_right fun ⟨d, hd, hdc⟩ => ⟨d, List.mem_cons_of_mem _ hd, hdc⟩

structure Sound (w : LockWaits) : Prop where
  increasing : w.classes.Pairwise fun c d => c.1 < d.1
  inhabited : ∀ c ∈ w.classes, c.2 ≠ 0

theorem increasing_insertClass {top n : Nat} {classes : List (Nat × Nat)}
    (h : classes.Pairwise fun c d => c.1 < d.1) :
    (insertClass top n classes).Pairwise fun c d => c.1 < d.1 := by
  fun_induction insertClass top n classes with
  | case1 => exact List.pairwise_singleton _ _
  | case2 t m rest hlt =>
    refine List.pairwise_cons.2 ⟨fun d hd => ?_, h⟩
    rcases List.mem_cons.1 hd with rfl | hd
    · exact hlt
    · exact Nat.lt_trans hlt ((List.pairwise_cons.1 h).1 d hd)
  | case3 m rest hlt => exact List.pairwise_cons.2 (List.pairwise_cons.1 h)
  | case4 t m rest hlt hne ih =>
    obtain ⟨hfirst, hrest⟩ := List.pairwise_cons.1 h
    refine List.pairwise_cons.2 ⟨fun d hd => ?_, ih hrest⟩
    rcases fst_mem_insertClass hd with hd | ⟨e, he, hed⟩
    · change t < d.1
      omega
    · exact hed ▸ hfirst e he

theorem inhabited_insertClass {top n : Nat} {classes : List (Nat × Nat)} (hn : n ≠ 0)
    (h : ∀ c ∈ classes, c.2 ≠ 0) : ∀ c ∈ insertClass top n classes, c.2 ≠ 0 := by
  fun_induction insertClass top n classes with
  | case1 => simpa
  | case2 t m rest hlt => simpa [hn] using h
  | case3 m rest hlt =>
    simp only [List.forall_mem_cons] at h ⊢
    exact ⟨by omega, h.2⟩
  | case4 t m rest hlt hne ih =>
    simp only [List.forall_mem_cons] at h ⊢
    exact ⟨h.1, ih h.2⟩

theorem sound_empty : empty.Sound := ⟨.nil, by simp [empty]⟩

theorem Sound.record {w : LockWaits} (h : w.Sound) (value times : Nat) :
    (w.record value times).Sound := by
  unfold LockWaits.record
  split
  · exact h
  · rename_i htimes
    exact ⟨increasing_insertClass h.increasing, inhabited_insertClass htimes h.inhabited⟩

theorem total_eq (w : LockWaits) : w.total = (spread w.classes).length := by
  rw [total]
  induction w.classes with
  | nil => rfl
  | cons c classes ih =>
    rw [List.foldr_cons, ih, spread_cons, List.length_append, List.length_replicate]

/-- Walking up the classes stops at the sample of the rank. -/
theorem ranked_atRank {classes : List (Nat × Nat)} {rank : Nat}
    (h : classes.Pairwise fun c d => c.1 < d.1) (hpos : 0 < rank)
    (hle : rank ≤ (spread classes).length) :
    Ranked (spread classes) rank (atRank classes rank) := by
  induction classes generalizing rank with
  | nil => exact absurd (Nat.lt_of_lt_of_le hpos hle) (Nat.lt_irrefl 0)
  | cons c classes ih =>
    obtain ⟨top, n⟩ := c
    obtain ⟨hfirst, hrest⟩ := List.pairwise_cons.1 h
    have habove : ∀ v ∈ spread classes, top < v := by
      intro v hv
      obtain ⟨d, hd, hvd⟩ := List.mem_flatMap.1 hv
      rw [List.eq_of_mem_replicate hvd]
      exact hfirst d hd
    rw [spread_cons, List.length_append, List.length_replicate] at hle
    change Ranked (List.replicate n top ++ spread classes) rank
      (if rank ≤ n then top else atRank classes (rank - n))
    split
    · rename_i hrank
      have hbelow : (spread classes).countP (· < top) = 0 :=
        List.countP_eq_zero.2 fun v hv => by simpa using Nat.le_of_lt (habove v hv)
      constructor
      · rw [List.countP_append, List.countP_replicate, hbelow]
        simpa using hpos
      · rw [List.countP_append, List.countP_replicate]
        simp only [Nat.le_refl, decide_true, if_true]
        omega
    · rename_i hrank
      have hpos' : 0 < rank - n := by omega
      have hle' : rank - n ≤ (spread classes).length := by omega
      have hranked := ih hrest hpos' hle'
      have htop := habove _ hranked.mem
      have hbelow := hranked.below
      have hupTo := hranked.upTo
      constructor
      · rw [List.countP_append, List.countP_replicate, if_pos (decide_eq_true htop)]
        omega
      · rw [List.countP_append, List.countP_replicate,
          if_pos (decide_eq_true (Nat.le_of_lt htop))]
        omega

theorem max_eq_atRank {classes : List (Nat × Nat)} (h : ∀ c ∈ classes, c.2 ≠ 0) :
    max ⟨classes⟩ = atRank classes (total ⟨classes⟩) := by
  induction classes with
  | nil => rfl
  | cons c classes ih =>
    obtain ⟨hc, hclasses⟩ := List.forall_mem_cons.1 h
    have hrest := ih hclasses
    obtain ⟨top, n⟩ := c
    change _ = if n + total ⟨classes⟩ ≤ n then top
      else atRank classes (n + total ⟨classes⟩ - n)
    cases classes with
    | nil => exact (if_pos (Nat.le_refl n)).symm
    | cons d classes =>
      have hd : d.2 ≠ 0 := hclasses d List.mem_cons_self
      have htotal : total ⟨d :: classes⟩ = d.2 + total ⟨classes⟩ := rfl
      rw [if_neg (by omega), Nat.add_sub_cancel_left, ← hrest]
      rfl

/-- The histogram has recorded these samples, in whatever order. -/
structure Shows (w : LockWaits) (samples : List Nat) : Prop where
  sound : w.Sound
  spread_perm : (spread w.classes).Perm (samples.map classTop)

theorem shows_empty : empty.Shows [] := ⟨sound_empty, .nil⟩

variable {w : LockWaits} {samples : List Nat}

theorem Shows.record (h : w.Shows samples) (value times : Nat) :
    (w.record value times).Shows (samples ++ List.replicate times value) := by
  refine ⟨h.sound.record value times, ?_⟩
  rw [List.map_append, List.map_replicate]
  unfold LockWaits.record
  split
  · rename_i hnone
    rw [hnone, List.replicate_zero, List.append_nil]
    exact h.spread_perm
  · apply (spread_insertClass _ _ _).trans
    apply List.perm_append_comm.trans
    exact h.spread_perm.append_right _

theorem shows_of_holds (h : Holds w samples) : w.Shows samples := by
  induction h with
  | empty => exact shows_empty
  | record h value times ih => exact ih.record value times
  | reset h ih => exact shows_empty

theorem Shows.total_eq (h : w.Shows samples) : w.total = samples.length := by
  rw [LockWaits.total_eq, h.spread_perm.length_eq, List.length_map]

theorem Shows.reads (h : w.Shows samples) {rank : Nat}
    (hrank : samples ≠ [] → 0 < rank ∧ rank ≤ samples.length) :
    Reads classTop samples rank (atRank w.classes rank) := by
  by_cases hne : samples = []
  · subst hne
    have hspread : spread w.classes = [] := h.spread_perm.eq_nil
    have hclasses : w.classes = [] := by
      apply List.eq_nil_iff_forall_not_mem.2
      intro c hc
      have hnone := List.flatMap_eq_nil_iff.1 hspread c hc
      exact h.sound.inhabited c hc ((List.replicate_eq_nil_iff _).1 hnone)
    rw [hclasses]
    exact .nothing rank
  · obtain ⟨hpos, hle⟩ := hrank hne
    have hlength := h.total_eq
    rw [LockWaits.total_eq] at hlength
    have hclass := (ranked_atRank h.sound.increasing hpos (hlength ▸ hle)).perm h.spread_perm
    obtain ⟨v, hv⟩ := Histogram.exists_ranked hpos hle
    rw [hclass.unique (hv.map fun _ _ => classTop_mono)]
    exact .sample hv

theorem one_le_p99Rank (total : Nat) : 0 < p99Rank total := Nat.le_max_left 1 _

theorem p99Rank_le {n : Nat} (hn : 0 < n) : p99Rank n ≤ n := by
  have htotal := Binary64.roundNat_le n
  have hproduct := Binary64.roundNat_le (p99Significand * Binary64.roundNat n)
  refine Nat.max_le.2 ⟨hn, ?_⟩
  rw [Nat.shiftRight_eq_div_pow, Nat.one_shiftLeft]
  unfold p99Significand at *
  omega

theorem lawful : Lawful LockWaits classTop p99Rank where
  le_top := le_classTop
  top_mono _ _ := classTop_mono
  p99Rank_le _ := p99Rank_le
  total_eq _ _ h := (shows_of_holds h).total_eq
  max_reads w samples h := by
    have hshows := shows_of_holds h
    change Reads classTop samples samples.length w.max
    rw [max_eq_atRank hshows.sound.inhabited, hshows.total_eq]
    exact hshows.reads fun hne => ⟨List.length_pos_iff.2 hne, Nat.le_refl _⟩
  p99_reads w samples h := by
    have hshows := shows_of_holds h
    change Reads classTop samples (p99Rank samples.length) w.p99
    rw [p99, hshows.total_eq]
    exact hshows.reads fun hne => ⟨one_le_p99Rank _, p99Rank_le (List.length_pos_iff.2 hne)⟩

end LockWaits

end WorkStealing
