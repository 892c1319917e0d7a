import Mathlib.Data.List.Count
import Mathlib.Data.Nat.Find
import WorkStealing.Metrics.Histogram

set_option autoImplicit false

/-!
# Histograms that keep their word

Values are grouped into classes, and a class stands for its highest value. What is read at a rank is
the class of the sample that has this rank when the samples are put in order. The samples are a list
here; that their order does not matter is not assumed but follows.
-/
namespace WorkStealing.Histogram

/-- The sample `v` has this rank, counted from one for the smallest. Equal samples share their
ranks. -/
structure Ranked (samples : List Nat) (rank v : Nat) : Prop where
  below : samples.countP (· < v) < rank
  upTo : rank ≤ samples.countP (· ≤ v)

section Ranked

variable {samples samples' : List Nat} {rank rank' u v : Nat}

theorem countP_le_of_imp {p q : Nat → Prop} [DecidablePred p] [DecidablePred q]
    (h : ∀ x ∈ samples, p x → q x) : samples.countP p ≤ samples.countP q := by
  apply List.countP_mono_left
  intro x hx hp
  exact decide_eq_true (h x hx (of_decide_eq_true hp))

theorem Ranked.perm (h : Ranked samples rank v) (hperm : samples.Perm samples') :
    Ranked samples' rank v :=
  ⟨hperm.countP_eq _ ▸ h.below, hperm.countP_eq _ ▸ h.upTo⟩

theorem Ranked.mono (h : Ranked samples rank u) (h' : Ranked samples rank' v)
    (hle : rank ≤ rank') : u ≤ v := by
  apply Nat.le_of_not_lt
  intro hlt
  have hcount : samples.countP (· ≤ v) ≤ samples.countP (· < u) := by
    apply countP_le_of_imp
    intro x _ hx
    omega
  have hbelow := h.below
  have hupTo := h'.upTo
  omega

theorem Ranked.unique (h : Ranked samples rank u) (h' : Ranked samples rank v) : u = v :=
  Nat.le_antisymm (h.mono h' (Nat.le_refl _)) (h'.mono h (Nat.le_refl _))

theorem Ranked.le_of_mem (h : Ranked samples samples.length v) (hu : u ∈ samples) : u ≤ v := by
  have hall : samples.countP (· ≤ v) = samples.length :=
    Nat.le_antisymm List.countP_le_length h.upTo
  simpa using List.countP_eq_length.1 hall u hu

theorem Ranked.mem (h : Ranked samples rank v) : v ∈ samples := by
  apply Decidable.of_not_not
  intro hmem
  have hcount : samples.countP (· ≤ v) ≤ samples.countP (· < v) := by
    apply countP_le_of_imp
    intro x hx hle
    have hne : x ≠ v := fun heq => hmem (heq ▸ hx)
    omega
  have hbelow := h.below
  have hupTo := h.upTo
  omega

theorem Ranked.ne_nil (h : Ranked samples rank v) : samples ≠ [] :=
  List.ne_nil_of_mem h.mem

theorem exists_ranked (hpos : 0 < rank) (hle : rank ≤ samples.length) :
    ∃ v, Ranked samples rank v := by
  -- The least value that enough samples do not exceed.
  have hne : samples ≠ [] := List.ne_nil_of_length_pos (Nat.lt_of_lt_of_le hpos hle)
  have hsome : ∃ v, rank ≤ samples.countP (· ≤ v) := by
    have hall : samples.countP (· ≤ samples.max hne) = samples.length :=
      List.countP_eq_length.2 fun u hu => decide_eq_true (List.le_max_of_mem hu)
    exact ⟨samples.max hne, hall ▸ hle⟩
  refine ⟨Nat.find hsome, ?_, Nat.find_spec hsome⟩
  rcases Nat.eq_zero_or_pos (Nat.find hsome) with hzero | hfind
  · simpa [hzero] using hpos
  · have hless := Nat.find_min hsome (Nat.sub_one_lt_of_lt hfind)
    refine Nat.lt_of_le_of_lt ?_ (Nat.lt_of_not_le hless)
    apply countP_le_of_imp
    intro x _ hx
    omega

theorem Ranked.map (h : Ranked samples rank v) {top : Nat → Nat}
    (hmono : ∀ u v, u ≤ v → top u ≤ top v) : Ranked (samples.map top) rank (top v) := by
  constructor
  · rw [List.countP_map]
    refine Nat.lt_of_le_of_lt ?_ h.below
    apply countP_le_of_imp
    intro x _ hx
    have := hmono v x
    omega
  · rw [List.countP_map]
    refine Nat.le_trans h.upTo ?_
    apply countP_le_of_imp
    intro x _ hx
    exact hmono x v hx

end Ranked

/-- What is read at a rank: the top of the class of the sample there, and zero without samples. -/
inductive Reads (top : Nat → Nat) : List Nat → Nat → Nat → Prop
  | nothing (rank : Nat) : Reads top [] rank 0
  | sample {samples : List Nat} {rank v : Nat} (h : Ranked samples rank v) :
    Reads top samples rank (top v)

section Reads

variable {top : Nat → Nat} {samples samples' : List Nat} {rank rank' a b : Nat}

theorem Reads.mono (hmono : ∀ u v, u ≤ v → top u ≤ top v) (ha : Reads top samples rank a)
    (hb : Reads top samples rank' b) (hle : samples ≠ [] → rank ≤ rank') : a ≤ b := by
  cases ha with
  | nothing => exact Nat.zero_le b
  | sample h =>
    cases hb with
    | nothing => exact absurd rfl h.ne_nil
    | sample h' => exact hmono _ _ (h.mono h' (hle h.ne_nil))

/-- The order of the samples cannot be read. -/
theorem Reads.eq_of_perm (ha : Reads top samples rank a) (hb : Reads top samples' rank b)
    (hperm : samples.Perm samples') : a = b := by
  cases ha with
  | nothing =>
    obtain rfl := hperm.nil_eq
    cases hb with
    | nothing => rfl
    | sample h => exact absurd rfl h.ne_nil
  | sample h =>
    cases hb with
    | nothing => exact absurd (hperm.eq_nil) h.ne_nil
    | sample h' => rw [(h.perm hperm).unique h']

theorem Reads.le_of_mem (hle : ∀ v, v ≤ top v) (ha : Reads top samples samples.length a) {u : Nat}
    (hu : u ∈ samples) : u ≤ a := by
  cases ha with
  | nothing => cases hu
  | sample h => exact Nat.le_trans (h.le_of_mem hu) (hle _)

end Reads

variable {W : Type} [Histogram W]

/-- The histogram has recorded these samples since it was made or reset. -/
inductive Holds : W → List Nat → Prop
  | empty : Holds empty []
  | record {w : W} {samples : List Nat} (h : Holds w samples) (value times : Nat) :
    Holds (record w value times) (samples ++ List.replicate times value)
  | reset {w : W} {samples : List Nat} (h : Holds w samples) : Holds (reset w) []

/-- What is documented of a histogram, for classes with these highest values and for this rank of
the 99th percentile among a number of samples. -/
structure Lawful (W : Type) [Histogram W] (top p99Rank : Nat → Nat) : Prop where
  le_top : ∀ v, v ≤ top v
  top_mono : ∀ u v, u ≤ v → top u ≤ top v
  p99Rank_le : ∀ n, 0 < n → p99Rank n ≤ n
  total_eq : ∀ (w : W) samples, Holds w samples → total w = samples.length
  max_reads : ∀ (w : W) samples, Holds w samples → Reads top samples samples.length (max w)
  p99_reads : ∀ (w : W) samples, Holds w samples →
    Reads top samples (p99Rank samples.length) (p99 w)

end WorkStealing.Histogram
