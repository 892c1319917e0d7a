set_option autoImplicit false

/-!
# Counting different numbers

Sorting brings equal numbers together, so that dropping repeats leaves one of each.
-/
namespace WorkStealing

/-- Drops every element that equals its right neighbour. -/
def dropRepeats : List Nat → List Nat
  | m :: n :: rest => if m = n then dropRepeats (n :: rest) else m :: dropRepeats (n :: rest)
  | ns => ns

def distinct (ns : List Nat) : Nat := (dropRepeats (ns.mergeSort fun m n => m ≤ n)).length

theorem dropRepeats_of_nodup {ns : List Nat} (h : ns.Nodup) : dropRepeats ns = ns := by
  fun_induction dropRepeats ns with
  | case1 m rest ih => simp at h
  | case2 m k rest hne ih => rw [ih (List.nodup_cons.1 h).2]
  | case3 ns hns => rfl

end WorkStealing
