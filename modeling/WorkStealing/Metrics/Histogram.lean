set_option autoImplicit false

/-!
# Histograms

What the metrics ask of a histogram of samples. They rely on no more than this, so the histogram
itself is a parameter.
-/
namespace WorkStealing

class Histogram (W : Type) where
  empty : W
  record (w : W) (value times : Nat) : W
  reset (w : W) : W
  total (w : W) : Nat
  max (w : W) : Nat
  p99 (w : W) : Nat

end WorkStealing
