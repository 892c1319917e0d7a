import WorkStealing.Checked

set_option autoImplicit false

/-!
# What a checked run ends with

A property of the outcome of a run, if it has one. That a run does have an outcome is another
matter, for which the state that it starts from has to be in order.
-/
namespace WorkStealing

def Ensures {α : Type} (x : Checked α) (P : α → Prop) : Prop := ∀ a, x = .ok a → P a

namespace Ensures

variable {α β : Type} {x : Checked α} {P Q : α → Prop}

theorem ok {a : α} (h : P a) : Ensures (.ok a) P := by
  rintro b ⟨⟩
  exact h

theorem error (e : Fault) (P : α → Prop) : Ensures (.error e) P := by
  rintro b ⟨⟩

theorem trivial (x : Checked α) : Ensures x fun _ => True := fun _ _ => .intro

theorem exists_of_bind {f : α → Checked β} {b : β} (h : (x >>= f) = .ok b) :
    ∃ a, x = .ok a ∧ f a = .ok b := by
  cases hx : x with
  | error e =>
    rw [hx] at h
    cases h
  | ok a =>
    rw [hx] at h
    exact ⟨a, rfl, h⟩

theorem bind {f : α → Checked β} {R : β → Prop} (h : Ensures x P)
    (hf : ∀ a, P a → Ensures (f a) R) : Ensures (x >>= f) R := by
  intro b hb
  obtain ⟨a, ha, hb⟩ := exists_of_bind hb
  exact hf a (h a ha) b hb

theorem mono (h : Ensures x P) (hPQ : ∀ a, P a → Q a) : Ensures x Q :=
  fun a ha => hPQ a (h a ha)

end Ensures

end WorkStealing
