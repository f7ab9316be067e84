import Mathlib

/-!
# Computations that may fail

What is known of a computation in `Except`: how it is put together from its steps, and what a loop
keeps.
-/

namespace Fallible

universe u v w
variable {ε : Type u} {α β : Type v} {γ : Type w}

theorem bind_eq_ok {f : α → Except ε β} : x >>= f = .ok b ↔ ∃ a, x = .ok a ∧ f a = .ok b := by
  cases x with
  | error e | ok a => simp [bind, Except.bind]

theorem exists_of_any {x : Except ε α} (h : x.toOption.any p = true) :
    ∃ a, x = .ok a ∧ p a = true := by
  cases x with
  | error e => cases h
  | ok a => exact ⟨a, rfl, h⟩

theorem foldlM_inv {step : α → γ → Except ε α} {I : α → Prop} {l : List γ}
    (hstep : ∀ {s c s'}, I s → step s c = .ok s' → I s') (hs : I s) (h : l.foldlM step s = .ok t) :
    I t := by
  induction l generalizing s with
  | nil =>
    cases h
    exact hs
  | cons c l ih =>
    obtain ⟨s', hs', h⟩ := bind_eq_ok.1 h
    exact ih (hstep hs hs') h

end Fallible
