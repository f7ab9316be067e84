import Mathlib

/-!
# Deferred clean-up

Programs that can fail and keep the state they fail in, with the clean-up that a Go function defers:
it runs at the end of the function if an error is set.
-/

namespace Defer

open Std.Do

variable {ε σ κ α : Type}

/-- A call that fails without an effect, or succeeds and has the given one. -/
def call (error : ε) (fails : κ → Bool) (c : κ) (effect : σ → σ) : EStateM ε σ Unit := do
  if fails c then throw error
  modify effect

/-- Run `undo` if `x` fails, or returns with the flag that an error is set. -/
def onError (undo : σ → σ) (x : EStateM ε σ (α × Bool)) : EStateM ε σ (α × Bool) := fun s =>
  match x s with
  | .ok (a, false) s => .ok (a, false) s
  | .ok (a, true) s => .ok (a, true) (undo s)
  | .error e s => .error e (undo s)

variable {P : σ → Prop} {E : ε → σ → Prop} {s s' : σ}

/-- What `x` leaves behind with an error set is what `undo` starts from. -/
theorem onError_spec {P : Assertion (.except ε (.arg σ .pure))} {Q : α → Bool → σ → Prop}
    (h : ⦃P⦄ x ⦃post⟨fun a s => ⌜Q a.1 a.2 (if a.2 then undo s else s)⌝, fun e s =>
      ⌜E e (undo s)⌝⟩⦄) :
    ⦃P⦄ onError undo x ⦃post⟨fun a s => ⌜Q a.1 a.2 s⌝, fun e s => ⌜E e s⌝⟩⦄ := by
  intro s hs
  have hx := h s hs
  simp only [WP.wp, PredTrans.apply, EStateM.run, onError] at hx ⊢
  rcases hxs : x s with ⟨⟨a, _ | _⟩, s'⟩ | ⟨e, s'⟩
  all_goals
    rw [hxs] at hx
    exact hx

variable {x : EStateM ε σ α} {Q : α → σ → Prop}

end Defer
