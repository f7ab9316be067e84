import Docker.Lib.Prog

/-!
# Programs that take things and give them back

Some calls of a program give it something to hold, and others give up what it holds. `Prog.Owns`
follows a program through all answers and says that it gives up only what it holds, and what it
holds when it ends.

The answers may depend on a world that grows while the program runs, along a preorder: an answer
tells something about the world at its time, and a call may have a condition on the world.
-/

universe u

namespace Prog

open List

variable {C : Type u} {R : C → Type u} {α β : Type u} {W H : Type*}

/-- What the calls give and cost, and how they go with the world. -/
structure Rules (C : Type u) (R : C → Type u) (W H : Type*) where
  pre : C → W → Prop
  ok : (c : C) → R c → W → Prop
  cost : C → Multiset H
  gain : (c : C) → R c → Multiset H

variable [Preorder W] [DecidableEq H]

/-- A program that holds `h` in the world `w` gives up only what it holds, and ends in `Q`. -/
def Owns (ρ : Rules C R W H) (Q : α → Multiset H → W → Prop) : Multiset H → W → Prog C R α → Prop
  | h, w, ret a => Q a h w
  | h, w, call c k => ρ.pre c w ∧ ρ.cost c ≤ h ∧
    ∀ w', w ≤ w' → ∀ r, ρ.ok c r w' → Owns ρ Q (h - ρ.cost c + ρ.gain c r) w' (k r)

variable {ρ : Rules C R W H} {Q Q' : α → Multiset H → W → Prop} {h : Multiset H} {w w' : W}
  {p : Prog C R α}

theorem Owns.mono (hp : Owns ρ Q h w p) (hQ : ∀ a h w, Q a h w → Q' a h w) : Owns ρ Q' h w p := by
  induction p generalizing h w with
  | ret a => exact hQ a h w hp
  | call c k ih => exact ⟨hp.1, hp.2.1, fun w' hw r hr => ih r (hp.2.2 w' hw r hr)⟩

theorem Owns.bind (hp : Owns ρ (fun a h w => Owns ρ S h w (f a)) h w p) :
    Owns ρ S h w (p.bind f) := by
  induction p generalizing h w with
  | ret a => exact hp
  | call c k ih => exact ⟨hp.1, hp.2.1, fun w' hw r hr => ih r (hp.2.2 w' hw r hr)⟩

theorem Owns.later (hp : Owns ρ Q h w p) (hw : w ≤ w') (hpre : ∀ c, ρ.pre c w → ρ.pre c w')
    (hQ : ∀ a h, Q a h w → Q a h w') : Owns ρ Q h w' p := by
  cases p with
  | ret a => exact hQ a h hp
  | call c k => exact ⟨hpre c hp.1, hp.2.1, fun w'' hw' r hr => hp.2.2 w'' (hw.trans hw') r hr⟩

/-- A run from the start to the end, with the answers. -/
inductive Completes : Prog C R α → List ((c : C) × R c) → α → Prop
  | ret (a : α) : Completes (ret a) [] a
  | call {c : C} {k : R c → Prog C R α} {r : R c} {trace : List ((c : C) × R c)} {a : α} :
    Completes (k r) trace a →
    Completes (call c k) (⟨c, r⟩ :: trace) a

namespace Rules

def gains (ρ : Rules C R W H) (trace : List ((c : C) × R c)) : Multiset H :=
  (trace.map fun e => ρ.gain e.1 e.2).sum

def costs (ρ : Rules C R W H) (trace : List ((c : C) × R c)) : Multiset H :=
  (trace.map fun e => ρ.cost e.1).sum

end Rules

/-- Whatever a run was given, it has given up or holds at the end. -/
theorem Owns.balance (hp : Owns ρ Q h w p) (hok : ∀ c r, ρ.ok c r w)
    (hend : Completes p trace a) : ∃ h', Q a h' w ∧ h + ρ.gains trace = ρ.costs trace + h' := by
  induction hend generalizing h with
  | ret a => exact ⟨h, hp, by simp [Rules.gains, Rules.costs]⟩
  | @call c k r trace a _ ih =>
    obtain ⟨h', hQ, he⟩ := ih (hp.2.2 w le_rfl r (hok c r))
    refine ⟨h', hQ, ?_⟩
    have hcost : h = ρ.cost c + (h - ρ.cost c) := (add_tsub_cancel_of_le hp.2.1).symm
    calc h + ρ.gains (⟨c, r⟩ :: trace) = ρ.cost c +
      (h - ρ.cost c + ρ.gain c r + ρ.gains trace) := by
          rw [Rules.gains, map_cons, sum_cons]
          nth_rewrite 1 [hcost]
          simp only [Rules.gains, add_assoc]
      _ = ρ.costs (⟨c, r⟩ :: trace) + h' := by
          rw [he, Rules.costs, Rules.costs, map_cons, sum_cons, add_assoc]

end Prog
