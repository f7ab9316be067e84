import Mathlib

/-!
# Labelled transition systems

A system is a partial function `step : ℓ → σ → Option σ`: what the label does in a state, or `none`
where it is not enabled. A run is a list of labels; a statement about every list of labels is a
statement about every interleaving.
-/

namespace Transition

open List Option

universe u v
variable {σ : Type u} {ℓ : Type v}

/-- Take the steps with the given labels, one after another. -/
def run (step : ℓ → σ → Option σ) : List ℓ → σ → Option σ
  | [], s => some s
  | l :: ls, s => (step l s).bind (run step ls)

def Reachable (step : ℓ → σ → Option σ) (init s : σ) : Prop := ∃ ls, run step ls init = some s

variable {step : ℓ → σ → Option σ} {s s' t : σ} {ls : List ℓ} {l : ℓ} {I : σ → Prop}

@[simp] theorem run_nil : run step [] s = some s := rfl

theorem run_cons : run step (l :: ls) s = some t ↔ ∃ s', step l s = some s' ∧
    run step ls s' = some t := by
  simp [run, bind_eq_some_iff]

theorem run_append : run step (ls ++ ls') s = some t ↔ ∃ s', run step ls s = some s' ∧
    run step ls' s' = some t := by
  induction ls generalizing s with
  | nil => simp
  | cons l ls ih =>
    simp only [cons_append, run_cons, ih]
    constructor
    · rintro ⟨a, ha, b, hb, hc⟩
      exact ⟨b, ⟨a, ha, hb⟩, hc⟩
    · rintro ⟨b, ⟨a, ha, hb⟩, hc⟩
      exact ⟨a, ha, b, hb, hc⟩

theorem run_inv (hstep : ∀ {l s s'}, I s → step l s = some s' → I s') (hs : I s)
    (h : run step ls s = some t) :
    I t := by
  induction ls generalizing s with
  | nil => cases h; exact hs
  | cons l ls ih =>
    obtain ⟨s', hl, hls⟩ := run_cons.1 h
    exact ih (hstep hs hl) hls

theorem Reachable.inv (hstep : ∀ {l s s'}, I s → step l s = some s' → I s') (hs : I s)
    (h : Reachable step s t) : I t :=
  h.elim fun _ hls => run_inv hstep hs hls

/-- What every step with one of the labels keeps, a run with these labels keeps. -/
theorem run_inv_of_mem (hstep : ∀ l ∈ ls, ∀ s s', I s → step l s = some s' → I s') (hs : I s)
    (h : run step ls s = some t) : I t := by
  induction ls generalizing s with
  | nil => cases h; exact hs
  | cons l ls ih =>
    obtain ⟨s', hl, hls⟩ := run_cons.1 h
    exact ih (fun l' hl' => hstep l' (mem_cons_of_mem _ hl')) (hstep l mem_cons_self s s' hs hl) hls

/-- A run is executed to find a property of its last state. -/
theorem exists_run (P : σ → Prop) [DecidablePred P] {Q : σ → Prop}
    (h : (run step ls s).any (fun t => P t) = true)
    (hQ : ∀ t, run step ls s = some t → P t → Q t) : ∃ t, run step ls s = some t ∧ Q t := by
  obtain ⟨t, ht, hP⟩ := (any_eq_true _ _).1 h
  exact ⟨t, ht, hQ t ht (of_decide_eq_true hP)⟩

/-- A condition holds after a run exactly when a step has brought it about and no later step has
ended it. -/
theorem run_latch {P : σ → Prop} {on off : ℓ → σ → Prop} (hs : ¬ P s)
    (hstep : ∀ {l s s'}, step l s = some s' → (P s' ↔ on l s ∨ P s ∧ ¬ off l s))
    (h : run step ls s = some t) :
    P t ↔ ∃ pre l post u, ls = pre ++ l :: post ∧ run step pre s = some u ∧ on l u ∧
      ∀ mid l' post' u', post = mid ++ l' :: post' → run step (pre ++ l :: mid) s = some u' →
        ¬ off l' u' := by
  induction ls using reverseRecOn generalizing t with
  | nil =>
    cases h
    simp [hs]
  | append_singleton ls l ih =>
    obtain ⟨u, hu, hl⟩ := run_append.1 h
    obtain ⟨t', hl, ht⟩ := run_cons.1 hl
    cases ht
    rw [hstep hl, ih hu]
    constructor
    · rintro (hon | ⟨⟨pre, l₀, post, v, rfl, hv, hon, hoff⟩, hl'⟩)
      · exact ⟨ls, l, [], u, rfl, hu, hon, by simp⟩
      · refine ⟨pre, l₀, post ++ [l], v, by simp, hv, hon, fun mid l' post' u' hsplit hu' => ?_⟩
        rcases eq_nil_or_concat post' with rfl | ⟨post', l₁, rfl⟩
        · obtain ⟨rfl, he⟩ := append_inj' hsplit rfl
          cases he
          rw [hu] at hu'
          cases hu'
          exact hl'
        · refine hoff mid l' post' u' ?_ hu'
          rw [concat_eq_append, ← cons_append, ← append_assoc] at hsplit
          exact (append_inj' hsplit rfl).1
    · rintro ⟨pre, l₀, post, v, hsplit, hv, hon, hoff⟩
      rcases eq_nil_or_concat post with rfl | ⟨post, l₁, rfl⟩
      · obtain ⟨rfl, he⟩ := append_inj' hsplit rfl
        cases he
        rw [hu] at hv
        cases hv
        exact .inl hon
      · rw [concat_eq_append, ← cons_append, ← append_assoc] at hsplit
        obtain ⟨rfl, he⟩ := append_inj' hsplit rfl
        cases he
        refine .inr ⟨⟨pre, l₀, post, v, rfl, hv, hon, fun mid l' post' u' hpost => ?_⟩, ?_⟩
        · exact hoff mid l' (post' ++ [l]) u' (by simp [hpost])
        · exact hoff post l [] u (by simp) hu

/-- The same system with the steps that violate a condition left out. -/
def restrict (step : ℓ → σ → Option σ) (ok : σ → ℓ → Bool) (l : ℓ) (s : σ) : Option σ :=
  if ok s l then step l s else none

theorem restrict_eq_some : restrict step ok l s = some s' ↔ ok s l = true ∧ step l s = some s' := by
  simp [restrict]

/-! ## Machines that answer -/

section
universe w w'
variable {ω : Type w} {τ : Type w'} {f : ℓ → σ → ω × σ} {g : ℓ → τ → ω × τ} {R : σ → τ → Prop}
  {s : σ} {t : τ}

/-- What a machine answers to the calls, one after another. -/
def answers (f : ℓ → σ → ω × σ) : List ℓ → σ → List ω
  | [], _ => []
  | l :: ls, s => (f l s).1 :: answers f ls (f l s).2

/-- Machines that answer each of the calls alike from related states, and stay related, answer all
of them alike. -/
theorem answers_eq (hstep : ∀ l ∈ ls, ∀ s t, R s t → (f l s).1 = (g l t).1 ∧ R (f l s).2 (g l t).2)
    (h : R s t) :
    answers f ls s = answers g ls t := by
  induction ls generalizing s t with
  | nil => rfl
  | cons l ls ih =>
    obtain ⟨hanswer, hnext⟩ := hstep l mem_cons_self s t h
    rw [answers, answers, hanswer, ih (fun l' hl' => hstep l' (mem_cons_of_mem _ hl')) hnext]

end

/-! ## Lists of processes -/

section
variable {α : Type u} {ps : List α} {p q : α} {i j : Nat}

theorem getElem?_set_cases (h : (ps.set i q)[j]? = some p) :
    j = i ∧ p = q ∨ j ≠ i ∧ ps[j]? = some p := by
  by_cases hji : j = i
  · subst hji
    refine .inl ⟨rfl, ?_⟩
    have hlt : j < ps.length := by simpa using (List.getElem?_eq_some_iff.1 h).1
    rw [getElem?_set_self hlt, some_inj] at h
    exact h.symm
  · rw [getElem?_set_ne (Ne.symm hji)] at h
    exact .inr ⟨hji, h⟩

theorem getElem?_concat_cases (h : (ps ++ [q])[j]? = some p) :
    ps[j]? = some p ∨ j = ps.length ∧ p = q := by
  rw [getElem?_append] at h
  split at h
  · exact .inl h
  · next hlt =>
    rw [getElem?_singleton] at h
    split at h <;> cases h
    exact .inr ⟨by omega, rfl⟩

end

end Transition
