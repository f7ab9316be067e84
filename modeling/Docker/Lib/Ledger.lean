import Mathlib

/-!
# Ledgers

Tokens `0, 1, …` are issued one after another, each to an owner, and given back at most once. A
`Ledger` says that the tokens that are out are held by exactly one owner each and that the others
are held by nobody.
-/

universe u

/-- The tokens below `issued` that are not in `returned` are out, with one owner each. -/
structure Ledger {ω : Type u} (holds : ω → Option ℕ) (issued : ℕ) (returned : List ℕ) : Prop where
  live : ∀ o r, holds o = some r → r < issued ∧ r ∉ returned
  unique : ∀ o o' r, holds o = some r → holds o' = some r → o = o'
  owner : ∀ r, r < issued → r ∉ returned → ∃ o, holds o = some r
  nodup : returned.Nodup
  bound : ∀ r ∈ returned, r < issued

namespace Ledger

open List

variable {ω : Type u} {holds holds' : ω → Option ℕ} {issued r : ℕ} {returned : List ℕ} {o p : ω}

theorem init (h : ∀ o, holds o = none) : Ledger holds 0 [] where
  live o r hr := by simp [h] at hr
  unique o o' r hr := by simp [h] at hr
  owner r hr := absurd hr (Nat.not_lt_zero r)
  nodup := nodup_nil
  bound r hr := absurd hr not_mem_nil

theorem congr (h : Ledger holds issued returned) (hholds : ∀ o, holds' o = holds o) :
    Ledger holds' issued returned :=
  funext hholds ▸ h

variable [DecidableEq ω]

theorem issue (h : Ledger holds issued returned) (ho : holds o = none)
    (hholds : ∀ x, holds' x = if x = o then some issued else holds x) :
    Ledger holds' (issued + 1) returned where
  live x r hr := by
    rw [hholds] at hr
    split at hr
    · cases hr
      exact ⟨Nat.lt_succ_self _, fun hmem => Nat.lt_irrefl _ (h.bound _ hmem)⟩
    · exact ⟨Nat.lt_succ_of_lt (h.live x r hr).1, (h.live x r hr).2⟩
  unique x y r hx hy := by
    rw [hholds] at hx hy
    split at hx
    · next hxo =>
      cases hx
      split at hy
      · next hyo => rw [hxo, hyo]
      · exact absurd (h.live y _ hy).1 (Nat.lt_irrefl _)
    · split at hy
      · cases hy
        exact absurd (h.live x _ hx).1 (Nat.lt_irrefl _)
      · exact h.unique x y r hx hy
  owner r hr hmem := by
    rcases Nat.lt_succ_iff_lt_or_eq.1 hr with hr | rfl
    · obtain ⟨x, hx⟩ := h.owner r hr hmem
      refine ⟨x, ?_⟩
      rw [hholds, if_neg, hx]
      rintro rfl
      rw [ho] at hx
      cases hx
    · exact ⟨o, by rw [hholds, if_pos rfl]⟩
  nodup := h.nodup
  bound r hr := Nat.lt_succ_of_lt (h.bound r hr)

theorem move (h : Ledger holds issued returned) (hne : o ≠ p) (hp : holds p = none)
    (hholds : ∀ x, holds' x = if x = o then none else if x = p then holds o else holds x) :
    Ledger holds' issued returned := by
  -- the former owner of what somebody holds
  have hback : ∀ x r, holds' x = some r → holds (if x = p then o else x) = some r ∧ x ≠ o := by
    intro x r hr
    rw [hholds] at hr
    split at hr
    · cases hr
    · next hxo =>
      refine ⟨?_, hxo⟩
      split at hr
      · next hx => rwa [if_pos hx]
      · next hx => rwa [if_neg hx]
  refine ⟨fun x r hr => h.live _ r (hback x r hr).1, fun x y r hx hy => ?_, fun r hr hmem =>
    ?_, h.nodup, h.bound⟩
  · obtain ⟨hx, hxo⟩ := hback x r hx
    obtain ⟨hy, hyo⟩ := hback y r hy
    have he := h.unique _ _ r hx hy
    split at he
    · next hx' =>
      split at he
      · next hy' => rw [hx', hy']
      · exact absurd he.symm hyo
    · split at he
      · exact absurd he hxo
      · exact he
  · obtain ⟨x, hx⟩ := h.owner r hr hmem
    by_cases hxo : x = o
    · refine ⟨p, ?_⟩
      rw [hholds, if_neg (Ne.symm hne), if_pos rfl, ← hxo, hx]
    · refine ⟨x, ?_⟩
      rw [hholds, if_neg hxo, if_neg, hx]
      rintro rfl
      rw [hp] at hx
      cases hx

theorem giveBack (h : Ledger holds issued returned) (ho : holds o = some r)
    (hholds : ∀ x, holds' x = if x = o then none else holds x) :
    Ledger holds' issued (r :: returned) where
  live x r' hr' := by
    rw [hholds] at hr'
    split at hr'
    · cases hr'
    · next hx =>
      refine ⟨(h.live x r' hr').1, fun hmem => ?_⟩
      rcases mem_cons.1 hmem with rfl | hmem
      · exact hx (h.unique x o r' hr' ho)
      · exact (h.live x r' hr').2 hmem
  unique x y r' hx hy := by
    rw [hholds] at hx hy
    split at hx
    · cases hx
    · split at hy
      · cases hy
      · exact h.unique x y r' hx hy
  owner r' hr' hmem := by
    rw [mem_cons, not_or] at hmem
    obtain ⟨x, hx⟩ := h.owner r' hr' hmem.2
    refine ⟨x, ?_⟩
    rw [hholds, if_neg, hx]
    rintro rfl
    rw [ho] at hx
    exact hmem.1 (Option.some.inj hx).symm
  nodup := nodup_cons.2 ⟨(h.live o r ho).2, h.nodup⟩
  bound r' hr' := by
    rcases mem_cons.1 hr' with rfl | hr'
    · exact (h.live o r' ho).1
    · exact h.bound r' hr'

end Ledger
