import Mathlib

/-!
# Counting under a change at one index

A step of a system that keeps its objects in a table changes the objects at one index, so it changes
`Nat.count p n` by what happens there. The same holds for `List.countP`, and for the entries of a
finite map.
-/

namespace Count

open List

variable {p q : Nat → Prop} [DecidablePred p] [DecidablePred q] {n t : Nat}

theorem count_congr (h : ∀ k < n, (p k ↔ q k)) : Nat.count p n = Nat.count q n :=
  Nat.le_antisymm (Nat.count_mono_left fun k hk => (h k hk).1)
    (Nat.count_mono_left fun k hk => (h k hk).2)

section
variable (ht : t < n) (h : ∀ k < n, k ≠ t → (p k ↔ q k))
include ht h

theorem count_update : Nat.count q n + (if p t then 1 else 0) = Nat.count p n +
    (if q t then 1 else 0) := by
  induction n with
  | zero => cases ht
  | succ n ih =>
    rw [Nat.count_succ, Nat.count_succ]
    rcases Nat.lt_succ_iff_lt_or_eq.1 ht with ht | rfl
    · have hn : p n ↔ q n := h n (Nat.lt_succ_self n) (Nat.ne_of_gt ht)
      have := ih ht fun k hk => h k (Nat.lt_succ_of_lt hk)
      simp only [hn]
      omega
    · have : Nat.count p t = Nat.count q t :=
        count_congr fun k hk => h k (Nat.lt_succ_of_lt hk) (Nat.ne_of_lt hk)
      omega

theorem count_insert (hp : ¬p t) (hq : q t) : Nat.count q n = Nat.count p n + 1 := by
  simpa [hp, hq] using count_update ht h

theorem count_erase (hp : p t) (hq : ¬q t) : Nat.count q n + 1 = Nat.count p n := by
  simpa [hp, hq] using count_update ht h

end

theorem countP_set {l : List α} (p : α → Bool) (h : l[t]? = some x) :
    (l.set t y).countP p + (p x).toNat = l.countP p + (p y).toNat := by
  induction l generalizing t with
  | nil => cases h
  | cons a l ih =>
    cases t with
    | zero =>
      cases h
      rw [set_cons_zero, countP_cons, countP_cons]
      cases hx : p x <;> cases hy : p y <;> simp
    | succ t =>
      have := ih h
      rw [set_cons_succ, countP_cons, countP_cons]
      omega

section Map
variable {κ : Type*} {β : κ → Type*} [DecidableEq κ] {m : AList β} {a : κ} {b b' : β a}

theorem countP_kerase {l : List (Sigma β)} (p : Sigma β → Bool) (h : l.dlookup a = some b) :
    (l.kerase a).countP p + (p ⟨a, b⟩).toNat = l.countP p := by
  induction l with
  | nil => cases h
  | cons e l ih =>
    obtain ⟨k, v⟩ := e
    by_cases he : a = k
    · subst he
      rw [dlookup_cons_eq, Option.some_inj] at h
      have hk : kerase a (⟨a, v⟩ :: l) = l := kerase_cons_eq rfl
      rw [hk, countP_cons, h]
      cases p ⟨a, b⟩ <;> simp
    · rw [dlookup_cons_ne _ _ he] at h
      have := ih h
      rw [kerase_cons_ne he, countP_cons, countP_cons]
      omega

theorem countP_erase (p : Sigma β → Bool) (h : m.lookup a = some b) :
    (m.erase a).entries.countP p + (p ⟨a, b⟩).toNat = m.entries.countP p :=
  countP_kerase p h

theorem countP_insert (p : Sigma β → Bool) (h : m.lookup a = some b) :
    (m.insert a b').entries.countP p + (p ⟨a, b⟩).toNat = m.entries.countP p +
    (p ⟨a, b'⟩).toNat := by
  have := countP_erase p h
  rw [AList.entries_insert, countP_cons]
  change countP p (m.erase a).entries + _ + _ = _
  cases p ⟨a, b'⟩ <;> simp <;> omega

theorem countP_insert_new (p : Sigma β → Bool) (h : m.lookup a = none) :
    (m.insert a b).entries.countP p = m.entries.countP p + (p ⟨a, b⟩).toNat := by
  rw [AList.entries_insert_of_notMem (AList.lookup_eq_none.1 h), countP_cons]
  cases p ⟨a, b⟩ <;> simp

end Map

end Count
