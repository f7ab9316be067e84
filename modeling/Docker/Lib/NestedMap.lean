import Mathlib

/-!
# Maps of maps

A map from keys to maps, the way a program keeps it that makes an inner map on the first insertion
and drops it with its last entry. It is reasoned about as one map on pairs of keys, `get`.
-/

universe u v w

abbrev NestedMap (α : Type u) (β : Type v) (γ : Type w) : Type (max u v w) :=
  AList fun _ : α => AList fun _ : β => γ

namespace NestedMap

open Option AList

variable {α : Type u} {β : Type v} {γ : Type w} [DecidableEq α] [DecidableEq β]

def get (m : NestedMap α β γ) (a : α) (b : β) : Option γ :=
  (m.lookup a).bind fun inner => inner.lookup b

/-- `m[a][b] = c`, with an inner map made if there is none. -/
def put (m : NestedMap α β γ) (a : α) (b : β) (c : γ) : NestedMap α β γ :=
  AList.insert a (AList.insert b c ((m.lookup a).getD ∅)) m

/-- `delete(m[a], b)`, and the inner map goes with its last entry. -/
def remove (m : NestedMap α β γ) (a : α) (b : β) : NestedMap α β γ :=
  match m.lookup a with
  | none => m
  | some inner => if (inner.erase b).keys = [] then m.erase a else AList.insert a (inner.erase b) m

def toList (m : NestedMap α β γ) : List (α × β × γ) :=
  m.entries.flatMap fun outer => outer.2.entries.map fun inner => (outer.1, inner.1, inner.2)

def NoEmpty (m : NestedMap α β γ) : Prop := ∀ a inner, m.lookup a = some inner → inner.keys ≠ []

variable {m : NestedMap α β γ} {a a' : α} {b b' : β} {c : γ} {inner : AList fun _ : β => γ}

@[simp] theorem get_empty : get (∅ : NestedMap α β γ) a b = none := rfl

theorem get_eq_some : get m a b = some c ↔ ∃ inner, m.lookup a = some inner ∧
    inner.lookup b = some c := by
  rw [get, bind_eq_some_iff]

theorem get_put : get (put m a b c) a' b' = if a' = a ∧ b' = b then some c else get m a' b' := by
  unfold get put
  by_cases ha : a' = a
  · subst ha
    rw [lookup_insert, bind_some]
    by_cases hb : b' = b
    · subst hb
      rw [lookup_insert, if_pos ⟨rfl, rfl⟩]
    · rw [lookup_insert_ne hb, if_neg fun h => hb h.2]
      cases m.lookup a' <;> rfl
  · rw [lookup_insert_ne ha, if_neg fun h => ha h.1]

theorem lookup_remove_ne (h : a' ≠ a) : (remove m a b).lookup a' = m.lookup a' := by
  unfold remove
  split
  · rfl
  · split
    · exact lookup_erase_ne h
    · exact lookup_insert_ne h

theorem lookup_remove_self : (remove m a b).lookup a =
    (m.lookup a).bind fun inner => if (inner.erase b).keys = [] then none
      else some (inner.erase b) := by
  unfold remove
  split
  · next h => rw [h, bind_none]
  · next inner h =>
    rw [h, bind_some]
    split
    · exact lookup_erase _ _
    · exact lookup_insert _

theorem lookup_eq_none_of_keys (h : inner.keys = []) : inner.lookup b = none := by
  rw [AList.lookup_eq_none, AList.mem_keys, h]
  exact List.not_mem_nil

theorem lookup_erase_eq_ite : (inner.erase b).lookup b' = if b' = b then none
    else inner.lookup b' := by
  split
  · next h => rw [h, lookup_erase]
  · next h => exact lookup_erase_ne h

theorem get_remove : get (remove m a b) a' b' = if a' = a ∧ b' = b then none else get m a' b' := by
  unfold get
  by_cases ha : a' = a
  · subst ha
    rw [lookup_remove_self]
    simp only [true_and]
    cases m.lookup a' with
    | none => simp
    | some inner =>
      rw [bind_some, bind_some, ← lookup_erase_eq_ite]
      split
      · next hkeys => rw [bind_none, lookup_eq_none_of_keys hkeys]
      · rw [bind_some]
  · rw [lookup_remove_ne ha, if_neg fun h => ha h.1]

theorem mem_toList : (a, b, c) ∈ toList m ↔ get m a b = some c := by
  simp only [toList, List.mem_flatMap, List.mem_map, get_eq_some, Prod.mk.injEq]
  constructor
  · rintro ⟨⟨_, inner⟩, hinner, ⟨_, _⟩, hentry, rfl, rfl, rfl⟩
    exact ⟨inner, mem_lookup_iff.2 hinner, mem_lookup_iff.2 hentry⟩
  · rintro ⟨inner, hinner, hentry⟩
    exact ⟨⟨a, inner⟩, mem_lookup_iff.1 hinner, ⟨b, c⟩, mem_lookup_iff.1 hentry, rfl, rfl, rfl⟩

namespace NoEmpty

omit [DecidableEq β] in
theorem empty : NoEmpty (∅ : NestedMap α β γ) := by
  intro a inner h
  cases h

theorem put (h : NoEmpty m) : NoEmpty (put m a b c) := by
  intro a' inner hinner
  by_cases ha : a' = a
  · subst ha
    rw [NestedMap.put, lookup_insert, some_inj] at hinner
    subst hinner
    exact List.ne_nil_of_mem (mem_keys.1 ((mem_insert _).2 (.inl rfl)))
  · rw [NestedMap.put, lookup_insert_ne ha] at hinner
    exact h a' inner hinner

theorem remove (h : NoEmpty m) : NoEmpty (remove m a b) := by
  intro a' inner' hinner'
  by_cases ha : a' = a
  · subst ha
    rw [lookup_remove_self, bind_eq_some_iff] at hinner'
    obtain ⟨inner, -, hinner⟩ := hinner'
    split at hinner <;> cases hinner
    assumption
  · rw [lookup_remove_ne ha] at hinner'
    exact h a' inner' hinner'

end NoEmpty

end NestedMap
