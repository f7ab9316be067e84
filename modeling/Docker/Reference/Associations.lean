import Docker.Reference.Store

/-!
# The associations of a store

The two maps of a store are two views of one partial map from references to image ids.
-/

namespace Docker.Reference

open NestedMap Named List Option
open Image (ID)

namespace Store

section
variable {st : Store} {ref r : Named} {id id' : ID}

theorem association_associate :
    (st.associate ref id old).association r = if r = ref then some id else st.association r := by
  change NestedMap.get (put _ _ _ _) _ _ = _
  rw [get_put]
  by_cases h : r = ref
  · rw [if_pos h, if_pos (h ▸ ⟨rfl, rfl⟩)]
  · rw [if_neg h, if_neg fun h' => h (string_inj h'.2)]
    rfl

theorem association_dissociate : (st.dissociate ref id).association r = if r = ref then none
    else st.association r := by
  change NestedMap.get (remove _ _ _) _ _ = _
  rw [get_remove]
  by_cases h : r = ref
  · rw [if_pos h, if_pos (h ▸ ⟨rfl, rfl⟩)]
  · rw [if_neg h, if_neg fun h' => h (string_inj h'.2)]
    rfl

end

structure Consistent (st : Store) : Prop where
  repositories : ∀ n s id, st.repositories.get n s = some id →
    ∃ r : Named, r.name = n ∧ r.string = s ∧ st.association r = some id
  cache : ∀ id s r, st.referencesByIDCache.get id s = some r ↔ r.string = s ∧
    st.association r = some id
  repositories_noEmpty : st.repositories.NoEmpty
  cache_noEmpty : st.referencesByIDCache.NoEmpty
  file : st.file = st.repositories

namespace Consistent

variable {st : Store} {ref r : Named} {id id' : ID}

theorem empty (registries : List Str) : Consistent { defaultRegistries := registries } where
  repositories n s id h := by cases h
  cache id s r := iff_of_false (by simp) fun h => by cases h.2
  repositories_noEmpty := .empty
  cache_noEmpty := .empty
  file := rfl

section
variable (h : Consistent st)
include h

theorem get_cache_remove (href : st.association ref = some id) :
    (st.referencesByIDCache.remove id ref.string).get id' s = some r ↔
      r ≠ ref ∧ r.string = s ∧ st.association r = some id' := by
  rw [get_remove, ← h.cache]
  split
  · next he =>
    refine iff_of_false (by simp) fun hr => hr.1 ?_
    exact string_inj (((h.cache _ _ _).1 hr.2).1.trans he.2)
  · next hne =>
    refine (and_iff_right_of_imp fun hget hr => hne ?_).symm
    obtain ⟨rfl, hid⟩ := (h.cache _ _ _).1 hget
    rw [hr, href, some_inj] at hid
    exact ⟨hid.symm, by rw [hr]⟩

theorem get_cache_elim : ((st.association ref).elim st.referencesByIDCache fun oldID =>
      st.referencesByIDCache.remove oldID ref.string).get id' s = some r ↔
      r ≠ ref ∧ r.string = s ∧ st.association r = some id' := by
  cases href : st.association ref with
  | some oldID => exact h.get_cache_remove href
  | none =>
    rw [elim_none, h.cache]
    refine (and_iff_right_of_imp fun hget hr => ?_).symm
    rw [hr, href] at hget
    cases hget.2

theorem associate : Consistent (st.associate ref id (st.association ref)) where
  repositories n s id' hget := by
    change NestedMap.get (put _ _ _ _) _ _ = _ at hget
    rw [get_put] at hget
    split at hget
    · next he =>
      cases hget
      exact ⟨ref, he.1.symm, he.2.symm, by rw [association_associate, if_pos rfl]⟩
    · next hne =>
      obtain ⟨r, rfl, rfl, hr⟩ := h.repositories n s id' hget
      have hne' : r ≠ ref := fun he => hne (he ▸ ⟨rfl, rfl⟩)
      exact ⟨r, rfl, rfl, by rw [association_associate, if_neg hne', hr]⟩
  cache id' s r := by
    rw [association_associate]
    change NestedMap.get (put _ _ _ _) _ _ = _ ↔ _
    rw [get_put]
    by_cases hr : r = ref
    · subst hr
      rw [if_pos rfl, some_inj]
      split
      · next he => exact iff_of_true rfl ⟨he.2.symm, he.1.symm⟩
      · next hne =>
          exact iff_of_false (fun hget => (h.get_cache_elim.1 hget).1 rfl) fun he =>
            hne ⟨he.2.symm, he.1.symm⟩
    · split
      · next he =>
        refine iff_of_false (fun hget => hr (some_inj.1 hget).symm) fun hs => hr ?_
        exact string_inj (hs.1.trans he.2)
      · rw [h.get_cache_elim, and_iff_right hr]
  repositories_noEmpty := h.repositories_noEmpty.put
  cache_noEmpty := by
    refine NestedMap.NoEmpty.put ?_
    cases st.association ref with
    | none => exact h.cache_noEmpty
    | some oldID => exact h.cache_noEmpty.remove
  file := rfl

theorem dissociate (href : st.association ref = some id) : Consistent (st.dissociate ref id) where
  repositories n s id' hget := by
    change NestedMap.get (remove _ _ _) _ _ = _ at hget
    rw [get_remove] at hget
    split at hget
    · cases hget
    · next hne =>
      obtain ⟨r, rfl, rfl, hr⟩ := h.repositories n s id' hget
      have hne' : r ≠ ref := fun he => hne (he ▸ ⟨rfl, rfl⟩)
      exact ⟨r, rfl, rfl, by rw [association_dissociate, if_neg hne', hr]⟩
  cache id' s r := by
    rw [association_dissociate]
    refine (h.get_cache_remove href).trans ?_
    by_cases hr : r = ref <;> simp [hr]
  repositories_noEmpty := h.repositories_noEmpty.remove
  cache_noEmpty := h.cache_noEmpty.remove
  file := rfl

theorem mem_references : r ∈ st.references id ↔ st.association r = some id := by
  rw [references, List.mem_insertionSort, List.mem_map]
  constructor
  · rintro ⟨⟨s, r⟩, hmem, rfl⟩
    have hlookup := AList.mem_lookup_iff.2 hmem
    cases hid : st.referencesByIDCache.lookup id with
    | none =>
      rw [hid] at hlookup
      cases hlookup
    | some refs =>
      rw [hid] at hlookup
      exact ((h.cache id s r).1 (get_eq_some.2 ⟨refs, hid, hlookup⟩)).2
  · intro hr
    obtain ⟨refs, hid, hlookup⟩ := get_eq_some.1 ((h.cache id r.string r).2 ⟨rfl, hr⟩)
    rw [hid]
    exact ⟨⟨r.string, r⟩, AList.mem_lookup_iff.1 hlookup, rfl⟩

theorem references_eq_nil : st.references id = [] ↔ ∀ r, st.association r ≠ some id := by
  rw [eq_nil_iff_forall_not_mem]
  exact forall_congr' fun r => not_congr h.mem_references

theorem references_ne_nil : st.references id ≠ [] ↔ ∃ r, st.association r = some id := by
  rw [Ne, h.references_eq_nil]
  exact not_forall_not

theorem nodup_references (id : ID) : (st.references id).Nodup := by
  refine (perm_insertionSort _ _).nodup_iff.2 (.of_map string ?_)
  cases hid : st.referencesByIDCache.lookup id with
  | none => exact nodup_nil
  | some refs =>
    -- the texts of the references are the keys
    have hkeys : (refs.entries.map Sigma.snd).map string = refs.keys := by
      rw [AList.keys, List.keys, List.map_map]
      refine map_congr_left fun e he => ?_
      exact ((h.cache id e.1 e.2).1 (get_eq_some.2 ⟨refs, hid, AList.mem_lookup_iff.2 he⟩)).1
    rw [getD_some, hkeys]
    exact refs.keys_nodup

end

end Consistent

/-- What the calls do to the associations of a consistent store. -/
inductive Effect (st : Store) : Op → Store → Prop where
  | same {op : Op} : Effect st op st
  | addTag {ref : Named} {id : ID} {force : Bool} (href : ref.isCanonical = false) :
    Effect st (.addTag ref id force)
      (st.associate (withDefaultTag ref) id (st.association (withDefaultTag ref)))
  | addDigest {ref : { r : Named // r.isCanonical = true }} {id : ID} {force : Bool}
      (href : st.association ref = none) :
    Effect st (.addDigest ref id force) (st.associate ref id none)
  | delete {ref r : Named} {id : ID} (hr : st.association r = some id) :
    Effect st (.delete ref) (st.dissociate r id)

section
variable {st : Store} {ops : List Op} {r : Named} {id id' : ID}

theorem isCanonical_withDefaultTag (r : Named) :
    (withDefaultTag r).isCanonical = r.isCanonical := by
  unfold withDefaultTag
  split
  · next h =>
    rw [isNameOnly, beq_iff_eq] at h
    simp [isCanonical, h]
  · rfl

theorem Consistent.effect (h : Consistent st) (op : Op) : Effect st op (st.exec op) := by
  cases op with
  | addTag ref id force =>
    change Effect st _ (st.addTag ref id force).2
    unfold addTag
    cases hcan : ref.isCanonical with
    | true => exact .same
    | false =>
      rw [if_neg Bool.false_ne_true]
      obtain he | ⟨he, -⟩ := st.addReference_cases (withDefaultTag ref) id force <;> rw [he]
      exacts [.same, .addTag hcan]
  | addDigest ref id force =>
    change Effect st _ (st.addReference ref id force).2
    obtain he | ⟨he, hnone⟩ := st.addReference_cases ref id force <;> rw [he]
    · exact .same
    · rw [hnone ref.2]
      exact .addDigest (hnone ref.2)
  | delete ref =>
    change Effect st _ (st.delete ref).2
    unfold delete
    split
    · next name refStr id hfind =>
      obtain ⟨r, rfl, rfl, hr⟩ := h.repositories name refStr id (get_of_find hfind)
      exact .delete hr
    · exact .same

theorem Consistent.exec (h : Consistent st) (op : Op) : Consistent (st.exec op) := by
  have heff := h.effect op
  generalize st.exec op = st' at heff ⊢
  cases heff with
  | same => exact h
  | addTag => exact h.associate
  | addDigest href => exact href ▸ h.associate
  | delete hr => exact h.dissociate hr

theorem Consistent.run (h : Consistent st) (ops : List Op) : Consistent (st.run ops) := by
  induction ops generalizing st with
  | nil => exact h
  | cons op ops ih => exact ih (h.exec op)

/-! ## Digest references -/

theorem run_cons : st.run (op :: ops) = (st.exec op).run ops := rfl

theorem run_append : st.run (ops ++ ops') = (st.run ops).run ops' := foldl_append

/-- A call leaves the image of a digest reference as it is, deletes the reference, or adds it. -/
theorem Consistent.association_exec (h : Consistent st) (hr : r.isCanonical = true) (op : Op) :
    (st.exec op).association r = st.association r ∨
    (∃ ref, op = .delete ref) ∧ (st.exec op).association r = none ∨
    ∃ id force, op = .addDigest ⟨r, hr⟩ id force ∧ st.association r = none ∧
      (st.exec op).association r = some id := by
  have heff := h.effect op
  generalize st.exec op = st' at heff ⊢
  cases heff with
  | same => exact .inl rfl
  | @addTag ref id force href =>
    left
    have hne : r ≠ withDefaultTag ref := by
      rintro rfl
      rw [isCanonical_withDefaultTag, href] at hr
      cases hr
    rw [association_associate, if_neg hne]
  | @addDigest ref id force href =>
    rw [association_associate]
    split
    · next he =>
      subst he
      exact .inr (.inr ⟨id, force, rfl, href, rfl⟩)
    · exact .inl rfl
  | @delete ref r' id hr' =>
    rw [association_dissociate]
    split
    · exact .inr (.inl ⟨⟨ref, rfl⟩, rfl⟩)
    · exact .inl rfl

theorem Consistent.exists_delete (h : Consistent st) (hr : r.isCanonical = true)
    (hid : st.association r = some id) (hne : (st.run ops).association r ≠ some id) :
    ∃ pre ref post, ops = pre ++ .delete ref :: post ∧ (st.run pre).association r = some id ∧
      (st.run (pre ++ [.delete ref])).association r = none := by
  induction ops generalizing st with
  | nil => exact absurd hid hne
  | cons op ops ih =>
    obtain he | ⟨⟨ref, rfl⟩, hnone⟩ | ⟨_, _, -, hnone, -⟩ := h.association_exec hr op
    · obtain ⟨pre, ref, post, rfl, hpre, hdel⟩ := ih (h.exec op) (he.trans hid) hne
      exact ⟨op :: pre, ref, post, rfl, hpre, hdel⟩
    · exact ⟨[], ref, ops, rfl, hid, hnone⟩
    · rw [hid] at hnone
      cases hnone

theorem Consistent.exists_addDigest (h : Consistent st) (hr : r.isCanonical = true)
    (hnone : st.association r = none) (hid : (st.run ops).association r = some id) :
    ∃ pre force post, ops = pre ++ .addDigest ⟨r, hr⟩ id force :: post ∧
      (st.run pre).association r = none := by
  induction ops using reverseRecOn with
  | nil => cases hnone.symm.trans hid
  | append_singleton ops op ih =>
    rw [run_append] at hid
    obtain he | ⟨-, he⟩ | ⟨id', force, rfl, hnone', he⟩ := (h.run ops).association_exec hr op
    · obtain ⟨pre, force, post, rfl, hpre⟩ := ih (he.symm.trans hid)
      exact ⟨pre, force, post ++ [op], by simp, hpre⟩
    · cases he.symm.trans hid
    · cases he.symm.trans hid
      exact ⟨ops, force, [], rfl, hnone'⟩

end

/-- After every sequence of calls the cache has the references of an image with their texts, no
inner map is empty, a text has one image id, and a digest reference with another image id than
before was deleted and added again. -/
theorem associations_of_run (registries : List Str) (ops : List Op) :
    let st := run { defaultRegistries := registries } ops
    (∀ id s r, st.referencesByIDCache.get id s = some r ↔ s = r.string ∧
      st.repositories.get r.name s = some id) ∧
    st.repositories.NoEmpty ∧ st.referencesByIDCache.NoEmpty ∧
    (∀ s n n' id id', st.repositories.get n s = some id → st.repositories.get n' s = some id' →
      n = n' ∧ id = id') ∧
    ∀ (ops' : List Op) (r : Named) (hr : r.isCanonical = true) (id id'),
      st.repositories.get r.name r.string = some id →
        (st.run ops').repositories.get r.name r.string = some id' →
      id' ≠ id →
      ∃ pre ref mid force post, ops' = pre ++ .delete ref ::
        (mid ++ .addDigest ⟨r, hr⟩ id' force :: post) ∧
        (st.run pre).repositories.get r.name r.string = some id ∧
        (st.run (pre ++ [.delete ref])).repositories.get r.name r.string = none := by
  intro st
  have h : Consistent st := (Consistent.empty registries).run ops
  refine ⟨fun id s r => ?_, h.repositories_noEmpty, h.cache_noEmpty,
    fun s n n' id id' hget hget' => ?_,
    fun ops' r hr id id' hget hget' hne => ?_⟩
  · rw [h.cache, eq_comm]
    refine and_congr_right fun hs => ?_
    rw [hs, association]
  · obtain ⟨r, rfl, rfl, hr⟩ := h.repositories n s id hget
    obtain ⟨r', rfl, hs, hr'⟩ := h.repositories n' _ id' hget'
    cases Named.string_inj hs
    exact ⟨rfl, some_inj.1 (hr.symm.trans hr')⟩
  · obtain ⟨pre, ref, post, rfl, hpre, hdel⟩ := h.exists_delete hr hget fun he =>
      hne (some_inj.1 (hget'.symm.trans he))
    rw [append_cons, run_append] at hget'
    obtain ⟨mid, force, post', rfl, -⟩ := (h.run _).exists_addDigest hr hdel hget'
    exact ⟨pre, ref, mid, force, post', rfl, hpre, hdel⟩

end Store

end Docker.Reference
