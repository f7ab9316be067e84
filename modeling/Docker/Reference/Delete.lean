import Docker.Reference.Matching

/-!
# `Delete` removes what `Get` finds

The loops of `Get` and `Delete` as they are written, with a file that cannot always be written. Both
stop at the first candidate that is found, and `Delete` takes its association out of both maps.
-/

namespace Docker.Reference

open List

open Image (ID)

namespace Store

def getFrom (ref : Named) : List (Str × AList fun _ : Str => ID) → Except StoreError ID
  | [] => .error .doesNotExist
  | (name, repository) :: matching =>
    match substituteReferenceName ref name with
    | .error _ => getFrom ref matching
    | .ok tmpRef =>
      match repository.lookup tmpRef.string with
      | some revision => .ok revision
      | none => getFrom ref matching

/-- The loop of `Delete`, with what it returns first. The error is that of the write if something
was deleted, and `ErrDoesNotExist` otherwise. -/
def deleteFrom (st : Store) (writes : Bool) (ref : Named) :
    List (Str × AList fun _ : Str => ID) → Bool × Store
  | [] => (false, st)
  | (name, repository) :: matching =>
    match substituteReferenceName ref name with
    | .error _ => deleteFrom st writes ref matching
    | .ok tmpRef =>
      match repository.lookup tmpRef.string with
      | some id =>
        -- the repository of the list is the one of the store
        let repository := repository.erase tmpRef.string
        let st := { st with
          repositories :=
            if repository.keys = [] then st.repositories.erase name
              else st.repositories.insert name repository
          referencesByIDCache := st.referencesByIDCache.remove id tmpRef.string }
        (true, if writes then st.save else st)
      | none => deleteFrom st writes ref matching

def deleteWith (st : Store) (writes : Bool) (ref : Named) : Bool × Store :=
  st.deleteFrom writes (withDefaultTag ref) (st.getMatchingReferenceList (withDefaultTag ref))

/-- The association has been taken out of both maps, and nothing else. -/
structure Removed (st : Store) (writes : Bool) (a : Named) (id : ID) (st' : Store) : Prop where
  association : st.association a = some id
  cached : st.referencesByIDCache.get id a.string = some a
  repositories : ∀ n s, st'.repositories.get n s = if n = a.name ∧
    s = a.string then none else st.repositories.get n s
  cache : ∀ i s, st'.referencesByIDCache.get i s =
    if i = id ∧ s = a.string then none else st.referencesByIDCache.get i s
  consistent : Consistent st'.save
  defaultRegistries : st'.defaultRegistries = st.defaultRegistries
  file : st'.file = if writes then st'.repositories else st.file

section
variable {st : Store} {ref a : Named} {id : ID} {writes : Bool}

def entryIn (ref : Named) : (Str × AList fun _ : Str => ID) → Option (Str × Str × ID) :=
  fun (name, repository) =>
  match substituteReferenceName ref name with
  | .error _ => none
  | .ok tmpRef => (repository.lookup tmpRef.string).map fun id => (name, tmpRef.string, id)

theorem getFrom_eq (ref : Named) (matching : List (Str × AList fun _ : Str => ID)) :
    getFrom ref matching = match matching.findSome? (entryIn ref) with
      | some (_, _, id) => .ok id
      | none => .error .doesNotExist := by
  induction matching with
  | nil => rfl
  | cons p matching ih =>
    obtain ⟨name, repository⟩ := p
    rw [getFrom, findSome?_cons, entryIn]
    cases substituteReferenceName ref name with
    | error e => exact ih
    | ok tmpRef =>
      dsimp only
      cases repository.lookup tmpRef.string with
      | none => exact ih
      | some id => rfl

theorem get_eq_getFrom : st.get ref = getFrom (withDefaultTag ref)
    (st.getMatchingReferenceList (withDefaultTag ref)) :=
  (getFrom_eq ..).symm

/-- The store without the reference, as `Delete` leaves it. -/
def without (st : Store) (writes : Bool) (a : Named) (id : ID) : Store :=
  { st.dissociate a id with file := if writes then (st.dissociate a id).repositories else st.file }

def removing (st : Store) (writes : Bool) : Str × Str × ID → Store
  | (name, refStr, id) =>
    { st with
      repositories := st.repositories.remove name refStr
      referencesByIDCache := st.referencesByIDCache.remove id refStr
      file := if writes then st.repositories.remove name refStr else st.file }

theorem deleteFrom_eq (hmatching : ∀ p ∈ matching, st.repositories.lookup p.1 = some p.2) :
    st.deleteFrom writes ref matching = match matching.findSome? (entryIn ref) with
      | some p => (true, st.removing writes p)
      | none => (false, st) := by
  induction matching with
  | nil => rfl
  | cons p matching ih =>
    have hrest := ih fun p hp => hmatching p (mem_cons_of_mem _ hp)
    have hrep := hmatching p mem_cons_self
    obtain ⟨name, repository⟩ := p
    rw [deleteFrom, findSome?_cons, entryIn]
    cases substituteReferenceName ref name with
    | error e => exact hrest
    | ok tmpRef =>
      dsimp only
      cases repository.lookup tmpRef.string with
      | none => exact hrest
      | some id =>
        cases writes <;> simp [removing, NestedMap.remove, hrep, save]

theorem deleteWith_eq : st.deleteWith writes ref = match st.find (withDefaultTag ref) with
      | some p => (true, st.removing writes p)
      | none => (false, st) :=
  deleteFrom_eq lookup_of_mem_getMatchingReferenceList

theorem delete_eq_deleteWith : st.delete ref =
    (if (st.deleteWith true ref).1 then .ok () else .error .doesNotExist,
      (st.deleteWith true ref).2) := by
  rw [delete, deleteWith_eq]
  cases st.find (withDefaultTag ref) with
  | none => rfl
  | some p => rfl

theorem removed_without (h : Consistent st.save) (ha : st.association a = some id) :
    Removed st writes a id (st.without writes a id) where
  association := ha
  cached := (h.cache id a.string a).2 ⟨rfl, ha⟩
  repositories _ _ := NestedMap.get_remove
  cache _ _ := NestedMap.get_remove
  consistent := h.dissociate ha
  defaultRegistries := rfl
  file := rfl

/-- What the two calls do, with the candidate at which both stop. -/
theorem deleteWith_cases (h : Consistent st.save) (writes : Bool) (ref : Named) :
    (∃ pre a post id, st.candidates (withDefaultTag ref) = pre ++ a :: post ∧
      (∀ c ∈ pre, st.visible c = none) ∧
      st.visible a = some id ∧ st.get ref = .ok id ∧ st.deleteWith writes ref =
        (true, st.without writes a id)) ∨
    st.get ref = .error .doesNotExist ∧ st.deleteWith writes ref = (false, st) := by
  have hfind : st.find (withDefaultTag ref) = _ := h.ownNames.find_eq
  rw [deleteWith_eq, get]
  cases hp : st.find (withDefaultTag ref) with
  | none => exact .inr ⟨rfl, rfl⟩
  | some p =>
    rw [hp] at hfind
    obtain ⟨pre, a, post, hcandidates, ha, hpre⟩ := findSome?_eq_some_iff.1 hfind.symm
    obtain ⟨id, hid, rfl⟩ := Option.map_eq_some_iff.1 ha
    exact .inl ⟨pre, a, post, id, hcandidates, fun c hc => Option.map_eq_none_iff.1 (hpre c hc),
      hid, rfl, rfl⟩

theorem association_of_visible (h : st.visible a = some id) : st.association a = some id := by
  unfold visible at h
  split at h
  · exact h
  · cases h

end

/-- `Delete` returns `true` if and only if `Get` succeeds. Then the association that `Get` finds is
taken out of both maps; otherwise nothing changes. -/
theorem deleteWith_removes_found (st : Store) (h : Consistent st.save) (writes : Bool)
    (ref : Named) :
    ((st.deleteWith writes ref).1 = true ↔ ∃ id, st.get ref = .ok id) ∧
    (∀ id, st.get ref = .ok id → ∃ pre a post, st.candidates (withDefaultTag ref) =
      pre ++ a :: post ∧
      (∀ c ∈ pre, st.visible c = none) ∧ st.visible a = some id ∧
      Removed st writes a id (st.deleteWith writes ref).2) ∧
    ((st.deleteWith writes ref).1 = false → (st.deleteWith writes ref).2 = st) := by
  obtain ⟨pre, a, post, id, hcandidates, hpre, hid, hget, hdelete⟩ | ⟨hget, hdelete⟩ :=
    deleteWith_cases h writes ref
  · rw [hget, hdelete]
    refine ⟨iff_of_true rfl ⟨id, rfl⟩, fun id' he => ?_, nofun⟩
    cases he
    exact ⟨pre, a, post, hcandidates, hpre, hid, removed_without h (association_of_visible hid)⟩
  · rw [hget, hdelete]
    exact ⟨iff_of_false nofun nofun, nofun, fun _ => rfl⟩

def fooV1 : Named where
  name := "foo".toList
  kind := .tagged "v1".toList
  name_valid := fooLatest.name_valid
  kind_valid := isValid_v1

/-- The repository `foo` does not have the tag, the one behind the default registry has it. -/
def fooBehindDocker : Store :=
  run { defaultRegistries := ["docker.io".toList] }
    [.addTag fooV1 "sha256:1" false, .addTag dockerFoo "sha256:2" false]

theorem deleteWith_removes_found_docker : fooLatest.name ∈ fooBehindDocker.repositories ∧
    fooBehindDocker.get fooLatest = .ok "sha256:2" ∧
      (fooBehindDocker.deleteWith true fooLatest).1 = true ∧
    Removed fooBehindDocker true dockerFoo "sha256:2"
      (fooBehindDocker.deleteWith true fooLatest).2 := by
  have hrun := (Consistent.empty ["docker.io".toList]).run
    [.addTag fooV1 "sha256:1" false, .addTag dockerFoo "sha256:2" false]
  have h : Consistent fooBehindDocker.save := { hrun with file := rfl }
  have hget : fooBehindDocker.get fooLatest = .ok "sha256:2" := by decide +kernel
  obtain ⟨hiff, hremoved, -⟩ := deleteWith_removes_found fooBehindDocker h true fooLatest
  obtain ⟨pre, a, post, hcandidates, hpre, -, ha⟩ := hremoved _ hget
  have hmem : a ∈ [fooLatest, dockerFoo] := by
    have hlist : fooBehindDocker.candidates (withDefaultTag fooLatest) =
        [fooLatest, dockerFoo] := by
      decide +kernel
    rw [← hlist, hcandidates]
    exact mem_append_right _ mem_cons_self
  have hfoo : a ≠ fooLatest := by
    rintro rfl
    exact absurd ha.association (by decide +kernel)
  obtain rfl : a = dockerFoo := by simpa [hfoo] using hmem
  exact ⟨AList.mem_keys.2 (by decide +kernel), hget, hiff.2 ⟨_, hget⟩, ha⟩

end Store

end Docker.Reference
