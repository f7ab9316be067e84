import Docker.Image.Store
import Docker.Lib.NestedMap
import Docker.Reference.Basic

/-!
# The reference store

`reference/store.go`. The store keeps two maps: the image ids by repository name and by the text of
the reference, and the references by image id and text. The first one is written to a JSON file
after every change; the second one is built again when the file is read. Writing the file succeeds,
and what is read from it is what was written.
-/

namespace Docker.Reference

open NestedMap Option AList
open Image (ID)

inductive StoreError where
  /-- `refusing to create a tag with a digest reference` -/
  | digestAsTag
  /-- `refusing to create an ambiguous tag using digest algorithm as name` -/
  | ambiguousName
  /-- `Cannot overwrite digest %s` -/
  | overwriteDigest (digest : Str)
  /-- `Conflict: Tag %s is already set to image %s, if you want to replace it, please use -f
  option` -/
  | conflict (ref : Str) (oldID : ID)
  /-- `reference does not exist` -/
  | doesNotExist
  deriving DecidableEq

structure Store where
  defaultRegistries : List Str
  repositories : NestedMap Str Str ID := ∅
  referencesByIDCache : NestedMap ID Str Named := ∅
  /-- The content of the JSON file. -/
  file : NestedMap Str Str ID := ∅

namespace Store

variable (st : Store)

def save : Store := { st with file := st.repositories }

def association (ref : Named) : Option ID := st.repositories.get ref.name ref.string

/-! ## Adding references -/

/-- The assignments at the end of `addReference`. -/
def assign (ref : Named) (id : ID) : Store :=
  { st with
    repositories := st.repositories.put ref.name ref.string id
    referencesByIDCache := st.referencesByIDCache.put id ref.string ref }

def addReference (ref : Named) (id : ID) (force : Bool) : Except StoreError Unit × Store :=
  if ref.name = "sha256".toList then (.error .ambiguousName, st)
  else
    -- a repository that does not exist is added before the reference is looked up
    let repository := (st.repositories.lookup ref.name).getD ∅
    let st := if ref.name ∈ st.repositories then st
      else { st with repositories := st.repositories.insert ref.name ∅ }
    match repository.lookup ref.string with
    | some oldID =>
      match ref.kind with
      | .canonical digest => (.error (.overwriteDigest digest), st)
      | _ =>
        if !force then (.error (.conflict ref.string oldID), st)
        else
          let st :=
            { st with referencesByIDCache := st.referencesByIDCache.remove oldID ref.string }
          (.ok (), (st.assign ref id).save)
    | none => (.ok (), (st.assign ref id).save)

def addTag (ref : Named) (id : ID) (force : Bool) : Except StoreError Unit × Store :=
  if ref.isCanonical then (.error .digestAsTag, st) else st.addReference
    (withDefaultTag ref) id force

def addDigest (ref : { r : Named // r.isCanonical = true }) (id : ID) (force : Bool) :
    Except StoreError Unit × Store :=
  st.addReference ref id force

/-! ## Finding and deleting them -/

/-- `addResult`, for the repository with the name if there is one. -/
def addResult (result : List (Str × AList fun _ : Str => ID)) (name : Str) :
    List (Str × AList fun _ : Str => ID) :=
  match st.repositories.lookup name with
  | none => result
  | some repository => if name ∈ result.map Prod.fst then result else result ++ [(name, repository)]

/-- The repositories that match the name: the one with this name, and those with the name behind a
default registry. -/
def getMatchingReferenceList (ref : Named) : List (Str × AList fun _ : Str => ID) :=
  let result := st.addResult [] ref.name
  if isReferenceFullyQualified ref then result
  else st.defaultRegistries.foldl (fun result indexName =>
    match qualifyUnqualifiedReference ref indexName with
    | .error _ => result
    | .ok fqRef => st.addResult result fqRef.name) result

/-- The first matching repository that has the reference: its name, the text of the reference and
the image id. -/
def find (ref : Named) : Option (Str × Str × ID) :=
  (st.getMatchingReferenceList ref).findSome? fun (name, repository) =>
    match substituteReferenceName ref name with
    | .error _ => none
    | .ok tmpRef => (repository.lookup tmpRef.string).map fun id => (name, tmpRef.string, id)

def get (ref : Named) : Except StoreError ID :=
  match st.find (withDefaultTag ref) with
  | some (_, _, id) => .ok id
  | none => .error .doesNotExist

/-- `true` with a nil error is `ok`. -/
def delete (ref : Named) : Except StoreError Unit × Store :=
  match st.find (withDefaultTag ref) with
  | some (name, refStr, id) =>
    let st := { st with
      repositories := st.repositories.remove name refStr
      referencesByIDCache := st.referencesByIDCache.remove id refStr }
    (.ok (), st.save)
  | none => (.error .doesNotExist, st)

/-- The references of the image, sorted by their texts. -/
def references (id : ID) : List Named :=
  (((st.referencesByIDCache.lookup id).getD ∅).entries.map Sigma.snd).insertionSort fun a b =>
    a.string ≤ b.string

/-- The references of the first matching repository, sorted by their texts; none if a text cannot be
parsed. -/
def referencesByName (ref : Named) : List (Named × ID) :=
  match st.getMatchingReferenceList ref with
  | [] => []
  | (_, repository) :: _ =>
    match repository.entries.mapM fun entry => (parseNamed entry.1).map fun ref =>
      (ref, entry.2) with
    | .error _ => []
    | .ok associations => associations.insertionSort fun a b => a.1.string ≤ b.1.string

/-! ## Reading the file -/

/-- The body of the loop of `reload`; a text that cannot be parsed is passed over. -/
def cacheReference (cache : NestedMap ID Str Named) (entry : Str × Str × ID) :
    NestedMap ID Str Named :=
  let (_, refStr, refID) := entry
  match parseNamed refStr with
  | .error _ => cache
  | .ok ref => cache.put refID refStr ref

/-- `NewReferenceStore` for the file: `reload` takes the repositories from it, and the references
from the texts. -/
def reload : Store :=
  { defaultRegistries := st.defaultRegistries
    repositories := st.file
    referencesByIDCache := st.file.toList.foldl cacheReference ∅
    file := st.file }

end Store

/-! ## Calls -/

inductive Op where
  | addTag (ref : Named) (id : ID) (force : Bool)
  | addDigest (ref : { r : Named // r.isCanonical = true }) (id : ID) (force : Bool)
  | delete (ref : Named)

namespace Store

def exec (st : Store) : Op → Store
  | .addTag ref id force => (st.addTag ref id force).2
  | .addDigest ref id force => (st.addDigest ref id force).2
  | .delete ref => (st.delete ref).2

def run (st : Store) (ops : List Op) : Store := ops.foldl exec st

/-! ## What a call can do -/

section
variable {st : Store} {ref r : Named} {id : ID}

/-- `ref` is associated with `id`, and no more with `old`. -/
def associate (st : Store) (ref : Named) (id : ID) (old : Option ID) : Store :=
  let cache := old.elim st.referencesByIDCache fun oldID =>
    st.referencesByIDCache.remove oldID ref.string
  ({ st with referencesByIDCache := cache }.assign ref id).save

def dissociate (st : Store) (ref : Named) (id : ID) : Store :=
  { st with
    repositories := st.repositories.remove ref.name ref.string
    referencesByIDCache := st.referencesByIDCache.remove id ref.string }.save

theorem put_insert_empty (h : ref.name ∉ st.repositories) (id : ID) :
    put (st.repositories.insert ref.name ∅) ref.name ref.string id =
      st.repositories.put ref.name ref.string id := by
  unfold put
  rw [insert_insert, lookup_insert, lookup_eq_none.2 h]
  rfl

theorem addReference_of_notMem (hsha : ref.name ≠ "sha256".toList)
    (h : ref.name ∉ st.repositories) :
    st.addReference ref id force = (.ok (), st.associate ref id none) := by
  simp only [addReference, if_neg hsha, if_neg h, lookup_eq_none.2 h, getD_none, lookup_empty,
    associate, assign, elim_none, put_insert_empty h]

theorem addReference_of_none (hsha : ref.name ≠ "sha256".toList) (h : st.association ref = none) :
    st.addReference ref id force = (.ok (), st.associate ref id none) := by
  by_cases hmem : ref.name ∈ st.repositories
  · obtain ⟨repository, hrep⟩ := isSome_iff_exists.1 (lookup_isSome.2 hmem)
    rw [association, NestedMap.get, hrep, bind_some] at h
    simp only [addReference, if_neg hsha, if_pos hmem, hrep, getD_some, h]
    rfl
  · exact addReference_of_notMem hsha hmem

theorem addReference_of_some (hsha : ref.name ≠ "sha256".toList)
    (h : st.association ref = some oldID) :
    st.addReference ref id force = if ref.isCanonical
      then (.error (.overwriteDigest (ref.kind.digest.getD [])), st)
      else if force then (.ok (), st.associate ref id (some oldID))
        else (.error (.conflict ref.string oldID), st) := by
  obtain ⟨repository, hrep, hid⟩ := get_eq_some.1 h
  have hmem : ref.name ∈ st.repositories := lookup_isSome.1 (by rw [hrep]; rfl)
  simp only [addReference, if_neg hsha, if_pos hmem, hrep, getD_some, hid]
  cases hkind : ref.kind <;> cases force <;> simp [Named.isCanonical, hkind, Kind.digest] <;> rfl

theorem addReference_cases (st : Store) (ref : Named) (id : ID) (force : Bool) :
    (st.addReference ref id force).2 = st ∨
      (st.addReference ref id force).2 = st.associate ref id (st.association ref) ∧
        (ref.isCanonical = true → st.association ref = none) := by
  by_cases hsha : ref.name = "sha256".toList
  · exact .inl (by rw [addReference, if_pos hsha])
  · cases h : st.association ref with
    | none => exact .inr ⟨by rw [addReference_of_none hsha h], fun _ => rfl⟩
    | some oldID =>
      rw [addReference_of_some hsha h]
      split
      · exact .inl rfl
      · next hcan =>
        split
        · exact .inr ⟨rfl, fun hcan' => absurd hcan' hcan⟩
        · exact .inl rfl

theorem lookup_of_mem_addResult (hresult : ∀ p ∈ result, st.repositories.lookup p.1 = some p.2)
    (name : Str) :
    ∀ p ∈ st.addResult result name, st.repositories.lookup p.1 = some p.2 := by
  unfold addResult
  split
  · exact hresult
  · next repository hrep =>
    split
    · exact hresult
    · exact List.forall_mem_append.2 ⟨hresult, by simpa using hrep⟩

theorem lookup_of_mem_getMatchingReferenceList :
    ∀ p ∈ st.getMatchingReferenceList ref, st.repositories.lookup p.1 = some p.2 := by
  have hname : ∀ p ∈ st.addResult [] ref.name, st.repositories.lookup p.1 = some p.2 :=
    lookup_of_mem_addResult (by simp) ref.name
  unfold getMatchingReferenceList
  split
  · exact hname
  · revert hname
    generalize st.addResult [] ref.name = result
    intro hresult
    induction st.defaultRegistries generalizing result with
    | nil => exact hresult
    | cons indexName registries ih =>
      refine ih _ ?_
      dsimp only
      split
      · exact hresult
      · exact lookup_of_mem_addResult hresult _

theorem get_of_find (h : st.find ref = some (name, refStr, id)) :
    st.repositories.get name refStr = some id := by
  obtain ⟨⟨name', repository⟩, hmem, hsome⟩ := List.exists_of_findSome?_eq_some h
  have hrep := lookup_of_mem_getMatchingReferenceList _ hmem
  dsimp only at hsome
  split at hsome
  · cases hsome
  · obtain ⟨id', hid, he⟩ := map_eq_some_iff.1 hsome
    cases he
    exact get_eq_some.2 ⟨repository, hrep, hid⟩

end

end Store

end Docker.Reference
