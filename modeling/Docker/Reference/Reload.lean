import Docker.Reference.Associations

/-!
# Reading the references back

`ParseNamed` reads the text of a reference back unless the name is below `docker.io/library/`, where
normalizing drops `library/`, or the digest is of an algorithm that `digest.Validate` does not know,
which `WithDigest` does not check.
-/

namespace Docker.Reference

open List

open Image (ID)

namespace Store

section
variable {st : Store} {id : ID} {s : Str} {r : Named}

theorem get_foldl_cacheReference {entries : List (Str × Str × ID)} :
    NestedMap.get (entries.foldl cacheReference ∅) id s = some r ↔
      (∃ n, (n, s, id) ∈ entries) ∧ parseNamed s = .ok r := by
  induction entries using reverseRecOn with
  | nil => simp
  | append_singleton entries entry ih =>
    obtain ⟨n₀, s₀, id₀⟩ := entry
    rw [foldl_append]
    simp only [foldl_cons, foldl_nil, cacheReference, mem_append, mem_singleton, exists_or,
      Prod.mk.injEq, exists_eq_left]
    cases hparse : parseNamed s₀ with
    | error e =>
      rw [ih]
      refine and_congr_left fun hs => (or_iff_left ?_).symm
      rintro ⟨rfl, -⟩
      cases hparse.symm.trans hs
    | ok ref =>
      rw [NestedMap.get_put]
      split
      · next he =>
        obtain ⟨rfl, rfl⟩ := he
        rw [hparse, Option.some_inj, Except.ok.injEq]
        exact (and_iff_right (.inr ⟨rfl, rfl⟩)).symm
      · next hne =>
        rw [ih]
        refine and_congr_left' (or_iff_left ?_).symm
        rintro ⟨hs, hid⟩
        exact hne ⟨hid, hs⟩

theorem get_cache_reload : st.reload.referencesByIDCache.get id s = some r ↔
    (∃ n, st.file.get n s = some id) ∧ parseNamed s = .ok r := by
  simp only [reload, get_foldl_cacheReference, NestedMap.mem_toList]

/-- What is read from the file of a consistent store agrees with the store exactly if every
reference can be read back. -/
theorem Consistent.reload_iff (h : Consistent st) :
    (∀ id s, st.reload.referencesByIDCache.get id s = st.referencesByIDCache.get id s) ↔
      ∀ r id, st.association r = some id → r.Stable := by
  constructor
  · intro heq r id hr
    have hget := (h.cache id r.string r).2 ⟨rfl, hr⟩
    rw [← heq, get_cache_reload] at hget
    exact (parseNamed_string_iff r).1 hget.2
  · intro hst id s
    refine Option.ext fun r => ?_
    rw [get_cache_reload, h.file, h.cache]
    constructor
    · rintro ⟨⟨n, hn⟩, hparse⟩
      obtain ⟨r', -, rfl, hr'⟩ := h.repositories n s id hn
      cases ((parseNamed_string_iff r').2 (hst r' id hr')).symm.trans hparse
      exact ⟨rfl, hr'⟩
    · rintro ⟨rfl, hr⟩
      exact ⟨⟨r.name, hr⟩, (parseNamed_string_iff r).2 (hst r id hr)⟩

end

end Store

/-- The text of a reference is read back as this reference, and the file as the store, if and only
if no name is below `docker.io/library/` and the digests are of known algorithms. -/
theorem parseNamed_string_and_reload (r : Named) (registries : List Str) (ops : List Op) :
    (parseNamed r.string = .ok r ↔ r.Stable) ∧
    let st := Store.run { defaultRegistries := registries } ops
    st.reload.repositories = st.repositories ∧
    ((∀ id s, st.reload.referencesByIDCache.get id s = st.referencesByIDCache.get id s) ↔
      ∀ (r : Named) (id : ID), st.repositories.get r.name r.string = some id → r.Stable) := by
  have h := (Store.Consistent.empty registries).run ops
  exact ⟨parseNamed_string_iff r, h.file, h.reload_iff⟩

def fooLatest : Named where
  name := "foo".toList
  kind := .tagged defaultTag
  name_valid := by decide
  kind_valid := by decide

theorem parseNamed_string_and_reload_foo : parseNamed fooLatest.string = .ok fooLatest ∧
    let st := Store.run { defaultRegistries := [] } [.addTag fooLatest "sha256:1" false]
    ∀ id s, st.reload.referencesByIDCache.get id s = st.referencesByIDCache.get id s := by
  obtain ⟨hparse, -, hreload⟩ :=
    parseNamed_string_and_reload fooLatest [] [.addTag fooLatest "sha256:1" false]
  refine ⟨hparse.2 (by decide), hreload.2 fun r id hr => ?_⟩
  have hget : Store.run { defaultRegistries := [] } [.addTag fooLatest "sha256:1" false] =
      Store.associate { defaultRegistries := [] } fooLatest "sha256:1" none := rfl
  change Store.association _ r = some id at hr
  rw [hget, Store.association_associate] at hr
  split at hr
  · next he => exact he ▸ by decide
  · cases hr

theorem isValid_v1 : (Kind.tagged "v1".toList).isValid = true := by decide

/-- `docker.io/library/foo:latest`, as it comes from `docker.io/library/library/foo:latest`. -/
def libraryFoo : Named where
  name := "docker.io/library/foo".toList
  kind := .tagged defaultTag
  name_valid := by decide
  kind_valid := by decide

/-- `foo` with an md5 digest, as it comes from `WithDigest`. -/
def fooMd5 : Named where
  name := "foo".toList
  kind := .canonical "md5:d41d8cd98f00b204e9800998ecf8427e".toList
  name_valid := by decide
  kind_valid := by decide

/-- The reference for `docker.io/library/library/foo:latest` is read back as `docker.io/foo`, and
one with an md5 digest is not read back. -/
theorem reload_changes_references :
    let st := Store.run { defaultRegistries := [] }
      [.addTag libraryFoo "sha256:1" false, .addDigest ⟨fooMd5, rfl⟩ "sha256:2" false]
    parseNamed "docker.io/library/library/foo:latest".toList = .ok libraryFoo ∧
    (parseNamed libraryFoo.string).map Named.name = .ok "docker.io/foo".toList ∧
    withDigest fooLatest "md5:d41d8cd98f00b204e9800998ecf8427e".toList = .ok fooMd5 ∧
    parseNamed fooMd5.string = .error (.notAReference fooMd5.string) ∧
    st.referencesByIDCache.get "sha256:1" libraryFoo.string = some libraryFoo ∧
    (st.reload.referencesByIDCache.get "sha256:1" libraryFoo.string).map Named.name =
      some "docker.io/foo".toList ∧
    st.referencesByIDCache.get "sha256:2" fooMd5.string = some fooMd5 ∧
    st.reload.referencesByIDCache.get "sha256:2" fooMd5.string = none := by
  decide +kernel

end Docker.Reference
