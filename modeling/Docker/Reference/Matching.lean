import Docker.Reference.Lookup

/-!
# What a name stands for

`getMatchingReferenceList` looks at the repository with the name itself first, and then at those
with the name behind each default registry.
-/

namespace Docker.Reference

open List Option

open Image (ID)

theorem looksLikeHost_of_isValidHostname (h : isValidHostname host = true) :
    looksLikeHost host = true := by
  simp only [isValidHostname, Bool.and_eq_true, Bool.or_eq_true, decide_eq_true_eq] at h
  simp only [looksLikeHost, Bool.or_eq_true, List.any_eq_true, beq_iff_eq]
  rcases h.2 with (hdot | hcolon) | hlocal
  · exact .inl ⟨_, hdot, .inl rfl⟩
  · exact .inl ⟨_, hcolon, .inr rfl⟩
  · exact .inr (by simpa using hlocal)

theorem splitHostname_ne_nil (hslash : '/' ∉ front) (h : looksLikeHost front = true) :
    (splitHostname (front ++ '/' :: rest)).1 ≠ [] := by
  by_cases hdefault : front = defaultHostname ∨ front = legacyDefaultHostname
  · rw [splitHostname_of_default hdefault]
    exact cons_ne_nil _ _
  · rw [not_or] at hdefault
    rw [splitHostname_of_host hslash h hdefault.2 hdefault.1]
    rintro rfl
    cases h

theorem splitHostnameRegexp_cases (name : Str) : (splitHostnameRegexp name).1 = [] ∨
    ∃ rest, name = (splitHostnameRegexp name).1 ++ '/' :: rest ∧
      '/' ∉ (splitHostnameRegexp name).1 := by
  unfold splitHostnameRegexp
  split
  · next seg seg' segs hsplit =>
    split
    · have hname : ['/'].intercalate (name.splitOn '/') = name := intercalate_splitOn '/'
      rw [hsplit, intercalate_cons_cons, append_assoc, singleton_append] at hname
      refine .inr ⟨['/'].intercalate (seg' :: segs), hname.symm, ?_⟩
      exact Filepath.slash_notMem_of_mem_splitOn (hsplit ▸ mem_cons_self)
    · exact .inl rfl
  · exact .inl rfl

theorem isValidHostname_of_qualified (h : isReferenceFullyQualified r = true) :
    isValidHostname (splitHostnameRegexp r.name).1 = true := by
  by_contra hnot
  simp [isReferenceFullyQualified, splitReposName, hnot] at h

theorem splitHostnameRegexp_of_qualified (h : isReferenceFullyQualified r = true) :
    ∃ rest, r.name = (splitHostnameRegexp r.name).1 ++ '/' :: rest ∧
      '/' ∉ (splitHostnameRegexp r.name).1 ∧
      looksLikeHost (splitHostnameRegexp r.name).1 = true := by
  have hvalid := isValidHostname_of_qualified h
  rcases splitHostnameRegexp_cases r.name with hnil | ⟨rest, hname, hslash⟩
  · rw [hnil] at hvalid
    cases hvalid
  · exact ⟨rest, hname, hslash, looksLikeHost_of_isValidHostname hvalid⟩

theorem hostname_ne_nil (h : isReferenceFullyQualified r = true) : r.hostname ≠ [] := by
  obtain ⟨rest, hname, hslash, hfront⟩ := splitHostnameRegexp_of_qualified h
  rw [Named.hostname, hname]
  exact splitHostname_ne_nil hslash hfront

theorem kind_of_qualifyUnqualifiedReference
    (h : qualifyUnqualifiedReference ref indexName = .ok r) : r.kind = ref.kind := by
  unfold qualifyUnqualifiedReference at h
  split at h
  · split at h
    · cases h
    · split at h
      · exact (substituteReferenceName_eq_ok.1 h).2
      · cases h
        rfl
  · cases h

def behind (ref : Named) (indexName : Str) : Option Named :=
  match qualifyUnqualifiedReference ref indexName with
  | .ok fqr => some fqr
  | .error _ => none

theorem behind_eq_some : behind ref indexName = some fqr ↔
    qualifyUnqualifiedReference ref indexName = .ok fqr := by
  unfold behind
  split
  · next h => rw [h, some_inj, Except.ok.injEq]
  · next h =>
    rw [h]
    exact iff_of_false nofun nofun

namespace Store

/-- The references that `ref` can stand for, in the order in which they are looked at. -/
def candidates (st : Store) (ref : Named) : List Named :=
  ref :: if isReferenceFullyQualified ref then []
    else st.defaultRegistries.filterMap (behind ref)

/-- Every repository has references with its own name only. -/
def OwnNames (st : Store) : Prop :=
  ∀ n s id, st.repositories.get n s = some id → ∃ r : Named, r.name = n ∧ r.string = s

def visible (st : Store) (c : Named) : Option ID := if c.Settled then st.association c else none

section
variable {st : Store} {id : ID} {result : List (Str × AList fun _ : Str => ID)}

theorem kind_of_mem_candidates (h : c ∈ st.candidates ref) : c.kind = ref.kind := by
  rcases mem_cons.1 h with rfl | h
  · rfl
  · split at h
    · cases h
    · obtain ⟨indexName, -, hq⟩ := mem_filterMap.1 h
      exact kind_of_qualifyUnqualifiedReference (behind_eq_some.1 hq)

theorem findSome?_addResult (g : (Str × AList fun _ : Str => ID) → Option α) (name : Str)
    (hresult : ∀ p ∈ result, st.repositories.lookup p.1 = some p.2) :
    (st.addResult result name).findSome? g =
      (result.findSome? g).or ((st.repositories.lookup name).bind fun repository =>
        g (name, repository)) := by
  unfold addResult
  split
  · next hnone => rw [hnone, bind_none, or_none]
  · next repository hrep =>
    rw [hrep, bind_some]
    split
    · next hmem =>
      -- the repository was looked at before
      obtain ⟨p, hp, rfl⟩ := mem_map.1 hmem
      have hp' : (p.1, repository) = p := by
        rw [hresult p hp] at hrep
        cases hrep
        rfl
      rw [hp']
      cases hg : g p with
      | none => rw [or_none]
      | some a =>
        have hsome : (result.findSome? g).isSome = true :=
          findSome?_isSome_iff.2 ⟨p, hp, isSome_iff_exists.2 ⟨a, hg⟩⟩
        rw [or_of_isSome hsome]
    · rw [findSome?_append, findSome?_singleton]

theorem findSome?_foldl_addResult (g : (Str × AList fun _ : Str => ID) → Option α)
    (registries : List Str) (hresult : ∀ p ∈ result, st.repositories.lookup p.1 = some p.2) :
    (registries.foldl (fun result indexName =>
      match qualifyUnqualifiedReference ref indexName with
      | .error _ => result
      | .ok fqRef => st.addResult result fqRef.name) result).findSome? g =
    (result.findSome? g).or ((registries.filterMap (behind ref)).findSome? fun c =>
      (st.repositories.lookup c.name).bind fun repository => g (c.name, repository)) := by
  induction registries generalizing result with
  | nil => simp
  | cons indexName registries ih =>
    rw [foldl_cons, filterMap_cons, behind]
    cases qualifyUnqualifiedReference ref indexName with
    | error e => exact ih hresult
    | ok fqr =>
      rw [ih (lookup_of_mem_addResult hresult _), findSome?_addResult g _ hresult,
        List.findSome?_cons, Option.or_assoc]
      cases (st.repositories.lookup fqr.name).bind fun repository =>
        g (fqr.name, repository) <;> rfl

/-- Looking through the matching repositories is looking through the candidates. -/
theorem findSome?_getMatchingReferenceList (st : Store) (ref : Named)
    (g : (Str × AList fun _ : Str => ID) → Option α) :
    (st.getMatchingReferenceList ref).findSome? g =
      (st.candidates ref).findSome? fun c => (st.repositories.lookup c.name).bind fun repository =>
        g (c.name, repository) := by
  have hname : (st.addResult [] ref.name).findSome? g =
      (st.repositories.lookup ref.name).bind fun repository => g (ref.name, repository) := by
    rw [findSome?_addResult g ref.name (by simp), findSome?_nil, none_or]
  unfold getMatchingReferenceList candidates
  rw [findSome?_cons]
  split
  · rw [hname, findSome?_nil]
    cases (st.repositories.lookup ref.name).bind fun repository => g (ref.name, repository) <;> rfl
  · have hlookup : ∀ p ∈ st.addResult [] ref.name, st.repositories.lookup p.1 = some p.2 :=
      lookup_of_mem_addResult (by simp) ref.name
    refine (findSome?_foldl_addResult g st.defaultRegistries hlookup).trans ?_
    rw [hname]
    cases (st.repositories.lookup ref.name).bind fun repository => g (ref.name, repository) <;> rfl

theorem visible_of_settled (h : c.Settled) : st.visible c = st.association c := if_pos h

theorem Consistent.ownNames (h : Consistent st) : st.OwnNames := fun n s id hid =>
  let ⟨r, hname, hstr, _⟩ := h.repositories n s id hid
  ⟨r, hname, hstr⟩

theorem OwnNames.addReference (h : st.OwnNames) : (st.addReference ref id force).2.OwnNames := by
  obtain he | ⟨he, -⟩ := st.addReference_cases ref id force
  · rwa [he]
  · rw [he]
    intro n s id' hid
    have hput : (st.repositories.put ref.name ref.string id).get n s = some id' := hid
    rw [NestedMap.get_put] at hput
    split at hput
    · next hns => exact ⟨ref, hns.1.symm, hns.2.symm⟩
    · exact h n s id' hput

theorem association_addReference_of_ne (h : r ≠ ref) :
    (st.addReference ref id force).2.association r = st.association r := by
  obtain he | ⟨he, -⟩ := st.addReference_cases ref id force
  · rw [he]
  · rw [he, association_associate, if_neg h]

theorem defaultRegistries_addReference :
    (st.addReference ref id force).2.defaultRegistries = st.defaultRegistries := by
  obtain he | ⟨he, -⟩ := st.addReference_cases ref id force
  · rw [he]
  · rw [he]
    rfl

theorem mem_repositories_addReference (h : n ∈ st.repositories) :
    n ∈ (st.addReference ref id force).2.repositories := by
  obtain he | ⟨he, -⟩ := st.addReference_cases ref id force
  · rwa [he]
  · rw [he]
    exact (AList.mem_insert st.repositories).2 (.inr h)

/-- The store after references that satisfy `P` were added to it. -/
abbrev Added (P : Named → Prop) : Store → Store → Prop :=
  Relation.ReflTransGen fun st st' => ∃ ref id force, P ref ∧ st' = (st.addReference ref id force).2

namespace Added

variable {P : Named → Prop}

section
variable (h : Added P st st')
include h

theorem ownNames (hst : st.OwnNames) : st'.OwnNames := by
  induction h with
  | refl => exact hst
  | tail _ hstep ih =>
    obtain ⟨ref, id, force, -, rfl⟩ := hstep
    exact ih.addReference

theorem defaultRegistries : st'.defaultRegistries = st.defaultRegistries := by
  induction h with
  | refl => rfl
  | tail _ hstep ih =>
    obtain ⟨ref, id, force, -, rfl⟩ := hstep
    rw [defaultRegistries_addReference, ih]

theorem association (hr : ¬ P r) : st'.association r = st.association r := by
  induction h with
  | refl => rfl
  | tail _ hstep ih =>
    obtain ⟨ref, id, force, hP, rfl⟩ := hstep
    have hne : r ≠ ref := fun he => hr (he ▸ hP)
    rw [association_addReference_of_ne hne, ih]

theorem mem_repositories (hn : n ∈ st.repositories) : n ∈ st'.repositories := by
  induction h with
  | refl => exact hn
  | tail _ hstep ih =>
    obtain ⟨ref, id, force, -, rfl⟩ := hstep
    exact mem_repositories_addReference ih

theorem candidates (ref : Named) : st'.candidates ref = st.candidates ref := by
  rw [Store.candidates, Store.candidates, h.defaultRegistries]

theorem visible (hr : ¬ P r) : st'.visible r = st.visible r := by
  rw [Store.visible, Store.visible, h.association hr]

end

theorem mono (hPQ : ∀ r, P r → Q r) (h : Added P st st') : Added Q st st' := by
  refine Relation.ReflTransGen.mono ?_ _ _ h
  rintro st₁ st₂ ⟨ref, id, force, hP, he⟩
  exact ⟨ref, id, force, hPQ ref hP, he⟩

theorem addReference (h : P ref) : Added P st (st.addReference ref id force).2 :=
  Relation.ReflTransGen.single ⟨ref, id, force, h, rfl⟩

theorem addTag (h : P (withDefaultTag ref)) : Added P st (st.addTag ref id force).2 := by
  unfold Store.addTag
  split
  · exact .refl
  · exact addReference h

end Added

theorem OwnNames.bind_substitute (h : st.OwnNames) (hkind : c.kind = ref.kind) :
    ((st.repositories.lookup c.name).bind fun repository =>
      match substituteReferenceName ref c.name with
      | .error _ => none
      | .ok tmpRef => (repository.lookup tmpRef.string).map fun id => (c.name, tmpRef.string, id)) =
    (st.visible c).map fun id => (c.name, c.string, id) := by
  by_cases hset : c.Settled
  · have hsub : substituteReferenceName ref c.name = .ok c :=
      substituteReferenceName_eq_ok.2 ⟨c.normalize_name_iff.2 hset, hkind⟩
    rw [hsub, visible_of_settled hset, association, NestedMap.get, map_bind]
    rfl
  · rw [visible, if_neg hset, map_none, bind_eq_none_iff]
    intro repository hrep
    split
    · rfl
    · next tmpRef htmp =>
      rw [map_eq_none_iff]
      by_contra hne
      obtain ⟨id, hid⟩ := ne_none_iff_exists'.1 hne
      obtain ⟨r, hr, hstr⟩ := h c.name _ id (NestedMap.get_eq_some.2 ⟨repository, hrep, hid⟩)
      obtain rfl := Named.string_inj hstr
      exact hset (c.normalize_name_iff.1 (hr ▸ (substituteReferenceName_eq_ok.1 htmp).1))

theorem findSome?_congr {l : List β} (h : ∀ b ∈ l, f b = g b) : l.findSome? f = l.findSome? g := by
  induction l with
  | nil => rfl
  | cons b l ih =>
    rw [findSome?_cons, findSome?_cons, h b mem_cons_self, ih fun b' hb' =>
      h b' (mem_cons_of_mem _ hb')]

theorem OwnNames.find_eq (h : st.OwnNames) :
    st.find ref = (st.candidates ref).findSome? fun c => (st.visible c).map fun id =>
      (c.name, c.string, id) := by
  rw [find, findSome?_getMatchingReferenceList]
  exact findSome?_congr fun c hc => h.bind_substitute (kind_of_mem_candidates hc)

/-- `Get` returns the association of the first candidate that has one. -/
theorem OwnNames.get_eq_ok (h : st.OwnNames) :
    st.get ref = .ok id ↔ (st.candidates (withDefaultTag ref)).findSome? st.visible = some id := by
  have hmap : ∀ l : List Named, (l.findSome? fun c => (st.visible c).map fun id =>
      (c.name, c.string, id)).map (fun p => p.2.2) =
      l.findSome? st.visible := by
    intro l
    rw [map_findSome?]
    refine findSome?_congr fun c _ => ?_
    rw [Function.comp_apply, Option.map_map]
    exact map_id_apply
  rw [get, ← hmap, ← h.find_eq]
  cases st.find (withDefaultTag ref) with
  | none => exact iff_of_false (by simp) (by simp)
  | some p => simp

/-! ## All references of a name -/

theorem head?_getMatchingReferenceList (st : Store) (ref : Named) :
    (st.getMatchingReferenceList ref).head? =
    (st.candidates ref).findSome? fun c => (st.repositories.lookup c.name).map fun repository =>
    (c.name, repository) := by
  have hhead : (st.getMatchingReferenceList ref).head? =
      (st.getMatchingReferenceList ref).findSome? some := by
    cases st.getMatchingReferenceList ref <;> rfl
  rw [hhead, findSome?_getMatchingReferenceList]
  refine findSome?_congr fun c _ => ?_
  rw [map_eq_bind]
  rfl

theorem exists_of_mem_mapM {f : α → Except ε β} {l : List α} (h : l.mapM f = .ok l')
    (hb : b ∈ l') : ∃ a ∈ l, f a = .ok b := by
  induction l generalizing l' with
  | nil =>
    cases h
    cases hb
  | cons a l ih =>
    rw [mapM_cons] at h
    cases hf : f a with
    | error e =>
      rw [hf] at h
      cases h
    | ok b' =>
      cases hl : l.mapM f with
      | error e =>
        rw [hf, hl] at h
        cases h
      | ok l'' =>
        rw [hf, hl] at h
        cases h
        rcases mem_cons.1 hb with rfl | hb
        · exact ⟨a, mem_cons_self, hf⟩
        · obtain ⟨a', ha', hfa⟩ := ih hl hb
          exact ⟨a', mem_cons_of_mem _ ha', hfa⟩

theorem of_mem_referencesByName (h : (b, id) ∈ st.referencesByName ref) :
    ∃ n repository s, (st.getMatchingReferenceList ref).head? = some (n, repository) ∧
      parseNamed s = .ok b ∧
      repository.lookup s = some id := by
  unfold referencesByName at h
  split at h
  · cases h
  · next n repository _ hlist =>
    split at h
    · cases h
    · next associations hparse =>
      rw [mem_insertionSort] at h
      obtain ⟨⟨s, id'⟩, hentry, hs⟩ := exists_of_mem_mapM hparse h
      cases hp : parseNamed s with
      | error e =>
        rw [hp] at hs
        cases hs
      | ok b' =>
        rw [hp] at hs
        cases hs
        exact ⟨n, repository, s, by rw [hlist]; rfl, hp, AList.mem_lookup_iff.2 hentry⟩

end

end Store

end Docker.Reference
