import Docker.Reference.Reload

/-!
# The store as a map

`AddTag` and `AddDigest` write the maps under the name of the reference. `Get` and `Delete` take the
name of each matching repository through `WithName` first, which changes the names below
`docker.io/library/`: their associations are never found.
-/

namespace Docker.Reference

open List Option

open Image (ID)

section
variable {ref r : Named}

/-- Normalizing the name leaves it as it is. -/
def Named.Settled (r : Named) : Prop := ¬ defaultHostname ++ '/' :: defaultRepoPrefix <+: r.name

instance (r : Named) : Decidable r.Settled := inferInstanceAs (Decidable (¬ _))

theorem Named.normalize_name_iff (r : Named) : normalize r.name = .ok r.name ↔ r.Settled :=
  normalize_eq_self_iff (isRepositoryName_iff.1 r.name_valid).2.2.1

theorem substituteReferenceName_of_withName (h : withName n = .ok base) :
    substituteReferenceName ref n =
    match ref.kind with
    | .tagged tag => withTag base tag
    | .canonical digest => withDigest base digest
    | .nameOnly => .ok base := by
  rw [substituteReferenceName, h]
  rfl

theorem substituteReferenceName_eq_ok :
    substituteReferenceName ref n = .ok r ↔ normalize n = .ok r.name ∧ r.kind = ref.kind := by
  cases hname : withName n with
  | error e =>
    refine iff_of_false (by simp [substituteReferenceName, hname, bind, Except.bind]) fun h => ?_
    have hok := (withName_eq_ok (r := { r with kind := .nameOnly, kind_valid := rfl })).2 ⟨h.1, rfl⟩
    cases hname.symm.trans hok
  | ok base =>
    obtain ⟨hbase, hkind⟩ := withName_eq_ok.1 hname
    rw [substituteReferenceName_of_withName hname, hbase, Except.ok.injEq]
    cases href : ref.kind with
    | nameOnly => simp [Named.ext_iff, hkind, eq_comm]
    | tagged tag => simp only [withTag_eq_ok, eq_comm (a := base.name)]
    | canonical digest => simp only [withDigest_eq_ok, eq_comm (a := base.name)]

theorem isReferenceFullyQualified_of_default (h : defaultHostname ++ ['/'] <+: r.name) :
    isReferenceFullyQualified r = true := by
  obtain ⟨rest, hrest⟩ := h
  obtain ⟨seg, segs, hsplit, hsegs, -⟩ := isName_cases (isRepositoryName_iff.1 r.name_valid).1
  obtain ⟨seg', segs', hrest'⟩ := exists_cons_of_ne_nil (splitOn_ne_nil '/' rest)
  have hcut : r.name.splitOn '/' = defaultHostname :: seg' :: segs' := by
    rw [← hrest, append_assoc, singleton_append, Filepath.splitOn_cons_slash,
      Filepath.splitOn_name (by decide), hrest', singleton_append]
  obtain ⟨rfl, rfl⟩ := List.cons.inj (hsplit.symm.trans hcut)
  have hhost : splitHostnameRegexp r.name =
      (defaultHostname, ['/'].intercalate (seg' :: segs')) := by
    have hall : (seg' :: segs').all isComponent = true := all_eq_true.2 hsegs
    rw [splitHostnameRegexp, hcut]
    simp only [hall]
    rfl
  simp only [isReferenceFullyQualified, splitReposName, hhost]
  rfl

end

namespace Store

section
variable {st : Store} {ref r : Named} {op : Op} {id : ID}

theorem prefix_addResult (result : List (Str × AList fun _ : Str => ID)) (name : Str) :
    result <+: st.addResult result name := by
  unfold addResult
  split
  · exact prefix_rfl
  · split
    · exact prefix_rfl
    · exact prefix_append ..

theorem prefix_getMatchingReferenceList (st : Store) (ref : Named) :
    st.addResult [] ref.name <+: st.getMatchingReferenceList ref := by
  unfold getMatchingReferenceList
  split
  · exact prefix_rfl
  · generalize st.addResult [] ref.name = result
    induction st.defaultRegistries generalizing result with
    | nil => exact prefix_rfl
    | cons indexName registries ih =>
      refine .trans ?_ (ih _)
      dsimp only
      split
      · exact prefix_rfl
      · exact prefix_addResult ..

theorem addResult_nil (h : st.repositories.lookup ref.name = some repository) :
    st.addResult [] ref.name = [(ref.name, repository)] := by
  simp [addResult, h]

theorem find_of_settled (hset : ref.Settled) (hid : st.association ref = some id) :
    st.find ref = some (ref.name, ref.string, id) := by
  obtain ⟨repository, hrep, hlookup⟩ := NestedMap.get_eq_some.1 hid
  obtain ⟨tail, htail⟩ := st.prefix_getMatchingReferenceList ref
  have hsub : substituteReferenceName ref ref.name = .ok ref :=
    substituteReferenceName_eq_ok.2 ⟨ref.normalize_name_iff.2 hset, rfl⟩
  rw [find, ← htail, addResult_nil hrep, singleton_append, findSome?_cons]
  simp only [hsub, hlookup]
  rfl

theorem Consistent.find_of_not_settled (h : Consistent st) (hset : ¬ ref.Settled) :
    st.find ref = none := by
  have hpre : defaultHostname ++ ['/'] <+: ref.name := by
    refine .trans ?_ (not_not.1 hset)
    decide
  rw [find, getMatchingReferenceList, if_pos (isReferenceFullyQualified_of_default hpre),
    findSome?_eq_none_iff]
  rintro ⟨name, repository⟩ hmem
  have hrep := lookup_of_mem_addResult (by simp) _ _ hmem
  have hname : name = ref.name := by
    revert hmem
    unfold addResult
    split <;> simp +contextual
  dsimp only at hrep ⊢
  split
  · rfl
  · next tmpRef htmp =>
    -- the repository has references with its own name only
    rw [map_eq_none_iff]
    by_contra hne
    obtain ⟨id, hid⟩ := ne_none_iff_exists'.1 hne
    obtain ⟨r, hr, hstr, -⟩ := h.repositories name _ id
      (NestedMap.get_eq_some.2 ⟨repository, hrep, hid⟩)
    obtain rfl := Named.string_inj hstr
    rw [hname] at hr htmp
    exact hset (ref.normalize_name_iff.1 (hr ▸ (substituteReferenceName_eq_ok.1 htmp).1))

structure Found (st : Store) (ref a : Named) (id : ID) : Prop where
  association : st.association a = some id
  settled : a.Settled
  kind : a.kind = ref.kind
  name : isReferenceFullyQualified ref = true → a.name = ref.name

theorem Consistent.found (h : Consistent st) (hfind : st.find ref = some (name, refStr, id)) :
    ∃ a : Named, name = a.name ∧ refStr = a.string ∧ Found st ref a id := by
  obtain ⟨a, rfl, rfl, ha⟩ := h.repositories name refStr id (get_of_find hfind)
  obtain ⟨⟨name, repository⟩, hmem, hsome⟩ := exists_of_findSome?_eq_some hfind
  dsimp only at hsome
  split at hsome
  · cases hsome
  · next tmpRef htmp =>
    obtain ⟨id', -, he⟩ := map_eq_some_iff.1 hsome
    obtain ⟨hname, hstr, -⟩ : name = a.name ∧ tmpRef.string = a.string ∧ id' = id := by
      simpa using he
    obtain rfl := Named.string_inj hstr
    obtain ⟨hnorm, hkind⟩ := substituteReferenceName_eq_ok.1 htmp
    refine ⟨tmpRef, rfl, rfl, ha, tmpRef.normalize_name_iff.1 (hname ▸ hnorm), hkind, fun hq => ?_⟩
    rw [getMatchingReferenceList, if_pos hq] at hmem
    rw [← hname]
    revert hmem
    unfold addResult
    split <;> simp +contextual

theorem Consistent.get_iff (h : Consistent st)
    (hid : st.association (withDefaultTag ref) = some id) :
    st.get ref = .ok id ↔ (withDefaultTag ref).Settled := by
  by_cases hset : (withDefaultTag ref).Settled
  · simp only [get, find_of_settled hset hid, hset]
  · simp [get, h.find_of_not_settled hset, hset]

/-! ## Calls on other references -/

def result (st : Store) : Op → Except StoreError Unit
  | .addTag ref id force => (st.addTag ref id force).1
  | .addDigest ref id force => (st.addDigest ref id force).1
  | .delete ref => (st.delete ref).1

/-- A forced `AddTag` of the reference, or a `Delete` that finds its association. -/
def Affects (st : Store) (ref : Named) : Op → Prop
  | .addTag r _ force => force = true ∧ withDefaultTag r = ref
  | .addDigest _ _ _ => False
  | .delete r =>
    (st.find (withDefaultTag r)).map (fun found => (found.1, found.2.1)) =
      some (ref.name, ref.string)

instance (st : Store) (ref : Named) : DecidablePred (st.Affects ref)
  | .addTag _ _ _ => inferInstanceAs (Decidable (_ ∧ _))
  | .addDigest _ _ _ => inferInstanceAs (Decidable False)
  | .delete _ => inferInstanceAs (Decidable (_ = _))

def Adds (ref : Named) (id : ID) : Op → Prop
  | .addTag r id' _ => r = ref ∧ id' = id
  | .addDigest r id' _ => r = ref ∧ id' = id
  | .delete _ => False

theorem withDefaultTag_of_isCanonical (h : ref.isCanonical = true) : withDefaultTag ref = ref := by
  rw [withDefaultTag, if_neg]
  intro hname
  rw [Named.isNameOnly, beq_iff_eq] at hname
  simp [Named.isCanonical, hname] at h

theorem association_addReference (h : (st.addReference ref id force).1 = .ok ()) :
    (st.addReference ref id force).2.association ref = some id := by
  have hsha : ref.name ≠ "sha256".toList := by
    intro hsha
    rw [addReference, if_pos hsha] at h
    cases h
  cases hold : st.association ref with
  | none => rw [addReference_of_none hsha hold, association_associate, if_pos rfl]
  | some oldID =>
    rw [addReference_of_some hsha hold] at h ⊢
    split at h
    · cases h
    · next hcan =>
      rw [if_neg hcan]
      split at h
      · next hforce => rw [if_pos hforce, association_associate, if_pos rfl]
      · cases h

theorem association_of_adds (hop : Adds ref id op) (hok : st.result op = .ok ()) :
    (st.exec op).association (withDefaultTag ref) = some id := by
  cases op with
  | addTag r id' force =>
    obtain ⟨rfl, rfl⟩ := hop
    simp only [result, exec, addTag] at hok ⊢
    split at hok
    · cases hok
    · next hcan =>
      rw [if_neg hcan]
      exact association_addReference hok
  | addDigest r id' force =>
    obtain ⟨rfl, rfl⟩ := hop
    rw [withDefaultTag_of_isCanonical r.2]
    exact association_addReference hok
  | delete r => exact hop.elim

theorem association_addReference_of_some (hid : st.association r = some id)
    (h : r = ref → r.isCanonical = true ∨ force = false) :
    (st.addReference ref id' force).2.association r = some id := by
  by_cases hr : r = ref
  · have hsame : (st.addReference ref id' force).2 = st := by
      by_cases hsha : ref.name = "sha256".toList
      · rw [addReference, if_pos hsha]
      · subst hr
        rw [addReference_of_some hsha hid]
        obtain hcan | hforce := h rfl
        · rw [if_pos hcan]
        · split
          · rfl
          · rw [hforce, if_neg Bool.false_ne_true]
    rw [hsame, hid]
  · obtain he | ⟨he, -⟩ := st.addReference_cases ref id' force
    · rw [he, hid]
    · rw [he, association_associate, if_neg hr, hid]

/-- A call that does not affect an association leaves it as it is. -/
theorem Consistent.association_exec_of_not_affects (h : Consistent st)
    (hid : st.association r = some id)
    (hop : ¬ st.Affects r op) : (st.exec op).association r = some id := by
  cases op with
  | addTag ref id' force =>
    simp only [Store.exec, addTag]
    split
    · exact hid
    · refine association_addReference_of_some hid fun hr => .inr ?_
      exact Bool.eq_false_iff.2 fun hforce => hop ⟨hforce, hr.symm⟩
  | addDigest ref id' force =>
    exact association_addReference_of_some hid fun hr => .inl (hr ▸ ref.2)
  | delete ref =>
    simp only [Store.exec, delete]
    split
    · next name refStr id' hfind =>
      obtain ⟨r', rfl, rfl, hr'⟩ := h.repositories name refStr id' (get_of_find hfind)
      change (st.dissociate r' id').association r = some id
      rw [association_dissociate, if_neg, hid]
      rintro rfl
      exact hop (by rw [Affects, hfind]; rfl)
    · exact hid

theorem Consistent.association_run (h : Consistent st) (hid : st.association r = some id)
    (hops : ∀ pre op post, ops = pre ++ op :: post → ¬ (st.run pre).Affects r op) :
    (st.run ops).association r = some id := by
  induction ops generalizing st with
  | nil => exact hid
  | cons op ops ih =>
    refine ih (h.exec op) (h.association_exec_of_not_affects hid (hops [] op ops rfl))
      fun pre op' post he => ?_
    exact hops (op :: pre) op' post (congrArg _ he)

end

/-! ## References with a tag or a digest -/

/-- The maps agree, and every reference in them has a tag or a digest. -/
structure Proper (st : Store) : Prop extends Consistent st where
  tagged : ∀ r id, st.association r = some id → withDefaultTag r = r

namespace Proper

variable {st : Store} {id : ID}

theorem empty (registries : List Str) : Proper { defaultRegistries := registries } where
  toConsistent := .empty registries
  tagged r id h := by cases h

theorem dissociate (h : Proper st) (hr : st.association r = some id) :
    Proper (st.dissociate r id) where
  toConsistent := h.toConsistent.dissociate hr
  tagged r' id' h' := by
    rw [association_dissociate] at h'
    split at h'
    · cases h'
    · exact h.tagged r' id' h'

theorem withDefaultTag_idem (r : Named) : withDefaultTag (withDefaultTag r) = withDefaultTag r := by
  have hnot : (withDefaultTag r).isNameOnly = false := by
    unfold withDefaultTag
    split
    · rfl
    · next h => exact Bool.eq_false_iff.2 h
  generalize withDefaultTag r = r' at hnot ⊢
  rw [withDefaultTag, hnot, if_neg Bool.false_ne_true]

theorem exec (h : Proper st) (op : Op) : Proper (st.exec op) where
  toConsistent := h.toConsistent.exec op
  tagged r id hr := by
    have heff := h.effect op
    generalize st.exec op = st' at heff hr
    cases heff with
    | same => exact h.tagged r id hr
    | addTag =>
      rw [association_associate] at hr
      split at hr
      · next he => exact he ▸ withDefaultTag_idem _
      · exact h.tagged r id hr
    | @addDigest ref _ _ =>
      rw [association_associate] at hr
      split at hr
      · next he => exact he ▸ withDefaultTag_of_isCanonical ref.2
      · exact h.tagged r id hr
    | delete =>
      rw [association_dissociate] at hr
      split at hr
      · cases hr
      · exact h.tagged r id hr

theorem run (h : Proper st) (ops : List Op) : Proper (st.run ops) := by
  induction ops generalizing st with
  | nil => exact h
  | cons op ops ih => exact ih (h.exec op)

end Proper

/-- Until a call affects the association of a reference that was added, `Get` returns the image if
and only if the name is not below `docker.io/library/`. -/
theorem get_of_adds (registries : List Str) (before : List Op) (op : Op) (ref : Named) (id : ID)
    (hop : Adds ref id op)
    (hok : (run { defaultRegistries := registries } before).result op = .ok ())
    (after : List Op)
    (hafter : ∀ pre op' post, after = pre ++ op' :: post →
      ¬ (run { defaultRegistries := registries } (before ++ op :: pre)).Affects
        (withDefaultTag ref) op') :
    (run { defaultRegistries := registries } (before ++ op :: after)).get ref = .ok id ↔
      ref.Settled := by
  have h := (Consistent.empty registries).run before
  have hname : (withDefaultTag ref).Settled ↔ ref.Settled := by
    rw [Named.Settled, Named.Settled, withDefaultTag]
    split <;> rfl
  simp only [run_append, run_cons] at hafter ⊢
  have hid := (h.exec op).association_run (association_of_adds hop hok) hafter
  rw [((h.exec op).run after).get_iff hid, hname]

def dockerFoo : Named where
  name := "docker.io/foo".toList
  kind := .tagged defaultTag
  name_valid := by decide
  kind_valid := fooLatest.kind_valid

/-- The image of `foo` is found while `docker.io/foo` comes and goes. -/
theorem get_of_adds_foo : (run { defaultRegistries := ["docker.io".toList] }
      [.addTag fooLatest "sha256:1" false, .addTag dockerFoo "sha256:2" true,
        .delete dockerFoo]).get fooLatest =
        .ok "sha256:1" := by
  refine (get_of_adds ["docker.io".toList] []
    (.addTag fooLatest "sha256:1" false) fooLatest "sha256:1" ⟨rfl, rfl⟩
    rfl [.addTag dockerFoo "sha256:2" true, .delete dockerFoo] ?_).2 (by decide)
  rintro (_ | ⟨_, _ | ⟨_, _ | ⟨_, _⟩⟩⟩) op post he <;> cases he
  all_goals decide +kernel

/-- A reference for `docker.io/library/library/foo:latest` was added and is not found. -/
theorem get_added_doesNotExist : parseNamed "docker.io/library/library/foo:latest".toList =
    .ok libraryFoo ∧
    (({ defaultRegistries := [] } : Store).addTag libraryFoo "sha256:1" false).1 = .ok () ∧
    (run { defaultRegistries := [] } [.addTag libraryFoo "sha256:1" false]).get libraryFoo =
      .error .doesNotExist := by
  decide +kernel

end Store

end Docker.Reference
