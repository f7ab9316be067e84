import Docker.Daemon.Untag
import Docker.Reference.Matching

/-!
# Conflicts

`imageDeleteHelper` with `quiet` never returns a conflict: a conflict that is not with a container
is with a child or a reference of the image, and then the image is not dangling. A call for an id
checks for references once more after it has removed them all, which finds none as long as the maps
of the reference store agree.
-/

namespace Docker

open Reference.Store NestedMap List Option Prod Bool
open Image (ID Codec)
open Layer (ChainID)
open Reference (Str Named withDefaultTag)

/-! ## What is found one after the other -/

theorem findSome?_dedup [DecidableEq α] (g : α → Option β) (l : List α) :
    l.dedup.reverse.findSome? g = l.reverse.findSome? g := by
  induction l with
  | nil => rfl
  | cons a l ih =>
    rw [reverse_cons, findSome?_append, ← ih]
    by_cases ha : a ∈ l
    · rw [dedup_cons_of_mem ha]
      cases hg : g a with
      | none => simp [hg]
      | some b =>
        have hsome : (l.dedup.reverse.findSome? g).isSome = true :=
          findSome?_isSome_iff.2 ⟨a, mem_reverse.2 (mem_dedup.2 ha), by rw [hg]; rfl⟩
        rw [or_of_isSome hsome]
    · rw [dedup_cons_of_notMem ha, reverse_cons, findSome?_append]

namespace Reference.Store

/-- The entry of the repository for the reference. -/
def entryAt (st : Store) (ref : Named) (name : Str) : Option (Str × Str × ID) :=
  match substituteReferenceName ref name with
  | .error _ => none
  | .ok tmpRef => (st.repositories.get name tmpRef.string).map fun id => (name, tmpRef.string, id)

/-- The entries that `Delete` finds for the reference, if it is called again and again. -/
def found (st : Store) (ref : Named) : List (Str × Str × ID) :=
  ((st.candidates ref).map Named.name).reverse.dedup.reverse.filterMap (st.entryAt ref)

section
variable {st st' : Store} {f : Str × Str × ID} {fs : List (Str × Str × ID)} {id : ID}

theorem find_eq_head? : st.find ref = (st.found ref).head? := by
  rw [found, head?_filterMap, findSome?_dedup, reverse_reverse, findSome?_map, find,
    findSome?_getMatchingReferenceList]
  refine findSome?_congr fun c _ => ?_
  rw [Function.comp_apply, entryAt]
  dsimp only
  cases substituteReferenceName ref c.name with
  | error e => exact Option.bind_fun_none _
  | ok tmpRef => exact Option.map_bind.symm

theorem entryAt_eq_some (h : st.entryAt ref n = some f) : f.1 = n ∧ ∃ r :
    Named, r.kind = ref.kind ∧ f.2.1 = r.string := by
  unfold entryAt at h
  split at h
  · cases h
  · next r hr =>
    obtain ⟨id, -, rfl⟩ := map_eq_some_iff.1 h
    exact ⟨rfl, r, (substituteReferenceName_eq_ok.1 hr).2, rfl⟩

section
variable (hregistries : st'.defaultRegistries = st.defaultRegistries)
  (hremove : st'.repositories = st.repositories.remove n s)
include hregistries hremove

theorem found_remove : st'.found ref = (st.found ref).filter fun f => ¬ (f.1 = n ∧ f.2.1 = s) := by
  rw [found, found, candidates, candidates, hregistries, filter_filterMap]
  refine filterMap_congr fun name _ => ?_
  unfold entryAt
  split
  · rfl
  · next r hr =>
    rw [hremove, get_remove]
    cases st.repositories.get name r.string with
    | none => split <;> rfl
    | some id =>
      by_cases he : name = n ∧ r.string = s
      · rw [if_pos he, map_none, map_some, filter_some, if_neg (by simpa using he)]
      · rw [if_neg he, map_some, filter_some, if_pos (decide_eq_true he)]

theorem found_tail (h : st.found ref = (n, s, id) :: fs) : st'.found ref = fs := by
  have hnodup : (st.found ref).Pairwise fun f f' => f.1 ≠ f'.1 := by
    refine pairwise_filterMap.2 ((nodup_reverse.2 (nodup_dedup _)).imp fun hne f hf f' hf' => ?_)
    rwa [(entryAt_eq_some hf).1, (entryAt_eq_some hf').1]
  rw [h, pairwise_cons] at hnodup
  rw [found_remove hregistries hremove, h, filter_cons_of_neg (by simp)]
  exact filter_eq_self.2 fun f' hf' => decide_eq_true fun he => hnodup.1 f' hf' he.1.symm

theorem found_of_kind_ne (hf : (n, s, id) ∈ st.found ref) (hkind : ref'.kind ≠ ref.kind) :
    st'.found ref' = st.found ref' := by
  rw [found_remove hregistries hremove]
  refine filter_eq_self.2 fun f' hf' => decide_eq_true fun he => ?_
  obtain ⟨_, -, hf⟩ := mem_filterMap.1 hf
  obtain ⟨_, -, hf'⟩ := mem_filterMap.1 hf'
  obtain ⟨-, r, hr, htext⟩ := entryAt_eq_some hf
  obtain ⟨-, r', hr', htext'⟩ := entryAt_eq_some hf'
  have hsame : r' = r := Named.string_inj (htext'.symm.trans (he.2.trans htext))
  exact hkind (hr'.symm.trans ((congrArg Named.kind hsame).trans hr))

end

end

end Reference.Store

namespace Daemon

variable {cd : Codec} {release : ID → Except String (List ChainID)} {d : Daemon} {imgID : ID}
  {c : ImageDeleteConflict} {records : List Record} {force prune quiet : Bool} {e : Error}
  {st : Reference.Store} {imageRef : Str}

/-! ## Checking -/

inductive Conflicts (d : Daemon) (imgID : ID) (mask : ConflictType) : Bool → Prop where
  | child (hmask : mask &&& conflictDependentChild ≠ 0) (h : d.imageStore.children imgID ≠ ∅) :
    Conflicts d imgID mask false
  | running (hmask : mask &&& conflictRunningContainer ≠ 0)
      (h : ∃ x ∈ d.containers, x.running = true ∧ x.imageID = imgID) : Conflicts d imgID mask true
  | reference (hmask : mask &&& conflictActiveReference ≠ 0)
    (h : d.referenceStore.references imgID ≠ []) :
      Conflicts d imgID mask false
  | stopped (hmask : mask &&& conflictStoppedContainer ≠ 0)
      (h : ∃ x ∈ d.containers, x.running = false ∧ x.imageID = imgID) : Conflicts d imgID mask true

theorem conflicts_of_check (h : d.checkImageDeleteConflict imgID mask = some c) :
    Conflicts d imgID mask c.used := by
  unfold checkImageDeleteConflict at h
  split at h
  · next hchild =>
    cases h
    exact .child hchild.1 hchild.2
  · dsimp only at h
    split at h
    · next x hx =>
      cases h
      split at hx
      · next hmask =>
        have hp := List.find?_some hx
        rw [and_eq_true, decide_eq_true_eq] at hp
        exact .running hmask ⟨x, mem_of_find?_eq_some hx, hp⟩
      · cases hx
    · split at h
      · next href =>
        cases h
        exact .reference href.1 href.2
      · obtain ⟨x, hx, rfl⟩ := map_eq_some_iff.1 h
        split at hx
        · next hmask =>
          have hp := List.find?_some hx
          rw [and_eq_true, decide_eq_true_eq, not_eq_true'] at hp
          exact .stopped hmask ⟨x, mem_of_find?_eq_some hx, hp⟩
        · cases hx

theorem check_ne_none (h : Conflicts d imgID mask used) :
    d.checkImageDeleteConflict imgID mask ≠ none := by
  intro hnone
  unfold checkImageDeleteConflict at hnone
  split at hnone
  · cases hnone
  · next hchild =>
    dsimp only at hnone
    split at hnone
    · cases hnone
    · next hrun =>
      split at hnone
      · cases hnone
      · next href =>
        cases h with
        | child hmask h => exact hchild ⟨hmask, h⟩
        | running hmask h =>
          obtain ⟨x, hx, hp⟩ := h
          rw [if_pos hmask, List.find?_eq_none] at hrun
          exact hrun x hx (by simp [hp])
        | reference hmask h => exact href ⟨hmask, h⟩
        | stopped hmask h =>
          obtain ⟨x, hx, hp⟩ := h
          rw [if_pos hmask, map_eq_none_iff, List.find?_eq_none] at hnone
          exact hnone x hx (by simp [hp])

/-- A conflict that is not with a container is one the quiet mode passes over. -/
theorem Conflicts.not_dangling (h : Conflicts d imgID mask used) (hused : used = false) :
    d.imageIsDangling imgID = false := by
  cases h with
  | child _ h | reference _ h => simp [imageIsDangling, h]
  | running => cases hused
  | stopped => cases hused

/-! ## The errors of the parts -/

theorem isConflict_cleanDigests
    (h : (cleanDigests parsedRef refs records remainingRefs st).1 = .error err) :
    err.2.isConflict = false := by
  induction refs generalizing records remainingRefs st with
  | nil => cases h
  | cons ref refs ih =>
    obtain ⟨e, -, he⟩ | ⟨-, he⟩ | ⟨-, he⟩ :=
      cleanDigests_cons parsedRef ref refs records remainingRefs st <;> rw [he] at h
    · cases h
      rfl
    · split at h
      · cases h
        rfl
      · exact ih h
    · exact ih h

theorem isConflict_deleteImage (h : (deleteImage cd release d imgID).1 = .error e) :
    e.isConflict = false := by
  unfold deleteImage at h
  split at h
  · cases h
    rfl
  · revert h
    cases release imgID <;> simp [Except.mapError]
    rintro rfl
    rfl

/-- Only the first check of `imageDeleteHelper` returns a conflict, and not in quiet mode. -/
theorem imageDeleteHelper_conflict
    (h : (imageDeleteHelper cd release d imgID records force prune quiet).1 = some e)
    (he : e.isConflict = true) :
    quiet = false ∧ (imageDeleteHelper cd release d imgID records force prune quiet).2.2 = d ∧
      ∃ used, Conflicts d imgID (helperMask force) used := by
  fun_induction imageDeleteHelper cd release d imgID records force prune quiet with
  | case1 => cases h
  | case2 d imgID records force prune quiet c hc hquiet =>
    have hconf := conflicts_of_check hc
    refine ⟨eq_false_iff.2 fun hq => hquiet ?_, rfl, _, hconf⟩
    cases hused : c.used with
    | true => simp [hq]
    | false => simp [hq, hconf.not_dangling hused]
  | case3 =>
    cases h
    cases he
  | case4 _ _ _ _ _ _ _ _ _ _ e' d' hdel =>
    cases h
    rw [isConflict_deleteImage (by rw [hdel])] at he
    cases he
  | case5 => cases h
  | case6 _ _ _ _ _ _ _ _ _ _ _ _ _ _ _ _ _ ih => cases (ih h).1

theorem finishUntag_cases (records : List Record) (repoRefs : List Named) :
    finishUntag records repoRefs = .returned records none ∨ finishUntag records repoRefs =
      .helper records true := by
  unfold finishUntag
  split
  · exact .inl rfl
  · exact .inr rfl

theorem isConflict_cleanUp (h : (cleanUp imgID parsedRef st).1 = .returned records (some e)) :
    e.isConflict = false := by
  have hfinish : ∀ (records' : List Record) (refs : List Named),
      finishUntag records' refs ≠ .returned records (some e) := by
    intro records' refs hfin
    obtain he | he := finishUntag_cases records' refs <;> cases he.symm.trans hfin
  unfold cleanUp at h
  dsimp only at h
  split at h
  · exact absurd h (hfinish _ _)
  · split at h
    · next hclean =>
      cases h
      exact isConflict_cleanDigests (congrArg fst hclean)
    · exact absurd h (hfinish _ _)

/-- A conflict that the first part of a call returns comes before it removes a reference. -/
theorem untag_conflict (h : d.untag imgID imageRef force = (.returned records (some e), st))
    (he : e.isConflict = true) : st = d.referenceStore := by
  unfold untag at h
  split at h
  · unfold untagReference at h
    dsimp only at h
    split at h
    · exact (Prod.mk.inj h).2.symm
    · split at h
      · exact (Prod.mk.inj h).2.symm
      · split at h
        · cases h
          cases he
        · rw [isConflict_cleanUp (congrArg fst h)] at he
          cases he
  · unfold untagImage at h
    dsimp only at h
    split at h
    · split at h
      · exact (Prod.mk.inj h).2.symm
      · split at h
        · cases h
          cases he
        · cases h
    · cases h

/-- The mask `untagImage` checks with. -/
def untagMask (force : Bool) : ConflictType :=
  if force then conflictHard else conflictHard ||| (conflictSoft &&& ~~~conflictActiveReference)

/-- `imageDeleteHelper` reports conflicts for an id only: with the references as they were, or after
all were removed. -/
theorem untag_helper (h : d.untag imgID imageRef force = (.helper records false, st)) :
    st = d.referenceStore ∨ isImageIDPrefix imgID imageRef = true ∧
      isSingleReference (d.referenceStore.references imgID) = true ∧
      d.checkImageDeleteConflict imgID (untagMask force) = none ∧
      untagAll (d.referenceStore.references imgID) [] d.referenceStore = (none, records, st) := by
  have hfinish : ∀ (records' : List Record) (refs : List Named),
      finishUntag records' refs ≠ .helper records false := by
    intro records' refs hfin
    obtain he | he := finishUntag_cases records' refs <;> cases he.symm.trans hfin
  unfold untag at h
  split at h
  · unfold untagReference at h
    dsimp only at h
    split at h
    · cases h
    · split at h
      · cases h
      · split at h
        · cases h
        · unfold cleanUp at h
          dsimp only at h
          split at h
          · exact absurd (congrArg fst h) (hfinish _ _)
          · split at h
            · cases h
            · exact absurd (congrArg fst h) (hfinish _ _)
  · next hid =>
    unfold untagImage at h
    dsimp only at h
    split at h
    · next hsingle =>
      split at h
      · cases h
      · next hcheck =>
        split at h
        · cases h
        · next hall =>
          cases h
          exact .inr ⟨by simpa using hid, hsingle, hcheck, hall⟩
    · exact .inl (Prod.mk.inj h).2.symm

/-! ## Conflicts after references were removed -/

section
variable {refs : List Named}

/-- With the first entry that is found for `r`, a reference that is listed again is found in what is
left. -/
theorem found_remove_cons (refs : List Named) {st st₁ : Reference.Store} {r r' : Named}
    (hregistries : st₁.defaultRegistries = st.defaultRegistries)
    (hrepositories : st₁.repositories = st.repositories.remove f.1 f.2.1)
    (hfound : st.found (withDefaultTag r) = f :: fs)
    (hkind : r' ≠ r → (withDefaultTag r').kind ≠ (withDefaultTag r).kind) :
    ((r :: refs).count r' ≤ (st.found (withDefaultTag r')).length ↔
      refs.count r' ≤ (st₁.found (withDefaultTag r')).length) ∧
    (st.found (withDefaultTag r')).take ((r :: refs).count r') =
      (if r' = r then [f] else []) ++ (st₁.found (withDefaultTag r')).take (refs.count r') := by
  by_cases he : r' = r
  · subst he
    rw [count_cons_self, hfound, found_tail hregistries hrepositories hfound, length_cons,
      Nat.add_le_add_iff_right, take_succ_cons, if_pos rfl]
    exact ⟨Iff.rfl, rfl⟩
  · rw [count_cons_of_ne (Ne.symm he), if_neg he,
      found_of_kind_ne hregistries hrepositories (hfound ▸ mem_cons_self) (hkind he)]
    exact ⟨Iff.rfl, rfl⟩

/-- A reference is deleted if there is something to be found for it as often as it is listed, and
what is found is no longer in the cache. -/
theorem untagAll_found (records : List Record) (st : Reference.Store)
    (hkinds : ∀ r ∈ refs, ∀ r' ∈ refs, r' ≠ r →
      (withDefaultTag r').kind ≠ (withDefaultTag r).kind) :
    ((untagAll refs records st).1 = none ↔ ∀ r ∈ refs,
      refs.count r ≤ (st.found (withDefaultTag r)).length) ∧
    ((untagAll refs records st).1 = none → ∀ id s,
      (untagAll refs records st).2.2.referencesByIDCache.get id s = none ↔
      st.referencesByIDCache.get id s = none ∨
        ∃ r ∈ refs, ∃ f ∈ (st.found (withDefaultTag r)).take (refs.count r), f.2 = (s, id)) := by
  induction refs generalizing records st with
  | nil => simp [untagAll]
  | cons r refs ih =>
    have hkinds' := fun r₁ h₁ r₂ h₂ => hkinds r₁ (mem_cons_of_mem _ h₁) r₂ (mem_cons_of_mem _ h₂)
    rw [untagAll_cons, removeImageRef, delete, Reference.Store.Proper.withDefaultTag_idem,
      find_eq_head?]
    cases hfound : st.found (withDefaultTag r) with
    | nil =>
      refine ⟨iff_of_false (some_ne_none _) fun h => ?_, fun h => absurd h (some_ne_none _)⟩
      have hcount := h r mem_cons_self
      rw [hfound, count_cons_self] at hcount
      exact Nat.not_succ_le_zero _ hcount
    | cons f fs =>
      obtain ⟨n, s₀, id₀⟩ := f
      dsimp only [head?_cons]
      generalize hst : Reference.Store.save _ = st₁
      have hremoved : ∀ id s, st₁.referencesByIDCache.get id s = if id = id₀ ∧ s = s₀ then none
          else st.referencesByIDCache.get id s := by
        intro id s
        rw [← hst]
        exact get_remove
      obtain ⟨hnone, hcache⟩ := ih (records ++ [.untagged (withDefaultTag r).string]) st₁ hkinds'
      have hregistries : st₁.defaultRegistries = st.defaultRegistries := by rw [← hst]; rfl
      have hcount := fun r' hr' => found_remove_cons refs hregistries (by rw [← hst]; rfl) hfound
        (hkinds r mem_cons_self r' hr')
      constructor
      · refine hnone.trans ⟨fun h r' hr' => (hcount r' hr').1.2 ?_,
          fun h r' hr' => (hcount r' (mem_cons_of_mem _ hr')).1.1 (h r' (mem_cons_of_mem _ hr'))⟩
        by_cases hmem : r' ∈ refs
        · exact h r' hmem
        · exact count_eq_zero.2 hmem ▸ Nat.zero_le _
      · intro hall id s
        refine (hcache hall id s).trans ?_
        rw [hremoved]
        by_cases he : id = id₀ ∧ s = s₀
        · obtain ⟨rfl, rfl⟩ := he
          refine iff_of_true (.inl (if_pos ⟨rfl, rfl⟩))
            (.inr ⟨r, mem_cons_self, (n, s, id), ?_, rfl⟩)
          rw [(hcount r mem_cons_self).2, if_pos rfl]
          exact mem_cons_self
        · rw [if_neg he]
          refine or_congr_right ⟨?_, ?_⟩
          · rintro ⟨r', hr', f, hf, hs⟩
            refine ⟨r', mem_cons_of_mem _ hr', f, ?_, hs⟩
            rw [(hcount r' (mem_cons_of_mem _ hr')).2]
            exact mem_append_right _ hf
          · rintro ⟨r', hr', f, hf, hs⟩
            rw [(hcount r' hr').2, mem_append] at hf
            rcases hf with hf | hf
            · split at hf
              · cases mem_singleton.1 hf
                cases hs
                exact absurd ⟨rfl, rfl⟩ he
              · cases hf
            · refine ⟨r', count_pos_iff.1 (Nat.pos_of_ne_zero fun h0 => ?_), f, hf, hs⟩
              rw [h0] at hf
              cases hf

end

theorem kind_ne_of_isSingleReference (h : isSingleReference refs = true) :
    ∀ r ∈ refs, ∀ r' ∈ refs, r' ≠ r → (withDefaultTag r').kind ≠ (withDefaultTag r).kind := by
  intro r hr r' hr' hne hkind
  have hsame : r'.isCanonical = r.isCanonical := by
    rw [← isCanonical_withDefaultTag r', ← isCanonical_withDefaultTag r, Named.isCanonical, hkind,
      Named.isCanonical]
  unfold isSingleReference at h
  split at h
  · cases h
  · exact hne ((mem_singleton.1 hr').trans (mem_singleton.1 hr).symm)
  · next first rest hnot =>
    generalize first :: rest = refs at hr hr' h
    cases hcanonical : r.isCanonical with
    | true =>
      have hmem : ∀ x ∈ refs, x.isCanonical = true →
          x.name ∈ ((refs.filter Named.isCanonical).map Named.name).dedup :=
        fun x hx hc => mem_dedup.2 (mem_map_of_mem (mem_filter.2 ⟨hx, hc⟩))
      have hone : ∃ n, ((refs.filter Named.isCanonical).map Named.name).dedup = [n] := by
        dsimp only at h
        split at h
        · exact ⟨_, by simpa using h⟩
        · exact ⟨_, by simpa using h⟩
        · cases h
      obtain ⟨n, hn⟩ := hone
      rw [hn] at hmem
      have hnames := (mem_singleton.1 (hmem r' hr' (hsame.trans hcanonical))).trans
        (mem_singleton.1 (hmem r hr hcanonical)).symm
      rw [withDefaultTag_of_isCanonical hcanonical,
        withDefaultTag_of_isCanonical (hsame.trans hcanonical)] at hkind
      exact hne (Named.ext hnames hkind)
    | false =>
      have hmem : ∀ x ∈ refs, x.isCanonical = false → x ∈ refs.filter fun x => !x.isCanonical :=
        fun x hx hc => mem_filter.2 ⟨hx, by rw [hc]; rfl⟩
      have hr := hmem r hr hcanonical
      have hr' := hmem r' hr' (hsame.trans hcanonical)
      dsimp only at h
      split at h
      · next he =>
        rw [he] at hr
        cases hr
      · next he =>
        rw [he] at hr hr'
        exact hne ((mem_singleton.1 hr').trans (mem_singleton.1 hr).symm)
      · cases h

theorem references_ne_nil {st : Reference.Store} :
    st.references imgID ≠ [] ↔ ∃ s, st.referencesByIDCache.get imgID s ≠ none := by
  rw [references, ← length_pos_iff, length_insertionSort, length_map, length_pos_iff]
  unfold NestedMap.get
  cases st.referencesByIDCache.lookup imgID with
  | none => simp
  | some inner =>
    constructor
    · intro hne
      obtain ⟨⟨s, r⟩, hmem⟩ := exists_mem_of_ne_nil _ hne
      exact ⟨s, ne_none_iff_exists'.2 ⟨r, AList.mem_lookup_iff.2 hmem⟩⟩
    · rintro ⟨s, hs⟩
      obtain ⟨r, hr⟩ := ne_none_iff_exists'.1 hs
      exact ne_nil_of_mem (AList.mem_lookup_iff.1 hr)

/-- For an id, every reference of the image is found as often as it is listed for it, and the image
has an entry in the cache that is not among what is found. -/
structure LateConflict (cd : Codec) (d : Daemon) (imageRef : Str) (force : Bool) (imgID : ID) :
    Prop where
  unforced : force = false
  getImageID : d.getImageID cd imageRef = .ok imgID
  id : isImageIDPrefix imgID imageRef = true
  single : isSingleReference (d.referenceStore.references imgID) = true
  check : d.checkImageDeleteConflict imgID (untagMask force) = none
  found : ∀ r ∈ d.referenceStore.references imgID,
    (d.referenceStore.references imgID).count r ≤ (d.referenceStore.found (withDefaultTag r)).length
  kept : ∃ s, d.referenceStore.referencesByIDCache.get imgID s ≠ none ∧
    ∀ r ∈ d.referenceStore.references imgID,
    ∀ f ∈ (d.referenceStore.found (withDefaultTag r)).take
      ((d.referenceStore.references imgID).count r), f.2 ≠ (s, imgID)

/-- All references of the image are deleted, and it still has one. -/
theorem exists_untagAll_iff {st : Reference.Store}
    (hsingle : isSingleReference (st.references imgID) = true) :
    (∃ records st', untagAll (st.references imgID) [] st = (none, records, st') ∧
      st'.references imgID ≠ []) ↔
      (∀ r ∈ st.references imgID, (st.references imgID).count r ≤
        (st.found (withDefaultTag r)).length) ∧
      ∃ s, st.referencesByIDCache.get imgID s ≠ none ∧ ∀ r ∈ st.references imgID,
        ∀ f ∈ (st.found (withDefaultTag r)).take ((st.references imgID).count r),
          f.2 ≠ (s, imgID) := by
  obtain ⟨hnone, hcache⟩ := untagAll_found [] st (kind_ne_of_isSingleReference hsingle)
  constructor
  · rintro ⟨records, st', hall, hrefs⟩
    rw [hall] at hnone hcache
    obtain ⟨s, hs⟩ := references_ne_nil.1 hrefs
    have hs := (hcache rfl imgID s).not.1 hs
    refine ⟨hnone.1 rfl, s, fun h => hs (.inl h), fun r hr f hf he => hs (.inr ⟨r, hr, f, hf, he⟩)⟩
  · rintro ⟨hfound, s, hs, hkept⟩
    have hall := hnone.2 hfound
    refine ⟨_, _, Prod.ext hall rfl, references_ne_nil.2 ⟨s, (hcache hall imgID s).not.2 ?_⟩⟩
    rintro (h | ⟨r, hr, f, hf, he⟩)
    · exact hs h
    · exact hkept r hr f hf he

theorem references_of_conflicts (hcheck : d.checkImageDeleteConflict imgID (untagMask force) = none)
    (h : Conflicts { d with referenceStore := st } imgID (helperMask force) used) :
    force = false ∧ st.references imgID ≠ [] := by
  cases h with
  | child _ h =>
    refine absurd hcheck (check_ne_none (.child ?_ h))
    cases force <;> decide
  | running _ h =>
    refine absurd hcheck (check_ne_none (.running ?_ h))
    cases force <;> decide
  | reference hmask h =>
    refine ⟨eq_false_iff.2 fun hforce => hmask ?_, h⟩
    rw [hforce]
    decide
  | stopped hmask h =>
    cases force with
    | true => exact absurd rfl hmask
    | false => exact absurd hcheck (check_ne_none (.stopped (by decide) h))

theorem LateConflict.imageDelete (release : ID → Except String (List ChainID)) (prune : Bool)
    (h : LateConflict cd d imageRef force imgID) :
    ∃ records st c, untagAll (d.referenceStore.references imgID) [] d.referenceStore =
      (none, records, st) ∧
      d.imageDelete cd release imageRef force prune =
        (records, some (.conflict c), { d with referenceStore := st }) := by
  obtain ⟨records, st, hall, hrefs⟩ := (exists_untagAll_iff h.single).2 ⟨h.found, h.kept⟩
  have hmask : helperMask force &&& conflictActiveReference ≠ 0 := by
    rw [h.unforced]
    decide
  obtain ⟨c, hc⟩ := ne_none_iff_exists'.1
    (check_ne_none (d := { d with referenceStore := st }) (.reference hmask hrefs))
  have huntag : d.untag imgID imageRef force = (.helper records false, st) := by
    have hcheck := h.check
    unfold untagMask at hcheck
    simp only [untag, h.id, untagImage, h.single, hcheck, hall]
    rfl
  refine ⟨records, st, c, hall, ?_⟩
  rw [Daemon.imageDelete, h.getImageID]
  simp only [huntag]
  rw [imageDeleteHelper, hc]
  rfl

/-! ## Deleting changes the store -/

section
variable {st : Reference.Store}

theorem get_delete_of_none (ref : Named) (h : st.repositories.get n s = none) :
    (st.delete ref).2.repositories.get n s = none := by
  unfold delete
  split
  · change get (remove _ _ _) _ _ = _
    rw [get_remove, h]
    split <;> rfl
  · exact h

theorem get_untagAll_of_none (refs : List Named) (records : List Record)
    (h : st.repositories.get n s = none) :
    (untagAll refs records st).2.2.repositories.get n s = none := by
  induction refs generalizing st records with
  | nil => exact h
  | cons ref refs ih =>
    have hdel := get_delete_of_none (withDefaultTag ref) h
    rw [untagAll_cons, removeImageRef]
    cases (st.delete (withDefaultTag ref)).1 with
    | error e => exact hdel
    | ok u => exact ih _ hdel

theorem get_of_delete_ok (h : (st.delete ref).1 = .ok ()) :
    ∃ n s, st.repositories.get n s ≠ none ∧ (st.delete ref).2.repositories.get n s = none := by
  unfold delete at h ⊢
  split at h
  · next name refStr id hfind =>
    refine ⟨name, refStr, by simp [get_of_find hfind], ?_⟩
    change get (remove _ _ _) _ _ = _
    rw [get_remove, if_pos ⟨rfl, rfl⟩]
  · cases h

theorem untagAll_ne (hrefs : refs ≠ []) (h : untagAll refs [] st = (none, records, st')) :
    st' ≠ st := by
  obtain ⟨ref, refs, rfl⟩ := exists_cons_of_ne_nil hrefs
  rw [untagAll_cons, removeImageRef] at h
  cases hdel : (st.delete (withDefaultTag ref)).1 with
  | error e =>
    rw [hdel] at h
    cases h
  | ok u =>
    rw [hdel] at h
    obtain ⟨n, s, hsome, hnone⟩ := get_of_delete_ok hdel
    have hgone := get_untagAll_of_none refs ([] ++ [.untagged (withDefaultTag ref).string]) hnone
    rintro rfl
    refine hsome ?_
    rw [← hgone]
    exact congrArg (fun r => r.2.2.repositories.get n s) h.symm

end

/-- No reference of the image is left if the maps of the store agree. -/
theorem not_lateConflict_of_proper (h : Proper d.referenceStore) :
    ¬ LateConflict cd d imageRef force imgID := by
  intro hlate
  obtain ⟨records, st, hall, hrefs⟩ :=
    (exists_untagAll_iff hlate.single).2 ⟨hlate.found, hlate.kept⟩
  obtain ⟨hst, herr⟩ := untagAll_of_association h (fun r hr => h.mem_references.1 hr)
    (h.nodup_references imgID) []
  rw [hall] at hst herr
  have hall : ∀ r ∈ d.referenceStore.references imgID, decide r.Settled = true :=
    fun r hr => decide_eq_true (herr.1 rfl r hr)
  rw [takeWhile_eq_self_iff.2 hall] at hst
  have hproper : Proper st := by
    change st = _ at hst
    rw [hst]
    exact h.dissociateAll (fun r hr => h.mem_references.1 hr) (h.nodup_references imgID)
  refine hrefs (hproper.references_eq_nil.2 fun r hr => ?_)
  change st = _ at hst
  rw [hst, association_dissociateAll] at hr
  split at hr
  · cases hr
  · next hnot => exact hnot (h.mem_references.2 hr)

/-- A call that returns a conflict leaves the daemon as it was, unless every reference of the image
is found in the store and not all of them are found for the image; which they are in a store that
was not read from its file. -/
theorem conflict_unchanged_iff (cd : Codec) (release : ID → Except String (List ChainID))
    (d : Daemon) (imageRef : Str) (force prune : Bool) :
    ((∀ e, (d.imageDelete cd release imageRef force prune).2.1 = some e → e.isConflict = true →
        (d.imageDelete cd release imageRef force prune).2.2 = d) ↔
      ¬ ∃ imgID, LateConflict cd d imageRef force imgID) ∧
    (Proper d.referenceStore → ¬ ∃ imgID, LateConflict cd d imageRef force imgID) := by
  refine ⟨⟨?_, fun hnot e he hconf => ?_⟩, ?_⟩
  · rintro hall ⟨imgID, hlate⟩
    obtain ⟨records, st, c, huntag, hc⟩ := hlate.imageDelete release prune
    rw [hc] at hall
    have hst : st = d.referenceStore := congrArg Daemon.referenceStore (hall _ rfl rfl)
    refine untagAll_ne ?_ huntag hst
    intro hnil
    have hsingle := hlate.single
    rw [hnil] at hsingle
    cases hsingle
  · unfold imageDelete at he ⊢
    split at he
    · rfl
    · next imgID hget =>
      split at he
      · next records err st huntag =>
        cases he
        rw [untag_conflict huntag hconf]
      · next records removed st huntag =>
        obtain ⟨rfl, hsame, used, hused⟩ := imageDeleteHelper_conflict he hconf
        rw [hsame]
        obtain rfl | ⟨hid, hsingle, hcheck, hall⟩ := untag_helper huntag
        · rfl
        · obtain ⟨hforce, hrefs⟩ := references_of_conflicts hcheck hused
          obtain ⟨hfound, hkept⟩ := (exists_untagAll_iff hsingle).1 ⟨records, st, hall, hrefs⟩
          exact absurd ⟨imgID, hforce, hget, hid, hsingle, hcheck, hfound, hkept⟩ hnot
  · rintro h ⟨imgID, hlate⟩
    exact not_lateConflict_of_proper h hlate

/-- One image with the reference `docker.io/foo:1`, and a container that uses it. -/
def inUse : Daemon where
  imageStore := (({} : Image.Store).create Image.twoImages (fun _ => true) [1]).2
  referenceStore := Reference.Store.run { defaultRegistries := ["docker.io".toList] }
    [.addTag dockerFoo1 exampleID false]
  containers := [{ id := "c", imageID := exampleID, running := true }]

theorem conflict_unchanged_iff_inUse :
    (inUse.imageDelete Image.twoImages (fun _ => .ok []) "foo:1".toList false false).2.1.any
      Error.isConflict = true ∧
    (inUse.imageDelete Image.twoImages (fun _ => .ok []) "foo:1".toList false false).2.2 =
      inUse := by
  have hconf : (inUse.imageDelete Image.twoImages
      (fun _ => .ok []) "foo:1".toList false false).2.1.any
      Error.isConflict = true := by decide +kernel
  obtain ⟨e, he, hc⟩ := (any_eq_true _ _).1 hconf
  obtain ⟨hiff, hproper⟩ := conflict_unchanged_iff Image.twoImages
    (fun _ => .ok []) inUse "foo:1".toList false false
  exact ⟨hconf, hiff.2 (hproper ((Proper.empty _).run _)) e he hc⟩

/-- The store was read from its file. Its two images have the references for
`docker.io/library/library/foo:latest` and `docker.io/foo:latest`. -/
def restarted : Daemon where
  imageStore := (({} : Image.Store).create Image.twoImages (fun _ => true) [1]).2
  referenceStore := (Reference.Store.run { defaultRegistries := [] }
    [.addTag Reference.libraryFoo exampleID false,
      .addTag Reference.Store.dockerFoo "sha256:2" false]).reload
  containers := []

/-- Deleting the first image by its id deletes the reference of the second one, and returns a
conflict. -/
theorem conflict_after_untag : ∃ records c st,
    restarted.imageDelete Image.twoImages (fun _ => .ok []) (replicate 64 '1') false false =
      (records, some (.conflict c), { restarted with referenceStore := st }) ∧
    restarted.referenceStore.association Reference.Store.dockerFoo = some "sha256:2" ∧
    st.association Reference.Store.dockerFoo = none := by
  have hlate : LateConflict Image.twoImages restarted (replicate 64 '1') false exampleID := by
    refine ⟨rfl, ?_, ?_, ?_, ?_, ?_, Reference.libraryFoo.string, ?_⟩ <;> decide +kernel
  obtain ⟨records, st, c, hall, hc⟩ := hlate.imageDelete (fun _ => .ok []) false
  refine ⟨records, c, st, hc, by decide +kernel, ?_⟩
  obtain rfl : (untagAll (restarted.referenceStore.references exampleID)
      [] restarted.referenceStore).2.2 = st := by
    rw [hall]
  decide +kernel

end Daemon

end Docker
