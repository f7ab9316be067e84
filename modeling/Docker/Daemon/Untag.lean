import Docker.Daemon.ImageDelete

/-!
# Untagging

What the loops of `ImageDelete` remove from a reference store whose maps agree: the references of
the image one by one, except those below `docker.io/library/`, where the deletion fails.
-/

namespace Docker

open Reference Reference.Store Layer List
open Image (ID)

/-! ## Dissociating several references -/

namespace Reference.Store

variable {st : Store} {id : ID}

/-- None of the references is associated with the image any more. -/
def dissociateAll (st : Store) (id : ID) (refs : List Named) : Store :=
  refs.foldl (fun st r => st.dissociate r id) st

theorem association_dissociateAll :
    (st.dissociateAll id refs).association r = if r ∈ refs then none else st.association r := by
  induction refs generalizing st with
  | nil => simp [dissociateAll]
  | cons ref refs ih =>
    change ((st.dissociate ref id).dissociateAll id refs).association r = _
    rw [ih, association_dissociate]
    by_cases hr : r ∈ refs
    · simp [hr]
    · by_cases he : r = ref <;> simp [hr, he]

theorem Proper.dissociateAll (h : Proper st) (hrefs : ∀ r ∈ refs, st.association r = some id)
    (hnodup : refs.Nodup) :
    Proper (st.dissociateAll id refs) := by
  induction refs generalizing st with
  | nil => exact h
  | cons ref refs ih =>
    obtain ⟨hnot, hnodup⟩ := nodup_cons.1 hnodup
    refine ih (h.dissociate (hrefs ref mem_cons_self)) (fun r hr => ?_) hnodup
    rw [association_dissociate, if_neg (ne_of_mem_of_not_mem hr hnot)]
    exact hrefs r (mem_cons_of_mem _ hr)

end Reference.Store

namespace Daemon

variable {d : Daemon} {st : Reference.Store} {imgID id : ID} {r a parsedRef : Named}

theorem removeImageRef_of_association (h : Proper st) (hr : st.association r = some id) :
    removeImageRef st r = if r.Settled then (.ok r, st.dissociate r id)
      else (.error .doesNotExist, st) := by
  rw [removeImageRef, h.tagged r id hr]
  split
  · next hset =>
    simp only [delete, h.tagged r id hr, find_of_settled hset hr]
    rfl
  · next hset =>
    simp only [delete, h.tagged r id hr, h.find_of_not_settled hset]
    rfl

/-- The references that are left keep their association while one is dissociated. -/
theorem association_of_nodup_cons (hrefs : ∀ x ∈ r :: refs, st.association x = some id)
    (hnodup : (r :: refs).Nodup) :
    ∀ x ∈ refs, (st.dissociate r id).association x = some id := by
  intro x hx
  rw [association_dissociate, if_neg (ne_of_mem_of_not_mem hx (nodup_cons.1 hnodup).1)]
  exact hrefs x (mem_cons_of_mem _ hx)

theorem untagAll_cons (r : Named) (refs : List Named) (records : List Record) (st : Store) :
    untagAll (r :: refs) records st = match removeImageRef st r with
      | (.error e, st) => (some e, records, st)
      | (.ok parsedRef, st) => untagAll refs (records ++ [.untagged parsedRef.string]) st := (rfl)

/-- Deleting references of an image stops at the first one that is not found. -/
theorem untagAll_of_association (h : Proper st) (hrefs : ∀ r ∈ refs, st.association r = some id)
    (hnodup : refs.Nodup) (records : List Record) :
    (untagAll refs records st).2.2 = st.dissociateAll id (refs.takeWhile fun r => r.Settled) ∧
    ((untagAll refs records st).1 = none ↔ ∀ r ∈ refs, r.Settled) := by
  induction refs generalizing st records with
  | nil => exact ⟨rfl, iff_of_true rfl nofun⟩
  | cons ref refs ih =>
    have href := hrefs ref mem_cons_self
    rw [untagAll_cons, removeImageRef_of_association h href]
    by_cases hset : ref.Settled
    · rw [if_pos hset]
      obtain ⟨hst, herr⟩ := ih (h.dissociate href) (association_of_nodup_cons hrefs hnodup)
        (nodup_cons.1 hnodup).2
        (records ++ [.untagged ref.string])
      refine ⟨?_, herr.trans (by simp [hset])⟩
      rw [takeWhile_cons, if_pos (decide_eq_true hset)]
      exact hst
    · rw [if_neg hset, takeWhile_cons, if_neg (by simpa using hset)]
      exact ⟨rfl, by simp [hset]⟩

/-! ## Removing digests -/

/-- Whether `cleanDigests` removes the reference, unless the names cannot be compared. -/
def cleans (parsedRef repoRef : Named) : Option Bool :=
  if isReferenceFullyQualified parsedRef
    then some (repoRef.isCanonical && parsedRef.name == repoRef.name)
  else (substituteReferenceName parsedRef repoRef.name).toOption.map fun r =>
    repoRef.isCanonical && r.name == repoRef.name

theorem cleans_of_qualified (h : isReferenceFullyQualified parsedRef = true) :
    cleans parsedRef r = some true ↔ r.isCanonical = true ∧ parsedRef.name = r.name := by
  simp [cleans, h]

theorem cleans_of_unqualified (h : isReferenceFullyQualified parsedRef = false) :
    cleans parsedRef r = some true ↔ r.isCanonical = true ∧ r.Settled := by
  rw [cleans, h, if_neg Bool.false_ne_true, Option.map_eq_some_iff, ← r.normalize_name_iff]
  constructor
  · rintro ⟨r', hr', he⟩
    obtain ⟨hcan, hname⟩ : r.isCanonical = true ∧ r'.name = r.name := by simpa using he
    have hok : substituteReferenceName parsedRef r.name = .ok r' := by
      revert hr'
      cases substituteReferenceName parsedRef r.name <;> simp [Except.toOption]
    exact ⟨hcan, hname ▸ (substituteReferenceName_eq_ok.1 hok).1⟩
  · rintro ⟨hcan, hnorm⟩
    have hok : substituteReferenceName parsedRef r.name =
        .ok { r with kind := parsedRef.kind, kind_valid := parsedRef.kind_valid } :=
      substituteReferenceName_eq_ok.2 ⟨hnorm, rfl⟩
    exact ⟨_, by rw [hok]; rfl, by simp [hcan]⟩

/-- The names can be compared, for a reference that was given without a registry. -/
theorem cleans_ne_none (h : isReferenceFullyQualified parsedRef = false) :
    cleans parsedRef r ≠ none ↔ ∃ r', withName r.name = .ok r' := by
  rw [cleans, h, if_neg Bool.false_ne_true, Ne, Option.map_eq_none_iff]
  constructor
  · intro hne
    cases hsub : substituteReferenceName parsedRef r.name with
    | error e => simp [hsub, Except.toOption] at hne
    | ok r' =>
      exact ⟨{ r' with kind := .nameOnly, kind_valid := rfl },
        withName_eq_ok.2 ⟨(substituteReferenceName_eq_ok.1 hsub).1, rfl⟩⟩
  · rintro ⟨r', hr'⟩
    have hok : substituteReferenceName parsedRef r.name =
        .ok { r' with kind := parsedRef.kind, kind_valid := parsedRef.kind_valid } :=
      substituteReferenceName_eq_ok.2 ⟨(withName_eq_ok.1 hr').1, rfl⟩
    simp [hok, Except.toOption]

/-- The digests that `cleanDigests` removes: it stops where names cannot be compared. -/
def cleaned (parsedRef : Named) (refs : List Named) : List Named :=
  (refs.takeWhile fun r => cleans parsedRef r ≠ none).filter fun r => cleans parsedRef r = some true

theorem cleaned_cons_of_none (h : cleans parsedRef r = none) :
    cleaned parsedRef (r :: refs) = [] := by
  simp [cleaned, h]

theorem cleaned_cons_of_true (h : cleans parsedRef r = some true) :
    cleaned parsedRef (r :: refs) = r :: cleaned parsedRef refs := by
  simp [cleaned, h]

theorem cleaned_cons_of_false (h : cleans parsedRef r = some false) :
    cleaned parsedRef (r :: refs) = cleaned parsedRef refs := by
  simp [cleaned, h]

theorem cleaned_sublist : (cleaned parsedRef refs).Sublist refs :=
  filter_sublist.trans (takeWhile_sublist _)

theorem cleanDigests_cons (parsedRef r : Named) (refs : List Named) (records : List Record)
    (remainingRefs : List Named) (st : Reference.Store) :
    (∃ e, cleans parsedRef r = none ∧
      cleanDigests parsedRef (r :: refs) records remainingRefs st =
        (.error ([], .invalidReference e), st)) ∨
    (cleans parsedRef r = some true ∧ cleanDigests parsedRef (r :: refs) records remainingRefs st =
      match removeImageRef st r with
      | (.error e, st) => (.error (records, .reference e), st)
      | (.ok _, st) =>
        cleanDigests parsedRef refs (records ++ [.untagged r.string]) remainingRefs st) ∨
    (cleans parsedRef r = some false ∧ cleanDigests parsedRef (r :: refs) records remainingRefs st =
      cleanDigests parsedRef refs records (remainingRefs ++ [r]) st) := by
  have hcleans : cleans parsedRef r = ((if isReferenceFullyQualified parsedRef then .ok parsedRef
      else substituteReferenceName parsedRef r.name).toOption.map fun r' =>
        r.isCanonical && r'.name == r.name) := by
    unfold cleans
    split <;> rfl
  rw [cleanDigests, hcleans]
  cases (if isReferenceFullyQualified parsedRef then .ok parsedRef
      else substituteReferenceName parsedRef r.name : Except Reference.Error Named) with
  | error e => exact .inl ⟨e, rfl, rfl⟩
  | ok r' =>
    cases hcond : r.isCanonical && r'.name == r.name with
    | true =>
      exact .inr (.inl ⟨by simp [Except.toOption, hcond], if_pos hcond⟩)
    | false =>
      exact .inr (.inr ⟨by simp [Except.toOption, hcond], if_neg (Bool.eq_false_iff.1 hcond)⟩)

/-- The digests go, and the other references are returned; an error leaves one that is not
removed. -/
theorem cleanDigests_of_association (h : Proper st) (hrefs : ∀ r ∈ refs, st.association r = some id)
    (hnodup : refs.Nodup) (hset : ∀ r ∈ refs, cleans parsedRef r = some true → r.Settled)
    (records : List Record) (remainingRefs : List Named) :
    (cleanDigests parsedRef refs records remainingRefs st).2 =
      st.dissociateAll id (cleaned parsedRef refs) ∧
    (∀ e, (cleanDigests parsedRef refs records remainingRefs st).1 = .error e →
      ∃ r ∈ refs, r ∉ cleaned parsedRef refs) ∧
    ∀ res, (cleanDigests parsedRef refs records remainingRefs st).1 = .ok res →
      res.2 = remainingRefs ++ refs.filter (· ∉ cleaned parsedRef refs) := by
  induction refs generalizing st records remainingRefs with
  | nil =>
    refine ⟨rfl, fun e he => (by cases he), fun res hres => ?_⟩
    cases hres
    simp
  | cons ref refs ih =>
    have href := hrefs ref mem_cons_self
    obtain ⟨hnot, hnodup'⟩ := nodup_cons.1 hnodup
    have hset' : ∀ r ∈ refs, cleans parsedRef r = some true → r.Settled :=
      fun r hr => hset r (mem_cons_of_mem _ hr)
    obtain ⟨e, hcl, he⟩ | ⟨hcl, he⟩ | ⟨hcl, he⟩ :=
      cleanDigests_cons parsedRef ref refs records remainingRefs st <;> rw [he]
    · rw [cleaned_cons_of_none hcl]
      exact ⟨rfl, fun _ _ => ⟨ref, mem_cons_self, by simp⟩, fun res hres => (by cases hres)⟩
    · rw [removeImageRef_of_association h href, if_pos (hset ref mem_cons_self hcl),
        cleaned_cons_of_true hcl]
      obtain ⟨hst, herr, hok⟩ := ih (h.dissociate href)
        (association_of_nodup_cons hrefs hnodup) hnodup' hset'
        (records ++ [.untagged ref.string]) remainingRefs
      have hne : ∀ r ∈ refs, r ≠ ref := fun r hr => ne_of_mem_of_not_mem hr hnot
      refine ⟨hst, fun e he => ?_, fun res hres => ?_⟩
      · obtain ⟨r, hr, hnc⟩ := herr e he
        exact ⟨r, mem_cons_of_mem _ hr, by simp [hne r hr, hnc]⟩
      · rw [hok res hres, filter_cons_of_neg (by simp)]
        congr 1
        exact filter_congr fun r hr => by simp [hne r hr]
    · rw [cleaned_cons_of_false hcl]
      obtain ⟨hst, herr, hok⟩ := ih h (fun r hr => hrefs r (mem_cons_of_mem _ hr)) hnodup' hset'
        records (remainingRefs ++ [ref])
      have hnc : ref ∉ cleaned parsedRef refs := fun hr => hnot (cleaned_sublist.subset hr)
      refine ⟨hst, fun e he => ?_, fun res hres => ?_⟩
      · obtain ⟨r, hr, hnc⟩ := herr e he
        exact ⟨r, mem_cons_of_mem _ hr, hnc⟩
      · rw [hok res hres, filter_cons_of_pos (by simpa using hnc), append_assoc, singleton_append]

/-! ## Single references -/

theorem eq_singleton_of_nodup (hnodup : l.Nodup) (hne : l ≠ []) (h : ∀ x ∈ l, x = b) : l = [b] := by
  obtain ⟨n, rfl⟩ : ∃ n, l = replicate n b := ⟨l.length, eq_replicate_of_mem h⟩
  have hn := nodup_replicate.1 hnodup
  have hpos : n ≠ 0 := by
    rintro rfl
    exact hne rfl
  obtain rfl : n = 1 := by omega
  rfl

def isTag (r : Named) : Bool := !r.isCanonical

theorem isSingleReference_cons_cons :
    isSingleReference (x :: y :: refs) = match (x :: y :: refs).filter isTag with
    | [] => (((x :: y :: refs).filter Named.isCanonical).map Named.name).dedup == [x.name]
    | [singleRef] =>
      (((x :: y :: refs).filter Named.isCanonical).map Named.name).dedup == [singleRef.name]
    | _ => false := rfl

theorem isSingleReference_of_filter (h : refs.filter isTag = [a]) : isSingleReference refs =
    (refs.length == 1 || ((refs.filter Named.isCanonical).map Named.name).dedup == [a.name]) := by
  rcases refs with _ | ⟨x, _ | ⟨y, refs⟩⟩
  · cases h
  · rfl
  · rw [isSingleReference_cons_cons, h]
    simp

theorem filter_of_isSingleReference (h : isSingleReference refs = true)
    (ha : a ∈ refs.filter isTag) :
    refs.filter isTag = [a] := by
  rcases refs with _ | ⟨x, _ | ⟨y, refs⟩⟩
  · cases h
  · obtain ⟨hx, htag⟩ := mem_filter.1 ha
    obtain rfl := mem_singleton.1 hx
    exact filter_eq_self.2 (by simpa using htag)
  · rw [isSingleReference_cons_cons] at h
    split at h
    · next hnil =>
      rw [hnil] at ha
      cases ha
    · next hsingle =>
      rw [hsingle, mem_singleton] at ha
      rw [hsingle, ha]
    · cases h

theorem isSingleReference_iff (hnodup : refs.Nodup) (ha : a ∈ refs) (htag : a.isCanonical = false) :
    isSingleReference refs = true ↔ ∀ r ∈ refs, r = a ∨ r.isCanonical = true ∧ r.name = a.name := by
  have hmem : a ∈ refs.filter isTag := mem_filter.2 ⟨ha, by simp [isTag, htag]⟩
  constructor
  · intro h r hr
    have hfilter := filter_of_isSingleReference h hmem
    cases hcan : r.isCanonical with
    | false =>
      have hr' : r ∈ refs.filter isTag := mem_filter.2 ⟨hr, by simp [isTag, hcan]⟩
      rw [hfilter, mem_singleton] at hr'
      exact .inl hr'
    | true =>
      have hname := mem_dedup.2 (mem_map_of_mem (f := Named.name) (mem_filter.2 ⟨hr, hcan⟩))
      rw [isSingleReference_of_filter hfilter, Bool.or_eq_true, beq_iff_eq, beq_iff_eq] at h
      obtain hlen | hnames := h
      · obtain ⟨x, rfl⟩ := length_eq_one_iff.1 hlen
        rw [mem_singleton] at ha hr
        exact .inl (hr.trans ha.symm)
      · rw [hnames, mem_singleton] at hname
        exact .inr ⟨rfl, hname⟩
  · intro h
    have hfilter : refs.filter isTag = [a] := by
      refine eq_singleton_of_nodup (hnodup.filter _) (ne_nil_of_mem hmem) fun r hr => ?_
      obtain ⟨hr, hcan⟩ := mem_filter.1 hr
      exact (h r hr).resolve_right fun hr => by simp [isTag, hr.1] at hcan
    rw [isSingleReference_of_filter hfilter, Bool.or_eq_true, beq_iff_eq, beq_iff_eq]
    by_cases hdigest : refs.filter Named.isCanonical = []
    · left
      have hall : refs.filter isTag = refs := by
        refine filter_eq_self.2 fun r hr => ?_
        have := filter_eq_nil_iff.1 hdigest r hr
        simpa [isTag] using this
      rw [← hall, hfilter]
      rfl
    · right
      refine eq_singleton_of_nodup (nodup_dedup _) (by simpa using hdigest) fun name hname => ?_
      obtain ⟨r, hr, rfl⟩ := mem_map.1 (mem_dedup.1 hname)
      obtain ⟨hr, hcan⟩ := mem_filter.1 hr
      refine ((h r hr).resolve_left ?_).2
      rintro rfl
      rw [htag] at hcan
      cases hcan

/-! ## What `untag` removes -/

theorem validateDigest_of_validateID (h : validateID s = true) :
    validateDigest (String.ofList ("sha256:".toList ++ s)) = true := by
  obtain ⟨hlen, hall⟩ : s.length = 64 ∧ s.all isLowerHex = true := by
    simpa [validateID] using h
  have hhex : s.all isHex = true :=
    all_eq_true.2 fun c hc => by simp [isHex, all_eq_true.1 hall c hc]
  have hdrop : ("sha256:".toList ++ s).dropWhile (· != ':') = ':' :: s := rfl
  have halg : algorithm (String.ofList ("sha256:".toList ++ s)) = "sha256" := by
    rw [algorithm, String.toList_ofList]
    rfl
  rw [validateDigest, String.toList_ofList, hdrop]
  simp only [hhex, halg, hlen]
  rfl

theorem parseIDOrReference_eq_inr (h : parseIDOrReference s = .ok (.inr ref)) :
    parseNamed s = .ok ref := by
  unfold parseIDOrReference at h
  by_cases hid : validateID s = true
  · rw [if_pos hid, if_pos (validateDigest_of_validateID hid)] at h
    cases h
  · rw [if_neg hid] at h
    dsimp only at h
    split at h
    · cases h
    · revert h
      cases parseNamed s <;> simp [Except.map]

theorem getImageID_of_find (hparse : parseIDOrReference imageRef = .ok (.inr ref))
    (hfind : d.referenceStore.find (withDefaultTag ref) = some (name, refStr, imgID)) :
    d.getImageID cd imageRef = .ok imgID := by
  simp only [getImageID, hparse, Reference.Store.get, hfind]

section
variable {imageRef : Str} {ref : Named} {force : Bool}

/-- The digests that go with the tag. -/
def removedDigests (st : Reference.Store) (imgID : ID) (parsedRef : Named) : List Named :=
  if parsedRef.isCanonical || (st.references imgID).any fun r =>
    !r.isCanonical && parsedRef.name == r.name then []
  else cleaned parsedRef (st.references imgID)

theorem settled_of_cleans (hset : isReferenceFullyQualified parsedRef = true → parsedRef.Settled)
    (hr : cleans parsedRef r = some true) : r.Settled := by
  cases hq : isReferenceFullyQualified parsedRef with
  | true =>
    obtain ⟨-, hname⟩ := (cleans_of_qualified hq).1 hr
    rw [Named.Settled, ← hname]
    exact hset hq
  | false => exact ((cleans_of_unqualified hq).1 hr).2

theorem cleanUp_store (h : Proper st)
    (hset : isReferenceFullyQualified parsedRef = true → parsedRef.Settled) :
    (cleanUp imgID parsedRef st).2 = st.dissociateAll imgID
    (removedDigests st imgID parsedRef) := by
  have hspec := cleanDigests_of_association h (fun r hr => h.mem_references.1 hr)
    (h.nodup_references imgID)
    (fun r _ => settled_of_cleans hset) [.untagged parsedRef.string] []
  unfold cleanUp removedDigests
  dsimp only
  split
  · rfl
  · rw [← hspec.1]
    split
    · next he => rw [he]
    · next he => rw [he]

theorem removeImageRef_of_find
    (hfind : st.find (withDefaultTag ref) = some (a.name, a.string, imgID)) :
    removeImageRef st ref = (.ok (withDefaultTag ref), st.dissociate a imgID) := by
  simp only [removeImageRef, delete, Reference.Store.Proper.withDefaultTag_idem, hfind]
  rfl

theorem isCanonical_of_kind (h : a.kind = ref.kind) : a.isCanonical = ref.isCanonical := by
  rw [Named.isCanonical, h, Named.isCanonical]

/-- The first container that `untagReference` finds in the way. -/
def blocking (d : Daemon) (imgID : ID) (force : Bool) : Option Container :=
  if !force && isSingleReference (d.referenceStore.references imgID)
    then d.getContainerUsingImage imgID else none

theorem untagReference_of_blocking (h : d.blocking imgID force = some c) :
    d.untagReference imgID imageRef force =
      (.returned [] (some (.referenceInUse imageRef (truncateID c.id) (truncateID imgID))),
        d.referenceStore) := by
  simp only [untagReference, ← blocking.eq_1, h]

theorem untagReference_of_find (hblock : d.blocking imgID force = none)
    (hparse : parseNamed imageRef = .ok ref)
    (hfind : d.referenceStore.find (withDefaultTag ref) = some (a.name, a.string, imgID)) :
    d.untagReference imgID imageRef force =
      cleanUp imgID (withDefaultTag ref) (d.referenceStore.dissociate a imgID) := by
  simp only [untagReference, ← blocking.eq_1, hblock, hparse, removeImageRef_of_find hfind]

/-- `untagImage` removes references of the image only, and only if they are a single reference. -/
theorem untagImage_store (h : Proper d.referenceStore) (imgID : ID) (force : Bool) :
    (d.untagImage imgID force).2 = d.referenceStore ∨
    isSingleReference (d.referenceStore.references imgID) = true ∧
    (d.untagImage imgID force).2 = d.referenceStore.dissociateAll imgID
      ((d.referenceStore.references imgID).takeWhile fun r => r.Settled) := by
  obtain ⟨hst, -⟩ := untagAll_of_association h (fun r hr => h.mem_references.1 hr)
    (h.nodup_references imgID) []
  unfold untagImage
  dsimp only
  split
  · next hsingle =>
    split
    · exact .inl rfl
    · refine .inr ⟨hsingle, ?_⟩
      rw [← hst]
      split
      · next he => rw [he]
      · next he => rw [he]
  · exact .inl rfl

end

/-! ## The digests of another repository -/

/-- The digest is in the repository of `a`, and no other tag of this repository refers to the
image. -/
def OnlyTag (st : Reference.Store) (imgID : ID) (a digest : Named) : Prop :=
  digest.name = a.name ∧ ∀ t : Named, t.isCanonical = false → t.name = a.name → t ≠ a →
    st.association t ≠ some imgID

/-- The loop over the references of the image comes to this one. -/
def Reached (st : Reference.Store) (imgID : ID) (digest : Named) : Prop :=
  ∀ r : Named, st.association r = some imgID → r.string ≤ digest.string →
    ∃ r', withName r.name = .ok r'

theorem mem_takeWhile_of_pairwise {l : List Named} (h : l.Pairwise fun a b => a.string ≤ b.string) :
    x ∈ l.takeWhile p ↔ x ∈ l ∧ ∀ y ∈ l, y.string ≤ x.string → p y = true := by
  induction l with
  | nil => simp
  | cons z l ih =>
    obtain ⟨hz, hl⟩ := pairwise_cons.1 h
    by_cases hp : p z = true
    · rw [takeWhile_cons_of_pos hp, mem_cons, mem_cons, ih hl]
      constructor
      · rintro (rfl | ⟨hx, hall⟩)
        · refine ⟨.inl rfl, fun y hy hle => ?_⟩
          obtain rfl | hy := mem_cons.1 hy
          · exact hp
          · rwa [Named.string_inj (le_antisymm hle (hz y hy))]
        · refine ⟨.inr hx, fun y hy hle => ?_⟩
          obtain rfl | hy := mem_cons.1 hy
          exacts [hp, hall y hy hle]
      · rintro ⟨rfl | hx, hall⟩
        · exact .inl rfl
        · exact .inr ⟨hx, fun y hy => hall y (mem_cons_of_mem _ hy)⟩
    · rw [takeWhile_cons_of_neg hp]
      refine iff_of_false not_mem_nil ?_
      rintro ⟨hx, hall⟩
      refine hp (hall z mem_cons_self ?_)
      obtain rfl | hx := mem_cons.1 hx
      exacts [le_rfl, hz x hx]

theorem pairwise_references (st : Store) (id : ID) :
    (st.references id).Pairwise fun a b => a.string ≤ b.string := by
  exact pairwise_insertionSort (fun a b : Named => a.string ≤ b.string) _

theorem mem_cleaned_of_unqualified (h : Proper st)
    (hq : isReferenceFullyQualified parsedRef = false) :
    r ∈ cleaned parsedRef (st.references imgID) ↔
      st.association r = some imgID ∧ Reached st imgID r ∧ r.isCanonical = true ∧ r.Settled := by
  rw [cleaned, List.mem_filter, mem_takeWhile_of_pairwise (pairwise_references st imgID),
    h.mem_references,
    decide_eq_true_eq, cleans_of_unqualified hq, and_assoc]
  refine and_congr_right fun _ => and_congr_left fun _ => forall_congr' fun y => ?_
  rw [h.mem_references, decide_eq_true_eq, cleans_ne_none hq]

theorem onlyTag_of_isSingleReference (h : Proper st) (ha : st.association a = some imgID)
    (htag : a.isCanonical = false) (hsingle : isSingleReference (st.references imgID) = true)
    (hr : st.association r = some imgID) (hcan : r.isCanonical = true) : OnlyTag st imgID a r := by
  have hall := (isSingleReference_iff (h.nodup_references imgID)
    (h.mem_references.2 ha) htag).1 hsingle
  refine ⟨((hall r (h.mem_references.2 hr)).resolve_left ?_).2, fun t ht _ hne hassoc => ?_⟩
  · rintro rfl
    rw [htag] at hcan
    cases hcan
  · obtain ⟨htrue, -⟩ := (hall t (h.mem_references.2 hassoc)).resolve_left hne
    rw [ht] at htrue
    cases htrue

section
variable {imageRef : Str} {ref : Named} {force : Bool}

/-- Another tag with the name as it was given refers to the image. -/
def OtherTag (st : Reference.Store) (imgID : ID) (a ref : Named) : Prop :=
  ∃ t : Named, t.isCanonical = false ∧ t.name = ref.name ∧ t ≠ a ∧ st.association t = some imgID

theorem any_references_dissociate (h : Proper st) (ha : st.association a = some imgID) :
    ((st.dissociate a imgID).references imgID).any
    (fun r => !r.isCanonical && parsedRef.name == r.name) = true ↔
      OtherTag st imgID a parsedRef := by
  rw [List.any_eq_true]
  refine exists_congr fun t => ?_
  rw [(h.dissociate ha).mem_references, association_dissociate]
  by_cases he : t = a
  · simp [he]
  · rw [if_neg he, Bool.and_eq_true, beq_iff_eq, Bool.not_eq_true']
    exact ⟨fun ⟨hr, htag, hname⟩ => ⟨htag, hname.symm, he, hr⟩, fun ⟨htag, hname, _, hr⟩ =>
      ⟨hr, htag, hname.symm⟩⟩

theorem reached_dissociate (hset : a.Settled) :
    Reached (st.dissociate a imgID) imgID r ↔ Reached st imgID r := by
  refine forall_congr' fun x => ?_
  rw [association_dissociate]
  by_cases he : x = a
  · subst he
    have hname : withName x.name = .ok { x with kind := .nameOnly, kind_valid := rfl } :=
      withName_eq_ok.2 ⟨x.normalize_name_iff.2 hset, rfl⟩
    simp [hname]
  · rw [if_neg he]

/-- The digests that are removed, for a reference without a registry and without another tag. -/
theorem mem_removedDigests (h : Proper st) (hfound : Found st parsedRef a imgID)
    (htag : parsedRef.isCanonical = false) :
    r ∈ removedDigests (st.dissociate a imgID) imgID parsedRef ↔ ¬ OtherTag st imgID a parsedRef ∧
      st.association r = some imgID ∧ r.isCanonical = true ∧
      if isReferenceFullyQualified parsedRef then r.name = a.name else Reached st imgID r ∧
        r.Settled := by
  have ha := hfound.association
  have hne : r.isCanonical = true → r ≠ a := by
    rintro hr rfl
    rw [isCanonical_of_kind hfound.kind, htag] at hr
    cases hr
  unfold removedDigests
  rw [htag, Bool.false_or]
  split
  · next hany =>
      exact iff_of_false List.not_mem_nil fun hr => hr.1 ((any_references_dissociate h ha).1 hany)
  · next hany =>
    rw [and_iff_right (mt (any_references_dissociate h ha).2 hany)]
    cases hq : isReferenceFullyQualified parsedRef with
    | true =>
      have hnone : ∀ x ∈ (st.dissociate a imgID).references imgID,
          decide (cleans parsedRef x ≠ none) = true := by
        simp [cleans, hq]
      rw [cleaned, List.takeWhile_eq_self_iff.2 hnone, List.mem_filter,
        (h.dissociate ha).mem_references,
        association_dissociate, decide_eq_true_eq, cleans_of_qualified hq,
          hfound.name hq, if_pos rfl,
        eq_comm (a := r.name)]
      refine ⟨fun ⟨hr, hc⟩ => ⟨?_, hc⟩, fun ⟨hr, hc⟩ => ⟨?_, hc⟩⟩
      · rwa [if_neg (hne hc.1)] at hr
      · rwa [if_neg (hne hc.1)]
    | false =>
      rw [mem_cleaned_of_unqualified (h.dissociate ha) hq, association_dissociate,
        reached_dissociate hfound.settled,
        if_neg Bool.false_ne_true]
      constructor
      · rintro ⟨hr, hreach, hcan, hset⟩
        rw [if_neg (hne hcan)] at hr
        exact ⟨hr, hcan, hreach, hset⟩
      · rintro ⟨hr, hcan, hreach, hset⟩
        exact ⟨by rwa [if_neg (hne hcan)], hreach, hcan, hset⟩

theorem untagReference_store (h : Proper d.referenceStore) (hparse : parseNamed imageRef = .ok ref)
    (hfind : d.referenceStore.find (withDefaultTag ref) = some (a.name, a.string, imgID))
    (hblock : d.blocking imgID force = none)
    (hfound : Found d.referenceStore (withDefaultTag ref) a imgID) :
    (d.untagReference imgID imageRef force).2 =
    (d.referenceStore.dissociate a imgID).dissociateAll imgID
      (removedDigests (d.referenceStore.dissociate a imgID) imgID (withDefaultTag ref)) := by
  rw [untagReference_of_find hblock hparse hfind]
  refine cleanUp_store (h.dissociate hfound.association) fun hq => ?_
  rw [Named.Settled, ← hfound.name hq]
  exact hfound.settled

theorem isReferenceFullyQualified_withDefaultTag (r : Named) :
    isReferenceFullyQualified (withDefaultTag r) = isReferenceFullyQualified r := by
  unfold withDefaultTag
  split
  · simp only [isReferenceFullyQualified, splitReposName]
    split <;> rfl
  · rfl

theorem name_withDefaultTag (r : Named) : (withDefaultTag r).name = r.name := by
  unfold withDefaultTag
  split <;> rfl

theorem ne_of_isCanonical (hr : r.isCanonical = true) (ha : a.isCanonical = false) : r ≠ a := by
  rintro rfl
  rw [hr] at ha
  cases ha

theorem association_untagReference_eq_none (h : Proper d.referenceStore)
    (hparse : parseNamed imageRef = .ok ref) (htag : ref.isCanonical = false)
    (hfind : d.referenceStore.find (withDefaultTag ref) = some (a.name, a.string, imgID))
    (hblock : d.blocking imgID force = none)
    (hfound : Found d.referenceStore (withDefaultTag ref) a imgID)
    (hr : d.referenceStore.association r = some imgID) (hcan : r.isCanonical = true) :
    (d.untagReference imgID imageRef force).2.association r = none ↔
      ¬ OtherTag d.referenceStore imgID a ref ∧
      if isReferenceFullyQualified ref then r.name = a.name else Reached d.referenceStore imgID r ∧
        r.Settled := by
  have htag' : (withDefaultTag ref).isCanonical = false := by rw [isCanonical_withDefaultTag, htag]
  have hne : r ≠ a := ne_of_isCanonical hcan (by rw [isCanonical_of_kind hfound.kind, htag'])
  have hmem := mem_removedDigests (r := r) h hfound htag'
  rw [OtherTag, name_withDefaultTag, isReferenceFullyQualified_withDefaultTag, and_iff_right hr,
    and_iff_right hcan] at hmem
  rw [untagReference_store h hparse hfind hblock hfound, association_dissociateAll,
    association_dissociate,
    if_neg hne, hr, OtherTag, ← hmem]
  simp

end

/-- A call of `ImageDelete` that removes the tag `a` removes other digests with it, unless the tag
was given with its registry, another tag with the name as given refers to the image, or all its
digests are in this repository and `a` is its last tag. -/
theorem digests_with_tag_iff (d : Daemon) (h : Proper d.referenceStore) (imageRef : Str)
    (ref a : Named) (imgID : ID) (force : Bool)
    (hparse : parseIDOrReference imageRef = .ok (.inr ref)) (htag : ref.isCanonical = false)
    (hfind : d.referenceStore.find (withDefaultTag ref) = some (a.name, a.string, imgID))
    (hgone : (d.untag imgID imageRef force).2.association a = none) :
    (∀ digest : Named, digest.isCanonical = true →
      d.referenceStore.association digest = some imgID →
        (d.untag imgID imageRef force).2.association digest = none →
          OnlyTag d.referenceStore imgID a digest) ↔
      isImageIDPrefix imgID imageRef = true ∨ isReferenceFullyQualified ref = true ∨
      OtherTag d.referenceStore imgID a ref ∨
      ∀ digest : Named, digest.isCanonical = true →
        d.referenceStore.association digest = some imgID →
        digest.Settled → Reached d.referenceStore imgID digest →
          OnlyTag d.referenceStore imgID a digest := by
  obtain ⟨a', hname, hstr, hfound⟩ := h.found hfind
  obtain rfl := Named.string_inj hstr
  have ha := hfound.association
  have hatag : a.isCanonical = false := by
    rw [isCanonical_of_kind hfound.kind, Reference.Store.isCanonical_withDefaultTag, htag]
  unfold untag at hgone ⊢
  cases hid : isImageIDPrefix imgID imageRef with
  | true =>
    refine iff_of_true (fun digest hcan hdigest _ => ?_) (.inl rfl)
    simp only [hid, Bool.not_true, Bool.false_eq_true, if_false] at hgone
    obtain hsame | ⟨hsingle, -⟩ := untagImage_store h imgID force
    · rw [hsame, ha] at hgone
      cases hgone
    · exact onlyTag_of_isSingleReference h ha hatag hsingle hdigest hcan
  | false =>
    simp only [hid, Bool.not_false, if_true] at hgone ⊢
    have hblock : d.blocking imgID force = none := by
      by_contra hne
      obtain ⟨c, hc⟩ := Option.ne_none_iff_exists'.1 hne
      rw [untagReference_of_blocking hc, ha] at hgone
      cases hgone
    have hremoved := fun (digest : Named) => association_untagReference_eq_none (r := digest) h
      (parseIDOrReference_eq_inr hparse) htag hfind hblock hfound
    cases hq : isReferenceFullyQualified ref with
    | true =>
      refine iff_of_true (fun digest hcan hdigest hnone => ?_) (.inr (.inl rfl))
      obtain ⟨hnot, hname⟩ := (hremoved digest hdigest hcan).1 hnone
      rw [hq, if_pos rfl] at hname
      refine ⟨hname, fun t ht hn hne hassoc => hnot ⟨t, ht, ?_, hne, hassoc⟩⟩
      rw [hn, hfound.name (by rwa [isReferenceFullyQualified_withDefaultTag]), name_withDefaultTag]
    | false =>
      simp only [hq, Bool.false_eq_true, if_false] at hremoved
      simp only [Bool.false_eq_true, false_or]
      constructor
      · intro hall
        refine or_iff_not_imp_left.2 fun hot digest hcan hdigest hset hreach =>
          hall digest hcan hdigest ?_
        exact (hremoved digest hdigest hcan).2 ⟨hot, hreach, hset⟩
      · intro hcond digest hcan hdigest hnone
        obtain ⟨hnot, hreach, hset⟩ := (hremoved digest hdigest hcan).1 hnone
        exact hcond.resolve_left hnot digest hcan hdigest hset hreach

def exampleDigest : Str := "sha256:".toList ++ List.replicate 64 'd'

def exampleID : ID := "sha256:".append (String.ofList (List.replicate 64 '1'))

def foo1 : Named where
  name := "foo".toList
  kind := .tagged "1".toList
  name_valid := fooLatest.name_valid
  kind_valid := by decide

def dockerFoo1 : Named where
  name := "docker.io/foo".toList
  kind := .tagged "1".toList
  name_valid := dockerFoo.name_valid
  kind_valid := by decide

def dockerFoo2 : Named where
  name := "docker.io/foo".toList
  kind := .tagged "2".toList
  name_valid := dockerFoo.name_valid
  kind_valid := by decide

/-- `docker.io/foo` with the digest. -/
def dockerFooDigest : { r : Named // r.isCanonical = true } where
  val :=
    { name := "docker.io/foo".toList
      kind := .canonical exampleDigest
      name_valid := dockerFoo.name_valid
      kind_valid := by decide +kernel }
  property := rfl

def barDigest : { r : Named // r.isCanonical = true } where
  val :=
    { name := "example.org/bar".toList
      kind := .canonical exampleDigest
      name_valid := by decide
      kind_valid := by decide +kernel }
  property := rfl

/-- A daemon without images and containers, whose store has the references for one image. -/
def tagged (ops : List Reference.Op) : Daemon where
  imageStore := {}
  referenceStore := Reference.Store.run { defaultRegistries := ["docker.io".toList] } ops
  containers := []

/-- Given with its registry, the tag takes the digest of its own repository with it only. -/
theorem digests_with_tag_iff_qualified :
    let d := tagged [.addTag dockerFoo1 exampleID false, .addDigest dockerFooDigest exampleID false,
      .addDigest barDigest exampleID false]
    ∀ digest : Named, digest.isCanonical = true → d.referenceStore.association digest =
      some exampleID →
      (d.untag exampleID "docker.io/foo:1".toList false).2.association digest = none →
      OnlyTag d.referenceStore exampleID dockerFoo1 digest := by
  intro d
  refine (digests_with_tag_iff d ((Proper.empty _).run _) "docker.io/foo:1".toList dockerFoo1
    dockerFoo1 exampleID false
    ?_ rfl ?_ ?_).2 (.inr (.inl ?_)) <;> decide +kernel

/-- Deleting `foo:1` removes the digest of `docker.io/foo`, although the image has another tag
there, and that of `example.org/bar`. -/
theorem untag_removes_other_digests :
    let d := tagged [.addTag dockerFoo1 exampleID false, .addTag dockerFoo2 exampleID false,
      .addDigest dockerFooDigest exampleID false, .addDigest barDigest exampleID false]
    let d' := (d.imageDelete Image.twoImages (fun _ => .ok []) "foo:1".toList false false).2.2
    d.referenceStore.find foo1 = some (dockerFoo1.name, dockerFoo1.string, exampleID) ∧
    d.referenceStore.association dockerFooDigest = some exampleID ∧
    d.referenceStore.association barDigest = some exampleID ∧
    (d.untag exampleID "foo:1".toList false).2.association dockerFooDigest = none ∧
    (d.untag exampleID "foo:1".toList false).2.association barDigest = none ∧
    d'.referenceStore.association dockerFoo1 = none ∧ d'.referenceStore.association dockerFoo2 =
      some exampleID ∧
    d'.referenceStore.association dockerFooDigest = none ∧
      d'.referenceStore.association barDigest = none := by
  decide +kernel

end Daemon

end Docker
