import Docker.Daemon.Conflict

/-!
# Images that containers use

An image that a container uses keeps its last reference when `ImageDelete` is called without
`force`, except in one case: a tag is given without its registry, and the other references of the
image are digests, some of another repository.
-/

namespace Docker

open Reference.Store Reference List Option
open Image (ID Codec)
open Layer (ChainID)

namespace Daemon

variable {cd : Codec} {release : ID → Except String (List ChainID)} {d : Daemon} {imgID id : ID}
  {imageRef : Str} {ref a r : Named} {force prune quiet : Bool}

def InUse (d : Daemon) (id : ID) : Prop := ∃ c ∈ d.containers, c.imageID = id

def Kept (d : Daemon) (id : ID) : Prop :=
  id ∈ d.imageStore.images ∧ d.referenceStore.references id ≠ []

/-! ## Conflicts with containers -/

theorem InUse.check_ne_none (h : d.InUse id) (hrun : mask &&& conflictRunningContainer ≠ 0)
    (hstop : mask &&& conflictStoppedContainer ≠ 0) :
    d.checkImageDeleteConflict id mask ≠ none := by
  obtain ⟨c, hc, hid⟩ := h
  cases hr : c.running with
  | true => exact Daemon.check_ne_none (.running hrun ⟨c, hc, hr, hid⟩)
  | false => exact Daemon.check_ne_none (.stopped hstop ⟨c, hc, hr, hid⟩)

theorem InUse.untagImage (h : d.InUse imgID) : (d.untagImage imgID false).2 = d.referenceStore := by
  have hcheck : d.checkImageDeleteConflict imgID (untagMask false) ≠ none :=
    h.check_ne_none (by decide) (by decide)
  obtain ⟨c, hc⟩ := ne_none_iff_exists'.1 hcheck
  unfold Daemon.untagImage
  dsimp only
  split
  · rw [← untagMask.eq_1, hc]
  · rfl

theorem InUse.blocking (h : d.InUse imgID) (hblock : d.blocking imgID false = none) :
    isSingleReference (d.referenceStore.references imgID) = false := by
  obtain ⟨c, hc, hid⟩ := h
  refine Bool.eq_false_iff.2 fun hsingle => ?_
  rw [Daemon.blocking, hsingle, Bool.not_false, Bool.and_self, if_pos rfl, getContainerUsingImage,
    List.find?_eq_none] at hblock
  exact hblock c hc (decide_eq_true hid)

theorem InUse.imageDeleteHelper (h : d.InUse imgID) :
    (imageDeleteHelper cd release d imgID records false prune quiet).2.2 = d := by
  have hcheck : d.checkImageDeleteConflict imgID (helperMask false) ≠ none :=
    h.check_ne_none (by decide) (by decide)
  obtain ⟨c, hc⟩ := ne_none_iff_exists'.1 hcheck
  rw [Daemon.imageDeleteHelper, hc]
  dsimp only
  split <;> rfl

theorem InUse.imageDelete (h : d.InUse imgID) (hget : d.getImageID cd imageRef = .ok imgID) :
    (d.imageDelete cd release imageRef false prune).2.2.referenceStore =
    (d.untag imgID imageRef false).2 := by
  rw [Daemon.imageDelete, hget]
  dsimp only
  split
  · next huntag => rw [huntag]
  · next records removed st huntag =>
    have huse : InUse { d with referenceStore := st } imgID := h
    rw [huse.imageDeleteHelper, huntag]

/-! ## Other images -/

theorem deleteImage_other (cd : Codec) (release : ID → Except String (List ChainID)) (d : Daemon)
    (hne : id ≠ imgID) :
    (id ∈ (deleteImage cd release d imgID).2.imageStore.images ↔ id ∈ d.imageStore.images) ∧
    (deleteImage cd release d imgID).2.referenceStore = d.referenceStore ∧
    (deleteImage cd release d imgID).2.containers = d.containers := by
  unfold deleteImage
  split
  · exact ⟨Iff.rfl, rfl, rfl⟩
  · next s hdel =>
    refine ⟨?_, rfl, rfl⟩
    unfold Image.Store.delete at hdel
    split at hdel
    · cases hdel
    · cases hdel
      exact Image.Store.mem_unlink.trans (and_iff_right hne)

theorem references_dissociateAll (h : Proper st)
    (hrefs : ∀ r ∈ refs, st.association r = some imgID) (hnodup : refs.Nodup) (hne : id ≠ imgID)
    (hid : st.references id ≠ []) : (st.dissociateAll imgID refs).references id ≠ [] := by
  obtain ⟨r, hr⟩ := h.references_ne_nil.1 hid
  refine (h.dissociateAll hrefs hnodup).references_ne_nil.2 ⟨r, ?_⟩
  have hnot : r ∉ refs := fun hmem => hne (some_inj.1 (hr.symm.trans (hrefs r hmem)))
  rw [association_dissociateAll, if_neg hnot, hr]

theorem untagAll_keeps (h : Proper st) (hne : id ≠ imgID) (hid : st.references id ≠ [])
    (huntag : untagAll (st.references imgID) records st = (err, records', st')) :
    Proper st' ∧ st'.references id ≠ [] := by
  have hrefs : ∀ r ∈ (st.references imgID).takeWhile (fun r => decide r.Settled),
      st.association r = some imgID :=
    fun r hr => h.mem_references.1 ((takeWhile_sublist _).subset hr)
  have hnodup := (h.nodup_references imgID).sublist (takeWhile_sublist fun r => decide r.Settled)
  obtain ⟨hst, -⟩ := untagAll_of_association h (fun r hr => h.mem_references.1 hr)
    (h.nodup_references imgID) records
  rw [huntag] at hst
  change st' = _ at hst
  rw [hst]
  exact ⟨h.dissociateAll hrefs hnodup, references_dissociateAll h hrefs hnodup hne hid⟩

theorem deleteImage_keeps (hdel : deleteImage cd release d imgID = (res, d')) (hne : id ≠ imgID)
    (hkept : d.Kept id) :
    d'.Kept id ∧ d'.referenceStore = d.referenceStore ∧ d'.containers = d.containers := by
  have hother := deleteImage_other cd release d hne
  rw [hdel] at hother
  obtain ⟨himages, hst, hcont⟩ := hother
  exact ⟨⟨himages.2 hkept.1, hst ▸ hkept.2⟩, hst, hcont⟩

theorem InUse.ne (huse : d.InUse id) (hforce : force = false)
    (hcheck : d.checkImageDeleteConflict imgID (helperMask force) = none) : id ≠ imgID := by
  rintro rfl
  rw [hforce] at hcheck
  exact huse.check_ne_none (by decide) (by decide) hcheck

/-- Deleting images and their ancestors leaves an image that is in use and has references. -/
theorem imageDeleteHelper_keeps (hforce : force = false) (h : Proper d.referenceStore)
    (huse : d.InUse id) (hkept : d.Kept id) :
    (imageDeleteHelper cd release d imgID records force prune quiet).2.2.Kept id := by
  fun_induction imageDeleteHelper cd release d imgID records force prune quiet with
  | case1 => exact hkept
  | case2 => exact hkept
  | case3 d imgID records force prune quiet hcheck e records' st huntag =>
    exact ⟨hkept.1, (untagAll_keeps h (huse.ne hforce hcheck) hkept.2 huntag).2⟩
  | case4 d imgID records force prune quiet hcheck records' st huntag e' d' hdel
  | case5 d imgID records force prune quiet hcheck parent records' st huntag layers d' hdel =>
    have hne := huse.ne hforce hcheck
    exact (deleteImage_keeps hdel hne ⟨hkept.1, (untagAll_keeps h hne hkept.2 huntag).2⟩).1
  | case6 d imgID records force prune quiet hcheck parent records' st huntag layers d' hdel
    records'' hprune _ ih =>
    have hne := huse.ne hforce hcheck
    obtain ⟨hproper, hrefs⟩ := untagAll_keeps h hne hkept.2 huntag
    obtain ⟨hkept', hst, hcont⟩ := deleteImage_keeps hdel hne ⟨hkept.1, hrefs⟩
    refine ih rfl (by rwa [hst]) ?_ hkept'
    rw [InUse, hcont]
    exact huse

/-! ## The references that a call removes -/

theorem isImageIDPrefix_of_inl (h : parseIDOrReference s = .ok (.inl id)) :
    isImageIDPrefix id s = true := by
  have hid : id = String.ofList (if validateID s then "sha256:".toList ++ s else s) := by
    unfold parseIDOrReference at h
    dsimp only at h
    generalize (if validateID s then "sha256:".toList ++ s else s) = s' at h ⊢
    split at h
    · cases h
      rfl
    · revert h
      cases parseNamed s' <;> simp [Except.map]
  rw [hid, isImageIDPrefix, String.toList_ofList]
  split
  · have hcut : cut ':' ("sha256:".toList ++ s) = ("sha256".toList, some s) :=
      cut_append (s := "sha256".toList) (by decide)
    rw [hcut]
    simp
  · simp

/-- Without an id, the image is the one that the reference is associated with. -/
theorem parse_of_getImageID (hget : d.getImageID cd imageRef = .ok imgID)
    (hid : isImageIDPrefix imgID imageRef = false) (hparse : parseNamed imageRef = .ok ref)
    (hfind : d.referenceStore.find (withDefaultTag ref) = some (name, refStr, id)) :
    parseIDOrReference imageRef = .ok (.inr ref) ∧ id = imgID := by
  cases hor : parseIDOrReference imageRef with
  | error e =>
    rw [getImageID, hor] at hget
    cases hget
  | ok x =>
    cases x with
    | inl id' =>
      simp only [getImageID, hor] at hget
      split at hget <;> cases hget
      rw [isImageIDPrefix_of_inl hor] at hid
      cases hid
    | inr ref' =>
      cases (parseIDOrReference_eq_inr hor).symm.trans hparse
      rw [getImageID_of_find hor hfind] at hget
      cases hget
      exact ⟨rfl, rfl⟩

theorem removedDigests_sublist : (removedDigests st imgID ref).Sublist (st.references imgID) := by
  unfold removedDigests
  split
  · exact nil_sublist _
  · exact cleaned_sublist

/-- `untagReference` removes nothing, or the reference it was given for. -/
theorem untagReference_cases (h : Proper d.referenceStore)
    (hget : d.getImageID cd imageRef = .ok imgID)
    (hid : isImageIDPrefix imgID imageRef = false) (force : Bool) :
    (d.untagReference imgID imageRef force).2 = d.referenceStore ∨
    ∃ ref a, parseIDOrReference imageRef = .ok (.inr ref) ∧ d.blocking imgID force = none ∧
      d.referenceStore.find (withDefaultTag ref) = some (a.name, a.string, imgID) ∧
      Found d.referenceStore (withDefaultTag ref) a imgID := by
  cases hblock : d.blocking imgID force with
  | some c => exact .inl (by rw [untagReference_of_blocking hblock])
  | none =>
    cases hparse : parseNamed imageRef with
    | error e =>
      left
      simp only [untagReference, ← blocking.eq_1, hblock, hparse]
    | ok ref =>
      cases hfind : d.referenceStore.find (withDefaultTag ref) with
      | none =>
        left
        simp only [untagReference, ← blocking.eq_1, hblock, hparse, removeImageRef, delete,
          Proper.withDefaultTag_idem, hfind]
        rfl
      | some found =>
        obtain ⟨name, refStr, id⟩ := found
        obtain ⟨hor, rfl⟩ := parse_of_getImageID hget hid hparse hfind
        obtain ⟨a, rfl, rfl, hfound⟩ := h.found hfind
        exact .inr ⟨ref, a, hor, rfl, hfind, hfound⟩

theorem untag_of_id (hid : isImageIDPrefix imgID imageRef = true) :
    d.untag imgID imageRef force = d.untagImage imgID force := by
  simp [untag, hid]

theorem untag_of_not_id (hid : isImageIDPrefix imgID imageRef = false) :
    d.untag imgID imageRef force = d.untagReference imgID imageRef force := by
  simp [untag, hid]

theorem untag_store (h : Proper d.referenceStore) (hget : d.getImageID cd imageRef = .ok imgID)
    (force : Bool) :
    ∃ gone : List Named, (∀ r ∈ gone, d.referenceStore.association r = some imgID) ∧ gone.Nodup ∧
      (d.untag imgID imageRef force).2 = d.referenceStore.dissociateAll imgID gone := by
  cases hid : isImageIDPrefix imgID imageRef with
  | true =>
    rw [untag_of_id hid]
    obtain he | ⟨-, he⟩ := untagImage_store h imgID force
    · exact ⟨[], by simp, nodup_nil, he⟩
    · exact ⟨_, fun r hr => h.mem_references.1 ((takeWhile_sublist _).subset hr),
        (h.nodup_references imgID).sublist (takeWhile_sublist _), he⟩
  | false =>
    rw [untag_of_not_id hid]
    obtain he | ⟨ref, a, hparse, hblock, hfind, hfound⟩ := untagReference_cases h hget hid force
    · exact ⟨[], by simp, nodup_nil, he⟩
    have ha := hfound.association
    have hsub : ∀ r ∈ removedDigests (d.referenceStore.dissociate a imgID) imgID
        (withDefaultTag ref),
        r ≠ a ∧ d.referenceStore.association r = some imgID := by
      intro r hr
      have hr := (h.dissociate ha).mem_references.1 (removedDigests_sublist.subset hr)
      rw [association_dissociate] at hr
      split at hr
      · cases hr
      · next hne => exact ⟨hne, hr⟩
    refine ⟨a :: removedDigests (d.referenceStore.dissociate a imgID) imgID
      (withDefaultTag ref), ?_, ?_, ?_⟩
    · exact forall_mem_cons.2 ⟨ha, fun r hr => (hsub r hr).2⟩
    · refine nodup_cons.2 ⟨fun hmem => (hsub a hmem).1 rfl, ?_⟩
      exact ((h.dissociate ha).nodup_references imgID).sublist removedDigests_sublist
    · exact untagReference_store h (parseIDOrReference_eq_inr hparse) hfind hblock hfound

/-! ## The last reference of an image in use -/

/-- A tag of an image in use is given without its registry, and all other references are digests,
not all of this repository. -/
structure Strands (d : Daemon) (imageRef : Str) (ref a : Named) (imgID : ID) : Prop where
  parse : parseIDOrReference imageRef = .ok (.inr ref)
  tag : ref.isCanonical = false
  unqualified : isReferenceFullyQualified ref = false
  find : d.referenceStore.find (withDefaultTag ref) = some (a.name, a.string, imgID)
  id : isImageIDPrefix imgID imageRef = false
  image : imgID ∈ d.imageStore.images
  inUse : d.InUse imgID
  others : ∀ r, d.referenceStore.association r = some imgID → r = a ∨
    r.isCanonical = true ∧ r.Settled
  elsewhere : ∃ digest, d.referenceStore.association digest = some imgID ∧ digest.name ≠ a.name

theorem Strands.untag (h : Proper d.referenceStore) (hs : Strands d imageRef ref a imgID) :
    ∀ r, (d.untag imgID imageRef false).2.association r ≠ some imgID := by
  intro r hr
  obtain ⟨a', hname, hstr, hfound⟩ := h.found hs.find
  obtain rfl := Named.string_inj hstr
  have ha := hfound.association
  have hatag : a.isCanonical = false := by
    rw [isCanonical_of_kind hfound.kind, isCanonical_withDefaultTag, hs.tag]
  have hblock : d.blocking imgID false = none := by
    rw [blocking, if_neg]
    rw [Bool.not_false, Bool.true_and, isSingleReference_iff (h.nodup_references imgID)
      (h.mem_references.2 ha) hatag]
    intro hall
    obtain ⟨digest, hdigest, hne⟩ := hs.elsewhere
    obtain rfl | ⟨-, hname⟩ := hall digest (h.mem_references.2 hdigest)
    exacts [hne rfl, hne hname]
  have hparse := parseIDOrReference_eq_inr hs.parse
  rw [untag_of_not_id hs.id] at hr
  have hr' : r ≠ a ∧ d.referenceStore.association r = some imgID := by
    rw [untagReference_store h hparse hs.find hblock hfound, association_dissociateAll,
      association_dissociate] at hr
    split at hr
    · cases hr
    · split at hr
      · cases hr
      · next hne => exact ⟨hne, hr⟩
  obtain ⟨hcan, hset⟩ := (hs.others r hr'.2).resolve_left hr'.1
  have hnone :=
    (association_untagReference_eq_none h hparse hs.tag hs.find hblock hfound hr'.2 hcan).2
  rw [hs.unqualified, if_neg Bool.false_ne_true] at hnone
  refine absurd (hnone ⟨?_, fun x hx _ => ?_, hset⟩) (by rw [hr]; simp)
  · rintro ⟨t, ht, -, hne, hassoc⟩
    rw [((hs.others t hassoc).resolve_left hne).1] at ht
    cases ht
  · have hx : x.Settled := by
      obtain rfl | hx := hs.others x hx
      exacts [hfound.settled, hx.2]
    exact ⟨{ x with kind := .nameOnly, kind_valid := rfl },
      withName_eq_ok.2 ⟨x.normalize_name_iff.2 hx, rfl⟩⟩

/-- There is no other way to remove the last reference of an image in use. -/
theorem strands_of_untag (h : Proper d.referenceStore) (hget : d.getImageID cd imageRef = .ok imgID)
    (huse : d.InUse imgID) (hkept : d.Kept imgID)
    (hnone : ∀ r, (d.untag imgID imageRef false).2.association r ≠ some imgID) :
    ∃ ref a, Strands d imageRef ref a imgID := by
  have hchanged : (d.untag imgID imageRef false).2 ≠ d.referenceStore := by
    intro hsame
    obtain ⟨r, hr⟩ := h.references_ne_nil.1 hkept.2
    exact hnone r (hsame ▸ hr)
  cases hid : isImageIDPrefix imgID imageRef with
  | true =>
    rw [untag_of_id hid] at hchanged
    exact absurd huse.untagImage hchanged
  | false =>
    rw [untag_of_not_id hid] at hchanged hnone
    obtain ⟨ref, a, hparse, hblock, hfind, hfound⟩ :=
      (untagReference_cases h hget hid false).resolve_left hchanged
    have ha := hfound.association
    -- every other reference was removed with the tag
    have hremoved : ∀ r, d.referenceStore.association r = some imgID → r ≠ a →
        r ∈ removedDigests (d.referenceStore.dissociate a imgID) imgID (withDefaultTag ref) := by
      intro r hr hne
      by_contra hmem
      refine hnone r ?_
      rw [untagReference_store h (parseIDOrReference_eq_inr hparse) hfind hblock hfound,
        association_dissociateAll, if_neg hmem, association_dissociate, if_neg hne, hr]
    have hsingle := huse.blocking hblock
    have htag : (withDefaultTag ref).isCanonical = false := by
      by_contra hcan
      have hall : ∀ r ∈ d.referenceStore.references imgID, r = a := by
        intro r hr
        by_contra hne
        have hmem := hremoved r (h.mem_references.1 hr) hne
        rw [removedDigests, Bool.eq_true_of_not_eq_false hcan, Bool.true_or, if_pos rfl] at hmem
        cases hmem
      rw [eq_singleton_of_nodup (h.nodup_references imgID) hkept.2 hall] at hsingle
      cases hsingle
    have hatag : a.isCanonical = false := by rw [isCanonical_of_kind hfound.kind, htag]
    have hnot : ¬ ∀ r ∈ d.referenceStore.references imgID, r = a ∨ r.isCanonical = true ∧
        r.name = a.name := by
      rw [← isSingleReference_iff (h.nodup_references imgID) (h.mem_references.2 ha) hatag, hsingle]
      exact Bool.false_ne_true
    push Not at hnot
    obtain ⟨digest, hdigest, hne, hname⟩ := hnot
    have hdigest := h.mem_references.1 hdigest
    have hspec : ∀ r, d.referenceStore.association r = some imgID → r ≠ a → _ := fun r hr hne =>
      (mem_removedDigests h hfound htag).1 (hremoved r hr hne)
    have hq : isReferenceFullyQualified (withDefaultTag ref) = false := by
      by_contra hq
      obtain ⟨-, -, hcan, hsame⟩ := hspec digest hdigest hne
      rw [if_pos (Bool.eq_true_of_not_eq_false hq)] at hsame
      exact hname hcan hsame
    simp only [hq, Bool.false_eq_true, if_false] at hspec
    rw [isCanonical_withDefaultTag] at htag
    rw [isReferenceFullyQualified_withDefaultTag] at hq
    refine ⟨ref, a, hparse, htag, hq, hfind, hid, hkept.1, huse, fun r hr =>
      ?_, digest, hdigest, ?_⟩
    · refine or_iff_not_imp_left.2 fun hne => ?_
      obtain ⟨-, -, hcan, -, hset⟩ := hspec r hr hne
      exact ⟨hcan, hset⟩
    · exact hname (hspec digest hdigest hne).2.2.1

/-- A call without `force` leaves every image that is in use and has a reference with one, if and
only if it does not remove digests of another repository with the last tag. -/
theorem stranded_iff (cd : Codec) (release : ID → Except String (List ChainID)) (d : Daemon)
    (h : Proper d.referenceStore) (imageRef : Str) (prune : Bool) :
    (∀ id, d.InUse id → d.Kept id → (d.imageDelete cd release imageRef false prune).2.2.Kept id) ↔
      ¬ ∃ ref a imgID, Strands d imageRef ref a imgID := by
  constructor
  · rintro hall ⟨ref, a, imgID, hs⟩
    have hget : d.getImageID cd imageRef = .ok imgID := getImageID_of_find hs.parse hs.find
    obtain ⟨gone, hgone, hnodup, hst⟩ := untag_store h hget false
    have hproper : Proper (d.untag imgID imageRef false).2 := hst ▸ h.dissociateAll hgone hnodup
    have hnil := hproper.references_eq_nil.2 (hs.untag h)
    have hrefs : d.referenceStore.references imgID ≠ [] :=
      h.references_ne_nil.2 ⟨a, Reference.Store.get_of_find hs.find⟩
    refine (hall imgID hs.inUse ⟨hs.image, hrefs⟩).2 ?_
    rw [hs.inUse.imageDelete hget, hnil]
  · intro hnot id huse hkept
    unfold imageDelete
    split
    · exact hkept
    · next imgID hget =>
      obtain ⟨gone, hgone, hnodup, hst⟩ := untag_store h hget false
      have hproper : Proper (d.untag imgID imageRef false).2 := hst ▸ h.dissociateAll hgone hnodup
      have hkept' : (d.untag imgID imageRef false).2.references id ≠ [] := by
        by_cases hid : id = imgID
        · subst hid
          rw [hproper.references_ne_nil]
          by_contra hnone
          obtain ⟨ref, a, hs⟩ := strands_of_untag h hget huse hkept (not_exists.1 hnone)
          exact hnot ⟨ref, a, id, hs⟩
        · exact hst ▸ references_dissociateAll h hgone hnodup hid hkept.2
      split
      · next records err st huntag =>
        rw [huntag] at hkept'
        exact ⟨hkept.1, hkept'⟩
      · next records removed st huntag =>
        rw [huntag] at hkept' hproper
        exact imageDeleteHelper_keeps rfl hproper huse ⟨hkept.1, hkept'⟩

/-- The image of `docker.io/foo:1` and of a digest of another repository, with a stopped
container. -/
def twoRepositories : Daemon where
  imageStore := (({} : Image.Store).create Image.twoImages (fun _ => true) [1]).2
  referenceStore := Reference.Store.run { defaultRegistries := ["docker.io".toList] }
    [.addTag dockerFoo1 exampleID false, .addDigest barDigest exampleID false]
  containers := [{ id := "c", imageID := exampleID, running := false }]

/-- With the registry, the digest of the other repository stays. -/
theorem stranded_iff_qualified : twoRepositories.Kept exampleID ∧
    (twoRepositories.imageDelete Image.twoImages (fun _ => .ok []) "docker.io/foo:1".toList false
      true).2.2.Kept
      exampleID := by
  have hkept : twoRepositories.Kept exampleID := by
    constructor <;> decide +kernel
  refine ⟨hkept, (stranded_iff Image.twoImages (fun _ => .ok []) twoRepositories
    ((Proper.empty _).run _) "docker.io/foo:1".toList true).2
    ?_ exampleID ⟨_, mem_cons_self, rfl⟩ hkept⟩
  rintro ⟨ref, a, imgID, hs⟩
  have hparse : parseIDOrReference "docker.io/foo:1".toList = .ok (.inr dockerFoo1) := by
    decide +kernel
  cases hparse.symm.trans hs.parse
  have hq := hs.unqualified
  revert hq
  decide +kernel

/-- Without the registry, both references go, and the image of the container has none. -/
theorem imageDelete_strands : twoRepositories.InUse exampleID ∧ twoRepositories.Kept exampleID ∧
    (twoRepositories.imageDelete Image.twoImages
      (fun _ => .ok []) "foo:1".toList false false).2.2.referenceStore.references
      exampleID = [] := by
  have huse : twoRepositories.InUse exampleID := ⟨_, mem_cons_self, rfl⟩
  refine ⟨huse, by constructor <;> decide +kernel, ?_⟩
  have hget : twoRepositories.getImageID Image.twoImages "foo:1".toList = .ok exampleID := by
    decide +kernel
  have huntag : (twoRepositories.untag exampleID "foo:1".toList false).2.references
      exampleID = [] := by
    decide +kernel
  rw [huse.imageDelete hget, huntag]

end Daemon

end Docker
