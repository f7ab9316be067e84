import Docker.Daemon.ImageDelete
import Docker.Reference.Matching
import Docker.Registry.Endpoints

/-!
# Pulling an image for a build

`distribution/pull.go`, what `pull_v1.go` and `pull_v2.go` do with the reference store, and
`PullOnBuild` in `daemon/image_pull.go`, which looks the name up again once the pull has returned.
How an attempt at an endpoint ends is a parameter. Pulling all tags of a repository is left out:
`PullOnBuild` gives every name a tag.

A pull returns nil in the source; here it returns the reference that was pulled and the image.
-/

namespace Docker.Distribution

open List Option

open Image (ID Codec)
open Reference Registry Fallible

structure Failure where
  /-- The error is a `fallbackError`, and the pull was not cancelled. -/
  fallback : Bool
  confirmedV2 : Bool := false
  transportOK : Bool := false
  /-- `ErrNoSupport` -/
  noSupport : Bool := false
  deriving DecidableEq

/-- How the attempts end, by the number of the registry and of the endpoint. -/
structure Attempts where
  /-- A V2 endpoint delivers an image and the digest of its manifest. -/
  v2 : Nat → Nat → Except Failure (ID × Str)
  /-- The images a V1 endpoint delivers for the tag: the last one, if there is no failure, behind
  others. -/
  v1 : Nat → Nat → List ID × Except Failure ID

inductive PullError where
  /-- `No configured registry to pull from.` -/
  | noRegistry
  /-- `Repository name can't be empty` -/
  | emptyName
  /-- `'scratch' is a reserved name` -/
  | reservedName
  /-- `Failed to fully qualify %q name with %q registry: %v` -/
  | notQualified (name indexName : Str) (e : Reference.Error)
  | registry (e : Registry.Error)
  | puller (f : Failure)
  /-- `no endpoints found for %s` -/
  | noEndpoints (ref : Str)
  deriving DecidableEq

inductive TagError where
  | reference (e : Reference.Error)
  | store (e : StoreError)
  deriving DecidableEq

def validateRepoName (name : Str) : Except PullError Unit :=
  if name = [] then .error .emptyName
  else if trimPrefix (indexName ++ ['/']) name = "scratch".toList then .error .reservedName
  else .ok ()

/-! ## Storing what was pulled -/

section
variable (st : Store) (ref : Named) (imageID : ID) (manifestDigest : Str)

def storeResult : Except StoreError Unit × Store → Except TagError Unit × Store
  | (.ok _, st) => (.ok (), st)
  | (.error e, st) => (.error (.store e), st)

/-- A digest that is known is not updated. -/
def addDigestReference : Except TagError Unit × Store :=
  match h : withDigest ref manifestDigest with
  | .error e => (.error (.reference e), st)
  | .ok dgstRef =>
    match st.get dgstRef with
    | .ok _ => (.ok (), st)
    | .error .doesNotExist =>
      storeResult
        (st.addDigest ⟨dgstRef, by rw [Named.isCanonical, (withDigest_eq_ok.1 h).2]⟩ imageID true)
    | .error e => (.error (.store e), st)

def addTagAndDigest : Except TagError Unit × Store :=
  if h : ref.isCanonical = true then storeResult (st.addDigest ⟨ref, h⟩ imageID true)
  else
    match addDigestReference st ref imageID manifestDigest with
    | (.error e, st) => (.error e, st)
    | (.ok _, st) => storeResult (st.addTag ref imageID true)

/-- The end of `pullV2Tag`: a tag that is unchanged is left alone. -/
def pullV2Tag : Except TagError Unit × Store :=
  match st.get ref with
  | .ok oldTagImageID =>
    if oldTagImageID = imageID then addDigestReference st ref imageID manifestDigest
    else addTagAndDigest st ref imageID manifestDigest
  | .error .doesNotExist => addTagAndDigest st ref imageID manifestDigest
  | .error e => (.error (.store e), st)

end

/-- `AddTag` for the images that a V1 endpoint delivers, one after another. -/
def addTags (ref : Named) : List ID → Store → Except TagError Unit × Store
  | [], st => (.ok (), st)
  | id :: ids, st =>
    match st.addTag ref id true with
    | (.error e, st) => (.error (.store e), st)
    | (.ok _, st) => addTags ref ids st

def localNameRef (info : RepositoryInfo) (ref : Named) : Named :=
  { info.named with kind := ref.kind, kind_valid := ref.kind_valid }

/-! ## Pulling from a registry -/

section
variable (net : Net Addr Subnet) (r : Registries) (config : ServiceConfig Subnet)
  (attempts : Attempts)

def pullV2 (i j : Nat) (ref : Named) (st : Store) : Except Failure ID × Store :=
  match attempts.v2 i j with
  | .error f => (.error f, st)
  | .ok (imageID, manifestDigest) =>
    match pullV2Tag st ref imageID manifestDigest with
    | (.ok _, st) => (.ok imageID, st)
    | (.error _, st) => (.error { fallback := true, confirmedV2 := true, transportOK := true }, st)

def pullV1 (i j : Nat) (info : RepositoryInfo) (ref : Named) (st : Store) :
    Except Failure ID × Store :=
  if ref.isCanonical then (.error { fallback := true, noSupport := true }, st)
  else
    match attempts.v1 i j with
    | (ids, .error f) => (.error f, (addTags (localNameRef info ref) ids st).2)
    | (ids, .ok id) =>
      match addTags (localNameRef info ref) (ids ++ [id]) st with
      | (.ok _, st) => (.ok id, st)
      | (.error _, st) => (.error { fallback := false }, st)

structure Progress where
  lastErr : Option Failure := none
  discardNoSupportErrors : Bool := false
  confirmedV2 : Bool := false
  confirmedTLSRegistries : List Str := []

namespace Progress

variable (p : Progress) (endpoint : APIEndpoint)

/-- No V1 endpoint for a V2 registry, and no plain HTTP for one that uses TLS. -/
def skips : Bool :=
  p.confirmedV2 && endpoint.version == .v1 ||
    endpoint.url.scheme != https && p.confirmedTLSRegistries.contains endpoint.url.host

def after (f : Failure) : Progress where
  confirmedV2 := p.confirmedV2 || f.confirmedV2
  confirmedTLSRegistries :=
    if f.transportOK ∧ endpoint.url.scheme = https then endpoint.url.host ::
      p.confirmedTLSRegistries
    else p.confirmedTLSRegistries
  lastErr := if f.noSupport ∧ p.discardNoSupportErrors then p.lastErr else some f
  discardNoSupportErrors := p.discardNoSupportErrors || !f.noSupport

end Progress

def pullEndpoints (i : Nat) (info : RepositoryInfo) (ref : Named) :
    List APIEndpoint → Nat → Progress → Store → Except PullError ID × Store
  | [], _, p, st =>
    match p.lastErr with
    | some f => (.error (.puller f), st)
    | none => (.error (.noEndpoints ref.string), st)
  | endpoint :: endpoints, j, p, st =>
    if p.skips endpoint then pullEndpoints i info ref endpoints (j + 1) p st
    else
      match (match endpoint.version with
        | .v2 => pullV2 attempts i j ref st
        | .v1 => pullV1 attempts i j info ref st) with
      | (.ok id, st) => (.ok id, st)
      | (.error f, st) =>
        if f.fallback then pullEndpoints i info ref endpoints (j + 1) (p.after endpoint f) st
        else (.error (.puller f), st)

def pullFromRegistry (i : Nat) (ref : Named) (st : Store) : Except PullError ID × Store :=
  match newRepositoryInfo net r config ref with
  | .error e => (.error (.registry e), st)
  | .ok info =>
    match validateRepoName info.named.name with
    | .error e => (.error e, st)
    | .ok _ =>
      match lookupPullEndpoints net r config info.named.hostname with
      | .error e => (.error (.registry e), st)
      | .ok endpoints => pullEndpoints attempts i info ref endpoints 0 {} st

/-- The default registries are tried until one of them has the image. -/
def pullRegistries (ref : Named) : Nat → List Str → Store → Except PullError (Named × ID) × Store
  | _, [], st => (.error .noRegistry, st)
  | i, indexName :: registries, st =>
    match qualifyUnqualifiedReference ref indexName with
    | .error e =>
      if registries = [] then (.error (.notQualified ref.name indexName e), st)
        else pullRegistries ref (i + 1) registries st
    | .ok fqr =>
      match pullFromRegistry net r config attempts i fqr st with
      | (.ok id, st) => (.ok (fqr, id), st)
      | (.error e, st) =>
        if registries = [] then (.error e, st) else pullRegistries ref (i + 1) registries st

def pull (ref : Named) (st : Store) : Except PullError (Named × ID) × Store :=
  if isReferenceFullyQualified ref then
    match pullFromRegistry net r config attempts 0 ref st with
    | (.ok id, st) => (.ok (ref, id), st)
    | (.error e, st) => (.error e, st)
  else if r.defaults = [] then (.error .noRegistry, st)
  else
    match validateRepoName ref.name with
    | .error e => (.error e, st)
    | .ok _ => pullRegistries net r config attempts ref 0 r.defaults st

inductive BuildError where
  | reference (e : Reference.Error)
  | pull (e : PullError)
  | getImageID (e : Daemon.Error)
  /-- The error of `imageStore.Get`. -/
  | getImage (id : ID)
  deriving DecidableEq

/-- The image that a build uses, where `images` is the image store once the pull has returned. -/
def pullOnBuild (cd : Codec) (images : Image.Store) (d : Daemon) (name : Str) :
    Except BuildError ID :=
  match parseNamed name with
  | .error e => .error (.reference e)
  | .ok ref =>
    match pull net r config attempts (withDefaultTag ref) d.referenceStore with
    | (.error e, _) => .error (.pull e)
    | (.ok _, st) =>
      match Daemon.getImageID cd { d with imageStore := images, referenceStore := st } name with
      | .error e => .error (.getImageID e)
      | .ok id => if (images.get cd id).isSome then .ok id else .error (.getImage id)

end

/-! ## What a pull does to the reference store -/

section
variable {st st' : Store} {ref fqr : Named}

theorem snd_storeResult (x : Except StoreError Unit × Store) : (storeResult x).2 = x.2 := by
  obtain ⟨_ | _, _⟩ := x <;> rfl

theorem storeResult_eq_ok (h : storeResult x = (.ok (), st')) : x = (.ok (), st') := by
  obtain ⟨_ | _, _⟩ := x <;> cases h
  rfl

theorem added_addDigestReference :
    Store.Added (fun r => r.isCanonical = true) st
      (addDigestReference st ref imageID manifestDigest).2 := by
  unfold addDigestReference
  split
  · exact .refl
  · next dgstRef h =>
    split
    · exact .refl
    · rw [snd_storeResult]
      exact Store.Added.addReference (by rw [Named.isCanonical, (withDigest_eq_ok.1 h).2])
    · exact .refl

theorem added_addTagAndDigest : Store.Added (fun _ => True) st
    (addTagAndDigest st ref imageID manifestDigest).2 := by
  unfold addTagAndDigest
  split
  · rw [snd_storeResult]
    exact Store.Added.addReference trivial
  · have hdigest : Store.Added (fun _ => True) st
        (addDigestReference st ref imageID manifestDigest).2 :=
      added_addDigestReference.mono fun _ _ => trivial
    split
    · next e st₁ he => exact he ▸ hdigest
    · next st₁ he =>
      rw [he] at hdigest
      rw [snd_storeResult]
      exact hdigest.trans (Store.Added.addTag trivial)

theorem added_pullV2Tag : Store.Added (fun _ => True) st
    (pullV2Tag st ref imageID manifestDigest).2 := by
  unfold pullV2Tag
  split
  · split
    · exact added_addDigestReference.mono fun _ _ => trivial
    · exact added_addTagAndDigest
  · exact added_addTagAndDigest
  · exact .refl

theorem added_addTags (ids : List ID) : Store.Added (fun _ => True) st (addTags ref ids st).2 := by
  induction ids generalizing st with
  | nil => exact .refl
  | cons id ids ih =>
    have htag : Store.Added (fun _ => True) st (st.addTag ref id true).2 :=
      Store.Added.addTag trivial
    unfold addTags
    split
    · next e st₁ he =>
      rw [he] at htag
      exact htag
    · next st₁ he =>
      rw [he] at htag
      exact htag.trans ih

/-! ## What is stored under the reference -/

theorem association_addTag (hok : st.addTag ref imageID true = (.ok (), st')) :
    st'.association (withDefaultTag ref) = some imageID := by
  have hadds : Store.Adds ref imageID (.addTag ref imageID true) := ⟨rfl, rfl⟩
  have hassoc := Store.association_of_adds hadds (congrArg Prod.fst hok)
  rwa [Store.exec, hok] at hassoc

theorem isCanonical_of_tagged (htag : ref.kind = .tagged tag) : ref.isCanonical = false := by
  rw [Named.isCanonical, htag]

theorem withDefaultTag_of_tagged (htag : ref.kind = .tagged tag) : withDefaultTag ref = ref := by
  rw [withDefaultTag, if_neg]
  simp [Named.isNameOnly, htag]

theorem association_addTagAndDigest (htag : ref.kind = .tagged tag)
    (h : addTagAndDigest st ref imageID manifestDigest = (.ok (), st')) :
    st'.association ref = some imageID := by
  rw [addTagAndDigest, dif_neg (by simp [isCanonical_of_tagged htag])] at h
  split at h
  · cases h
  · exact withDefaultTag_of_tagged htag ▸ association_addTag (storeResult_eq_ok h)

theorem association_pullV2Tag (hst : st.OwnNames) (hq : isReferenceFullyQualified ref = true)
    (htag : ref.kind = .tagged tag) (h : pullV2Tag st ref imageID manifestDigest = (.ok (), st')) :
    st'.association ref = some imageID := by
  unfold pullV2Tag at h
  split at h
  · next old hget =>
    split at h
    · next he =>
      -- the reference is qualified, so that it was looked up under its own name only
      rw [hst.get_eq_ok, withDefaultTag_of_tagged htag, Store.candidates, if_pos hq,
        findSome?_singleton,
        Store.visible] at hget
      split at hget
      · have hsame : (addDigestReference st ref imageID manifestDigest).2.association ref =
            st.association ref :=
          added_addDigestReference.association (by simp [isCanonical_of_tagged htag])
        rw [h] at hsame
        rw [hsame, hget, he]
      · cases hget
    · exact association_addTagAndDigest htag h
  · exact association_addTagAndDigest htag h
  · cases h

theorem association_addTags (htag : ref.kind = .tagged tag)
    (h : addTags ref (ids ++ [imageID]) st = (.ok (), st')) :
    st'.association ref = some imageID := by
  induction ids generalizing st with
  | nil =>
    rw [nil_append, addTags] at h
    split at h
    · cases h
    · next st₁ he =>
      cases h
      exact withDefaultTag_of_tagged htag ▸ association_addTag he
  | cons id ids ih =>
    rw [cons_append, addTags] at h
    split at h
    · cases h
    · exact ih h

end

/-- A step of a pull adds references, and at the end the image is the one that the reference is
associated with. -/
structure Pulls {ε : Type} (ref : Named) (st : Store) (x : Except ε ID × Store) : Prop where
  added : Store.Added (fun _ => True) st x.2
  association : st.OwnNames → isReferenceFullyQualified ref = true → ∀ tag, ref.kind = .tagged tag →
    ∀ id, x.1 = .ok id → x.2.association ref = some id

section
variable {net : Net Addr Subnet} {r : Registries} {config : ServiceConfig Subnet}
  {attempts : Attempts}
variable {i j : Nat} {st st' : Store} {ref fqr : Named} {id : ID}

namespace Pulls

theorem error {e : ε} (h : Store.Added (fun _ => True) st st') : Pulls ref st (.error e, st') where
  added := h
  association _ _ _ _ _ h := nomatch h

theorem trans {e : ε'} (h : Pulls (ε := ε') ref st (.error e, st')) (hx : Pulls ref st' x) :
    Pulls ref st x where
  added := h.added.trans hx.added
  association hst := hx.association (h.added.ownNames hst)

end Pulls

theorem pullV2_pulls : Pulls ref st (pullV2 attempts i j ref st) := by
  unfold pullV2
  split
  · exact .error .refl
  · next imageID manifestDigest _ =>
    have hadded : Store.Added (fun _ => True) st (pullV2Tag st ref imageID manifestDigest).2 :=
      added_pullV2Tag
    split
    · next st₁ he =>
      rw [he] at hadded
      refine ⟨hadded, fun hst hq tag htag id hid => ?_⟩
      cases hid
      exact association_pullV2Tag hst hq htag he
    · next he =>
      rw [he] at hadded
      exact .error hadded

/-- The tag is stored under the name of the repository, which is that of a qualified reference. -/
theorem pullV1_pulls (hinfo : isReferenceFullyQualified ref = true → localNameRef info ref = ref) :
    Pulls ref st (pullV1 attempts i j info ref st) := by
  unfold pullV1
  split
  · exact .error .refl
  · split
    · exact .error (added_addTags _)
    · next ids id _ =>
      have hadded : Store.Added (fun _ => True) st
          (addTags (localNameRef info ref) (ids ++ [id]) st).2 :=
        added_addTags _
      split
      · next st₁ he =>
        rw [he] at hadded
        refine ⟨hadded, fun _ hq tag htag id' hid => ?_⟩
        cases hid
        rw [hinfo hq] at he
        exact association_addTags htag he
      · next he =>
        rw [he] at hadded
        exact .error hadded

theorem pullEndpoints_pulls
    (hinfo : isReferenceFullyQualified ref = true → localNameRef info ref = ref)
    (endpoints : List APIEndpoint) (p : Progress) :
    Pulls ref st (pullEndpoints attempts i info ref endpoints j p st) := by
  induction endpoints generalizing j p st with
  | nil =>
    unfold pullEndpoints
    split <;> exact .error .refl
  | cons endpoint endpoints ih =>
    have hpuller : Pulls ref st (match endpoint.version with
        | .v2 => pullV2 attempts i j ref st
        | .v1 => pullV1 attempts i j info ref st) := by
      split
      · exact pullV2_pulls
      · exact pullV1_pulls hinfo
    unfold pullEndpoints
    split
    · exact ih p
    · split
      · next he =>
        rw [he] at hpuller
        refine ⟨hpuller.added, fun hst hq tag htag id hid =>
          hpuller.association hst hq tag htag id ?_⟩
        cases hid
        rfl
      · next f st₁ he =>
        rw [he] at hpuller
        split
        · exact hpuller.trans (ih _)
        · exact .error hpuller.added

theorem localNameRef_eq (h : newRepositoryInfo net r config ref = .ok info)
    (hq : isReferenceFullyQualified ref = true) :
    localNameRef info ref = ref := by
  obtain ⟨⟨name, named⟩, hqual, h⟩ := bind_eq_ok.1 h
  rw [qualify, if_neg (hostname_ne_nil hq)] at hqual
  cases hqual
  obtain ⟨index, _, h⟩ := bind_eq_ok.1 h
  cases h
  rfl

theorem pullFromRegistry_pulls : Pulls ref st
    (pullFromRegistry net r config attempts i ref st) := by
  unfold pullFromRegistry
  split
  · exact .error .refl
  · next info hinfo =>
    split
    · exact .error .refl
    · split
      · exact .error .refl
      · exact pullEndpoints_pulls (localNameRef_eq hinfo) _ _

/-- The reference that was pulled is one of those that are looked at. -/
theorem pullRegistries_pulled
    (h : pullRegistries net r config attempts ref i registries st = (.ok (fqr, pulled), st')) :
    (∃ indexName ∈ registries, qualifyUnqualifiedReference ref indexName = .ok fqr) ∧
      Store.Added (fun _ => True) st st' ∧
      (st.OwnNames → isReferenceFullyQualified fqr = true → ∀ tag, fqr.kind = .tagged tag →
        st'.association fqr = some pulled) := by
  induction registries generalizing i st with
  | nil => cases h
  | cons indexName registries ih =>
    unfold pullRegistries at h
    split at h
    · split at h
      · cases h
      · obtain ⟨⟨n, hn, hfqr⟩, hrest⟩ := ih h
        exact ⟨⟨n, mem_cons_of_mem _ hn, hfqr⟩, hrest⟩
    · next fqr' hfqr =>
      have hpulls : Pulls fqr' st (pullFromRegistry net r config attempts i fqr' st) :=
        pullFromRegistry_pulls
      split at h
      · next id st₁ he =>
        cases h
        rw [he] at hpulls
        exact ⟨⟨indexName, mem_cons_self, hfqr⟩, hpulls.added, fun hst hq tag htag =>
          hpulls.association hst hq tag htag _ rfl⟩
      · next e st₁ he =>
        rw [he] at hpulls
        split at h
        · cases h
        · obtain ⟨⟨n, hn, hfqr⟩, hadded, hassoc⟩ := ih h
          exact ⟨⟨n, mem_cons_of_mem _ hn, hfqr⟩, hpulls.added.trans hadded, fun hst =>
            hassoc (hpulls.added.ownNames hst)⟩

/-- The same for a pull, where the candidates are those of the store after it. -/
theorem pull_pulled (hst : st.OwnNames) (hdefaults : st.defaultRegistries = r.defaults)
    (htag : ref.kind = .tagged tag)
    (h : pull net r config attempts ref st = (.ok (fqr, pulled), st')) :
    fqr ∈ st'.candidates ref ∧ st'.OwnNames ∧
      (isReferenceFullyQualified fqr = true → st'.association fqr = some pulled) := by
  unfold pull at h
  split at h
  · next hq =>
    have hpulls : Pulls ref st (pullFromRegistry net r config attempts 0 ref st) :=
      pullFromRegistry_pulls
    split at h
    · next id st₁ he =>
      cases h
      rw [he] at hpulls
      exact ⟨mem_cons_self, hpulls.added.ownNames hst, fun hq =>
        hpulls.association hst hq tag htag _ rfl⟩
    · cases h
  · next hq =>
    split at h
    · cases h
    · split at h
      · cases h
      · obtain ⟨⟨n, hn, hfqr⟩, hadded, hassoc⟩ := pullRegistries_pulled h
        refine ⟨?_, hadded.ownNames hst, fun hq => ?_⟩
        · rw [Store.candidates, if_neg hq, hadded.defaultRegistries, hdefaults]
          exact mem_cons_of_mem _ (mem_filterMap.2 ⟨n, hn, behind_eq_some.2 hfqr⟩)
        · exact hassoc hst hq tag ((kind_of_qualifyUnqualifiedReference hfqr).trans htag)

/-! ## The image a build uses -/

theorem exists_tag_withDefaultTag (h : ref.isCanonical = false) :
    ∃ tag, (withDefaultTag ref).kind = .tagged tag := by
  unfold withDefaultTag
  split
  · exact ⟨_, rfl⟩
  · next hname =>
    cases hkind : ref.kind with
    | nameOnly => simp [Named.isNameOnly, hkind] at hname
    | tagged tag => exact ⟨tag, rfl⟩
    | canonical digest => simp [Named.isCanonical, hkind] at h

/-- A value that is found is that of `c` iff nothing else is found in front of `c`. -/
theorem findSome?_eq_iff_takeWhile [DecidableEq α] {l : List α}
    (hc : c ∈ l) (ha : f c = some a) (hb : l.findSome? f = some b) :
    b = a ↔ ∀ i, (l.takeWhile (· ≠ c)).findSome? f = some i → i = a := by
  induction l with
  | nil => cases hc
  | cons x l ih =>
    by_cases hx : x = c
    · subst hx
      rw [findSome?_cons, ha] at hb
      simp [some_inj.1 hb]
    · have hc' : c ∈ l := (mem_cons.1 hc).resolve_left (Ne.symm hx)
      rw [takeWhile_cons_of_pos (by simpa using hx)]
      rw [findSome?_cons] at hb ⊢
      cases hfx : f x with
      | some y =>
        rw [hfx] at hb
        simp [some_inj.1 hb]
      | none =>
        rw [hfx] at hb
        exact ih hc' hb

variable {cd : Codec} {images : Image.Store} {d : Daemon} {name : Str}

/-- A build uses the image that was pulled iff no other image is found under an earlier
candidate. -/
theorem pullOnBuild_eq_pulled {pulled : ID} (hst : d.referenceStore.OwnNames)
    (hdefaults : d.referenceStore.defaultRegistries = r.defaults) (href : parseNamed name = .ok ref)
    (htag : ref.isCanonical = false) (hname : Daemon.parseIDOrReference name = .ok (.inr ref))
    (hpull : pull net r config attempts (withDefaultTag ref) d.referenceStore =
      (.ok (fqr, pulled), st))
    (hq : isReferenceFullyQualified fqr = true) (hset : fqr.Settled)
    (hbuild : pullOnBuild net r config attempts cd images d name = .ok id) :
    id = pulled ↔
      ∀ i, ((st.candidates (withDefaultTag ref)).takeWhile (· ≠ fqr)).findSome? st.visible =
        some i → i = pulled := by
  obtain ⟨tag, hkind⟩ := exists_tag_withDefaultTag htag
  obtain ⟨hmem, hown, hassoc⟩ := pull_pulled hst hdefaults hkind hpull
  have hvisible : st.visible fqr = some pulled := (Store.visible_of_settled hset).trans (hassoc hq)
  obtain ⟨found, hfound⟩ : ∃ found, (st.candidates (withDefaultTag ref)).findSome?
    st.visible = some found :=
    isSome_iff_exists.1 (findSome?_isSome_iff.2 ⟨fqr, hmem, isSome_iff_exists.2 ⟨pulled, hvisible⟩⟩)
  have hget : st.get ref = .ok found := hown.get_eq_ok.2 hfound
  simp only [pullOnBuild, href, hpull, Daemon.getImageID, hname, hget] at hbuild
  split at hbuild <;> cases hbuild
  exact findSome?_eq_iff_takeWhile hmem hvisible hfound

end

/-! ## Two registries -/

section

open Store (dockerFoo)

def exampleFooLatest : Named where
  name := "example.com/foo".toList
  kind := .tagged defaultTag
  name_valid := exampleFoo.name_valid
  kind_valid := fooLatest.kind_valid

def twoRegistries : Registries := ⟨[], [indexName, "example.com".toList]⟩

/-- Only the second registry has an image. -/
def secondAnswers : Attempts where
  v2 i _ := if i = 1 then .ok (Image.twoImages.fromBytes [1],
    (Image.twoImages.fromBytes [1]).toList)
    else .error { fallback := false }
  v1 _ _ := ([], .error { fallback := false })

def bothImages : Image.Store where
  fs :=
    { content := AList.insert (Image.twoImages.fromBytes [1]) [1]
        (AList.singleton (Image.twoImages.fromBytes [0]) [0]) }

def knows (refs : List Named) : Daemon where
  imageStore := bothImages
  referenceStore := Store.run { defaultRegistries := twoRegistries.defaults }
    (refs.map fun ref => .addTag ref (Image.twoImages.fromBytes [0]) true)
  containers := []

def pullSecond (d : Daemon) : Except PullError (Named × ID) × Store :=
  pull plainNet twoRegistries { mirrors := [], v2Only := true } secondAnswers fooLatest
    d.referenceStore

def pullSecondOnBuild (d : Daemon) : Except BuildError ID :=
  pullOnBuild plainNet twoRegistries { mirrors := [], v2Only := true } secondAnswers
    Image.twoImages bothImages d
    "foo:latest".toList

/-- The image of the second registry is pulled, and a build uses the one that was pulled from the
first registry before. -/
theorem pullOnBuild_stale : (pullSecond (knows [dockerFoo])).1 =
    .ok (exampleFooLatest, Image.twoImages.fromBytes [1]) ∧
    pullSecondOnBuild (knows [dockerFoo]) = .ok (Image.twoImages.fromBytes [0]) ∧
    Image.twoImages.fromBytes [0] ≠ Image.twoImages.fromBytes [1] := by
  decide +kernel

/-- The image that is known under the reference of the second registry is replaced. -/
theorem pullOnBuild_eq_pulled_second :
    ∃ st id, pullSecond (knows [exampleFooLatest]) =
      (.ok (exampleFooLatest, Image.twoImages.fromBytes [1]), st) ∧
      pullSecondOnBuild (knows [exampleFooLatest]) = .ok id ∧
        id = Image.twoImages.fromBytes [1] := by
  have hpull : (pullSecond (knows [exampleFooLatest])).1 =
      .ok (exampleFooLatest, Image.twoImages.fromBytes [1]) := by
    decide +kernel
  have hbuild : pullSecondOnBuild (knows [exampleFooLatest]) =
      .ok (Image.twoImages.fromBytes [1]) := by
    decide +kernel
  have hown : (knows [exampleFooLatest]).referenceStore.OwnNames :=
    ((Store.Consistent.empty twoRegistries.defaults).run _).ownNames
  have href : parseNamed "foo:latest".toList = .ok fooLatest := by decide +kernel
  have hname : Daemon.parseIDOrReference "foo:latest".toList = .ok (.inr fooLatest) := by
    decide +kernel
  have hnone :
      (((pullSecond (knows [exampleFooLatest])).2.candidates (withDefaultTag fooLatest)).takeWhile
      (· ≠ exampleFooLatest)).findSome?
        (pullSecond (knows [exampleFooLatest])).2.visible = none := by
    decide +kernel
  have hdefaults : (knows [exampleFooLatest]).referenceStore.defaultRegistries =
      twoRegistries.defaults := by
    decide +kernel
  have hpair : pullSecond (knows [exampleFooLatest]) =
      (.ok (exampleFooLatest, Image.twoImages.fromBytes [1]),
        (pullSecond (knows [exampleFooLatest])).2) :=
    Prod.ext hpull rfl
  refine ⟨_, _, hpair, hbuild, ?_⟩
  refine (pullOnBuild_eq_pulled hown hdefaults href rfl hname hpair (by decide)
    (by decide) hbuild).2 fun i hi => ?_
  exact nomatch hnone.symm.trans hi

end

end Docker.Distribution
