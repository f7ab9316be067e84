import Docker.Distribution.Pull

/-!
# Pushing a repository

`distribution/push.go`, and how `push_v1.go` and `push_v2.go` choose the images. The repository that
is pushed to is the name itself or the name behind the first default registry, and the images are
those of the first repository that matches the name, be it behind any of the default registries.

An image counts as uploaded once the pusher starts to send its layers. How the registry answers is a
parameter.
-/

namespace Docker.Distribution

open List Option AList

open Image (ID)
open Reference Registry Fallible

structure Upload where
  endpoint : APIEndpoint
  /-- The name of the repository that is pushed to. -/
  repository : Str
  tag : Str
  imageID : ID

inductive TagAnswer where
  /-- The image or its top layer is not found, and nothing is sent. -/
  | notFound
  | failed (f : Failure)
  | pushed (manifestDigest : Str)

/-- A V2 repository, with the answers for the first tag and for those after it. -/
structure V2Session where
  confirmedV2 : Bool
  tags : Nat → TagAnswer

structure V1Session where
  /-- The image and its top layer are found. -/
  found : ID → Bool
  sent : Bool

structure PushAttempts where
  v2 : Nat → Except Failure V2Session
  v1 : Nat → Except Failure V1Session

inductive PushError where
  | registry (e : Registry.Error)
  /-- `You cannot push a "root" repository. [...]` -/
  | rootRepository
  /-- `An image does not exist locally with the tag: %s` -/
  | noImage (name : Str)
  | pusher (f : Failure)
  /-- `no endpoints found for %s` -/
  | noEndpoints (name : Str)

section
variable (info : RepositoryInfo) (endpoint : APIEndpoint)

/-! ## The V2 protocol -/

section
variable (session : V2Session)

/-- An error that does not come from the registry. -/
def V2Session.failure : Failure where
  fallback := true
  confirmedV2 := session.confirmedV2
  transportOK := true

def pushV2Tag (k : Nat) (ref : Named) (tag : Str) (imageID : ID) (st : Store) :
    List Upload × Except Failure Unit × Store :=
  match session.tags k with
  | .notFound => ([], .error session.failure, st)
  | .failed f => ([⟨endpoint, info.named.name, tag, imageID⟩], .error f, st)
  | .pushed manifestDigest =>
    match addDigestReference st ref imageID manifestDigest with
    | (.error _, st) => ([⟨endpoint, info.named.name, tag, imageID⟩], .error session.failure, st)
    | (.ok _, st) => ([⟨endpoint, info.named.name, tag, imageID⟩], .ok (), st)

/-- The tagged ones of the associations, where `pushed` of them were pushed before. -/
def pushV2Tags : List (Named × ID) → Nat → Store → List Upload × Except Failure Unit × Store
  | [], pushed, st => ([], if pushed = 0 then .error session.failure else .ok (), st)
  | (ref, imageID) :: associations, pushed, st =>
    match ref.kind with
    | .tagged tag =>
      match pushV2Tag info endpoint session pushed ref tag imageID st with
      | (uploads, .error f, st) => (uploads, .error f, st)
      | (uploads, .ok _, st) =>
        let (more, result, st) := pushV2Tags associations (pushed + 1) st
        (uploads ++ more, result, st)
    | _ => pushV2Tags associations pushed st

def pushV2Repository (ref : Named) (st : Store) : List Upload × Except Failure Unit × Store :=
  match ref.kind with
  | .tagged tag =>
    match st.get ref with
    | .error _ => ([], .error session.failure, st)
    | .ok imageID => pushV2Tag info endpoint session 0 ref tag imageID st
  | .canonical _ => ([], .error session.failure, st)
  | .nameOnly => pushV2Tags info endpoint session (st.referencesByName ref) 0 st

end

/-! ## The V1 protocol -/

/-- The tags with their images; a digest has none. -/
def getImageList (session : V1Session) (ref : Named) (st : Store) : Option (List (Str × ID)) :=
  match ref.kind with
  | .canonical _ => some []
  | .tagged tag =>
    match st.get ref with
    | .error _ => none
    | .ok imgID => if session.found imgID then some [(tag, imgID)] else none
  | .nameOnly =>
    let images := (st.referencesByName ref).filterMap fun association =>
      association.1.kind.tag.map fun tag => (tag, association.2)
    if images.all fun image => session.found image.2 then
      if images = [] then none else some images
    else none

/-- No error of the V1 protocol makes it fall back. -/
def pushV1Repository (session : V1Session) (ref : Named) (st : Store) :
    List Upload × Except Failure Unit :=
  match getImageList session ref st with
  | none => ([], .error { fallback := false })
  | some images =>
    (images.map fun image => ⟨endpoint, info.named.name, image.1, image.2⟩,
      if session.sent then .ok () else .error { fallback := false })

end

/-! ## The endpoints -/

section
variable {Addr Subnet : Type} (net : Net Addr Subnet) (r : Registries)
  (config : ServiceConfig Subnet)
variable (attempts : PushAttempts)

def pushTo (info : RepositoryInfo) (endpoint : APIEndpoint) (j : Nat) (ref : Named) (st : Store) :
    List Upload × Except Failure Unit × Store :=
  match endpoint.version with
  | .v2 =>
    match attempts.v2 j with
    | .error f => ([], .error f, st)
    | .ok session => pushV2Repository info endpoint session ref st
  | .v1 =>
    match attempts.v1 j with
    | .error f => ([], .error f, st)
    | .ok session =>
      let (uploads, result) := pushV1Repository info endpoint session ref st
      (uploads, result, st)

def pushEndpoints (info : RepositoryInfo) (ref : Named) :
    List APIEndpoint → Nat → Progress → Store → List Upload × Except PushError Unit × Store
  | [], _, p, st =>
    match p.lastErr with
    | some f => ([], .error (.pusher f), st)
    | none => ([], .error (.noEndpoints info.named.name), st)
  | endpoint :: endpoints, j, p, st =>
    if p.skips endpoint then pushEndpoints info ref endpoints (j + 1) p st
    else
      match pushTo attempts info endpoint j ref st with
      | (uploads, .ok _, st) => (uploads, .ok (), st)
      | (uploads, .error f, st) =>
        if f.fallback then
          let (more, result, st) :=
            pushEndpoints info ref endpoints (j + 1)
              { p.after endpoint f with lastErr := some f } st
          (uploads ++ more, result, st)
        else (uploads, .error (.pusher f), st)

def push (ref : Named) (st : Store) : List Upload × Except PushError Unit × Store :=
  match newRepositoryInfo net r config ref with
  | .error e => ([], .error (.registry e), st)
  | .ok info =>
    if info.official then ([], .error .rootRepository, st)
    else
      match lookupPushEndpoints net r config info.named.hostname with
      | .error e => ([], .error (.registry e), st)
      | .ok endpoints =>
        if (st.referencesByName ref).isEmpty then ([], .error (.noImage info.named.name), st)
        else pushEndpoints attempts info ref endpoints 0 {} st

end

/-! ## Where the images come from -/

section
variable {Addr Subnet : Type} {net : Net Addr Subnet} {r : Registries}
  {config : ServiceConfig Subnet}
variable {attempts : PushAttempts} {info : RepositoryInfo} {endpoint : APIEndpoint} {ref : Named}
  {st st₀ : Store}
variable {tag : Str} {id : ID}

/-- The tag of the upload is one of the name, or of the repository that is pushed to, and it is the
tag of the image. -/
def Belongs (st : Store) (ref named : Named) (tag : Str) (imageID : ID) : Prop :=
  ∃ a : Named, (a.name = ref.name ∨ a.name = named.name) ∧ a.kind = .tagged tag ∧
    st.association a = some imageID

/-- The image that is found for a tag is that of the name itself, or of the repository that is
pushed to; and so is the repository that is found first for a bare name, if it has tags. -/
structure Own (st : Store) (ref named : Named) : Prop where
  tag : ∀ tag id, ref.kind = .tagged tag → st.get ref = .ok id → st.association ref = some id ∨
    st.association named = some id
  repository : ref.kind = .nameOnly → ∀ n repository, (st.getMatchingReferenceList ref).head? =
    some (n, repository) →
    (∃ (a : Named) (tag : Str), a.name = n ∧ a.kind = .tagged tag ∧ st.association a ≠ none) →
      n = ref.name ∨ n = named.name

/-- The store when a push has started: `st₀` is the one from before, and digests were added. -/
structure Started (ref named : Named) (st₀ st : Store) : Prop where
  ownNames : st₀.OwnNames
  kind : named.kind = ref.kind
  own : Own st₀ ref named
  added : Store.Added (fun a => a.isCanonical = true) st₀ st

/-- The first repository that is found is found first among fewer ones. -/
theorem findSome?_lookup {l : List Named} {f : Named → Option (Str × β)}
    {g : Named → Option (Str × γ)} (hf : ∀ c x, f c = some x → x.1 = c.name)
    (hmono : ∀ c, (g c).isSome = true → (f c).isSome = true)
    (hg : ∀ c, c.name = n → g c = some (n, y))
    (h : l.findSome? f = some (n, x)) : l.findSome? g = some (n, y) := by
  induction l with
  | nil => cases h
  | cons c l ih =>
    rw [findSome?_cons] at h ⊢
    cases hc : f c with
    | none =>
      rw [hc] at h
      have hnone : g c = none := not_isSome_iff_eq_none.1 fun hsome => by
        simpa [hc] using hmono c hsome
      rw [hnone]
      exact ih h
    | some z =>
      rw [hc] at h
      cases h
      rw [hg c (hf c _ hc).symm]

namespace Started

theorem get (h : Started ref info.named st₀ st) (htag : ref.kind = .tagged tag)
    (hget : st.get ref = .ok id) :
    Belongs st₀ ref info.named tag id := by
  have hsame : ∀ c ∈ st₀.candidates ref, st.visible c = st₀.visible c := by
    intro c hc
    have hkind : c.kind = .tagged tag := (Store.kind_of_mem_candidates hc).trans htag
    exact h.added.visible (by simp [isCanonical_of_tagged hkind])
  rw [(h.added.ownNames h.ownNames).get_eq_ok, withDefaultTag_of_tagged htag, h.added.candidates,
    Store.findSome?_congr hsame] at hget
  have hget₀ : st₀.get ref = .ok id := by rwa [h.ownNames.get_eq_ok, withDefaultTag_of_tagged htag]
  rcases h.own.tag tag id htag hget₀ with hid | hid
  · exact ⟨ref, .inl rfl, htag, hid⟩
  · exact ⟨info.named, .inr rfl, h.kind.trans htag, hid⟩

theorem referencesByName (h : Started ref info.named st₀ st) (hname : ref.kind = .nameOnly)
    (hb : (b, id) ∈ st.referencesByName ref) (htag : b.kind = .tagged tag) :
    Belongs st₀ ref info.named tag id := by
  obtain ⟨n, repository, s, hhead, hparse, hid⟩ := Store.of_mem_referencesByName hb
  rw [Store.head?_getMatchingReferenceList, h.added.candidates] at hhead
  obtain ⟨c, -, hc⟩ := exists_of_findSome?_eq_some hhead
  obtain ⟨_, hlookup, he⟩ := map_eq_some_iff.1 hc
  cases he
  have hget : st.repositories.get c.name s = some id :=
    NestedMap.get_eq_some.2 ⟨repository, hlookup, hid⟩
  obtain ⟨a, ha, rfl⟩ := h.added.ownNames h.ownNames c.name s id hget
  have hkind : a.kind = .tagged tag := (kind_of_parseNamed_string hparse).symm.trans htag
  rw [← ha] at hget hhead
  have hassoc : st₀.association a = some id := by
    rw [← h.added.association (by simp [isCanonical_of_tagged hkind])]
    exact hget
  obtain ⟨repository₀, hrepository₀, -⟩ := NestedMap.get_eq_some.1 hassoc
  -- the repository of the tag was there before, and those in front of it were not
  have hhead₀ : (st₀.getMatchingReferenceList ref).head? = some (a.name, repository₀) := by
    rw [Store.head?_getMatchingReferenceList]
    refine findSome?_lookup (fun c x hx => ?_) (fun c hsome => ?_) (fun c hcn => ?_) hhead
    · obtain ⟨_, -, rfl⟩ := map_eq_some_iff.1 hx
      rfl
    · rw [isSome_map, lookup_isSome] at hsome ⊢
      exact h.added.mem_repositories hsome
    · rw [hcn, hrepository₀]
      rfl
  exact ⟨a, h.own.repository hname _ _ hhead₀ ⟨a, tag, rfl, hkind, by rw [hassoc]; nofun⟩,
    hkind, hassoc⟩

theorem trans (h : Started ref info.named st₀ st)
    (hadded : Store.Added (fun a => a.isCanonical = true) st st') :
    Started ref info.named st₀ st' :=
  { h with added := h.added.trans hadded }

end Started

/-! ## A push -/

/-- What each step of a push does: its uploads satisfy `P`, and digests are added. -/
structure Pushes {ε : Type} (P : Upload → Prop) (st : Store)
    (x : List Upload × Except ε Unit × Store) : Prop where
  uploads : ∀ u ∈ x.1, P u
  added : Store.Added (fun a => a.isCanonical = true) st x.2.2

namespace Pushes

theorem nil : Pushes P st ([], result, st) := ⟨nofun, .refl⟩

theorem append {uploads more : List Upload} {result' : Except ε' Unit} {st'' : Store}
    (h : Pushes P st (uploads, result, st')) (h' : Pushes P st' (more, result', st'')) :
    Pushes P st (uploads ++ more, result', st'') where
  uploads := List.forall_mem_append.2 ⟨h.uploads, h'.uploads⟩
  added := h.added.trans h'.added

end Pushes

variable {P : Upload → Prop}

section
variable (h : Started ref info.named st₀ st)
include h

end

theorem mem_push (hinfo : newRepositoryInfo net r config ref = .ok info)
    (hofficial : info.official = false)
    (hendpoints : lookupPushEndpoints net r config info.named.hostname =
      .ok (endpoint :: endpoints))
    (hne : st.referencesByName ref ≠ []) (hu : u ∈ (pushTo attempts info endpoint 0 ref st).1) :
    u ∈ (push net r config attempts ref st).1 := by
  rw [push, hinfo]
  dsimp only
  rw [if_neg (by simp [hofficial]), hendpoints]
  dsimp only
  rw [if_neg (by simpa using hne), pushEndpoints, if_neg (by simp [Progress.skips])]
  split
  · next he =>
    rw [he] at hu
    exact hu
  · next he =>
    rw [he] at hu
    split
    · exact mem_append_left _ hu
    · exact hu

theorem mapM_cases (f : α → Except ε β) (l : List α) :
    (∃ l', l.mapM f = .ok l' ∧ ∀ a ∈ l, ∃ b ∈ l', f a = .ok b) ∨ ∃ e, l.mapM f = .error e ∧ ∃ a ∈ l,
      f a = .error e := by
  induction l with
  | nil => exact .inl ⟨[], rfl, nofun⟩
  | cons a l ih =>
    rw [mapM_cons]
    cases ha : f a with
    | error e => exact .inr ⟨e, rfl, a, mem_cons_self, ha⟩
    | ok b =>
      obtain ⟨l', hl, hall⟩ | ⟨e, hl, a', ha', he⟩ := ih <;> rw [hl]
      · refine .inl ⟨b :: l', rfl, forall_mem_cons.2 ⟨⟨b, mem_cons_self, ha⟩, fun a' ha' => ?_⟩⟩
        obtain ⟨b', hb', hf⟩ := hall a' ha'
        exact ⟨b', mem_cons_of_mem _ hb', hf⟩
      · exact .inr ⟨e, rfl, a', mem_cons_of_mem _ ha', he⟩

end

/-! ## Recording a pushed digest -/

theorem mem_referencesByName {id : ID} (hrep : st.repositories.lookup ref.name = some repository) :
    (b, id) ∈ Store.referencesByName st ref ↔
      ∃ l, repository.entries.mapM (fun e => (parseNamed e.1).map fun r => (r, e.2)) = .ok l ∧
        (b, id) ∈ l := by
  obtain ⟨tail, htail⟩ := st.prefix_getMatchingReferenceList ref
  rw [Store.referencesByName, ← htail, Store.addResult_nil hrep]
  cases h : repository.entries.mapM fun e => (parseNamed e.1).map fun r => (r, e.2) with
  | error e => simp [h]
  | ok l => simp [h, mem_insertionSort]

theorem parseNamed_string_cases (b : Named) (hset : b.Settled) :
    parseNamed b.string = .ok b ∧ b.kind.digestSupported = true ∨
    b.kind.digestSupported = false ∧ ∃ e, parseNamed b.string = .error e := by
  cases hsup : b.kind.digestSupported with
  | true => exact .inl ⟨(parseNamed_string_iff b).2 ⟨hset, hsup⟩, rfl⟩
  | false => exact .inr ⟨rfl, _, by rw [parseNamed, distParseNamed_string, hsup]; rfl⟩

section
variable {st st' : Store} {ref dgstRef : Named} {imageID id : ID} {manifestDigest : Str}

/-- What is listed for a name with a new digest: the digest itself, and what was in the repository
of the name. -/
theorem mem_referencesByName_associate (hname : dgstRef.name = ref.name)
    (hnone : st.association dgstRef = none) :
    (b, id) ∈ (st.associate dgstRef imageID none).referencesByName ref ↔
      ∃ r l, parseNamed dgstRef.string = .ok r ∧
        ((st.repositories.lookup ref.name).getD ∅).entries.mapM
          (fun e => (parseNamed e.1).map fun r => (r, e.2)) = .ok l ∧
        (b, id) ∈ (r, imageID) :: l := by
  have hrep' : (st.associate dgstRef imageID none).repositories.lookup ref.name =
      some (((st.repositories.lookup ref.name).getD ∅).insert dgstRef.string imageID) := by
    rw [← hname]
    simp [Store.associate, Store.assign, Store.save, NestedMap.put]
  have hnew : dgstRef.string ∉ (st.repositories.lookup ref.name).getD ∅ := by
    rw [Store.association, NestedMap.get, hname] at hnone
    cases hrep : st.repositories.lookup ref.name with
    | none => exact AList.notMem_empty _
    | some repository => rwa [hrep, bind_some, lookup_eq_none] at hnone
  rw [mem_referencesByName hrep', entries_insert_of_notMem hnew, mapM_cons]
  cases parseNamed dgstRef.string with
  | error e => simp [Except.map, bind, Except.bind]
  | ok r =>
    cases ((st.repositories.lookup ref.name).getD ∅).entries.mapM fun e =>
      (parseNamed e.1).map fun r => (r, e.2) with
    | error e | ok l => simp [Except.map, bind, Except.bind, pure, Except.pure]

variable (hok : addDigestReference st ref imageID manifestDigest = (.ok (), st'))
include hok

theorem addDigestReference_cases : ∃ dgstRef, withDigest ref manifestDigest = .ok dgstRef ∧
    ((∃ id, st.get dgstRef = .ok id) ∧ st' = st ∨
      (∀ id, st.get dgstRef ≠ .ok id) ∧ st.association dgstRef = none ∧
        st' = st.associate dgstRef imageID none) := by
  unfold addDigestReference at hok
  split at hok
  · cases hok
  · next dgstRef hdgst =>
    have hcan : dgstRef.isCanonical = true := by
      rw [Named.isCanonical, (withDigest_eq_ok.1 hdgst).2]
    refine ⟨dgstRef, hdgst, ?_⟩
    split at hok
    · next id hget =>
      cases hok
      exact .inl ⟨⟨id, hget⟩, rfl⟩
    · next hget =>
      have hadd : st.addReference dgstRef imageID true = (.ok (), st') := storeResult_eq_ok hok
      have hsha : dgstRef.name ≠ "sha256".toList := fun he => by
        rw [Store.addReference, if_pos he] at hadd
        cases hadd
      refine .inr ⟨by simp [hget], ?_⟩
      cases hassoc : st.association dgstRef with
      | none =>
        rw [Store.addReference_of_none hsha hassoc] at hadd
        exact ⟨rfl, (congrArg Prod.snd hadd).symm⟩
      | some oldID =>
        rw [Store.addReference_of_some hsha hassoc, if_pos hcan] at hadd
        cases hadd
    · cases hok

/-- The tags that are listed for a name stay if and only if the digest is known already, or it is
added to a repository of the name itself and can be read back, or no tags are listed. -/
theorem tags_addDigestReference (hsettled : ref.Settled) :
    (∀ b id, b.isCanonical = false → ((b, id) ∈ st'.referencesByName ref ↔
      (b, id) ∈ st.referencesByName ref)) ↔
      (∃ dgstRef id, withDigest ref manifestDigest = .ok dgstRef ∧ st.get dgstRef = .ok id) ∨
      (ref.name ∈ st.repositories ∧ Layer.validateDigest (String.ofList manifestDigest) = true) ∨
      ∀ b id, (b, id) ∈ st.referencesByName ref → b.isCanonical = true := by
  obtain ⟨dgstRef, hdgst, ⟨⟨id, hget⟩, rfl⟩ | ⟨hnot, hnone, rfl⟩⟩ := addDigestReference_cases hok
  · exact iff_of_true (fun _ _ _ => Iff.rfl) (.inl ⟨dgstRef, id, hdgst, hget⟩)
  obtain ⟨hdname, hdkind⟩ := withDigest_eq_ok.1 hdgst
  have hcan : dgstRef.isCanonical = true := by rw [Named.isCanonical, hdkind]
  have hnot' : ¬∃ dgstRef id, withDigest ref manifestDigest = .ok dgstRef ∧
      st.get dgstRef = .ok id := by
    rintro ⟨r, id, hr, hget⟩
    cases hdgst.symm.trans hr
    exact hnot id hget
  have hparse := parseNamed_string_cases dgstRef (by rwa [Named.Settled, hdname])
  have hsup : dgstRef.kind.digestSupported = Layer.validateDigest
      (String.ofList manifestDigest) := by
    rw [hdkind]
    rfl
  by_cases hown : ref.name ∈ st.repositories ∧
    Layer.validateDigest (String.ofList manifestDigest) = true
  · refine iff_of_true (fun b id hb => ?_) (.inr (.inl hown))
    obtain ⟨repository, hrep⟩ := isSome_iff_exists.1 (lookup_isSome.2 hown.1)
    obtain ⟨hr, -⟩ | ⟨hr, -⟩ := hparse
    · have hne : b ≠ dgstRef := fun h => by simp [h, hcan] at hb
      rw [mem_referencesByName_associate hdname hnone, mem_referencesByName hrep, hrep]
      simp [hr, hne]
    · cases hr.symm.trans (hsup.trans hown.2)
  · have hnoTags : ∀ b id, (b, id) ∈ (st.associate dgstRef imageID none).referencesByName ref →
        b.isCanonical = true := by
      intro b id hmem
      obtain ⟨r, l, hr, hl, hmem⟩ := (mem_referencesByName_associate hdname hnone).1 hmem
      obtain ⟨hr', hd⟩ | ⟨-, e, he⟩ := hparse
      · have hrep : st.repositories.lookup ref.name = none :=
          lookup_eq_none.2 fun h => hown ⟨h, hsup ▸ hd⟩
        rw [hrep] at hl
        cases hl
        cases hr'.symm.trans hr
        cases mem_singleton.1 hmem
        exact hcan
      · cases he.symm.trans hr
    constructor
    · refine fun h => .inr (.inr fun b id hmem => ?_)
      by_contra hb
      exact hb (hnoTags b id ((h b id (Bool.eq_false_of_not_eq_true hb)).2 hmem))
    · rintro (h | h | h) b id hb
      · exact absurd h hnot'
      · exact absurd h hown
      · refine iff_of_false (fun hmem => ?_) fun hmem => ?_
        · cases hb.symm.trans (hnoTags b id hmem)
        · cases hb.symm.trans (h b id hmem)

end

def fooV1 : Named := ⟨"foo".toList, .tagged "v1".toList, fooLatest.name_valid, isValid_v1⟩

def pushedDigest : Str := "sha256:".toList ++ replicate 64 'd'

/-- A store with the tag `v1` of one repository. -/
def tagged (name : Str) : Store :=
  { defaultRegistries := ["docker.io".toList]
    repositories := singleton name (singleton (name ++ ":v1".toList) "sha256:1") }

theorem tags_addDigestReference_foo : (tagged "foo".toList).referencesByName fooV1 ≠ [] ∧ ∀ b id,
    b.isCanonical = false →
    ((b, id) ∈ (addDigestReference (tagged "foo".toList) fooV1 "sha256:1"
      pushedDigest).2.referencesByName fooV1 ↔
      (b, id) ∈ (tagged "foo".toList).referencesByName fooV1) :=
  ⟨by decide +kernel,
    (tags_addDigestReference (Prod.ext (by decide +kernel) rfl) (by decide)).2
      (.inr (.inl ⟨by decide, by decide +kernel⟩))⟩

/-- The digest makes a repository for the unqualified name, and that hides the tags of the qualified
one. -/
theorem tags_hidden : (tagged "docker.io/foo".toList).get fooV1 = .ok "sha256:1" ∧
    ((tagged "docker.io/foo".toList).referencesByName fooV1).map (fun a => a.1.string) =
    ["docker.io/foo:v1".toList] ∧
    (addDigestReference (tagged "docker.io/foo".toList) fooV1 "sha256:1" pushedDigest).1 = .ok () ∧
    ((addDigestReference (tagged "docker.io/foo".toList) fooV1 "sha256:1"
      pushedDigest).2.referencesByName fooV1).map
      (fun a => a.1.string) = ["foo@".toList ++ pushedDigest] := by
  decide +kernel

/-! ## What is listed for a name -/

/-- The list for a name with a repository of its own has exactly the references of the repository,
unless one of them has a digest of an unknown algorithm: then it is empty. -/
theorem referencesByName_of_run (registries : List Str) (ops : List Reference.Op) (ref : Named)
    (hsettled : ref.Settled)
    (hname : ref.name ∈ (Store.run { defaultRegistries := registries } ops).repositories) :
    let st := Store.run { defaultRegistries := registries } ops
    (∀ b id, b.name = ref.name → st.association b = some id → b.kind.digestSupported = true) ∧
        (∀ b id, (b, id) ∈ st.referencesByName ref ↔ b.name = ref.name ∧
          st.association b = some id) ∨
      (∃ b id, b.name = ref.name ∧ st.association b = some id ∧ b.kind.digestSupported = false) ∧
        st.referencesByName ref = [] := by
  intro st
  obtain ⟨repository, hrep⟩ := isSome_iff_exists.1 (lookup_isSome.2 hname)
  have hget : ∀ s id, st.repositories.get ref.name s = some id ↔ ⟨s, id⟩ ∈ repository.entries :=
    fun s id => by
    rw [NestedMap.get, hrep, bind_some, ← mem_lookup_iff]
    rfl
  have hown : ∀ e ∈ repository.entries, ∃ b : Named, b.name = ref.name ∧ b.string = e.1 ∧
      st.association b = some e.2 :=
    fun e he => ((Store.Consistent.empty registries).run ops).repositories _ _ _ ((hget ..).2 he)
  have hparse : ∀ b : Named, b.name = ref.name → _ :=
    fun b hb => parseNamed_string_cases b (by rwa [Named.Settled, hb])
  obtain ⟨l, hl, hall⟩ | ⟨err, hl, e, he, herr⟩ :=
    mapM_cases (fun e : Sigma fun _ : Str => ID => (parseNamed e.1).map fun r =>
      (r, e.2)) repository.entries
  · have hlisted : ∀ b id, b.name = ref.name → st.association b = some id →
        b.kind.digestSupported = true ∧ (b, id) ∈ l := fun b id hb hassoc => by
      obtain ⟨x, hx, hf⟩ := hall ⟨b.string, id⟩ ((hget ..).1 (hb ▸ hassoc))
      obtain ⟨hok, hsup⟩ | ⟨-, e, herr⟩ := hparse b hb
      · rw [hok] at hf
        cases hf
        exact ⟨hsup, hx⟩
      · rw [herr] at hf
        cases hf
    refine .inl ⟨fun b id hb hassoc => (hlisted b id hb hassoc).1, fun b id => ?_⟩
    rw [mem_referencesByName hrep]
    refine ⟨?_, fun h => ⟨l, hl, (hlisted b id h.1 h.2).2⟩⟩
    rintro ⟨l', hl', hmem⟩
    obtain ⟨e, he, hf⟩ := Store.exists_of_mem_mapM hl' hmem
    obtain ⟨b', hb', hs, hassoc⟩ := hown e he
    obtain ⟨hok, -⟩ | ⟨-, e', herr⟩ := hparse b' hb'
    · rw [← hs, hok] at hf
      cases hf
      exact ⟨hb', hassoc⟩
    · rw [← hs, herr] at hf
      cases hf
  · obtain ⟨b, hb, hs, hassoc⟩ := hown e he
    refine .inr ⟨⟨b, e.2, hb, hassoc, ?_⟩, eq_nil_iff_forall_not_mem.2 fun x hx => ?_⟩
    · obtain ⟨hok, -⟩ | ⟨hsup, -⟩ := hparse b hb
      · rw [← hs, hok] at herr
        cases herr
      · exact hsup
    · obtain ⟨l, hl', -⟩ := (mem_referencesByName hrep).1 hx
      cases hl.symm.trans hl'

theorem referencesByName_of_run_foo :
    let st := Store.run { defaultRegistries := [] } [.addTag fooV1 "sha256:1" false]
    (fooV1, "sha256:1") ∈ st.referencesByName fooV1 := by
  obtain h | h := referencesByName_of_run [] [.addTag fooV1 "sha256:1" false] fooV1 (by decide)
    (by decide +kernel)
  · exact (h.2 _ _).2 ⟨rfl, by decide +kernel⟩
  · exact absurd h.2 (by decide +kernel)

end Docker.Distribution
