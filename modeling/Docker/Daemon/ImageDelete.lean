import Docker.Image.Children
import Docker.Reference.Lookup

/-!
# Deleting images

`daemon/image_delete.go`, `GetImageID` in `daemon/image.go` and the lookups in a set of digests that
`image.Store.Search` makes. The first part of `ImageDelete`, which removes references, is `untag`.

The daemon runs one call at a time. The events it logs are left out. What `ls.Release` returns for
an image is a parameter. `records` is returned with what `imageDeleteHelper` appends to it.
-/

namespace Docker

open AList

open Image (ID Codec)
open Layer (ChainID algorithm validateDigest isHex)
open Reference (Str Named StoreError cut isAlnum validateID parseNamed withDefaultTag defaultTag
  isReferenceFullyQualified substituteReferenceName)

/-! ## Sets of digests -/

/-- `ErrDigestInvalidFormat` is not returned: the string matches `DigestRegexpAnchored`. -/
def isDigestFormat (s : Str) : Bool :=
  match cut ':' s with
  | (alg, some hex) =>
    alg != [] && alg.all (fun c => isAlnum c || c == '-' || c == '_' || c == '+' || c == '.') &&
      hex != [] && hex.all isHex
  | (_, none) => false

/-- The hex part and the algorithm of a digest, and the digest: entries are ordered like this. -/
abbrev DigestEntry := Str ×ₗ Str ×ₗ ID

namespace DigestEntry

variable (e : DigestEntry)

def val : Str := (ofLex e).1
def alg : Str := (ofLex (ofLex e).2).1
def digest : ID := (ofLex (ofLex e).2).2

def ofID (id : ID) : DigestEntry :=
  let (alg, hex) := cut ':' id.toList
  toLex (hex.getD [], toLex (alg, id))

/-- An empty `shortAlg` matches every algorithm. -/
def checkShortMatch (shortAlg shortHex : Str) : Bool :=
  shortHex.isPrefixOf e.val && (shortAlg == [] || e.alg == shortAlg)

/-- What `sort.Search` looks for the first entry of. -/
def notBefore (alg hex : Str) : Bool := if e.val = hex then alg ≤ e.alg else hex ≤ e.val

end DigestEntry

/-- `Set.Lookup`, with `none` for both errors. -/
def lookupDigest (entries : List DigestEntry) (d : Str) : Option ID :=
  let (alg, hex) := if isDigestFormat d then ((cut ':' d).1, (cut ':' d).2.getD []) else ([], d)
  match entries.dropWhile fun e => !e.notBefore alg hex with
  | [] => none
  | e :: rest =>
    if !e.checkShortMatch alg hex then none
    else if e.alg = alg ∧ e.val = hex then some e.digest
    else
      match rest with
      | [] => some e.digest
      | e' :: _ => if e'.checkShortMatch alg hex then none else some e.digest

def Image.Store.search (s : Image.Store) (term : Str) : Option ID :=
  lookupDigest ((s.digestSet.image DigestEntry.ofID).sort (· ≤ ·)) term

/-! ## The daemon -/

structure Container where
  id : String
  imageID : ID
  running : Bool
  deriving DecidableEq

/-- The containers come in the order in which the map is iterated over. -/
structure Daemon where
  imageStore : Image.Store
  referenceStore : Reference.Store
  containers : List Container

inductive Record where
  | untagged (ref : Str)
  | deleted (id : String)
  deriving DecidableEq

structure ImageDeleteConflict where
  hard : Bool := false
  used : Bool := false
  imgID : ID
  message : String
  deriving DecidableEq

def truncateID (id : String) : String :=
  let (front, rest) := cut ':' id.toList
  String.ofList ((rest.getD front).take 12)

namespace Daemon

inductive Error where
  | invalidReference (e : Reference.Error)
  /-- `ErrImageDoesNotExist` -/
  | imageDoesNotExist (refOrID : Str)
  /-- `No such image: %s` -/
  | noSuchImage (image : Str)
  /-- `conflict: unable to remove repository reference %q (must force) - container %s is using its
  referenced image %s` -/
  | referenceInUse (imageRef : Str) (container imgID : String)
  | conflict (c : ImageDeleteConflict)
  | reference (e : StoreError)
  | image (e : Image.Error)
  /-- An error of `ls.Release`. -/
  | release (e : String)
  deriving DecidableEq

def Error.isConflict : Error → Bool
  | .referenceInUse .. | .conflict _ => true
  | _ => false

variable (cd : Codec) (release : ID → Except String (List ChainID)) (d : Daemon)

/-! ## Finding the image -/

def parseIDOrReference (idOrRef : Str) : Except Reference.Error (ID ⊕ Named) :=
  let idOrRef := if validateID idOrRef then "sha256:".toList ++ idOrRef else idOrRef
  if validateDigest (String.ofList idOrRef) then .ok (.inl (String.ofList idOrRef))
  else (parseNamed idOrRef).map .inr

def getImageID (refOrID : Str) : Except Error ID :=
  match parseIDOrReference refOrID with
  | .error e => .error (.invalidReference e)
  | .ok (.inl id) =>
    if (d.imageStore.get cd id).isSome then .ok id else .error (.imageDoesNotExist refOrID)
  | .ok (.inr ref) =>
    match d.referenceStore.get ref with
    | .ok id => .ok id
    | .error _ =>
      -- a tag can be the start of an id, with a reference of the image naming the repository
      let byTag := ref.kind.tag.bind fun tag => (d.imageStore.search tag).filter fun id =>
        (d.referenceStore.references id).any fun namedRef => namedRef.name == ref.name
      match byTag.or (d.imageStore.search refOrID) with
      | some id => .ok id
      | none => .error (.imageDoesNotExist refOrID)

def imageNotExistToErrcode : Error → Error
  | .imageDoesNotExist refOrID =>
    if '@' ∈ refOrID then .noSuchImage refOrID
    else
      match parseNamed refOrID with
      | .error _ => .noSuchImage (refOrID ++ ':' :: defaultTag)
      | .ok ref => .noSuchImage (ref.name ++ ':' :: ref.kind.tag.getD defaultTag)
  | e => e

/-! ## Conflicts -/

abbrev ConflictType := BitVec 64

def conflictDependentChild : ConflictType := 1
def conflictRunningContainer : ConflictType := 2
def conflictActiveReference : ConflictType := 4
def conflictStoppedContainer : ConflictType := 8
def conflictHard : ConflictType := conflictDependentChild ||| conflictRunningContainer
def conflictSoft : ConflictType := conflictActiveReference ||| conflictStoppedContainer

def getContainerUsingImage (imageID : ID) : Option Container :=
  d.containers.find? fun c => c.imageID = imageID

def checkImageDeleteConflict (imgID : ID) (mask : ConflictType) : Option ImageDeleteConflict :=
  if mask &&& conflictDependentChild ≠ 0 ∧ d.imageStore.children imgID ≠ ∅ then
    some { hard := true, imgID, message := "image has dependent child images" }
  else
    let running := if mask &&& conflictRunningContainer ≠ 0 then
      d.containers.find? fun c => c.running && c.imageID = imgID else none
    match running with
    | some c =>
      some
        { hard := true, used := true, imgID
          message := "image is being used by running container " ++ truncateID c.id }
    | none =>
      if mask &&& conflictActiveReference ≠ 0 ∧ d.referenceStore.references imgID ≠ [] then
        some { imgID, message := "image is referenced in one or more repositories" }
      else
        let stopped := if mask &&& conflictStoppedContainer ≠ 0 then
          d.containers.find? fun c => !c.running && c.imageID = imgID else none
        stopped.map fun c =>
          { used := true, imgID
            message := "image is being used by stopped container " ++ truncateID c.id }

def imageIsDangling (imgID : ID) : Bool :=
  !(d.referenceStore.references imgID ≠ [] || d.imageStore.children imgID ≠ ∅)

/-! ## Removing references -/

/-- All references are from one repository, with at most one tag. -/
def isSingleReference (repoRefs : List Named) : Bool :=
  match repoRefs with
  | [] => false
  | [_] => true
  | first :: _ =>
    let canonicalRefs := ((repoRefs.filter Named.isCanonical).map Named.name).dedup
    match repoRefs.filter fun repoRef => !repoRef.isCanonical with
    | [] => canonicalRefs == [first.name]
    | [singleRef] => canonicalRefs == [singleRef.name]
    | _ => false

def isImageIDPrefix (imageID : String) (possiblePrefix : Str) : Bool :=
  possiblePrefix.isPrefixOf imageID.toList ||
    (cut ':' imageID.toList).2.any possiblePrefix.isPrefixOf

/-- The reference with a tag, if it was deleted. -/
def removeImageRef (st : Reference.Store) (ref : Named) :
    Except StoreError Named × Reference.Store :=
  let ref := withDefaultTag ref
  ((st.delete ref).1.map fun _ => ref, (st.delete ref).2)

/-- The loop of `removeAllReferencesToImageID`, and that of `ImageDelete` for an id. -/
def untagAll : List Named → List Record → Reference.Store →
    Option StoreError × List Record × Reference.Store
  | [], records, st => (none, records, st)
  | repoRef :: refs, records, st =>
    match removeImageRef st repoRef with
    | (.error e, st) => (some e, records, st)
    | (.ok parsedRef, st) => untagAll refs (records ++ [.untagged parsedRef.string]) st

/-- The loop that removes the canonical references from the same repository; an error comes with the
records so far. -/
def cleanDigests (parsedRef : Named) : List Named → List Record → List Named → Reference.Store →
    Except (List Record × Error) (List Record × List Named) × Reference.Store
  | [], records, remainingRefs, st => (.ok (records, remainingRefs), st)
  | repoRef :: refs, records, remainingRefs, st =>
    let r := if isReferenceFullyQualified parsedRef then .ok parsedRef
      else substituteReferenceName parsedRef repoRef.name
    match r with
    | .error e => (.error ([], .invalidReference e), st)
    | .ok r =>
      if repoRef.isCanonical && r.name == repoRef.name then
        match removeImageRef st repoRef with
        | (.error e, st) => (.error (records, .reference e), st)
        | (.ok _, st) =>
          cleanDigests parsedRef refs (records ++ [.untagged repoRef.string]) remainingRefs st
      else cleanDigests parsedRef refs records (remainingRefs ++ [repoRef]) st

/-- Where `ImageDelete` stands once it has removed references: it returns, or calls
`imageDeleteHelper`. -/
inductive Untag where
  | returned (records : List Record) (err : Option Error)
  | helper (records : List Record) (removedRepositoryRef : Bool)
  deriving DecidableEq

/-- If there are remaining references then the untag finished the remove. -/
def finishUntag (records : List Record) (repoRefs : List Named) : Untag :=
  if repoRefs ≠ [] then .returned records none else .helper records true

def cleanUp (imgID : ID) (parsedRef : Named) (st : Reference.Store) : Untag × Reference.Store :=
  let records := [.untagged parsedRef.string]
  let repoRefs := st.references imgID
  let foundRepoTagRef := repoRefs.any fun repoRef =>
    !repoRef.isCanonical && parsedRef.name == repoRef.name
  if parsedRef.isCanonical || foundRepoTagRef then (finishUntag records repoRefs, st)
  else
    match cleanDigests parsedRef repoRefs records [] st with
    | (.error (records, e), st) => (.returned records (some e), st)
    | (.ok (records, remainingRefs), st) => (finishUntag records remainingRefs, st)

def untagReference (imgID : ID) (imageRef : Str) (force : Bool) : Untag × Reference.Store :=
  let st := d.referenceStore
  let container := if !force && isSingleReference (st.references imgID)
    then d.getContainerUsingImage imgID else none
  match container with
  | some c =>
    (.returned [] (some (.referenceInUse imageRef (truncateID c.id) (truncateID imgID))), st)
  | none =>
    match parseNamed imageRef with
    | .error e => (.returned [] (some (.invalidReference e)), st)
    | .ok ref =>
      match removeImageRef st ref with
      | (.error e, st) => (.returned [] (some (.reference e)), st)
      | (.ok parsedRef, st) => cleanUp imgID parsedRef st

def untagImage (imgID : ID) (force : Bool) : Untag × Reference.Store :=
  let st := d.referenceStore
  if isSingleReference (st.references imgID) then
    let c := if force then conflictHard else conflictHard |||
      (conflictSoft &&& ~~~conflictActiveReference)
    match d.checkImageDeleteConflict imgID c with
    | some conflict => (.returned [] (some (.conflict conflict)), st)
    | none =>
      match untagAll (st.references imgID) [] st with
      | (some e, _, st) => (.returned [] (some (.reference e)), st)
      | (none, records, st) => (.helper records false, st)
  else (.helper [] false, st)

/-- `ImageDelete`, up to the call of `imageDeleteHelper`. -/
def untag (imgID : ID) (imageRef : Str) (force : Bool) : Untag × Reference.Store :=
  if !isImageIDPrefix imgID imageRef then d.untagReference imgID imageRef force
    else d.untagImage imgID force

/-! ## Deleting -/

def deleteImage (imgID : ID) : Except Error (List ChainID) × Daemon :=
  match d.imageStore.delete cd ((d.imageStore.children imgID).sort (· ≤ ·)) imgID with
  | (.error e, _) => (.error (.image e), d)
  | (.ok (), s) => ((release imgID).mapError .release, { d with imageStore := s })

theorem card_delete_lt {s s' : Image.Store} {id : ID} (h : s.delete cd order id = (.ok (), s')) :
    s'.images.keys.toFinset.card < s.images.keys.toFinset.card := by
  unfold Image.Store.delete at h
  split at h
  · cases h
  · next m hm =>
    cases h
    have hmem : id ∈ s.images := lookup_isSome.1 (by rw [hm]; rfl)
    refine Finset.card_lt_card (Finset.ssubset_iff_of_subset ?_ |>.2 ⟨id, ?_, ?_⟩)
    · intro p hp
      rw [List.mem_toFinset, ← mem_keys] at hp ⊢
      exact (Image.Store.mem_unlink.1 hp).2
    · rwa [List.mem_toFinset, ← mem_keys]
    · rw [List.mem_toFinset, ← mem_keys]
      exact fun hp => (Image.Store.mem_unlink.1 hp).1 rfl

def helperMask (force : Bool) : ConflictType :=
  if force then conflictHard else conflictHard ||| conflictSoft

def imageDeleteHelper (d : Daemon) (imgID : ID) (records : List Record) (force prune quiet : Bool) :
    Option Error × List Record × Daemon :=
  match d.checkImageDeleteConflict imgID (helperMask force) with
  | some conflict =>
    if quiet && (!d.imageIsDangling imgID || conflict.used) then (none, records, d)
    else (some (.conflict conflict), records, d)
  | none =>
    let parent := (d.imageStore.getParent cd imgID).getD ""
    match untagAll (d.referenceStore.references imgID) records d.referenceStore with
    | (some e, records, st) => (some (.reference e), records, { d with referenceStore := st })
    | (none, records, st) =>
      match h : deleteImage cd release { d with referenceStore := st } imgID with
      | (.error e, d) => (some e, records, d)
      | (.ok removedLayers, d') =>
        let records := records ++ .deleted imgID :: removedLayers.map .deleted
        if !prune || parent == "" then (none, records, d')
        else
          have : d'.imageStore.images.keys.toFinset.card <
              d.imageStore.images.keys.toFinset.card := by
            unfold deleteImage at h
            split at h
            · cases h
            · next hdel =>
              obtain ⟨-, rfl⟩ := Prod.mk.inj h
              exact card_delete_lt cd hdel
          imageDeleteHelper d' parent records false true true
termination_by d.imageStore.images.keys.toFinset.card

def imageDelete (imageRef : Str) (force prune : Bool) : List Record × Option Error × Daemon :=
  match d.getImageID cd imageRef with
  | .error e => ([], some (imageNotExistToErrcode e), d)
  | .ok imgID =>
    match d.untag imgID imageRef force with
    | (.returned records err, st) => (records, err, { d with referenceStore := st })
    | (.helper records removedRepositoryRef, st) =>
      let (err, records, d) :=
        imageDeleteHelper cd release { d with referenceStore := st } imgID records force prune
          removedRepositoryRef
      (records, err, d)

end Daemon

end Docker
