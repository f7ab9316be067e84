import Docker.Layer.ChainID

/-!
# The image store

`image/fs.go` and `image/store.go`. The backend keeps the config of an image under its digest, and
metadata files beside it; the store keeps in memory the images, the layer each one holds and its
children.

The hash and the JSON decoder are outside of the model. References to layers are numbered in the
order `ls.Get` returns them, with a log of those that were passed to `ls.Release`.
-/

namespace Docker.Image

open Option AList

set_option linter.dupNamespace false

open Layer (ChainID DiffID createChainID algorithm validateDigest)

abbrev Content := List UInt8

abbrev ID := String

structure RootFS where
  diffIDs : List DiffID
  deriving DecidableEq

structure History where
  emptyLayer : Bool
  deriving DecidableEq

/-- The fields of a config that the store reads; `rootfs` can be missing. -/
structure Image where
  rootFS : Option RootFS
  history : List History
  deriving DecidableEq

/-- `digest.FromBytes` and `json.Unmarshal`. -/
structure Codec where
  fromBytes : Content → ID
  unmarshal : Content → Option Image
  valid : ∀ content, algorithm (fromBytes content) = "sha256" ∧
    validateDigest (fromBytes content) = true

def RootFS.chainID (cd : Codec) (r : RootFS) : ChainID :=
  createChainID (fun s => cd.fromBytes s.toUTF8.data.toList) r.diffIDs

inductive Error where
  | invalidJSON
  /-- The panic of `Create` for a config without `rootfs`. -/
  | nilRootFS
  | tooManyLayers
  | emptyData
  | noLayer (chainID : ChainID)
  | invalidDigest (id : ID)
  | unrecognizedImage (id : ID)
  | unknownParent (id : ID)
  /-- An error of the backend. -/
  | io
  deriving DecidableEq

/-! ## The backend -/

structure Backend where
  content : AList fun _ : ID => Content := ∅
  metadata : ID → String → Option String := fun _ _ => none

namespace Backend

variable (cd : Codec) (fs : Backend)

/-- A file with another content than its name says is an error. -/
def get (id : ID) : Option Content :=
  (fs.content.lookup id).filter fun content => cd.fromBytes content = id

def set (data : Content) : Except Error (ID × Backend) :=
  if data = [] then .error .emptyData
  else .ok (cd.fromBytes data, { fs with content := fs.content.insert (cd.fromBytes data) data })

def deleteAllMetadata (id : ID) : Backend :=
  { fs with metadata := Function.update fs.metadata id fun _ => none }

def deleteContent (id : ID) : Backend := { fs with content := fs.content.erase id }

def delete (id : ID) : Backend := (fs.deleteAllMetadata id).deleteContent id

def setMetadata (id : ID) (key data : String) : Except Error Backend :=
  match fs.get cd id with
  | none => .error .io
  | some _ =>
    .ok
      { fs with
        metadata := Function.update fs.metadata id
          (Function.update (fs.metadata id) key (some data)) }

def getMetadata (id : ID) (key : String) : Option String :=
  (fs.get cd id).bind fun _ => fs.metadata id key

def deleteMetadata (id : ID) (key : String) : Backend :=
  { fs with metadata := Function.update fs.metadata id (Function.update (fs.metadata id) key none) }

theorem get_eq_some {cd : Codec} {fs : Backend} {id : ID} {content : Content} :
    fs.get cd id = some content ↔ fs.content.lookup id = some content ∧
      cd.fromBytes content = id := by
  simp [get, filter_eq_some_iff]

/-- The ids `Walk` calls its function with, in the order of the directory. -/
def walk : List ID := fs.content.keys.filter fun id => algorithm id = "sha256" && validateDigest id

end Backend

/-! ## The store -/

/-- What `ls.Get` returns: the layer, and which reference to it. -/
structure LayerRef where
  chainID : ChainID
  ref : Nat
  deriving DecidableEq

structure ImageMeta where
  layer : Option LayerRef
  children : Finset ID := ∅
  deriving DecidableEq

structure Store where
  images : AList fun _ : ID => ImageMeta := ∅
  digestSet : Finset ID := ∅
  fs : Backend := {}
  /-- How many references `ls.Get` has returned. -/
  got : Nat := 0
  /-- The references that were passed to `ls.Release`, the last one first. -/
  released : List Nat := []

def checkConfig (cd : Codec) (config : Content) : Except Error (Image × RootFS) :=
  match cd.unmarshal config with
  | none => .error .invalidJSON
  | some img =>
    match img.rootFS with
    | none => .error .nilRootFS
    | some rootFS =>
      if rootFS.diffIDs.length < (img.history.filter fun h => !h.emptyLayer).length
        then .error .tooManyLayers
      else .ok (img, rootFS)

def newFromJSON (cd : Codec) (src : Content) : Option (Image × RootFS) :=
  (cd.unmarshal src).bind fun img => img.rootFS.map fun rootFS => (img, rootFS)

theorem newFromJSON_of_checkConfig (h : checkConfig cd config = .ok r) :
    newFromJSON cd config = some r := by
  unfold checkConfig at h
  split at h
  · cases h
  · next img himg =>
    split at h
    · cases h
    · next rootFS hroot =>
      split at h
      · cases h
      · cases h
        simp [newFromJSON, himg, hroot]

namespace Store

variable (cd : Codec) (s : Store)

def get (id : ID) : Option (Image × RootFS) := (s.fs.get cd id).bind (newFromJSON cd)

def getParent (id : ID) : Option ID := s.fs.getMetadata cd id "parent"

def children (id : ID) : Finset ID := ((s.images.lookup id).map (·.children)).getD ∅

def modifyChildren (id : ID) (f : Finset ID → Finset ID) : Store :=
  match s.images.lookup id with
  | none => s
  | some m => { s with images := s.images.insert id { m with children := f m.children } }

/-- `delete(is.images[parent].children, id)`, for the parent that is recorded. -/
def leaveParent (id : ID) : Store :=
  match s.getParent cd id with
  | none => s
  | some parent => s.modifyChildren parent (·.erase id)

/-- A reference to the layer, where `ls.Get` returns one. -/
def newRef (chainID : ChainID) : LayerRef × Store := (⟨chainID, s.got⟩, { s with got := s.got + 1 })

/-- The last part of `Create`. The set of digests takes valid digests only. -/
def register (id : ID) (layer : Option LayerRef) : Except Error ID × Store :=
  if validateDigest id then
    (.ok id,
      { s with
        images := s.images.insert id { layer := layer }, digestSet := insert id s.digestSet })
  else (.error (.invalidDigest id), s)

/-- `is.digestSet.Remove`, which takes valid digests only, and `delete(is.images, id)`. -/
def removeImage (id : ID) : Store :=
  { s with
    digestSet := if validateDigest id then s.digestSet.erase id else s.digestSet
    images := s.images.erase id }

/-- `Delete`, from the parent to `delete(is.images, id)`. -/
def unlink (id : ID) : Store := (s.leaveParent cd id).removeImage id

def release (layer : Option LayerRef) : Store :=
  { s with released := (layer.map (·.ref)).toList ++ s.released }

/-! ## Calls that run alone -/

/-- The part of `Create` under the lock; `ls` are the layers that `ls.Get` finds. -/
def createLocked (ls : ChainID → Bool) (id : ID) (rootFS : RootFS) : Except Error ID × Store :=
  if id ∈ s.images then (.ok id, s)
  else
    let layerID := rootFS.chainID cd
    if layerID = "" then s.register id none
    else if ls layerID then
      let (l, s) := s.newRef layerID
      s.register id l
    else (.error (.noLayer layerID), s)

def create (ls : ChainID → Bool) (config : Content) : Except Error ID × Store :=
  match checkConfig cd config with
  | .error e => (.error e, s)
  | .ok (_, rootFS) =>
    match s.fs.set cd config with
    | .error e => (.error e, s)
    | .ok (id, fs) => { s with fs := fs }.createLocked cd ls id rootFS

/-- `DeleteMetadata(id, "parent")` for each of the ids. -/
def forgetParents (ids : List ID) : Store :=
  { s with fs := ids.foldl (fun fs id => fs.deleteMetadata id "parent") s.fs }

/-- The children come in the order the map is iterated in. -/
def delete (order : List ID) (id : ID) : Except Error Unit × Store :=
  match s.images.lookup id with
  | none => (.error (.unrecognizedImage id), s)
  | some m =>
    let s := (s.forgetParents order).unlink cd id
    (.ok (), { s with fs := s.fs.delete id }.release m.layer)

def setParent (id parent : ID) : Except Error Unit × Store :=
  if parent ∈ s.images then
    let s := (s.leaveParent cd id).modifyChildren parent (insert id)
    match s.fs.setMetadata cd id "parent" parent with
    | .error e => (.error e, s)
    | .ok fs => (.ok (), { s with fs := fs })
  else (.error (.unknownParent parent), s)

/-! ## Restarts -/

/-- The function `restore` gives to `Walk`: an image that cannot be read is left out, a missing
layer is an error. -/
def restoreImage (ls : ChainID → Bool) (id : ID) : Except Error Store :=
  match s.get cd id with
  | none => .ok s
  | some (_, rootFS) =>
    let layerID := rootFS.chainID cd
    if layerID = "" then (s.register id none).1.map fun _ => (s.register id none).2
    else if ls layerID then
      let (l, s) := s.newRef layerID
      (s.register id l).1.map fun _ => (s.register id l).2
    else .error (.noLayer layerID)

def restoreImages (ls : ChainID → Bool) : List ID → Store → Except Error Store
  | [], s => .ok s
  | id :: ids, s => (s.restoreImage cd ls id).bind (restoreImages ls ids)

def restoreParent (id : ID) : Store :=
  match s.getParent cd id with
  | none => s
  | some parent => s.modifyChildren parent (insert id)

def restoreParents (ids : List ID) : Store := ids.foldl (fun s id => s.restoreParent cd id) s

/-- A new process: nothing but the backend is left. -/
def forget : Store := { fs := s.fs, got := s.got, released := s.released }

/-- `NewImageStore` on the same backend, where `Walk` finds the files in the order `ids`, and `iter`
that of the images. -/
def newImageStore (ls : ChainID → Bool) (ids iter : List ID) : Except Error Store :=
  (restoreImages cd ls ids s.forget).map fun s => s.restoreParents cd (iter.filter (· ∈ s.images))

/-! ## What the parts do -/

section
variable {cd : Codec} {s : Store} {id p : ID}

theorem mem_images_of_child (h : c ∈ s.children p) : p ∈ s.images := by
  rw [← lookup_isSome]
  unfold children at h
  cases hp : s.images.lookup p with
  | none =>
    rw [hp] at h
    exact absurd h (Finset.notMem_empty c)
  | some m => rfl

theorem children_of_notMem (h : p ∉ s.images) : s.children p = ∅ := by
  rw [children, lookup_eq_none.2 h]
  rfl

theorem lookup_modifyChildren : (s.modifyChildren id f).images.lookup p =
    if p = id then (s.images.lookup id).map fun m =>
      { m with children := f m.children } else s.images.lookup p := by
  unfold modifyChildren
  split
  · next h =>
    split
    · next hp => rw [hp, h, map_none]
    · rfl
  · next m h =>
    split
    · next hp => rw [hp, h, lookup_insert, map_some]
    · next hp => rw [lookup_insert_ne hp]

@[simp] theorem modifyChildren_fs : (s.modifyChildren id f).fs = s.fs := by
  unfold modifyChildren
  split <;> rfl

@[simp] theorem mem_modifyChildren : p ∈ (s.modifyChildren id f).images ↔ p ∈ s.images := by
  rw [← lookup_isSome, ← lookup_isSome, lookup_modifyChildren]
  split
  · next hp => rw [hp, isSome_map]
  · rfl

theorem children_modifyChildren :
    (s.modifyChildren id f).children p = if p = id ∧ id ∈ s.images then f (s.children id)
      else s.children p := by
  rw [children, lookup_modifyChildren]
  by_cases hp : p = id
  · subst hp
    by_cases hmem : p ∈ s.images
    · obtain ⟨m, hm⟩ := isSome_iff_exists.1 (lookup_isSome.2 hmem)
      simp [hmem, hm, children]
    · simp [hmem, lookup_eq_none.2 hmem, children]
  · simp [hp, children]

@[simp] theorem leaveParent_fs : (s.leaveParent cd id).fs = s.fs := by
  unfold leaveParent
  split <;> simp

@[simp] theorem mem_leaveParent : p ∈ (s.leaveParent cd id).images ↔ p ∈ s.images := by
  unfold leaveParent
  split <;> simp

theorem children_leaveParent : (s.leaveParent cd id).children p =
    if s.getParent cd id = some p then (s.children p).erase id else s.children p := by
  unfold leaveParent
  split
  · next h => rw [h, if_neg (by simp)]
  · next q h =>
    rw [children_modifyChildren, h]
    by_cases hq : q = p
    · subst hq
      by_cases hmem : q ∈ s.images
      · simp [hmem]
      · simp [hmem, children_of_notMem hmem]
    · rw [if_neg (fun hp => hq hp.1.symm), if_neg (by simpa using hq)]

theorem register_of_valid (h : validateDigest id = true) : s.register id layer =
    (.ok id,
      { s with
        images := s.images.insert id { layer := layer }, digestSet := insert id s.digestSet }) := by
  rw [register, if_pos h]

theorem children_insert {s' : Store} (h : s'.images = s.images.insert id { layer := layer }) :
    s'.children p = if p = id then ∅ else s.children p := by
  rw [children, h]
  split
  · next hp => rw [hp, lookup_insert, map_some, getD_some]
  · next hp => rw [lookup_insert_ne hp, children]

@[simp] theorem unlink_fs : (s.unlink cd id).fs = s.fs := leaveParent_fs

theorem unlink_images : (s.unlink cd id).images = (s.leaveParent cd id).images.erase id := rfl

@[simp] theorem mem_unlink : p ∈ (s.unlink cd id).images ↔ p ≠ id ∧ p ∈ s.images := by
  simp [unlink_images, mem_erase]

theorem children_unlink : (s.unlink cd id).children p =
    if p = id then ∅ else if s.getParent cd id = some p then (s.children p).erase id
      else s.children p := by
  rw [← children_leaveParent, children, unlink_images]
  split
  · next hp => rw [hp, lookup_erase, map_none, getD_none]
  · next hp => rw [lookup_erase_ne hp, children]

theorem metadata_forgetParents : (s.forgetParents ids).fs.metadata c "parent" =
    if c ∈ ids then none else s.fs.metadata c "parent" := by
  have hfold : ∀ fs : Backend,
      (ids.foldl (fun fs id => fs.deleteMetadata id "parent") fs).metadata c "parent" =
      if c ∈ ids then none else fs.metadata c "parent" := by
    induction ids with
    | nil => simp
    | cons id ids ih =>
      intro fs
      rw [List.foldl_cons, ih, Backend.deleteMetadata]
      by_cases hc : c = id
      · simp [hc]
      · simp [hc]
  exact hfold s.fs

@[simp] theorem content_forgetParents : (s.forgetParents ids).fs.content = s.fs.content := by
  have hfold : ∀ fs : Backend, (ids.foldl (fun fs id => fs.deleteMetadata id "parent") fs).content =
      fs.content := by
    induction ids with
    | nil => simp
    | cons id ids ih => exact fun fs => ih (fs.deleteMetadata id "parent")
  exact hfold s.fs

theorem getParent_forgetParents : (s.forgetParents ids).getParent cd c =
    if c ∈ ids then none else s.getParent cd c := by
  simp only [getParent, Backend.getMetadata, Backend.get, content_forgetParents,
    metadata_forgetParents]
  split
  · simp
  · rfl

/-! ## The outcomes of `Create` -/

def stored (cd : Codec) (s : Store) (config : Content) : Backend :=
  { s.fs with content := s.fs.content.insert (cd.fromBytes config) config }

/-- The layer an image with this chain id gets, and how many references there are then. -/
inductive Gets (ls : ChainID → Bool) (s : Store) (chainID : ChainID) : Option LayerRef → Nat → Prop
  | empty : chainID = "" → Gets ls s chainID none s.got
  | layer : chainID ≠ "" → ls chainID = true → Gets ls s chainID (some ⟨chainID, s.got⟩) (s.got + 1)

inductive Created (cd : Codec) (ls : ChainID → Bool) (s : Store) (config : Content) :
    Except Error ID × Store → Prop
  | rejected {e : Error} (he : ∀ chainID, e ≠ .noLayer chainID) :
    Created cd ls s config (.error e, s)
  | existing {img : Image} {rootFS : RootFS} (h : checkConfig cd config = .ok (img, rootFS))
      (hmem : cd.fromBytes config ∈ s.images) :
      Created cd ls s config (.ok (cd.fromBytes config), { s with fs := s.stored cd config })
  | registered {img : Image} {rootFS : RootFS} {layer : Option LayerRef} {got : Nat}
      (h : checkConfig cd config = .ok (img, rootFS)) (hmem : cd.fromBytes config ∉ s.images)
      (hgets : Gets ls s (rootFS.chainID cd) layer got) :
        Created cd ls s config (.ok (cd.fromBytes config), { s with
          fs := s.stored cd config
          images := s.images.insert (cd.fromBytes config) { layer := layer }
          digestSet := insert (cd.fromBytes config) s.digestSet
          got := got })
  | failed {img : Image} {rootFS : RootFS} (h : checkConfig cd config = .ok (img, rootFS))
      (hmem : cd.fromBytes config ∉ s.images) (hls : ls (rootFS.chainID cd) = false) :
      Created cd ls s config (.error (.noLayer (rootFS.chainID cd)),
        { s with fs := s.stored cd config })

theorem checkConfig_ne_noLayer (h : checkConfig cd config = .error e) (chainID : ChainID) :
    e ≠ .noLayer chainID := by
  unfold checkConfig at h
  split at h
  · cases h
    simp
  · split at h
    · cases h
      simp
    · split at h
      · cases h
        simp
      · cases h

theorem created (cd : Codec) (ls : ChainID → Bool) (s : Store) (config : Content) :
    Created cd ls s config (s.create cd ls config) := by
  unfold create
  cases h : checkConfig cd config with
  | error e => exact .rejected (checkConfig_ne_noLayer h)
  | ok r =>
    obtain ⟨img, rootFS⟩ := r
    by_cases hnil : config = []
    · rw [Backend.set, if_pos hnil]
      exact .rejected (by simp)
    rw [Backend.set, if_neg hnil]
    dsimp only
    unfold createLocked
    by_cases hmem : cd.fromBytes config ∈ s.images
    · rw [if_pos hmem]
      exact .existing h hmem
    rw [if_neg hmem]
    dsimp only
    have hreg : ∀ (s : Store) layer, s.register (cd.fromBytes config) layer = _ := fun s layer =>
      register_of_valid (cd.valid config).2
    by_cases hchain : rootFS.chainID cd = ""
    · rw [if_pos hchain, hreg]
      exact .registered h hmem (.empty hchain)
    · rw [if_neg hchain]
      cases hls : ls (rootFS.chainID cd) with
      | true =>
        rw [if_pos rfl, hreg]
        exact .registered h hmem (.layer hchain hls)
      | false =>
        exact .failed h hmem hls

end

end Store

end Docker.Image
