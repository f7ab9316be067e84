import Docker.Layer.ChainID

/-!
# The metadata store

`layer/filestore.go`: a directory for each layer, under its chain id, and one for each mount, under
its name, with one small file for each property. A call of the store either takes place as a whole
or fails and changes nothing. The files for a size and a descriptor are modelled by the values they
encode.
-/

namespace Docker.Layer

structure Descriptor where
  mediaType : String := ""
  size : Int := 0
  digest : String := ""
  urls : List String := []
  deriving DecidableEq

structure LayerFiles where
  diff : Option String := none
  size : Option Int := none
  cacheID : Option String := none
  descriptor : Option Descriptor := none
  parent : Option String := none
  deriving DecidableEq

structure MountFiles where
  mountID : Option String := none
  initID : Option String := none
  parent : Option String := none
  deriving DecidableEq

/-- `fileMetadataStore`: the directories of layers and mounts. Those of transactions become visible
by `Commit`. -/
structure MetadataStore where
  layers : AList fun _ : ChainID => LayerFiles := ∅
  mounts : AList fun _ : String => MountFiles := ∅

namespace MetadataStore

variable (st : MetadataStore)

/-! ## Layers -/

/-- `Commit`: the directory of the transaction becomes that of the layer, unless there is one
already. -/
def commit (tx : LayerFiles) (layer : ChainID) : Option MetadataStore :=
  if layer ∈ st.layers then none else some { st with layers := st.layers.insert layer tx }

def remove (layer : ChainID) : MetadataStore := { st with layers := st.layers.erase layer }

def getSize (layer : ChainID) : Option Int := (st.layers.lookup layer).bind (·.size)

def getParent (layer : ChainID) : Option ChainID :=
  match (st.layers.lookup layer).bind (·.parent) with
  | none => some ""
  | some content => parseDigest content

def getDiffID (layer : ChainID) : Option DiffID :=
  ((st.layers.lookup layer).bind (·.diff)).bind parseDigest

def getCacheID (layer : ChainID) : Option String :=
  ((st.layers.lookup layer).bind (·.cacheID)).bind parseStringID

def getDescriptor (layer : ChainID) : Option Descriptor :=
  some (((st.layers.lookup layer).bind (·.descriptor)).getD {})

/-! ## Mounts -/

/-- `os.MkdirAll` for the directory of a mount, and a write to one of its files. -/
def setMount (mount : String) (write : MountFiles → MountFiles) : MetadataStore :=
  { st with mounts := st.mounts.insert mount (write ((st.mounts.lookup mount).getD {})) }

def setMountID (mount mountID : String) : MetadataStore :=
  st.setMount mount fun f => { f with mountID := some mountID }

def setInitID (mount init : String) : MetadataStore :=
  st.setMount mount fun f => { f with initID := some init }

def setMountParent (mount : String) (parent : ChainID) : MetadataStore :=
  st.setMount mount fun f => { f with parent := some parent }

def removeMount (mount : String) : MetadataStore := { st with mounts := st.mounts.erase mount }

def getMountID (mount : String) : Option String :=
  ((st.mounts.lookup mount).bind (·.mountID)).bind parseStringID

def getInitID (mount : String) : Option String :=
  match (st.mounts.lookup mount).bind (·.initID) with
  | none => some ""
  | some content => parseStringID content

def getMountParent (mount : String) : Option ChainID :=
  match (st.mounts.lookup mount).bind (·.parent) with
  | none => some ""
  | some content => parseDigest content

/-! ## Listing -/

/-- The name of a directory directly below `mounts`. -/
def isFileName (name : String) : Bool :=
  name != "" && name != "." && name != ".." && !name.toList.contains '/'

/-- The layers `List` finds in the directory: `supportedAlgorithms` has only `sha256`, and other
names are ignored. -/
def listLayers : List ChainID :=
  st.layers.keys.filter fun layer => algorithm layer == "sha256" && validateDigest layer

def listMounts : List String := st.mounts.keys.filter isFileName

end MetadataStore

end Docker.Layer
