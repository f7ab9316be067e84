import Docker.Lib.Transition
import Docker.Layer.Step

/-!
# Restarts

`NewStoreFromGraphDriver`, which rebuilds the maps of the store from the metadata directory, and the
layer store with restarts at any time: the calls that are in flight then are gone.
-/

namespace Docker.Layer

namespace State

variable (s : State)

/-- `ls.layerMap[cl.chainID] = cl` in `loadLayer`. -/
def addLoaded (l : LayerData) : State :=
  { s with
    layers := Function.update s.layers s.nextLayer { toLayerData := l }
    nextLayer := s.nextLayer + 1
    layerMap := Function.update s.layerMap l.chainID (some s.nextLayer) }

/-- `loadLayer`, for a chain of at most `fuel` layers that are not loaded yet. Nothing is added on
failure. -/
def loadLayer : Nat → State → ChainID → Option (State × Nat)
  | 0, _, _ => none
  | fuel + 1, s, layer =>
    match s.layerMap layer with
    | some i => some (s, i)
    | none => do
      let diffID ← s.store.getDiffID layer
      let size ← s.store.getSize layer
      let cacheID ← s.store.getCacheID layer
      let parent ← s.store.getParent layer
      let descriptor ← s.store.getDescriptor layer
      let l : LayerData := { chainID := layer, diffID, size, cacheID, descriptor }
      if parent = "" then some (s.addLoaded l, s.nextLayer)
      else
        let (s', p) ← loadLayer fuel s parent
        some (s'.addLoaded { l with parent := some p }, s'.nextLayer)

/-- As many layers as there are directories can be loaded. -/
def loadFuel : Nat := s.store.layers.keys.length + 1

/-- A turn of the first loop of `NewStoreFromGraphDriver`: errors are only logged. -/
def loadListed (layer : ChainID) : State :=
  match loadLayer s.loadFuel s layer with
  | none => s
  | some (s', i) =>
    match (s'.layers i).parent with
    | none => s'
    | some p => s'.retain p

def loadMount (name : String) : Option State :=
  match s.mounts name with
  | some _ => some s
  | none => do
    let mountID ← s.store.getMountID name
    let initID ← s.store.getInitID name
    let parent ← s.store.getMountParent name
    let m : MountedLayer := { name, mountID, initID }
    if parent = "" then some (s.insertMount m)
    else
      let (s', p) ← loadLayer s.loadFuel s parent
      some ((s'.retain p).insertMount { m with parent := some p })

/-- A turn of the second loop: errors are only logged. -/
def loadListedMount (name : String) : State := (s.loadMount name).getD s

/-- A new process: nothing but the driver and the metadata store is left. -/
def forget : State :=
  { emptyStore with
    driver := s.driver
    store := s.store
    graphIDs := s.graphIDs
    nextRef := s.nextRef }

/-- `NewStoreFromGraphDriver`, where `List` returns `ids` and `mounts`. -/
def newStoreFromGraphDriver (ids : List ChainID) (mounts : List String) : State :=
  mounts.foldl loadListedMount (ids.foldl loadListed s.forget)

end State

/-- A step of the store, or a restart in which `List` returns the given layers and mounts. -/
inductive Event where
  | op (l : Label)
  | restart (ids : List ChainID) (mounts : List String)

/-- The layer store with restarts, for any order in which directories are listed. -/
def stepRestart (fromBytes : String → String) : Event → State → Option State
  | .op l, s => step fromBytes l s
  | .restart ids mounts, s =>
    if ids.Perm s.store.listLayers ∧ mounts.Perm s.store.listMounts then
      some (s.newStoreFromGraphDriver ids mounts)
    else none

end Docker.Layer
