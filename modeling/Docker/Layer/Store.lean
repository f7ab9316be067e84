import Docker.Layer.Metadata

/-!
# The layer store

The data of `layerStore` (`layer/layer_store.go`, `ro_layer.go`, `mounted_layer.go`) and the
sections under its mutexes. Layers, mounted layers, references and calls are numbered in the order
of their allocation.

Of the graph driver the model keeps which ids exist. Any call of the driver or of the metadata store
can fail; one that fails changes nothing.
-/

namespace Docker.Layer

open List

theorem update_eq_some [DecidableEq α] {a a' : α} (h : Function.update f a (some b) a' = some b') :
    a' = a ∧ b' = b ∨ a' ≠ a ∧ f a' = some b' := by
  by_cases ha : a' = a
  · subst ha
    rw [Function.update_self] at h
    exact .inl ⟨rfl, (Option.some.inj h).symm⟩
  · rw [Function.update_of_ne ha] at h
    exact .inr ⟨ha, h⟩

/-- A `referencedCacheLayer`: the layer it wraps and its identity. For another `Layer` the number
was never handed out. -/
structure Handle where
  roLayer : Nat
  ref : Nat
  deriving DecidableEq

/-- What does not change any more once a layer is in `layerMap`. -/
structure LayerData where
  chainID : ChainID := ""
  diffID : DiffID := ""
  parent : Option Nat := none
  cacheID : String := ""
  size : Int := 0
  descriptor : Descriptor := {}
  deriving DecidableEq

structure RoLayer extends LayerData where
  referenceCount : Nat := 0
  references : List Handle := []
  deriving DecidableEq

structure MountedLayer where
  name : String := ""
  mountID : String := ""
  initID : String := ""
  parent : Option Nat := none
  references : List Nat := []
  deriving DecidableEq

structure Metadata where
  chainID : ChainID
  diffID : DiffID
  size : Int
  diffSize : Int
  deriving DecidableEq

inductive Error where
  | layerDoesNotExist | layerNotRetained | mountDoesNotExist | mountNameConflict | maxDepthExceeded
  | graphIDDoesNotExist (graphID : String)
  | mismatchedParent | mountAlreadyExists
  /-- An error of the driver, of the metadata store or of `initFunc`. -/
  | io
  deriving DecidableEq

/-- The panics of `releaseLayer`, and the access to `m.parent.chainID` for a mount without
parent. -/
inductive Panic where
  | layerNotRetained | layerWithChild | referencedLayer | nilParent
  deriving DecidableEq

inductive Result where
  | layer (l : Handle)
  | rwLayer (m ref : Nat)
  | metadata (removed : List Metadata)
  | nil
  | err (e : Error)
  | panic (p : Panic)
  deriving DecidableEq

/-- How `CreateRWLayer` and `CreateRWLayerByGraphID` go on once they have the parent. -/
inductive MountKind where
  | new (init : Bool)
  | byGraphID
  deriving DecidableEq

/-- Where a call stands between two sections. A layer that is being built belongs to the call alone,
and has the count 1. -/
inductive Pc where
  /-- `registerWithDescriptor`, about to call `driver.Create`. -/
  | creating (layer : LayerData)
  | startingTransaction (layer : LayerData)
  | applyingTar (layer : LayerData)
  | storingLayer (layer : LayerData)
  /-- About to lock `layerL` for the last section, with the files of the transaction. -/
  | committing (layer : LayerData) (tx : LayerFiles)
  /-- The deferred clean-up, with the result to return. -/
  | cleaningUp (layer : LayerData) (result : Result)
  /-- `RegisterByGraphID`, about to lock `layerL` for the last section. -/
  | registeringGraphID (layer : LayerData)
  /-- The deferred release of the parent. -/
  | releasingParent (parent : Option Nat) (result : Result)
  /-- Holds `mountL`, the name is free, about to get the parent. -/
  | gettingParent (m : MountedLayer) (parent : ChainID) (kind : MountKind)
  | initializingMount (m : MountedLayer)
  | creatingReadWrite (m : MountedLayer)
  | checkingInit (m : MountedLayer)
  | savingMount (m : MountedLayer) (kind : MountKind)
  /-- `ReleaseRWLayer` has deleted the mount and goes on to its parent. -/
  | releasingMountParent (parent : Option Nat)
  | returned (result : Result)
  deriving DecidableEq

structure State where
  layers : Nat → RoLayer
  nextLayer : Nat
  layerMap : ChainID → Option Nat
  mountedLayers : Nat → MountedLayer
  nextMount : Nat
  mounts : String → Option Nat
  /-- The call that holds `mountL` between two sections. -/
  mountL : Option Nat
  nextRef : Nat
  pc : Nat → Option Pc
  nextCall : Nat
  /-- The graph ids that exist in the driver. -/
  driver : String → Bool
  store : MetadataStore
  /-- The graph ids that were generated or handed in so far. -/
  graphIDs : List String

def emptyStore : State where
  layers _ := {}
  nextLayer := 0
  layerMap _ := none
  mountedLayers _ := {}
  nextMount := 0
  mounts _ := none
  mountL := none
  nextRef := 0
  pc _ := none
  nextCall := 0
  driver _ := false
  store := {}
  graphIDs := []

namespace State

variable (s : State)

def present (i : Nat) : Prop := s.layerMap (s.layers i).chainID = some i

def mounted (m : Nat) : Prop := s.mounts (s.mountedLayers m).name = some m

instance (i : Nat) : Decidable (s.present i) := inferInstanceAs (Decidable (_ = _))
instance (m : Nat) : Decidable (s.mounted m) := inferInstanceAs (Decidable (_ = _))

/-! ## The parent chain -/

/-- `depth`, for a chain of at most `fuel` layers. -/
def depthFrom (layers : Nat → RoLayer) : Nat → Nat → Nat
  | 0, _ => 0
  | fuel + 1, i =>
    match (layers i).parent with
    | none => 1
    | some p => depthFrom layers fuel p + 1

/-- `Size`, for a chain of at most `fuel` layers. -/
def sizeFrom (layers : Nat → RoLayer) : Nat → Nat → Int
  | 0, _ => 0
  | fuel + 1, i =>
    match (layers i).parent with
    | none => (layers i).size
    | some p => sizeFrom layers fuel p + (layers i).size

def depth (i : Nat) : Nat := depthFrom s.layers (i + 1) i

def size (i : Nat) : Int := sizeFrom s.layers (i + 1) i

/-! ## Calls -/

@[simps] def setPc (c : Nat) (p : Pc) : State := { s with pc := Function.update s.pc c (some p) }

/-- A new call, which is going to be number `s.nextCall`. -/
@[simps] def newCall : State := { s with nextCall := s.nextCall + 1 }

@[simps] def lockMounts (c : Nat) : State := { s with mountL := some c }

/-- A call returns, and unlocks `mountL` if it holds it. -/
@[simps] def ret (c : Nat) (r : Result) : State :=
  { s with
    pc := Function.update s.pc c (some (.returned r))
    mountL := if s.mountL = some c then none else s.mountL }

@[simps] def useID (id : String) : State := { s with graphIDs := id :: s.graphIDs }

/-! ## Layers and references -/

@[simps] def modifyLayer (i : Nat) (f : RoLayer → RoLayer) : State :=
  { s with layers := Function.update s.layers i (f (s.layers i)) }

def retain (i : Nat) : State :=
  s.modifyLayer i fun l => { l with referenceCount := l.referenceCount + 1 }

def newHandle (i : Nat) : Handle := ⟨i, s.nextRef⟩

def getReference (i : Nat) : State :=
  { s.modifyLayer i fun l => { l with references := s.newHandle i :: l.references } with
    nextRef := s.nextRef + 1 }

def deleteReference (i : Nat) (h : Handle) : State :=
  s.modifyLayer i fun l => { l with references := l.references.erase h }

/-- `ls.layerMap[layer.chainID] = layer` for a new layer, whose count is 1, and its first
reference. -/
def insertLayer (l : LayerData) : State :=
  { s with
    layers := Function.update s.layers s.nextLayer
      { toLayerData := l, referenceCount := 1, references := [s.newHandle s.nextLayer] }
    nextLayer := s.nextLayer + 1
    layerMap := Function.update s.layerMap l.chainID (some s.nextLayer)
    nextRef := s.nextRef + 1 }

@[simps] def deleteEntry (i : Nat) : State :=
  { s with layerMap := Function.update s.layerMap (s.layers i).chainID none }

theorem modifyLayer_data (hf : (f (s.layers i)).toLayerData = (s.layers i).toLayerData) (j : Nat) :
    ((s.modifyLayer i f).layers j).toLayerData = (s.layers j).toLayerData := by
  by_cases hj : j = i
  · subst hj
    simpa using hf
  · simp [hj]

theorem retain_data (i j : Nat) :
    ((s.retain i).layers j).toLayerData = (s.layers j).toLayerData := s.modifyLayer_data rfl j

theorem getReference_data (i j : Nat) :
    ((s.getReference i).layers j).toLayerData = (s.layers j).toLayerData :=
  s.modifyLayer_data (f := fun l => { l with references := s.newHandle i :: l.references }) rfl j

theorem deleteReference_data (i : Nat) (h : Handle) (j : Nat) :
    ((s.deleteReference i h).layers j).toLayerData = (s.layers j).toLayerData :=
  s.modifyLayer_data rfl j

/-! ## Mounted layers -/

@[simps] def modifyMount (m : Nat) (f : MountedLayer → MountedLayer) : State :=
  { s with mountedLayers := Function.update s.mountedLayers m (f (s.mountedLayers m)) }

/-- `ls.mounts[mount.name] = mount` for a new mounted layer. -/
@[simps] def insertMount (m : MountedLayer) : State :=
  { s with
    mountedLayers := Function.update s.mountedLayers s.nextMount m
    nextMount := s.nextMount + 1
    mounts := Function.update s.mounts m.name (some s.nextMount) }

@[simps] def deleteMount (name : String) : State :=
  { s with mounts := Function.update s.mounts name none }

def getRWReference (m : Nat) : State :=
  { s.modifyMount m fun x => { x with references := s.nextRef :: x.references } with
    nextRef := s.nextRef + 1 }

def deleteRWReference (m ref : Nat) : State :=
  s.modifyMount m fun x => { x with references := x.references.erase ref }

/-! ## The driver and the metadata store -/

@[simps] def driverSet (id : String) (b : Bool) : State :=
  { s with driver := Function.update s.driver id b }

@[simps] def setStore (st : MetadataStore) : State := { s with store := st }

/-- `storeLayer`: the files it leaves in the directory of the transaction. -/
def storeLayer (l : LayerData) : LayerFiles where
  diff := some l.diffID
  size := some l.size
  cacheID := some l.cacheID
  -- Do not store empty descriptors
  descriptor := if l.descriptor.digest = "" then none else some l.descriptor
  parent := l.parent.map fun p => (s.layers p).chainID

/-- The calls of the metadata store in `saveMount`, in their order. -/
def saveMount (m : MountedLayer) : List (MetadataStore → MetadataStore) :=
  (·.setMountID m.name m.mountID) :: (if m.initID = "" then []
    else [(·.setInitID m.name m.initID)]) ++
    (m.parent.map fun p (st : MetadataStore) =>
      st.setMountParent m.name (s.layers p).chainID).toList

theorem foldl_saveMount_layers (h : writes ⊆ s.saveMount m) (st : MetadataStore) :
    (writes.foldl (fun st w => w st) st).layers = st.layers := by
  have hone : ∀ w ∈ s.saveMount m, ∀ st, (w st).layers = st.layers := by
    intro w hw st
    simp only [saveMount, cons_append, mem_cons, mem_append, Option.mem_toList,
      Option.map_eq_some_iff] at hw
    rcases hw with rfl | hw | ⟨p, -, rfl⟩
    · rfl
    · split at hw
      · cases hw
      · rw [mem_singleton.1 hw]
        rfl
    · rfl
  induction writes generalizing st with
  | nil => rfl
  | cons w ws ih =>
    rw [foldl_cons, ih (subset_of_cons_subset h)]
    exact hone w (h mem_cons_self) st

end State

/-! ## Releasing a layer -/

inductive DeleteFate where
  | ok
  /-- `driver.Remove` fails. -/
  | driverFails
  /-- `driver.Remove` succeeds and `store.Remove` fails. -/
  | storeFails
  deriving DecidableEq

def deleteLayer (fate : DeleteFate) (s : State) (i : Nat) : State × Option Metadata :=
  let l := s.layers i
  match fate with
  | .driverFails => (s, none)
  | .storeFails => (s.driverSet l.cacheID false, none)
  | .ok => ((s.driverSet l.cacheID false).setStore (s.store.remove l.chainID),
      some { chainID := l.chainID, diffID := l.diffID, size := s.size i, diffSize := l.size })

/-- The loop of `releaseLayer`, for at most `fuel` layers; `fates` are the outcomes of the deletions
that may fail. -/
def releaseLoop : Nat → List DeleteFate → Nat → List Metadata → State → Nat → State × Result
  | 0, _, _, removed, s, _ => (s, .metadata removed)
  | fuel + 1, fates, depth, removed, s, i =>
    if (s.layers i).referenceCount = 0 then (s, .panic .layerNotRetained)
    else
      let s := s.modifyLayer i fun l => { l with referenceCount := l.referenceCount - 1 }
      if (s.layers i).referenceCount ≠ 0 then (s, .metadata removed)
      else if removed = [] ∧ 0 < depth then (s, .panic .layerWithChild)
      else if (s.layers i).references ≠ [] then (s, .panic .referencedLayer)
      else
        match deleteLayer (fates.headD .ok) s i with
        | (s, none) => (s, .err .io)
        | (s, some metadata) =>
          let s := s.deleteEntry i
          match (s.layers i).parent with
          | none => (s, .metadata (removed ++ [metadata]))
          | some p => releaseLoop fuel fates.tail (depth + 1) (removed ++ [metadata]) s p

/-- `releaseLayer`. A layer has at most as many ancestors as there are smaller numbers. -/
def releaseLayer (fates : List DeleteFate) (s : State) (i : Nat) : State × Result :=
  releaseLoop (i + 1) fates 0 [] s i

end Docker.Layer
