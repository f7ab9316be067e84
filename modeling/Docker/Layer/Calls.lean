import Docker.Lib.Defer
import Docker.Layer.Load

/-!
# Creating layers, call by call

`registerWithDescriptor` and `CreateRWLayer` as programs that run on their own: each call of the
driver and of the metadata store may fail, and the deferred functions are armed where the source
arms them. The directories of transactions are part of the state here. A call that fails changes
nothing; the calls of the clean-up succeed.
-/

namespace Docker.Layer.Calls

open Defer

structure World where
  state : State
  tmp : String → Option LayerFiles

def World.mapState (f : State → State) (w : World) : World := { w with state := f w.state }

abbrev M := EStateM Error World

/-- `get(parent)`, and its deferred release. -/
def withParent {α : Type} (parent : ChainID) (x : Option Nat → M (α × Bool)) : M (α × Bool) := do
  if parent = "" then x none
  else
    match (← get).state.layerMap parent with
    | none => throw .layerDoesNotExist
    | some p => do
      modify (World.mapState (·.retain p))
      -- Release parent chain if error
      onError (World.mapState fun s => (releaseLayer [] s p).1) (x (some p))

/-! ## `registerWithDescriptor` -/

inductive RegisterCall where
  | driverCreate | startTransaction
  | tarSplitWriter | newInputTarStream | applyDiff
  | setDiffID | setSize | setCacheID | setDescriptor | setParent
  | commit
  deriving DecidableEq

/-- The arguments of `registerWithDescriptor`, and what the calls return that succeed. -/
structure Registration where
  parent : ChainID
  descriptor : Descriptor := {}
  /-- The generated id. -/
  cacheID : String
  /-- The directory of the transaction. -/
  txRoot : String
  /-- The tar data. -/
  tar : String
  /-- What `ApplyDiff` returns. -/
  applySize : Int

section
variable (fromBytes : String → String) (fails : RegisterCall → Bool) (r : Registration)

def Registration.applyTar (layer : LayerData) : M LayerData := do
  call .io fails .tarSplitWriter id
  call .io fails .newInputTarStream id
  call .io fails .applyDiff id
  return { layer with size := r.applySize, diffID := fromBytes r.tar }

def Registration.setFile (c : RegisterCall) (write : LayerFiles → LayerFiles) : M Unit :=
  call .io fails c fun w =>
    { w with tmp := Function.update w.tmp r.txRoot ((w.tmp r.txRoot).map write) }

def Registration.storeLayer (layer : LayerData) : M Unit := do
  r.setFile fails .setDiffID fun f => { f with diff := some layer.diffID }
  r.setFile fails .setSize fun f => { f with size := some layer.size }
  r.setFile fails .setCacheID fun f => { f with cacheID := some layer.cacheID }
  -- Do not store empty descriptors
  if layer.descriptor.digest ≠ "" then
    r.setFile fails .setDescriptor fun f => { f with descriptor := some layer.descriptor }
  match layer.parent with
  | none => return
  | some p =>
    let chainID := ((← get).state.layers p).chainID
    r.setFile fails .setParent fun f => { f with parent := some chainID }

def Registration.commit (chainID : ChainID) : M Unit := do
  if fails .commit then throw .io
  let w ← get
  match (w.tmp r.txRoot).bind fun tx => w.state.store.commit tx chainID with
  | none => throw .io
  | some st =>
    set { state := w.state.setStore st, tmp := Function.update w.tmp r.txRoot none : World }

/-- The part behind the second deferred function. -/
def Registration.fill (layer : LayerData) : M (Handle × Bool) := do
  let layer ← r.applyTar fromBytes fails layer
  let s := (← get).state
  let layer := { layer with
    chainID :=
      match layer.parent with
      | none => layer.diffID
      | some p => createChainIDFromParent fromBytes (s.layers p).chainID [layer.diffID] }
  r.storeLayer fails layer
  match s.layerMap layer.chainID with
  | some i =>
    modify (World.mapState fun s => (s.retain i).getReference i)
    -- Set error for cleanup, but do not return the error
    return (s.newHandle i, true)
  | none =>
    r.commit fails layer.chainID
    modify (World.mapState (·.insertLayer layer))
    return (s.newHandle s.nextLayer, false)

def Registration.cleanUp (w : World) : World where
  state := w.state.driverSet r.cacheID false
  tmp := Function.update w.tmp r.txRoot none

/-- The part behind the first deferred function. -/
def Registration.create (p : Option Nat) : M (Handle × Bool) := do
  let s := (← get).state
  if p.any fun p => maxLayerDepth ≤ s.depth p then throw .maxDepthExceeded
  call .io fails .driverCreate (World.mapState (·.driverSet r.cacheID true))
  call .io fails .startTransaction fun w =>
    { w with tmp := Function.update w.tmp r.txRoot (some {}) }
  onError r.cleanUp (r.fill fromBytes fails (newLayer p r.cacheID r.descriptor))

end

/-! ## `CreateRWLayer` -/

inductive MountCall where
  | initCreate | initGet | initFunc | initPut
  | createReadWrite
  | setMountID | setInitID | setMountParent
  deriving DecidableEq

section
variable (fails : MountCall → Bool)

def initMount (graphID : String) : M String := do
  call .io fails .initCreate (World.mapState (·.driverSet (initID graphID) true))
  call .io fails .initGet id
  call .io fails .initFunc id
  call .io fails .initPut id
  return initID graphID

def setMountFile (c : MountCall) (write : MetadataStore → MetadataStore) : M Unit :=
  call .io fails c (World.mapState fun s => s.setStore (write s.store))

def saveMount (m : MountedLayer) : M Unit := do
  setMountFile fails .setMountID (·.setMountID m.name m.mountID)
  if m.initID ≠ "" then setMountFile fails .setInitID (·.setInitID m.name m.initID)
  match m.parent with
  | none => pure ()
  | some p =>
    let chainID := ((← get).state.layers p).chainID
    setMountFile fails .setMountParent (·.setMountParent m.name chainID)
  modify (World.mapState (·.insertMount m))

/-- The part behind the deferred function. -/
def createMount (name mountID : String) (init : Bool) (p : Option Nat) : M ((Nat × Nat) × Bool) :=
  do
  let mut m := { newMount name mountID with parent := p }
  if init then m := { m with initID := ← initMount fails m.mountID }
  call .io fails .createReadWrite (World.mapState (·.driverSet mountID true))
  let s := (← get).state
  saveMount fails m
  modify (World.mapState (·.getRWReference s.nextMount))
  return ((s.nextMount, s.nextRef), false)

def createRWLayer (name : String) (parent : ChainID) (init : Bool) (mountID : String) :
    M (Nat × Nat) :=
  do
  if ((← get).state.mounts name).isSome then throw .mountNameConflict
  return (← withParent parent (createMount fails name mountID init)).1

end

end Docker.Layer.Calls
