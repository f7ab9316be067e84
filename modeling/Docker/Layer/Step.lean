import Docker.Layer.Store

/-!
# The operations of the layer store

The operations of `layerStore` as steps of a transition system. A step is a section under `layerL`
or `mountL`, or a call of the driver or the metadata store outside these sections; its label says
what these calls return.
-/

namespace Docker.Layer

def maxLayerDepth : Nat := 125

/-- What `stringid.GenerateRandomID` returns: 64 hex digits. -/
def isRandomID (id : String) : Bool := id.toList.length == 64 && id.toList.all isLowerHex

inductive InitFate where
  | ok
  /-- `driver.Create` fails. -/
  | createFails
  /-- A later call fails. -/
  | initFails
  deriving DecidableEq

/-- What happens in `ReleaseRWLayer` when the last reference goes. -/
inductive UnmountFate where
  | ok
  /-- `driver.Remove(m.mountID)` fails. -/
  | driverFails
  /-- `driver.Remove(m.initID)` fails. -/
  | initFails
  /-- `store.RemoveMount` fails. -/
  | storeFails
  deriving DecidableEq

inductive Label where
  | register (parent : ChainID) (descriptor : Descriptor) (cacheID : String)
  | registerByGraphID (graphID : String) (parent : ChainID) (diffID : DiffID) (size : Int)
  | get (layer : ChainID)
  | release (l : Handle) (fates : List DeleteFate)
  | createRWLayer (name : String) (parent : ChainID) (init : Bool) (mountID : String)
  | createRWLayerByGraphID (name graphID : String) (parent : ChainID) (ok : Bool)
  | getRWLayer (name : String)
  | releaseRWLayer (name : String) (ref : Nat) (fate : UnmountFate)
  | driverCreate (c : Nat) (ok : Bool)
  | startTransaction (c : Nat) (ok : Bool)
  /-- The tar data that was read and the size `ApplyDiff` returns. -/
  | applyTar (c : Nat) (applied : Option (String × Int))
  | storeLayer (c : Nat) (ok : Bool)
  | commit (c : Nat) (ok : Bool)
  | cleanUp (c : Nat) (ok : Bool)
  | commitGraphID (c : Nat) (ok : Bool)
  | releaseParent (c : Nat) (fates : List DeleteFate)
  | getParent (c : Nat)
  | initMount (c : Nat) (fate : InitFate)
  | createReadWrite (c : Nat) (ok : Bool)
  | existsInit (c : Nat) (ok : Bool)
  /-- With a number: so many calls of the metadata store succeed, and the next one fails. -/
  | saveMount (c : Nat) (fails : Option Nat)
  | releaseMountParent (c : Nat) (fates : List DeleteFate)
  deriving DecidableEq

/-- The next thing to do for a mount whose parent is known. -/
def afterParent (m : MountedLayer) : MountKind → Pc
  | .new true => .initializingMount m
  | .new false => .creatingReadWrite m
  | .byGraphID => .checkingInit m

def initID (mountID : String) : String := mountID ++ "-init"

def newLayer (parent : Option Nat) (cacheID : String) (descriptor : Descriptor) : LayerData :=
  { parent, cacheID, descriptor }

def newGraphLayer (fromBytes : String → String) (parent : Option Nat) (parentID : ChainID)
    (graphID : String) (diffID : DiffID) (size : Int) : LayerData :=
  { parent, cacheID := graphID, diffID, size
    chainID := createChainIDFromParent fromBytes parentID [diffID] }

/-- The new `mountedLayer` of `CreateRWLayer` and `CreateRWLayerByGraphID`. -/
def newMount (name mountID : String) : MountedLayer := { name, mountID }

/-- The result of a call whose deferred `releaseLayer` returned `released`. -/
def Result.orPanic (result : Result) : Result → Result
  | .panic p => .panic p
  | _ => result

namespace State

/-- A generated id: well formed and never seen before. -/
def fresh (s : State) (id : String) : Bool := isRandomID id && decide (id ∉ s.graphIDs)

/-- `CreateRWLayerByGraphID` for a name that is taken. -/
def compareMount (s : State) (m : MountedLayer) (graphID : String) (parent : ChainID) : Result :=
  match m.parent with
  | none => .panic .nilParent
  | some p =>
    if (s.layers p).chainID ≠ parent then .err .mismatchedParent
    else if m.mountID ≠ graphID then .err .mountAlreadyExists
    else .nil

def removeMountLayers (s : State) (m : MountedLayer) : State :=
  if m.initID = "" then s.driverSet m.mountID false
  else (s.driverSet m.mountID false).driverSet m.initID false

theorem removeMountLayers_eq (s : State) (m : MountedLayer) :
    ∃ driver, s.removeMountLayers m = { s with driver } := by
  unfold removeMountLayers
  split <;> exact ⟨_, rfl⟩

/-! ## Operations on layers -/

section
variable (s : State)

/-- `registerWithDescriptor`, up to the first call of the driver. -/
def register (parent : ChainID) (descriptor : Descriptor) (cacheID : String) : Option State :=
  let c := s.nextCall
  if s.fresh cacheID then
    if parent = "" then
      some ((s.newCall.useID cacheID).setPc c (.creating (newLayer none cacheID descriptor)))
    else
      match s.layerMap parent with
      | none => some (s.newCall.setPc c (.returned (.err .layerDoesNotExist)))
      | some p =>
        if maxLayerDepth ≤ s.depth p then
          some ((s.newCall.retain p).setPc c (.releasingParent (some p) (.err .maxDepthExceeded)))
        else
          some (((s.newCall.useID cacheID).retain p).setPc c
            (.creating (newLayer (some p) cacheID descriptor)))
  else none

def driverCreate (c : Nat) (ok : Bool) : Option State :=
  match s.pc c with
  | some (.creating l) =>
    if ok then some ((s.driverSet l.cacheID true).setPc c (.startingTransaction l))
    else some (s.setPc c (.releasingParent l.parent (.err .io)))
  | _ => none

def startTransaction (c : Nat) (ok : Bool) : Option State :=
  match s.pc c with
  | some (.startingTransaction l) =>
    if ok then some (s.setPc c (.applyingTar l))
    -- The deferred clean-up is not in place yet: the graph layer stays.
    else some (s.setPc c (.releasingParent l.parent (.err .io)))
  | _ => none

/-- The layer after `applyTar` has read `tar`, with its chain id. -/
def identify (fromBytes : String → String) (l : LayerData) (tar : String) (size : Int) :
    LayerData :=
  { l with
    size
    diffID := fromBytes tar
    chainID :=
      match l.parent with
      | none => fromBytes tar
      | some p => createChainIDFromParent fromBytes (s.layers p).chainID [fromBytes tar] }

def applyTar (fromBytes : String → String) (c : Nat) (applied : Option (String × Int)) :
    Option State :=
  match s.pc c with
  | some (.applyingTar l) =>
    match applied with
    | some (tar, size) => some (s.setPc c (.storingLayer (s.identify fromBytes l tar size)))
    | none => some (s.setPc c (.cleaningUp l (.err .io)))
  | _ => none

def storeTransaction (c : Nat) (ok : Bool) : Option State :=
  match s.pc c with
  | some (.storingLayer l) =>
    if ok then some (s.setPc c (.committing l (s.storeLayer l)))
    else some (s.setPc c (.cleaningUp l (.err .io)))
  | _ => none

def commit (c : Nat) (ok : Bool) : Option State :=
  match s.pc c with
  | some (.committing l tx) =>
    match s.layerMap l.chainID with
    | some i =>
      -- Set error for cleanup, but do not return the error
      some (((s.retain i).getReference i).setPc c (.cleaningUp l (.layer (s.newHandle i))))
    | none =>
      match if ok then s.store.commit tx l.chainID else none with
      | none => some (s.setPc c (.cleaningUp l (.err .io)))
      | some st =>
        some (((s.setStore st).insertLayer l).setPc c
          (.returned (.layer (s.newHandle s.nextLayer))))
  | _ => none

/-- The deferred `driver.Remove` and `tx.Cancel`, whose errors are only logged. -/
def cleanUp (c : Nat) (ok : Bool) : Option State :=
  match s.pc c with
  | some (.cleaningUp l r) =>
    if ok then some ((s.driverSet l.cacheID false).setPc c (.releasingParent l.parent r))
    else some (s.setPc c (.releasingParent l.parent r))
  | _ => none

/-- The deferred `releaseLayer(p)`, and the end of the call. -/
def releaseParent (c : Nat) (fates : List DeleteFate) : Option State :=
  match s.pc c with
  | some (.releasingParent none r) => some (s.ret c r)
  | some (.releasingParent (some p) r) =>
    let x := releaseLayer fates (s.setPc c (.returned r)) p
    some (x.1.ret c (r.orPanic x.2))
  | _ => none

/-- `RegisterByGraphID`, up to its last section. -/
def registerByGraphID (fromBytes : String → String) (graphID : String) (parent : ChainID)
    (diffID : DiffID) (size : Int) : Option State :=
  let c := s.nextCall
  let l (p : Option Nat) := newGraphLayer fromBytes p parent graphID diffID size
  if parent = "" then some ((s.newCall.useID graphID).setPc c (.registeringGraphID (l none)))
  else
    match s.layerMap parent with
    | none => some (s.newCall.setPc c (.returned (.err .layerDoesNotExist)))
    | some p =>
      some (((s.newCall.useID graphID).retain p).setPc c (.registeringGraphID (l (some p))))

/-- The last section of `RegisterByGraphID`, with the whole transaction. -/
def commitGraphID (c : Nat) (ok : Bool) : Option State :=
  match s.pc c with
  | some (.registeringGraphID l) =>
    match s.layerMap l.chainID with
    | some i =>
      -- Set error for cleanup, but do not return
      some (((s.retain i).getReference i).setPc c
        (.releasingParent l.parent (.layer (s.newHandle i))))
    | none =>
      match if ok then s.store.commit (s.storeLayer l) l.chainID else none with
      | none => some (s.setPc c (.releasingParent l.parent (.err .io)))
      | some st =>
        some (((s.setStore st).insertLayer l).setPc c
          (.returned (.layer (s.newHandle s.nextLayer))))
  | _ => none

def get (layer : ChainID) : Option State :=
  let c := s.nextCall
  match s.layerMap layer with
  | none => some (s.newCall.setPc c (.returned (.err .layerDoesNotExist)))
  | some i =>
    some (((s.newCall.retain i).getReference i).setPc c (.returned (.layer (s.newHandle i))))

def release (l : Handle) (fates : List DeleteFate) : Option State :=
  let c := s.nextCall
  match s.layerMap (s.layers l.roLayer).chainID with
  | none => some (s.newCall.setPc c (.returned (.metadata [])))
  | some i =>
    if l ∈ (s.layers i).references then
      let r := releaseLayer fates (s.newCall.deleteReference i l) i
      some (r.1.setPc c (.returned r.2))
    else some (s.newCall.setPc c (.returned (.err .layerNotRetained)))

/-! ## Operations on mounts

They hold `mountL` from their first section to their end. -/

/-- `CreateRWLayer`, up to `get(parent)`. -/
def createRWLayer (name : String) (parent : ChainID) (init : Bool) (mountID : String) :
    Option State :=
  let c := s.nextCall
  let m := newMount name mountID
  if s.mountL = none ∧ s.fresh mountID = true then
    match s.mounts name with
    | some _ => some (s.newCall.setPc c (.returned (.err .mountNameConflict)))
    | none =>
      let s' := (s.newCall.useID mountID).lockMounts c
      if parent = "" then some (s'.setPc c (afterParent m (.new init)))
      else some (s'.setPc c (.gettingParent m parent (.new init)))
  else none

/-- `CreateRWLayerByGraphID`, up to `get(parent)`. -/
def createRWLayerByGraphID (name graphID : String) (parent : ChainID) (ok : Bool) : Option State :=
  let c := s.nextCall
  let m := newMount name graphID
  if s.mountL = none then
    match s.mounts name with
    | some i =>
      some (s.newCall.setPc c (.returned (s.compareMount (s.mountedLayers i) graphID parent)))
    | none =>
      if ok = true ∧ s.driver graphID = true then
        let s' := (s.newCall.useID graphID).lockMounts c
        if parent = "" then some (s'.setPc c (afterParent m .byGraphID))
        else some (s'.setPc c (.gettingParent m parent .byGraphID))
      else some (s.newCall.setPc c (.returned (.err (.graphIDDoesNotExist graphID))))
  else none

def getParent (c : Nat) : Option State :=
  match s.pc c with
  | some (.gettingParent m parent kind) =>
    match s.layerMap parent with
    | none => some (s.ret c (.err .layerDoesNotExist))
    | some p => some ((s.retain p).setPc c (afterParent { m with parent := some p } kind))
  | _ => none

def initMount (c : Nat) (fate : InitFate) : Option State :=
  match s.pc c with
  | some (.initializingMount m) =>
    let failed := Pc.releasingParent m.parent (.err .io)
    match fate with
    | .createFails => some (s.setPc c failed)
    | .initFails => some ((s.driverSet (initID m.mountID) true).setPc c failed)
    | .ok =>
      some ((s.driverSet (initID m.mountID) true).setPc c
        (.creatingReadWrite { m with initID := initID m.mountID }))
  | _ => none

def createReadWrite (c : Nat) (ok : Bool) : Option State :=
  match s.pc c with
  | some (.creatingReadWrite m) =>
    if ok then some ((s.driverSet m.mountID true).setPc c (.savingMount m (.new false)))
    else some (s.setPc c (.releasingParent m.parent (.err .io)))
  | _ => none

def existsInit (c : Nat) (ok : Bool) : Option State :=
  match s.pc c with
  | some (.checkingInit m) =>
    if ok = true ∧ s.driver (initID m.mountID) = true then
      some (s.setPc c (.savingMount { m with initID := initID m.mountID } .byGraphID))
    else some (s.setPc c (.savingMount m .byGraphID))
  | _ => none

/-- `saveMount` and the end of the call; if a call of the metadata store fails, those before it
have taken place. -/
def finishMount (c : Nat) (fails : Option Nat) : Option State :=
  match s.pc c with
  | some (.savingMount m kind) =>
    match fails with
    | some k =>
      if k < (s.saveMount m).length then
        some ((s.setStore (((s.saveMount m).take k).foldl (fun st w => w st) s.store)).setPc c
          (.releasingParent m.parent (.err .io)))
      else none
    | none =>
      let s' := (s.setStore ((s.saveMount m).foldl (fun st w => w st) s.store)).insertMount m
      match kind with
      | .byGraphID => some (s'.ret c .nil)
      | .new _ => some ((s'.getRWReference s.nextMount).ret c (.rwLayer s.nextMount s.nextRef))
  | _ => none

def getRWLayer (name : String) : Option State :=
  let c := s.nextCall
  if s.mountL = none then
    match s.mounts name with
    | none => some (s.newCall.setPc c (.returned (.err .mountDoesNotExist)))
    | some m => some ((s.newCall.getRWReference m).setPc c (.returned (.rwLayer m s.nextRef)))
  else none

/-- `ReleaseRWLayer`, up to `releaseLayer(m.parent)`. -/
def releaseRWLayer (name : String) (ref : Nat) (fate : UnmountFate) : Option State :=
  let c := s.nextCall
  if s.mountL = none then
    match s.mounts name with
    | none => some (s.newCall.setPc c (.returned (.metadata [])))
    | some i =>
      let m := s.mountedLayers i
      if ref ∉ m.references then some (s.newCall.setPc c (.returned (.err .layerNotRetained)))
      else if m.references.erase ref ≠ [] then
        some ((s.newCall.deleteRWReference i ref).setPc c (.returned (.metadata [])))
      else
        -- On failure `retakeReference` puts the reference back.
        match fate with
        | .driverFails => some (s.newCall.setPc c (.returned (.err .io)))
        | .initFails =>
          if m.initID = "" then none
          else some ((s.newCall.driverSet m.mountID false).setPc c (.returned (.err .io)))
        | .storeFails => some ((s.newCall.removeMountLayers m).setPc c (.returned (.err .io)))
        | .ok =>
          let s' := (s.newCall.removeMountLayers m).setStore (s.store.removeMount name)
          some (((s'.deleteMount name).lockMounts c).setPc c (.releasingMountParent m.parent))
  else none

def releaseMountParent (c : Nat) (fates : List DeleteFate) : Option State :=
  match s.pc c with
  | some (.releasingMountParent none) => some (s.ret c (.metadata []))
  | some (.releasingMountParent (some p)) =>
    let x := releaseLayer fates (s.setPc c (.returned .nil)) p
    some (x.1.ret c x.2)
  | _ => none

end

end State

def step (fromBytes : String → String) : Label → State → Option State
  | .register parent descriptor cacheID, s => s.register parent descriptor cacheID
  | .registerByGraphID graphID parent diffID size, s =>
    s.registerByGraphID fromBytes graphID parent diffID size
  | .get layer, s => s.get layer
  | .release l fates, s => s.release l fates
  | .createRWLayer name parent init mountID, s => s.createRWLayer name parent init mountID
  | .createRWLayerByGraphID name graphID parent ok, s =>
    s.createRWLayerByGraphID name graphID parent ok
  | .getRWLayer name, s => s.getRWLayer name
  | .releaseRWLayer name ref fate, s => s.releaseRWLayer name ref fate
  | .driverCreate c ok, s => s.driverCreate c ok
  | .startTransaction c ok, s => s.startTransaction c ok
  | .applyTar c applied, s => s.applyTar fromBytes c applied
  | .storeLayer c ok, s => s.storeTransaction c ok
  | .commit c ok, s => s.commit c ok
  | .cleanUp c ok, s => s.cleanUp c ok
  | .commitGraphID c ok, s => s.commitGraphID c ok
  | .releaseParent c fates, s => s.releaseParent c fates
  | .getParent c, s => s.getParent c
  | .initMount c fate, s => s.initMount c fate
  | .createReadWrite c ok, s => s.createReadWrite c ok
  | .existsInit c ok, s => s.existsInit c ok
  | .saveMount c fails, s => s.finishMount c fails
  | .releaseMountParent c fates, s => s.releaseMountParent c fates

end Docker.Layer
