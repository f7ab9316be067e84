import Docker.Devmapper.Basic

/-!
# The operations of the device set

The functions of `deviceset.go` as programs over the calls of `Docker.Devmapper.Basic`. Each takes
the device set and returns it as it has left it, also when it fails. Operations on metadata files do
not fail.
-/

namespace Docker.Devmapper

open Filepath

abbrev P := Prog Call Answer

inductive Error
  /-- Unable to find a free device ID -/
  | noFreeDeviceID
  /-- An error of the device mapper, in the creation or deletion of a device. -/
  | devicemapper (r : DmResult)
  /-- Error setting devmapper transaction ID -/
  | setTransactionID
  /-- Unknown device -/
  | unknownDevice (hash : Hash)
  /-- Base device has been marked for deferred deletion -/
  | baseDeleted (hash : Hash)
  /-- device already exists -/
  | deviceExists (hash : Hash) (deleted : Bool)
  /-- Storage options that cannot be parsed. -/
  | storageOpt
  /-- Container size cannot be smaller than the size of the base device -/
  | containerTooSmall (size : Nat)
  /-- Base device size cannot be smaller than it is -/
  | baseTooSmall (size : Nat)
  | poolStatus
  /-- Thin Pool has less than the minimum of free data blocks -/
  | dataBlocks
  /-- Thin Pool has less than the minimum of free metadata blocks -/
  | metadataBlocks
  /-- Unable to take ownership of thin-pool that already has used data blocks -/
  | usedPool
  /-- Unable to take ownership of thin-pool with non-zero transaction ID -/
  | usedTransactionID
  /-- Can't activate deleted device -/
  | activateDeleted
  | deviceOp (op : DeviceOp)
  /-- Unsupported filesystem type -/
  | filesystem (fs : Str)
  /-- Failed to find uuid for device -/
  | uuid
  /-- Current Base Device UUID does not match with stored UUID -/
  | uuidMismatch
  | probeFsType
deriving DecidableEq

abbrev Result (α : Type) := Except Error α × DeviceSet

section Calls

def readFile (path : Str) : P (Option MetaFile) := Prog.request (Call.readFile path)
def walkFiles : P (List Str) := Prog.request Call.walk
def writeFile (path : Str) (content : MetaFile) : P Unit :=
  Prog.request (Call.writeFile path content)
def removeFile (path : Str) : P Unit := Prog.request (Call.removeFile path)

def Pool.createDevice (deviceID : Nat) (base : Option Nat) : P DmResult :=
  Prog.request (Call.createDevice deviceID base)
def Pool.deleteDevice (deviceID : Nat) : P DmResult := Prog.request (Call.deleteDevice deviceID)
def Pool.setTransactionID (oldID newID : Nat) : P DmResult :=
  Prog.request (Call.setTransactionID oldID newID)
def Pool.status : P (Option PoolStatus) := Prog.request Call.poolStatus

def onDevice (op : DeviceOp) (hash : Hash) : P Bool := Prog.request (Call.deviceOp op hash)
def getDeviceUUID (hash : Hash) : P (Option Str) := Prog.request (Call.getDeviceUUID hash)
def probeFsType (hash : Hash) : P (Option Str) := Prog.request (Call.probeFsType hash)
def determineDefaultFS : P Str := Prog.request Call.determineDefaultFS

end Calls

section Files
variable (cfg : Config)

def saveMetadata (info : DevInfo) : P Unit :=
  writeFile (cfg.metadataFile info.hash) (.device info.toDevMeta)

def removeMetadata (hash : Hash) : P Unit := removeFile (cfg.metadataFile hash)

def saveTransactionMetaData (ds : DeviceSet) : P Unit :=
  writeFile cfg.transactionMetaFile (.transaction ds.transaction)

def saveDeviceSetMetaData (ds : DeviceSet) : P Unit :=
  writeFile cfg.deviceSetMetaFile (.deviceSet ⟨ds.nextDeviceID, ds.baseDeviceUUID,
    ds.baseDeviceFilesystem⟩)

def loadMetadata (hash : Hash) : P (Option DevInfo) := do
  let content ← readFile (cfg.metadataFile hash)
  match content.bind MetaFile.toDevMeta with
  | none => return none
  | some m => if m.deviceID > maxDeviceID then return none else return some { m with hash }

def lookupDevice (ds : DeviceSet) (hash : Hash) : P (Option DevInfo × DeviceSet) := do
  match ds.devices.lookup hash with
  | some info => return (some info, ds)
  | none =>
    match ← loadMetadata cfg hash with
    | none => return (none, ds)
    | some info => return (some info, { ds with devices := ds.devices.insert hash info })

/-- Save a device whose fields have changed. -/
def updateDevice (ds : DeviceSet) (info : DevInfo) : P DeviceSet := do
  saveMetadata cfg info
  return { ds with devices := ds.devices.insert info.hash info }

def registerDevice (ds : DeviceSet) (id : Nat) (hash : Hash) (size transactionID : Nat) :
    P (DevInfo × DeviceSet) :=
  do
  let info : DevInfo := { deviceID := id, size, transactionID, initialized := false, hash }
  let ds ← updateDevice cfg ds info
  return (info, ds)

def unregisterDevice (ds : DeviceSet) (hash : Hash) : P DeviceSet := do
  removeMetadata cfg hash
  return { ds with devices := ds.devices.erase hash }

end Files

/-! ## Transactions -/

section Transactions
variable (cfg : Config)

def openTransaction (ds : DeviceSet) (hash : Hash) (deviceID : Nat) : P DeviceSet := do
  let ds := { ds with transaction := ⟨ds.transactionID + 1, hash, deviceID⟩ }
  saveTransactionMetaData cfg ds
  return ds

def refreshTransaction (ds : DeviceSet) (deviceID : Nat) : P DeviceSet := do
  let ds := { ds with transaction := { ds.transaction with deviceID } }
  saveTransactionMetaData cfg ds
  return ds

/-- Whether the pool took the transaction id. -/
def closeTransaction (ds : DeviceSet) : P (Bool × DeviceSet) := do
  match ← Pool.setTransactionID ds.transactionID ds.transaction.openTransactionID with
  | .ok => return (true, { ds with transactionID := ds.transaction.openTransactionID })
  | _ => return (false, ds)

end Transactions

/-! ## Creation -/

section Create
variable (cfg : Config)

def poolHasFreeSpace : P (Option Error) := do
  if cfg.minFreeSpacePercent = 0 then return none
  match ← Pool.status with
  | none => return some .poolStatus
  | some st =>
    let minFreeData := max (st.dataTotal * cfg.minFreeSpacePercent.toUInt64 / 100) 1
    if st.dataTotal - st.dataUsed < minFreeData then return some .dataBlocks
    let minFreeMetadata := max (st.metadataTotal * cfg.minFreeSpacePercent.toUInt64 / 100) 1
    if st.metadataTotal - st.metadataUsed < minFreeMetadata then return some .metadataBlocks
    return none

/-- The loop around `CreateDevice` and `CreateSnapDevice`, and the id of the new device. A turn that
goes on uses up a free id, so `turns` is at most the number of ids. -/
def createInPool (base : Option Nat) : (turns : Nat) → DeviceSet → (deviceID : Nat) → P (Result Nat)
  | 0, ds, _ => return (.error .noFreeDeviceID, ds)
  | turns + 1, ds, deviceID => do
    match ← Pool.createDevice deviceID base with
    | .ok => return (.ok deviceID, ds)
    | .deviceIDExists =>
      match ds.getNextFreeDeviceID with
      | (none, ds) => return (.error .noFreeDeviceID, ds)
      | (some deviceID, ds) =>
        let ds ← refreshTransaction cfg ds deviceID
        createInPool base turns ds deviceID
    | r => return (.error (.devicemapper r), ds.markDeviceIDFree deviceID)

/-- What `createRegisterDevice` and `createRegisterSnapDevice` have in common. -/
def createRegister (ds : DeviceSet) (hash : Hash) (base : Option Nat) (size : Nat) :
    P (Result DevInfo) :=
  do
  match ds.getNextFreeDeviceID with
  | (none, ds) => return (.error .noFreeDeviceID, ds)
  | (some deviceID, ds) =>
    let ds ← openTransaction cfg ds hash deviceID
    match ← createInPool cfg base (maxDeviceID + 1) ds deviceID with
    | (.error e, ds) => return (.error e, ds)
    | (.ok deviceID, ds) =>
      let (info, ds) ← registerDevice cfg ds deviceID hash size ds.transaction.openTransactionID
      match ← closeTransaction ds with
      | (true, ds) => return (.ok info, ds)
      | (false, ds) =>
        let ds ← unregisterDevice cfg ds hash
        let _ ← Pool.deleteDevice deviceID
        return (.error .setTransactionID, ds.markDeviceIDFree deviceID)

def createRegisterDevice (ds : DeviceSet) (hash : Hash) : P (Result DevInfo) :=
  createRegister cfg ds hash none cfg.baseFsSize

def createRegisterSnapDevice (ds : DeviceSet) (hash : Hash) (baseInfo : DevInfo) (size : Nat) :
    P (Result DevInfo) :=
  do
  match ← poolHasFreeSpace cfg with
  | some e => return (.error e, ds)
  | none => createRegister cfg ds hash (some baseInfo.deviceID) size

end Create

/-! ## File systems -/

section Filesystems
variable (cfg : Config)

def activateDeviceIfNeeded (info : DevInfo) (ignoreDeleted : Bool) : P (Option Error) := do
  if info.deleted && !ignoreDeleted then return some .activateDeleted
  if ← onDevice .activate info.hash then return none else return some (.deviceOp .activate)

def growFS (ds : DeviceSet) (info : DevInfo) : P (Option Error) := do
  match ← activateDeviceIfNeeded info false with
  | some e => return some e
  | none =>
    let e ← do
      if ← onDevice .mount info.hash then
        if ds.baseDeviceFilesystem = "ext4".toList ∨ ds.baseDeviceFilesystem = "xfs".toList then
          if ← onDevice .resize info.hash then pure none else pure (some (.deviceOp .resize))
        else pure (some (.filesystem ds.baseDeviceFilesystem))
      else pure (some (.deviceOp .mount))
    -- the deferred deactivateDevice, whose error is dropped
    let _ ← onDevice .deactivate info.hash
    return e

def saveBaseDeviceFilesystem (ds : DeviceSet) (fs : Str) : P DeviceSet := do
  let ds := { ds with baseDeviceFilesystem := fs }
  saveDeviceSetMetaData cfg ds
  return ds

def createFilesystem (ds : DeviceSet) (info : DevInfo) : P (Result Unit) := do
  let fs ← if ds.filesystem = [] then determineDefaultFS else pure ds.filesystem
  let ds ← saveBaseDeviceFilesystem cfg { ds with filesystem := fs } fs
  if fs = "xfs".toList ∨ fs = "ext4".toList then
    if ← onDevice .mkfs info.hash then return (.ok (), ds)
    else return (.error (.deviceOp .mkfs), ds)
  else return (.error (.filesystem fs), ds)

def saveBaseDeviceUUID (ds : DeviceSet) (info : DevInfo) : P (Result Unit) := do
  match ← activateDeviceIfNeeded info false with
  | some e => return (.error e, ds)
  | none =>
    let uuid ← getDeviceUUID info.hash
    let res ← match uuid with
      | none => pure (.error .uuid, ds)
      | some uuid => do
        let ds := { ds with baseDeviceUUID := uuid }
        saveDeviceSetMetaData cfg ds
        pure (.ok (), ds)
    let _ ← onDevice .deactivate info.hash
    return res

def verifyBaseDeviceUUIDFS (ds : DeviceSet) (info : DevInfo) : P (Result Unit) := do
  match ← activateDeviceIfNeeded info false with
  | some e => return (.error e, ds)
  | none =>
    let uuid ← getDeviceUUID info.hash
    let res ← match uuid with
      | none => pure (.error .uuid, ds)
      | some uuid =>
        if ds.baseDeviceUUID ≠ uuid then pure (.error .uuidMismatch, ds)
        else if ds.baseDeviceFilesystem = [] then do
          match ← probeFsType info.hash with
          | none => pure (.error .probeFsType, ds)
          | some fs =>
            let ds ← saveBaseDeviceFilesystem cfg ds fs
            pure (.ok (), { ds with filesystem := ds.baseDeviceFilesystem })
        else pure (.ok (), { ds with filesystem := ds.baseDeviceFilesystem })
    let _ ← onDevice .deactivate info.hash
    return res

def setupVerifyBaseImageUUIDFS (ds : DeviceSet) (info : DevInfo) : P (Result Unit) :=
  if ds.baseDeviceUUID = [] then saveBaseDeviceUUID cfg ds info
  else verifyBaseDeviceUUIDFS cfg ds info

/-- `getBaseDeviceSize` is the size of the same device. -/
def checkGrowBaseDeviceFS (ds : DeviceSet) (info : DevInfo) : P (Result Unit) := do
  if !cfg.userBaseSize then return (.ok (), ds)
  else if cfg.baseFsSize < info.size then return (.error (.baseTooSmall info.size), ds)
  else if cfg.baseFsSize = info.size then return (.ok (), ds)
  else
    let info := { info with size := cfg.baseFsSize }
    let ds ← updateDevice cfg ds info
    match ← growFS ds info with
    | some e => return (.error e, ds)
    | none => return (.ok (), ds)

end Filesystems

/-! ## Deletion -/

section Delete
variable (cfg : Config)

def markForDeferredDeletion (ds : DeviceSet) (info : DevInfo) : P DeviceSet := do
  if info.deleted then return ds
  let ds ← updateDevice cfg ds { info with deleted := true }
  return { ds with nrDeletedDevices := ds.nrDeletedDevices + 1 }

def deleteTransaction (ds : DeviceSet) (info : DevInfo) (syncDelete : Bool) : P (Result Unit) := do
  let ds ← openTransaction cfg ds info.hash info.deviceID
  let (res, ds) ← do
    match ← Pool.deleteDevice info.deviceID with
    | .ok =>
      let ds ← unregisterDevice cfg ds info.hash
      let ds := if info.deleted then ds.decDeletedDevices else ds
      pure (Except.ok (), ds.markDeviceIDFree info.deviceID)
    | r =>
      if syncDelete || !cfg.deferredDelete || r != .busy then
        pure (Except.error (.devicemapper r), ds)
      else
        let ds ← markForDeferredDeletion cfg ds info
        pure (Except.ok (), ds)
  -- the deferred closeTransaction, whose error is dropped
  let (_, ds) ← closeTransaction ds
  return (res, ds)

def deleteDevice (ds : DeviceSet) (hash : Hash) (syncDelete : Bool) : P (Result Unit) := do
  match ← lookupDevice cfg ds hash with
  | (none, ds) => return (.error (.unknownDevice hash), ds)
  | (some info, ds) =>
    if cfg.doBlkDiscard then
      let _ ← onDevice .discard info.hash
    if ← onDevice .deactivate info.hash then deleteTransaction cfg ds info syncDelete
    else return (.error (.deviceOp .deactivate), ds)

end Delete

/-! ## The operations of the graph driver -/

section Operations
variable (cfg : Config)

/-- The storage options of a container, as `parseStorageOpt` reads them. -/
inductive StorageOpt
  | none
  | size (bytes : Nat)
  /-- An unknown option or a size that cannot be read. -/
  | invalid
deriving DecidableEq

def parseStorageOpt : StorageOpt → Except Error Nat
  | .none => .ok 0
  | .size bytes => .ok bytes
  | .invalid => .error .storageOpt

def addDevice (ds : DeviceSet) (hash baseHash : Hash) (storageOpt : StorageOpt) : P (Result Unit) :=
  do
  match ← lookupDevice cfg ds baseHash with
  | (none, ds) => return (.error (.unknownDevice baseHash), ds)
  | (some baseInfo, ds) =>
    if baseInfo.deleted then return (.error (.baseDeleted baseHash), ds)
    else
      match ← lookupDevice cfg ds hash with
      | (some info, ds) => return (.error (.deviceExists hash info.deleted), ds)
      | (none, ds) =>
        match parseStorageOpt storageOpt with
        | .error e => return (.error e, ds)
        | .ok size =>
          let size := if size = 0 then baseInfo.size else size
          if size < baseInfo.size then return (.error (.containerTooSmall baseInfo.size), ds)
          else
            match ← createRegisterSnapDevice cfg ds hash baseInfo size with
            | (.error e, ds) => return (.error e, ds)
            | (.ok _, ds) =>
              if size > baseInfo.size then
                match ← lookupDevice cfg ds hash with
                | (none, ds) => return (.error (.unknownDevice hash), ds)
                | (some info, ds) =>
                  match ← growFS ds info with
                  | some e => return (.error e, ds)
                  | none => return (.ok (), ds)
              else return (.ok (), ds)

def checkThinPool : P (Option Error) := do
  match ← Pool.status with
  | none => return some .poolStatus
  | some st =>
    if st.dataUsed ≠ 0 then return some .usedPool
    else if st.transactionID ≠ 0 then return some .usedTransactionID
    else return none

def createBaseImage (ds : DeviceSet) : P (Result Unit) := do
  match ← createRegisterDevice cfg ds [] with
  | (.error e, ds) => return (.error e, ds)
  | (.ok info, ds) =>
    match ← activateDeviceIfNeeded info false with
    | some e => return (.error e, ds)
    | none =>
      match ← createFilesystem cfg ds info with
      | (.error e, ds) => return (.error e, ds)
      | (.ok _, ds) =>
        let info := { info with initialized := true }
        let ds ← updateDevice cfg ds info
        saveBaseDeviceUUID cfg ds info

def setupBaseImage (ds : DeviceSet) : P (Result Unit) := do
  match ← lookupDevice cfg ds [] with
  | (some oldInfo, ds) =>
    if oldInfo.initialized && !oldInfo.deleted then
      match ← setupVerifyBaseImageUUIDFS cfg ds oldInfo with
      | (.error e, ds) => return (.error e, ds)
      | (.ok _, ds) => checkGrowBaseDeviceFS cfg ds oldInfo
    else
      match ← deleteDevice cfg ds [] true with
      | (.error e, ds) => return (.error e, ds)
      | (.ok _, ds) => createBaseImage cfg ds
  | (none, ds) =>
    if cfg.thinPoolDevice ≠ [] then
      match ← checkThinPool with
      | some e => return (.error e, ds)
      | none => createBaseImage cfg ds
    else createBaseImage cfg ds

end Operations

/-! ## Starting -/

section Start
variable (cfg : Config)

/-- Whether a file of the metadata directory is passed over when the set is loaded. -/
def skipped (name : Str) : Bool :=
  ".migrated".toList.isSuffixOf name || ['.'].isPrefixOf name || name == deviceSetMetaFile ||
    name == transactionMetaFile

def deviceFileWalkFunction (ds : DeviceSet) (path : Str) : P (Result Unit) := do
  let name := base path
  if skipped name then return (.ok (), ds)
  else
    let hash := if name = baseFile then [] else name
    match ← lookupDevice cfg ds hash with
    | (none, ds) => return (.error (.unknownDevice hash), ds)
    | (some _, ds) => return (.ok (), ds)

def loadFiles : List Str → DeviceSet → P (Result Unit)
  | [], ds => return (.ok (), ds)
  | path :: paths, ds => do
    match ← deviceFileWalkFunction cfg ds path with
    | (.error e, ds) => return (.error e, ds)
    | (.ok _, ds) => loadFiles paths ds

def loadDeviceFilesOnStart (ds : DeviceSet) : P (Result Unit) := do
  let paths ← walkFiles
  loadFiles cfg paths ds

def loadTransactionMetaData (ds : DeviceSet) : P DeviceSet := do
  match ← readFile cfg.transactionMetaFile with
  | none =>
    return { ds with transaction := { ds.transaction with openTransactionID := ds.transactionID } }
  | some content => return { ds with transaction := content.intoTransaction ds.transaction }

def rollbackTransaction (ds : DeviceSet) : P DeviceSet := do
  let _ ← Pool.deleteDevice ds.transaction.deviceID
  removeMetadata cfg ds.transaction.deviceIDHash
  let ds := ds.markDeviceIDFree ds.transaction.deviceID
  removeFile cfg.transactionMetaFile
  return ds

def processPendingTransaction (ds : DeviceSet) : P DeviceSet := do
  let ds ← loadTransactionMetaData cfg ds
  if ds.transactionID = ds.transaction.openTransactionID then return ds
  else if ds.transaction.openTransactionID < ds.transactionID then return ds
  else
    let ds ← rollbackTransaction cfg ds
    return { ds with transaction := { ds.transaction with openTransactionID := ds.transactionID } }

def initMetaData (ds : DeviceSet) : P (Result Unit) := do
  match ← Pool.status with
  | none => return (.error .poolStatus, ds)
  | some st =>
    match ← loadDeviceFilesOnStart cfg { ds with transactionID := st.transactionID } with
    | (.error e, ds) => return (.error e, ds)
    | (.ok _, ds) =>
      let ds ← processPendingTransaction cfg ds.constructDeviceIDMap.countDeletedDevices
      return (.ok (), ds)

end Start

end Docker.Devmapper
