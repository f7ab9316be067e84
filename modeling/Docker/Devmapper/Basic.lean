import Docker.Lib.Crash
import Docker.Lib.Filepath

/-!
# The devicemapper device set

`daemon/graphdriver/devmapper/deviceset.go` keeps a thin device for every layer, with an entry in
`devices.Devices`, a metadata file with the same data, and a mark for its id in a bitmap. The disk
is what outlives the daemon: the metadata files, the devices in the pool and the pool's transaction
id.
-/

namespace Docker.Devmapper

open Filepath

abbrev Hash := Str

def maxDeviceID : Nat := 0xffffff

def deviceSetMetaFile : Str := "deviceset-metadata".toList
def transactionMetaFile : Str := "transaction-metadata".toList
/-- The metadata file of the base device, which has the empty hash. -/
def baseFile : Str := "base".toList

structure Transaction where
  openTransactionID : Nat := 0
  deviceIDHash : Hash := []
  deviceID : Nat := 0
deriving DecidableEq

/-- The fields of `devInfo` that are saved. -/
structure DevMeta where
  deviceID : Nat := 0
  size : Nat := 0
  transactionID : Nat := 0
  initialized : Bool := false
  deleted : Bool := false
deriving DecidableEq

structure DevInfo extends DevMeta where
  hash : Hash
deriving DecidableEq

/-- The fields of `DeviceSet` that are saved. -/
structure DeviceSetMeta where
  nextDeviceID : Nat
  baseDeviceUUID : Str
  baseDeviceFilesystem : Str
deriving DecidableEq

inductive MetaFile
  | device (m : DevMeta)
  | transaction (t : Transaction)
  | deviceSet (m : DeviceSetMeta)
  /-- Text that `json.Unmarshal` refuses. -/
  | other
deriving DecidableEq

/-- `json.Unmarshal` into a new `devInfo`. Of the other files only the transaction file has one of
its fields, `device_id`. -/
def MetaFile.toDevMeta : MetaFile → Option DevMeta
  | device m => some m
  | transaction t => some { deviceID := t.deviceID }
  | deviceSet _ => some {}
  | other => none

/-- `json.Unmarshal` into the transaction of the set, which keeps the fields that are not in the
file. -/
def MetaFile.intoTransaction (t : Transaction) : MetaFile → Transaction
  | device m => { t with deviceID := m.deviceID }
  | transaction t' => t'
  | deviceSet _ => t
  | other => t

/-! ## The bitmap of device ids -/

abbrev DeviceIDMap := Nat → BitVec 8

def DeviceIDMap.setByte (map : DeviceIDMap) (i : Nat) (b : BitVec 8) : DeviceIDMap :=
  fun j => if j = i then b else map j

def markDeviceIDUsed (map : DeviceIDMap) (deviceID : Nat) : DeviceIDMap :=
  map.setByte (deviceID / 8) (map (deviceID / 8) ||| 1#8 <<< (deviceID % 8))

def markDeviceIDFree (map : DeviceIDMap) (deviceID : Nat) : DeviceIDMap :=
  map.setByte (deviceID / 8) (map (deviceID / 8) &&& ~~~(1#8 <<< (deviceID % 8)))

def isDeviceIDFree (map : DeviceIDMap) (deviceID : Nat) : Bool :=
  map (deviceID / 8) &&& 1#8 <<< (deviceID % 8) == 0#8

def incNextDeviceID (next : Nat) : Nat := (next + 1) &&& maxDeviceID

/-- The loop of `getNextFreeDeviceID`, for `n` more turns: the id it finds and the last id it
tried. -/
def findFreeDeviceID (map : DeviceIDMap) : (n next : Nat) → Option Nat × Nat
  | 0, next => (none, next)
  | n + 1, next =>
    if isDeviceIDFree map next then (some next, next) else findFreeDeviceID map n
      (incNextDeviceID next)

section Bitmap
variable {map : DeviceIDMap} {i j : Nat}

theorem isDeviceIDFree_eq : isDeviceIDFree map i = !(map (i / 8)).getLsbD (i % 8) := by
  have hi : i % 8 < 8 := Nat.mod_lt _ (by decide)
  unfold isDeviceIDFree
  rw [← BitVec.twoPow_eq, BitVec.and_twoPow]
  cases (map (i / 8)).getLsbD (i % 8) with
  | false => simp
  | true =>
    have : BitVec.twoPow 8 (i % 8) ≠ 0#8 := fun h => by
      simpa [BitVec.getLsbD_twoPow, hi] using congrArg (fun b => b.getLsbD (i % 8)) h
    simpa using this

theorem eq_of_div_mod (hd : i / 8 = j / 8) (hm : i % 8 = j % 8) : i = j := by omega

/-- `markDeviceIDUsed` changes the bit that `isDeviceIDFree` tests, and no other. -/
@[simp] theorem isDeviceIDFree_markDeviceIDUsed :
    isDeviceIDFree (markDeviceIDUsed map i) j = (isDeviceIDFree map j && i != j) := by
  have hi : i % 8 < 8 := Nat.mod_lt _ (by decide)
  have hj : j % 8 < 8 := Nat.mod_lt _ (by decide)
  rw [isDeviceIDFree_eq, isDeviceIDFree_eq, markDeviceIDUsed, DeviceIDMap.setByte]
  by_cases hd : j / 8 = i / 8
  · rw [if_pos hd, ← BitVec.twoPow_eq, BitVec.getLsbD_or, BitVec.getLsbD_twoPow, hd]
    have : i = j ↔ i % 8 = j % 8 := ⟨fun h => h ▸ rfl, eq_of_div_mod hd.symm⟩
    simp [hi, hj, this, Bool.not_or, bne, beq_eq_decide]
  · have hne : i ≠ j := fun h => hd (h ▸ rfl)
    simp [if_neg hd, hne]

@[simp] theorem isDeviceIDFree_markDeviceIDFree :
    isDeviceIDFree (markDeviceIDFree map i) j = (isDeviceIDFree map j || i == j) := by
  have hi : i % 8 < 8 := Nat.mod_lt _ (by decide)
  have hj : j % 8 < 8 := Nat.mod_lt _ (by decide)
  rw [isDeviceIDFree_eq, isDeviceIDFree_eq, markDeviceIDFree, DeviceIDMap.setByte]
  by_cases hd : j / 8 = i / 8
  · rw [if_pos hd, ← BitVec.twoPow_eq, BitVec.getLsbD_and, BitVec.getLsbD_not,
      BitVec.getLsbD_twoPow, hd]
    have : i = j ↔ i % 8 = j % 8 := ⟨fun h => h ▸ rfl, eq_of_div_mod hd.symm⟩
    simp [hi, hj, this, Bool.not_and, beq_eq_decide]
  · have hne : i ≠ j := fun h => hd (h ▸ rfl)
    simp [if_neg hd, hne]

theorem incNextDeviceID_le (next : Nat) : incNextDeviceID next ≤ maxDeviceID := Nat.and_le_right

theorem free_of_findFreeDeviceID {n next id last : Nat} (hn : next ≤ maxDeviceID)
    (h : findFreeDeviceID map n next = (some id, last)) :
    isDeviceIDFree map id = true ∧ id ≤ maxDeviceID ∧ last = id := by
  induction n generalizing next with
  | zero => cases h
  | succ n ih =>
    unfold findFreeDeviceID at h
    split at h
    · next hfree =>
      cases h
      exact ⟨hfree, hn, rfl⟩
    · exact ih (incNextDeviceID_le next) h

/-- A search that finds nothing has gone over as many ids as it had turns. -/
theorem used_of_findFreeDeviceID {n next : Nat} (hn : next ≤ maxDeviceID)
    (h : (findFreeDeviceID map n next).1 = none) :
    ∀ k < n, isDeviceIDFree map ((next + k) % (maxDeviceID + 1)) = false := by
  induction n generalizing next with
  | zero => nofun
  | succ n ih =>
    unfold findFreeDeviceID at h
    split at h
    · cases h
    · next hused =>
      intro k hk
      cases k with
      | zero => rwa [Nat.add_zero, Nat.mod_eq_of_lt (Nat.lt_succ_of_le hn), ← Bool.not_eq_true]
      | succ k =>
        have hinc : incNextDeviceID next = (next + 1) % (maxDeviceID + 1) :=
          Nat.and_two_pow_sub_one_eq_mod _ 24
        have hk' := ih (incNextDeviceID_le next) h k (by omega)
        rwa [hinc, Nat.mod_add_mod, Nat.add_right_comm] at hk'

end Bitmap

/-! ## The device set -/

structure DeviceSet where
  devices : AList fun _ : Hash => DevInfo := ∅
  /-- A `uint64` that starts at zero and grows by one with every transaction that is closed, so that
  it takes `2 ^ 64` of them to make a difference to a natural number. -/
  transactionID : Nat := 0
  nextDeviceID : Nat := 0
  deviceIDMap : DeviceIDMap := fun _ => 0#8
  transaction : Transaction := {}
  filesystem : Str := []
  baseDeviceUUID : Str := []
  baseDeviceFilesystem : Str := []
  nrDeletedDevices : Nat := 0

/-- The options of the set, and the elements of the driver's root directory. -/
structure Config where
  root : List Str
  root_names : ∀ c ∈ root, IsName c
  deferredDelete : Bool
  doBlkDiscard : Bool
  minFreeSpacePercent : UInt32
  baseFsSize : Nat
  userBaseSize : Bool
  thinPoolDevice : Str

def fileName (hash : Hash) : Str := if hash = [] then baseFile else hash

namespace Config
variable (cfg : Config)

def metadataDir : Str := join (print true cfg.root) "metadata".toList

def metadataFile (hash : Hash) : Str := join cfg.metadataDir (fileName hash)

def transactionMetaFile : Str := join cfg.metadataDir Devmapper.transactionMetaFile

def deviceSetMetaFile : Str := join cfg.metadataDir Devmapper.deviceSetMetaFile

end Config

namespace DeviceSet
variable (ds : DeviceSet)

def markDeviceIDUsed (deviceID : Nat) : DeviceSet :=
  { ds with deviceIDMap := Devmapper.markDeviceIDUsed ds.deviceIDMap deviceID }

def markDeviceIDFree (deviceID : Nat) : DeviceSet :=
  { ds with deviceIDMap := Devmapper.markDeviceIDFree ds.deviceIDMap deviceID }

def getNextFreeDeviceID : Option Nat × DeviceSet :=
  match findFreeDeviceID ds.deviceIDMap (maxDeviceID + 1) (incNextDeviceID ds.nextDeviceID) with
  | (some deviceID, next) =>
    (some deviceID, { ds with nextDeviceID := next }.markDeviceIDUsed deviceID)
  | (none, next) => (none, { ds with nextDeviceID := next })

/-- The search takes a free id and marks no other. It fails only if all ids are used. -/
theorem getNextFreeDeviceID_spec :
    (∀ id ds', ds.getNextFreeDeviceID = (some id, ds') → id ≤ maxDeviceID ∧
      isDeviceIDFree ds.deviceIDMap id = true ∧
      ds'.nextDeviceID = id ∧ ∀ j, isDeviceIDFree ds'.deviceIDMap j =
        (isDeviceIDFree ds.deviceIDMap j && id != j)) ∧
    (∀ ds', ds.getNextFreeDeviceID = (none, ds') → ds'.deviceIDMap = ds.deviceIDMap) ∧
    (ds.getNextFreeDeviceID.1 = none ↔ ∀ id ≤ maxDeviceID,
      isDeviceIDFree ds.deviceIDMap id = false) ∧
    ∀ map i j, isDeviceIDFree (Devmapper.markDeviceIDUsed map i) j =
      (isDeviceIDFree map j && i != j) ∧
      isDeviceIDFree (Devmapper.markDeviceIDFree map i) j = (isDeviceIDFree map j || i == j) := by
  have hle : incNextDeviceID ds.nextDeviceID ≤ maxDeviceID := incNextDeviceID_le _
  refine ⟨fun id ds' h => ?_, fun ds' h => ?_, ?_, fun map i j =>
    ⟨isDeviceIDFree_markDeviceIDUsed, isDeviceIDFree_markDeviceIDFree⟩⟩
  all_goals unfold getNextFreeDeviceID at *
  · split at h <;> cases h
    next next hfind =>
    obtain ⟨hfree, hid, rfl⟩ := free_of_findFreeDeviceID hle hfind
    exact ⟨hid, hfree, rfl, fun j => isDeviceIDFree_markDeviceIDUsed⟩
  · split at h <;> cases h
    rfl
  · split
    · next id next hfind =>
      obtain ⟨hfree, hid, -⟩ := free_of_findFreeDeviceID hle hfind
      simpa using ⟨id, hid, hfree⟩
    · next next hfind =>
      refine iff_of_true rfl fun id hid => ?_
      have hused := used_of_findFreeDeviceID hle (congrArg Prod.fst hfind)
      -- the number of turns from the first id that is tried to this one
      have hk := hused ((id + (maxDeviceID + 1) - incNextDeviceID ds.nextDeviceID) %
        (maxDeviceID + 1))
        (Nat.mod_lt _ (Nat.succ_pos _))
      rwa [Nat.add_mod_mod, Nat.add_sub_cancel' (by omega), Nat.add_mod_right,
        Nat.mod_eq_of_lt (by omega)] at hk

def constructDeviceIDMap : DeviceSet :=
  ds.devices.entries.foldl (fun ds e => ds.markDeviceIDUsed e.2.deviceID) ds

def deletedDevices : Nat := ds.devices.entries.countP fun e => e.2.deleted

def countDeletedDevices : DeviceSet :=
  { ds with nrDeletedDevices := ds.nrDeletedDevices + ds.deletedDevices }

def decDeletedDevices : DeviceSet :=
  { ds with
    nrDeletedDevices := if ds.nrDeletedDevices = 0 then 2 ^ 64 - 1 else ds.nrDeletedDevices - 1 }

end DeviceSet

/-! ## The calls of the set -/

structure PoolStatus where
  transactionID : Nat
  dataUsed : UInt64
  dataTotal : UInt64
  metadataUsed : UInt64
  metadataTotal : UInt64

inductive DmResult
  | ok
  /-- `ErrDeviceIDExists` -/
  | deviceIDExists
  /-- `ErrBusy` -/
  | busy
  /-- Another error, also when the base device cannot be resumed by `CreateSnapDevice`: then the
  device is there and `done` holds. -/
  | failed (done : Bool)
deriving DecidableEq

/-- What is done to a block device, outside of the pool. -/
inductive DeviceOp
  | activate
  | deactivate
  | discard
  | mkfs
  | mount
  | resize
deriving DecidableEq

inductive Call
  | readFile (path : Str)
  /-- The paths of the files below the metadata directory. -/
  | walk
  | writeFile (path : Str) (content : MetaFile)
  | removeFile (path : Str)
  /-- `CreateDevice`, or `CreateSnapDevice` with the id of the base device. -/
  | createDevice (deviceID : Nat) (base : Option Nat)
  | deleteDevice (deviceID : Nat)
  | setTransactionID (oldID newID : Nat)
  | poolStatus
  | deviceOp (op : DeviceOp) (hash : Hash)
  | getDeviceUUID (hash : Hash)
  | probeFsType (hash : Hash)
  | determineDefaultFS

abbrev Answer : Call → Type
  | .readFile _ => Option MetaFile
  | .walk => List Str
  | .writeFile _ _ => Unit
  | .removeFile _ => Unit
  | .createDevice _ _ => DmResult
  | .deleteDevice _ => DmResult
  | .setTransactionID _ _ => DmResult
  | .poolStatus => Option PoolStatus
  | .deviceOp _ _ => Bool
  | .getDeviceUUID _ => Option Str
  | .probeFsType _ => Option Str
  | .determineDefaultFS => Str

structure Disk where
  files : AList fun _ : Str => MetaFile := ∅
  /-- The ids of the devices in the pool. -/
  pool : Finset Nat := ∅
  transactionID : Nat := 0

def Disk.write (disk : Disk) (path : Str) (content : MetaFile) : Disk :=
  { disk with files := disk.files.insert path content }

def Disk.remove (disk : Disk) (path : Str) : Disk := { disk with files := disk.files.erase path }

/-- Files are read as they are and the pool tells its transaction id. Anything else can fail. -/
def answered (cfg : Config) : (c : Call) → Answer c → Disk → Prop
  | .readFile path, content, disk => content = disk.files.lookup path
  | .walk, paths, disk => ∀ p, p ∈ paths ↔ p ∈ disk.files ∧ inside cfg.metadataDir p
  | .poolStatus, status, disk => ∀ st, status = some st → st.transactionID = disk.transactionID
  | _, _, _ => True

def Disk.after : (c : Call) → Answer c → Disk → Disk
  | .writeFile path content, _, disk => disk.write path content
  | .removeFile path, _, disk => disk.remove path
  | .createDevice id _, r, disk =>
    if r = .ok ∨ r = .failed true then { disk with pool := insert id disk.pool } else disk
  | .deleteDevice id, r, disk => if r = .ok then { disk with pool := disk.pool.erase id } else disk
  | .setTransactionID _ newID, r, disk =>
    if r = .ok then { disk with transactionID := newID } else disk
  | _, _, disk => disk

/-- The metadata directory and the thin pool. -/
def env (cfg : Config) : Prog.Env Call Answer Disk where
  ok := answered cfg
  after := Disk.after

end Docker.Devmapper
