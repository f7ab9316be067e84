import Docker.Devmapper.Programs
import Docker.Lib.Count

/-!
# Consistent device sets

A device set and its disk are consistent when the entries of `devices.Devices` are the metadata
files, their ids are distinct and marked in the bitmap, and the counter of deleted devices is right.
`Disk.Ok` is what a crash leaves.

A hash names its metadata file, and other files are in the same directory, so the hashes in use must
not share a file (`Named`).
-/

namespace Docker.Devmapper

open Filepath Disk DeviceSet Config Option AList

/-- The hash has a metadata file of its own. -/
def Named (h : Hash) : Prop :=
  h = [] ∨ IsName h ∧ h ≠ baseFile ∧ h ≠ transactionMetaFile ∧ h ≠ deviceSetMetaFile

theorem isName_baseFile : IsName baseFile := ⟨by decide, by decide, by decide, by decide⟩

theorem isName_transactionMetaFile : IsName transactionMetaFile :=
  ⟨by decide, by decide, by decide, by decide⟩

theorem isName_deviceSetMetaFile : IsName deviceSetMetaFile :=
  ⟨by decide, by decide, by decide, by decide⟩

section Named
theorem Named.isName (hn : Named h) : IsName (fileName h) := by
  unfold fileName
  rcases hn with rfl | ⟨hn, -⟩
  · exact isName_baseFile
  · rwa [if_neg hn.ne_nil]

theorem fileName_of_ne (hn : h ≠ []) : fileName h = h := if_neg hn

theorem Named.fileName_inj (hn : Named h) (hn' : Named h') (he : fileName h = fileName h') :
    h = h' := by
  rcases hn with rfl | ⟨hn, hb, -⟩ <;> rcases hn' with rfl | ⟨hn', hb', -⟩
  · rfl
  · rw [fileName_of_ne hn'.ne_nil] at he
    exact absurd he.symm hb'
  · rw [fileName_of_ne hn.ne_nil] at he
    exact absurd he hb
  · rwa [fileName_of_ne hn.ne_nil, fileName_of_ne hn'.ne_nil] at he

theorem Named.fileName_ne (hn : Named h) :
    fileName h ≠ transactionMetaFile ∧ fileName h ≠ deviceSetMetaFile := by
  rcases hn with rfl | ⟨hn, -, ht, hd⟩
  · decide
  · rw [fileName_of_ne hn.ne_nil]
    exact ⟨ht, hd⟩

end Named

namespace Config
variable {cfg : Config}

def dir (cfg : Config) : List Str := cfg.root ++ ["metadata".toList]

theorem isName_of_mem_dir : ∀ c ∈ cfg.dir, IsName c :=
  forall_mem_concat cfg.root_names ⟨by decide, by decide, by decide, by decide⟩

theorem metadataDir_eq : cfg.metadataDir = print true cfg.dir :=
  join_name cfg.root_names ⟨by decide, by decide, by decide, by decide⟩

theorem join_metadataDir (hc : IsName c) :
    join cfg.metadataDir c = print true (cfg.dir ++ [c]) := by
  rw [metadataDir_eq, join_name isName_of_mem_dir hc]

theorem join_metadataDir_inj (hc : IsName c) (hd : IsName d)
    (he : join cfg.metadataDir c = join cfg.metadataDir d) : c = d := by
  rw [join_metadataDir hc, join_metadataDir hd] at he
  have := print_inj (forall_mem_concat isName_of_mem_dir hc)
    (forall_mem_concat isName_of_mem_dir hd) he
  simpa using this

theorem metadataFile_inj (hn : Named h) (hn' : Named h')
    (he : cfg.metadataFile h = cfg.metadataFile h') : h = h' :=
  hn.fileName_inj hn' (join_metadataDir_inj hn.isName hn'.isName he)

theorem metadataFile_ne_transaction (hn : Named h) : cfg.metadataFile h ≠ cfg.transactionMetaFile :=
  fun he => hn.fileName_ne.1 (join_metadataDir_inj hn.isName isName_transactionMetaFile he)

theorem metadataFile_ne_deviceSet (hn : Named h) : cfg.metadataFile h ≠ cfg.deviceSetMetaFile :=
  fun he => hn.fileName_ne.2 (join_metadataDir_inj hn.isName isName_deviceSetMetaFile he)

theorem transactionMetaFile_ne_deviceSet : cfg.transactionMetaFile ≠ cfg.deviceSetMetaFile :=
  fun he => absurd (join_metadataDir_inj isName_transactionMetaFile isName_deviceSetMetaFile he)
    (by decide)

end Config

/-- The hashes in use, and whether the transaction file and the whole directory are followed, which
matters after a crash. -/
structure Scope where
  mem : Hash → Prop
  named : ∀ h, mem h → Named h
  tracked : Prop

section Invariants
variable (cfg : Config) (S : Scope)

def Disk.Has (disk : Disk) (h : Hash) (m : DevMeta) : Prop :=
  disk.files.lookup (cfg.metadataFile h) = some (.device m)

/-- No device other than the one of the transaction has the id of the transaction. -/
def Disk.Owns (disk : Disk) (t : Transaction) : Prop :=
  S.mem t.deviceIDHash ∧ ∀ h m, S.mem h → disk.Has cfg h m → m.deviceID = t.deviceID →
    h = t.deviceIDHash

/-- What is true of the disk at any time. -/
structure Disk.Ok (disk : Disk) : Prop where
  device : ∀ h c, S.mem h → disk.files.lookup (cfg.metadataFile h) = some c → ∃ m, c = .device m
  bounded : ∀ h m, S.mem h → disk.Has cfg h m → m.deviceID ≤ maxDeviceID
  distinct : ∀ h h' m m', S.mem h → S.mem h' → disk.Has cfg h m → disk.Has cfg h' m' →
    m.deviceID = m'.deviceID → h = h'
  path : S.tracked → ∀ p ∈ disk.files, (∃ h, S.mem h ∧ p = cfg.metadataFile h) ∨
    p = cfg.transactionMetaFile ∨
    p = cfg.deviceSetMetaFile
  transaction : S.tracked → ∀ c, disk.files.lookup cfg.transactionMetaFile = some c →
    ∃ t, c = .transaction t ∧ (disk.transactionID < t.openTransactionID → disk.Owns cfg S t)

/-- The device set and the disk agree, and the marks and the counter are right. -/
structure Consistent (ds : DeviceSet) (disk : Disk) : Prop where
  ok : disk.Ok cfg S
  file : ∀ h, S.mem h →
    disk.files.lookup (cfg.metadataFile h) = (ds.devices.lookup h).map fun info =>
      .device info.toDevMeta
  entry : ∀ h info, ds.devices.lookup h = some info → S.mem h ∧ info.hash = h
  used : ∀ h info, ds.devices.lookup h = some info →
    isDeviceIDFree ds.deviceIDMap info.deviceID = false
  deleted : ds.nrDeletedDevices = ds.deletedDevices
  transactionID : S.tracked → ds.transactionID = disk.transactionID

end Invariants

variable {cfg : Config} {disk disk' : Disk} {hash h : Hash} {id : Nat}

/-! ## The disk -/

namespace Disk

@[simp] theorem files_write : (disk.write p c).files = disk.files.insert p c := rfl

@[simp] theorem files_remove : (disk.remove p).files = disk.files.erase p := rfl

theorem has_write (hp : cfg.metadataFile h ≠ p) :
    (disk.write p c).Has cfg h m ↔ disk.Has cfg h m := by
  rw [Has, Has, files_write, lookup_insert_ne hp]

theorem has_save : (disk.write (cfg.metadataFile h) (.device m)).Has cfg h m' ↔ m = m' := by
  rw [Has, files_write, lookup_insert]
  simp

theorem Owns.of_has (ho : disk.Owns cfg S t)
    (hh : ∀ h m, S.mem h → disk'.Has cfg h m → disk.Has cfg h m) :
    disk'.Owns cfg S t :=
  ⟨ho.1, fun h m hS hm => ho.2 h m hS (hh h m hS hm)⟩

/-- A disk with fewer metadata files, a later transaction id, and maybe another transaction file. -/
theorem Ok.of_has (hd : disk.Ok cfg S)
    (hfile : ∀ h, S.mem h → disk'.files.lookup (cfg.metadataFile h) = none ∨
      disk'.files.lookup (cfg.metadataFile h) = disk.files.lookup (cfg.metadataFile h))
    (hpath : S.tracked → ∀ p ∈ disk'.files, p ∈ disk.files ∨ p = cfg.transactionMetaFile ∨
      p = cfg.deviceSetMetaFile)
    (htx : S.tracked → ∀ c, disk'.files.lookup cfg.transactionMetaFile = some c →
      ∃ t, c = .transaction t ∧ (disk'.transactionID < t.openTransactionID → disk.Owns cfg S t)) :
    disk'.Ok cfg S := by
  have hlookup : ∀ h c, S.mem h → disk'.files.lookup (cfg.metadataFile h) = some c →
      disk.files.lookup (cfg.metadataFile h) = some c := by
    intro h c hS hc
    rcases hfile h hS with hn | he
    · cases hn.symm.trans hc
    · exact he ▸ hc
  have hhas : ∀ h m, S.mem h → disk'.Has cfg h m → disk.Has cfg h m := fun h m => hlookup h _
  refine ⟨fun h c hS hc => hd.device h c hS (hlookup h c hS hc), fun h m hS hm =>
    hd.bounded h m hS (hhas h m hS hm),
    fun h h' m m' hS hS' hm hm' => hd.distinct h h' m m' hS hS' (hhas h m hS hm)
      (hhas h' m' hS' hm'), ?_, ?_⟩
  · intro ht p hp
    rcases hpath ht p hp with hp | hp
    · exact hd.path ht p hp
    · exact .inr hp
  · intro ht c hc
    obtain ⟨t, rfl, hown⟩ := htx ht c hc
    exact ⟨t, rfl, fun hlt => (hown hlt).of_has hhas⟩

end Disk

/-! ## The device set and the disk -/

namespace Consistent

variable (hc : Consistent cfg S ds disk)
include hc

theorem has_iff (hS : S.mem h) : disk.Has cfg h m ↔ ∃ info, ds.devices.lookup h = some info ∧
    info.toDevMeta = m := by
  rw [Has, hc.file h hS]
  simp

theorem has (hl : ds.devices.lookup h = some info) : disk.Has cfg h info.toDevMeta :=
  (hc.has_iff (hc.entry h info hl).1).2 ⟨info, hl, rfl⟩

theorem bounded (hl : ds.devices.lookup h = some info) : info.deviceID ≤ maxDeviceID :=
  hc.ok.bounded h _ (hc.entry h info hl).1 (hc.has hl)

theorem distinct (hl : ds.devices.lookup h = some info)
    (hl' : ds.devices.lookup h' = some info') (he : info.deviceID = info'.deviceID) : h = h' :=
  hc.ok.distinct h h' _ _ (hc.entry h info hl).1 (hc.entry h' info' hl').1 (hc.has hl)
    (hc.has hl') he

/-- A change of what the invariant does not follow, or more marks. -/
theorem congr (hdev : ds'.devices = ds.devices)
    (hmap : ∀ i, isDeviceIDFree ds.deviceIDMap i = false → isDeviceIDFree ds'.deviceIDMap i = false)
    (hnr : ds'.nrDeletedDevices = ds.nrDeletedDevices) (hT : ds'.transactionID = ds.transactionID) :
    Consistent cfg S ds' disk where
  ok := hc.ok
  file h hS := hdev ▸ hc.file h hS
  entry h info hl := hc.entry h info (hdev ▸ hl)
  used h info hl := hmap _ (hc.used h info (hdev ▸ hl))
  deleted := by rw [hnr, hc.deleted, deletedDevices, deletedDevices, hdev]
  transactionID ht := hT.trans (hc.transactionID ht)

theorem markDeviceIDFree (hid : ∀ h info, ds.devices.lookup h = some info → info.deviceID ≠ id) :
    Consistent cfg S (ds.markDeviceIDFree id) disk where
  __ := hc
  used h info hl := by simp [DeviceSet.markDeviceIDFree, hc.used h info hl, (hid h info hl).symm]

theorem pool (hf : disk'.files = disk.files) (hT : disk'.transactionID = disk.transactionID) :
    Consistent cfg S ds disk' where
  __ := hc
  ok := hc.ok.of_has (fun h _ => .inr (by rw [hf])) (fun _ p hp => .inl (hf ▸ hp))
    (fun ht c hl => hT ▸ hc.ok.transaction ht c (hf ▸ hl))
  file h hS := hf ▸ hc.file h hS
  transactionID ht := (hc.transactionID ht).trans hT.symm

/-- Another file is written or removed: the transaction's, where its id has no other owner, or the
device set's. -/
theorem files (hfile : ∀ h, S.mem h → disk'.files.lookup (cfg.metadataFile h) =
      disk.files.lookup (cfg.metadataFile h))
    (hpath : S.tracked → ∀ p ∈ disk'.files, p ∈ disk.files ∨ p = cfg.transactionMetaFile ∨
      p = cfg.deviceSetMetaFile)
    (htx : S.tracked → ∀ c, disk'.files.lookup cfg.transactionMetaFile = some c →
      ∃ t, c = .transaction t ∧ (disk'.transactionID < t.openTransactionID → disk.Owns cfg S t))
    (hT : disk'.transactionID = disk.transactionID) : Consistent cfg S ds disk' where
  __ := hc
  ok := hc.ok.of_has (fun h hS => .inr (hfile h hS)) hpath htx
  file h hS := (hfile h hS).trans (hc.file h hS)
  transactionID ht := (hc.transactionID ht).trans hT.symm

theorem writeTransaction (ht : S.mem t.deviceIDHash)
    (hown : ∀ h info, ds.devices.lookup h = some info → info.deviceID = t.deviceID →
      h = t.deviceIDHash) :
    Consistent cfg S ds (disk.write cfg.transactionMetaFile (.transaction t)) := by
  refine hc.files (fun h hS => ?_) (fun _ p hp => ?_) (fun _ c hl => ?_) rfl
  · exact lookup_insert_ne (metadataFile_ne_transaction (S.named h hS))
  · rcases (mem_insert _).1 hp with rfl | hp
    · exact .inr (.inl rfl)
    · exact .inl hp
  · rw [files_write, lookup_insert, some_inj] at hl
    refine ⟨t, hl.symm, fun _ => ⟨ht, fun h m hS hm hid => ?_⟩⟩
    obtain ⟨info, hl, rfl⟩ := (hc.has_iff hS).1 hm
    exact hown h info hl hid

theorem writeDeviceSet (m : DeviceSetMeta) :
    Consistent cfg S ds (disk.write cfg.deviceSetMetaFile (.deviceSet m)) := by
  refine hc.files (fun h hS => ?_) (fun _ p hp => ?_) (fun ht c hl => ?_) rfl
  · exact lookup_insert_ne (metadataFile_ne_deviceSet (S.named h hS))
  · rcases (mem_insert _).1 hp with rfl | hp
    · exact .inr (.inr rfl)
    · exact .inl hp
  · rw [files_write, lookup_insert_ne transactionMetaFile_ne_deviceSet] at hl
    exact hc.ok.transaction ht c hl

theorem setTransactionID {newID : Nat} (hle : ds.transactionID ≤ newID)
    (hdev : ds'.devices = ds.devices) (hmap : ds'.deviceIDMap = ds.deviceIDMap)
    (hnr : ds'.nrDeletedDevices = ds.nrDeletedDevices) (hT : ds'.transactionID = newID)
    (hf : disk'.files = disk.files) (hT' : disk'.transactionID = newID) :
    Consistent cfg S ds' disk' where
  ok := by
    refine hc.ok.of_has (fun h _ => .inr (by rw [hf])) (fun _ p hp => .inl (hf ▸ hp))
      fun ht c hl => ?_
    obtain ⟨t, rfl, hown⟩ := hc.ok.transaction ht c (hf ▸ hl)
    have := hc.transactionID ht
    exact ⟨t, rfl, fun hlt => hown (by omega)⟩
  file h hS := by rw [hf, hdev, hc.file h hS]
  entry h info hl := hc.entry h info (hdev ▸ hl)
  used h info hl := hmap ▸ hc.used h info (hdev ▸ hl)
  deleted := by rw [hnr, hc.deleted, deletedDevices, deletedDevices, hdev]
  transactionID _ := hT.trans hT'.symm

theorem save (hS : S.mem info.hash) (hid : info.deviceID ≤ maxDeviceID)
    (hother : ∀ h' info', ds.devices.lookup h' = some info' → info'.deviceID = info.deviceID →
      h' = info.hash)
    (hused : isDeviceIDFree ds.deviceIDMap info.deviceID = false)
    (htx : S.tracked → ∀ t, disk.files.lookup cfg.transactionMetaFile = some (.transaction t) →
      disk.transactionID < t.openTransactionID → info.deviceID = t.deviceID →
      info.hash = t.deviceIDHash)
    (hdev : ds'.devices = ds.devices.insert info.hash info)
    (hmap : ds'.deviceIDMap = ds.deviceIDMap) (hT : ds'.transactionID = ds.transactionID)
    (hnr : ds'.nrDeletedDevices = ds'.deletedDevices) :
    Consistent cfg S ds' (disk.write (cfg.metadataFile info.hash) (.device info.toDevMeta)) := by
  have hne : ∀ h, S.mem h → h ≠ info.hash → cfg.metadataFile h ≠ cfg.metadataFile info.hash :=
    fun h hSh hne he => hne (metadataFile_inj (S.named h hSh) (S.named _ hS) he)
  -- the metadata files are those of before and the one of `info`
  have hhas : ∀ h m, S.mem h → (disk.write (cfg.metadataFile info.hash)
      (.device info.toDevMeta)).Has cfg h m →
      h = info.hash ∧ m = info.toDevMeta ∨ h ≠ info.hash ∧ disk.Has cfg h m := by
    intro h m hSh hm
    by_cases he : h = info.hash
    · subst he
      exact .inl ⟨rfl, (has_save.1 hm).symm⟩
    · exact .inr ⟨he, (has_write (hne h hSh he)).1 hm⟩
  have hnew : ∀ h m, S.mem h → disk.Has cfg h m → m.deviceID = info.deviceID → h = info.hash := by
    intro h m hSh hm he
    obtain ⟨info', hl, rfl⟩ := (hc.has_iff hSh).1 hm
    exact hother h info' hl he
  refine ⟨⟨?_, ?_, ?_, ?_, ?_⟩, ?_, ?_, ?_, hnr, fun ht => hT.trans (hc.transactionID ht)⟩
  · intro h c hSh hl
    by_cases he : h = info.hash
    · subst he
      rw [files_write, lookup_insert, some_inj] at hl
      exact ⟨_, hl.symm⟩
    · rw [files_write, lookup_insert_ne (hne h hSh he)] at hl
      exact hc.ok.device h c hSh hl
  · intro h m hSh hm
    rcases hhas h m hSh hm with ⟨-, rfl⟩ | ⟨-, hm⟩
    · exact hid
    · exact hc.ok.bounded h m hSh hm
  · intro h h' m m' hSh hSh' hm hm' he
    rcases hhas h m hSh hm with ⟨rfl, rfl⟩ | ⟨-, hm⟩ <;> rcases hhas h' m' hSh' hm'
      with ⟨rfl, rfl⟩ | ⟨-, hm'⟩
    · rfl
    · exact (hnew h' m' hSh' hm' he.symm).symm
    · exact hnew h m hSh hm he
    · exact hc.ok.distinct h h' m m' hSh hSh' hm hm' he
  · intro ht p hp
    rcases (mem_insert _).1 hp with rfl | hp
    · exact .inl ⟨info.hash, hS, rfl⟩
    · exact hc.ok.path ht p hp
  · intro ht c hl
    rw [files_write, lookup_insert_ne (metadataFile_ne_transaction (S.named _ hS)).symm] at hl
    obtain ⟨t, rfl, hown⟩ := hc.ok.transaction ht c hl
    refine ⟨t, rfl, fun hlt => ⟨(hown hlt).1, fun h m hSh hm he => ?_⟩⟩
    rcases hhas h m hSh hm with ⟨rfl, rfl⟩ | ⟨-, hm⟩
    · exact htx ht t hl hlt he
    · exact (hown hlt).2 h m hSh hm he
  · intro h hSh
    rw [files_write, hdev]
    by_cases he : h = info.hash
    · subst he
      rw [lookup_insert, lookup_insert, map_some]
    · rw [lookup_insert_ne (hne h hSh he), lookup_insert_ne he, hc.file h hSh]
  · intro h info' hl
    rw [hdev] at hl
    by_cases he : h = info.hash
    · subst he
      rw [lookup_insert, some_inj] at hl
      exact ⟨hS, hl ▸ rfl⟩
    · rw [lookup_insert_ne he] at hl
      exact hc.entry h info' hl
  · intro h info' hl
    rw [hdev] at hl
    rw [hmap]
    by_cases he : h = info.hash
    · subst he
      rw [lookup_insert, some_inj] at hl
      exact hl ▸ hused
    · rw [lookup_insert_ne he] at hl
      exact hc.used h info' hl

theorem erase (hS : S.mem hash) (hdev : ds'.devices = ds.devices.erase hash)
    (hmap : ds'.deviceIDMap = ds.deviceIDMap) (hT : ds'.transactionID = ds.transactionID)
    (hnr : ds'.nrDeletedDevices = ds'.deletedDevices) :
    Consistent cfg S ds' (disk.remove (cfg.metadataFile hash)) := by
  have hne : ∀ h, S.mem h → h ≠ hash → cfg.metadataFile h ≠ cfg.metadataFile hash :=
    fun h hSh hne he => hne (metadataFile_inj (S.named h hSh) (S.named _ hS) he)
  have hlookup : ∀ h info, ds'.devices.lookup h = some info → ds.devices.lookup h = some info := by
    intro h info hl
    by_cases he : h = hash
    · rw [hdev, he, lookup_erase] at hl
      cases hl
    · rwa [hdev, lookup_erase_ne he] at hl
  refine ⟨hc.ok.of_has (fun h hSh => ?_) (fun _ p hp => .inl (mem_erase.1 hp).2)
    fun ht c hl => ?_, ?_,
    fun h info hl => hc.entry h info (hlookup h info hl), fun h info hl =>
      hmap ▸ hc.used h info (hlookup h info hl), hnr,
    fun ht => hT.trans (hc.transactionID ht)⟩
  · by_cases he : h = hash
    · exact .inl (he ▸ lookup_erase _ _)
    · exact .inr (lookup_erase_ne (hne h hSh he))
  · rw [files_remove, lookup_erase_ne (metadataFile_ne_transaction (S.named _ hS)).symm] at hl
    exact hc.ok.transaction ht c hl
  · intro h hSh
    rw [files_remove, hdev]
    by_cases he : h = hash
    · rw [he, lookup_erase, lookup_erase, map_none]
    · rw [lookup_erase_ne (hne h hSh he), lookup_erase_ne he, hc.file h hSh]

end Consistent

end Docker.Devmapper
