import Docker.Devmapper.Consistent

/-!
# What the operations keep

Every operation of the device set is about one hash. From a consistent device set it leads to a
consistent one, whatever the device mapper answers, and wherever it is stopped the metadata files of
all other hashes are as they were (`Interrupted`).
-/

namespace Docker.Devmapper

open Filepath Prog DeviceSet Option AList

section Definitions
variable (cfg : Config) (S : Scope) (hash : Hash) (disk₀ : Disk)

/-- What an operation on `hash` that began with `disk₀` leaves when it is stopped. -/
structure Interrupted (disk : Disk) : Prop where
  ok : disk.Ok cfg S
  others : ∀ h, S.mem h → h ≠ hash → disk.files.lookup (cfg.metadataFile h) =
    disk₀.files.lookup (cfg.metadataFile h)

/-- The device set and the disk in an operation on `hash` that began with `disk₀`. -/
structure Operating (ds : DeviceSet) (disk : Disk) :
    Prop extends Consistent cfg S ds disk, Interrupted cfg S hash disk₀ disk

/-- An operation on `hash` after which the set is consistent, with `Q` of its result. -/
abbrev Operates (p : P (Result α)) (disk : Disk) (Q : Result α → Prop := fun _ => True) : Prop :=
  p.During (env cfg) (Interrupted cfg S hash disk₀)
    (fun r d => Operating cfg S hash disk₀ r.2 d ∧ Q r) disk

/-- A transaction for `hash` is open, with an id that no device has. -/
structure Fresh (ds : DeviceSet) (disk : Disk) (id : Nat) : Prop where
  le : id ≤ maxDeviceID
  used : isDeviceIDFree ds.deviceIDMap id = false
  unregistered : ∀ h info, ds.devices.lookup h = some info → info.deviceID ≠ id
  openID : ds.transaction.openTransactionID = ds.transactionID + 1
  openHash : ds.transaction.deviceIDHash = hash
  file : disk.files.lookup cfg.transactionMetaFile = some (.transaction ds.transaction)

end Definitions

/-! ## Calls and functions without branches -/

section Calls
variable {I : Disk → Prop} {disk : Disk} {id : Nat} {base : Option Nat}

@[simp] theorem during_readFile {Q : Option MetaFile → Disk → Prop} :
    (readFile path).During (env cfg) I Q disk ↔ I disk ∧ Q (disk.files.lookup path) disk := by
  constructor
  · rintro ⟨hI, h⟩
    exact ⟨hI, (h _ rfl).2⟩
  · rintro ⟨hI, hQ⟩
    refine ⟨hI, ?_⟩
    rintro _ rfl
    exact ⟨hI, hQ⟩

@[simp] theorem during_writeFile {Q : Unit → Disk → Prop} :
    (writeFile path content).During (env cfg) I Q disk ↔
      I disk ∧ I (disk.write path content) ∧ Q () (disk.write path content) :=
  and_congr Iff.rfl ⟨fun h => h () trivial, fun h _ _ => h⟩

@[simp] theorem during_removeFile {Q : Unit → Disk → Prop} :
    (removeFile path).During (env cfg) I Q disk ↔ I disk ∧ I (disk.remove path) ∧
      Q () (disk.remove path) :=
  and_congr Iff.rfl ⟨fun h => h () trivial, fun h _ _ => h⟩

theorem leaves_onDevice : (onDevice op h).Leaves (env cfg) disk := leaves_request fun _ => rfl

theorem leaves_getDeviceUUID : (getDeviceUUID h).Leaves (env cfg) disk :=
  leaves_request fun _ => rfl

theorem leaves_probeFsType : (probeFsType h).Leaves (env cfg) disk := leaves_request fun _ => rfl

theorem leaves_determineDefaultFS : determineDefaultFS.Leaves (env cfg) disk :=
  leaves_request fun _ => rfl

theorem leaves_status : Pool.status.Leaves (env cfg) disk := leaves_request fun _ => rfl

theorem during_status {Q : Option PoolStatus → Disk → Prop} (hI : I disk)
    (hQ : ∀ r, (∀ st, r = some st → st.transactionID = disk.transactionID) → Q r disk) :
    Pool.status.During (env cfg) I Q disk :=
  ⟨hI, fun r hr => ⟨hI, hQ r hr⟩⟩

section
variable {Q : DmResult → Disk → Prop} (hI : I disk)
  (hQ : ∀ r disk', disk'.files = disk.files → disk'.transactionID = disk.transactionID →
    I disk' ∧ Q r disk')
include hI hQ

/-- A message that creates or deletes a device changes the pool only. -/
theorem during_createDevice : (Pool.createDevice id base).During (env cfg) I Q disk := by
  refine ⟨hI, fun r _ => hQ r _ ?_ ?_⟩ <;> simp only [env, Disk.after] <;> split <;> rfl

theorem during_deleteInPool : (Pool.deleteDevice id).During (env cfg) I Q disk := by
  refine ⟨hI, fun r _ => hQ r _ ?_ ?_⟩ <;> simp only [env, Disk.after] <;> split <;> rfl

end

@[simp] theorem during_updateDevice :
    (updateDevice cfg ds info).During (env cfg) I Q disk ↔ I disk ∧
      I (disk.write (cfg.metadataFile info.hash) (.device info.toDevMeta)) ∧
      Q { ds with devices := ds.devices.insert info.hash info }
        (disk.write (cfg.metadataFile info.hash) (.device info.toDevMeta)) := by
  simp [updateDevice, saveMetadata]

@[simp] theorem during_registerDevice {size transactionID : Nat}
    {Q : DevInfo × DeviceSet → Disk → Prop} :
    (registerDevice cfg ds id h size transactionID).During (env cfg) I Q disk ↔ I disk ∧
      I (disk.write (cfg.metadataFile h) (.device ⟨id, size, transactionID, false, false⟩)) ∧
      Q (⟨⟨id, size, transactionID, false, false⟩, h⟩,
          { ds with devices := ds.devices.insert h ⟨⟨id, size, transactionID, false, false⟩, h⟩ })
        (disk.write (cfg.metadataFile h) (.device ⟨id, size, transactionID, false, false⟩)) := by
  simp [registerDevice]

@[simp] theorem during_unregisterDevice :
    (unregisterDevice cfg ds h).During (env cfg) I Q disk ↔ I disk ∧
      I (disk.remove (cfg.metadataFile h)) ∧
      Q { ds with devices := ds.devices.erase h } (disk.remove (cfg.metadataFile h)) := by
  simp [unregisterDevice, removeMetadata]

/-- The device set with an open transaction. -/
def DeviceSet.openFor (ds : DeviceSet) (hash : Hash) (id : Nat) : DeviceSet :=
  { ds with transaction := ⟨ds.transactionID + 1, hash, id⟩ }

@[simp] theorem during_openTransaction :
    (openTransaction cfg ds h id).During (env cfg) I Q disk ↔ I disk ∧
      I (disk.write cfg.transactionMetaFile (.transaction (ds.openFor h id).transaction)) ∧
      Q (ds.openFor h id) (disk.write cfg.transactionMetaFile
        (.transaction (ds.openFor h id).transaction)) := by
  simp [openTransaction, saveTransactionMetaData, openFor]

def DeviceSet.refreshed (ds : DeviceSet) (id : Nat) : DeviceSet :=
  { ds with transaction := { ds.transaction with deviceID := id } }

@[simp] theorem during_refreshTransaction :
    (refreshTransaction cfg ds id).During (env cfg) I Q disk ↔ I disk ∧
      I (disk.write cfg.transactionMetaFile (.transaction (ds.refreshed id).transaction)) ∧
      Q (ds.refreshed id) (disk.write cfg.transactionMetaFile
        (.transaction (ds.refreshed id).transaction)) := by
  simp [refreshTransaction, saveTransactionMetaData, refreshed]

@[simp] theorem during_saveBaseDeviceFilesystem :
    (saveBaseDeviceFilesystem cfg ds fs).During (env cfg) I Q disk ↔ I disk ∧
      I (disk.write cfg.deviceSetMetaFile (.deviceSet ⟨ds.nextDeviceID, ds.baseDeviceUUID, fs⟩)) ∧
      Q { ds with baseDeviceFilesystem := fs }
        (disk.write cfg.deviceSetMetaFile
          (.deviceSet ⟨ds.nextDeviceID, ds.baseDeviceUUID, fs⟩)) := by
  simp [saveBaseDeviceFilesystem, saveDeviceSetMetaData]

/-! ## Functions without an effect -/

theorem leaves_activateDeviceIfNeeded : (activateDeviceIfNeeded info b).Leaves (env cfg) disk := by
  unfold activateDeviceIfNeeded
  split
  · exact leaves_pure
  · refine leaves_onDevice.bind fun ok => ?_
    split <;> exact leaves_pure

theorem leaves_growFS : (growFS ds info).Leaves (env cfg) disk := by
  refine leaves_activateDeviceIfNeeded.bind fun e => ?_
  cases e with
  | some e => exact leaves_pure
  | none =>
    refine leaves_onDevice.bind fun mounted => ?_
    have hdone : ∀ e, (pure e >>= fun e => onDevice .deactivate info.hash >>= fun _ => pure e :
        P (Option Error)).Leaves (env cfg) disk :=
      fun e => leaves_pure.bind fun _ => leaves_onDevice.bind fun _ => leaves_pure
    split
    · split
      · refine leaves_onDevice.bind fun resized => ?_
        split <;> exact hdone _
      · exact hdone _
    · exact hdone _

theorem leaves_poolHasFreeSpace : (poolHasFreeSpace cfg).Leaves (env cfg) disk := by
  unfold poolHasFreeSpace
  split
  · exact leaves_pure
  · refine leaves_status.bind fun r => ?_
    cases r with
    | none => exact leaves_pure
    | some st =>
      dsimp only
      split
      · exact leaves_pure
      · split <;> exact leaves_pure

theorem leaves_checkThinPool : checkThinPool.Leaves (env cfg) disk := by
  refine leaves_status.bind fun r => ?_
  cases r with
  | none => exact leaves_pure
  | some st =>
    dsimp only
    split
    · exact leaves_pure
    · split <;> exact leaves_pure

end Calls

/-! ## Creation -/

section Specs
variable {S : Scope} {hash : Hash} {ds ds' : DeviceSet} {id : Nat} {base : Option Nat}

theorem Operating.start (hc : Consistent cfg S ds disk) : Operating cfg S hash disk ds disk :=
  ⟨hc, fun _ _ _ => rfl⟩

section
variable (ho : Operating cfg S hash disk₀ ds disk)
include ho

theorem Operating.of_files (hc : Consistent cfg S ds' disk')
    (hf : ∀ h, S.mem h → h ≠ hash → disk'.files.lookup (cfg.metadataFile h) =
      disk.files.lookup (cfg.metadataFile h)) :
    Operating cfg S hash disk₀ ds' disk' :=
  ⟨hc, fun h hS hne => (hf h hS hne).trans (ho.others h hS hne)⟩

theorem Operating.writeTransaction (ht : S.mem t.deviceIDHash)
    (hown : ∀ h info, ds.devices.lookup h = some info → info.deviceID = t.deviceID →
      h = t.deviceIDHash) :
    Operating cfg S hash disk₀ ds (disk.write cfg.transactionMetaFile (.transaction t)) :=
  ho.of_files (ho.toConsistent.writeTransaction ht hown) fun h hS _ =>
    lookup_insert_ne (Config.metadataFile_ne_transaction (S.named h hS))

theorem Operating.writeDeviceSet (m : DeviceSetMeta) :
    Operating cfg S hash disk₀ ds (disk.write cfg.deviceSetMetaFile (.deviceSet m)) :=
  ho.of_files (ho.toConsistent.writeDeviceSet m) fun h hS _ =>
    lookup_insert_ne (Config.metadataFile_ne_deviceSet (S.named h hS))

theorem Operating.pool (hf : disk'.files = disk.files)
    (hT : disk'.transactionID = disk.transactionID) : Operating cfg S hash disk₀ ds disk' :=
  ho.of_files (ho.toConsistent.pool hf hT) fun _ _ _ => by rw [hf]

theorem Operating.congr (hdev : ds'.devices = ds.devices) (hmap : ds'.deviceIDMap = ds.deviceIDMap)
    (hnr : ds'.nrDeletedDevices = ds.nrDeletedDevices) (hT : ds'.transactionID = ds.transactionID) :
    Operating cfg S hash disk₀ ds' disk :=
  ⟨ho.toConsistent.congr hdev (fun _ => hmap ▸ fun hi => hi) hnr hT, ho.others⟩

/-- The metadata files of other hashes stay when one is written for `hash`. -/
theorem Operating.write_others (hS : S.mem hash)
    (hc : Consistent cfg S ds' (disk.write (cfg.metadataFile hash) c)) :
    Operating cfg S hash disk₀ ds' (disk.write (cfg.metadataFile hash) c) :=
  ho.of_files hc fun h hSh hne =>
    lookup_insert_ne fun he => hne (Config.metadataFile_inj (S.named h hSh) (S.named _ hS) he)

theorem Operating.remove_others (hS : S.mem hash)
    (hc : Consistent cfg S ds' (disk.remove (cfg.metadataFile hash))) :
    Operating cfg S hash disk₀ ds' (disk.remove (cfg.metadataFile hash)) :=
  ho.of_files hc fun h hSh hne =>
    lookup_erase_ne fun he => hne (Config.metadataFile_inj (S.named h hSh) (S.named _ hS) he)

end

theorem Operating.lookup_eq (ho : Operating cfg S hash disk₀ ds' disk)
    (hc : Consistent cfg S ds disk₀) (hS : S.mem h)
    (hne : h ≠ hash) : ds'.devices.lookup h = ds.devices.lookup h := by
  have hf : (ds'.devices.lookup h).map (fun info => MetaFile.device info.toDevMeta) =
      (ds.devices.lookup h).map fun info => .device info.toDevMeta := by
    rw [← ho.file h hS, ← hc.file h hS]
    exact ho.others h hS hne
  cases hl' : ds'.devices.lookup h with
  | none =>
    rw [hl', map_none, eq_comm, map_eq_none_iff] at hf
    exact hf.symm
  | some info' =>
    rw [hl', map_some, eq_comm, map_eq_some_iff] at hf
    obtain ⟨info, hl, hm⟩ := hf
    have hh : info.hash = info'.hash := (hc.entry h info hl).2.trans (ho.entry h info' hl').2.symm
    obtain ⟨m', _⟩ := info'
    cases hm
    cases hh
    exact hl.symm

theorem Operating.done (ho : Operating cfg S hash disk₀ ds disk) (hQ : Q (res, ds)) :
    Operates cfg S hash disk₀ (pure (res, ds)) disk Q :=
  ⟨ho.toInterrupted, ho, hQ⟩

/-- Looking up a hash in use finds its entry, and nothing else is loaded. -/
theorem during_lookupDevice {Q : Option DevInfo × DeviceSet → Disk → Prop}
    (hc : Consistent cfg S ds disk)
    (hS : S.mem h) (hI : I disk) (hQ : Q (ds.devices.lookup h, ds) disk) :
    (lookupDevice cfg ds h).During (env cfg) I Q disk := by
  unfold lookupDevice
  cases hl : ds.devices.lookup h with
  | some info => exact ⟨hI, hl ▸ hQ⟩
  | none =>
    have hf : disk.files.lookup (cfg.metadataFile h) = none := by rw [hc.file h hS, hl, map_none]
    simp only [loadMetadata, during_bind, during_readFile, hf, bind_none]
    exact ⟨hI, hI, hI, hl ▸ hQ⟩

theorem Operating.lookup (ho : Operating cfg S hash disk₀ ds disk) (hS : S.mem h)
    (hf : (f (ds.devices.lookup h, ds)).During (env cfg) (Interrupted cfg S hash disk₀) Q disk) :
    (lookupDevice cfg ds h >>= f).During (env cfg) (Interrupted cfg S hash disk₀) Q disk :=
  during_bind.2 (during_lookupDevice ho.toConsistent hS ho.toInterrupted hf)

theorem getNextFreeDeviceID_cases (ds : DeviceSet) :
    (∃ next, ds.getNextFreeDeviceID = (none, { ds with nextDeviceID := next })) ∨
      ∃ id next, isDeviceIDFree ds.deviceIDMap id = true ∧ id ≤ maxDeviceID ∧
        ds.getNextFreeDeviceID = (some id,
          { ds with nextDeviceID := next }.markDeviceIDUsed id) := by
  unfold getNextFreeDeviceID
  split
  · next id next he =>
    obtain ⟨hfree, hle, -⟩ := free_of_findFreeDeviceID (incNextDeviceID_le _) he
    exact .inr ⟨id, next, hfree, hle, rfl⟩
  · next next _ => exact .inl ⟨next, rfl⟩

theorem Consistent.ne_of_free (hc : Consistent cfg S ds disk)
    (hfree : isDeviceIDFree ds.deviceIDMap id = true)
    (hl : ds.devices.lookup h = some info) : info.deviceID ≠ id := by
  rintro rfl
  cases (hc.used h info hl).symm.trans hfree

/-- The set with a free id marked, and a transaction for it written. -/
theorem Operating.nextID (ho : Operating cfg S hash disk₀ ds disk) (hS : S.mem hash)
    (hfree : isDeviceIDFree ds.deviceIDMap id = true) (hle : id ≤ maxDeviceID)
    (hds' : { { ds with nextDeviceID := next }.markDeviceIDUsed id with transaction := t } = ds')
    (hopen : t.openTransactionID = ds.transactionID + 1) (hhash : t.deviceIDHash = hash)
    (hid : t.deviceID = id) :
    Operating cfg S hash disk₀ ds' (disk.write cfg.transactionMetaFile
      (.transaction ds'.transaction)) ∧
      Fresh cfg hash ds' (disk.write cfg.transactionMetaFile
        (.transaction ds'.transaction)) id := by
  have hmap : ds'.deviceIDMap = markDeviceIDUsed ds.deviceIDMap id := hds' ▸ rfl
  have ht : ds'.transaction = t := hds' ▸ rfl
  have hunreg : ∀ h info, ds'.devices.lookup h = some info → info.deviceID ≠ id :=
    fun h info hl => ho.ne_of_free hfree ((hds' ▸ rfl : ds'.devices = ds.devices) ▸ hl)
  rw [ht]
  refine ⟨Operating.writeTransaction ⟨ho.toConsistent.congr (hds' ▸ rfl) (fun i hi => ?_)
    (hds' ▸ rfl) (hds' ▸ rfl), ho.others⟩
    (hhash ▸ hS) fun h info hl he => absurd he (hid ▸ hunreg h info hl), hle, ?_, hunreg, ?_,
      ht ▸ hhash, ?_⟩
  · rw [hmap, isDeviceIDFree_markDeviceIDUsed, hi, Bool.false_and]
  · rw [hmap, isDeviceIDFree_markDeviceIDUsed, bne_self_eq_false, Bool.and_false]
  · rw [ht, hopen, ← hds']
    rfl
  · rw [ht]
    exact lookup_insert _

theorem during_closeTransaction {Q : Bool × DeviceSet → Disk → Prop}
    (ho : Operating cfg S hash disk₀ ds disk)
    (hle : ds.transactionID ≤ ds.transaction.openTransactionID)
    (hQ : ∀ b ds' disk', Operating cfg S hash disk₀ ds' disk' → ds'.devices = ds.devices →
      Q (b, ds') disk') :
    (closeTransaction ds).During (env cfg) (Interrupted cfg S hash disk₀) Q disk := by
  have hfail : Q (false, ds) disk := hQ false ds disk ho rfl
  unfold closeTransaction
  rw [during_bind]
  refine ⟨ho.toInterrupted, fun r _ => ?_⟩
  cases r with
  | ok =>
    have ho' : Operating cfg S hash disk₀
      { ds with transactionID := ds.transaction.openTransactionID }
        { disk with transactionID := ds.transaction.openTransactionID } :=
      ho.of_files (ho.toConsistent.setTransactionID hle rfl rfl rfl rfl rfl rfl) fun _ _ _ => rfl
    exact ⟨ho'.toInterrupted, ho'.toInterrupted, hQ true _ _ ho' rfl⟩
  | deviceIDExists | busy | failed done => exact ⟨ho.toInterrupted, ho.toInterrupted, hfail⟩

/-- The loop leaves the devices as they are, and the id it ends with is a fresh one. -/
theorem during_createInPool (hS : S.mem hash) (ho : Operating cfg S hash disk₀ ds disk)
    (hf : Fresh cfg hash ds disk id) :
    (createInPool cfg base turns ds id).During (env cfg) (Interrupted cfg S hash disk₀)
      (fun r d => Operating cfg S hash disk₀ r.2 d ∧ r.2.devices = ds.devices ∧
        ∀ id, r.1 = .ok id → Fresh cfg hash r.2 d id) disk := by
  induction turns generalizing ds disk id with
  | zero => exact ⟨ho.toInterrupted, ho, rfl, fun _ h => by cases h⟩
  | succ turns ih =>
    have hfail : ∀ d e, Operating cfg S hash disk₀ ds d →
        Operating cfg S hash disk₀ (ds.markDeviceIDFree id) d ∧
          (ds.markDeviceIDFree id).devices = ds.devices ∧
          ∀ id', (Except.error e : Except Error Nat) = .ok id' →
            Fresh cfg hash (ds.markDeviceIDFree id) d id' :=
      fun d e hd => ⟨hd.of_files (hd.toConsistent.markDeviceIDFree hf.unregistered)
        fun _ _ _ => rfl, rfl,
        fun _ h => by cases h⟩
    unfold createInPool
    rw [during_bind]
    refine during_createDevice ho.toInterrupted fun r d hfiles hT => ?_
    have hd := ho.pool hfiles hT
    refine ⟨hd.toInterrupted, ?_⟩
    cases r with
    | ok =>
      exact ⟨hd.toInterrupted, hd, rfl,
        fun _ h => by cases h; exact { hf with file := hfiles ▸ hf.file }⟩
    | busy | failed done => exact ⟨hd.toInterrupted, hfail d _ hd⟩
    | deviceIDExists =>
      rcases getNextFreeDeviceID_cases ds with ⟨next, he⟩ | ⟨id', next, hfree, hle, he⟩
      · rw [he]
        exact ⟨hd.toInterrupted, hd.congr rfl rfl rfl rfl, rfl, fun _ h => by cases h⟩
      · rw [he]
        generalize hds' : ({ ds with nextDeviceID := next }.markDeviceIDUsed id').refreshed id' =
          ds'
        have hdev : ds'.devices = ds.devices := hds' ▸ rfl
        obtain ⟨ho', hf'⟩ := hd.nextID hS hfree hle hds' hf.openID hf.openHash rfl
        rw [during_bind, during_refreshTransaction, hds']
        exact ⟨hd.toInterrupted, ho'.toInterrupted, (ih ho' hf').mono fun r d' _ hr => hdev ▸ hr⟩

theorem deletedDevices_insert_new (hl : ds.devices.lookup info.hash = none)
    (hd : info.deleted = false) (hdev : ds'.devices = ds.devices.insert info.hash info) :
    ds'.deletedDevices = ds.deletedDevices := by
  rw [deletedDevices, hdev, Count.countP_insert_new _ hl]
  simp [hd, deletedDevices]

theorem deletedDevices_erase (hl : ds.devices.lookup hash = some info)
    (hdev : ds'.devices = ds.devices.erase hash) :
    ds'.deletedDevices + info.deleted.toNat = ds.deletedDevices := by
  rw [deletedDevices, hdev]
  exact Count.countP_erase (fun e => e.2.deleted) hl

theorem deletedDevices_insert (hl : ds.devices.lookup hash = some info)
    (hdev : ds'.devices = ds.devices.insert hash info') :
    ds'.deletedDevices + info.deleted.toNat = ds.deletedDevices + info'.deleted.toNat := by
  rw [deletedDevices, hdev]
  exact Count.countP_insert (fun e => e.2.deleted) hl

theorem Operating.register (ho : Operating cfg S i.hash disk₀ ds disk) (hS : S.mem i.hash)
    (hf : Fresh cfg i.hash ds disk i.deviceID) (hnew : ds.devices.lookup i.hash = none)
    (hd : i.deleted = false) :
    Operating cfg S i.hash disk₀ { ds with devices := ds.devices.insert i.hash i }
      (disk.write (cfg.metadataFile i.hash) (.device i.toDevMeta)) := by
  refine ho.write_others hS (ho.toConsistent.save hS hf.le (fun h' info' hl he => ?_) hf.used
    (fun _ t ht _ _ => ?_) rfl rfl rfl ?_)
  · exact absurd he (hf.unregistered h' info' hl)
  · rw [hf.file, some_inj] at ht
    cases ht
    exact hf.openHash.symm
  · rw [deletedDevices_insert_new hnew hd rfl]
    exact ho.deleted

theorem Operating.unregister (ho : Operating cfg S hash disk₀ ds disk)
    (hl : ds.devices.lookup hash = some info) (hd : info.deleted = false) :
    Operating cfg S hash disk₀ { ds with devices := ds.devices.erase hash }
      (disk.remove (cfg.metadataFile hash)) := by
  refine ho.remove_others (ho.entry hash info hl).1
    (ho.toConsistent.erase (ho.entry hash info hl).1 rfl rfl rfl ?_)
  have : deletedDevices { ds with devices := ds.devices.erase hash } + info.deleted.toNat =
      ds.deletedDevices := deletedDevices_erase hl rfl
  rw [hd] at this
  exact ho.deleted.trans this.symm

theorem Consistent.ne_of_erase (hc : Consistent cfg S ds disk)
    (hl : ds.devices.lookup hash = some info)
    (hl' : (ds.devices.erase hash).lookup h' = some info') : info'.deviceID ≠ info.deviceID := by
  intro he
  have hne : h' ≠ hash := by
    rintro rfl
    rw [lookup_erase] at hl'
    cases hl'
  rw [lookup_erase_ne hne] at hl'
  exact hne (hc.distinct hl' hl he)

theorem during_createRegister (hS : S.mem hash) (ho : Operating cfg S hash disk₀ ds disk)
    (hnew : ds.devices.lookup hash = none) :
    Operates cfg S hash disk₀ (createRegister cfg ds hash base size) disk fun r =>
      ∀ info, r.1 = .ok info → r.2.devices.lookup hash = some info := by
  unfold Operates createRegister
  rcases getNextFreeDeviceID_cases ds with ⟨next, he⟩ | ⟨id, next, hfree, hle, he⟩
  · rw [he]
    exact ⟨ho.toInterrupted, ho.congr rfl rfl rfl rfl, fun _ h => by cases h⟩
  · rw [he]
    generalize hds' : ({ ds with nextDeviceID := next }.markDeviceIDUsed id).openFor hash id = ds'
    have hdev : ds'.devices = ds.devices := hds' ▸ rfl
    obtain ⟨ho', hf⟩ := ho.nextID hS hfree hle hds' rfl rfl rfl
    rw [during_bind, during_openTransaction, hds']
    refine ⟨ho.toInterrupted, ho'.toInterrupted, ?_⟩
    refine (during_createInPool hS ho' hf).andThen fun r d _ ⟨ho, hdev', hf⟩ => ?_
    obtain ⟨r, ds⟩ := r
    cases r with
    | error e => exact ⟨ho.toInterrupted, ho, fun _ h => by cases h⟩
    | ok id =>
      have hf := hf id rfl
      have hnew : ds.devices.lookup hash = none := by rw [hdev', hdev, hnew]
      have hreg := Operating.register (i :=
        ⟨⟨id, size, ds.transaction.openTransactionID, false, false⟩, hash⟩)
        ho hS hf hnew rfl
      rw [during_bind, during_registerDevice]
      refine ⟨ho.toInterrupted, hreg.toInterrupted, ?_⟩
      rw [during_bind]
      refine during_closeTransaction hreg (hf.openID ▸ Nat.le_succ _) fun b ds₁ d₁ ho₁ hdev₁ => ?_
      have hl : ds₁.devices.lookup hash =
          some ⟨⟨id, size, ds.transaction.openTransactionID, false, false⟩, hash⟩ := by
        rw [hdev₁, lookup_insert]
      cases b with
      | true => exact ⟨ho₁.toInterrupted, ho₁, fun _ h => by cases h; exact hl⟩
      | false =>
        -- the device is unregistered, and then its id is freed
        have ho₂ := ho₁.unregister hl rfl
        rw [during_bind, during_unregisterDevice]
        refine ⟨ho₁.toInterrupted, ho₂.toInterrupted, ?_⟩
        rw [during_bind]
        refine during_deleteInPool ho₂.toInterrupted fun r d₃ hfiles hT => ?_
        have ho₃ := ho₂.pool hfiles hT
        refine ⟨ho₃.toInterrupted, ho₃.toInterrupted, ?_, fun _ h => by cases h⟩
        exact ho₃.of_files (ho₃.toConsistent.markDeviceIDFree fun h info hl' =>
          ho₁.ne_of_erase hl hl') fun _ _ _ => rfl

/-! ## Deletion -/

theorem Operating.update (i' : DevInfo) (ds' : DeviceSet) (ho : Operating cfg S hash disk₀ ds disk)
    (hl : ds.devices.lookup hash = some i) (hh : i'.hash = i.hash) (hid : i'.deviceID = i.deviceID)
    (hdev : ds'.devices = ds.devices.insert i'.hash i') (hmap : ds'.deviceIDMap = ds.deviceIDMap)
    (hT : ds'.transactionID = ds.transactionID)
    (hnr : ds'.nrDeletedDevices + i.deleted.toNat = ds.nrDeletedDevices + i'.deleted.toNat) :
    Operating cfg S hash disk₀ ds' (disk.write (cfg.metadataFile i'.hash)
      (.device i'.toDevMeta)) := by
  obtain ⟨hS, hi⟩ := ho.entry hash i hl
  have hi' : i'.hash = hash := hh.trans hi
  have hc : Consistent cfg S ds' (disk.write (cfg.metadataFile i'.hash)
      (.device i'.toDevMeta)) := by
    refine ho.toConsistent.save (hi'.symm ▸ hS) (hid ▸ ho.bounded hl) (fun h info hl' he => ?_)
      (hid ▸ ho.used hash i hl) (fun ht t hf hlt he => ?_) hdev hmap hT ?_
    · exact (ho.distinct hl' hl (he.trans hid)).trans hi'.symm
    · obtain ⟨t', htt', hown⟩ := ho.toConsistent.ok.transaction ht _ hf
      cases htt'
      exact hi'.trans ((hown hlt).2 hash _ hS (ho.has hl) (hid.symm.trans he))
    · have hcount := deletedDevices_insert hl (hi' ▸ hdev)
      have := ho.deleted
      omega
  rw [hi'] at hc ⊢
  exact ho.write_others hS hc

theorem during_markForDeferredDeletion (ho : Operating cfg S hash disk₀ ds disk)
    (hl : ds.devices.lookup hash = some info)
    (hQ : ∀ ds' disk', Operating cfg S hash disk₀ ds' disk' → ds'.transactionID = ds.transactionID →
      ds'.transaction = ds.transaction → Q ds' disk') :
    (markForDeferredDeletion cfg ds info).During (env cfg)
    (Interrupted cfg S hash disk₀) Q disk := by
  unfold markForDeferredDeletion
  split
  · exact ⟨ho.toInterrupted, hQ ds disk ho rfl rfl⟩
  · next hd =>
    have hd : info.deleted = false := by simpa using hd
    have ho' := ho.update { info with deleted := true }
      { ds with devices := ds.devices.insert info.hash { info with deleted := true },
                nrDeletedDevices := ds.nrDeletedDevices +
                  1 } hl rfl rfl rfl rfl rfl (by rw [hd]; rfl)
    rw [during_bind, during_updateDevice]
    exact ⟨ho.toInterrupted, ho'.toInterrupted, ho'.toInterrupted, hQ _ _ ho' rfl rfl⟩

theorem Operating.delete (ho : Operating cfg S hash disk₀ ds disk)
    (hl : ds.devices.lookup hash = some info) (hdev : ds'.devices = ds.devices.erase hash)
    (hmap : ds'.deviceIDMap = ds.deviceIDMap) (hT : ds'.transactionID = ds.transactionID)
    (hnr : ds'.nrDeletedDevices + info.deleted.toNat = ds.nrDeletedDevices) :
    Operating cfg S hash disk₀ (ds'.markDeviceIDFree info.deviceID)
      (disk.remove (cfg.metadataFile hash)) := by
  have hS := (ho.entry hash info hl).1
  have hcount := deletedDevices_erase hl hdev
  have hc : Consistent cfg S ds' (disk.remove (cfg.metadataFile hash)) := by
    refine ho.toConsistent.erase hS hdev hmap hT ?_
    have := ho.deleted
    omega
  exact ho.remove_others hS (hc.markDeviceIDFree fun h info' hl' => ho.ne_of_erase hl (hdev ▸ hl'))

/-- What a deletion of `hash` leaves. -/
structure Deletion (cfg : Config) (S : Scope) (hash : Hash) (disk₀ : Disk) (sync : Bool)
    (ds : DeviceSet) (r : Result Unit) (disk : Disk) : Prop where
  operating : Operating cfg S hash disk₀ r.2 disk
  gone : sync = true → r.1 = .ok () → r.2.devices.lookup hash = none
  kept : ∀ e, r.1 = .error e → r.2.devices = ds.devices

/-- The deferred `closeTransaction` of a deletion, whatever its result. -/
theorem during_closeAfter (hd : Deletion cfg S hash disk₀ sync ds₀ (res, ds) disk)
    (hle : ds.transactionID ≤ ds.transaction.openTransactionID) :
    (do let x ← closeTransaction ds; pure (res, x.2) : P (Result Unit)).During (env cfg)
      (Interrupted cfg S hash disk₀) (Deletion cfg S hash disk₀ sync ds₀) disk := by
  rw [during_bind]
  refine during_closeTransaction hd.operating hle fun b ds' disk' ho hdev => ?_
  have hdev : ds'.devices = ds.devices := hdev
  exact ⟨ho.toInterrupted, ho, hdev ▸ hd.gone, hdev ▸ hd.kept⟩

/-- The counter after the removal of a device. One that was marked as deleted has been counted, so
the counter is not zero. -/
theorem nrDeletedDevices_erase (hc : Consistent cfg S ds disk)
    (hl : ds.devices.lookup hash = some info)
    (hds' : (if info.deleted = true then decDeletedDevices
      { ds with devices := ds.devices.erase hash }
      else { ds with devices := ds.devices.erase hash }) = ds') :
    ds'.nrDeletedDevices + info.deleted.toNat = ds.nrDeletedDevices := by
  have hcount : deletedDevices { ds with devices := ds.devices.erase hash } + info.deleted.toNat =
      ds.deletedDevices := deletedDevices_erase hl rfl
  have hnr := hc.deleted
  rw [← hds']
  cases hdel : info.deleted with
  | false => rfl
  | true =>
    rw [hdel] at hcount
    simp only [decDeletedDevices, Bool.toNat_true, if_true] at hcount ⊢
    rw [if_neg (by omega)]
    omega

theorem during_deleteTransaction (ho : Operating cfg S hash disk₀ ds disk)
    (hl : ds.devices.lookup hash = some info) :
    (deleteTransaction cfg ds info sync).During (env cfg) (Interrupted cfg S hash disk₀)
      (Deletion cfg S hash disk₀ sync ds) disk := by
  obtain ⟨hS, hinfo⟩ := ho.entry hash info hl
  have hT : (ds.openFor info.hash info.deviceID).transactionID ≤
      (ds.openFor info.hash info.deviceID).transaction.openTransactionID := Nat.le_succ _
  generalize hds' : ds.openFor info.hash info.deviceID = ds' at hT
  have hdev : ds'.devices = ds.devices := hds' ▸ rfl
  have ht : ds'.transaction = ⟨ds.transactionID + 1, info.hash, info.deviceID⟩ := hds' ▸ rfl
  have hl' : ds'.devices.lookup hash = some info := hdev ▸ hl
  have ho' : Operating cfg S hash disk₀ ds'
      (disk.write cfg.transactionMetaFile (.transaction ds'.transaction)) := by
    have hc : Operating cfg S hash disk₀ ds' disk :=
      ho.congr hdev (hds' ▸ rfl) (hds' ▸ rfl) (hds' ▸ rfl)
    rw [ht]
    exact hc.writeTransaction (hinfo.symm ▸ hS) fun h info' hl'' he =>
      (hc.distinct hl'' hl' he).trans hinfo.symm
  unfold deleteTransaction
  rw [during_bind, during_openTransaction, hds']
  refine ⟨ho.toInterrupted, ho'.toInterrupted, ?_⟩
  rw [during_bind]
  refine during_deleteInPool ho'.toInterrupted fun r d hfiles hdT => ?_
  have hd := ho'.pool hfiles hdT
  refine ⟨hd.toInterrupted, ?_⟩
  have hbusy : ∀ r : DmResult, ((if (sync || !cfg.deferredDelete || r != .busy) = true then do
      let x ← closeTransaction ds'
      pure (Except.error (.devicemapper r), x.2)
    else do
      let ds ← markForDeferredDeletion cfg ds' info
      let x ← closeTransaction ds
      pure (Except.ok (), x.2)) : P (Result Unit)).During (env cfg) (Interrupted cfg S hash disk₀)
        (Deletion cfg S hash disk₀ sync ds) d := by
    intro r
    split
    · exact during_closeAfter ⟨hd, fun _ h => (by cases h), fun _ _ => hdev⟩ hT
    · next hb =>
      rw [during_bind]
      refine during_markForDeferredDeletion hd hl' fun ds₁ d₁ ho₁ hT₁ ht₁ => ?_
      refine during_closeAfter ⟨ho₁, fun hsync => ?_, fun _ h => (by cases h)⟩ (hT₁ ▸ ht₁ ▸ hT)
      simp [hsync] at hb
  cases r with
  | ok =>
    rw [during_bind, during_unregisterDevice, hinfo]
    generalize hds₁ : (if info.deleted = true then
      decDeletedDevices { ds' with devices := ds'.devices.erase hash }
      else { ds' with devices := ds'.devices.erase hash }) = ds₁
    have hdev₁ : ds₁.devices = ds'.devices.erase hash := by rw [← hds₁]; split <;> rfl
    have hT₁ : ds₁.transactionID = ds'.transactionID := by rw [← hds₁]; split <;> rfl
    have ht₁ : ds₁.transaction = ds'.transaction := by rw [← hds₁]; split <;> rfl
    have hmap₁ : ds₁.deviceIDMap = ds'.deviceIDMap := by rw [← hds₁]; split <;> rfl
    have ho₁ := hd.delete hl' hdev₁ hmap₁ hT₁ (nrDeletedDevices_erase hd.toConsistent hl' hds₁)
    have hT₂ : (ds₁.markDeviceIDFree info.deviceID).transactionID ≤
        (ds₁.markDeviceIDFree info.deviceID).transaction.openTransactionID := by
      change ds₁.transactionID ≤ ds₁.transaction.openTransactionID
      rw [hT₁, ht₁]
      exact hT
    refine ⟨hd.toInterrupted, ho₁.toInterrupted, ?_⟩
    refine during_closeAfter ⟨ho₁, fun _ _ => ?_, fun _ h => (by cases h)⟩ hT₂
    change ds₁.devices.lookup hash = none
    rw [hdev₁, lookup_erase]
  | deviceIDExists => exact hbusy .deviceIDExists
  | busy => exact hbusy .busy
  | failed done => exact hbusy (.failed done)

theorem during_deleteDevice (hS : S.mem hash) (ho : Operating cfg S hash disk₀ ds disk) :
    (deleteDevice cfg ds hash sync).During (env cfg) (Interrupted cfg S hash disk₀)
      (Deletion cfg S hash disk₀ sync ds) disk := by
  unfold deleteDevice
  refine ho.lookup hS ?_
  cases hl : ds.devices.lookup hash with
  | none => exact ⟨ho.toInterrupted, ho, fun _ h => (by cases h), fun _ _ => rfl⟩
  | some info =>
    have hdeactivate : (do
        if ← onDevice .deactivate info.hash then deleteTransaction cfg ds info sync
        else pure (.error (.deviceOp .deactivate), ds) : P (Result Unit)).During (env cfg)
          (Interrupted cfg S hash disk₀) (Deletion cfg S hash disk₀ sync ds) disk := by
      refine leaves_onDevice.andThen ho.toInterrupted fun b => ?_
      split
      · exact during_deleteTransaction ho hl
      · exact ⟨ho.toInterrupted, ho, fun _ h => (by cases h), fun _ _ => rfl⟩
    dsimp only
    split
    · exact leaves_onDevice.andThen ho.toInterrupted fun _ => hdeactivate
    · exact hdeactivate

theorem during_deleteDevice_of_notMem (hc : Consistent cfg S ds disk) (hS : S.mem hash)
    (hl : ds.devices.lookup hash = none) (hI : I disk) :
    (deleteDevice cfg ds hash sync).During (env cfg) I (fun r d => r.2 = ds ∧ d = disk) disk := by
  unfold deleteDevice
  rw [during_bind]
  refine during_lookupDevice hc hS hI ?_
  rw [hl]
  exact ⟨hI, rfl, rfl⟩

/-! ## The operations -/

section Parts
variable (cfg : Config)

/-- `AddDevice` once it has the locks, up to the growing of the file system: whether it has to
grow. -/
def addLocked (ds : DeviceSet) (hash : Hash) (baseInfo : DevInfo) (storageOpt : StorageOpt) :
    P (Result Bool) :=
  do
  match ← lookupDevice cfg ds hash with
  | (some info, ds) => return (.error (.deviceExists hash info.deleted), ds)
  | (none, ds) =>
    match parseStorageOpt storageOpt with
    | .error e => return (.error e, ds)
    | .ok size =>
      let size := if size = 0 then baseInfo.size else size
      if size < baseInfo.size then return (.error (.containerTooSmall baseInfo.size), ds)
      else
        match ← createRegisterSnapDevice cfg ds hash baseInfo size with
        | (.error e, ds) => return (.error e, ds)
        | (.ok _, ds) => return (.ok (decide (size > baseInfo.size)), ds)

def addGrow (hash : Hash) : Result Bool → P (Result Unit)
  | (.error e, ds) => return (.error e, ds)
  | (.ok false, ds) => return (.ok (), ds)
  | (.ok true, ds) => do
    match ← lookupDevice cfg ds hash with
    | (none, ds) => return (.error (.unknownDevice hash), ds)
    | (some info, ds) =>
      match ← growFS ds info with
      | some e => return (.error e, ds)
      | none => return (.ok (), ds)

theorem addDevice_eq (ds : DeviceSet) (hash baseHash : Hash) (storageOpt : StorageOpt) :
    addDevice cfg ds hash baseHash storageOpt = (do
      match ← lookupDevice cfg ds baseHash with
      | (none, ds) => return (.error (.unknownDevice baseHash), ds)
      | (some baseInfo, ds) =>
        if baseInfo.deleted then return (.error (.baseDeleted baseHash), ds)
        else
          let r ← addLocked cfg ds hash baseInfo storageOpt
          addGrow cfg hash r) := by
  refine congrArg (lookupDevice cfg ds baseHash >>= ·) (funext fun r => ?_)
  obtain ⟨baseInfo, ds⟩ := r
  cases baseInfo with
  | none => rfl
  | some baseInfo =>
    dsimp only
    split
    · rfl
    · unfold addLocked
      rw [Prog.bind_bind]
      refine congrArg (lookupDevice cfg ds hash >>= ·) (funext fun r => ?_)
      obtain ⟨info, ds⟩ := r
      cases info with
      | some info => rfl
      | none =>
        cases parseStorageOpt storageOpt with
        | error e => rfl
        | ok size =>
          dsimp only
          generalize (if size = 0 then baseInfo.size else size) = size
          by_cases hlt : size < baseInfo.size
          · rw [if_pos hlt, if_pos hlt]
            rfl
          · rw [if_neg hlt, if_neg hlt, Prog.bind_bind]
            refine congrArg (createRegisterSnapDevice cfg ds hash baseInfo size >>= ·)
              (funext fun r => ?_)
            obtain ⟨res, ds⟩ := r
            cases res with
            | error e => rfl
            | ok info =>
              by_cases hsize : size > baseInfo.size
              · simp only [if_pos hsize, decide_eq_true hsize]
                rfl
              · simp only [if_neg hsize, decide_eq_false hsize]
                rfl

end Parts

theorem during_addLocked_of_mem (hc : Consistent cfg S ds disk) (hS : S.mem hash)
    (hl : ds.devices.lookup hash = some info) (hI : I disk) :
    (addLocked cfg ds hash baseInfo opt).During (env cfg) I
      (fun r d => r = (.error (.deviceExists hash info.deleted), ds) ∧ d = disk) disk := by
  unfold addLocked
  rw [during_bind]
  refine during_lookupDevice hc hS hI ?_
  rw [hl]
  exact ⟨hI, rfl, rfl⟩

theorem during_addDevice_of_mem (hc : Consistent cfg S ds disk) (hS : S.mem hash)
    (hb : S.mem baseHash) (hl : ds.devices.lookup hash = some info) (hI : I disk) :
    (addDevice cfg ds hash baseHash opt).During (env cfg) I
    (fun r d => r.2 = ds ∧ d = disk) disk := by
  rw [addDevice_eq, during_bind]
  refine during_lookupDevice hc hb hI ?_
  cases ds.devices.lookup baseHash with
  | none => exact ⟨hI, rfl, rfl⟩
  | some baseInfo =>
    dsimp only
    split
    · exact ⟨hI, rfl, rfl⟩
    · rw [during_bind]
      refine (during_addLocked_of_mem hc hS hl hI).mono ?_
      rintro r d - ⟨rfl, rfl⟩
      exact ⟨hI, rfl, rfl⟩

theorem during_createRegisterSnapDevice (hS : S.mem hash) (ho : Operating cfg S hash disk₀ ds disk)
    (hnew : ds.devices.lookup hash = none) :
    Operates cfg S hash disk₀ (createRegisterSnapDevice cfg ds hash baseInfo size) disk fun r =>
      ∀ info, r.1 = .ok info → r.2.devices.lookup hash = some info := by
  refine leaves_poolHasFreeSpace.andThen ho.toInterrupted fun e => ?_
  cases e with
  | some e => exact ⟨ho.toInterrupted, ho, fun _ h => by cases h⟩
  | none => exact during_createRegister hS ho hnew

theorem during_addLocked (hS : S.mem hash) (ho : Operating cfg S hash disk₀ ds disk) :
    Operates cfg S hash disk₀ (addLocked cfg ds hash baseInfo opt) disk := by
  unfold addLocked
  refine ho.lookup hS ?_
  cases hl : ds.devices.lookup hash with
  | some info => exact ho.done trivial
  | none =>
    dsimp only
    split
    · exact ho.done trivial
    · next size _ =>
      generalize (if size = 0 then baseInfo.size else size) = size
      split
      · exact ho.done trivial
      · refine (during_createRegisterSnapDevice hS ho hl).andThen fun r d _ ⟨ho, _⟩ => ?_
        obtain ⟨res, ds⟩ := r
        cases res with
        | error e | ok info => exact ho.done trivial

theorem during_addGrow (hS : S.mem hash) (ho : Operating cfg S hash disk₀ r.2 disk) :
    Operates cfg S hash disk₀ (addGrow cfg hash r) disk := by
  obtain ⟨res, ds⟩ := r
  cases res with
  | error e => exact ho.done trivial
  | ok grow =>
    cases grow with
    | false => exact ho.done trivial
    | true =>
      unfold addGrow
      refine ho.lookup hS ?_
      cases AList.lookup hash ds.devices with
      | none => exact ho.done trivial
      | some info =>
        refine leaves_growFS.andThen ho.toInterrupted fun e => ?_
        cases e with
        | some e | none => exact ho.done trivial

theorem during_addDevice (hS : S.mem hash) (hb : S.mem baseHash)
    (ho : Operating cfg S hash disk₀ ds disk) :
    Operates cfg S hash disk₀ (addDevice cfg ds hash baseHash opt) disk := by
  rw [addDevice_eq]
  refine ho.lookup hb ?_
  cases ds.devices.lookup baseHash with
  | none => exact ho.done trivial
  | some baseInfo =>
    dsimp only
    split
    · exact ho.done trivial
    · exact (during_addLocked hS ho).andThen fun r d _ ho => during_addGrow hS ho.1

theorem during_createFilesystem (ho : Operating cfg S hash disk₀ ds disk) :
    Operates cfg S hash disk₀ (createFilesystem cfg ds info) disk fun r =>
      r.2.devices = ds.devices := by
  have hmkfs : ∀ fs, (do
      let ds ← saveBaseDeviceFilesystem cfg { ds with filesystem := fs } fs
      if fs = "xfs".toList ∨ fs = "ext4".toList then
        if ← onDevice .mkfs info.hash then return (.ok (), ds)
        else return (.error (.deviceOp .mkfs), ds)
      else return (.error (.filesystem fs), ds) : P (Result Unit)).During (env cfg)
        (Interrupted cfg S hash disk₀)
        (fun r d => Operating cfg S hash disk₀ r.2 d ∧ r.2.devices = ds.devices) disk := by
    intro fs
    have ho' : Operating cfg S hash disk₀ { ds with filesystem := fs, baseDeviceFilesystem := fs }
        (disk.write cfg.deviceSetMetaFile (.deviceSet ⟨ds.nextDeviceID, ds.baseDeviceUUID, fs⟩)) :=
      (ho.writeDeviceSet _).congr rfl rfl rfl rfl
    rw [during_bind, during_saveBaseDeviceFilesystem]
    refine ⟨ho.toInterrupted, ho'.toInterrupted, ?_⟩
    split
    · refine leaves_onDevice.andThen ho'.toInterrupted fun b => ?_
      split
      · exact ho'.done rfl
      · exact ho'.done rfl
    · exact ho'.done rfl
  unfold createFilesystem
  split
  · exact leaves_determineDefaultFS.andThen ho.toInterrupted fun fs => hmkfs fs
  · exact hmkfs ds.filesystem

/-- The deferred `deactivateDevice` of the functions that ask for the uuid of the base device. -/
theorem Operating.deactivate (ho : Operating cfg S hash disk₀ ds disk) (hQ : Q (res, ds)) :
    Operates cfg S hash disk₀ (onDevice .deactivate h >>= fun _ => pure (res, ds)) disk Q :=
  leaves_onDevice.andThen ho.toInterrupted fun _ => ho.done hQ

theorem during_saveBaseDeviceUUID (ho : Operating cfg S hash disk₀ ds disk) :
    Operates cfg S hash disk₀ (saveBaseDeviceUUID cfg ds info) disk fun r =>
      r.2.devices = ds.devices := by
  refine leaves_activateDeviceIfNeeded.andThen ho.toInterrupted fun e => ?_
  cases e with
  | some e => exact ho.done rfl
  | none =>
    refine leaves_getDeviceUUID.andThen ho.toInterrupted fun uuid => ?_
    cases uuid with
    | none => exact ho.deactivate rfl
    | some uuid =>
      have ho' : Operating cfg S hash disk₀ { ds with baseDeviceUUID := uuid }
          (disk.write cfg.deviceSetMetaFile
            (.deviceSet ⟨ds.nextDeviceID, uuid, ds.baseDeviceFilesystem⟩)) :=
        (ho.writeDeviceSet _).congr rfl rfl rfl rfl
      rw [during_bind, saveDeviceSetMetaData, during_writeFile]
      exact ⟨ho.toInterrupted, ho'.toInterrupted, ho'.deactivate rfl⟩

theorem during_verifyBaseDeviceUUIDFS (ho : Operating cfg S hash disk₀ ds disk) :
    Operates cfg S hash disk₀ (verifyBaseDeviceUUIDFS cfg ds info) disk fun r =>
      r.2.devices = ds.devices := by
  refine leaves_activateDeviceIfNeeded.andThen ho.toInterrupted fun e => ?_
  cases e with
  | some e => exact ho.done rfl
  | none =>
    refine leaves_getDeviceUUID.andThen ho.toInterrupted fun uuid => ?_
    cases uuid with
    | none => exact ho.deactivate rfl
    | some uuid =>
      dsimp only
      split
      · exact ho.deactivate rfl
      · split
        · refine leaves_probeFsType.andThen ho.toInterrupted fun fs => ?_
          cases fs with
          | none => exact ho.deactivate rfl
          | some fs =>
            have ho' : Operating cfg S hash disk₀
              { ds with baseDeviceFilesystem := fs, filesystem := fs }
                (disk.write cfg.deviceSetMetaFile
                  (.deviceSet ⟨ds.nextDeviceID, ds.baseDeviceUUID, fs⟩)) :=
              (ho.writeDeviceSet _).congr rfl rfl rfl rfl
            rw [during_bind, during_saveBaseDeviceFilesystem]
            exact ⟨ho.toInterrupted, ho'.toInterrupted, ho'.deactivate rfl⟩
        · have ho' : Operating cfg S hash disk₀
              { ds with filesystem := ds.baseDeviceFilesystem } disk :=
            ho.congr rfl rfl rfl rfl
          exact ho'.deactivate rfl

theorem Operating.touch (i' : DevInfo) (ho : Operating cfg S hash disk₀ ds disk)
    (hl : ds.devices.lookup hash = some i) (hh : i'.hash = i.hash) (hid : i'.deviceID = i.deviceID)
    (hd : i'.deleted = i.deleted) :
    Operating cfg S hash disk₀ { ds with devices := ds.devices.insert i'.hash i' }
      (disk.write (cfg.metadataFile i'.hash) (.device i'.toDevMeta)) :=
  ho.update i' { ds with devices := ds.devices.insert i'.hash i' } hl hh hid
    rfl rfl rfl (by rw [hd])

theorem during_checkGrowBaseDeviceFS (ho : Operating cfg S hash disk₀ ds disk)
    (hl : ds.devices.lookup hash = some info) :
    Operates cfg S hash disk₀ (checkGrowBaseDeviceFS cfg ds info) disk := by
  unfold Operates checkGrowBaseDeviceFS
  split
  · exact ho.done trivial
  · split
    · exact ho.done trivial
    · split
      · exact ho.done trivial
      · have ho' := ho.touch { info with size := cfg.baseFsSize } hl rfl rfl rfl
        rw [during_bind, during_updateDevice]
        refine ⟨ho.toInterrupted, ho'.toInterrupted, ?_⟩
        refine leaves_growFS.andThen ho'.toInterrupted fun e => ?_
        cases e with
        | some e | none => exact ho'.done trivial

theorem during_createBaseImage (hS : S.mem []) (ho : Operating cfg S [] disk₀ ds disk)
    (hnew : ds.devices.lookup [] = none) :
    Operates cfg S [] disk₀ (createBaseImage cfg ds) disk := by
  refine (during_createRegister hS ho hnew).andThen fun r d _ ⟨ho, hinfo⟩ => ?_
  obtain ⟨r, ds⟩ := r
  cases r with
  | error e => exact ho.done trivial
  | ok info =>
    have hl : ds.devices.lookup [] = some info := hinfo info rfl
    refine leaves_activateDeviceIfNeeded.andThen ho.toInterrupted fun e => ?_
    cases e with
    | some e => exact ho.done trivial
    | none =>
      refine (during_createFilesystem ho).andThen fun r d _ ⟨ho, hdev⟩ => ?_
      obtain ⟨r, ds'⟩ := r
      cases r with
      | error e => exact ho.done trivial
      | ok _ =>
        have hl' : ds'.devices.lookup [] = some info := (congrArg (AList.lookup []) hdev).trans hl
        have ho' := ho.touch { info with initialized := true } hl' rfl rfl rfl
        rw [during_bind, during_updateDevice]
        refine ⟨ho.toInterrupted, ho'.toInterrupted, ?_⟩
        exact (during_saveBaseDeviceUUID ho').mono fun _ _ _ h => ⟨h.1, trivial⟩

theorem during_setupBaseImage (hS : S.mem []) (ho : Operating cfg S [] disk₀ ds disk) :
    Operates cfg S [] disk₀ (setupBaseImage cfg ds) disk := by
  unfold setupBaseImage
  refine ho.lookup hS ?_
  cases hl : ds.devices.lookup [] with
  | none =>
    dsimp only
    split
    · refine leaves_checkThinPool.andThen ho.toInterrupted fun e => ?_
      cases e with
      | some e => exact ho.done trivial
      | none => exact during_createBaseImage hS ho hl
    · exact during_createBaseImage hS ho hl
  | some oldInfo =>
    dsimp only
    split
    · have hverify : Operates cfg S [] disk₀ (setupVerifyBaseImageUUIDFS cfg ds oldInfo) disk
          fun r => r.2.devices = ds.devices := by
        unfold setupVerifyBaseImageUUIDFS
        split
        · exact during_saveBaseDeviceUUID ho
        · exact during_verifyBaseDeviceUUIDFS ho
      refine hverify.andThen fun r d _ ⟨ho, hdev⟩ => ?_
      obtain ⟨r, ds'⟩ := r
      cases r with
      | error e => exact ho.done trivial
      | ok _ => exact during_checkGrowBaseDeviceFS ho (hdev.symm ▸ hl)
    · refine (during_deleteDevice hS ho).andThen fun r d _ ⟨ho, hnew, _⟩ => ?_
      obtain ⟨r, ds'⟩ := r
      cases r with
      | error e => exact ho.done trivial
      | ok _ => exact during_createBaseImage hS ho (hnew rfl rfl)

end Specs

end Docker.Devmapper
