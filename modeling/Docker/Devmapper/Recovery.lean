import Docker.Devmapper.Runs

/-!
# Recovery after a crash

An operation is stopped between two steps, and the driver starts again with `initMetaData`, which
loads the metadata files before it looks at the transaction file. A transaction that is still open
is rolled back on the disk and in the bitmap, but the device that was loaded for it stays in
`devices.Devices`.
-/

namespace Docker.Devmapper

open Filepath Prog Config List Option AList

/-- The hash has a metadata file of its own, and one that is not passed over when the set is
loaded. -/
def Visible (h : Hash) : Prop := Named h ∧ skipped (fileName h) = false

def visible : Scope := ⟨Visible, fun _ h => h.1, True⟩

section Definitions
variable (cfg : Config)

def registered (disk : Disk) : Set Hash := { h | Visible h ∧ cfg.metadataFile h ∈ disk.files }

/-- A transaction is open and its device has a metadata file. -/
def Pending (disk : Disk) : Prop :=
  ∃ t, disk.files.lookup cfg.transactionMetaFile = some (.transaction t) ∧
    disk.transactionID < t.openTransactionID ∧ cfg.metadataFile t.deviceIDHash ∈ disk.files

/-- The sets of devices before and after the operation. `setupBaseImage` may delete a base device
and then create one. -/
def Op.outcomes (before : Set Hash) : Op → Set (Set Hash)
  | addDevice hash _ _ => {before, insert hash before}
  | deleteDevice hash _ => {before, before \ {hash}}
  | setupBaseImage => {before, before \ {[]}, insert [] before}

/-- The devices in memory and on disk are one of these sets, and their ids are distinct and
marked. -/
def Recovered (sets : Set (Set Hash)) (ds : DeviceSet) (disk : Disk) : Prop :=
  ∃ R ∈ sets, { h | h ∈ ds.devices } = R ∧ registered cfg disk = R ∧
    (∀ h h' info info', ds.devices.lookup h = some info → ds.devices.lookup h' = some info' →
      info.deviceID = info'.deviceID → h = h') ∧
    ∀ h info, ds.devices.lookup h = some info → isDeviceIDFree ds.deviceIDMap info.deviceID = false

def Loaded (ds : DeviceSet) (disk : Disk) : Prop :=
  ∀ h info, ds.devices.lookup h = some info → Visible h ∧ info.hash = h ∧
    disk.Has cfg h info.toDevMeta

end Definitions

variable {cfg : Config} {ds ds' : DeviceSet} {disk disk' : Disk} {h hash : Hash}

/-! ## Loading the metadata files -/

theorem base_metadataFile (hn : Named h) : base (cfg.metadataFile h) = fileName h := by
  rw [metadataFile, join_metadataDir hn.isName, base_print isName_of_mem_dir hn.isName]

theorem inside_metadataFile (hn : Named h) :
    inside cfg.metadataDir (cfg.metadataFile h) = true := by
  rw [metadataFile, join_metadataDir hn.isName, metadataDir_eq,
    inside_print Config.isName_of_mem_dir (forall_mem_concat Config.isName_of_mem_dir hn.isName)
      (by simp [Config.dir])]
  exact prefix_append _ _

theorem hash_of_fileName (hn : Named h) :
    (if fileName h = baseFile then [] else fileName h) = h := by
  rcases hn with rfl | ⟨hn, hb, -⟩
  · rfl
  · rw [fileName_of_ne hn.ne_nil, if_neg hb]

section
variable (hd : disk.Ok cfg visible)
include hd

theorem during_load (hl : Loaded cfg ds disk) (hv : Visible h)
    (hp : cfg.metadataFile h ∈ disk.files) {Q : Option DevInfo × DeviceSet → Disk → Prop}
    (hQ : ∀ info map, Loaded cfg { ds with devices := map } disk → (∀ h, h ∈ ds.devices → h ∈ map) →
      h ∈ map → Q (some info, { ds with devices := map }) disk) :
    (lookupDevice cfg ds h).During (env cfg) (fun _ => True) Q disk := by
  unfold lookupDevice
  cases hlook : ds.devices.lookup h with
  | some info =>
    exact ⟨trivial, hQ info ds.devices hl (fun _ hm => hm) (lookup_isSome.1 (by rw [hlook]; rfl))⟩
  | none =>
    obtain ⟨c, hc⟩ := isSome_iff_exists.1 (lookup_isSome.2 hp)
    obtain ⟨m, rfl⟩ := hd.device h c hv hc
    have hle : ¬m.deviceID > maxDeviceID := Nat.not_lt.2 (hd.bounded h m hv hc)
    simp only [loadMetadata, during_bind, during_readFile, hc, bind_some,
      MetaFile.toDevMeta, if_neg hle]
    refine ⟨trivial, trivial, trivial, hQ _ _ ?_ (fun h' hm => (mem_insert _).2 (.inr hm))
      ((mem_insert _).2 (.inl rfl))⟩
    intro h' info' hl'
    by_cases he : h' = h
    · subst he
      rw [lookup_insert, some_inj] at hl'
      subst hl'
      exact ⟨hv, rfl, hc⟩
    · rw [lookup_insert_ne he] at hl'
      exact hl h' info' hl'

theorem visible_of_not_skipped (hp : p ∈ disk.files) (hs : ¬skipped (base p) = true) :
    ∃ h, Visible h ∧ p = cfg.metadataFile h := by
  rcases hd.path trivial p hp with hv | rfl | rfl
  · exact hv
  · rw [Config.transactionMetaFile, join_metadataDir isName_transactionMetaFile,
      base_print isName_of_mem_dir isName_transactionMetaFile] at hs
    exact absurd (by decide) hs
  · rw [Config.deviceSetMetaFile, join_metadataDir isName_deviceSetMetaFile,
      base_print isName_of_mem_dir isName_deviceSetMetaFile] at hs
    exact absurd (by decide) hs

theorem during_deviceFileWalkFunction (hl : Loaded cfg ds disk) {p : Str} (hp : p ∈ disk.files)
    (hQ : ∀ map, Loaded cfg { ds with devices := map } disk → (∀ h, h ∈ ds.devices → h ∈ map) →
      (∀ h, Visible h → p = cfg.metadataFile h → h ∈ map) →
      Q (.ok (), { ds with devices := map }) disk) :
    (deviceFileWalkFunction cfg ds p).During (env cfg) (fun _ => True) Q disk := by
  unfold deviceFileWalkFunction
  dsimp only
  split
  · next hs =>
    refine ⟨trivial, hQ ds.devices hl (fun _ hm => hm) fun h hv he => ?_⟩
    -- a file that is skipped is not the metadata file of a visible hash
    rw [he, base_metadataFile hv.1, hv.2] at hs
    cases hs
  · next hs =>
    obtain ⟨h, hv, rfl⟩ := visible_of_not_skipped hd hp hs
    rw [base_metadataFile hv.1, hash_of_fileName hv.1, during_bind]
    refine during_load hd hl hv hp fun info map hl' hsub hmem => ?_
    exact ⟨trivial, hQ map hl' hsub fun h' hv' he => metadataFile_inj hv.1 hv'.1 he ▸ hmem⟩

theorem during_loadFiles (hl : Loaded cfg ds disk) (hp : ∀ p ∈ paths, p ∈ disk.files)
    (hQ : ∀ map, Loaded cfg { ds with devices := map } disk → (∀ h, h ∈ ds.devices → h ∈ map) →
      (∀ h, Visible h → cfg.metadataFile h ∈ paths → h ∈ map) →
      Q (.ok (), { ds with devices := map }) disk) :
    (loadFiles cfg paths ds).During (env cfg) (fun _ => True) Q disk := by
  induction paths generalizing ds with
  | nil => exact ⟨trivial, hQ ds.devices hl (fun _ hm => hm) fun h _ hm => by cases hm⟩
  | cons p paths ih =>
    unfold loadFiles
    rw [during_bind]
    refine during_deviceFileWalkFunction hd hl (hp p mem_cons_self) fun map hl' hsub hmem => ?_
    refine ih hl' (fun q hq => hp q (mem_cons_of_mem _ hq)) fun map' hl'' hsub' hmem' => ?_
    refine hQ map' hl'' (fun h hm => hsub' h (hsub h hm)) fun h hv hm => ?_
    rcases mem_cons.1 hm with he | hm
    · exact hsub' h (hmem h hv he.symm)
    · exact hmem' h hv hm

theorem during_loadDeviceFilesOnStart (hl : Loaded cfg ds disk)
    (hQ : ∀ map, Loaded cfg { ds with devices := map } disk →
      (∀ h, Visible h → cfg.metadataFile h ∈ disk.files → h ∈ map) →
      Q (.ok (), { ds with devices := map }) disk) :
    (loadDeviceFilesOnStart cfg ds).During (env cfg) (fun _ => True) Q disk := by
  unfold loadDeviceFilesOnStart
  rw [during_bind]
  refine ⟨trivial, fun paths hpaths => ⟨trivial, ?_⟩⟩
  refine during_loadFiles hd hl (fun p hp => ((hpaths p).1 hp).1) fun map hl' _ hmem => ?_
  exact hQ map hl' fun h hv hm => hmem h hv ((hpaths _).2 ⟨hm, inside_metadataFile hv.1⟩)

end

/-! ## The bitmap and the counter -/

theorem foldl_markDeviceIDUsed (l : List (Sigma fun _ : Hash => DevInfo)) (ds : DeviceSet) :
    ∃ map, l.foldl (fun ds e => ds.markDeviceIDUsed e.2.deviceID) ds =
      { ds with deviceIDMap := map } ∧
      ∀ i, isDeviceIDFree map i = (isDeviceIDFree ds.deviceIDMap i && l.all fun e =>
        e.2.deviceID != i) := by
  induction l generalizing ds with
  | nil => exact ⟨ds.deviceIDMap, rfl, fun i => by simp⟩
  | cons e l ih =>
    obtain ⟨map, he, hmap⟩ := ih (ds.markDeviceIDUsed e.2.deviceID)
    refine ⟨map, he, fun i => ?_⟩
    rw [hmap, DeviceSet.markDeviceIDUsed, isDeviceIDFree_markDeviceIDUsed, all_cons, Bool.and_assoc]

theorem constructDeviceIDMap_eq (ds : DeviceSet) :
    ∃ map, ds.constructDeviceIDMap = { ds with deviceIDMap := map } ∧
    ∀ h info, ds.devices.lookup h = some info → isDeviceIDFree map info.deviceID = false := by
  obtain ⟨map, he, hmap⟩ := foldl_markDeviceIDUsed ds.devices.entries ds
  refine ⟨map, he, fun h info hl => ?_⟩
  have hm : ⟨h, info⟩ ∈ ds.devices.entries := AList.mem_lookup_iff.1 hl
  rw [hmap, Bool.and_eq_false_iff, List.all_eq_false]
  exact .inr ⟨_, hm, by simp⟩

/-- Before the transaction file is looked at, the set is consistent. -/
theorem consistent_of_loaded (hd : disk.Ok cfg visible) (hl : Loaded cfg ds disk)
    (hall : ∀ h, Visible h → cfg.metadataFile h ∈ disk.files → h ∈ ds.devices)
    (hnr : ds.nrDeletedDevices = 0) (hT : ds.transactionID = disk.transactionID) :
    Consistent cfg visible ds.constructDeviceIDMap.countDeletedDevices disk := by
  obtain ⟨map, he, hmap⟩ := constructDeviceIDMap_eq ds
  rw [he]
  refine ⟨hd, fun h hv => ?_, fun h info hlook => ⟨(hl h info hlook).1, (hl h info hlook).2.1⟩,
    hmap, ?_, fun _ => hT⟩
  · change _ = (ds.devices.lookup h).map _
    cases hlook : ds.devices.lookup h with
    | some info => exact (hl h info hlook).2.2
    | none =>
      rw [map_none, lookup_eq_none]
      exact fun hm => lookup_eq_none.1 hlook (hall h hv hm)
  · change ds.nrDeletedDevices + _ = _
    rw [hnr, Nat.zero_add]
    rfl

/-! ## The open transaction -/

section
variable (hc : Consistent cfg visible ds disk)
include hc

theorem mem_files_iff (hv : Visible h) : cfg.metadataFile h ∈ disk.files ↔ h ∈ ds.devices := by
  rw [← lookup_isSome, ← lookup_isSome, hc.file h hv, isSome_map]

theorem registered_eq : { h | h ∈ ds.devices } = registered cfg disk := by
  ext h
  constructor
  · intro hm
    obtain ⟨info, hl⟩ := isSome_iff_exists.1 (lookup_isSome.2 hm)
    have hv : Visible h := (hc.entry h info hl).1
    exact ⟨hv, (mem_files_iff hc hv).2 hm⟩
  · rintro ⟨hv, hm⟩
    exact (mem_files_iff hc hv).1 hm

/-- The roll-back removes nothing for a device that is not registered, and otherwise the metadata
file, but not the entry. -/
theorem during_rollbackTransaction (hown : disk.Owns cfg visible ds.transaction) :
    (rollbackTransaction cfg ds).During (env cfg) (fun _ => True) (fun ds' disk' =>
      (ds.transaction.deviceIDHash ∉ ds.devices →
        Consistent cfg visible ds' disk' ∧ registered cfg disk' = registered cfg disk) ∧
      ds'.devices = ds.devices ∧ ds.transaction.deviceIDHash ∉ registered cfg disk') disk := by
  obtain ⟨hv, hother⟩ := hown
  unfold rollbackTransaction removeMetadata
  rw [during_bind]
  refine during_deleteInPool trivial fun r d hfiles hT => ⟨trivial, ?_⟩
  have hd := hc.pool hfiles hT
  simp only [during_bind, during_removeFile]
  refine ⟨trivial, trivial, trivial, trivial, trivial, fun hnew => ?_, rfl, fun hm => ?_⟩
  · have hnone : d.files.lookup (cfg.metadataFile ds.transaction.deviceIDHash) = none := by
      rw [hd.file _ hv, lookup_eq_none.2 hnew, map_none]
    have hfile : ∀ h, Visible h → ((d.remove (cfg.metadataFile ds.transaction.deviceIDHash)).remove
        cfg.transactionMetaFile).files.lookup (cfg.metadataFile h) =
          d.files.lookup (cfg.metadataFile h) := by
      intro h hvh
      rw [Disk.files_remove, lookup_erase_ne (metadataFile_ne_transaction hvh.1), Disk.files_remove]
      by_cases he : h = ds.transaction.deviceIDHash
      · rw [he, lookup_erase, hnone]
      · exact lookup_erase_ne fun hp => he (metadataFile_inj hvh.1 hv.1 hp)
    have hc' : Consistent cfg visible ds
        ((d.remove (cfg.metadataFile ds.transaction.deviceIDHash)).remove
        cfg.transactionMetaFile) := by
      refine hd.files hfile (fun _ p hp => .inl ?_) (fun _ c hl => ?_) rfl
      · exact (mem_erase.1 (mem_erase.1 hp).2).2
      · rw [Disk.files_remove, lookup_erase] at hl
        cases hl
    refine ⟨hc'.markDeviceIDFree fun h info hl hid => ?_, ?_⟩
    · -- no device other than that of the transaction has its id
      have he := hother h _ (hc.entry h info hl).1 (hc.has hl) hid
      rw [← he, ← lookup_eq_none, hl] at hnew
      cases hnew
    · rw [← registered_eq hc, ← registered_eq hc']
  · have := hm.2
    rw [Disk.files_remove, mem_erase, Disk.files_remove, mem_erase] at this
    exact this.2.1 rfl

/-- A consistent set with the same devices is left, or, where a transaction was pending, a device in
memory that is not on disk. -/
theorem during_processPendingTransaction :
    (processPendingTransaction cfg ds).During (env cfg) (fun _ => True) (fun ds' disk' =>
      (¬Pending cfg disk → Consistent cfg visible ds' disk' ∧
        registered cfg disk' = registered cfg disk) ∧
      (Pending cfg disk → ∃ h, h ∈ ds'.devices ∧ h ∉ registered cfg disk')) disk := by
  have hT := hc.transactionID trivial
  unfold processPendingTransaction loadTransactionMetaData
  simp only [during_bind, during_readFile]
  refine ⟨trivial, ?_⟩
  cases hl : disk.files.lookup cfg.transactionMetaFile with
  | none =>
    have hnp : ¬Pending cfg disk := by
      rintro ⟨t, ht, -⟩
      cases hl.symm.trans ht
    refine ⟨trivial, ?_⟩
    dsimp only
    rw [if_pos rfl]
    exact ⟨trivial, fun _ => ⟨hc.congr rfl (fun _ hi => hi) rfl rfl, rfl⟩, fun hp => absurd hp hnp⟩
  | some c =>
    obtain ⟨t, rfl, hown⟩ := hc.ok.transaction trivial c hl
    have hc' : Consistent cfg visible { ds with transaction := t } disk :=
      hc.congr rfl (fun _ hi => hi) rfl rfl
    have hpend : Pending cfg disk ↔ disk.transactionID < t.openTransactionID ∧
        t.deviceIDHash ∈ ds.devices := by
      constructor
      · rintro ⟨t', ht', hlt, hm⟩
        cases hl.symm.trans ht'
        exact ⟨hlt, (mem_files_iff hc (hown hlt).1).1 hm⟩
      · rintro ⟨hlt, hm⟩
        exact ⟨t, hl, hlt, (mem_files_iff hc (hown hlt).1).2 hm⟩
    refine ⟨trivial, ?_⟩
    have hdone : ¬disk.transactionID < t.openTransactionID →
        (¬Pending cfg disk → Consistent cfg visible { ds with transaction := t } disk ∧
          registered cfg disk = registered cfg disk) ∧
        (Pending cfg disk → ∃ h, h ∈ ds.devices ∧ h ∉ registered cfg disk) :=
      fun hge => ⟨fun _ => ⟨hc', rfl⟩, fun hp => absurd (hpend.1 hp).1 hge⟩
    change During _ _ _ (if ds.transactionID = t.openTransactionID then _ else _) _
    split
    · exact ⟨trivial, hdone (by omega)⟩
    · change During _ _ _ (if t.openTransactionID < ds.transactionID then _ else _) _
      split
      · exact ⟨trivial, hdone (by omega)⟩
      · have hlt : disk.transactionID < t.openTransactionID := by omega
        refine (during_rollbackTransaction hc' (hown hlt)).andThen fun ds' disk' _ H => ?_
        obtain ⟨hnew, hdev, hnot⟩ := H
        refine ⟨trivial, fun hnp => ?_, fun hp => ⟨t.deviceIDHash, ?_, hnot⟩⟩
        · obtain ⟨hc'', hreg⟩ := hnew fun hm => hnp (hpend.2 ⟨hlt, hm⟩)
          exact ⟨hc''.congr rfl (fun _ hi => hi) rfl rfl, hreg⟩
        · rw [hdev]
          exact (hpend.1 hp).2

end

/-! ## The theorem -/

theorem during_initMetaData (hd : disk.Ok cfg visible) (fs : Str) :
    (initMetaData cfg { filesystem := fs }).During (env cfg) (fun _ => True) (fun r disk' =>
      r.1 ≠ .error .poolStatus → r.1 = .ok () ∧
        (¬Pending cfg disk → Consistent cfg visible r.2 disk' ∧
          registered cfg disk' = registered cfg disk) ∧
        (Pending cfg disk → ∃ h, h ∈ r.2.devices ∧ h ∉ registered cfg disk')) disk := by
  unfold initMetaData
  rw [during_bind]
  refine during_status trivial fun r hr => ?_
  cases r with
  | none => exact ⟨trivial, fun h => absurd rfl h⟩
  | some st =>
    rw [during_bind]
    refine during_loadDeviceFilesOnStart hd (fun h info hl => by cases hl) fun map hl hall => ?_
    have hc := consistent_of_loaded hd hl hall rfl (hr st rfl)
    exact (during_processPendingTransaction hc).andThen fun ds' disk' _ h =>
      ⟨trivial, fun _ => ⟨rfl, h⟩⟩

theorem registered_of_interrupted (hi : Interrupted cfg visible hash disk disk') (hne : h ≠ hash) :
    h ∈ registered cfg disk' ↔ h ∈ registered cfg disk := by
  refine and_congr_right fun hv => ?_
  rw [← lookup_isSome, ← lookup_isSome, hi.others h hv hne]

theorem registered_insert (hi : Interrupted cfg visible hash disk disk')
    (hm : hash ∈ registered cfg disk') :
    registered cfg disk' = insert hash (registered cfg disk) := by
  ext h
  by_cases he : h = hash
  · simp [he, hm]
  · simp [he, registered_of_interrupted hi he]

theorem registered_diff (hi : Interrupted cfg visible hash disk disk')
    (hm : hash ∉ registered cfg disk') :
    registered cfg disk' = registered cfg disk \ {hash} := by
  ext h
  by_cases he : h = hash
  · simp [he, hm]
  · simp [he, registered_of_interrupted hi he]

/-- Wherever an operation is stopped, the devices on disk are those before or after it. -/
theorem registered_of_passes {op : Op} (hop : ∀ h ∈ op.hashes, Visible h)
    (hc : Consistent cfg visible ds disk) (hp : (op.prog cfg ds).Passes (env cfg) disk disk') :
    disk'.Ok cfg visible ∧ registered cfg disk' ∈ op.outcomes (registered cfg disk) := by
  have hi : Interrupted cfg visible op.target disk disk' := (during_prog hop hc).of_passes hp
  refine ⟨hi.ok, ?_⟩
  cases op with
  | addDevice hash baseHash opt =>
    have hv : Visible hash := hop hash (by simp [Op.hashes])
    cases hl : ds.devices.lookup hash with
    | some info =>
      have : disk = disk' :=
        (during_addDevice_of_mem hc hv (hop baseHash (by simp [Op.hashes])) hl rfl).of_passes hp
      exact .inl (by rw [this])
    | none =>
      have hnew : hash ∉ registered cfg disk := by
        rw [← registered_eq hc]
        exact lookup_eq_none.1 hl
      by_cases hm : hash ∈ registered cfg disk'
      · exact .inr (registered_insert hi hm)
      · exact .inl ((registered_diff hi hm).trans (Set.sdiff_singleton_eq_self hnew))
  | deleteDevice hash sync =>
    have hv : Visible hash := hop hash (by simp [Op.hashes])
    cases hl : ds.devices.lookup hash with
    | none =>
      have : disk = disk' := (during_deleteDevice_of_notMem hc hv hl rfl).of_passes hp
      exact .inl (by rw [this])
    | some info =>
      have hold : hash ∈ registered cfg disk := by
        rw [← registered_eq hc]
        exact lookup_isSome.1 (by rw [hl]; rfl)
      by_cases hm : hash ∈ registered cfg disk'
      · exact .inl ((registered_insert hi hm).trans (Set.insert_eq_of_mem hold))
      · exact .inr (registered_diff hi hm)
  | setupBaseImage =>
    by_cases hm : [] ∈ registered cfg disk'
    · exact .inr (.inr (registered_insert hi hm))
    · exact .inr (.inl (registered_diff hi hm))

/-- After any operations, one that is stopped anywhere, and a start: the device set is recovered
exactly when no transaction was pending. -/
theorem recovered_iff (cfg : Config) (fs : Str) (ops : List Op) (op : Op) (w w₁ : World)
    (disk disk' : Disk) (res : Except Error Unit) (ds' : DeviceSet)
    (hops : ∀ op ∈ ops, ∀ h ∈ op.hashes, Visible h) (hop : ∀ h ∈ op.hashes, Visible h)
    (hw : Consistent cfg visible w.ds w.disk) (hrun : Runs cfg ops w w₁)
    (hcrash : (op.prog cfg w₁.ds).Passes (env cfg) w₁.disk disk)
    (hinit : (initMetaData cfg { filesystem := fs }).Ends (env cfg) disk (res, ds') disk')
    (hstatus : res ≠ .error .poolStatus) :
    res = .ok () ∧ (Recovered cfg (op.outcomes (registered cfg w₁.disk)) ds' disk' ↔
      ¬Pending cfg disk) := by
  have hc : Consistent cfg visible w₁.ds w₁.disk := hw.runs hops hrun
  obtain ⟨hok, hreg⟩ := registered_of_passes hop hc hcrash
  obtain ⟨hres, hnp, hp⟩ := (during_initMetaData hok fs).of_ends hinit hstatus
  refine ⟨hres, ?_, fun h => ?_⟩
  · rintro ⟨R, -, hmem, hdisk, -⟩ hpend
    obtain ⟨h, hm, hn⟩ := hp hpend
    rw [hdisk, ← hmem] at hn
    exact hn hm
  · obtain ⟨hc', hsame⟩ := hnp h
    exact ⟨registered cfg disk, hreg, (registered_eq hc').trans hsame, hsame,
      fun _ _ _ _ hl hl' he => hc'.distinct hl hl' he, hc'.used⟩

/-- The disk when the creation of a layer on the base device is stopped after `n` calls. -/
def crashedDisk (n : Nat) : Disk :=
  let w := runCalm exampleConfig [.setupBaseImage] {}
  execFor (calm exampleConfig) (env exampleConfig) n
    (Op.prog exampleConfig w.ds (.addDevice "a".toList [] .none)) w.disk

theorem passes_crashedDisk (n : Nat) : let w := runCalm exampleConfig [.setupBaseImage] {}
    (Op.prog exampleConfig w.ds (.addDevice "a".toList [] .none)).Passes (env exampleConfig) w.disk
      (crashedDisk n) :=
  passes_execFor (calm_ok exampleConfig) n ..

theorem visible_a : Visible "a".toList := ⟨named_a, by decide⟩

theorem visible_base : Visible [] := ⟨.inl rfl, by decide⟩

/-- Stopped before the metadata file is written. -/
theorem recovered_iff_early : ∃ w₁ ds' disk', Runs exampleConfig [.setupBaseImage] {} w₁ ∧
    (Op.prog exampleConfig w₁.ds (.addDevice "a".toList [] .none)).Passes
    (env exampleConfig) w₁.disk (crashedDisk 4) ∧
    (initMetaData exampleConfig {}).Ends (env exampleConfig) (crashedDisk 4) (.ok (), ds') disk' ∧
    Recovered exampleConfig (Op.outcomes (registered exampleConfig w₁.disk)
      (.addDevice "a".toList [] .none)) ds' disk' := by
  have hcrash := passes_crashedDisk 4
  have hinit := ends_execAll (calm_ok exampleConfig) (initMetaData exampleConfig {}) (crashedDisk 4)
  generalize hr : execAll (calm exampleConfig) (env exampleConfig) (initMetaData exampleConfig {})
    (crashedDisk 4) = r at hinit
  have hstatus : r.1.1 ≠ .error .poolStatus := by
    rw [← hr]
    decide +kernel
  obtain ⟨⟨res, ds'⟩, disk'⟩ := r
  have hiff := recovered_iff exampleConfig [] [.setupBaseImage] (.addDevice "a".toList [] .none) {}
    (runCalm exampleConfig [.setupBaseImage] {}) (crashedDisk 4) disk' res ds'
    (fun op hop h hh => by
      rw [mem_singleton] at hop
      subst hop
      rw [Op.hashes, mem_singleton] at hh
      exact hh ▸ visible_base)
    (fun h hh => by
      rcases mem_cons.1 hh with rfl | hh
      · exact visible_a
      · exact mem_singleton.1 hh ▸ visible_base)
    consistent_empty (runs_runCalm _ _ _) hcrash hinit hstatus
  obtain ⟨rfl, hiff⟩ := hiff
  refine ⟨_, ds', disk', runs_runCalm _ _ _, hcrash, hinit, hiff.2 ?_⟩
  rintro ⟨t, ht, -, hm⟩
  have htx : (crashedDisk 4).files.lookup exampleConfig.transactionMetaFile =
      some (.transaction ⟨2, "a".toList, 2⟩) := by decide +kernel
  cases htx.symm.trans ht
  revert hm
  decide +kernel

/-- Stopped after the metadata file is written: the layer is back in memory, and its metadata file
and its id are gone. -/
theorem crash_leaves_device : ∃ w₁ ds' disk', Runs exampleConfig [.setupBaseImage] {} w₁ ∧
    (Op.prog exampleConfig w₁.ds (.addDevice "a".toList [] .none)).Passes
    (env exampleConfig) w₁.disk (crashedDisk 5) ∧
    (initMetaData exampleConfig {}).Ends (env exampleConfig) (crashedDisk 5) (.ok (), ds') disk' ∧
    ¬Recovered exampleConfig (Op.outcomes (registered exampleConfig w₁.disk)
      (.addDevice "a".toList [] .none))
      ds' disk' := by
  have hcrash := passes_crashedDisk 5
  have hinit := ends_execAll (calm_ok exampleConfig) (initMetaData exampleConfig {}) (crashedDisk 5)
  generalize hr : execAll (calm exampleConfig) (env exampleConfig) (initMetaData exampleConfig {})
    (crashedDisk 5) = r at hinit
  have hend : r.1.1 = .ok () ∧ (r.1.2.devices.lookup "a".toList).isSome = true ∧
      r.2.files.lookup (exampleConfig.metadataFile "a".toList) = none := by
    rw [← hr]
    decide +kernel
  obtain ⟨⟨res, ds'⟩, disk'⟩ := r
  obtain ⟨rfl, hmem, hfile⟩ := hend
  refine ⟨_, ds', disk', runs_runCalm _ _ _, hcrash, hinit, ?_⟩
  rintro ⟨R, -, hR, hdisk, -⟩
  have hm : "a".toList ∈ registered exampleConfig disk' := by
    rw [hdisk, ← hR]
    exact lookup_isSome.1 hmem
  exact lookup_eq_none.1 hfile hm.2

/-- After any operations the files are one for each entry, with its data, and the two of the set
itself, and the pool is at the transaction of the set. -/
theorem files_of_runs (cfg : Config) (ops : List Op) (w w' : World)
    (hops : ∀ op ∈ ops, ∀ h ∈ op.hashes, Visible h)
    (hw : Consistent cfg visible w.ds w.disk) (hrun : Runs cfg ops w w') :
    (∀ h info, w'.ds.devices.lookup h = some info →
      w'.disk.files.lookup (cfg.metadataFile h) = some (.device info.toDevMeta)) ∧
    (∀ p ∈ w'.disk.files, (∃ h ∈ w'.ds.devices, p = cfg.metadataFile h) ∨
      p = cfg.transactionMetaFile ∨
      p = cfg.deviceSetMetaFile) ∧
    w'.ds.transactionID = w'.disk.transactionID := by
  have hc : Consistent cfg visible w'.ds w'.disk := hw.runs hops hrun
  refine ⟨fun h info hl => ?_, fun p hp => ?_, hc.transactionID trivial⟩
  · rw [hc.file h (hc.entry h info hl).1, hl]
    rfl
  · refine (hc.ok.path trivial p hp).imp_left ?_
    rintro ⟨h, hv, rfl⟩
    exact ⟨h, (mem_files_iff hc hv).1 hp, rfl⟩

/-- A layer on the base device is created and deleted. -/
theorem files_of_runs_layer : ∃ w, Runs exampleConfig
    [.setupBaseImage, .addDevice "a".toList [] .none,
    .deleteDevice "a".toList false] {} w ∧ w.ds.transactionID = w.disk.transactionID := by
  refine ⟨_, runs_runCalm _ _ _, (files_of_runs _ _ _ _ (fun op hop h hh => ?_) consistent_empty
    (runs_runCalm _ _ _)).2.2⟩
  have hmem : h = [] ∨ h = "a".toList := by
    simp only [mem_cons, not_mem_nil, or_false] at hop
    rcases hop with rfl | rfl | rfl <;> simp [Op.hashes] at hh <;> tauto
  rcases hmem with rfl | rfl
  · exact visible_base
  · exact visible_a

end Docker.Devmapper
