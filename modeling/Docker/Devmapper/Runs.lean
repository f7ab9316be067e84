import Docker.Devmapper.Operations

/-!
# Sequences of operations

The calls of the graph driver, one after the other, with whatever answers of the device mapper. The
metadata file of the hash `base` is the one of the base device, so not all hashes have one of their
own.
-/

namespace Docker.Devmapper

open Filepath Prog List

/-- The calls of the graph driver. `setupBaseImage` is the only one that creates the base device. -/
inductive Op
  | addDevice (hash baseHash : Hash) (storageOpt : StorageOpt)
  | deleteDevice (hash : Hash) (syncDelete : Bool)
  | setupBaseImage
deriving DecidableEq

namespace Op

def prog (cfg : Config) (ds : DeviceSet) : Op → P (Result Unit)
  | addDevice hash baseHash storageOpt => Devmapper.addDevice cfg ds hash baseHash storageOpt
  | deleteDevice hash syncDelete => Devmapper.deleteDevice cfg ds hash syncDelete
  | setupBaseImage => Devmapper.setupBaseImage cfg ds

def target : Op → Hash
  | addDevice hash _ _ => hash
  | deleteDevice hash _ => hash
  | setupBaseImage => []

def hashes : Op → List Hash
  | addDevice hash baseHash _ => [hash, baseHash]
  | deleteDevice hash _ => [hash]
  | setupBaseImage => [[]]

end Op

structure World where
  ds : DeviceSet := {}
  disk : Disk := {}

/-- The operations lead from one world to the other, for some answers. -/
inductive Runs (cfg : Config) : List Op → World → World → Prop
  | nil {w : World} : Runs cfg [] w w
  | cons {op : Op} {ops : List Op} {w w' : World} {r : Except Error Unit} {ds : DeviceSet}
    {disk : Disk} :
    (op.prog cfg w.ds).Ends (env cfg) w.disk (r, ds) disk → Runs cfg ops ⟨ds, disk⟩ w' →
      Runs cfg (op :: ops) w w'

section Runs
variable {cfg : Config} {op : Op} {ops : List Op} {w w' : World} {ds : DeviceSet} {disk : Disk}

theorem consistent_empty : Consistent cfg S {} {} where
  ok := ⟨fun _ _ _ h => (by cases h), fun _ _ _ h => (by cases h),
    fun _ _ _ _ _ _ h => (by cases h),
    fun _ _ h => absurd h (AList.notMem_empty _), fun _ _ h => (by cases h)⟩
  file _ _ := rfl
  entry _ _ h := by cases h
  used _ _ h := by cases h
  deleted := rfl
  transactionID _ := rfl

theorem during_prog (hop : ∀ h ∈ op.hashes, S.mem h) (hc : Consistent cfg S ds disk) :
    (op.prog cfg ds).During (env cfg) (Interrupted cfg S op.target disk)
    (fun r d => Consistent cfg S r.2 d) disk := by
  have ho : Operating cfg S op.target disk ds disk := .start hc
  cases op with
  | addDevice hash baseHash opt =>
    exact (during_addDevice (hop hash (by simp [Op.hashes]))
      (hop baseHash (by simp [Op.hashes])) ho).mono
      fun _ _ _ h => h.1.toConsistent
  | deleteDevice hash sync =>
    exact (during_deleteDevice (hop hash (by simp [Op.hashes])) ho).mono fun _ _ _ h =>
      h.operating.toConsistent
  | setupBaseImage =>
    exact (during_setupBaseImage (hop [] (by simp [Op.hashes])) ho).mono fun _ _ _ h =>
      h.1.toConsistent

theorem Consistent.runs (hops : ∀ op ∈ ops, ∀ h ∈ op.hashes, S.mem h)
    (hc : Consistent cfg S w.ds w.disk)
    (hrun : Runs cfg ops w w') : Consistent cfg S w'.ds w'.disk := by
  induction hrun with
  | nil => exact hc
  | cons hend _ ih =>
    refine ih (fun op hop => hops op (mem_cons_of_mem _ hop)) ?_
    exact (during_prog (hops _ mem_cons_self) hc).of_ends hend

end Runs

/-- The hashes with a metadata file of their own. -/
def named : Scope := ⟨Named, fun _ h => h, False⟩

/-- The devices have distinct ids, these are marked as used, and the counter is right. -/
structure Allocated (ds : DeviceSet) : Prop where
  distinct : ∀ h h' info info', ds.devices.lookup h = some info →
    ds.devices.lookup h' = some info' →
    info.deviceID = info'.deviceID → h = h'
  used : ∀ h info, ds.devices.lookup h = some info →
    isDeviceIDFree ds.deviceIDMap info.deviceID = false
  deleted : ds.nrDeletedDevices = ds.devices.entries.countP fun e => e.2.deleted

/-- After any operations, whatever the device mapper answers, the ids are allocated as they should
be. -/
theorem ids_of_runs (cfg : Config) (ops : List Op) (w w' : World)
    (hops : ∀ op ∈ ops, ∀ h ∈ op.hashes, Named h)
    (hw : Consistent cfg named w.ds w.disk) (hrun : Runs cfg ops w w') : Allocated w'.ds := by
  have hc : Consistent cfg named w'.ds w'.disk := hw.runs hops hrun
  exact ⟨fun _ _ _ _ hl hl' he => hc.distinct hl hl' he, hc.used, hc.deleted⟩

/-! ## An environment in which nothing fails -/

def calm (cfg : Config) : (c : Call) → Disk → Answer c
  | .readFile path, disk => disk.files.lookup path
  | .walk, disk => disk.files.keys.filter (inside cfg.metadataDir)
  | .writeFile _ _, _ => ()
  | .removeFile _, _ => ()
  | .createDevice _ _, _ => DmResult.ok
  | .deleteDevice _, _ => DmResult.ok
  | .setTransactionID _ _, _ => DmResult.ok
  | .poolStatus, disk => some ⟨disk.transactionID, 0, 1000, 0, 1000⟩
  | .deviceOp _ _, _ => true
  | .getDeviceUUID _, _ => some "uuid".toList
  | .probeFsType _, _ => some "xfs".toList
  | .determineDefaultFS, _ => "xfs".toList

theorem calm_ok (cfg : Config) (c : Call) (disk : Disk) :
    (env cfg).ok c (calm cfg c disk) disk := by
  cases c with
  | readFile path => rfl
  | walk =>
    intro p
    simp [calm, AList.mem_keys]
  | poolStatus =>
    intro st h
    cases h
    rfl
  | _ => trivial

/-- The world after operations of which none fails. -/
def runCalm (cfg : Config) (ops : List Op) (w : World) : World :=
  ops.foldl (fun w op =>
    let r := execAll (calm cfg) (env cfg) (op.prog cfg w.ds) w.disk
    ⟨r.1.2, r.2⟩) w

theorem runs_runCalm (cfg : Config) (ops : List Op) (w : World) :
    Runs cfg ops w (runCalm cfg ops w) := by
  induction ops generalizing w with
  | nil => exact .nil
  | cons op ops ih => exact .cons (ends_execAll (calm_ok cfg) _ _) (ih _)

def exampleConfig : Config where
  root := ["d".toList]
  root_names := by
    intro c hc
    rw [mem_singleton] at hc
    subst hc
    exact ⟨by decide, by decide, by decide, by decide⟩
  deferredDelete := false
  doBlkDiscard := true
  minFreeSpacePercent := 10
  baseFsSize := 10
  userBaseSize := false
  thinPoolDevice := []

theorem named_a : Named "a".toList :=
  .inr ⟨⟨by decide, by decide, by decide, by decide⟩, by decide, by decide, by decide⟩

theorem named_b : Named "b".toList :=
  .inr ⟨⟨by decide, by decide, by decide, by decide⟩, by decide, by decide, by decide⟩

/-- Two layers on the base device, the first of which is deleted again. -/
theorem ids_of_runs_layers : ∃ w, Runs exampleConfig
    [.setupBaseImage, .addDevice "a".toList [] .none,
    .addDevice "b".toList "a".toList (.size 20), .deleteDevice "a".toList false] {} w ∧
      Allocated w.ds := by
  refine ⟨_, runs_runCalm _ _ _, ids_of_runs _ _ _ _ (fun op hop h hh => ?_) consistent_empty
    (runs_runCalm _ _ _)⟩
  have hbase : Named [] := .inl rfl
  have hmem : h ∈ [[], "a".toList, "b".toList] := by
    simp only [mem_cons, not_mem_nil, or_false] at hop ⊢
    rcases hop with rfl | rfl | rfl | rfl <;> simp [Op.hashes] at hh <;> tauto
  simp only [mem_cons, not_mem_nil, or_false] at hmem
  rcases hmem with rfl | rfl | rfl
  · exact hbase
  · exact named_a
  · exact named_b

/-- The hash `base` is looked up in the metadata file of the base device, and then is a second
device with its id. -/
theorem base_shares_id : ∃ w₀ w, Consistent exampleConfig named w₀.ds w₀.disk ∧
    Runs exampleConfig [.setupBaseImage, .addDevice baseFile [] .none] w₀ w ∧ ¬Allocated w.ds := by
  refine ⟨{}, _, consistent_empty, runs_runCalm _ _ _, fun ha => ?_⟩
  generalize hw : runCalm exampleConfig [.setupBaseImage, .addDevice baseFile [] .none] {} = w at ha
  have hids : (w.ds.devices.lookup []).map (·.deviceID) = some 1 ∧
      (w.ds.devices.lookup baseFile).map (·.deviceID) = some 1 := by
    rw [← hw]
    decide +kernel
  obtain ⟨info, hl, hid⟩ := Option.map_eq_some_iff.1 hids.1
  obtain ⟨info', hl', hid'⟩ := Option.map_eq_some_iff.1 hids.2
  exact absurd (ha.distinct _ _ _ _ hl hl' (hid.trans hid'.symm)) (by decide)

end Docker.Devmapper
