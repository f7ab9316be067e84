import Docker.Layer.Identity

/-!
# The metadata store mirrors memory

As long as `saveMount` does not fail, the directories of the metadata store are those of the layers
and mounts in memory, and their files are what the loader accepts (`Mirror`). Other failures leave a
layer or mount in both places or in neither.
-/

namespace Docker.Layer

open MetadataStore Function Option AList Bool

/-! ## What is kept of a layer and of a mount -/

structure LayerInfo where
  chainID : ChainID
  diffID : DiffID
  parent : Option ChainID
  cacheID : String
  size : Int
  descriptor : Descriptor
  deriving DecidableEq

/-- A mounted layer with the chain id of its parent, and without its references. -/
structure MountInfo where
  name : String
  mountID : String
  initID : String
  parent : Option ChainID
  deriving DecidableEq

def LayerInfo.files (l : LayerInfo) : LayerFiles where
  diff := some l.diffID
  size := some l.size
  cacheID := some l.cacheID
  descriptor := if l.descriptor.digest = "" then none else some l.descriptor
  parent := l.parent

def MountInfo.files (m : MountInfo) : MountFiles where
  mountID := some m.mountID
  initID := if m.initID = "" then none else some m.initID
  parent := m.parent

namespace State

variable (s : State)

def describe (l : LayerData) : LayerInfo where
  chainID := l.chainID
  diffID := l.diffID
  parent := l.parent.map fun p => (s.layers p).chainID
  cacheID := l.cacheID
  size := l.size
  descriptor := l.descriptor

def layerInfo (i : Nat) : LayerInfo := s.describe (s.layers i).toLayerData

def describeMount (m : MountedLayer) : MountInfo where
  name := m.name
  mountID := m.mountID
  initID := m.initID
  parent := m.parent.map fun p => (s.layers p).chainID

def mountInfo (m : Nat) : MountInfo := s.describeMount (s.mountedLayers m)

variable {s} {s' : State}

theorem describe_congr (h : ∀ i, (s'.layers i).toLayerData = (s.layers i).toLayerData)
    (l : LayerData) : s'.describe l = s.describe l := by
  have hid : ∀ p, (s'.layers p).chainID = (s.layers p).chainID :=
    fun p => congrArg LayerData.chainID (h p)
  unfold describe
  simp only [hid]

theorem describeMount_congr (h : ∀ i, (s'.layers i).toLayerData = (s.layers i).toLayerData)
    (m : MountedLayer) : s'.describeMount m = s.describeMount m := by
  have hid : ∀ p, (s'.layers p).chainID = (s.layers p).chainID :=
    fun p => congrArg LayerData.chainID (h p)
  unfold describeMount
  simp only [hid]

end State

/-! ## What can be read back -/

/-- A digest as `List` expects the name of a layer to be. -/
def isCanonical (d : String) : Bool := algorithm d == "sha256" && validateDigest d

/-- A layer whose cache id and descriptor survive a restart. -/
structure RecordableLayer (l : LayerData) : Prop where
  cacheID : isRandomID l.cacheID = true
  descriptor : l.descriptor.digest = "" → l.descriptor = {}

structure RecordableMount (m : MountedLayer) : Prop where
  name : MetadataStore.isFileName m.name = true
  mountID : isRandomID m.mountID = true
  initID : m.initID = "" ∨ m.initID = initID m.mountID

structure RecordableCall (q : Pc) : Prop where
  layer : ∀ {l}, q.registering = some l → RecordableLayer l
  diffID : ∀ {l}, q.identified = some l → isCanonical l.diffID = true
  mount : ∀ {m}, q.building = some m → RecordableMount m

/-- The metadata store has what is in memory, and all of it can be read back. -/
structure Mirror (s : State) : Prop where
  layers : ∀ k, s.store.layers.lookup k = (s.layerMap k).map fun i => (s.layerInfo i).files
  mounts : ∀ n, s.store.mounts.lookup n = (s.mounts n).map fun m => (s.mountInfo m).files
  layer : ∀ {k i}, s.layerMap k = some i →
    RecordableLayer (s.layers i).toLayerData ∧ isCanonical (s.layers i).diffID = true
  mount : ∀ {n m}, s.mounts n = some m → RecordableMount (s.mountedLayers m)
  call : ∀ {c q}, s.pc c = some q → RecordableCall q

/-- The calls after which the store can be read back: `saveMount` does not fail, digests, graph ids
and names are as usual, and a descriptor without digest is empty. -/
def Label.durable : Label → Bool
  | .register _ descriptor _ => descriptor.digest != "" || descriptor == {}
  | .registerByGraphID graphID _ diffID _ => isRandomID graphID && isCanonical diffID
  | .createRWLayer name _ _ _ => MetadataStore.isFileName name
  | .createRWLayerByGraphID name graphID _ _ => MetadataStore.isFileName name && isRandomID graphID
  | .saveMount _ fails => fails.isNone
  | _ => true

theorem Grows.describe (G : Grows s s') (hp : ∀ {p}, l.parent = some p → p < s.nextLayer) :
    s'.describe l = s.describe l := by
  unfold State.describe
  rw [G.parent hp]

theorem Grows.describeMount (G : Grows s s') (hp : ∀ {p}, m.parent = some p → p < s.nextLayer) :
    s'.describeMount m = s.describeMount m := by
  unfold State.describeMount
  rw [G.parent hp]

/-- The references to a mounted layer are not part of what is kept. -/
def MountedLayer.data (m : MountedLayer) : MountedLayer := { m with references := [] }

theorem RecordableCall.mounting (hq : q.registering = none)
    (hm : ∀ {m}, q.building = some m → RecordableMount m) :
    RecordableCall q where
  layer h := by
    rw [hq] at h
    cases h
  diffID h := by
    rw [Pc.registering_of_identified h] at hq
    cases hq
  mount := hm

theorem RecordableCall.idle (hq : q.registering = none) (hb : q.building = none) :
    RecordableCall q :=
  .mounting hq fun h => by
    rw [hb] at h
    cases h

theorem RecordableCall.building (hq : q.registering = none) (hb : q.building = some m)
    (hm : RecordableMount m) :
    RecordableCall q :=
  .mounting hq fun h => by
    rw [hb] at h
    cases h
    exact hm

namespace Mirror

variable {s s' : State}

theorem init : Mirror emptyStore where
  layers _ := rfl
  mounts _ := rfl
  layer h := nomatch h
  mount h := nomatch h
  call h := nomatch h

theorem keep (M : Mirror s) (hcall : ∀ {c q}, s'.pc c = some q → RecordableCall q)
    (hl : ∀ i, (s'.layers i).toLayerData = (s.layers i).toLayerData := by exact fun _ => rfl)
    (hml : ∀ m, (s'.mountedLayers m).data = (s.mountedLayers m).data := by exact fun _ => rfl)
    (hmap : s'.layerMap = s.layerMap := by rfl) (hst : s'.store = s.store := by rfl)
    (hm : s'.mounts = s.mounts := by rfl) : Mirror s' := by
  have hinfo : ∀ i, s'.layerInfo i = s.layerInfo i := by
    intro i
    unfold State.layerInfo
    rw [hl, State.describe_congr hl]
  have hminfo : ∀ m, s'.mountInfo m = s.mountInfo m := by
    intro m
    have h : s'.describeMount (s'.mountedLayers m).data =
        s.describeMount (s.mountedLayers m).data := by
      rw [hml, State.describeMount_congr hl]
    exact h
  constructor
  case layers =>
    intro k
    simp only [hst, hmap, hinfo, M.layers k]
  case mounts =>
    intro n
    simp only [hst, hm, hminfo, M.mounts n]
  case layer =>
    intro k i h
    rw [hmap] at h
    rw [hl]
    exact M.layer h
  case mount =>
    intro n m h
    rw [hm] at h
    have R := M.mount h
    have R' : RecordableMount (s'.mountedLayers m).data := by
      rw [hml]
      exact ⟨R.name, R.mountID, R.initID⟩
    exact ⟨R'.name, R'.mountID, R'.initID⟩
  case call => exact hcall

theorem call_update (M : Mirror s) (hq : RecordableCall q)
    (h : update s.pc c (some q) c' = some q') : RecordableCall q' := by
  obtain ⟨-, rfl⟩ | ⟨-, h⟩ := update_eq_some h
  · exact hq
  · exact M.call h

theorem move (M : Mirror s) (hpc : s'.pc = update s.pc c (some q)) (hq : RecordableCall q)
    (hl : ∀ i, (s'.layers i).toLayerData = (s.layers i).toLayerData := by exact fun _ => rfl)
    (hml : ∀ m, (s'.mountedLayers m).data = (s.mountedLayers m).data := by exact fun _ => rfl)
    (hmap : s'.layerMap = s.layerMap := by rfl) (hst : s'.store = s.store := by rfl)
    (hm : s'.mounts = s.mounts := by rfl) : Mirror s' :=
  M.keep (fun h => M.call_update hq (hpc ▸ h)) hl hml hmap hst hm

/-! ## Layers come and go -/

theorem insert (M : Mirror s) (H : Counted s none) (hl : RecordableLayer l)
    (hd : isCanonical l.diffID = true) (hp : ∀ {p}, l.parent = some p → p < s.nextLayer)
    (hst : s.store.commit (s.storeLayer l) l.chainID = some st) (c : Nat)
    (r : Result) : Mirror (((s.setStore st).insertLayer l).setPc c (.returned r)) := by
  simp only [commit, ite_none_left_eq_some, Option.some.injEq] at hst
  obtain ⟨-, rfl⟩ := hst
  set s' := ((s.setStore _).insertLayer l).setPc c (.returned r) with hs'
  have hold : ∀ {i}, i < s.nextLayer → s'.layers i = s.layers i := by
    intro i hi
    exact update_of_ne (Nat.ne_of_lt hi) ..
  have hself : (s'.layers s.nextLayer).toLayerData = l := by
    have h : s'.layers s.nextLayer =
        { toLayerData := l, referenceCount := 1, references := [s.newHandle s.nextLayer] } :=
      update_self ..
    rw [h]
  have hmap : ∀ k, s'.layerMap k = update s.layerMap l.chainID (some s.nextLayer) k := fun _ => rfl
  have G : Grows s s' := ⟨Nat.le_succ _, fun hi => congrArg RoLayer.toLayerData (hold hi)⟩
  have hinfo : ∀ {k i}, s.layerMap k = some i → s'.layerInfo i = s.layerInfo i := by
    intro k i hk
    have hi := (H.keyed hk).1
    unfold State.layerInfo
    rw [hold hi]
    exact G.describe fun h => Nat.lt_trans (H.older h) hi
  constructor
  case layers =>
    intro k
    rw [hmap]
    change (s.store.layers.insert l.chainID (s.storeLayer l)).lookup k = _
    by_cases hk : k = l.chainID
    · subst hk
      rw [lookup_insert, update_self, map_some, State.layerInfo, hself, G.describe hp]
      rfl
    · rw [lookup_insert_ne hk, update_of_ne hk, M.layers k]
      exact map_congr fun i hi => congrArg _ (hinfo hi).symm
  case mounts =>
    intro n
    refine (M.mounts n).trans (map_congr fun m hm => congrArg _ ?_)
    refine (G.describeMount fun hp => ?_).symm
    obtain ⟨-, rfl⟩ := H.mountKeyed hm
    exact H.lt_of_present (H.mountClosed hm hp)
  case layer =>
    intro k i h
    rw [hmap] at h
    by_cases hk : k = l.chainID
    · subst hk
      obtain rfl : s.nextLayer = i := by simpa using h
      rw [hself]
      exact ⟨hl, hd⟩
    · rw [update_of_ne hk] at h
      rw [hold (H.keyed h).1]
      exact M.layer h
  case mount => exact M.mount
  case call => exact fun h => M.call_update (.idle rfl rfl) h

theorem delete (M : Mirror s) (i : Nat) : Mirror ((deleteLayer .ok s i).1.deleteEntry i) where
  layers k := by
    change (s.store.layers.erase (s.layers i).chainID).lookup k = _
    by_cases hk : k = (s.layers i).chainID
    · subst hk
      simp [lookup_erase, deleteLayer]
    · rw [lookup_erase_ne hk, M.layers k]
      simp [deleteLayer, hk]
      rfl
  mounts := M.mounts
  layer {k j} h := by
    by_cases hk : k = (s.layers i).chainID
    · simp [hk, deleteLayer] at h
    · exact M.layer (by simpa [deleteLayer, hk] using h)
  mount := M.mount
  call := M.call

theorem modifyLayer (M : Mirror s) (hf : (f (s.layers i)).toLayerData = (s.layers i).toLayerData) :
    Mirror (s.modifyLayer i f) :=
  M.keep M.call (s.modifyLayer_data hf)

theorem releaseLayer (M : Mirror s) (fates : List DeleteFate) (i : Nat) :
    Mirror (releaseLayer fates s i).1 := by
  refine releaseLoop_keeps (fun M => M.modifyLayer rfl) (fun {s i} fate h M => ?_)
    (fun M => M.delete _) M
  cases fate with
  | ok => exact (h rfl).elim
  | driverFails => exact M
  | storeFails => exact M.keep M.call

/-! ## Mounts come and go -/

theorem saveMount_lookup (s : State) (m : MountedLayer) {st : MetadataStore}
    (hnew : st.mounts.lookup m.name = none) (n : String) :
    ((s.saveMount m).foldl (fun st w => w st) st).mounts.lookup n =
      if n = m.name then some (s.describeMount m).files else st.mounts.lookup n := by
  by_cases hn : n = m.name
  · subst hn
    unfold State.saveMount State.describeMount MountInfo.files
    by_cases hi : m.initID = "" <;> cases hp : m.parent <;>
      simp [hi, setMountID, setInitID, setMountParent,
        setMount, hnew]
  · unfold State.saveMount
    by_cases hi : m.initID = "" <;> cases hp : m.parent <;>
      simp [hi, setMountID, setInitID, setMountParent,
        setMount, hn]

theorem insertMount (M : Mirror s) (H : Counted s none) (hm : RecordableMount m)
    (hnew : s.mounts m.name = none) :
    Mirror ((s.setStore ((s.saveMount m).foldl (fun st w => w st) s.store)).insertMount m) := by
  have hfree : s.store.mounts.lookup m.name = none := by
    rw [M.mounts, hnew]
    rfl
  constructor
  case layers =>
    intro k
    change ((s.saveMount m).foldl (fun st w => w st) s.store).layers.lookup k = _
    rw [s.foldl_saveMount_layers (List.Subset.refl _), M.layers k]
    rfl
  case mounts =>
    intro n
    refine (saveMount_lookup s m hfree n).trans ?_
    by_cases hn : n = m.name
    · subst hn
      simp [State.mountInfo]
      rfl
    · rw [if_neg hn, M.mounts n, State.insertMount_mounts, update_of_ne hn]
      refine map_congr fun j hj => congrArg MountInfo.files ?_
      unfold State.mountInfo
      rw [State.insertMount_mountedLayers, State.setStore_nextMount,
        update_of_ne (Nat.ne_of_lt (H.mountKeyed hj).1)]
      rfl
  case layer => exact M.layer
  case mount =>
    intro n j h
    by_cases hn : n = m.name
    · subst hn
      obtain rfl : s.nextMount = j := by simpa using h
      simpa using hm
    · have hj : s.mounts n = some j := by simpa [hn] using h
      have hlt := (H.mountKeyed hj).1
      simpa [Nat.ne_of_lt hlt] using M.mount hj
  case call => exact M.call

theorem deleteMount (M : Mirror s) (name : String) :
    Mirror ((s.setStore (s.store.removeMount name)).deleteMount name) where
  layers := M.layers
  mounts n := by
    change (s.store.mounts.erase name).lookup n = _
    by_cases hn : n = name
    · subst hn
      simp [lookup_erase]
    · rw [lookup_erase_ne hn, M.mounts n]
      simp [hn]
      rfl
  layer := M.layer
  mount {n m} h := by
    by_cases hn : n = name
    · simp [hn] at h
    · exact M.mount (by simpa [hn] using h)
  call := M.call

/-! ## Every step keeps the mirror -/

section
variable (M : Mirror s)
include M

theorem modifyMount (hf : (f (s.mountedLayers m)).data = (s.mountedLayers m).data) :
    Mirror (s.modifyMount m f) := by
  refine M.keep M.call (fun _ => rfl) fun j => ?_
  by_cases hj : j = m
  · subst hj
    simpa using hf
  · simp [hj]

theorem getRWReference (m : Nat) : Mirror (s.getRWReference m) :=
  have M' : Mirror (s.modifyMount m fun x => { x with references := s.nextRef :: x.references }) :=
    M.modifyMount rfl
  M'.keep M'.call

theorem deleteRWReference (m ref : Nat) : Mirror (s.deleteRWReference m ref) := M.modifyMount rfl

theorem newCall : Mirror s.newCall := M.keep M.call

theorem setReturned (c : Nat) (r : Result) : Mirror (s.setPc c (.returned r)) :=
  M.move rfl (.idle rfl rfl)

end

theorem isRandomID_of_fresh (h : s.fresh gid = true) : isRandomID gid = true :=
  (and_eq_true_iff.1 h).1

theorem newLayer (h : (descriptor.digest != "" || descriptor == {}) = true)
    (hg : isRandomID gid = true) (parent : Option Nat) :
    RecordableCall (.creating (newLayer parent gid descriptor)) := by
  refine ⟨?_, nofun, nofun⟩
  rintro _ ⟨⟩
  refine ⟨hg, fun hd => ?_⟩
  change descriptor.digest = "" at hd
  have he : descriptor = {} := by simpa [hd] using h
  exact he

theorem newGraphLayer (hg : isRandomID gid = true) (hd : isCanonical d = true) (parent : Option Nat)
    (parentID : ChainID) (size : Int) :
    RecordableCall (.registeringGraphID (newGraphLayer fromBytes parent parentID gid d size)) := by
  refine ⟨?_, ?_, nofun⟩
  · rintro _ ⟨⟩
    exact ⟨hg, fun _ => rfl⟩
  · rintro _ ⟨⟩
    exact hd

theorem newMount (hn : isFileName name = true) (hg : isRandomID gid = true) :
    RecordableMount (newMount name gid) := ⟨hn, hg, .inl rfl⟩

theorem step (M : Mirror s) (H : Counted s none) (N : Naming s) (I : Identified fromBytes s)
    (hdigest : ∀ x, isCanonical (fromBytes x) = true) (hlbl : lbl.durable = true)
    (h : step fromBytes lbl s = some s') :
    Mirror s' := by
  cases step_cases h with
  | registerTooDeep => exact M.move rfl (.idle rfl rfl) (State.retain_data _ _)
  | get | commitExists | graphExists =>
    exact M.move rfl (.idle rfl rfl) fun j =>
      (State.getReference_data _ _ j).trans (State.retain_data _ _ j)
  | registerRoot hf =>
    exact M.move rfl (newLayer hlbl (isRandomID_of_fresh hf) _)
  | registerChild hf =>
    exact M.move rfl (newLayer hlbl (isRandomID_of_fresh hf) _) (State.retain_data _ _)
  | graphRoot =>
    obtain ⟨hg, hd⟩ := and_eq_true_iff.1 hlbl
    exact M.move rfl (newGraphLayer hg hd _ _ _)
  | graphChild =>
    obtain ⟨hg, hd⟩ := and_eq_true_iff.1 hlbl
    exact M.move rfl (newGraphLayer hg hd _ _ _) (State.retain_data _ _)
  | driverCreated hpc | transactionStarted hpc =>
    exact M.move rfl ⟨(M.call hpc).layer, nofun, nofun⟩
  | tarApplied hpc =>
    refine M.move rfl ⟨?_, ?_, nofun⟩
    · rintro _ ⟨⟩
      have R := (M.call hpc).layer rfl
      exact ⟨R.cacheID, R.descriptor⟩
    · rintro _ ⟨⟩
      exact hdigest _
  | layerStored hpc =>
    exact M.move rfl ⟨(M.call hpc).layer, (M.call hpc).diffID, nofun⟩
  | committed hpc _ hst =>
    have C := I.call hpc
    rw [C.tx rfl] at hst
    exact M.insert H ((M.call hpc).layer rfl) ((M.call hpc).diffID rfl) (C.parent rfl) hst _ _
  | graphCommitted hpc _ hst =>
    exact M.insert H ((M.call hpc).layer rfl) ((M.call hpc).diffID rfl)
      ((I.call hpc).parent rfl) hst _ _
  | parentReleased | mountParentReleased =>
    exact ((M.setReturned ..).releaseLayer _ _).move rfl (.idle rfl rfl)
  | @release i l fates s =>
    have M₁ : Mirror (s.newCall.deleteReference i l) :=
      M.keep M.call (State.deleteReference_data _ _ _)
    exact (M₁.releaseLayer _ _).setReturned ..
  | mountRoot _ hf =>
    exact M.move rfl (.building (Identified.afterParent_registering ..) (afterParent_building ..)
      (newMount hlbl (isRandomID_of_fresh hf)))
  | mountChild _ hf =>
    exact M.move rfl (.building rfl rfl (newMount hlbl (isRandomID_of_fresh hf)))
  | graphMountRoot =>
    obtain ⟨hn, hg⟩ := and_eq_true_iff.1 hlbl
    exact M.move rfl (.building (Identified.afterParent_registering ..) (afterParent_building ..)
      (newMount hn hg))
  | graphMountChild =>
    obtain ⟨hn, hg⟩ := and_eq_true_iff.1 hlbl
    exact M.move rfl (.building rfl rfl (newMount hn hg))
  | parentFound hpc =>
    have R := (M.call hpc).mount rfl
    exact M.move rfl (.building (Identified.afterParent_registering ..) (afterParent_building ..)
      ⟨R.name, R.mountID, R.initID⟩) (State.retain_data _ _)
  | initialized hpc | initExists hpc =>
    have R := (M.call hpc).mount rfl
    exact M.move rfl (.building rfl rfl ⟨R.name, R.mountID, .inr rfl⟩)
  | readWriteCreated hpc | initMissing hpc =>
    exact M.move rfl (.building rfl rfl ((M.call hpc).mount rfl))
  | saveFails => cases hlbl
  | savedByGraphID hpc =>
    exact (M.insertMount H ((M.call hpc).mount rfl) (N.free hpc rfl).2).move rfl (.idle rfl rfl)
  | saved hpc =>
    exact ((M.insertMount H ((M.call hpc).mount rfl) (N.free hpc rfl).2).getRWReference _).move
      rfl (.idle rfl rfl)
  | getRWLayer => exact (M.newCall.getRWReference _).setReturned ..
  | unmountShared => exact (M.newCall.deleteRWReference _ _).setReturned ..
  | unmounted => exact (M.deleteMount _).move rfl (.idle rfl rfl)
  | _ =>
    exact M.move rfl (.idle rfl rfl)

end Mirror

end Docker.Layer
