import Docker.Layer.Load
import Docker.Layer.RefCount

/-!
# The identity of layers

Every layer of `layerMap` is stored under the chain id of its diff ids. The invariant says that the
chain id of a layer is computed from that of its parent wherever there is a layer: in the heap, in a
call that is about to register it and in the metadata store.
-/

namespace Docker.Layer
open Transition State Function LayerData List

namespace State

variable (s : State)

def parentID (l : LayerData) : ChainID := l.parent.elim "" fun p => (s.layers p).chainID

/-- The diff ids of a layer and its ancestors, from the root down, for a chain of at most `fuel`
layers. -/
def diffIDsFrom (layers : Nat → RoLayer) : Nat → Nat → List DiffID
  | 0, _ => []
  | fuel + 1, i =>
    (match (layers i).parent with
      | none => []
      | some p => diffIDsFrom layers fuel p) ++ [(layers i).diffID]

def diffIDs (i : Nat) : List DiffID := diffIDsFrom s.layers (i + 1) i

end State

def Pc.registering : Pc → Option LayerData
  | .creating l | .startingTransaction l | .applyingTar l | .storingLayer l | .committing l _
  | .registeringGraphID l => some l
  | _ => none

def Pc.identified : Pc → Option LayerData
  | .storingLayer l | .committing l _ | .registeringGraphID l => some l
  | _ => none

def Label.proper : Label → Bool
  | .registerByGraphID _ _ diffID _ => validateDigest diffID
  | _ => true

section
variable (fromBytes : String → String)

/-- The chain id of a layer is computed from that of its parent, and its diff id is a digest. -/
structure IdentifiedLayer (s : State) (l : LayerData) : Prop where
  chainID : l.chainID = createChainIDFromParent fromBytes (s.parentID l) [l.diffID]
  valid : validateDigest l.diffID = true

structure IdentifiedCall (s : State) (q : Pc) : Prop where
  parent : ∀ {l p}, q.registering = some l → l.parent = some p → p < s.nextLayer
  layer : ∀ {l}, q.identified = some l → IdentifiedLayer fromBytes s l
  tx : ∀ {l tx}, q = .committing l tx → tx = s.storeLayer l

/-- The files of a layer that is stored under `k`. -/
structure IdentifiedFiles (k : ChainID) (f : LayerFiles) : Prop where
  diff : ∃ d, f.diff = some d ∧ validateDigest d = true ∧
    k = createChainIDFromParent fromBytes (f.parent.getD "") [d]
  parent : ∀ {p}, f.parent = some p → validateDigest p = true

structure Identified (s : State) : Prop where
  keyed : ∀ {k i}, s.layerMap k = some i → i < s.nextLayer ∧ (s.layers i).chainID = k
  older : ∀ {i p}, i < s.nextLayer → (s.layers i).parent = some p → p < i
  layer : ∀ {i}, i < s.nextLayer → IdentifiedLayer fromBytes s (s.layers i).toLayerData
  call : ∀ {c q}, s.pc c = some q → IdentifiedCall fromBytes s q
  files : ∀ {k f}, s.store.layers.lookup k = some f → IdentifiedFiles fromBytes k f
end

/-- The layers of `s` are also there in `s'`. -/
structure Grows (s s' : State) : Prop where
  le : s.nextLayer ≤ s'.nextLayer
  data : ∀ {i}, i < s.nextLayer → (s'.layers i).toLayerData = (s.layers i).toLayerData

section
variable {fromBytes : String → String} {s s' : State} {c i p : Nat} {q : Pc} {l : LayerData}

theorem Pc.registering_of_identified (h : q.identified = some l) : q.registering = some l := by
  cases q <;> cases h <;> rfl

theorem Grows.parentID (G : Grows s s') (hp : ∀ {p}, l.parent = some p → p < s.nextLayer) :
    s'.parentID l = s.parentID l := by
  unfold State.parentID
  cases h : l.parent with
  | none => rfl
  | some p => exact congrArg chainID (G.data (hp h))

theorem Grows.parent {parent : Option Nat} (G : Grows s s')
    (hp : ∀ {p}, parent = some p → p < s.nextLayer) :
    (parent.map fun p => (s'.layers p).chainID) = parent.map fun p => (s.layers p).chainID :=
  Option.map_congr fun _ h => congrArg chainID (G.data (hp h))

theorem Grows.storeLayer (G : Grows s s') (hp : ∀ {p}, l.parent = some p → p < s.nextLayer) :
    s'.storeLayer l = s.storeLayer l := by
  unfold State.storeLayer
  rw [G.parent hp]

theorem IdentifiedLayer.grows (H : IdentifiedLayer fromBytes s l) (G : Grows s s')
    (hp : ∀ {p}, l.parent = some p → p < s.nextLayer) : IdentifiedLayer fromBytes s' l :=
  ⟨G.parentID hp ▸ H.chainID, H.valid⟩

theorem IdentifiedLayer.chainID_valid (H : IdentifiedLayer fromBytes s l)
    (hdigest : ∀ x, validateDigest (fromBytes x) = true) : validateDigest l.chainID = true := by
  rw [H.chainID, createChainIDFromParent_single]
  split
  · exact H.valid
  · exact hdigest _

theorem IdentifiedCall.grows (H : IdentifiedCall fromBytes s q) (G : Grows s s') :
    IdentifiedCall fromBytes s' q where
  parent h hp := Nat.lt_of_lt_of_le (H.parent h hp) G.le
  layer h := (H.layer h).grows G (H.parent (Pc.registering_of_identified h))
  tx := by
    rintro l tx rfl
    rw [G.storeLayer (H.parent rfl)]
    exact H.tx rfl

theorem IdentifiedCall.idle (hq : q.registering = none) : IdentifiedCall fromBytes s q where
  parent h := by
    rw [hq] at h
    cases h
  layer h := by
    rw [Pc.registering_of_identified h] at hq
    cases hq
  tx := by
    rintro l tx rfl
    cases hq

theorem IdentifiedLayer.files (H : IdentifiedLayer fromBytes s l)
    (hparent : ∀ {p}, l.parent = some p → validateDigest (s.layers p).chainID = true) :
    IdentifiedFiles fromBytes l.chainID (s.storeLayer l) where
  diff := by
    refine ⟨l.diffID, rfl, H.valid, H.chainID.trans ?_⟩
    unfold parentID storeLayer
    cases l.parent <;> rfl
  parent := by
    intro p h
    obtain ⟨i, hi, rfl⟩ := Option.map_eq_some_iff.1 h
    exact hparent hi

end

namespace Identified

variable {fromBytes : String → String} {s s' : State} {c i p : Nat} {l : LayerData}

theorem init : Identified fromBytes emptyStore where
  keyed h := nomatch h
  older h := nomatch h
  layer h := nomatch h
  call h := nomatch h
  files h := nomatch h

section
variable (I : Identified fromBytes s)
include I

/-- The layers stay as they are, some of them may go, and each call is as it should be. -/
theorem shrink (hl : ∀ i, (s'.layers i).toLayerData = (s.layers i).toLayerData)
    (hn : s'.nextLayer = s.nextLayer)
    (hmap : ∀ {k i}, s'.layerMap k = some i → s.layerMap k = some i)
    (hst : ∀ {k f}, s'.store.layers.lookup k = some f → s.store.layers.lookup k = some f)
    (hcall : ∀ {c q}, s'.pc c = some q → IdentifiedCall fromBytes s q) :
    Identified fromBytes s' := by
  have G : Grows s s' := ⟨Nat.le_of_eq hn.symm, fun _ => hl _⟩
  constructor
  case keyed =>
    intro k i h
    have hi : (s'.layers i).chainID = (s.layers i).chainID := congrArg chainID (hl i)
    rw [hn, hi]
    exact I.keyed (hmap h)
  case older =>
    intro i p hi h
    have hp : (s'.layers i).parent = (s.layers i).parent := congrArg parent (hl i)
    rw [hp] at h
    exact I.older (hn ▸ hi) h
  case layer =>
    intro i hi
    rw [hn] at hi
    rw [hl]
    exact (I.layer hi).grows G fun hp => Nat.lt_trans (I.older hi hp) hi
  case call => exact fun h => (hcall h).grows G
  case files => exact fun h => I.files (hst h)

theorem call_update (hq : IdentifiedCall fromBytes s q) (h : update s.pc c (some q) c' = some q') :
    IdentifiedCall fromBytes s q' := by
  obtain ⟨-, rfl⟩ | ⟨-, h⟩ := update_eq_some h
  · exact hq
  · exact I.call h

theorem move (hpc : s'.pc = update s.pc c (some q)) (hq : IdentifiedCall fromBytes s q)
    (hl : ∀ i, (s'.layers i).toLayerData = (s.layers i).toLayerData := by exact fun _ => rfl)
    (hn : s'.nextLayer = s.nextLayer := by rfl) (hmap : s'.layerMap = s.layerMap := by rfl)
    (hst : s'.store.layers = s.store.layers := by rfl) : Identified fromBytes s' :=
  I.shrink hl hn (fun h => hmap ▸ h) (fun h => hst ▸ h) fun h => I.call_update hq (hpc ▸ h)

theorem add (hl : IdentifiedLayer fromBytes s l) (hp : ∀ {p}, l.parent = some p → p < s.nextLayer)
    (hx : x.toLayerData = l) (hlayers : s'.layers = update s.layers s.nextLayer x)
    (hn : s'.nextLayer = s.nextLayer + 1)
    (hmap : s'.layerMap = update s.layerMap l.chainID (some s.nextLayer))
    (hcall : ∀ {c q}, s'.pc c = some q → IdentifiedCall fromBytes s q)
    (hfiles : ∀ {k f}, s'.store.layers.lookup k = some f → IdentifiedFiles fromBytes k f) :
    Identified fromBytes s' := by
  have hself : (s'.layers s.nextLayer).toLayerData = l := by
    rw [hlayers, update_self, hx]
  have G : Grows s s' := by
    refine ⟨hn ▸ Nat.le_succ _, fun {i} hi => ?_⟩
    rw [hlayers, update_of_ne (Nat.ne_of_lt hi)]
  constructor
  case keyed =>
    intro k i h
    rw [hmap] at h
    by_cases hk : k = l.chainID
    · subst hk
      obtain rfl : s.nextLayer = i := by simpa using h
      exact ⟨hn ▸ Nat.lt_succ_self _, congrArg chainID hself⟩
    · rw [update_of_ne hk] at h
      obtain ⟨hi, hid⟩ := I.keyed h
      exact ⟨Nat.lt_of_lt_of_le hi G.le, (congrArg chainID (G.data hi)).trans hid⟩
  case older =>
    intro i p hi h
    rw [hn, Nat.lt_succ_iff_lt_or_eq] at hi
    rcases hi with hi | rfl
    · exact I.older hi ((congrArg parent (G.data hi)).symm.trans h)
    · exact hp ((congrArg parent hself).symm.trans h)
  case layer =>
    intro i hi
    rw [hn, Nat.lt_succ_iff_lt_or_eq] at hi
    rcases hi with hi | rfl
    · rw [G.data hi]
      exact (I.layer hi).grows G fun h => Nat.lt_trans (I.older hi h) hi
    · rw [hself]
      exact hl.grows G hp
  case call => exact fun h => (hcall h).grows G
  case files => exact hfiles

theorem insert (hdigest : ∀ x, validateDigest (fromBytes x) = true)
    (hl : IdentifiedLayer fromBytes s l) (hp : ∀ {p}, l.parent = some p → p < s.nextLayer)
    (hst : s.store.commit (s.storeLayer l) l.chainID = some st) (c : Nat) (r : Result) :
    Identified fromBytes (((s.setStore st).insertLayer l).setPc c (.returned r)) := by
  refine I.add hl hp rfl rfl rfl rfl (fun {c' q'} h => ?_) fun {k f} h => ?_
  · exact I.call_update (.idle rfl) h
  · simp only [MetadataStore.commit, Option.ite_none_left_eq_some, Option.some.injEq] at hst
    obtain ⟨-, rfl⟩ := hst
    change (s.store.layers.insert l.chainID (s.storeLayer l)).lookup k = some f at h
    by_cases hk : k = l.chainID
    · subst hk
      rw [AList.lookup_insert] at h
      cases h
      exact hl.files fun h => (I.layer (hp h)).chainID_valid hdigest
    · rw [AList.lookup_insert_ne hk] at h
      exact I.files h

end

/-! ## Every step keeps the identities -/

theorem afterParent_registering (m : MountedLayer) (kind : MountKind) :
    (afterParent m kind).registering = none := by
  rcases kind with (_ | _) | _ <;> rfl

theorem identify (hdigest : ∀ x, validateDigest (fromBytes x) = true) (s : State) (l : LayerData)
    (tar : String) (size : Int) :
    IdentifiedLayer fromBytes s (s.identify fromBytes l tar size) where
  chainID := by
    unfold parentID State.identify
    cases h : l.parent with
    | none => simp [createChainIDFromParent_single]
    | some p => rfl
  valid := hdigest tar

theorem newGraphLayer (hd : validateDigest d = true) {parent : Option Nat}
    (hp : ∀ {p}, parent = some p → p < s.nextLayer) {parentID : ChainID}
    (h : (parent.elim "" fun p => (s.layers p).chainID) = parentID) (graphID : String)
    (size : Int) :
    IdentifiedCall fromBytes s (.registeringGraphID
      (newGraphLayer fromBytes parent parentID graphID d size)) where
  parent := by
    rintro _ _ ⟨⟩
    exact hp
  layer := by
    rintro _ ⟨⟩
    subst h
    exact ⟨rfl, hd⟩
  tx := nofun

section
variable (I : Identified fromBytes s)
include I

theorem setReturned (c : Nat) (r : Result) : Identified fromBytes (s.setPc c (.returned r)) :=
  I.move rfl (.idle rfl)

theorem insertMount (m : MountedLayer) : Identified fromBytes (s.insertMount m) :=
  I.shrink (fun _ => rfl) rfl id id I.call

theorem saveMount (hw : writes ⊆ s.saveMount m) :
    Identified fromBytes (s.setStore (writes.foldl (fun st w => w st) s.store)) := by
  refine I.shrink (fun _ => rfl) rfl id (fun {k f} h => ?_) I.call
  rw [← s.foldl_saveMount_layers hw]
  exact h

theorem released (R : Released s s') : Identified fromBytes s' :=
  I.shrink (fun i => by rw [R.layers i]) R.nextLayer R.layerMap R.storeLayers fun h =>
    I.call (R.pc ▸ h)

theorem step (hdigest : ∀ x, validateDigest (fromBytes x) = true)
    (hlbl : lbl.proper = true) (h : step fromBytes lbl s = some s') : Identified fromBytes s' := by
  cases step_cases h with
  | mountRoot | graphMountRoot => exact I.move rfl (.idle (afterParent_registering ..))
  | parentFound => exact I.move rfl (.idle (afterParent_registering ..)) (retain_data _ _)
  | registerTooDeep => exact I.move rfl (.idle rfl) (retain_data _ _)
  | get | commitExists | graphExists =>
    exact I.move rfl (.idle rfl) fun j => (getReference_data _ _ j).trans (retain_data _ _ j)
  | registerRoot =>
    refine I.move rfl ⟨?_, nofun, nofun⟩
    rintro _ _ ⟨⟩
    nofun
  | registerChild _ _ hm =>
    refine I.move rfl ⟨?_, nofun, nofun⟩ (retain_data _ _)
    rintro _ _ ⟨⟩ ⟨⟩
    exact (I.keyed hm).1
  | graphRoot =>
    refine I.move rfl (newGraphLayer hlbl ?_ rfl _ _)
    nofun
  | graphChild _ hm =>
    refine I.move rfl (newGraphLayer hlbl ?_ ?_ _ _) (retain_data _ _)
    · rintro _ ⟨⟩
      exact (I.keyed hm).1
    · exact (I.keyed hm).2
  | driverCreated hpc | transactionStarted hpc =>
    exact I.move rfl ⟨(I.call hpc).parent, nofun, nofun⟩
  | tarApplied hpc =>
    refine I.move rfl ⟨?_, ?_, nofun⟩
    · rintro _ p ⟨⟩ hp
      have hlt := (I.call hpc).parent rfl hp
      exact hlt
    · rintro _ ⟨⟩
      exact identify hdigest ..
  | layerStored hpc =>
    refine I.move rfl ⟨(I.call hpc).parent, ?_, ?_⟩
    · rintro _ ⟨⟩
      exact (I.call hpc).layer rfl
    · rintro _ _ ⟨⟩
      rfl
  | committed hpc _ hst =>
    have C := I.call hpc
    rw [C.tx rfl] at hst
    exact I.insert hdigest (C.layer rfl) (C.parent rfl) hst _ _
  | graphCommitted hpc _ hst =>
    have C := I.call hpc
    exact I.insert hdigest (C.layer rfl) (C.parent rfl) hst _ _
  | parentReleased | mountParentReleased =>
    exact ((I.setReturned ..).released (.releaseLayer ..)).move rfl (.idle rfl)
  | @release i l fates s =>
    have I₁ : Identified fromBytes (s.newCall.deleteReference i l) :=
      I.shrink (deleteReference_data _ _ _) rfl id id I.call
    exact (I₁.released (.releaseLayer ..)).setReturned ..
  | saveFails => exact (I.saveMount (take_subset ..)).move rfl (.idle rfl)
  | savedByGraphID | saved => exact (I.saveMount (Subset.refl _)).move rfl (.idle rfl)
  | _ =>
    exact I.move rfl (.idle rfl)

end

/-! ## Restarts keep the identities -/

section
variable (I : Identified fromBytes s)
include I

theorem forget : Identified fromBytes s.forget where
  keyed h := nomatch h
  older h := nomatch h
  layer h := nomatch h
  call h := nomatch h
  files := I.files

theorem read {k parent : ChainID} (hd : s.store.getDiffID k = some d)
    (hp : s.store.getParent k = some parent) :
    validateDigest d = true ∧ k = createChainIDFromParent fromBytes parent [d] := by
  unfold MetadataStore.getDiffID at hd
  unfold MetadataStore.getParent at hp
  cases hf : s.store.layers.lookup k with
  | none =>
    rw [hf] at hd
    cases hd
  | some f =>
    have F := I.files hf
    obtain ⟨d', hdiff, hv, hk⟩ := F.diff
    simp only [hf, Option.bind_some, hdiff, parseDigest_of_validateDigest hv,
      Option.some.injEq] at hd hp
    subst hd
    refine ⟨hv, ?_⟩
    split at hp
    next hnone =>
      cases hp
      rwa [hnone] at hk
    next content hsome =>
      rw [parseDigest_of_validateDigest (F.parent hsome)] at hp
      cases hp
      rwa [hsome] at hk

theorem addLoaded (hd : s.store.getDiffID l.chainID = some l.diffID)
    (hp : s.store.getParent l.chainID = some (s.parentID l))
    (hlt : ∀ {p}, l.parent = some p → p < s.nextLayer) : Identified fromBytes (s.addLoaded l) := by
  obtain ⟨hv, hk⟩ := I.read hd hp
  exact I.add ⟨hk, hv⟩ hlt rfl rfl rfl rfl I.call I.files

theorem loadLayer (h : s.loadLayer fuel k = some (s', i)) :
    Identified fromBytes s' ∧ s'.store = s.store ∧ s'.layerMap k = some i := by
  induction fuel generalizing s' k i with
  | zero => cases h
  | succ fuel ih =>
    rw [loadLayer] at h
    split at h
    next hm =>
      cases h
      exact ⟨I, rfl, hm⟩
    next hm =>
      simp only [Option.bind_eq_bind, Option.bind_eq_some_iff] at h
      obtain ⟨diffID, hd, size, -, cacheID, -, parent, hp, descriptor, -, h⟩ := h
      split at h
      next hroot =>
        subst hroot
        cases h
        exact ⟨I.addLoaded hd hp nofun, rfl, update_self ..⟩
      next =>
        simp only [Option.bind_eq_some_iff, Prod.exists] at h
        obtain ⟨s₁, p, hload, h⟩ := h
        obtain ⟨I₁, hst, hm₁⟩ := ih hload
        cases h
        obtain ⟨hlt, hid⟩ := I₁.keyed hm₁
        rw [← hst] at hd hp
        refine ⟨I₁.addLoaded hd (hp.trans (congrArg some hid.symm)) ?_, hst, update_self ..⟩
        rintro _ ⟨⟩
        exact hlt

theorem retain (i : Nat) : Identified fromBytes (s.retain i) :=
  I.shrink (s.retain_data i) rfl id id I.call

theorem loadListed (k : ChainID) : Identified fromBytes (s.loadListed k) := by
  unfold State.loadListed
  split
  · exact I
  next h =>
    have I' := (I.loadLayer h).1
    split
    · exact I'
    · exact I'.retain _

theorem loadMount (h : s.loadMount name = some s') : Identified fromBytes s' := by
  unfold State.loadMount at h
  split at h
  next =>
    cases h
    exact I
  next =>
    simp only [Option.bind_eq_bind, Option.bind_eq_some_iff] at h
    obtain ⟨mountID, -, initID, -, parent, -, h⟩ := h
    split at h
    next =>
      cases h
      exact I.insertMount _
    next =>
      simp only [Option.bind_eq_some_iff, Prod.exists] at h
      obtain ⟨s₁, p, hload, h⟩ := h
      cases h
      exact ((I.loadLayer hload).1.retain p).insertMount _

theorem loadListedMount (name : String) : Identified fromBytes (s.loadListedMount name) := by
  unfold State.loadListedMount
  cases h : s.loadMount name with
  | none => exact I
  | some s' => exact I.loadMount h

theorem newStoreFromGraphDriver (ids : List ChainID) (mounts : List String) :
    Identified fromBytes (s.newStoreFromGraphDriver ids mounts) :=
  foldlRecOn mounts _ (foldlRecOn ids _ I.forget fun _ I k _ => I.loadListed k)
    fun _ I name _ => I.loadListedMount name

end

end Identified

/-- The label of an event, if it has one, is proper. -/
def Event.proper : Event → Bool
  | .op l => l.proper
  | .restart .. => true

section
variable {fromBytes : String → String} {s : State} {i : Nat}

theorem Identified.of_reachable (hdigest : ∀ x, validateDigest (fromBytes x) = true)
    (h : Reachable (restrict (stepRestart fromBytes) fun _ e => e.proper) emptyStore s) :
    Identified fromBytes s := by
  refine h.inv (fun {e s s'} I h => ?_) .init
  obtain ⟨hproper, h⟩ := restrict_eq_some.1 h
  cases e with
  | op l => exact I.step hdigest hproper h
  | restart ids mounts =>
    simp only [stepRestart, Option.ite_none_right_eq_some, Option.some.injEq] at h
    obtain ⟨-, rfl⟩ := h
    exact I.newStoreFromGraphDriver ids mounts

theorem Identified.diffIDs (I : Identified fromBytes s) (hi : i < s.nextLayer) :
    (s.layers i).chainID = createChainID fromBytes (s.diffIDs i) ∧ s.diffIDs i ≠ [] ∧
      ∀ d ∈ s.diffIDs i, validateDigest d = true := by
  have H : ∀ fuel i, i < fuel → i < s.nextLayer →
      (s.layers i).chainID = createChainID fromBytes (diffIDsFrom s.layers fuel i) ∧
        ∀ d ∈ diffIDsFrom s.layers fuel i, validateDigest d = true := by
    intro fuel
    induction fuel with
    | zero => nofun
    | succ fuel ih =>
      intro i hfuel hi
      have L := I.layer hi
      have hchain := L.chainID
      unfold parentID at hchain
      rw [diffIDsFrom, createChainID_concat]
      split
      next hp =>
        rw [hp] at hchain
        exact ⟨hchain, by simpa using L.valid⟩
      next p hp =>
        have hlt := I.older hi hp
        obtain ⟨hid, hv⟩ := ih p (by omega) (by omega)
        rw [hp] at hchain
        refine ⟨hid ▸ hchain, fun d hd => ?_⟩
        rcases mem_append.1 hd with hd | hd
        · exact hv d hd
        · rw [mem_singleton.1 hd]
          exact L.valid
  obtain ⟨hid, hv⟩ := H (i + 1) i (Nat.lt_succ_self i) hi
  exact ⟨hid, by simp [State.diffIDs, diffIDsFrom], hv⟩

end

structure RootFS where
  diffIDs : List DiffID

def RootFS.chainID (fromBytes : String → String) (r : RootFS) : ChainID :=
  createChainID fromBytes r.diffIDs

theorem roLayer_of_get {s s' : State} (h : s.get k = some s')
    (hl : s'.pc s.nextCall = some (.returned (.layer l))) : s.layerMap k = some l.roLayer := by
  unfold State.get at h
  split at h
  next =>
    cases h
    simp at hl
  next i hk =>
    cases h
    simp at hl
    rw [hk, ← hl]
    rfl

/-- In every run with restarts a layer of `layerMap` has the chain id of its diff ids as its key,
and the layer that `Get` returns for an image has its diff ids, unless the hash confuses the two
chains or one starts with a hash of the other. -/
theorem layer_identity {fromBytes : String → String}
    (hdigest : ∀ x, validateDigest (fromBytes x) = true) {s : State}
    (h : Reachable (restrict (stepRestart fromBytes) fun _ e => e.proper) emptyStore s) :
    (∀ k i, s.layerMap k = some i → (s.layers i).chainID = k ∧
      k = createChainID fromBytes (s.diffIDs i)) ∧
    ∀ (r : RootFS) s' l, s.get (r.chainID fromBytes) = some s' →
      s'.pc s.nextCall = some (.returned (.layer l)) →
      r.diffIDs ≠ [] → r.diffIDs.head? ≠ some "" →
      Set.InjOn fromBytes {x | x ∈ chainStrings fromBytes (s.diffIDs l.roLayer) ∨
        x ∈ chainStrings fromBytes r.diffIDs} →
      (∀ x ∈ chainStrings fromBytes r.diffIDs, (s.diffIDs l.roLayer).head? ≠ some (fromBytes x)) →
      (∀ x ∈ chainStrings fromBytes (s.diffIDs l.roLayer), r.diffIDs.head? ≠ some (fromBytes x)) →
      s.diffIDs l.roLayer = r.diffIDs := by
  have I := Identified.of_reachable hdigest h
  refine ⟨fun k i hk => ?_, fun r s' l hget hl hne hempty hinj hfirst hfirst' => ?_⟩
  · obtain ⟨hi, rfl⟩ := I.keyed hk
    exact ⟨rfl, (I.diffIDs hi).1⟩
  · have hk := roLayer_of_get hget hl
    obtain ⟨hi, hid⟩ := I.keyed hk
    obtain ⟨hchain, hne', hv⟩ := I.diffIDs hi
    exact createChainID_inj hdigest hv hne' hne hempty hinj hfirst hfirst' (hchain.symm.trans hid)

/-- A digest that tells strings apart by their length modulo 16. -/
def lengthDigest (x : String) : String :=
  "sha256:" ++ sampleID (Nat.digitChar (x.utf8ByteSize % 16))

theorem algorithm_lengthDigest (x : String) : algorithm (lengthDigest x) = "sha256" := by
  simp [algorithm, lengthDigest, sampleID]

theorem validateDigest_lengthDigest (x : String) : validateDigest (lengthDigest x) = true := by
  have hhex : ∀ n < 16, isHex (Nat.digitChar n) = true := by decide
  have hlist : (lengthDigest x).toList = "sha256".toList ++ ':' ::
      replicate 64 (Nat.digitChar (x.utf8ByteSize % 16)) := by
    simp [lengthDigest, sampleID]
  unfold validateDigest
  rw [algorithm_lengthDigest, hlist]
  simp [hexLength, hhex _ (Nat.mod_lt x.utf8ByteSize (by decide))]

def appChain : ChainID := lengthDigest (lengthDigest "base" ++ " " ++ lengthDigest "app")

/-- A layer, a child of it and a layer whose diff id is the digest of another chain. -/
def identityRun : List Event :=
  map .op (registerRun 0 "" (sampleID 'a') "base" 10 ++
    registerRun 1 (lengthDigest "base") (sampleID 'b') "app" 5 ++
    [.registerByGraphID (sampleID 'c') "" (lengthDigest "one two") 1, .commitGraphID 2 true])

theorem identityRun_layers : ∃ s, run (restrict (stepRestart lengthDigest) fun _ e =>
      e.proper) identityRun emptyStore =
        some s ∧
      (s.layerMap (lengthDigest "base") = some 0 ∧ s.diffIDs 0 = [lengthDigest "base"]) ∧
      (s.layerMap appChain = some 1 ∧ s.diffIDs 1 = [lengthDigest "base", lengthDigest "app"]) ∧
      s.layerMap (lengthDigest "one two") = some 2 ∧ s.diffIDs 2 = [lengthDigest "one two"] := by
  exact exists_run _ (by decide +kernel) fun _ _ h => h

/-- `Get` returns a layer for the chain id of two layers, for a first diff id that is empty, and for
a chain id that is the diff id of a layer. -/
theorem layer_identity_ambiguous :
    ∃ s, Reachable (restrict (stepRestart lengthDigest) fun _ e => e.proper) emptyStore s ∧
      (∀ x ∈ ["base", "app", lengthDigest "base" ++ " " ++ lengthDigest "app", "one two"],
        ∀ y ∈ ["base", "app", lengthDigest "base" ++ " " ++ lengthDigest "app", "one two"],
          lengthDigest x = lengthDigest y → x = y) ∧
      ∀ r ∈ [RootFS.mk [appChain], ⟨["", lengthDigest "base"]⟩, ⟨["one", "two"]⟩],
        ∃ s' l, s.get (r.chainID lengthDigest) = some s' ∧
          s'.pc s.nextCall = some (.returned (.layer l)) ∧ s.diffIDs l.roLayer ≠ r.diffIDs := by
  obtain ⟨s, hs, ⟨h0, d0⟩, ⟨h1, d1⟩, h2, d2⟩ := identityRun_layers
  refine ⟨s, ⟨identityRun, hs⟩, by decide +kernel, ?_⟩
  have hget : ∀ {k i ds ds'}, s.layerMap k = some i → s.diffIDs i = ds → ds ≠ ds' →
      ∃ s' l, s.get k = some s' ∧ s'.pc s.nextCall = some (.returned (.layer l)) ∧
        s.diffIDs l.roLayer ≠ ds' := by
    rintro k i _ ds' hk rfl hne
    simp only [State.get, hk]
    exact ⟨_, s.newHandle i, rfl, update_self .., hne⟩
  simp only [forall_mem_cons, not_mem_nil, false_imp_iff, implies_true, and_true]
  exact ⟨hget h1 d1 (by decide +kernel), hget h0 d0 (by decide +kernel),
    hget h2 d2 (by decide +kernel)⟩

/-- The image with the two diff ids gets the child. -/
theorem layer_identity_app : ∃ s, Reachable (restrict (stepRestart lengthDigest) fun _ e =>
      e.proper) emptyStore s ∧
      s.layerMap appChain = some 1 ∧ appChain = createChainID lengthDigest (s.diffIDs 1) ∧
      s.diffIDs 1 = [lengthDigest "base", lengthDigest "app"] := by
  obtain ⟨s, hs, -, ⟨h1, d1⟩, -⟩ := identityRun_layers
  have hreach : Reachable (restrict (stepRestart lengthDigest) fun _ e => e.proper) emptyStore s :=
    ⟨identityRun, hs⟩
  obtain ⟨hkey, hget⟩ := layer_identity validateDigest_lengthDigest hreach
  have hstrings : chainStrings lengthDigest [lengthDigest "base", lengthDigest "app"] =
      [lengthDigest "base" ++ " " ++ lengthDigest "app"] := by
    decide +kernel
  refine ⟨s, hreach, h1, (hkey _ _ h1).2, hget ⟨[lengthDigest "base", lengthDigest "app"]⟩ _
    (s.newHandle 1) (by
      unfold State.get
      rw [show RootFS.chainID lengthDigest _ = appChain by decide +kernel, h1])
      (Function.update_self ..) (by simp) (by simp [lengthDigest]) ?_ ?_ ?_⟩
  · simp only [State.newHandle, d1, hstrings, or_self, List.mem_singleton,
      Set.ofPred_eq_eq_singleton]
    exact Set.injOn_singleton ..
  · simp only [State.newHandle, d1, hstrings, List.mem_singleton, forall_eq]
    decide +kernel
  · simp only [State.newHandle, d1, hstrings, List.mem_singleton, forall_eq]
    decide +kernel

end Docker.Layer
