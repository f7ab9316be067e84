import Docker.Layer.Ownership

/-!
# Layers and their data

Each layer of `layerMap` has its graph layer in the driver and its directory in the metadata store,
in runs in which no deletion stops between the two.
-/

namespace Docker.Layer
open Transition Function State Bool

/-- The layer of a call whose graph layer is in the driver. -/
def Pc.stored : Pc → Option LayerData
  | .startingTransaction l | .applyingTar l | .storingLayer l | .committing l _
  | .registeringGraphID l => some l
  | _ => none

structure Backing (s : State) : Prop where
  layer : ∀ {k i}, s.layerMap k = some i → s.driver (s.layers i).cacheID = true ∧ k ∈ s.store.layers
  call : ∀ {c q l}, s.pc c = some q → q.stored = some l → s.driver l.cacheID = true

/-- Neither a layer nor a call other than `c` counts on this graph layer. -/
structure Unneeded (s : State) (c : Nat) (gid : String) : Prop where
  layer : ∀ {k i}, s.layerMap k = some i → (s.layers i).cacheID ≠ gid
  call : ∀ {c' q l}, c' ≠ c → s.pc c' = some q → q.stored = some l → l.cacheID ≠ gid

section
variable {s : State} {q : Pc}

theorem Pc.graphID_of_stored (h : q.stored = some l) : q.graphID = some l.cacheID := by
  cases q <;> cases h <;> rfl

theorem afterParent_stored (m : MountedLayer) (kind : MountKind) :
    (afterParent m kind).stored = none := by
  rcases kind with (_ | _) | _ <;> rfl

theorem Pc.registering_of_stored (h : q.stored = some l) : q.registering = some l := by
  cases q <;> cases h <;> rfl

theorem Owned.unneeded (O : Owned s) {o : Owner} (h : s.Owns o gid) (ho : ∀ i, o ≠ .layer i)
    (hc : ∀ c', o = .call c' → c' = c) : Unneeded s c gid where
  layer hk he := by
    subst he
    exact ho _ (O.unique h (.layer hk))
  call hne hpc hq he := by
    subst he
    exact hne (hc _ (O.unique h (.call hpc (Pc.graphID_of_stored hq))))

theorem isRandomID_initID (id : String) : isRandomID (initID id) = false := by
  have hlist : (initID id).toList = id.toList ++ "-init".toList := by simp [initID]
  have hhex : "-init".toList.all isLowerHex = false := by decide
  unfold isRandomID
  rw [hlist, List.all_append, hhex, Bool.and_false, Bool.and_false]

theorem Owned.unneeded_init (O : Owned s) (c : Nat) (id : String) : Unneeded s c (initID id) where
  layer hk he := by
    have h := O.layer hk
    rw [he, isRandomID_initID] at h
    cases h
  call _ hpc hq he := by
    have h := (O.call hpc).layer (Pc.registering_of_stored hq)
    rw [he, isRandomID_initID] at h
    cases h

end

namespace Backing

variable {s s' : State} {c i : Nat}

theorem init (driver : String → Bool) : Backing { emptyStore with driver } where
  layer h := nomatch h
  call h := nomatch h

section
variable (B : Backing s)
include B

/-- A call moves on; graph layers come, and those nobody needs may go. -/
theorem move (hpc : s'.pc = update s.pc c (some q))
    (hdriver : ∀ {gid}, s.driver gid = true → s'.driver gid = true ∨ Unneeded s c gid)
    (hq : ∀ {l}, q.stored = some l → s'.driver l.cacheID = true)
    (hl : ∀ i, (s'.layers i).toLayerData = (s.layers i).toLayerData := by exact fun _ => rfl)
    (hmap : s'.layerMap = s.layerMap := by rfl) (hst : s'.store.layers = s.store.layers := by rfl) :
    Backing s' where
  layer {k i} h := by
    rw [hmap] at h
    have hcache : (s'.layers i).cacheID = (s.layers i).cacheID := congrArg LayerData.cacheID (hl i)
    obtain ⟨hd, hk⟩ := B.layer h
    rw [hcache, hst]
    exact ⟨(hdriver hd).resolve_right fun U => U.layer h rfl, hk⟩
  call {c' q' l} h hq' := by
    rw [hpc] at h
    rcases update_eq_some h with ⟨rfl, rfl⟩ | ⟨hne, h⟩
    · exact hq hq'
    · exact (hdriver (B.call h hq')).resolve_right fun U => U.call hne h hq' rfl

theorem keep (hpc : s'.pc = update s.pc c (some q))
    (hl : ∀ i, (s'.layers i).toLayerData = (s.layers i).toLayerData := by exact fun _ => rfl)
    (hq : q.stored = none := by rfl) (hdriver : s'.driver = s.driver := by rfl)
    (hmap : s'.layerMap = s.layerMap := by rfl) (hst : s'.store.layers = s.store.layers := by rfl) :
    Backing s' := by
  refine B.move hpc (fun h => .inl (hdriver ▸ h)) (fun h => ?_) hl hmap hst
  rw [hq] at h
  cases h

theorem created (gid : String) (hpc : s'.pc = update s.pc c (some q))
    (hq : ∀ {l}, q.stored = some l → l.cacheID = gid)
    (hdriver : s'.driver = update s.driver gid true := by rfl)
    (hl : ∀ i, (s'.layers i).toLayerData = (s.layers i).toLayerData := by exact fun _ => rfl)
    (hmap : s'.layerMap = s.layerMap := by rfl) (hst : s'.store.layers = s.store.layers := by rfl) :
    Backing s' := by
  have hkeep : ∀ {g}, s.driver g = true → s'.driver g = true := by
    intro g h
    rw [hdriver]
    by_cases hg : g = gid
    · rw [hg, update_self]
    · rwa [update_of_ne hg]
  refine B.move hpc (fun h => .inl (hkeep h)) (fun h => ?_) hl hmap hst
  rw [hq h, hdriver, update_self]

theorem insert (H : Counted s none) (hpc : s.pc c = some q) (hs : q.stored = some l)
    (hst : s.store.commit tx l.chainID = some st) (r : Result) :
    Backing (((s.setStore st).insertLayer l).setPc c (.returned r)) := by
  simp only [MetadataStore.commit, Option.ite_none_left_eq_some, Option.some.injEq] at hst
  obtain ⟨-, rfl⟩ := hst
  constructor
  case layer =>
    intro k i h
    change s.driver _ = true ∧ k ∈ s.store.layers.insert l.chainID tx
    rw [AList.mem_insert]
    rcases update_eq_some h with ⟨rfl, rfl⟩ | ⟨-, h⟩
    · refine ⟨?_, .inl rfl⟩
      simpa [insertLayer] using B.call hpc hs
    · have hne : i ≠ s.nextLayer := Nat.ne_of_lt (H.keyed h).1
      obtain ⟨hd, hk⟩ := B.layer h
      refine ⟨?_, .inr hk⟩
      simpa [insertLayer, hne] using hd
  case call =>
    intro c' q' l' h hq'
    rcases update_eq_some h with ⟨-, rfl⟩ | ⟨-, h⟩
    · cases hq'
    · exact B.call h hq'

theorem delete (H : Counted s none) (O : Owned s) (hi : s.present i) :
    Backing ((deleteLayer .ok s i).1.deleteEntry i) := by
  have hdriver : ∀ {gid}, gid ≠ (s.layers i).cacheID → s.driver gid = true →
      ((deleteLayer .ok s i).1.deleteEntry i).driver gid = true := by
    intro gid hne h
    change update s.driver (s.layers i).cacheID false gid = true
    rwa [update_of_ne hne]
  constructor
  case layer =>
    intro k j h
    change update s.layerMap (s.layers i).chainID none k = some j at h
    by_cases hk : k = (s.layers i).chainID
    · rw [hk, update_self] at h
      cases h
    · rw [update_of_ne hk] at h
      obtain ⟨hd, hmem⟩ := B.layer h
      refine ⟨hdriver (fun he => ?_) hd, AList.mem_erase.2 ⟨hk, hmem⟩⟩
      have howns : s.Owns (.layer j) (s.layers i).cacheID := he ▸ .layer h
      cases O.unique howns (.layer hi)
      exact hk (H.keyed h).2.symm
  case call =>
    intro c q l h hq
    refine hdriver (fun he => ?_) (B.call h hq)
    have howns : s.Owns (.call c) (s.layers i).cacheID := he ▸ .call h (Pc.graphID_of_stored hq)
    cases O.unique howns (.layer hi)

theorem modifyLayer (hf : (f (s.layers i)).toLayerData = (s.layers i).toLayerData) :
    Backing (s.modifyLayer i f) where
  layer {k j} h := by
    have hcache := congrArg LayerData.cacheID (s.modifyLayer_data hf j)
    rw [hcache]
    exact B.layer h
  call := B.call

theorem releaseLayer (O : Owned s) (H : Counted s (some i))
    (hfates : .storeFails ∉ fates) : Backing (releaseLayer fates s i).1 := by
  refine (releaseLayer_inv (Q := fun s => Owned s ∧ Backing s) ?_ ?_ ?_ H ⟨O, B⟩).2.1.2
  · intro s i h
    exact ⟨h.1.released (.decrement ..), h.2.modifyLayer rfl⟩
  · intro s i fate hmem _ _ _ h hnone
    cases fate with
    | ok => cases hnone
    | driverFails => exact h
    | storeFails => exact (hfates hmem).elim
  · intro s i H hi _ h
    exact ⟨h.1.released ((Released.deleteLayer ..).trans (.deleteEntry ..)), h.2.delete H h.1 hi⟩

theorem setReturned (c : Nat) (r : Result) : Backing (s.setPc c (.returned r)) :=
  B.keep rfl

theorem ret (c : Nat) (r : Result) : Backing (s.ret c r) := B.keep rfl

theorem frame
    (hl : ∀ i, (s'.layers i).toLayerData = (s.layers i).toLayerData := by exact fun _ => rfl)
    (hst : s'.store.layers = s.store.layers := by rfl) (hmap : s'.layerMap = s.layerMap := by rfl)
    (hpc : s'.pc = s.pc := by rfl) (hdriver : s'.driver = s.driver := by rfl) : Backing s' where
  layer {k i} h := by
    have hcache : (s'.layers i).cacheID = (s.layers i).cacheID := congrArg LayerData.cacheID (hl i)
    rw [hcache, hst, hdriver]
    exact B.layer (hmap ▸ h)
  call h hq := by
    rw [hdriver]
    exact B.call (hpc ▸ h) hq

theorem saveMount (hw : writes ⊆ s.saveMount m) :
    Backing (s.setStore (writes.foldl (fun st w => w st) s.store)) :=
  B.frame (fun _ => rfl) (s.foldl_saveMount_layers hw _)

end

theorem driver_update (h : s.driver g = true) (U : Unneeded s c gid) :
    update s.driver gid false g = true ∨ Unneeded s c g := by
  by_cases hg : g = gid
  · exact .inr (hg ▸ U)
  · rw [update_of_ne hg]
    exact .inl h

theorem driver_removeMountLayers (m : MountedLayer) (h : s.driver gid = true) :
    (s.removeMountLayers m).driver gid = true ∨ gid = m.mountID ∨ m.initID ≠ "" ∧
      gid = m.initID := by
  unfold removeMountLayers
  by_cases h1 : gid = m.mountID
  · exact .inr (.inl h1)
  · by_cases h2 : m.initID = ""
    · simp [h1, h2, h]
    · by_cases h3 : gid = m.initID
      · exact .inr (.inr ⟨h2, h3⟩)
      · simp [h1, h2, h3, h]

end Backing

theorem Owned.driver_unmount (O : Owned s) (hm : s.mounts n = some m) (c : Nat) :
    ∀ gid, s.driver gid = true →
      (s.newCall.removeMountLayers (s.mountedLayers m)).driver gid = true ∨ Unneeded s c gid := by
  intro gid h
  rcases Backing.driver_removeMountLayers (s := s.newCall) (s.mountedLayers m) h with
    h | rfl | ⟨hne, rfl⟩
  · exact .inl h
  · exact .inr (O.unneeded (.mount hm) nofun nofun)
  · rw [(O.mount hm).resolve_left hne]
    exact .inr (O.unneeded_init ..)

/-- No deletion stops half-way, and the graph ids that are handed in are new, those of layers also
present in the driver. -/
def intact (s : State) (l : Label) : Bool :=
  newGraphIDs s l && match l with
    | .release _ fates | .releaseParent _ fates | .releaseMountParent _ fates =>
      decide (.storeFails ∉ fates)
    | .registerByGraphID graphID _ _ _ => s.driver graphID
    | _ => true

namespace Backing

variable {s s' : State} {c i : Nat}

theorem beginMount (B : Backing s) (hq : q.stored = none) :
    Backing (((s.newCall.useID graphID).lockMounts c).setPc c q) :=
  B.keep rfl (fun _ => rfl) hq

theorem step (B : Backing s) (O : Owned s)
    (H : Counted s none) (hlbl : intact s lbl = true) (h : step fromBytes lbl s = some s') :
    Backing s' := by
  cases step_cases h with
  | registerTooDeep | registerChild => exact B.keep rfl (retain_data _ _)
  | get | commitExists | graphExists =>
    exact B.keep rfl fun j => (getReference_data _ _ j).trans (retain_data _ _ j)
  | mountRoot | graphMountRoot => exact B.beginMount (afterParent_stored ..)
  | mountChild | graphMountChild => exact B.beginMount rfl
  | parentFound => exact B.keep rfl (retain_data _ _) (afterParent_stored ..)
  | graphRoot =>
    obtain ⟨-, hd⟩ := and_eq_true_iff.1 hlbl
    refine B.move rfl .inl ?_
    rintro _ ⟨⟩
    exact hd
  | graphChild =>
    obtain ⟨-, hd⟩ := and_eq_true_iff.1 hlbl
    refine B.move rfl .inl ?_ (retain_data _ _)
    rintro _ ⟨⟩
    exact hd
  | driverCreated hpc =>
    refine B.created _ rfl ?_
    rintro _ ⟨⟩
    rfl
  | initFails | initialized | readWriteCreated =>
    exact B.created _ rfl nofun
  | transactionStarted hpc | tarApplied hpc | layerStored hpc =>
    have hd := B.call hpc rfl
    refine B.move rfl .inl ?_
    rintro _ ⟨⟩
    exact hd
  | committed hpc _ hst | graphCommitted hpc _ hst => exact B.insert H hpc rfl hst _
  | cleanedUp hpc =>
    refine B.move rfl (fun h => driver_update h ?_) nofun
    exact O.unneeded (.call hpc rfl) nofun fun _ h => (Owner.call.inj h).symm
  | parentReleased hpc | mountParentReleased hpc =>
    obtain ⟨-, hfates⟩ := and_eq_true_iff.1 hlbl
    exact ((B.setReturned ..).releaseLayer (O.setReturned ..) (H.letGo _ hpc rfl)
      (of_decide_eq_true hfates)).ret ..
  | @release i l fates s hk hl =>
    obtain ⟨-, hfates⟩ := and_eq_true_iff.1 hlbl
    have B₁ : Backing (s.newCall.deleteReference i l) := B.frame (deleteReference_data _ _ _)
    exact (B₁.releaseLayer O.newCall.deleteReference
      (H.newCall.deleteReference (H.present_of_key hk) hl)
        (of_decide_eq_true hfates)).setReturned ..
  | saveFails => exact (B.saveMount (List.take_subset ..)).keep rfl
  | savedByGraphID | saved => exact (B.saveMount (List.Subset.refl _)).keep rfl
  | unmountInitFails _ hm =>
    refine B.move rfl (fun h => driver_update h ?_) nofun
    exact O.unneeded (.mount hm) nofun nofun
  | unmountStoreFails _ hm hd | unmounted _ hm hd =>
    have hdriver := O.driver_unmount hm s.nextCall
    rw [hd] at hdriver
    exact B.move rfl (hdriver _) nofun
  | _ =>
    exact B.keep rfl

end Backing

/-! ## Runs -/

structure Backed (s : State) : Prop where
  sound : Sound s
  owned : Owned s
  backing : Backing s

theorem Backed.of_reachable {driver : String → Bool}
    (h : Reachable (restrict (step fromBytes) intact) { emptyStore with driver } s) : Backed s := by
  refine h.inv (fun {l s s'} B h => ?_)
    ⟨⟨Counted.init.frame, ⟨nofun⟩, ⟨nofun⟩⟩, .init driver, .init driver⟩
  obtain ⟨hintact, h⟩ := restrict_eq_some.1 h
  have H := B.sound.counted
  exact ⟨B.sound.step h, B.owned.step H (and_eq_true_iff.1 hintact).1 h,
    B.backing.step B.owned H hintact h⟩

end Docker.Layer
