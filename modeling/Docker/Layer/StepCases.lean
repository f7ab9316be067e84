import Docker.Layer.Step

/-!
# What a step can do

The steps of the layer store as a relation with one constructor for each branch, for proofs by cases
on a step.
-/

namespace Docker.Layer

open Option

section
variable (fromBytes : String → String)

inductive Step : Label → State → State → Prop where
  -- A call that returns at once, with nothing changed.
  | refused : (∀ p, r ≠ .panic p) → Step l s (s.newCall.setPc s.nextCall (.returned r))
  -- `registerWithDescriptor`
  | registerRoot : s.fresh gid = true → Step (.register "" descriptor gid) s
      ((s.newCall.useID gid).setPc s.nextCall (.creating (newLayer none gid descriptor)))
  | registerTooDeep : parent ≠ "" → s.layerMap parent = some p → maxLayerDepth ≤ s.depth p →
    Step (.register parent descriptor gid) s
      ((s.newCall.retain p).setPc s.nextCall (.releasingParent (some p) (.err .maxDepthExceeded)))
  | registerChild : s.fresh gid = true → parent ≠ "" → s.layerMap parent = some p →
    Step (.register parent descriptor gid) s (((s.newCall.useID gid).retain p).setPc s.nextCall
        (.creating (newLayer (some p) gid descriptor)))
  | driverCreated : s.pc c = some (.creating l) → Step (.driverCreate c true) s
      ((s.driverSet l.cacheID true).setPc c (.startingTransaction l))
  | driverCreateFails : s.pc c = some (.creating l) →
    Step (.driverCreate c false) s (s.setPc c (.releasingParent l.parent (.err .io)))
  | transactionStarted : s.pc c = some (.startingTransaction l) →
    Step (.startTransaction c true) s (s.setPc c (.applyingTar l))
  | transactionFails : s.pc c = some (.startingTransaction l) →
    Step (.startTransaction c false) s (s.setPc c (.releasingParent l.parent (.err .io)))
  | tarApplied : s.pc c = some (.applyingTar l) → Step (.applyTar c (some (tar, size))) s
      (s.setPc c (.storingLayer (s.identify fromBytes l tar size)))
  | tarFails : s.pc c = some (.applyingTar l) →
    Step (.applyTar c none) s (s.setPc c (.cleaningUp l (.err .io)))
  | layerStored : s.pc c = some (.storingLayer l) →
    Step (.storeLayer c true) s (s.setPc c (.committing l (s.storeLayer l)))
  | storeFails : s.pc c = some (.storingLayer l) →
    Step (.storeLayer c false) s (s.setPc c (.cleaningUp l (.err .io)))
  | commitExists : s.pc c = some (.committing l tx) → s.layerMap l.chainID = some i →
    Step (.commit c ok) s
      (((s.retain i).getReference i).setPc c (.cleaningUp l (.layer (s.newHandle i))))
  | commitFails : s.pc c = some (.committing l tx) → s.layerMap l.chainID = none →
    (ok = true → l.chainID ∈ s.store.layers) →
    Step (.commit c ok) s (s.setPc c (.cleaningUp l (.err .io)))
  | committed : s.pc c = some (.committing l tx) → s.layerMap l.chainID = none →
    s.store.commit tx l.chainID = some st →
    Step (.commit c true) s
      (((s.setStore st).insertLayer l).setPc c (.returned (.layer (s.newHandle s.nextLayer))))
  | cleanedUp : s.pc c = some (.cleaningUp l r) → Step (.cleanUp c true) s
      ((s.driverSet l.cacheID false).setPc c (.releasingParent l.parent r))
  | cleanUpFails : s.pc c = some (.cleaningUp l r) →
    Step (.cleanUp c false) s (s.setPc c (.releasingParent l.parent r))
  | noParent : s.pc c = some (.releasingParent none r) → Step (.releaseParent c fates) s (s.ret c r)
  | parentReleased : s.pc c = some (.releasingParent (some p) r) → Step (.releaseParent c fates) s
      ((releaseLayer fates (s.setPc c (.returned r)) p).1.ret c
        (r.orPanic (releaseLayer fates (s.setPc c (.returned r)) p).2))
  -- `RegisterByGraphID`
  | graphRoot : Step (.registerByGraphID gid "" diffID size) s
    ((s.newCall.useID gid).setPc s.nextCall
        (.registeringGraphID (newGraphLayer fromBytes none "" gid diffID size)))
  | graphChild : parent ≠ "" → s.layerMap parent = some p →
    Step (.registerByGraphID gid parent diffID size) s
      (((s.newCall.useID gid).retain p).setPc s.nextCall
        (.registeringGraphID (newGraphLayer fromBytes (some p) parent gid diffID size)))
  | graphExists : s.pc c = some (.registeringGraphID l) → s.layerMap l.chainID = some i →
    Step (.commitGraphID c ok) s
      (((s.retain i).getReference i).setPc c (.releasingParent l.parent (.layer (s.newHandle i))))
  | graphFails : s.pc c = some (.registeringGraphID l) → s.layerMap l.chainID = none →
    Step (.commitGraphID c ok) s (s.setPc c (.releasingParent l.parent (.err .io)))
  | graphCommitted : s.pc c = some (.registeringGraphID l) → s.layerMap l.chainID = none →
    s.store.commit (s.storeLayer l) l.chainID = some st →
    Step (.commitGraphID c true) s
      (((s.setStore st).insertLayer l).setPc c (.returned (.layer (s.newHandle s.nextLayer))))
  -- `Get` and `Release`
  | get : s.layerMap layer = some i → Step (.get layer) s
      (((s.newCall.retain i).getReference i).setPc s.nextCall (.returned (.layer (s.newHandle i))))
  | release : s.layerMap (s.layers l.roLayer).chainID = some i → l ∈ (s.layers i).references →
    Step (.release l fates) s
      ((releaseLayer fates (s.newCall.deleteReference i l) i).1.setPc s.nextCall
        (.returned (releaseLayer fates (s.newCall.deleteReference i l) i).2))
  -- `CreateRWLayer` and `CreateRWLayerByGraphID`
  | mountRoot : s.mountL = none → s.fresh gid = true → s.mounts name = none →
    Step (.createRWLayer name "" init gid) s
      (((s.newCall.useID gid).lockMounts s.nextCall).setPc s.nextCall
        (afterParent (newMount name gid) (.new init)))
  | mountChild : s.mountL = none → s.fresh gid = true → s.mounts name = none → parent ≠ "" →
    Step (.createRWLayer name parent init gid) s
      (((s.newCall.useID gid).lockMounts s.nextCall).setPc s.nextCall
        (.gettingParent (newMount name gid) parent (.new init)))
  | graphMountTaken : s.mounts name = some i → Step (.createRWLayerByGraphID name gid parent ok) s
      (s.newCall.setPc s.nextCall (.returned (s.compareMount (s.mountedLayers i) gid parent)))
  | graphMountRoot : s.mountL = none → s.mounts name = none → s.driver gid = true →
    Step (.createRWLayerByGraphID name gid "" true) s
      (((s.newCall.useID gid).lockMounts s.nextCall).setPc s.nextCall
        (afterParent (newMount name gid) .byGraphID))
  | graphMountChild : s.mountL = none → s.mounts name = none → s.driver gid = true → parent ≠ "" →
    Step (.createRWLayerByGraphID name gid parent true) s
      (((s.newCall.useID gid).lockMounts s.nextCall).setPc s.nextCall
        (.gettingParent (newMount name gid) parent .byGraphID))
  | parentMissing : s.pc c = some (.gettingParent m parent kind) → s.layerMap parent = none →
    Step (.getParent c) s (s.ret c (.err .layerDoesNotExist))
  | parentFound : s.pc c = some (.gettingParent m parent kind) → s.layerMap parent = some p →
    Step (.getParent c) s ((s.retain p).setPc c (afterParent { m with parent := some p } kind))
  | initCreateFails : s.pc c = some (.initializingMount m) → Step (.initMount c .createFails) s
      (s.setPc c (.releasingParent m.parent (.err .io)))
  | initFails : s.pc c = some (.initializingMount m) → Step (.initMount c .initFails) s
      ((s.driverSet (initID m.mountID) true).setPc c (.releasingParent m.parent (.err .io)))
  | initialized : s.pc c = some (.initializingMount m) → Step (.initMount c .ok) s
      ((s.driverSet (initID m.mountID) true).setPc c
        (.creatingReadWrite { m with initID := initID m.mountID }))
  | readWriteFails : s.pc c = some (.creatingReadWrite m) →
    Step (.createReadWrite c false) s (s.setPc c (.releasingParent m.parent (.err .io)))
  | readWriteCreated : s.pc c = some (.creatingReadWrite m) → Step (.createReadWrite c true) s
      ((s.driverSet m.mountID true).setPc c (.savingMount m (.new false)))
  | initExists : s.pc c = some (.checkingInit m) → s.driver (initID m.mountID) = true →
    Step (.existsInit c true) s (s.setPc c
      (.savingMount { m with initID := initID m.mountID } .byGraphID))
  | initMissing : s.pc c = some (.checkingInit m) →
    Step (.existsInit c ok) s (s.setPc c (.savingMount m .byGraphID))
  | saveFails : s.pc c = some (.savingMount m kind) → k < (s.saveMount m).length →
    Step (.saveMount c (some k)) s
      ((s.setStore (((s.saveMount m).take k).foldl (fun st w => w st) s.store)).setPc c
        (.releasingParent m.parent (.err .io)))
  | savedByGraphID : s.pc c = some (.savingMount m .byGraphID) → Step (.saveMount c none) s
      (((s.setStore ((s.saveMount m).foldl (fun st w => w st) s.store)).insertMount m).ret c .nil)
  | saved : s.pc c = some (.savingMount m (.new init)) → Step (.saveMount c none) s
      ((((s.setStore ((s.saveMount m).foldl (fun st w => w st) s.store)).insertMount
        m).getRWReference s.nextMount).ret c (.rwLayer s.nextMount s.nextRef))
  -- `GetRWLayer` and `ReleaseRWLayer`
  | getRWLayer : s.mounts name = some m → Step (.getRWLayer name) s
      ((s.newCall.getRWReference m).setPc s.nextCall (.returned (.rwLayer m s.nextRef)))
  | unmountShared : s.mountL = none → s.mounts name = some m →
    Step (.releaseRWLayer name ref fate) s
      ((s.newCall.deleteRWReference m ref).setPc s.nextCall (.returned (.metadata [])))
  | unmountInitFails : s.mountL = none → s.mounts name = some m →
    Step (.releaseRWLayer name ref .initFails) s
      ((s.newCall.driverSet (s.mountedLayers m).mountID false).setPc s.nextCall
        (.returned (.err .io)))
  | unmountStoreFails : s.mountL = none → s.mounts name = some m →
    s.newCall.removeMountLayers (s.mountedLayers m) = { s.newCall with driver } →
    Step (.releaseRWLayer name ref .storeFails) s
      ({ s.newCall with driver }.setPc s.nextCall (.returned (.err .io)))
  | unmounted : s.mountL = none → s.mounts name = some m →
    s.newCall.removeMountLayers (s.mountedLayers m) = { s.newCall with driver } →
      Step (.releaseRWLayer name ref .ok) s
      (((({ s.newCall with driver }.setStore (s.store.removeMount name)).deleteMount
        name).lockMounts
        s.nextCall).setPc s.nextCall (.releasingMountParent (s.mountedLayers m).parent))
  | noMountParent : s.pc c = some (.releasingMountParent none) →
    Step (.releaseMountParent c fates) s (s.ret c (.metadata []))
  | mountParentReleased : s.pc c = some (.releasingMountParent (some p)) →
    Step (.releaseMountParent c fates) s
      ((releaseLayer fates (s.setPc c (.returned .nil)) p).1.ret c
        (releaseLayer fates (s.setPc c (.returned .nil)) p).2)

end

theorem step_cases (h : step fromBytes l s = some s') : Step fromBytes l s s' := by
  cases l with
  | register parent descriptor gid =>
    simp only [step, State.register, ite_none_right_eq_some] at h
    obtain ⟨hfresh, h⟩ := h
    split at h
    next hp =>
      subst hp
      cases h
      exact .registerRoot hfresh
    next hp =>
      split at h
      next hm =>
        cases h
        exact .refused nofun
      next p hm =>
        split at h <;> cases h
        next hd => exact .registerTooDeep hp hm hd
        next => exact .registerChild hfresh hp hm
  | registerByGraphID gid parent diffID size =>
    simp only [step, State.registerByGraphID] at h
    split at h
    next hp =>
      subst hp
      cases h
      exact .graphRoot
    next hp =>
      split at h <;> cases h
      next hm => exact .refused nofun
      next p hm => exact .graphChild hp hm
  | get layer =>
    simp only [step, State.get] at h
    split at h <;> cases h
    next hm => exact .refused nofun
    next i hm => exact .get hm
  | release l fates =>
    simp only [step, State.release] at h
    split at h
    next hm =>
      cases h
      exact .refused nofun
    next i hm =>
      split at h <;> cases h
      next hl => exact .release hm hl
      next hl => exact .refused nofun
  | createRWLayer name parent init gid =>
    simp only [step, State.createRWLayer, ite_none_right_eq_some] at h
    obtain ⟨⟨hmu, hfresh⟩, h⟩ := h
    split at h
    next i hm =>
      cases h
      exact .refused nofun
    next hm =>
      split at h <;> cases h
      next hp =>
        subst hp
        exact .mountRoot hmu hfresh hm
      next hp => exact .mountChild hmu hfresh hm hp
  | createRWLayerByGraphID name gid parent ok =>
    simp only [step, State.createRWLayerByGraphID, ite_none_right_eq_some] at h
    obtain ⟨hmu, h⟩ := h
    split at h
    next i hm =>
      cases h
      exact .graphMountTaken hm
    next hm =>
      split at h
      next hok =>
        obtain ⟨rfl, hd⟩ := hok
        split at h <;> cases h
        next hp =>
          subst hp
          exact .graphMountRoot hmu hm hd
        next hp => exact .graphMountChild hmu hm hd hp
      next =>
        cases h
        exact .refused nofun
  | getRWLayer name =>
    simp only [step, State.getRWLayer, ite_none_right_eq_some] at h
    obtain ⟨hmu, h⟩ := h
    split at h <;> cases h
    next hm => exact .refused nofun
    next m hm => exact .getRWLayer hm
  | releaseRWLayer name ref fate =>
    simp only [step, State.releaseRWLayer, ite_none_right_eq_some] at h
    obtain ⟨hmu, h⟩ := h
    split at h
    next hm =>
      cases h
      exact .refused nofun
    next m hm =>
      split at h
      next hr =>
        cases h
        exact .refused nofun
      next hr =>
        split at h
        next =>
          cases h
          exact .unmountShared hmu hm
        next =>
          split at h
          next =>
            cases h
            exact .refused nofun
          next =>
            split at h <;> cases h
            exact .unmountInitFails hmu hm
          next =>
            cases h
            obtain ⟨driver, hd⟩ := s.newCall.removeMountLayers_eq (s.mountedLayers m)
            rw [hd]
            exact .unmountStoreFails hmu hm hd
          next =>
            cases h
            obtain ⟨driver, hd⟩ := s.newCall.removeMountLayers_eq (s.mountedLayers m)
            rw [hd]
            exact .unmounted hmu hm hd
  | driverCreate c ok =>
    simp only [step, State.driverCreate] at h
    split at h
    next l hpc =>
      cases ok <;> cases h
      · exact .driverCreateFails hpc
      · exact .driverCreated hpc
    next => cases h
  | startTransaction c ok =>
    simp only [step, State.startTransaction] at h
    split at h
    next l hpc =>
      cases ok <;> cases h
      · exact .transactionFails hpc
      · exact .transactionStarted hpc
    next => cases h
  | applyTar c applied =>
    simp only [step, State.applyTar] at h
    split at h
    next l hpc =>
      split at h <;> cases h
      · exact .tarApplied hpc
      · exact .tarFails hpc
    next => cases h
  | storeLayer c ok =>
    simp only [step, State.storeTransaction] at h
    split at h
    next l hpc =>
      cases ok <;> cases h
      · exact .storeFails hpc
      · exact .layerStored hpc
    next => cases h
  | commit c ok =>
    simp only [step, State.commit] at h
    split at h
    next l tx hpc =>
      split at h
      next i hm =>
        cases h
        exact .commitExists hpc hm
      next hm =>
        split at h <;> cases h
        next hst =>
          refine .commitFails hpc hm fun hok => ?_
          simpa [hok, MetadataStore.commit] using hst
        next st hst =>
          cases ok
          · cases hst
          · exact .committed hpc hm hst
    next => cases h
  | cleanUp c ok =>
    simp only [step, State.cleanUp] at h
    split at h
    next l r hpc =>
      cases ok <;> cases h
      · exact .cleanUpFails hpc
      · exact .cleanedUp hpc
    next => cases h
  | commitGraphID c ok =>
    simp only [step, State.commitGraphID] at h
    split at h
    next l hpc =>
      split at h
      next i hm =>
        cases h
        exact .graphExists hpc hm
      next hm =>
        split at h <;> cases h
        next hst => exact .graphFails hpc hm
        next st hst =>
          cases ok
          · cases hst
          · exact .graphCommitted hpc hm hst
    next => cases h
  | releaseParent c fates =>
    simp only [step, State.releaseParent] at h
    split at h <;> cases h
    next hpc => exact .noParent hpc
    next hpc => exact .parentReleased hpc
  | getParent c =>
    simp only [step, State.getParent] at h
    split at h
    next m parent kind hpc =>
      split at h <;> cases h
      next hm => exact .parentMissing hpc hm
      next hm => exact .parentFound hpc hm
    next => cases h
  | initMount c fate =>
    simp only [step, State.initMount] at h
    split at h
    next m hpc =>
      cases fate <;> cases h
      · exact .initialized hpc
      · exact .initCreateFails hpc
      · exact .initFails hpc
    next => cases h
  | createReadWrite c ok =>
    simp only [step, State.createReadWrite] at h
    split at h
    next m hpc =>
      cases ok <;> cases h
      · exact .readWriteFails hpc
      · exact .readWriteCreated hpc
    next => cases h
  | existsInit c ok =>
    simp only [step, State.existsInit] at h
    split at h
    next m hpc =>
      split at h <;> cases h
      next hok =>
        obtain ⟨rfl, hd⟩ := hok
        exact .initExists hpc hd
      next => exact .initMissing hpc
    next => cases h
  | saveMount c fails =>
    simp only [step, State.finishMount] at h
    split at h
    next m kind hpc =>
      split at h
      next k =>
        simp only [ite_none_right_eq_some] at h
        obtain ⟨hk, h⟩ := h
        cases h
        exact .saveFails hpc hk
      next =>
        split at h <;> cases h
        · exact .savedByGraphID hpc
        · exact .saved hpc
    next => cases h
  | releaseMountParent c fates =>
    simp only [step, State.releaseMountParent] at h
    split at h <;> cases h
    next hpc => exact .noMountParent hpc
    next hpc => exact .mountParentReleased hpc

end Docker.Layer
