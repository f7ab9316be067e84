import Docker.Lib.Transition
import Docker.Layer.Counted

/-!
# Reference counts

In every reachable state the reference count of a layer is the number of its holders: no section of
an operation ends with a layer in hand.
-/

namespace Docker.Layer
open Transition

/-! ## The mounts under construction -/

def Pc.building : Pc → Option MountedLayer
  | .gettingParent m _ _ | .initializingMount m | .creatingReadWrite m | .checkingInit m
  | .savingMount m _ => some m
  | _ => none

@[simp] theorem afterParent_building (m : MountedLayer) (kind : MountKind) :
    (afterParent m kind).building = some m := by
  rcases kind with (_ | _) | _ <;> rfl

@[simp] theorem afterParent_holds (m : MountedLayer) (kind : MountKind) :
    (afterParent m kind).holds = m.parent := by
  rcases kind with (_ | _) | _ <;> rfl

/-- Who builds a mount has the lock, and its name is free. -/
structure Naming (s : State) : Prop where
  free : ∀ {c p m}, s.pc c = some p → p.building = some m → s.mountL = some c ∧
    s.mounts m.name = none

namespace Naming

variable {s s' : State} {c : Nat}

theorem init : Naming emptyStore := ⟨fun h => nomatch h⟩

theorem update (hpc : s'.pc = Function.update s.pc c (some q))
    (hself : ∀ m, q.building = some m → s'.mountL = some c ∧ s'.mounts m.name = none)
    (hother : ∀ c' p m, c' ≠ c → s.pc c' = some p → p.building = some m →
      s'.mountL = some c' ∧ s'.mounts m.name = none) : Naming s' := by
  refine ⟨fun {c' p m} h hp => ?_⟩
  rw [hpc] at h
  obtain ⟨rfl, rfl⟩ | ⟨hc, h⟩ := update_eq_some h
  · exact hself m hp
  · exact hother c' p m hc h hp

/-- A call moves on, and the lock and the mounts stay as they are. -/
theorem move (N : Naming s) (hpc : s'.pc = Function.update s.pc c (some q))
    (hmu : s'.mountL = s.mountL) (hm : s'.mounts = s.mounts)
    (hself : ∀ m, q.building = some m → s.mountL = some c ∧ s.mounts m.name = none) :
    Naming s' :=
  update hpc (by rwa [hmu, hm]) fun _ _ _ _ h hp => by
    rw [hmu, hm]
    exact N.free h hp

theorem none_building (N : Naming s) (hmu : s.mountL = none) (h : s.pc c = some p) :
    p.building = none := by
  cases hb : p.building with
  | none => rfl
  | some m =>
    rw [(N.free h hb).1] at hmu
    cases hmu

theorem ret (N : Naming s) (r : Result) (hpc : s'.pc = Function.update s.pc c (some (.returned r)))
    (hmu : s'.mountL = if s.mountL = some c then none else s.mountL)
    (hm : ∀ c' p m, c' ≠ c → s.pc c' = some p → p.building = some m → s'.mounts m.name = none) :
    Naming s' := by
  refine update hpc (fun m => nofun) fun c' p m hc h hp => ⟨?_, hm c' p m hc h hp⟩
  have hlock := (N.free h hp).1
  rw [hmu, hlock, if_neg]
  intro he
  exact hc (Option.some.inj he)

theorem released (N : Naming s) (R : Released (s.setPc c q) s') (r : Result) :
    Naming (s'.ret c r) := by
  refine N.ret (c := c) r ?_ ?_ fun c' p m _ h hp => ?_
  · change Function.update s'.pc c _ = _
    rw [R.pc]
    exact Function.update_idem ..
  · change (if s'.mountL = some c then none else s'.mountL) = _
    rw [R.mountL]
    rfl
  · change s'.mounts m.name = none
    rw [R.mounts]
    exact (N.free h hp).2

theorem lock (N : Naming s) (hmu : s.mountL = none) (hpc : s'.pc = Function.update s.pc c (some q))
    (hself : ∀ m, q.building = some m → s'.mountL = some c ∧ s'.mounts m.name = none) :
    Naming s' :=
  update hpc hself fun _ _ m _ h hp => by
    rw [N.none_building hmu h] at hp
    cases hp

variable {fromBytes : String → String}

theorem step (N : Naming s) (h : step fromBytes l s = some s') : Naming s' := by
  cases step_cases h with
  | initialized hpc | readWriteCreated hpc | initExists hpc | initMissing hpc =>
    refine N.move rfl rfl rfl ?_
    rintro _ ⟨⟩
    have hfree := N.free hpc rfl
    exact hfree
  | parentFound hpc _ =>
    refine N.move rfl rfl rfl ?_
    simp only [afterParent_building]
    rintro _ ⟨⟩
    have hfree := N.free hpc rfl
    exact hfree
  | mountRoot hmu _ hm | graphMountRoot hmu hm _ =>
    refine N.lock hmu rfl ?_
    simp only [afterParent_building]
    rintro _ ⟨⟩
    exact ⟨rfl, hm⟩
  | mountChild hmu _ hm _ | graphMountChild hmu hm _ _ =>
    refine N.lock hmu rfl ?_
    rintro _ ⟨⟩
    exact ⟨rfl, hm⟩
  | noParent | noMountParent | parentMissing =>
    exact N.ret _ rfl rfl fun _ _ _ _ h hp => (N.free h hp).2
  | parentReleased | mountParentReleased => exact N.released (.releaseLayer ..) _
  | @release i l fates s _ _ =>
    have R := Released.releaseLayer fates (s.newCall.deleteReference i l) i
    refine N.move (congrArg (Function.update · s.nextCall _) R.pc) R.mountL R.mounts ?_
    nofun
  | savedByGraphID hpc | saved hpc =>
    refine N.ret _ rfl rfl fun c' p m hc h hp => ?_
    -- Only one call can hold the lock.
    have hlock := (N.free hpc rfl).1
    rw [(N.free h hp).1] at hlock
    exact (hc (Option.some.inj hlock)).elim
  | unmounted hmu =>
    refine N.lock hmu rfl ?_
    nofun
  | _ =>
    refine N.move rfl rfl rfl ?_
    nofun

end Naming

/-! ## Every step keeps the counts -/

namespace Counted

variable {s s' : State} {c i p : Nat}

theorem holder_eq (h : s.pc c = some q) : s.holder c = q.holds := by
  simp [State.holder, h]

theorem frame (H : Counted s hand) : Counted { s with driver, store, mountL, graphIDs } hand :=
  H.congr rfl rfl rfl rfl rfl rfl rfl fun _ => ⟨rfl, rfl⟩

theorem modifyMount (H : Counted s hand)
    (hn : (f (s.mountedLayers m)).name = (s.mountedLayers m).name)
    (hp : (f (s.mountedLayers m)).parent = (s.mountedLayers m).parent) :
    Counted (s.modifyMount m f) hand := by
  refine H.congr rfl rfl rfl rfl rfl rfl rfl fun m' => ?_
  by_cases hm : m' = m
  · subst hm
    simpa using ⟨hn, hp⟩
  · simp [hm]

theorem getRWReference (H : Counted s hand) (m : Nat) : Counted (s.getRWReference m) hand :=
  have H' : Counted (s.modifyMount m fun x => { x with references := s.nextRef :: x.references })
    hand := H.modifyMount rfl rfl
  H'.congr rfl rfl rfl rfl rfl rfl rfl fun _ => ⟨rfl, rfl⟩

theorem deleteRWReference (H : Counted s hand) (m ref : Nat) :
    Counted (s.deleteRWReference m ref) hand :=
  H.modifyMount rfl rfl

section
variable (H : Counted s none) {k : ChainID}
include H

theorem ret (r : Result) (hpc : s.pc c = some q) : Counted (s.ret c r) q.holds :=
  holder_eq hpc ▸ (H.swap (H.lt_of_pc hpc) rfl).frame

theorem start (hq : q.holds = none) : Counted (s.newCall.setPc s.nextCall q) none :=
  H.newCall.keep (Nat.lt_succ_self _) (hq.trans H.holder_newCall.symm)

theorem startHolding (hp : s.present p) (hq : q.holds = some p) :
    Counted ((s.newCall.retain p).setPc s.nextCall q) none := by
  have h := (H.newCall.retain hp).swap (Nat.lt_succ_self _) hq
  rwa [show (s.newCall.retain p).holder s.nextCall = none from H.holder_newCall] at h

theorem move (hpc : s.pc c = some q) (hq : q'.holds = q.holds) : Counted (s.setPc c q') none :=
  H.keep (H.lt_of_pc hpc) (hq.trans (holder_eq hpc).symm)

theorem take (hpc : s.pc c = some q) (hq : q.holds = none) (hk : s.layerMap k = some p)
    (hq' : q'.holds = some p) : Counted ((s.retain p).setPc c q') none := by
  have H' := (H.retain (H.present_of_key hk)).swap (H.lt_of_pc hpc) hq'
  rwa [show (s.retain p).holder c = none from (holder_eq hpc).trans hq] at H'

theorem reference (hk : s.layerMap k = some i) : Counted ((s.retain i).getReference i) none :=
  (H.retain (H.present_of_key hk)).getReference

theorem register (r : Result) (hpc : s.pc c = some q) (hq : q.holds = l.parent)
    (hnew : s.layerMap l.chainID = none) :
    Counted (((s.setStore store).insertLayer l).setPc c (.returned r)) none := by
  have H₁ : Counted ((s.setStore store).setPc c (.returned r)) l.parent := by
    rw [← hq, ← holder_eq hpc]
    exact (H.swap (H.lt_of_pc hpc) rfl).frame
  exact H₁.insertLayer hnew

theorem mount (r : Result) (hpc : s.pc c = some (.savingMount m kind))
    (hnew : s.mounts m.name = none) : Counted
    (((s.setStore store).insertMount m).ret c r) none := by
  have H₁ : Counted ((s.setStore store).ret c r) m.parent := (H.ret r hpc).frame
  exact H₁.insertMount hnew

theorem letGo (r : Result) (hpc : s.pc c = some q) (hq : q.holds = some p) :
    Counted (s.setPc c (.returned r)) (some p) := by
  have h := H.swap (H.lt_of_pc hpc) (q := .returned r) rfl
  rwa [holder_eq hpc, hq] at h

theorem releaseHeld (fates : List DeleteFate) (r r' : Result) (hpc : s.pc c = some q)
    (hq : q.holds = some p) :
    Counted ((Layer.releaseLayer fates (s.setPc c (.returned r)) p).1.ret c r') none ∧
      ∀ x, (Layer.releaseLayer fates (s.setPc c (.returned r)) p).2 ≠ .panic x := by
  obtain ⟨H₂, hpanic⟩ := (H.letGo r hpc hq).releaseLayer fates
  have R := Released.releaseLayer fates (s.setPc c (.returned r)) p
  have hpc' : (Layer.releaseLayer fates (s.setPc c (.returned r)) p).1.pc c =
      some (.returned r) := by
    rw [R.pc]
    simp
  exact ⟨H₂.ret r' hpc', hpanic⟩

theorem releaseReference (hk : s.layerMap k = some i) (hl : l ∈ (s.layers i).references)
    (fates : List DeleteFate) :
    Counted ((Layer.releaseLayer fates (s.newCall.deleteReference i l) i).1.setPc s.nextCall
      (.returned (Layer.releaseLayer fates (s.newCall.deleteReference i l) i).2)) none := by
  have H₁ : Counted (s.newCall.deleteReference i l) (some i) :=
    H.newCall.deleteReference (H.present_of_key hk) hl
  have H₂ := (H₁.releaseLayer fates).1
  have R := Released.releaseLayer fates (s.newCall.deleteReference i l) i
  have hc : s.nextCall < (Layer.releaseLayer fates
      (s.newCall.deleteReference i l) i).1.nextCall := by
    rw [R.nextCall]
    exact Nat.lt_succ_self _
  refine H₂.keep hc ?_
  rw [State.holder, R.pc]
  exact H.holder_newCall.symm

/-- `ReleaseRWLayer` deletes the mount and goes on with its parent. -/
theorem unmount (hm : s.mounts name = some m) :
    Counted
      (((({ s.newCall with driver }.setStore (s.store.removeMount name)).deleteMount
      name).lockMounts
      s.nextCall).setPc s.nextCall (.releasingMountParent (s.mountedLayers m).parent)) none := by
  have H₁ := (H.newCall.deleteMount hm).swap
    (q := .releasingMountParent (s.mountedLayers m).parent) (Nat.lt_succ_self _) rfl
  rw [show (s.newCall.deleteMount name).holder s.nextCall = none from H.holder_newCall] at H₁
  exact H₁.frame

theorem step (N : Naming s) (h : step fromBytes l s = some s') : Counted s' none := by
  cases step_cases h with
  | registerRoot | graphRoot | mountChild | graphMountChild | unmountInitFails |
    unmountStoreFails =>
    exact (H.start rfl).frame
  | mountRoot | graphMountRoot => exact (H.start (afterParent_holds ..)).frame
  | getRWLayer => exact (H.newCall.getRWReference _).keep (Nat.lt_succ_self _) H.holder_newCall.symm
  | unmountShared =>
    exact (H.newCall.deleteRWReference ..).keep (Nat.lt_succ_self _) H.holder_newCall.symm
  | registerTooDeep _ hp _ => exact H.startHolding (H.present_of_key hp) rfl
  | registerChild _ _ hp | graphChild _ hp =>
    exact (H.startHolding (H.present_of_key hp) rfl).frame
  | driverCreateFails hpc | transactionStarted hpc | transactionFails hpc | tarApplied hpc
  | tarFails hpc | layerStored hpc | storeFails hpc | commitFails hpc | cleanUpFails hpc
  | graphFails hpc | initCreateFails hpc | readWriteFails hpc | initExists hpc | initMissing hpc =>
    exact H.move hpc rfl
  | driverCreated hpc | cleanedUp hpc | initFails hpc | initialized hpc | readWriteCreated hpc
  | saveFails hpc => exact H.frame.move hpc rfl
  | commitExists hpc hk | graphExists hpc hk =>
    exact (H.reference hk).move hpc rfl
  | get hk => exact (H.newCall.reference hk).keep (Nat.lt_succ_self _) H.holder_newCall.symm
  | committed hpc hnew | graphCommitted hpc hnew => exact H.register _ hpc rfl hnew
  | noParent hpc | noMountParent hpc | parentMissing hpc => exact H.ret _ hpc
  | parentFound hpc hk =>
    exact H.take hpc rfl hk (afterParent_holds ..)
  | parentReleased hpc | mountParentReleased hpc => exact (H.releaseHeld _ _ _ hpc rfl).1
  | release hk hl => exact H.releaseReference hk hl _
  | savedByGraphID hpc => exact H.mount _ hpc (N.free hpc rfl).2
  | saved hpc =>
    exact ((H.mount (.rwLayer s.nextMount s.nextRef) hpc (N.free hpc rfl).2).getRWReference
      s.nextMount).congr rfl rfl rfl rfl rfl rfl rfl
      fun _ => ⟨rfl, rfl⟩
  | unmounted _ hm => exact H.unmount hm
  | _ => exact H.start rfl

end

end Counted

/-! ## Panics -/

/-- What a call has returned or is going to return. -/
def Pc.outcome : Pc → Option Result
  | .cleaningUp _ r | .releasingParent _ r | .returned r => some r
  | _ => none

structure Harmless (s : State) : Prop where
  nilParent : ∀ {c q p}, s.pc c = some q → q.outcome = some (.panic p) → p = .nilParent

namespace Harmless

variable {s s' : State} {c : Nat}

theorem init : Harmless emptyStore := ⟨fun h => nomatch h⟩

theorem update (P : Harmless s) (hpc : s'.pc = Function.update s.pc c (some q))
    (hq : ∀ p, q.outcome = some (.panic p) → p = .nilParent) : Harmless s' := by
  refine ⟨fun {c' q' p} h hp => ?_⟩
  rw [hpc] at h
  obtain ⟨rfl, rfl⟩ | ⟨-, h⟩ := update_eq_some h
  · exact hq p hp
  · exact P.nilParent h hp

@[simp] theorem afterParent_outcome (m : MountedLayer) (kind : MountKind) :
    (afterParent m kind).outcome = none := by
  rcases kind with (_ | _) | _ <;> rfl

theorem compareMount_panic (h : s.compareMount m graphID parent = .panic p) : p = .nilParent := by
  unfold State.compareMount at h
  split at h
  · cases h
    rfl
  · split at h
    · cases h
    · split at h <;> cases h

theorem step (P : Harmless s) (H : Counted s none) (h : step fromBytes l s = some s') :
    Harmless s' := by
  cases step_cases h with
  | cleanedUp hpc | cleanUpFails hpc | noParent hpc =>
    refine P.update rfl fun p hp => P.nilParent hpc hp
  | mountRoot | graphMountRoot | parentFound =>
    refine P.update rfl ?_
    simp
  | graphMountTaken =>
    refine P.update rfl fun p hp => ?_
    exact compareMount_panic (Option.some.inj hp)
  | refused hr => exact P.update rfl fun p hp => (hr p (Option.some.inj hp)).elim
  | @release i l fates s hk hl =>
    have H' : Counted (s.newCall.deleteReference i l) (some i) :=
      H.newCall.deleteReference (H.present_of_key hk) hl
    have R := Released.releaseLayer fates (s.newCall.deleteReference i l) i
    refine P.update (congrArg (Function.update · s.nextCall _) R.pc) fun p hp => ?_
    exact ((H'.releaseLayer fates).2 p (Option.some.inj hp)).elim
  | @parentReleased c fates s r p hpc =>
    have R := Released.releaseLayer fates (s.setPc c (.returned r)) p
    have hpanic := (H.releaseHeld fates r r hpc rfl).2
    have P' : Harmless (s.setPc c (.returned r)) := P.update rfl fun p hp => P.nilParent hpc hp
    refine P'.update (congrArg (Function.update · c _) R.pc) fun p' hp => ?_
    refine P.nilParent hpc (hp ▸ congrArg some ?_)
    cases hr : (releaseLayer fates (s.setPc c (.returned r)) p).2 with
    | panic x => exact (hpanic x hr).elim
    | _ => rfl
  | @mountParentReleased c fates s p hpc =>
    have R := Released.releaseLayer fates (s.setPc c (.returned .nil)) p
    have P' : Harmless (s.setPc c (.returned .nil)) := P.update rfl nofun
    refine P'.update (congrArg (Function.update · c _) R.pc) fun p' hp => ?_
    exact ((H.releaseHeld fates .nil .nil hpc rfl).2 p' (Option.some.inj hp)).elim
  | _ =>
    refine P.update rfl ?_
    nofun

end Harmless

/-! ## The result -/

structure Sound (s : State) : Prop where
  counted : Counted s none
  naming : Naming s
  harmless : Harmless s

theorem Sound.init : Sound emptyStore := ⟨.init, .init, .init⟩

theorem Sound.step (S : Sound s) (h : step fromBytes l s = some s') : Sound s' :=
  ⟨S.counted.step S.naming h, S.naming.step h, S.harmless.step S.counted h⟩

theorem Sound.of_reachable (h : Reachable (Layer.step fromBytes) emptyStore s) : Sound s :=
  h.inv (fun S h => S.step h) .init

/-- **Reference counting.** Whatever fails, the count of each layer of `layerMap` is the number of
its references, children, mounts and in-flight holders, `releaseLayer` does not panic, and parents
are in `layerMap`. -/
theorem referenceCount_eq {fromBytes : String → String} {s : State}
    (h : Reachable (step fromBytes) emptyStore s) :
    (∀ k i, s.layerMap k = some i → (s.layers i).referenceCount =
      (s.layers i).references.length + s.children i + s.mountsOf i + s.inFlight i) ∧
    (∀ c p, s.pc c = some (.returned (.panic p)) → p = .nilParent) ∧
    (∀ k i p, s.layerMap k = some i → (s.layers i).parent = some p → s.present p) ∧
    ∀ n m p, s.mounts n = some m → (s.mountedLayers m).parent = some p → s.present p := by
  have S := Sound.of_reachable h
  have H := S.counted
  refine ⟨fun k i hk => ?_, fun c p hpc => S.harmless.nilParent hpc rfl, fun k i p hk hp => ?_,
    fun n m p hm hp => ?_⟩
  · simpa using H.count (H.present_of_key hk)
  · exact H.closed (H.present_of_key hk) hp
  · obtain ⟨-, rfl⟩ := H.mountKeyed hm
    exact H.mountClosed hm hp

/-- An id as `stringid.GenerateRandomID` makes them. -/
def sampleID (c : Char) : String := String.ofList (List.replicate 64 c)

/-- The calls of `registerWithDescriptor` number `c` that all succeed. -/
def registerRun (c : Nat) (parent : ChainID) (cacheID tar : String) (size : Int) : List Label :=
  [.register parent {} cacheID, .driverCreate c true, .startTransaction c true,
    .applyTar c (some (tar, size)), .storeLayer c true, .commit c true]

/-- A layer and a child, whose deletion fails half-way, while a third registration holds the
parent. -/
def failedRelease : List Label :=
  registerRun 0 "" (sampleID 'a') "base" 10 ++ registerRun 1 "sha256:base" (sampleID 'b') "app" 5 ++
    [.release ⟨0, 0⟩ [], .release ⟨1, 1⟩ [.storeFails], .register "sha256:base" {} (sampleID 'c')]

theorem referenceCount_eq_failedRelease :
    ∃ s, run (step ("sha256:" ++ ·)) failedRelease emptyStore = some s ∧
      s.layerMap "sha256:base" = some 0 ∧ (s.layers 0).referenceCount = 2 ∧
      (s.layers 0).referenceCount = (s.layers 0).references.length + s.children 0 + s.mountsOf 0 +
        s.inFlight 0 := by
  refine exists_run (fun s => s.layerMap "sha256:base" = some 0 ∧ (s.layers 0).referenceCount = 2)
    (by decide +kernel)
    fun s hs ⟨hmap, hcount⟩ => ?_
  exact ⟨hmap, hcount, (referenceCount_eq ⟨_, hs⟩).1 _ _ hmap⟩

end Docker.Layer
