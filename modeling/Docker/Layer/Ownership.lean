import Docker.Layer.Identity

/-!
# Who owns a graph layer

A graph layer belongs to the layer, the mounted layer or the call that has its id, and to no other
(`Owned`), as long as the graph ids that are handed in by a migration are new.
-/

namespace Docker.Layer

open State List

inductive Owner where
  | layer (i : Nat)
  | call (c : Nat)
  | mount (m : Nat)
  deriving DecidableEq

def Pc.graphID : Pc → Option String
  | .creating l | .startingTransaction l | .applyingTar l | .storingLayer l | .committing l _
  | .cleaningUp l _ | .registeringGraphID l => some l.cacheID
  | .gettingParent m _ _ | .initializingMount m | .creatingReadWrite m | .checkingInit m
  | .savingMount m _ => some m.mountID
  | .releasingParent .. | .releasingMountParent _ | .returned _ => none

inductive State.Owns (s : State) : Owner → String → Prop where
  | layer {k i} : s.layerMap k = some i → s.Owns (.layer i) (s.layers i).cacheID
  | call {c q gid} : s.pc c = some q → q.graphID = some gid → s.Owns (.call c) gid
  | mount {n m} : s.mounts n = some m → s.Owns (.mount m) (s.mountedLayers m).mountID

/-- The init layer of a mount goes by the id of the mount. -/
def MountedLayer.initNamed (m : MountedLayer) : Prop :=
  m.initID = "" ∨ m.initID = Layer.initID m.mountID

structure OwnedCall (q : Pc) : Prop where
  layer : ∀ {l}, q.registering = some l → isRandomID l.cacheID = true
  mount : ∀ {m}, q.building = some m → m.initNamed

structure Owned (s : State) : Prop where
  unique : ∀ {o o' gid}, s.Owns o gid → s.Owns o' gid → o = o'
  used : ∀ {o gid}, s.Owns o gid → gid ∈ s.graphIDs
  layer : ∀ {k i}, s.layerMap k = some i → isRandomID (s.layers i).cacheID = true
  mount : ∀ {n m}, s.mounts n = some m → (s.mountedLayers m).initNamed
  call : ∀ {c q}, s.pc c = some q → OwnedCall q

/-- The graph ids that are handed in are new, and those of layers are of the usual form. -/
def newGraphIDs (s : State) : Label → Bool
  | .registerByGraphID graphID _ _ _ => isRandomID graphID && decide (graphID ∉ s.graphIDs)
  | .createRWLayerByGraphID _ graphID _ _ => decide (graphID ∉ s.graphIDs)
  | _ => true

theorem OwnedCall.idle {q : Pc} (hq : q.registering = none) (hb : q.building = none) :
    OwnedCall q where
  layer h := by
    rw [hq] at h
    cases h
  mount h := by
    rw [hb] at h
    cases h

theorem OwnedCall.registering {q : Pc} {l : LayerData} (hq : q.registering = some l)
    (hb : q.building = none) (hl : isRandomID l.cacheID = true) : OwnedCall q where
  layer h := by
    rw [hq] at h
    cases h
    exact hl
  mount h := by
    rw [hb] at h
    cases h

theorem OwnedCall.building {q : Pc} {m : MountedLayer} (hq : q.registering = none)
    (hb : q.building = some m) (hm : m.initNamed) : OwnedCall q where
  layer h := by
    rw [hq] at h
    cases h
  mount h := by
    rw [hb] at h
    cases h
    exact hm

namespace Owned

variable {s s' : State}

theorem init (driver : String → Bool) : Owned { emptyStore with driver } where
  unique h := by
    cases h with
    | layer h | call h | mount h => cases h
  used h := by
    cases h with
    | layer h | call h | mount h => cases h
  layer h := nomatch h
  mount h := nomatch h
  call h := nomatch h

section
variable (O : Owned s)
include O

/-- Layers and mounts may go, and call `c` may move on, with a graph layer it owned before or one
that nobody has used. -/
theorem shrink (hl : ∀ i, (s'.layers i).toLayerData = (s.layers i).toLayerData)
    (hmap : ∀ {k i}, s'.layerMap k = some i → s.layerMap k = some i)
    (hm : ∀ {n m}, s'.mounts n = some m → s.mounts n = some m)
    (hml : ∀ m, (s'.mountedLayers m).mountID = (s.mountedLayers m).mountID ∧
      (s'.mountedLayers m).initID = (s.mountedLayers m).initID)
    (hids : s.graphIDs ⊆ s'.graphIDs)
    (hcall : ∀ {c' q}, s'.pc c' = some q → s.pc c' = some q ∨ c' = c ∧ OwnedCall q ∧ ∀ {gid},
      q.graphID = some gid → s.Owns (.call c) gid ∨ gid ∉ s.graphIDs ∧ gid ∈ s'.graphIDs) :
    Owned s' := by
  have hcache : ∀ i, (s'.layers i).cacheID = (s.layers i).cacheID :=
    fun i => congrArg LayerData.cacheID (hl i)
  have howns : ∀ {o gid}, s'.Owns o gid → s.Owns o gid ∨ o = .call c ∧ gid ∉ s.graphIDs ∧
      gid ∈ s'.graphIDs := by
    intro o gid h
    cases h with
    | layer h =>
      rw [hcache]
      exact .inl (.layer (hmap h))
    | mount h =>
      rw [(hml _).1]
      exact .inl (.mount (hm h))
    | call h hq =>
      rcases hcall h with h | ⟨rfl, -, h⟩
      · exact .inl (.call h hq)
      · exact (h hq).imp_right fun h => ⟨rfl, h⟩
  constructor
  case unique =>
    intro o o' gid h h'
    rcases howns h with h | ⟨rfl, hnew, -⟩ <;> rcases howns h' with h' | ⟨rfl, hnew', -⟩
    · exact O.unique h h'
    · exact (hnew' (O.used h)).elim
    · exact (hnew (O.used h')).elim
    · rfl
  case used =>
    intro o gid h
    rcases howns h with h | ⟨-, -, h⟩
    · exact hids (O.used h)
    · exact h
  case layer =>
    intro k i h
    rw [hcache]
    exact O.layer (hmap h)
  case mount =>
    intro n m h
    unfold MountedLayer.initNamed
    rw [(hml m).1, (hml m).2]
    exact O.mount (hm h)
  case call =>
    intro c' q h
    rcases hcall h with h | ⟨-, h, -⟩
    · exact O.call h
    · exact h

theorem move (hpc : s'.pc = Function.update s.pc c (some q)) (hq : OwnedCall q)
    (hgid : ∀ {gid}, q.graphID = some gid → s.Owns (.call c) gid ∨ gid ∉ s.graphIDs ∧
      gid ∈ s'.graphIDs)
    (hl : ∀ i, (s'.layers i).toLayerData = (s.layers i).toLayerData)
    (hmap : s'.layerMap = s.layerMap)
    (hm : s'.mounts = s.mounts) (hml : s'.mountedLayers = s.mountedLayers)
    (hids : s.graphIDs ⊆ s'.graphIDs) : Owned s' := by
  refine O.shrink (c := c) hl (fun h => hmap ▸ h) (fun h => hm ▸ h) (fun _ => hml ▸ ⟨rfl, rfl⟩) hids
    fun {c' q'} h => ?_
  rw [hpc] at h
  rcases update_eq_some h with ⟨rfl, rfl⟩ | ⟨-, h⟩
  · exact .inr ⟨rfl, hq, hgid⟩
  · exact .inl h

theorem idle (hpc : s'.pc = Function.update s.pc c (some q))
    (hl : ∀ i, (s'.layers i).toLayerData = (s.layers i).toLayerData := by exact fun _ => rfl)
    (hq : q.registering = none := by rfl) (hb : q.building = none := by rfl)
    (hgid : q.graphID = none := by rfl) (hmap : s'.layerMap = s.layerMap := by rfl)
    (hm : s'.mounts = s.mounts := by rfl) (hml : s'.mountedLayers = s.mountedLayers := by rfl)
    (hids : s'.graphIDs = s.graphIDs := by rfl) : Owned s' := by
  refine O.move hpc (.idle hq hb) (fun h => ?_) hl hmap hm hml (hids ▸ Subset.refl _)
  rw [hgid] at h
  cases h

theorem goOn (hpc : s.pc c = some q) (hpc' : s'.pc = Function.update s.pc c (some q'))
    (hq : OwnedCall q')
    (hl : ∀ i, (s'.layers i).toLayerData = (s.layers i).toLayerData := by exact fun _ => rfl)
    (hgid : q'.graphID = q.graphID := by rfl) (hmap : s'.layerMap = s.layerMap := by rfl)
    (hm : s'.mounts = s.mounts := by rfl) (hml : s'.mountedLayers = s.mountedLayers := by rfl)
    (hids : s'.graphIDs = s.graphIDs := by rfl) : Owned s' :=
  O.move hpc' hq (fun h => .inl (.call hpc (hgid ▸ h))) hl hmap hm hml (hids ▸ Subset.refl _)

/-- The graph layer of a call that returns becomes that of a new layer or mount. -/
theorem handOver {x : Owner} (hpc : s'.pc = Function.update s.pc c (some (.returned r)))
    (hids : s'.graphIDs = s.graphIDs)
    (hlayer : ∀ {k i}, s'.layerMap k = some i → isRandomID (s'.layers i).cacheID = true ∧
      (.layer i = x ∧ s.Owns (.call c) (s'.layers i).cacheID ∨
        s.Owns (.layer i) (s'.layers i).cacheID))
    (hmount : ∀ {n m}, s'.mounts n = some m → (s'.mountedLayers m).initNamed ∧
      (.mount m = x ∧ s.Owns (.call c) (s'.mountedLayers m).mountID ∨
        s.Owns (.mount m) (s'.mountedLayers m).mountID)) :
    Owned s' := by
  have howns : ∀ {o gid}, s'.Owns o gid → o = x ∧ s.Owns (.call c) gid ∨ o ≠ .call c ∧
      s.Owns o gid := by
    intro o gid h
    cases h with
    | layer h => exact (hlayer h).2.imp_right fun h => ⟨nofun, h⟩
    | mount h => exact (hmount h).2.imp_right fun h => ⟨nofun, h⟩
    | call h hq =>
      rw [hpc] at h
      rcases update_eq_some h with ⟨rfl, rfl⟩ | ⟨hne, h⟩
      · cases hq
      · exact .inr ⟨fun he => hne (Owner.call.inj he), .call h hq⟩
  refine ⟨fun {o o' gid} h h' => ?_, fun h => ?_, fun h => (hlayer h).1, fun h => (hmount h).1,
    fun {c' q'} h => ?_⟩
  · rcases howns h with ⟨rfl, h⟩ | ⟨hne, h⟩ <;> rcases howns h' with ⟨rfl, h'⟩ | ⟨hne', h'⟩
    · rfl
    · exact (hne' (O.unique h' h)).elim
    · exact (hne (O.unique h h')).elim
    · exact O.unique h h'
  · rw [hids]
    rcases howns h with ⟨-, h⟩ | ⟨-, h⟩ <;> exact O.used h
  · rw [hpc] at h
    rcases update_eq_some h with ⟨-, rfl⟩ | ⟨-, h⟩
    · exact .idle rfl rfl
    · exact O.call h

theorem insert (H : Counted s none) (hpc : s.pc c = some q) (hreg : q.registering = some l)
    (hgid : q.graphID = some l.cacheID) (st : MetadataStore) (r : Result) :
    Owned (((s.setStore st).insertLayer l).setPc c (.returned r)) := by
  refine O.handOver (x := .layer s.nextLayer) rfl rfl (fun {k i} h => ?_) fun h =>
    ⟨O.mount h, .inr (.mount h)⟩
  rcases update_eq_some h with ⟨-, rfl⟩ | ⟨-, h⟩
  · simpa [insertLayer] using ⟨(O.call hpc).layer hreg, .inl (.call hpc hgid)⟩
  · have hne : i ≠ s.nextLayer := Nat.ne_of_lt (H.keyed h).1
    simpa [insertLayer, hne] using ⟨O.layer h, .layer h⟩

theorem insertMount (H : Counted s none) {m : MountedLayer}
    (hpc : s.pc c = some (.savingMount m kind)) (st : MetadataStore) (r : Result) :
    Owned (((s.setStore st).insertMount m).ret c r) := by
  refine O.handOver (x := .mount s.nextMount) rfl rfl (fun h => ⟨O.layer h, .inr (.layer h)⟩)
    fun {n j} h => ?_
  rcases update_eq_some h with ⟨-, rfl⟩ | ⟨-, h⟩
  · simpa using ⟨(O.call hpc).mount rfl, .inl (.call hpc rfl)⟩
  · have hne : j ≠ s.nextMount := Nat.ne_of_lt (H.mountKeyed h).1
    simpa [hne] using ⟨O.mount h, .mount h⟩

theorem released (R : Released s s') : Owned s' :=
  O.shrink (c := 0) (fun i => by rw [R.layers i]) R.layerMap (fun h => R.mounts ▸ h)
    (fun m => by rw [R.mountedLayers]; exact ⟨rfl, rfl⟩) (R.graphIDs ▸ Subset.refl _)
    fun h => .inl (R.pc ▸ h)

theorem setIdle {pc : Pc} (hr : pc.registering = none) (hb : pc.building = none)
    (hgid : pc.graphID = none) : Owned (s.setPc c pc) :=
  O.idle rfl (fun _ => rfl) hr hb hgid

theorem setReturned (c : Nat) (r : Result) : Owned (s.setPc c (.returned r)) :=
  O.setIdle rfl rfl rfl

theorem ret (c : Nat) (r : Result) : Owned (s.ret c r) :=
  O.idle rfl

theorem getRWReference (m : Nat) : Owned (s.getRWReference m) := by
  refine O.shrink (c := 0) (fun _ => rfl) id id (fun j => ?_) (Subset.refl _) .inl
  by_cases hj : j = m
  · subst hj
    simp [State.getRWReference]
  · simp [State.getRWReference, hj]

theorem deleteRWReference (m ref : Nat) : Owned (s.deleteRWReference m ref) := by
  refine O.shrink (c := 0) (fun _ => rfl) id id (fun j => ?_) (Subset.refl _) .inl
  by_cases hj : j = m
  · subst hj
    simp [State.deleteRWReference]
  · simp [State.deleteRWReference, hj]

theorem deleteMount (name : String) : Owned (s.deleteMount name) := by
  refine O.shrink (c := 0) (fun _ => rfl) id (fun {n m} h => ?_) (fun _ => ⟨rfl, rfl⟩)
    (Subset.refl _) .inl
  by_cases hn : n = name
  · simp [hn] at h
  · simpa [hn] using h

theorem frame {driver : String → Bool} {store : MetadataStore} {nextCall : Nat} :
    Owned { s with driver, store, nextCall } :=
  O.shrink (c := 0) (fun _ => rfl) id id (fun _ => ⟨rfl, rfl⟩) (Subset.refl _) .inl

theorem newCall : Owned s.newCall := O.frame

theorem deleteReference : Owned (s.deleteReference i h) :=
  O.shrink (c := 0) (s.deleteReference_data _ _) id id (fun _ => ⟨rfl, rfl⟩) (Subset.refl _) .inl

end

theorem fresh_iff (h : s.fresh gid = true) : isRandomID gid = true ∧ gid ∉ s.graphIDs := by
  simpa [fresh] using h

theorem begin (O : Owned s) (hpc : s'.pc = Function.update s.pc c (some q)) (hq : OwnedCall q)
    (hnew : gid ∉ s.graphIDs)
    (hl : ∀ i, (s'.layers i).toLayerData = (s.layers i).toLayerData := by exact fun _ => rfl)
    (hgid : q.graphID = some gid := by rfl) (hmap : s'.layerMap = s.layerMap := by rfl)
    (hm : s'.mounts = s.mounts := by rfl) (hml : s'.mountedLayers = s.mountedLayers := by rfl)
    (hids : s'.graphIDs = gid :: s.graphIDs := by rfl) : Owned s' := by
  refine O.move hpc hq (fun {gid'} h => ?_) hl hmap hm hml (hids ▸ subset_cons_self ..)
  rw [hgid] at h
  cases h
  exact .inr ⟨hnew, hids ▸ mem_cons_self⟩

theorem beginMount (O : Owned s) (hq : OwnedCall q) (hnew : gid ∉ s.graphIDs)
    (hgid : q.graphID = some gid) :
    Owned (((s.newCall.useID gid).lockMounts c).setPc c q) :=
  O.newCall.begin rfl hq hnew (fun _ => rfl) hgid

@[simp] theorem afterParent_graphID (m : MountedLayer) (kind : MountKind) :
    (afterParent m kind).graphID = some m.mountID := by
  rcases kind with (_ | _) | _ <;> rfl

theorem step (O : Owned s) (H : Counted s none)
    (hlbl : newGraphIDs s lbl = true) (h : step fromBytes lbl s = some s') : Owned s' := by
  cases step_cases h with
  | registerTooDeep =>
    exact O.idle rfl (retain_data _ _)
  | get | graphExists =>
    exact O.idle rfl fun j => (getReference_data _ _ j).trans (retain_data _ _ j)
  | registerRoot hf =>
    obtain ⟨hrandom, hnew⟩ := fresh_iff hf
    exact O.begin rfl (.registering rfl rfl hrandom) hnew
  | registerChild hf =>
    obtain ⟨hrandom, hnew⟩ := fresh_iff hf
    exact O.begin rfl (.registering rfl rfl hrandom) hnew (retain_data _ _)
  | graphRoot =>
    obtain ⟨hrandom, hnew⟩ := Bool.and_eq_true_iff.1 hlbl
    exact O.begin rfl (.registering rfl rfl hrandom) (of_decide_eq_true hnew)
  | graphChild =>
    obtain ⟨hrandom, hnew⟩ := Bool.and_eq_true_iff.1 hlbl
    exact O.begin rfl (.registering rfl rfl hrandom) (of_decide_eq_true hnew) (retain_data _ _)
  | driverCreated hpc | transactionStarted hpc | tarApplied hpc | layerStored hpc =>
    have hl := (O.call hpc).layer rfl
    exact O.goOn hpc rfl (.registering rfl rfl hl)
  | tarFails hpc | storeFails hpc | commitFails hpc =>
    exact O.goOn hpc rfl (.idle rfl rfl)
  | commitExists hpc =>
    exact O.goOn hpc rfl (.idle rfl rfl) fun j =>
      (getReference_data _ _ j).trans (retain_data _ _ j)
  | committed hpc | graphCommitted hpc => exact O.insert H hpc rfl rfl _ _
  | parentReleased | mountParentReleased =>
    exact ((O.setReturned _ _).released (.releaseLayer ..)).ret ..
  | release =>
    exact (O.newCall.deleteReference.released (.releaseLayer ..)).setReturned ..
  | mountRoot _ hf =>
    exact O.beginMount (.building (Identified.afterParent_registering ..)
      (afterParent_building ..) (.inl rfl))
      (fresh_iff hf).2 (afterParent_graphID ..)
  | mountChild _ hf => exact O.beginMount (.building rfl rfl (.inl rfl)) (fresh_iff hf).2 rfl
  | graphMountRoot =>
    exact O.beginMount (.building (Identified.afterParent_registering ..)
      (afterParent_building ..) (.inl rfl))
      (of_decide_eq_true hlbl) (afterParent_graphID ..)
  | graphMountChild =>
    exact O.beginMount (.building rfl rfl (.inl rfl)) (of_decide_eq_true hlbl) rfl
  | parentFound hpc =>
    have hm := (O.call hpc).mount rfl
    exact O.goOn hpc rfl (.building (Identified.afterParent_registering ..)
      (afterParent_building ..) hm) (retain_data _ _)
      (afterParent_graphID ..)
  | initialized hpc | initExists hpc =>
    exact O.goOn hpc rfl (.building rfl rfl (.inr rfl))
  | readWriteCreated hpc | initMissing hpc =>
    exact O.goOn hpc rfl (.building rfl rfl ((O.call hpc).mount rfl))
  | savedByGraphID hpc => exact O.insertMount H hpc _ _
  | saved hpc => exact (O.insertMount H hpc _ _).getRWReference _
  | getRWLayer => exact (O.newCall.getRWReference _).setReturned ..
  | unmountShared => exact (O.newCall.deleteRWReference _ _).setReturned ..
  | unmounted => exact (O.deleteMount _).idle rfl
  | _ =>
    exact O.idle rfl

end Owned

end Docker.Layer
