import Docker.Layer.Identity

/-!
# The depth of layers

`registerWithDescriptor` does not put a layer on a parent that has `maxLayerDepth` layers.
`RegisterByGraphID` does not look at the depth.
-/

namespace Docker.Layer

open Transition State Function Option

/-! ## The depth of a layer and of its parent -/

section
variable {layers layers' : Nat → RoLayer} {s s' : State} {i p : Nat}

theorem depthFrom_congr (hparent : ∀ j < n, (layers' j).parent = (layers j).parent)
    (hold : ∀ j p, (layers j).parent = some p → p < j) (fuel : Nat) (hi : i < n) :
    depthFrom layers' fuel i = depthFrom layers fuel i := by
  induction fuel generalizing i with
  | zero => rfl
  | succ fuel ih =>
    rw [depthFrom, depthFrom, hparent i hi]
    split
    · rfl
    · next p hp => rw [ih (Nat.lt_trans (hold i p hp) hi)]

theorem depthFrom_eq (hold : ∀ j p, (layers j).parent = some p → p < j) (h : i < fuel)
    (h' : i < fuel') :
    depthFrom layers fuel i = depthFrom layers fuel' i := by
  induction fuel generalizing fuel' i with
  | zero => cases h
  | succ fuel ih =>
    cases fuel' with
    | zero => cases h'
    | succ fuel' =>
      rw [depthFrom, depthFrom]
      split
      · rfl
      · next p hp =>
        have hlt := hold i p hp
        exact congrArg (· + 1) (ih (by omega) (by omega))

theorem depth_root (hi : (s.layers i).parent = none) : s.depth i = 1 := by
  rw [depth, depthFrom, hi]

theorem depth_child (hold : ∀ j p, (s.layers j).parent = some p → p < j)
    (hi : (s.layers i).parent = some p) :
    s.depth i = s.depth p + 1 := by
  have hlt := hold i p hi
  rw [depth, depthFrom, hi]
  exact congrArg (· + 1) (depthFrom_eq hold (by omega) (by omega))

theorem Grows.depth (G : Grows s s') (hold : ∀ j p, (s.layers j).parent = some p → p < j)
    (hi : i < s.nextLayer) :
    s'.depth i = s.depth i :=
  depthFrom_congr (fun _ hj => congrArg LayerData.parent (G.data hj)) hold (i + 1) hi

end

/-! ## Every step keeps the bound -/

/-- `RegisterByGraphID` is called for a parent that has room for another layer. -/
def shallow (s : State) : Label → Bool
  | .registerByGraphID _ parent _ _ => (s.layerMap parent).all fun p => s.depth p < maxLayerDepth
  | _ => true

/-- The parent of the layer that a call is about to register. -/
def Pc.buildsOn (q : Pc) : Option Nat := q.registering.bind (·.parent)

def BoundedCall (s : State) (q : Pc) : Prop :=
  ∀ {p}, q.buildsOn = some p → p < s.nextLayer ∧ s.depth p < maxLayerDepth

structure Bounded (s : State) : Prop where
  older : ∀ i p, (s.layers i).parent = some p → p < i
  layer : ∀ {i}, i < s.nextLayer → s.depth i ≤ maxLayerDepth
  call : ∀ {c q}, s.pc c = some q → BoundedCall s q

namespace Bounded

variable {s s' : State} {c i p : Nat}

theorem init : Bounded emptyStore where
  older _ _ h := nomatch h
  layer h := nomatch h
  call h := nomatch h

theorem frame (B : Bounded s) (hcall : ∀ {c q}, s'.pc c = some q → BoundedCall s q)
    (hl : ∀ i, (s'.layers i).toLayerData = (s.layers i).toLayerData := by exact fun _ => rfl)
    (hn : s'.nextLayer = s.nextLayer := by rfl) : Bounded s' := by
  have G : Grows s s' := ⟨Nat.le_of_eq hn.symm, fun _ => hl _⟩
  constructor
  · intro i p h
    exact B.older i p ((congrArg LayerData.parent (hl i)).symm.trans h)
  · intro i hi
    rw [hn] at hi
    exact G.depth B.older hi ▸ B.layer hi
  · intro c q h p hp
    obtain ⟨hlt, hd⟩ := hcall h hp
    exact ⟨hn ▸ hlt, G.depth B.older hlt ▸ hd⟩

theorem call_update (B : Bounded s) (hq : BoundedCall s q)
    (h : update s.pc c (some q) c' = some q') : BoundedCall s q' := by
  obtain ⟨-, rfl⟩ | ⟨-, h⟩ := update_eq_some h
  · exact hq
  · exact B.call h

theorem move (B : Bounded s) (hpc : s'.pc = update s.pc c (some q)) (hq : BoundedCall s q)
    (hl : ∀ i, (s'.layers i).toLayerData = (s.layers i).toLayerData := by exact fun _ => rfl)
    (hn : s'.nextLayer = s.nextLayer := by rfl) : Bounded s' :=
  B.frame (fun h => B.call_update hq (hpc ▸ h)) hl hn

theorem idle (hq : q.registering = none) : BoundedCall s q := by
  intro p h
  rw [Pc.buildsOn, hq] at h
  cases h

section
variable (B : Bounded s)
include B

theorem goOn (hpc : s.pc c = some q) (hq : q'.buildsOn = q.buildsOn) : BoundedCall s q' :=
  fun h => B.call hpc (hq ▸ h)

theorem insert (hpc : s.pc c = some q) (hq : q.buildsOn = l.parent) (st : MetadataStore)
    (r : Result) :
    Bounded (((s.setStore st).insertLayer l).setPc c (.returned r)) := by
  generalize hs : ((s.setStore st).insertLayer l).setPc c (.returned r) = s'
  have hn : s'.nextLayer = s.nextLayer + 1 := hs ▸ rfl
  have hself : (s'.layers s.nextLayer).parent = l.parent := by
    rw [← hs]
    simp [insertLayer]
  have hother {i : Nat} (hi : i ≠ s.nextLayer) :
      (s'.layers i).toLayerData = (s.layers i).toLayerData := by
    rw [← hs]
    simp [insertLayer, hi]
  have G : Grows s s' := ⟨hn ▸ Nat.le_succ _, fun hi => hother (Nat.ne_of_lt hi)⟩
  have hold (i p) (h : (s'.layers i).parent = some p) : p < i := by
    by_cases hi : i = s.nextLayer
    · subst hi
      exact (B.call hpc (hq.trans (hself ▸ h))).1
    · exact B.older i p ((congrArg LayerData.parent (hother hi)).symm.trans h)
  refine ⟨hold, fun {i} hi => ?_, fun {c' q'} h p hp => ?_⟩
  · rw [hn, Nat.lt_succ_iff_lt_or_eq] at hi
    rcases hi with hi | rfl
    · exact G.depth B.older hi ▸ B.layer hi
    · cases hp : l.parent with
      | none =>
        rw [depth_root (hself.trans hp)]
        decide
      | some p =>
        obtain ⟨hlt, hd⟩ := B.call hpc (hq.trans hp)
        rw [depth_child hold (hself.trans hp), G.depth B.older hlt]
        exact hd
  · have hcall : BoundedCall s q' := B.call_update (idle rfl) (hs ▸ h)
    obtain ⟨hlt, hd⟩ := hcall hp
    exact ⟨Nat.lt_of_lt_of_le hlt G.le, G.depth B.older hlt ▸ hd⟩

theorem setReturned (c : Nat) (r : Result) : Bounded (s.setPc c (.returned r)) :=
  B.move rfl (idle rfl)

theorem released (R : Released s s') : Bounded s' :=
  B.frame (fun h => B.call (R.pc ▸ h)) (fun i => by rw [R.layers i]) R.nextLayer

end

theorem register_shallow (hp : parent ≠ "")
    (hm : s.layerMap parent = some p) (h : s.register parent descriptor gid = some s')
    (hpc : s'.pc s.nextCall = some (.creating l)) : s.depth p < maxLayerDepth := by
  simp only [register, ite_none_right_eq_some, if_neg hp, hm] at h
  obtain ⟨-, h⟩ := h
  split at h <;> cases h
  · simp at hpc
  · omega

theorem step (B : Bounded s) (H : Counted s none) (hlbl : shallow s lbl = true)
    (h : step fromBytes lbl s = some s') : Bounded s' := by
  cases step_cases h with
  | mountRoot | graphMountRoot => exact B.move rfl (idle (Identified.afterParent_registering ..))
  | parentFound => exact B.move rfl (idle (Identified.afterParent_registering ..)) (retain_data _ _)
  | registerTooDeep => exact B.move rfl (idle rfl) (retain_data _ _)
  | get | commitExists | graphExists =>
    exact B.move rfl (idle rfl) fun j => (getReference_data _ _ j).trans (retain_data _ _ j)
  | registerRoot | graphRoot =>
    refine B.move rfl ?_
    rintro _ ⟨⟩
  | registerChild _ hp hm =>
    refine B.move rfl ?_ (retain_data _ _)
    rintro _ ⟨⟩
    exact ⟨(H.keyed hm).1, register_shallow hp hm h (update_self ..)⟩
  | graphChild _ hm =>
    refine B.move rfl ?_ (retain_data _ _)
    rintro _ ⟨⟩
    exact ⟨(H.keyed hm).1, by simpa [shallow, hm] using hlbl⟩
  | driverCreated hpc | transactionStarted hpc | tarApplied hpc | layerStored hpc =>
    exact B.move rfl (B.goOn hpc rfl)
  | committed hpc | graphCommitted hpc => exact B.insert hpc rfl _ _
  | parentReleased | mountParentReleased =>
    exact ((B.setReturned ..).released (.releaseLayer ..)).move rfl (idle rfl)
  | @release i l fates s =>
    have B₁ : Bounded (s.newCall.deleteReference i l) := B.frame B.call (deleteReference_data _ _ _)
    exact (B₁.released (.releaseLayer ..)).setReturned ..
  | _ =>
    exact B.move rfl (idle rfl)

end Bounded

/-! ## Runs -/

/-- If `RegisterByGraphID` is called for shallow parents only, no layer of `layerMap` has more than
`maxLayerDepth` layers. -/
theorem depth_le_maxLayerDepth {fromBytes : String → String} {s : State}
    (h : Reachable (restrict (step fromBytes) shallow) emptyStore s) :
    ∀ k i, s.layerMap k = some i → s.depth i ≤ maxLayerDepth := by
  have hinv : Sound s ∧ Bounded s := by
    refine h.inv (I := fun s => Sound s ∧ Bounded s) (fun {l s s'} hs h => ?_) ⟨.init, .init⟩
    obtain ⟨hshallow, h⟩ := restrict_eq_some.1 h
    exact ⟨hs.1.step h, hs.2.step hs.1.counted hshallow h⟩
  exact fun k i hk => hinv.2.layer (hinv.1.counted.keyed hk).1

/-- A layer, and a migrated one on top of it. -/
theorem depth_le_maxLayerDepth_migrated :
    ∃ s i, Reachable (restrict (step ("sha256:" ++ ·)) shallow) emptyStore s ∧
      s.layerMap "sha256:sha256:base sha256:app" = some i ∧
      s.depth i = 2 ∧ s.depth i ≤ maxLayerDepth := by
  have h : (run (restrict (step ("sha256:" ++ ·)) shallow)
      (registerRun 0 "" (sampleID 'a') "base" 10 ++
      [.registerByGraphID (sampleID 'b') "sha256:base" "sha256:app" 5, .commitGraphID 1 true])
        emptyStore).map
      (fun s => (s.layerMap "sha256:sha256:base sha256:app", s.depth 1)) = some (some 1, 2) := by
    decide +kernel
  obtain ⟨s, hs, he⟩ := map_eq_some_iff.1 h
  obtain ⟨hmap, hdepth⟩ := Prod.mk.inj he
  have hreach : Reachable (restrict (step ("sha256:" ++ ·)) shallow) emptyStore s := ⟨_, hs⟩
  exact ⟨s, 1, hreach, hmap, hdepth, depth_le_maxLayerDepth hreach _ _ hmap⟩

/-! ## Chains of migrated layers -/

/-- A digest that is longer than what it is of. -/
def longDigest (x : String) : String := "sha256:" ++ x

/-- The chain ids of a chain of layers that all have the diff id `sha256:d`. -/
def migratedID : Nat → ChainID
  | 0 => "sha256:d"
  | n + 1 => longDigest (migratedID n ++ " " ++ "sha256:d")

def migratedParent : Nat → Option Nat
  | 0 => none
  | n + 1 => some n

/-- `n` layers are migrated, each on top of the one before it. -/
def migration : Nat → List Label
  | 0 => []
  | n + 1 => migration n ++
    [.registerByGraphID (toString n) ((migratedParent n).elim "" migratedID) "sha256:d" 1,
      .commitGraphID n true]

theorem migratedID_ne_empty (n : Nat) : migratedID n ≠ "" := by
  cases n <;> simp [migratedID, longDigest]

theorem migratedID_strictMono : StrictMono fun n => (migratedID n).length := by
  refine strictMono_nat_of_lt_succ fun n => ?_
  have hlen : "sha256:".length = 7 := by decide
  simp only [migratedID, longDigest, String.length_append]
  omega

theorem migratedID_inj (h : migratedID m = migratedID n) : m = n :=
  migratedID_strictMono.injective (congrArg String.length h)

structure Migrated (n : Nat) (s : State) : Prop where
  nextCall : s.nextCall = n
  nextLayer : s.nextLayer = n
  layerMap : ∀ k i, s.layerMap k = some i ↔ i < n ∧ k = migratedID i
  stored : ∀ k ∈ s.store.layers, ∃ i < n, k = migratedID i
  parent : ∀ i < n, (s.layers i).parent = migratedParent i

namespace Migrated

variable {s s₁ : State}

theorem zero : Migrated 0 emptyStore := ⟨rfl, rfl, by simp [emptyStore], nofun, by simp⟩

def next (n : Nat) : LayerData :=
  newGraphLayer longDigest (migratedParent n) ((migratedParent n).elim "" migratedID)
    (toString n) "sha256:d" 1

theorem chainID_next (n : Nat) : (next n).chainID = migratedID n := by
  cases n with
  | zero => rfl
  | succ n => exact if_neg (migratedID_ne_empty n)

theorem register (M : Migrated n s) : ∃ s₁, step longDigest
      (.registerByGraphID (toString n) ((migratedParent n).elim "" migratedID) "sha256:d" 1) s =
        some s₁ ∧
    s₁.pc n = some (.registeringGraphID (next n)) ∧ s₁.nextCall = n + 1 ∧ s₁.nextLayer = n ∧
      s₁.layerMap = s.layerMap ∧
    s₁.store = s.store ∧ ∀ i, (s₁.layers i).toLayerData = (s.layers i).toLayerData := by
  have hpc {s : State} q : (s.setPc n q).pc n = some q := update_self ..
  rw [step, registerByGraphID, M.nextCall]
  cases n with
  | zero =>
    exact ⟨_, if_pos rfl, hpc _, congrArg (· + 1) M.nextCall, M.nextLayer, rfl, rfl, fun _ => rfl⟩
  | succ n =>
    have hparent : s.layerMap (migratedID n) = some n :=
      (M.layerMap _ _).2 ⟨Nat.lt_succ_self n, rfl⟩
    refine ⟨((s.newCall.useID (toString (n + 1))).retain n).setPc (n + 1)
      (.registeringGraphID (next (n + 1))), ?_, hpc _,
      congrArg (· + 1) M.nextCall, M.nextLayer, rfl, rfl, retain_data _ n⟩
    simp only [migratedParent, Option.elim, migratedID_ne_empty, if_false, hparent]
    rfl

theorem succ (M : Migrated n s) : ∃ s', run (step longDigest)
      [.registerByGraphID (toString n) ((migratedParent n).elim "" migratedID) "sha256:d" 1,
        .commitGraphID n true] s = some s' ∧
    Migrated (n + 1) s' := by
  obtain ⟨s₁, h₁, hpc, hcall, hnext, hmap, hstore, hdata⟩ := M.register
  have hfree : s₁.layerMap (next n).chainID = none := by
    rw [chainID_next, hmap, eq_none_iff_forall_ne_some]
    intro i hi
    obtain ⟨hlt, hid⟩ := (M.layerMap _ _).1 hi
    have := migratedID_inj hid
    omega
  have hnew : (next n).chainID ∉ s₁.store.layers := by
    rw [chainID_next, hstore]
    intro hmem
    obtain ⟨i, hlt, hid⟩ := M.stored _ hmem
    have := migratedID_inj hid
    omega
  let st : MetadataStore :=
    { s₁.store with layers := s₁.store.layers.insert (next n).chainID (s₁.storeLayer (next n)) }
  let s' := ((s₁.setStore st).insertLayer (next n)).setPc n
    (.returned (.layer (s₁.newHandle s₁.nextLayer)))
  have h₂ : step longDigest (.commitGraphID n true) s₁ = some s' := by
    simp only [step, commitGraphID, hpc, hfree, if_true, MetadataStore.commit, if_neg hnew]
    rfl
  have hmap' : s'.layerMap = update s₁.layerMap (next n).chainID (some s₁.nextLayer) := rfl
  have hlayers' : s'.layers = update s₁.layers s₁.nextLayer
    { toLayerData := next n, referenceCount := 1, references := [s₁.newHandle s₁.nextLayer] } := rfl
  rw [chainID_next, hmap, hnext] at hmap'
  rw [hnext] at hlayers'
  refine ⟨s', run_cons.2 ⟨s₁, h₁, run_cons.2 ⟨s', h₂, run_nil⟩⟩, hcall, congrArg (· + 1) hnext,
    fun k i => ?_, fun k hk => ?_,
    fun i hi => ?_⟩
  · rw [hmap']
    by_cases hk : k = migratedID n
    · subst hk
      rw [update_self, Option.some.injEq]
      constructor
      · rintro rfl
        exact ⟨Nat.lt_succ_self n, rfl⟩
      · exact fun h => migratedID_inj h.2
    · rw [update_of_ne hk, M.layerMap]
      constructor
      · exact fun h => ⟨Nat.lt_succ_of_lt h.1, h.2⟩
      · rintro ⟨hi, rfl⟩
        exact ⟨Nat.lt_of_le_of_ne (Nat.le_of_lt_succ hi) fun h => hk (h ▸ rfl), rfl⟩
  · obtain rfl | hk : k = (next n).chainID ∨ k ∈ s₁.store.layers := (AList.mem_insert _).1 hk
    · exact ⟨n, Nat.lt_succ_self n, chainID_next n⟩
    · obtain ⟨i, hi, hid⟩ := M.stored k (hstore ▸ hk)
      exact ⟨i, Nat.lt_succ_of_lt hi, hid⟩
  · rw [hlayers']
    by_cases hn : i = n
    · rw [hn, update_self]
      rfl
    · rw [update_of_ne hn, hdata]
      exact M.parent i (by omega)

end Migrated

theorem migrated (n : Nat) : ∃ s, run (step longDigest) (migration n) emptyStore = some s ∧
    Migrated n s := by
  induction n with
  | zero => exact ⟨emptyStore, rfl, .zero⟩
  | succ n ih =>
    obtain ⟨s, hs, M⟩ := ih
    obtain ⟨s', hs', M'⟩ := M.succ
    exact ⟨s', run_append.2 ⟨s, hs, hs'⟩, M'⟩

theorem depth_migrated (n : Nat) :
    ∃ s, run (step longDigest) (migration (n + 1)) emptyStore = some s ∧ s.layerMap (migratedID n) =
      some n ∧ s.depth n = n + 1 := by
  obtain ⟨s, hs, M⟩ := migrated (n + 1)
  have hold (j p) h : p < j := (Sound.of_reachable ⟨_, hs⟩).counted.older h
  have hdepth i (hi : i < n + 1) : s.depth i = i + 1 := by
    induction i with
    | zero => exact depth_root (M.parent 0 hi)
    | succ i ih => rw [depth_child hold (M.parent (i + 1) hi), ih (by omega)]
  exact ⟨s, hs, (M.layerMap _ _).2 ⟨Nat.lt_succ_self n, rfl⟩, hdepth n (Nat.lt_succ_self n)⟩

/-- 126 layers are migrated. -/
theorem migration_too_deep :
    ∃ s, run (step longDigest) (migration 126) emptyStore = some s ∧
      s.layerMap (migratedID 125) = some 125 ∧
      maxLayerDepth < s.depth 125 := by
  obtain ⟨s, hs, hmap, hdepth⟩ := depth_migrated 125
  exact ⟨s, hs, hmap, by rw [hdepth]; decide⟩

end Docker.Layer
