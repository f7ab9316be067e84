import Docker.Layer.Mirror

/-!
# Restarts are faithful

`NewStoreFromGraphDriver` rebuilds the layers and mounts in whatever order they are listed. While it
runs, each loaded layer is a layer of the old store (`Loading`), and the counts are those of the
children that were listed so far (`Tallied`).
-/

namespace Docker.Layer
open Transition State Function LayerInfo List Option Bool

/-! ## What is written can be read -/

theorem isSpace_of_isLowerHex (h : isLowerHex c = true) : isSpace c = false :=
  isSpace_of_isHex (by simp [isHex, h])

theorem parseStringID_of_isRandomID (h : isRandomID d = true) : parseStringID d = some d := by
  simp only [isRandomID, Bool.and_eq_true, beq_iff_eq, List.all_eq_true] at h
  obtain ⟨hlen, hhex⟩ := h
  have htrim : trimSpace d = d :=
    trimSpace_of_no_space fun c hc => isSpace_of_isLowerHex (hhex c hc)
  unfold parseStringID
  rw [htrim]
  refine if_pos ?_
  simp only [isStringID, ← hlen, List.take_length, List.drop_length, Bool.and_eq_true, beq_iff_eq,
    List.all_eq_true]
  exact ⟨⟨trivial, hhex⟩, rfl⟩

theorem parseStringID_initID (h : isRandomID d = true) :
    parseStringID (initID d) = some (initID d) := by
  simp only [isRandomID, Bool.and_eq_true, beq_iff_eq, List.all_eq_true] at h
  obtain ⟨hlen, hhex⟩ := h
  have hlist : (initID d).toList = d.toList ++ "-init".toList := by simp [initID]
  have htrim : trimSpace (initID d) = initID d := by
    refine trimSpace_of_no_space fun c hc => ?_
    rw [hlist, mem_append] at hc
    rcases hc with hc | hc
    · exact isSpace_of_isLowerHex (hhex c hc)
    · have hall : ("-init".toList.all fun c => !isSpace c) = true := by decide
      simpa using List.all_eq_true.1 hall c hc
  unfold parseStringID
  rw [htrim]
  refine if_pos ?_
  simp only [isStringID, hlist, ← hlen, List.take_left, List.drop_left, Bool.and_eq_true,
    beq_iff_eq, List.all_eq_true]
  exact ⟨⟨trivial, hhex⟩, rfl⟩

structure Durable (fromBytes : String → String) (s : State) : Prop where
  digest : ∀ x, isCanonical (fromBytes x) = true
  sound : Sound s
  identified : Identified fromBytes s
  mirror : Mirror s

namespace Durable

variable {fromBytes : String → String} {s : State} {k : ChainID}
variable (D : Durable fromBytes s)
include D

theorem lookup (hk : s.layerMap k = some i) :
    s.store.layers.lookup k = some (s.layerInfo i).files := by
  rw [D.mirror.layers, hk]
  rfl

theorem getDiffID (hk : s.layerMap k = some i) :
    s.store.getDiffID k = some (s.layers i).diffID := by
  have hv := (D.identified.layer (D.identified.keyed hk).1).valid
  have hdiff : (s.layerInfo i).files.diff = some (s.layers i).diffID := rfl
  rw [MetadataStore.getDiffID, D.lookup hk, bind_some, hdiff, bind_some,
    parseDigest_of_validateDigest hv]

theorem getSize (hk : s.layerMap k = some i) : s.store.getSize k = some (s.layers i).size := by
  unfold MetadataStore.getSize
  rw [D.lookup hk]
  rfl

theorem getCacheID (hk : s.layerMap k = some i) :
    s.store.getCacheID k = some (s.layers i).cacheID := by
  have hcache : (s.layerInfo i).files.cacheID = some (s.layers i).cacheID := rfl
  rw [MetadataStore.getCacheID, D.lookup hk, bind_some, hcache, bind_some,
    parseStringID_of_isRandomID (D.mirror.layer hk).1.cacheID]

theorem getDescriptor (hk : s.layerMap k = some i) :
    s.store.getDescriptor k = some (s.layers i).descriptor := by
  have h : (s.layerInfo i).descriptor.digest = "" → (s.layerInfo i).descriptor = {} :=
    (D.mirror.layer hk).1.descriptor
  rw [MetadataStore.getDescriptor, D.lookup hk, bind_some]
  change some ((s.layerInfo i).files.descriptor.getD {}) = some (s.layerInfo i).descriptor
  generalize s.layerInfo i = l at h
  by_cases he : l.descriptor.digest = ""
  · rw [files, if_pos he, h he]
    rfl
  · rw [files, if_neg he]
    rfl

theorem getParent (hk : s.layerMap k = some i) :
    s.store.getParent k = some ((s.layerInfo i).parent.getD "") := by
  have hlook := D.lookup hk
  have F := D.identified.files hlook
  unfold MetadataStore.getParent
  rw [hlook]
  change (match (s.layerInfo i).parent with | none => _ | some content => _) = _
  cases hp : (s.layerInfo i).parent with
  | none => rfl
  | some p => exact parseDigest_of_validateDigest (F.parent hp)

variable {n : String}

theorem lookupMount (hm : s.mounts n = some m) :
    s.store.mounts.lookup n = some (s.mountInfo m).files := by
  rw [D.mirror.mounts, hm]
  rfl

theorem getMountID (hm : s.mounts n = some m) :
    s.store.getMountID n = some (s.mountedLayers m).mountID := by
  have hid : (s.mountInfo m).files.mountID = some (s.mountedLayers m).mountID := rfl
  rw [MetadataStore.getMountID, D.lookupMount hm, bind_some, hid, bind_some,
    parseStringID_of_isRandomID (D.mirror.mount hm).mountID]

theorem getInitID (hm : s.mounts n = some m) :
    s.store.getInitID n = some (s.mountedLayers m).initID := by
  have R := D.mirror.mount hm
  rw [MetadataStore.getInitID, D.lookupMount hm, bind_some]
  rcases R.initID with he | he
  · have hnone : (s.mountInfo m).files.initID = none := if_pos he
    rw [hnone, he]
  · have hne : (s.mountedLayers m).initID ≠ "" := by
      rw [he]
      simp [initID]
    have hsome : (s.mountInfo m).files.initID = some (s.mountedLayers m).initID := if_neg hne
    rw [hsome, he]
    exact parseStringID_initID R.mountID

theorem canonical (hk : s.layerMap k = some i) : isCanonical k = true := by
  obtain ⟨hi, rfl⟩ := D.identified.keyed hk
  rw [(D.identified.layer hi).chainID, createChainIDFromParent_single]
  split
  · exact (D.mirror.layer hk).2
  · exact D.digest _

theorem getMountParent (hm : s.mounts n = some m) :
    s.store.getMountParent n = some ((s.mountInfo m).parent.getD "") := by
  have hfile : (s.mountInfo m).files.parent = (s.mountInfo m).parent := rfl
  rw [MetadataStore.getMountParent, D.lookupMount hm, bind_some, hfile]
  cases hp : (s.mountInfo m).parent with
  | none => rfl
  | some p =>
    obtain ⟨i, hi, rfl⟩ := map_eq_some_iff.1 hp
    obtain ⟨-, rfl⟩ := D.sound.counted.mountKeyed hm
    have hpres := D.sound.counted.mountClosed hm hi
    exact parseDigest_of_validateDigest (and_eq_true_iff.1 (D.canonical hpres)).2

theorem count_present_le (n : Nat) : Nat.count s.present n ≤ s.store.layers.keys.length := by
  rw [Nat.count_eq_card_filter_range]
  refine le_trans ?_ (toFinset_card_le _)
  refine Finset.card_le_card_of_injOn (fun i => (s.layers i).chainID) ?_ ?_
  · intro i hi
    have hpres : s.present i := (Finset.mem_filter.1 hi).2
    rw [List.coe_toFinset, Set.mem_ofPred_eq, ← AList.mem_keys, ← AList.lookup_isSome,
      D.lookup hpres]
    rfl
  · intro i hi j hj h
    have hi' : s.present i := (Finset.mem_filter.1 hi).2
    have hj' : s.present j := (Finset.mem_filter.1 hj).2
    unfold present at hi' hj'
    rw [show (s.layers i).chainID = (s.layers j).chainID from h, hj'] at hi'
    exact (Option.some.inj hi').symm

end Durable

/-! ## Loading layers -/

/-- A state `t` of the loader: it has some of the layers of `s`. -/
structure Loading (s t : State) : Prop where
  store : t.store = s.store
  keyed : ∀ {k j}, t.layerMap k = some j → j < t.nextLayer ∧ (t.layers j).chainID = k
  present : ∀ {j}, j < t.nextLayer → t.present j
  older : ∀ {j p}, (t.layers j).parent = some p → p < j
  info : ∀ {j}, j < t.nextLayer → ∃ i, s.layerMap (t.layers j).chainID = some i ∧
    t.layerInfo j = s.layerInfo i
  references : ∀ j, (t.layers j).references = []
  calls : ∀ c, t.pc c = none

/-- The counts of the loader: the children that are listed in `done`. -/
structure Tallied (t : State) (done : List ChainID) : Prop where
  loaded : ∀ k ∈ done, t.layerMap k ≠ none
  count : ∀ {j}, j < t.nextLayer → (t.layers j).referenceCount =
    Nat.count (fun j' => (t.layers j').parent = some j ∧ (t.layers j').chainID ∈ done) t.nextLayer
  mounts : ∀ n, t.mounts n = none

namespace Loading

variable {fromBytes : String → String} {s t t' : State} {k : ChainID} {i j : Nat}

theorem forget (s : State) : Loading s s.forget where
  store := rfl
  keyed h := nomatch h
  present h := nomatch h
  older h := nomatch h
  info h := nomatch h
  references _ := rfl
  calls _ := rfl

theorem grows_addLoaded (t : State) (l : LayerData) : Grows t (t.addLoaded l) := by
  refine ⟨Nat.le_succ _, fun hi => congrArg RoLayer.toLayerData ?_⟩
  exact update_of_ne (Nat.ne_of_lt hi) ..

theorem addLoaded_layers_self (t : State) (l : LayerData) :
    (t.addLoaded l).layers t.nextLayer = { toLayerData := l } :=
  update_self ..

theorem addLoaded_layers_of_ne (t : State) (l : LayerData) (hj : j ≠ t.nextLayer) :
    (t.addLoaded l).layers j = t.layers j :=
  update_of_ne hj ..

theorem addLoaded (L : Loading s t) (hk : s.layerMap l.chainID = some i)
    (hnew : t.layerMap l.chainID = none) (hp : ∀ {p}, l.parent = some p → p < t.nextLayer)
    (hl : t.describe l = s.layerInfo i) : Loading s (t.addLoaded l) := by
  have G := grows_addLoaded t l
  have hself := addLoaded_layers_self t l
  have hmap : ∀ k, (t.addLoaded l).layerMap k =
      update t.layerMap l.chainID (some t.nextLayer) k := fun _ => rfl
  -- Every layer of the new state is the new one or an old one.
  have hcases : ∀ {j}, j < (t.addLoaded l).nextLayer → j < t.nextLayer ∨ j = t.nextLayer :=
    fun h => Nat.lt_succ_iff_lt_or_eq.1 h
  constructor
  case store => exact L.store
  case keyed =>
    intro k j h
    rw [hmap] at h
    by_cases hk : k = l.chainID
    · subst hk
      obtain rfl : t.nextLayer = j := by simpa using h
      exact ⟨Nat.lt_succ_self _, by rw [hself]⟩
    · rw [update_of_ne hk] at h
      obtain ⟨hj, hid⟩ := L.keyed h
      rw [addLoaded_layers_of_ne t l (Nat.ne_of_lt hj)]
      exact ⟨Nat.lt_succ_of_lt hj, hid⟩
  case present =>
    intro j hj
    unfold State.present
    rw [hmap]
    rcases hcases hj with hj | rfl
    · have hpres : t.layerMap (t.layers j).chainID = some j := L.present hj
      rw [addLoaded_layers_of_ne t l (Nat.ne_of_lt hj), update_of_ne, hpres]
      intro he
      rw [he, hnew] at hpres
      cases hpres
    · rw [hself, update_self]
  case older =>
    intro j p h
    by_cases hj : j = t.nextLayer
    · subst hj
      rw [hself] at h
      exact hp h
    · rw [addLoaded_layers_of_ne t l hj] at h
      exact L.older h
  case info =>
    intro j hj
    unfold layerInfo
    rcases hcases hj with hj | rfl
    · rw [addLoaded_layers_of_ne t l (Nat.ne_of_lt hj), G.describe fun h =>
        Nat.lt_trans (L.older h) hj]
      exact L.info hj
    · rw [hself, G.describe hp]
      exact ⟨i, hk, hl⟩
  case references =>
    intro j
    by_cases hj : j = t.nextLayer
    · subst hj
      rw [hself]
    · rw [addLoaded_layers_of_ne t l hj]
      exact L.references j
  case calls => exact L.calls

end Loading

theorem Tallied.addLoaded {s t : State} {l : LayerData} (T : Tallied t done) (L : Loading s t)
    (hnew : t.layerMap l.chainID = none) : Tallied (t.addLoaded l) done where
  loaded k hk := by
    change update t.layerMap l.chainID (some t.nextLayer) k ≠ none
    by_cases h : k = l.chainID
    · simp [h]
    · rw [update_of_ne h]
      exact T.loaded k hk
  count {j} hj := by
    have hdone : l.chainID ∉ done := fun h => T.loaded _ h hnew
    have hself := Loading.addLoaded_layers_self t l
    have hcount : ∀ j, Nat.count (fun j' => ((t.addLoaded l).layers j').parent = some j ∧
        ((t.addLoaded l).layers j').chainID ∈ done) (t.nextLayer + 1) =
        Nat.count (fun j' => (t.layers j').parent = some j ∧ (t.layers j').chainID ∈ done)
          t.nextLayer := by
      intro j
      rw [Nat.count_succ, if_neg (by rw [hself]; exact fun h => hdone h.2), Nat.add_zero]
      refine Count.count_congr fun j' hj' => ?_
      rw [Loading.addLoaded_layers_of_ne t l (Nat.ne_of_lt hj')]
    refine Eq.trans ?_ (hcount j).symm
    rcases Nat.lt_succ_iff_lt_or_eq.1 hj with hj | rfl
    · rw [Loading.addLoaded_layers_of_ne t l (Nat.ne_of_lt hj)]
      exact T.count hj
    · rw [hself]
      refine (Nat.count_iff_forall_not.2 fun j' hj' h => ?_).symm
      exact Nat.lt_asymm hj' (L.older h.1)
  mounts := T.mounts

namespace Loading

variable {fromBytes : String → String} {s t t' : State} {k : ChainID} {i j : Nat}

/-- What is known after `loadLayer` for layer `i` of `s`, which is stored under `k`. -/
structure Found (s t : State) (done : List ChainID) (k : ChainID) (i : Nat) (t' : State) (j : Nat) :
    Prop where
  loading : Loading s t'
  tallied : Tallied t' done
  found : t'.layerMap k = some j
  /-- Only ancestors are new. -/
  new : ∀ {k'}, t'.layerMap k' ≠ none → t.layerMap k' ≠ none ∨ ∃ i' ≤ i, s.layerMap k' = some i'

theorem found_addLoaded {t₁ : State} {l : LayerData} (L : Loading s t₁) (T : Tallied t₁ done)
    (hid : l.chainID = k)
    (hk : s.layerMap k = some i) (hnew : t₁.layerMap k = none)
    (hp : ∀ {p}, l.parent = some p → p < t₁.nextLayer)
    (hl : t₁.describe l = s.layerInfo i)
    (hold : ∀ {k'}, t₁.layerMap k' ≠ none → t.layerMap k' ≠ none ∨ ∃ i' ≤ i,
      s.layerMap k' = some i') :
    Found s t done k i (t₁.addLoaded l) t₁.nextLayer where
  loading := L.addLoaded (hid ▸ hk) (hid ▸ hnew) hp hl
  tallied := T.addLoaded L (hid ▸ hnew)
  found := hid ▸ update_self ..
  new {k'} h := by
    subst hid
    change update t₁.layerMap l.chainID (some t₁.nextLayer) k' ≠ none at h
    by_cases hk' : k' = l.chainID
    · subst hk'
      exact .inr ⟨i, Nat.le_refl i, hk⟩
    · rw [update_of_ne hk'] at h
      exact hold h

/-- `loadLayer` finds every layer of `s`, and loads it after its ancestors. -/
theorem loadLayer (D : Durable fromBytes s) (L : Loading s t) (T : Tallied t done)
    (hk : s.layerMap k = some i) (hfuel : Nat.count s.present (i + 1) < fuel) :
    ∃ t' j, t.loadLayer fuel k = some (t', j) ∧ Found s t done k i t' j := by
  induction fuel generalizing k i with
  | zero => cases hfuel
  | succ fuel ih =>
    rw [loadLayer]
    cases hm : t.layerMap k with
    | some j => exact ⟨t, j, rfl, L, T, hm, fun h => .inl h⟩
    | none =>
      simp only [L.store, D.getDiffID hk, D.getSize hk, D.getCacheID hk, D.getParent hk,
        D.getDescriptor hk, bind_eq_bind, bind_some]
      have H := D.sound.counted
      obtain ⟨hi, rfl⟩ := H.keyed hk
      cases hp : (s.layers i).parent with
      | none =>
        have hroot : (s.layerInfo i).parent.getD "" = "" := by
          simp [layerInfo, describe, hp]
        rw [if_pos hroot]
        refine ⟨_, _, rfl, ?_⟩
        refine found_addLoaded L T rfl hk hm (by simp) ?_ fun h => .inl h
        simp [layerInfo, describe, hp]
      | some p =>
        have hlt : p < i := H.older hp
        have hpres : s.present p := H.closed hk hp
        have hparent : (s.layerInfo i).parent.getD "" = (s.layers p).chainID := by
          simp [layerInfo, describe, hp]
        have hne : (s.layers p).chainID ≠ "" :=
          ne_empty_of_validateDigest (and_eq_true_iff.1 (D.canonical hpres)).2
        have hcount : Nat.count s.present (p + 1) < Nat.count s.present (i + 1) :=
          Nat.lt_of_le_of_lt (Nat.count_monotone _ hlt)
            (Nat.count_strict_mono hk (Nat.lt_succ_self i))
        obtain ⟨t₁, q, hload, F⟩ := ih hpres (by omega)
        rw [hparent, if_neg hne, hload]
        have hq := F.loading.keyed F.found
        -- `i` is not an ancestor of its parent.
        have hnew : t₁.layerMap (s.layers i).chainID = none := by
          by_contra h
          rcases F.new h with h | ⟨i', hle, hi'⟩
          · exact h hm
          · rw [hk] at hi'
            cases hi'
            omega
        refine ⟨_, _, rfl, ?_⟩
        refine found_addLoaded F.loading F.tallied rfl hk hnew ?_ ?_ fun h => ?_
        · rintro _ ⟨⟩
          exact hq.1
        · simp [layerInfo, describe, hp, hq.2]
        · exact (F.new h).imp_right fun h => h.imp fun _ hi =>
            ⟨Nat.le_trans hi.1 (Nat.le_of_lt hlt), hi.2⟩

theorem frame (L : Loading s t) (hl : ∀ j, (t'.layers j).toLayerData = (t.layers j).toLayerData)
    (hr : ∀ j, (t'.layers j).references = (t.layers j).references)
    (hn : t'.nextLayer = t.nextLayer) (hmap : t'.layerMap = t.layerMap) (hst : t'.store = t.store)
    (hpc : t'.pc = t.pc) : Loading s t' := by
  have hid : ∀ j, (t'.layers j).chainID = (t.layers j).chainID :=
    fun j => congrArg LayerData.chainID (hl j)
  constructor
  case store => exact hst.trans L.store
  case keyed =>
    intro k j h
    rw [hmap] at h
    rw [hn, hid]
    exact L.keyed h
  case present =>
    intro j hj
    rw [hn] at hj
    unfold State.present
    rw [hmap, hid]
    exact L.present hj
  case older =>
    intro j p h
    rw [hl] at h
    exact L.older h
  case info =>
    intro j hj
    rw [hn] at hj
    unfold layerInfo
    rw [describe_congr hl, hl]
    exact L.info hj
  case references => exact fun j => (hr j).trans (L.references j)
  case calls => exact fun c => hpc ▸ L.calls c

theorem retain (L : Loading s t) (p : Nat) : Loading s (t.retain p) := by
  refine L.frame (t.retain_data p) (fun j => ?_) rfl rfl rfl rfl
  by_cases hj : j = p
  · subst hj
    simp [State.retain]
  · simp [State.retain, hj]

end Loading

namespace Tallied

variable {s t : State} {k : ChainID} {j : Nat}

theorem count_listed (L : Loading s t) (hk : t.layerMap k = some j) (hnew : k ∉ done) (j₀ : Nat) :
    Nat.count (fun j' => (t.layers j').parent = some j₀ ∧ (t.layers j').chainID ∈ k ::
      done) t.nextLayer =
      Nat.count (fun j' => (t.layers j').parent = some j₀ ∧ (t.layers j').chainID ∈ done)
        t.nextLayer + if (t.layers j).parent = some j₀ then 1 else 0 := by
  obtain ⟨hj, rfl⟩ := L.keyed hk
  have h := Count.count_update (p := fun j' => (t.layers j').parent = some j₀ ∧
    (t.layers j').chainID ∈ done)
    (q := fun j' => (t.layers j').parent = some j₀ ∧
      (t.layers j').chainID ∈ (t.layers j).chainID :: done) hj fun j' hj' hne => by
    have hother : (t.layers j').chainID ≠ (t.layers j).chainID := by
      intro he
      have hpres : t.layerMap (t.layers j').chainID = some j' := L.present hj'
      rw [he, hk] at hpres
      exact hne (Option.some.inj hpres).symm
    simp [hother]
  simpa [hnew] using h

theorem listed (T : Tallied t done) (L : Loading s t) (hk : t.layerMap k = some j)
    (hnew : k ∉ done) :
    Tallied (match (t.layers j).parent with | none => t | some p => t.retain p) (k :: done) := by
  have hloaded : ∀ k' ∈ k :: done, t.layerMap k' ≠ none := by
    intro k' hk'
    rcases mem_cons.1 hk' with rfl | hk'
    · simp [hk]
    · exact T.loaded k' hk'
  cases hp : (t.layers j).parent with
  | none =>
    refine ⟨hloaded, fun {j₀} hj₀ => ?_, T.mounts⟩
    rw [count_listed L hk hnew, hp]
    exact T.count hj₀
  | some p =>
    refine ⟨hloaded, fun {j₀} hj₀ => ?_, T.mounts⟩
    have hparent : ∀ j', ((t.retain p).layers j').parent = (t.layers j').parent :=
      fun j' => congrArg LayerData.parent (t.retain_data p j')
    have hid : ∀ j', ((t.retain p).layers j').chainID = (t.layers j').chainID :=
      fun j' => congrArg LayerData.chainID (t.retain_data p j')
    simp only [hparent, hid]
    refine Eq.trans ?_ (count_listed L hk hnew j₀).symm
    rw [← T.count hj₀, hp]
    by_cases hj : j₀ = p
    · subst hj
      simp [retain]
    · have hj' : p ≠ j₀ := fun h => hj h.symm
      simp [retain, hj, hj']

end Tallied

/-! ## The first loop -/

namespace Loading

variable {fromBytes : String → String} {s t : State} {k : ChainID}

theorem loadListed (D : Durable fromBytes s) (L : Loading s t) (T : Tallied t done)
    (hk : s.layerMap k = some i) (hnew : k ∉ done) :
    Loading s (t.loadListed k) ∧ Tallied (t.loadListed k) (k :: done) := by
  have hfuel : Nat.count s.present (i + 1) < t.loadFuel := by
    unfold loadFuel
    rw [L.store]
    exact Nat.lt_succ_of_le (D.count_present_le _)
  obtain ⟨t', j, hload, F⟩ := L.loadLayer D T hk hfuel
  unfold State.loadListed
  rw [hload]
  refine ⟨?_, F.tallied.listed F.loading F.found hnew⟩
  change Loading s (match (t'.layers j).parent with | none => t' | some p => t'.retain p)
  cases (t'.layers j).parent with
  | none => exact F.loading
  | some p => exact F.loading.retain p

theorem foldl_loadListed (D : Durable fromBytes s) {ids : List ChainID}
    (hids : ∀ k ∈ ids, s.layerMap k ≠ none) (hnodup : (ids.reverse ++ done).Nodup)
    (L : Loading s t) (T : Tallied t done) :
    Loading s (ids.foldl State.loadListed t) ∧ Tallied (ids.foldl State.loadListed t)
      (ids.reverse ++ done) := by
  induction ids generalizing t done with
  | nil => exact ⟨L, T⟩
  | cons k ids ih =>
    obtain ⟨i, hk⟩ := ne_none_iff_exists'.1 (hids k mem_cons_self)
    rw [reverse_cons, append_assoc, singleton_append] at hnodup ⊢
    have hnew : k ∉ done := (nodup_cons.1 hnodup.of_append_right).1
    obtain ⟨L', T'⟩ := L.loadListed D T hk hnew
    exact ih (fun k' hk' => hids k' (mem_cons_of_mem _ hk')) hnodup L' T'

theorem counted (L : Loading s t) (T : Tallied t done)
    (hall : ∀ k, s.layerMap k ≠ none → k ∈ done) :
    Counted t none := by
  have hholder : ∀ c, t.holder c = none := by
    intro c
    simp [holder, L.calls c]
  constructor
  case keyed => exact L.keyed
  case older => exact L.older
  case closed =>
    intro j p hj hp
    exact L.present (Nat.lt_trans (L.older hp) (L.keyed hj).1)
  case mountKeyed =>
    intro n m h
    rw [T.mounts] at h
    cases h
  case mountClosed =>
    intro m p h
    unfold mounted at h
    rw [T.mounts] at h
    cases h
  case held =>
    intro c p h
    rw [hholder] at h
    cases h
  case inHand => simp
  case calls => exact fun _ => L.calls _
  case count =>
    intro j hj
    have hmounts : t.mountsOf j = 0 := by
      refine Nat.count_iff_forall_not.2 fun m _ h => ?_
      unfold mounted at h
      rw [T.mounts] at h
      cases h.1
    have hflight : t.inFlight j = 0 := by
      refine Nat.count_iff_forall_not.2 fun c _ h => ?_
      rw [hholder] at h
      cases h
    have hchildren : t.children j = Nat.count (fun j' => (t.layers j').parent = some j ∧
        (t.layers j').chainID ∈ done) t.nextLayer := by
      refine Count.count_congr fun j' hj' => ?_
      obtain ⟨i, hi, -⟩ := L.info hj'
      have hmem : (t.layers j').chainID ∈ done := hall _ (by simp [hi])
      simp [hmem, L.present hj']
    rw [T.count (L.keyed hj).1, hmounts, hflight, hchildren, L.references]
    simp

end Loading

/-! ## The second loop -/

/-- A state of the loader with all layers and some of the mounts of `s`. -/
structure LoadingMounts (s t : State) : Prop extends Loading s t where
  counted : Counted t none
  all : ∀ {k i}, s.layerMap k = some i → ∃ j, t.layerMap k = some j
  mountInfo : ∀ {n m}, t.mounts n = some m → ∃ m', s.mounts n = some m' ∧
    t.mountInfo m = s.mountInfo m'

theorem State.loadLayer_loaded {t : State} (h : t.layerMap k = some j) :
    t.loadLayer (fuel + 1) k = some (t, j) := by
  rw [loadLayer, h]

namespace LoadingMounts

variable {fromBytes : String → String} {s t : State} {x : MountedLayer}

theorem insertMount (L : LoadingMounts s t) (L₁ : Loading s t₁)
    (H : Counted t₁ x.parent) (hmap : t₁.layerMap = t.layerMap) (hm : t₁.mounts = t.mounts)
    (hinfo : ∀ j, t₁.mountInfo j = t.mountInfo j) (hs : s.mounts x.name = some m)
    (hnew : t.mounts x.name = none) (hx : t₁.describeMount x = s.mountInfo m) :
    LoadingMounts s (t₁.insertMount x) where
  toLoading := L₁.frame (fun _ => rfl) (fun _ => rfl) rfl rfl rfl rfl
  counted := H.insertMount (hm ▸ hnew)
  all hk := hmap ▸ L.all hk
  mountInfo {n j} h := by
    rw [insertMount_mounts] at h
    unfold State.mountInfo
    rw [insertMount_mountedLayers]
    by_cases hn : n = x.name
    · subst hn
      obtain rfl : t₁.nextMount = j := by simpa using h
      rw [update_self]
      exact ⟨m, hs, hx⟩
    · rw [update_of_ne hn] at h
      rw [update_of_ne (Nat.ne_of_lt (H.mountKeyed h).1)]
      obtain ⟨m', hm', hi⟩ := L.mountInfo (hm ▸ h)
      exact ⟨m', hm', (hinfo j).trans hi⟩

theorem loadMount (D : Durable fromBytes s) (L : LoadingMounts s t) (hm : s.mounts n = some m) :
    ∃ t', t.loadMount n = some t' ∧ LoadingMounts s t' ∧ t'.mounts n ≠ none ∧
      ∀ n', t.mounts n' ≠ none → t'.mounts n' ≠ none := by
  have hstay : ∀ {t₁ : State} {x : MountedLayer}, x.name = n → t₁.mounts = t.mounts →
      (t₁.insertMount x).mounts n ≠ none ∧ ∀ n', t.mounts n' ≠ none →
        (t₁.insertMount x).mounts n' ≠ none := by
    rintro t₁ x rfl h
    refine ⟨by simp, fun n' hn' => ?_⟩
    by_cases he : n' = x.name
    · simp [he]
    · simpa [he, h] using hn'
  unfold State.loadMount
  cases hn : t.mounts n with
  | some m' => exact ⟨t, rfl, L, by simp [hn], fun _ h => h⟩
  | none =>
    simp only [L.store, D.getMountID hm, D.getInitID hm, D.getMountParent hm,
      bind_eq_bind, bind_some]
    have H := D.sound.counted
    obtain ⟨hlt, rfl⟩ := H.mountKeyed hm
    cases hp : (s.mountedLayers m).parent with
    | none =>
      have hroot : (s.mountInfo m).parent.getD "" = "" := by
        simp [State.mountInfo, describeMount, hp]
      rw [if_pos hroot]
      refine ⟨_, rfl, ?_, hstay rfl rfl⟩
      refine L.insertMount L.toLoading L.counted rfl rfl (fun _ => rfl) hm hn ?_
      simp [State.mountInfo, describeMount, hp]
    | some p =>
      have hpres : s.present p := H.mountClosed hm hp
      have hparent : (s.mountInfo m).parent.getD "" = (s.layers p).chainID := by
        simp [State.mountInfo, describeMount, hp]
      have hne : (s.layers p).chainID ≠ "" :=
        ne_empty_of_validateDigest (and_eq_true_iff.1 (D.canonical hpres)).2
      obtain ⟨q, hq⟩ := L.all hpres
      have hload : t.loadLayer t.loadFuel (s.layers p).chainID = some (t, q) := loadLayer_loaded hq
      rw [hparent, if_neg hne, hload]
      have hid : (t.layers q).chainID = (s.layers p).chainID := (L.keyed hq).2
      refine ⟨_, rfl, ?_, hstay rfl rfl⟩
      refine L.insertMount (L.retain q)
        (L.counted.retain (L.counted.present_of_key hq)) rfl rfl (fun j => ?_) hm hn ?_
      · exact describeMount_congr (t.retain_data q) _
      · rw [describeMount_congr (t.retain_data q)]
        simp [State.mountInfo, describeMount, hp, hid]

theorem foldl_loadListedMount (D : Durable fromBytes s) {names : List String}
    (hnames : ∀ n ∈ names, s.mounts n ≠ none) (L : LoadingMounts s t) :
    LoadingMounts s (names.foldl loadListedMount t) ∧
      ∀ n, (t.mounts n ≠ none ∨ n ∈ names) → (names.foldl loadListedMount t).mounts n ≠ none := by
  induction names generalizing t with
  | nil => exact ⟨L, fun n h => h.resolve_right not_mem_nil⟩
  | cons n names ih =>
    obtain ⟨m, hm⟩ := ne_none_iff_exists'.1 (hnames n mem_cons_self)
    obtain ⟨t', hload, L', hn, hstay⟩ := L.loadMount D hm
    have hstep : t.loadListedMount n = t' := by
      rw [loadListedMount, hload]
      rfl
    rw [foldl_cons, hstep]
    obtain ⟨L'', hall⟩ := ih (fun n' hn' => hnames n' (mem_cons_of_mem _ hn')) L'
    refine ⟨L'', fun n' h => hall n' ?_⟩
    rcases h with h | h
    · exact .inl (hstay n' h)
    · rcases mem_cons.1 h with rfl | h
      · exact .inl hn
      · exact .inr h

end LoadingMounts

/-! ## The restart -/

structure Restarted (s t : State) : Prop where
  layers : ∀ k, (t.layerMap k).map t.layerInfo = (s.layerMap k).map s.layerInfo
  mounts : ∀ n, (t.mounts n).map t.mountInfo = (s.mounts n).map s.mountInfo
  counted : Counted t none
  references : ∀ j, (t.layers j).references = []
  calls : ∀ c, t.pc c = none
  store : t.store = s.store

namespace Durable

variable {fromBytes : String → String} {s : State} {ids : List ChainID} {mounts : List String}

theorem mem_listLayers (D : Durable fromBytes s) :
    k ∈ s.store.listLayers ↔ s.layerMap k ≠ none := by
  have hmem : k ∈ s.store.layers.keys ↔ s.layerMap k ≠ none := by
    rw [← AList.mem_keys, ← AList.lookup_isSome, D.mirror.layers, isSome_map, isSome_iff_ne_none]
  unfold MetadataStore.listLayers
  rw [mem_filter, hmem]
  refine and_iff_left_of_imp fun h => ?_
  obtain ⟨i, hk⟩ := ne_none_iff_exists'.1 h
  exact D.canonical hk

theorem mem_listMounts (D : Durable fromBytes s) : n ∈ s.store.listMounts ↔ s.mounts n ≠ none := by
  have hmem : n ∈ s.store.mounts.keys ↔ s.mounts n ≠ none := by
    rw [← AList.mem_keys, ← AList.lookup_isSome, D.mirror.mounts, isSome_map, isSome_iff_ne_none]
  unfold MetadataStore.listMounts
  rw [mem_filter, hmem]
  refine and_iff_left_of_imp fun h => ?_
  obtain ⟨m, hm⟩ := ne_none_iff_exists'.1 h
  obtain ⟨-, rfl⟩ := D.sound.counted.mountKeyed hm
  exact (D.mirror.mount hm).name

theorem restarted (D : Durable fromBytes s) (hids : ids.Perm s.store.listLayers)
    (hmounts : mounts.Perm s.store.listMounts) :
    Restarted s (s.newStoreFromGraphDriver ids mounts) := by
  have hlisted : ∀ k, k ∈ ids ↔ s.layerMap k ≠ none := fun k => hids.mem_iff.trans D.mem_listLayers
  have hnodup : ids.Nodup := hids.nodup_iff.2 (s.store.layers.nodupKeys.filter _)
  -- The first loop loads all layers and counts their children.
  have T₀ : Tallied s.forget [] := ⟨fun _ => nofun, nofun, fun _ => rfl⟩
  obtain ⟨L₁, T₁⟩ := Loading.foldl_loadListed D (fun k hk => (hlisted k).1 hk)
    (by simpa using hnodup) (.forget s) T₀
  have hdone : ∀ k, s.layerMap k ≠ none → k ∈ ids.reverse ++ [] := by
    intro k hk
    simpa using (hlisted k).2 hk
  have M₁ : LoadingMounts s (ids.foldl loadListed s.forget) :=
    { L₁ with
      counted := L₁.counted T₁ hdone
      all := fun hk => ne_none_iff_exists'.1 (T₁.loaded _ (hdone _ (by simp [hk])))
      mountInfo := fun {n m} h => by
        rw [T₁.mounts] at h
        cases h }
  -- The second one loads all mounts.
  obtain ⟨M₂, hall⟩ := M₁.foldl_loadListedMount D fun n hn =>
    D.mem_listMounts.1 (hmounts.mem_iff.1 hn)
  refine ⟨fun k => ?_, fun n => ?_, M₂.counted, M₂.references, M₂.calls, M₂.store⟩
  · cases hk : s.layerMap k with
    | none =>
      cases hk' : (s.newStoreFromGraphDriver ids mounts).layerMap k with
      | none => rfl
      | some j =>
        obtain ⟨hj, hid⟩ := M₂.keyed hk'
        obtain ⟨i, hi, -⟩ := M₂.info hj
        rw [hid, hk] at hi
        cases hi
    | some i =>
      obtain ⟨j, hk'⟩ := M₂.all hk
      obtain ⟨hj, hid⟩ := M₂.keyed hk'
      obtain ⟨i', hi, hinfo⟩ := M₂.info hj
      rw [hid, hk] at hi
      cases hi
      exact (congrArg _ hk').trans (congrArg some hinfo)
  · cases hn : (s.newStoreFromGraphDriver ids mounts).mounts n with
    | none =>
      cases hn' : s.mounts n with
      | none => rfl
      | some m =>
        have hlist : n ∈ mounts := hmounts.mem_iff.2 (D.mem_listMounts.2 (by simp [hn']))
        exact (hall n (.inr hlist) hn).elim
    | some m =>
      obtain ⟨m', hm', hinfo⟩ := M₂.mountInfo hn
      rw [hm']
      exact congrArg some hinfo

theorem restart (D : Durable fromBytes s) (hids : ids.Perm s.store.listLayers)
    (hmounts : mounts.Perm s.store.listMounts) :
    Durable fromBytes (s.newStoreFromGraphDriver ids mounts) := by
  have R := D.restarted hids hmounts
  have I := D.identified.newStoreFromGraphDriver ids mounts
  generalize s.newStoreFromGraphDriver ids mounts = t at R I
  have hno : ∀ {c q}, t.pc c ≠ some q := by
    intro c q h
    rw [R.calls] at h
    cases h
  have M : Mirror t := by
    constructor
    case layers =>
      intro k
      have h := congrArg (Option.map files) (R.layers k)
      rw [Option.map_map, Option.map_map] at h
      rw [R.store, D.mirror.layers k]
      exact h.symm
    case mounts =>
      intro n
      have h := congrArg (Option.map MountInfo.files) (R.mounts n)
      rw [Option.map_map, Option.map_map] at h
      rw [R.store, D.mirror.mounts n]
      exact h.symm
    case layer =>
      intro k j hk
      have h := R.layers k
      rw [hk, map_some] at h
      obtain ⟨i, hi, hinfo⟩ := map_eq_some_iff.1 h.symm
      have hcache : (s.layers i).cacheID = (t.layers j).cacheID := congrArg cacheID hinfo
      have hdesc : (s.layers i).descriptor = (t.layers j).descriptor := congrArg descriptor hinfo
      have hdiff : (s.layers i).diffID = (t.layers j).diffID := congrArg diffID hinfo
      obtain ⟨⟨hc, hd⟩, hcan⟩ := D.mirror.layer hi
      exact ⟨⟨hcache ▸ hc, hdesc ▸ hd⟩, hdiff ▸ hcan⟩
    case mount =>
      intro n m hm
      have h := R.mounts n
      rw [hm, map_some] at h
      obtain ⟨m', hm', hinfo⟩ := map_eq_some_iff.1 h.symm
      have hname : (s.mountedLayers m').name = (t.mountedLayers m).name :=
        congrArg MountInfo.name hinfo
      have hid : (s.mountedLayers m').mountID = (t.mountedLayers m).mountID :=
        congrArg MountInfo.mountID hinfo
      have hinit : (s.mountedLayers m').initID = (t.mountedLayers m).initID :=
        congrArg MountInfo.initID hinfo
      obtain ⟨h1, h2, h3⟩ := D.mirror.mount hm'
      rw [hid] at h2
      rw [hinit, hid] at h3
      exact ⟨hname ▸ h1, h2, h3⟩
    case call => exact fun h => (hno h).elim
  exact ⟨D.digest, ⟨R.counted, ⟨fun h => (hno h).elim⟩, ⟨fun h => (hno h).elim⟩⟩, I, M⟩

end Durable

def Event.durable : Event → Bool
  | .op l => l.durable
  | .restart .. => true

section
variable {fromBytes : String → String} {s s' : State}

theorem Label.proper_of_durable {l : Label} (h : l.durable = true) : l.proper = true := by
  cases l with
  | registerByGraphID =>
    obtain ⟨-, hd⟩ := and_eq_true_iff.1 h
    exact (and_eq_true_iff.1 hd).2
  | _ => rfl

theorem Durable.init (hdigest : ∀ x, isCanonical (fromBytes x) = true) :
    Durable fromBytes emptyStore :=
  ⟨hdigest, .init, .init, .init⟩

theorem Durable.step (D : Durable fromBytes s) {l : Label} (hl : l.durable = true)
    (h : step fromBytes l s = some s') : Durable fromBytes s' where
  digest := D.digest
  sound := D.sound.step h
  identified := D.identified.step (fun x => (and_eq_true_iff.1 (D.digest x)).2)
    (Label.proper_of_durable hl) h
  mirror := D.mirror.step D.sound.counted D.sound.naming D.identified D.digest hl h

theorem Durable.of_reachable (hdigest : ∀ x, isCanonical (fromBytes x) = true)
    (h : Reachable (restrict (stepRestart fromBytes) fun _ e => e.durable) emptyStore s) :
    Durable fromBytes s := by
  refine h.inv (fun {e s s'} D h => ?_) (.init hdigest)
  obtain ⟨hdurable, h⟩ := restrict_eq_some.1 h
  cases e with
  | op l => exact D.step hdurable h
  | restart ids mounts =>
    simp only [stepRestart, ite_none_right_eq_some, Option.some.injEq] at h
    obtain ⟨⟨hids, hmounts⟩, rfl⟩ := h
    exact D.restart hids hmounts

end

/-- After every run in which `saveMount` does not fail and mounts are named like files, a restart
yields the same layers and mounts, and the count of a layer is the number of its children and
mounts. -/
theorem restart_faithful {fromBytes : String → String}
    (hdigest : ∀ x, isCanonical (fromBytes x) = true) {s : State}
    (h : Reachable (restrict (stepRestart fromBytes) fun _ e => e.durable) emptyStore s)
    {ids : List ChainID} {mounts : List String} (hids : ids.Perm s.store.listLayers)
    (hmounts : mounts.Perm s.store.listMounts) {t : State}
    (ht : s.newStoreFromGraphDriver ids mounts = t) :
    (∀ k, (t.layerMap k).map t.layerInfo = (s.layerMap k).map s.layerInfo) ∧
    (∀ n, (t.mounts n).map t.mountInfo = (s.mounts n).map s.mountInfo) ∧
    ∀ k j, t.layerMap k = some j → (t.layers j).referenceCount = t.children j + t.mountsOf j := by
  have R := (Durable.of_reachable hdigest h).restarted hids hmounts
  rw [ht] at R
  refine ⟨R.layers, R.mounts, fun k j hk => ?_⟩
  have hcount := R.counted.count (R.counted.present_of_key hk)
  have hflight : t.inFlight j = 0 := by
    refine Nat.count_iff_forall_not.2 fun c _ hc => ?_
    simp [holder, R.calls] at hc
  simpa [R.references, hflight] using hcount

/-- Two layers and a mount on the upper one, with an init layer. -/
def mountRun : List Event :=
  map .op (registerRun 0 "" (sampleID 'a') "base" 10 ++
    registerRun 1 (lengthDigest "base") (sampleID 'b') "app" 5 ++
    [.createRWLayer "web" appChain true (sampleID 'c'), .getParent 2, .initMount 2 .ok,
      .createReadWrite 2 true, .saveMount 2 none])

theorem restart_faithful_mount :
    ∃ s, run (restrict (stepRestart lengthDigest) fun _ e => e.durable) mountRun
      emptyStore = some s ∧
      ∃ t, s.newStoreFromGraphDriver s.store.listLayers.reverse s.store.listMounts = t ∧
        (t.layerMap appChain).map t.layerInfo = some ⟨appChain, lengthDigest "app",
          some (lengthDigest "base"), sampleID 'b', 5, {}⟩ ∧
        (t.mounts "web").map t.mountInfo =
          some ⟨"web", sampleID 'c', initID (sampleID 'c'), some appChain⟩ := by
  refine exists_run (fun s => (s.layerMap appChain).map s.layerInfo =
      some ⟨appChain, lengthDigest "app", some (lengthDigest "base"), sampleID 'b', 5, {}⟩ ∧
        (s.mounts "web").map s.mountInfo =
          some ⟨"web", sampleID 'c', initID (sampleID 'c'), some appChain⟩)
    (by decide +kernel) fun s hs ⟨hlayer, hmount⟩ => ?_
  have hdigest : ∀ x, isCanonical (lengthDigest x) = true := by
    intro x
    simp [isCanonical, algorithm_lengthDigest, validateDigest_lengthDigest]
  obtain ⟨hlayers, hmounts, -⟩ := restart_faithful hdigest ⟨_, hs⟩
    (reverse_perm s.store.listLayers) (.refl s.store.listMounts) rfl
  exact ⟨_, rfl, (hlayers appChain).trans hlayer, (hmounts "web").trans hmount⟩

/-- The directory of a mount whose name has a slash is not listed. -/
theorem restart_loses_mount :
    ∃ s, run (stepRestart lengthDigest)
      (map .op [.createRWLayer "a/b" "" false (sampleID 'c'), .createReadWrite 0 true,
        .saveMount 0 none]) emptyStore = some s ∧
      (s.mounts "a/b").map s.mountInfo = some ⟨"a/b", sampleID 'c', "", none⟩ ∧
      (s.newStoreFromGraphDriver s.store.listLayers s.store.listMounts).mounts "a/b" = none :=
  exists_run _ (by decide +kernel) fun _ _ h => h

end Docker.Layer
