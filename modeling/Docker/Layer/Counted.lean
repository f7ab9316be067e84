import Docker.Lib.Count
import Docker.Layer.StepCases

/-!
# Counting the holders of a layer

`referenceCount` of a layer counts its references, its children in `layerMap`, the mounts on it and
the calls that hold it (`Counted`). Within a section a count can be off by one for a layer that the
section has just retained or is about to release: this layer is *in hand*.
-/

namespace Docker.Layer

open List Function

open State Count

def Pc.holds : Pc → Option Nat
  | .creating l | .startingTransaction l | .applyingTar l | .storingLayer l | .committing l _
  | .cleaningUp l _ | .registeringGraphID l => l.parent
  | .releasingParent p _ | .releasingMountParent p => p
  | .initializingMount m | .creatingReadWrite m | .checkingInit m | .savingMount m _ => m.parent
  | .gettingParent .. | .returned _ => none

namespace State

variable (s : State)

def holder (c : Nat) : Option Nat := (s.pc c).bind Pc.holds

def children (i : Nat) : Nat :=
  Nat.count (fun j => s.present j ∧ (s.layers j).parent = some i) s.nextLayer

def mountsOf (i : Nat) : Nat :=
  Nat.count (fun m => s.mounted m ∧ (s.mountedLayers m).parent = some i) s.nextMount

def inFlight (i : Nat) : Nat := Nat.count (fun c => s.holder c = some i) s.nextCall

end State

/-- The counts are right, with one more for the layer in hand. -/
structure Counted (s : State) (hand : Option Nat) : Prop where
  keyed : ∀ {k i}, s.layerMap k = some i → i < s.nextLayer ∧ (s.layers i).chainID = k
  older : ∀ {i p}, (s.layers i).parent = some p → p < i
  closed : ∀ {i p}, s.present i → (s.layers i).parent = some p → s.present p
  mountKeyed : ∀ {n m}, s.mounts n = some m → m < s.nextMount ∧ (s.mountedLayers m).name = n
  mountClosed : ∀ {m p}, s.mounted m → (s.mountedLayers m).parent = some p → s.present p
  held : ∀ {c p}, s.holder c = some p → s.present p
  inHand : ∀ {p}, hand = some p → s.present p
  calls : ∀ {c}, s.nextCall ≤ c → s.pc c = none
  count : ∀ {i}, s.present i → (s.layers i).referenceCount = (s.layers i).references.length +
    s.children i + s.mountsOf i + s.inFlight i + if hand = some i then 1 else 0

namespace Counted

theorem init : Counted emptyStore none where
  keyed h := nomatch h
  older h := nomatch h
  closed h := nomatch h
  mountKeyed h := nomatch h
  mountClosed h := nomatch h
  held h := nomatch h
  inHand h := nomatch h
  calls _ := rfl
  count h := nomatch h

theorem lt_of_present (H : Counted s hand) (h : s.present i) : i < s.nextLayer := (H.keyed h).1

theorem present_of_key (H : Counted s hand) (h : s.layerMap k = some i) : s.present i := by
  unfold present
  rw [(H.keyed h).2]
  exact h

theorem lt_of_pc (H : Counted s hand) (h : s.pc c = some p) : c < s.nextCall := by
  by_contra hc
  rw [H.calls (Nat.le_of_not_lt hc)] at h
  cases h

/-! ## Steps that do not concern the counts -/

theorem congr (H : Counted s hand) (hl : s'.layers = s.layers) (hn : s'.nextLayer = s.nextLayer)
    (hmap : s'.layerMap = s.layerMap) (hnm : s'.nextMount = s.nextMount)
    (hmounts : s'.mounts = s.mounts) (hpc : s'.pc = s.pc) (hnc : s'.nextCall = s.nextCall)
    (hm : ∀ m, (s'.mountedLayers m).name = (s.mountedLayers m).name ∧
      (s'.mountedLayers m).parent = (s.mountedLayers m).parent) : Counted s' hand := by
  have hpres : ∀ i, s'.present i = s.present i := by
    intro i
    simp only [present, hmap, hl]
  have hmtd : ∀ m, s'.mounted m = s.mounted m := by
    intro m
    simp only [mounted, hmounts, (hm m).1]
  have hhold : ∀ c, s'.holder c = s.holder c := by
    intro c
    simp only [holder, hpc]
  have hchildren : ∀ i, s'.children i = s.children i := by
    intro i
    simp only [children, hn]
    exact count_congr fun j _ => by rw [hpres, hl]
  have hmountsOf : ∀ i, s'.mountsOf i = s.mountsOf i := by
    intro i
    simp only [mountsOf, hnm]
    exact count_congr fun m _ => by rw [hmtd, (hm m).2]
  have hflight : ∀ i, s'.inFlight i = s.inFlight i := by
    intro i
    simp only [inFlight, hnc]
    exact count_congr fun c _ => by rw [hhold]
  constructor
  case keyed =>
    intro k i h
    rw [hn, hl]
    exact H.keyed (hmap ▸ h)
  case older =>
    intro i p h
    exact H.older (hl ▸ h)
  case closed =>
    intro i p h hp
    rw [hpres] at h ⊢
    exact H.closed h (hl ▸ hp)
  case mountKeyed =>
    intro n m h
    rw [hnm, (hm m).1]
    exact H.mountKeyed (hmounts ▸ h)
  case mountClosed =>
    intro m p h hp
    rw [hmtd] at h
    rw [(hm m).2] at hp
    rw [hpres]
    exact H.mountClosed h hp
  case held =>
    intro c p h
    rw [hhold] at h
    rw [hpres]
    exact H.held h
  case inHand =>
    intro p h
    rw [hpres]
    exact H.inHand h
  case calls =>
    intro c h
    rw [hpc]
    exact H.calls (hnc ▸ h)
  case count =>
    intro i h
    rw [hpres] at h
    rw [hl, hchildren, hmountsOf, hflight]
    exact H.count h

/-! ## Calls -/

/-- A call moves on; between it and the hand the same layers are held. -/
theorem exchange (H : Counted s hand) (hc : c < s.nextCall)
    (hq : ∀ i, ((if q.holds = some i then 1 else 0) + if hand' = some i then 1 else 0) =
      (if s.holder c = some i then 1 else 0) + if hand = some i then 1 else 0) :
        Counted (s.setPc c q) hand' := by
  have hself : (s.setPc c q).holder c = q.holds := by
    simp [holder]
  have hother : ∀ {c'}, c' ≠ c → (s.setPc c q).holder c' = s.holder c' := by
    intro c' h
    simp [holder, h]
  have hfrom : ∀ {p}, q.holds = some p ∨ hand' = some p → s.present p := by
    intro p h
    have hp := hq p
    by_cases h1 : s.holder c = some p
    · exact H.held h1
    · by_cases h2 : hand = some p
      · exact H.inHand h2
      · simp only [h1, h2, if_false] at hp
        rcases h with h | h <;> simp [h] at hp
  constructor
  case keyed => exact H.keyed
  case older => exact H.older
  case closed => exact H.closed
  case mountKeyed => exact H.mountKeyed
  case mountClosed => exact H.mountClosed
  case held =>
    intro c' p h
    by_cases hc' : c' = c
    · subst hc'
      rw [hself] at h
      exact hfrom (.inl h)
    · rw [hother hc'] at h
      exact H.held h
  case inHand => exact fun h => hfrom (.inr h)
  case calls =>
    intro c' h
    have hne : c' ≠ c := by
      rintro rfl
      exact Nat.not_lt.2 h hc
    rw [setPc_pc, update_of_ne hne]
    exact H.calls h
  case count =>
    intro i h
    have hold := H.count h
    have hflight := count_update
      (q := fun c' => (s.setPc c q).holder c' = some i) hc (fun c' _ h' => by rw [hother h'])
    have hi := hq i
    rw [hself] at hflight
    change (s.layers i).referenceCount = (s.layers i).references.length + s.children i +
      s.mountsOf i + Nat.count (fun c' => (s.setPc c q).holder c' = some i) s.nextCall + _
    unfold inFlight at hold
    omega

theorem keep (H : Counted s hand) (hc : c < s.nextCall) (hq : q.holds = s.holder c) :
    Counted (s.setPc c q) hand :=
  H.exchange hc fun i => by rw [hq]

theorem swap (H : Counted s hand) (hc : c < s.nextCall) (hq : q.holds = hand) :
    Counted (s.setPc c q) (s.holder c) :=
  H.exchange hc fun i => by rw [hq, Nat.add_comm]

theorem newCall (H : Counted s hand) : Counted s.newCall hand where
  __ := H
  calls h := H.calls (Nat.le_of_succ_le h)
  count {i} h := by
    have hnone : s.holder s.nextCall = none := by
      simp [holder, H.calls (Nat.le_refl _)]
    have hflight : s.newCall.inFlight i = s.inFlight i := by
      change Nat.count (fun c => s.holder c = some i) (s.nextCall + 1) = _
      rw [Nat.count_succ, hnone]
      simp [inFlight]
    rw [hflight]
    exact H.count h

theorem holder_newCall (H : Counted s hand) : s.newCall.holder s.nextCall = none := by
  simp [holder, H.calls (Nat.le_refl _)]

/-! ## Reference counts and references -/

theorem modifyLayer (H : Counted s hand) (hid : (f (s.layers i)).chainID = (s.layers i).chainID)
    (hpar : (f (s.layers i)).parent = (s.layers i).parent)
    (hhand : ∀ {p}, hand' = some p → s.present p)
    (hother : ∀ j, j ≠ i → (hand' = some j ↔ hand = some j))
    (hcount : (s.layers i).referenceCount = (s.layers i).references.length + s.children i +
        s.mountsOf i + s.inFlight i + (if hand = some i then 1 else 0) →
      (f (s.layers i)).referenceCount = (f (s.layers i)).references.length + s.children i +
        s.mountsOf i + s.inFlight i + if hand' = some i then 1 else 0) :
          Counted (s.modifyLayer i f) hand' := by
  have hchain : ∀ j, ((s.modifyLayer i f).layers j).chainID = (s.layers j).chainID := by
    intro j
    by_cases hj : j = i
    · subst hj
      simpa using hid
    · simp [hj]
  have hparent : ∀ j, ((s.modifyLayer i f).layers j).parent = (s.layers j).parent := by
    intro j
    by_cases hj : j = i
    · subst hj
      simpa using hpar
    · simp [hj]
  have hpres : ∀ j, (s.modifyLayer i f).present j ↔ s.present j := by
    intro j
    simp only [present, hchain, modifyLayer_layerMap]
  have hchildren : ∀ j, (s.modifyLayer i f).children j = s.children j := by
    intro j
    exact count_congr fun k _ => by rw [hpres, hparent]
  constructor
  case keyed =>
    intro k j h
    rw [hchain]
    exact H.keyed h
  case older =>
    intro j p h
    rw [hparent] at h
    exact H.older h
  case closed =>
    intro j p h hp
    rw [hpres] at h ⊢
    exact H.closed h (hparent j ▸ hp)
  case mountKeyed => exact H.mountKeyed
  case mountClosed =>
    intro m p h hp
    rw [hpres]
    exact H.mountClosed h hp
  case held =>
    intro c p h
    rw [hpres]
    exact H.held h
  case inHand =>
    intro p h
    rw [hpres]
    exact hhand h
  case calls => exact H.calls
  case count =>
    intro j h
    rw [hpres] at h
    rw [hchildren]
    by_cases hj : j = i
    · subst hj
      rw [modifyLayer_layers, update_self]
      exact hcount (H.count h)
    · rw [modifyLayer_layers, update_of_ne hj]
      simp only [hother j hj]
      exact H.count h

theorem retain (H : Counted s none) (hi : s.present i) : Counted (s.retain i) (some i) := by
  refine H.modifyLayer rfl rfl (fun h => ?_) (fun j hj => ?_) fun h => ?_
  · cases h
    exact hi
  · simp [hj.symm]
  · simpa using h

theorem getReference (H : Counted s (some i)) : Counted (s.getReference i) none := by
  have H' : Counted (s.modifyLayer i fun l =>
    { l with references := s.newHandle i :: l.references })
      none := by
    refine H.modifyLayer rfl rfl (fun h => nomatch h) (fun j hj => ?_) fun h => ?_
    · simp [hj.symm]
    · simp only [if_true] at h
      simp
      omega
  exact H'.congr rfl rfl rfl rfl rfl rfl rfl fun _ => ⟨rfl, rfl⟩

theorem deleteReference (H : Counted s none) (hi : s.present i)
    (hh : h ∈ (s.layers i).references) : Counted (s.deleteReference i h) (some i) := by
  refine H.modifyLayer rfl rfl (fun hp => ?_) (fun j hj => ?_) fun hcount => ?_
  · cases hp
    exact hi
  · simp [hj.symm]
  · have hlen := length_erase_of_mem hh
    have hpos := length_pos_of_mem hh
    simp only [if_true, hlen]
    simp at hcount
    omega

theorem decrement (H : Counted s (some i)) : (s.layers i).referenceCount ≠ 0 ∧
    Counted (s.modifyLayer i fun l => { l with referenceCount := l.referenceCount - 1 }) none := by
  have hcount := H.count (H.inHand rfl)
  simp only [if_true] at hcount
  refine ⟨by omega, H.modifyLayer rfl rfl (fun h => nomatch h) (fun j hj => ?_) fun _ => ?_⟩
  · simp [hj.symm]
  · simp
    omega

/-! ## Entries of the maps -/

theorem unused (H : Counted s hand) (hi : ¬s.present i) :
    s.children i = 0 ∧ s.mountsOf i = 0 ∧ s.inFlight i = 0 ∧ hand ≠ some i := by
  refine ⟨?_, ?_, ?_, fun h => hi (H.inHand h)⟩
  · exact Nat.count_iff_forall_not.2 fun j _ hj => hi (H.closed hj.1 hj.2)
  · exact Nat.count_iff_forall_not.2 fun m _ hm => hi (H.mountClosed hm.1 hm.2)
  · exact Nat.count_iff_forall_not.2 fun c _ hc => hi (H.held hc)

theorem insertLayer (H : Counted s l.parent) (hnew : s.layerMap l.chainID = none) :
    Counted (s.insertLayer l) none := by
  set s' := s.insertLayer l with hs'
  have hself : s'.layers s.nextLayer =
      { toLayerData := l, referenceCount := 1, references := [s.newHandle s.nextLayer] } := by
    simp [hs', State.insertLayer]
  have hother : ∀ {j}, j ≠ s.nextLayer → s'.layers j = s.layers j := by
    intro j hj
    simp [hs', State.insertLayer, hj]
  have hmap : s'.layerMap l.chainID = some s.nextLayer := by
    simp [hs', State.insertLayer]
  have hmap' : ∀ {k}, k ≠ l.chainID → s'.layerMap k = s.layerMap k := by
    intro k hk
    simp [hs', State.insertLayer, hk]
  have hpnew : s'.present s.nextLayer := by
    unfold State.present
    rw [hself]
    exact hmap
  -- The layers that were there before are there now, and no others but the new one.
  have hpres : ∀ {j}, j ≠ s.nextLayer → (s'.present j ↔ s.present j) := by
    intro j hj
    unfold State.present
    rw [hother hj]
    by_cases hk : (s.layers j).chainID = l.chainID
    · rw [hk, hmap, hnew]
      simp [hj.symm]
    · rw [hmap' hk]
  have hold : ∀ {p}, s.present p → p ≠ s.nextLayer ∧ s'.present p := by
    intro p hp
    have hne := Nat.ne_of_lt (H.lt_of_present hp)
    exact ⟨hne, (hpres hne).2 hp⟩
  have hchildren : ∀ i, s'.children i = s.children i + if l.parent = some i then 1 else 0 := by
    intro i
    change Nat.count (fun j => s'.present j ∧ (s'.layers j).parent = some i) (s.nextLayer + 1) = _
    rw [Nat.count_succ, hself]
    congr 1
    · exact count_congr fun j hj => by
        rw [hpres (Nat.ne_of_lt hj), hother (Nat.ne_of_lt hj)]
    · simp [hpnew]
  constructor
  case keyed =>
    intro k j h
    by_cases hk : k = l.chainID
    · subst hk
      obtain rfl : s.nextLayer = j := by simpa [hmap] using h
      exact ⟨Nat.lt_succ_self _, by rw [hself]⟩
    · rw [hmap' hk] at h
      obtain ⟨hlt, hid⟩ := H.keyed h
      exact ⟨Nat.lt_succ_of_lt hlt, by rw [hother (Nat.ne_of_lt hlt), hid]⟩
  case older =>
    intro j p h
    by_cases hj : j = s.nextLayer
    · subst hj
      rw [hself] at h
      exact H.lt_of_present (H.inHand h)
    · rw [hother hj] at h
      exact H.older h
  case closed =>
    intro j p h hp
    by_cases hj : j = s.nextLayer
    · subst hj
      rw [hself] at hp
      exact (hold (H.inHand hp)).2
    · rw [hother hj] at hp
      exact (hold (H.closed ((hpres hj).1 h) hp)).2
  case mountKeyed => exact H.mountKeyed
  case mountClosed => exact fun h hp => (hold (H.mountClosed h hp)).2
  case held => exact fun h => (hold (H.held h)).2
  case inHand => exact fun h => nomatch h
  case calls => exact H.calls
  case count =>
    intro i h
    change (s'.layers i).referenceCount = (s'.layers i).references.length + s'.children i +
      s.mountsOf i + s.inFlight i + 0
    rw [hchildren]
    by_cases hi : i = s.nextLayer
    · subst hi
      have hnot : ¬s.present s.nextLayer := fun h => Nat.lt_irrefl _ (H.lt_of_present h)
      obtain ⟨h1, h2, h3, h4⟩ := H.unused hnot
      rw [hself, h1, h2, h3, if_neg h4]
      rfl
    · have := H.count ((hpres hi).1 h)
      rw [hother hi]
      omega

theorem insertMount (H : Counted s m.parent) (hnew : s.mounts m.name = none) :
    Counted (s.insertMount m) none := by
  set s' := s.insertMount m with hs'
  have hself : s'.mountedLayers s.nextMount = m := by
    simp [hs']
  have hother : ∀ {j}, j ≠ s.nextMount → s'.mountedLayers j = s.mountedLayers j := by
    intro j hj
    simp [hs', hj]
  have hmap : s'.mounts m.name = some s.nextMount := by
    simp [hs']
  have hmap' : ∀ {n}, n ≠ m.name → s'.mounts n = s.mounts n := by
    intro n hn
    simp [hs', hn]
  have hmnew : s'.mounted s.nextMount := by
    unfold mounted
    rw [hself]
    exact hmap
  have hmtd : ∀ {j}, j ≠ s.nextMount → (s'.mounted j ↔ s.mounted j) := by
    intro j hj
    unfold mounted
    rw [hother hj]
    by_cases hn : (s.mountedLayers j).name = m.name
    · rw [hn, hmap, hnew]
      simp [hj.symm]
    · rw [hmap' hn]
  have hmountsOf : ∀ i, s'.mountsOf i = s.mountsOf i + if m.parent = some i then 1 else 0 := by
    intro i
    change Nat.count (fun j => s'.mounted j ∧ (s'.mountedLayers j).parent = some i)
      (s.nextMount + 1) = _
    rw [Nat.count_succ, hself]
    congr 1
    · exact count_congr fun j hj => by
        rw [hmtd (Nat.ne_of_lt hj), hother (Nat.ne_of_lt hj)]
    · simp [hmnew]
  constructor
  case keyed => exact H.keyed
  case older => exact H.older
  case closed => exact H.closed
  case mountKeyed =>
    intro n j h
    by_cases hn : n = m.name
    · subst hn
      obtain rfl : s.nextMount = j := by simpa [hmap] using h
      exact ⟨Nat.lt_succ_self _, by rw [hself]⟩
    · rw [hmap' hn] at h
      obtain ⟨hlt, hid⟩ := H.mountKeyed h
      exact ⟨Nat.lt_succ_of_lt hlt, by rw [hother (Nat.ne_of_lt hlt), hid]⟩
  case mountClosed =>
    intro j p h hp
    by_cases hj : j = s.nextMount
    · subst hj
      rw [hself] at hp
      exact H.inHand hp
    · rw [hother hj] at hp
      exact H.mountClosed ((hmtd hj).1 h) hp
  case held => exact H.held
  case inHand => exact fun h => nomatch h
  case calls => exact H.calls
  case count =>
    intro i h
    have := H.count h
    change (s.layers i).referenceCount = (s.layers i).references.length + s.children i +
      s'.mountsOf i + s.inFlight i + 0
    rw [hmountsOf]
    omega

theorem deleteMount (H : Counted s none) (hm : s.mounts n = some m) :
    Counted (s.deleteMount n) (s.mountedLayers m).parent := by
  obtain ⟨hlt, rfl⟩ := H.mountKeyed hm
  have hgone : ¬(s.deleteMount (s.mountedLayers m).name).mounted m := by
    simp [mounted]
  have hmtd : ∀ {j}, j ≠ m → ((s.deleteMount (s.mountedLayers m).name).mounted j ↔
      s.mounted j) := by
    intro j hj
    unfold mounted
    by_cases hn : (s.mountedLayers j).name = (s.mountedLayers m).name
    · simp [hn, hm, hj.symm]
    · simp [hn]
  have hmountsOf : ∀ i, (s.deleteMount (s.mountedLayers m).name).mountsOf i +
      (if (s.mountedLayers m).parent = some i then 1 else 0) = s.mountsOf i := by
    intro i
    have h := count_update
      (q := fun j => (s.deleteMount (s.mountedLayers m).name).mounted j ∧
        (s.mountedLayers j).parent = some i) hlt fun j _ hj => by rw [hmtd hj]
    have hm' : s.mounted m := hm
    simp only [hgone, hm', true_and, false_and, if_false, Nat.add_zero] at h
    exact h
  constructor
  case keyed => exact H.keyed
  case older => exact H.older
  case closed => exact H.closed
  case mountKeyed =>
    intro n j h
    by_cases hn : n = (s.mountedLayers m).name
    · simp [hn] at h
    · exact H.mountKeyed (by simpa [hn] using h)
  case mountClosed =>
    intro j p h hp
    by_cases hj : j = m
    · subst hj
      exact (hgone h).elim
    · exact H.mountClosed ((hmtd hj).1 h) hp
  case held => exact H.held
  case inHand => exact fun h => H.mountClosed hm h
  case calls => exact H.calls
  case count =>
    intro i h
    have hold := H.count h
    have := hmountsOf i
    change (s.layers i).referenceCount = (s.layers i).references.length + s.children i +
      (s.deleteMount (s.mountedLayers m).name).mountsOf i + s.inFlight i + _
    simp only [reduceCtorEq, if_false] at hold
    omega

/-- A layer without any holder leaves `layerMap`, and its parent comes in hand. -/
theorem deleteEntry (H : Counted s none) (hi : s.present i)
    (h0 : (s.layers i).referenceCount = 0) : Counted (s.deleteEntry i) (s.layers i).parent := by
  have hcount := H.count hi
  have hgone : ¬(s.deleteEntry i).present i := by
    simp [present]
  have hpres : ∀ {j}, j ≠ i → ((s.deleteEntry i).present j ↔ s.present j) := by
    intro j hj
    unfold present
    have hi' : s.layerMap (s.layers i).chainID = some i := hi
    by_cases hk : (s.layers j).chainID = (s.layers i).chainID
    · simp [hk, hi', hj.symm]
    · simp [hk]
  -- Whoever refers to a layer still does, and it is not `i`, which has no holder.
  have hstay : ∀ {p}, s.present p → p ≠ i → (s.deleteEntry i).present p := by
    intro p hp hne
    exact (hpres hne).2 hp
  have hchild : ∀ {j}, s.present j → (s.layers j).parent ≠ some i := by
    intro j hj hp
    have := Nat.count_iff_forall_not.1 (by omega : s.children i = 0) j (H.lt_of_present hj)
    exact this ⟨hj, hp⟩
  have hmount : ∀ {m}, s.mounted m → (s.mountedLayers m).parent ≠ some i := by
    intro m hm hp
    have := Nat.count_iff_forall_not.1 (by omega : s.mountsOf i = 0) m (H.mountKeyed hm).1
    exact this ⟨hm, hp⟩
  have hcall : ∀ {c}, s.holder c ≠ some i := by
    intro c hc
    have hlt : c < s.nextCall := by
      by_contra hge
      simp [State.holder, H.calls (Nat.le_of_not_lt hge)] at hc
    exact Nat.count_iff_forall_not.1 (by omega : s.inFlight i = 0) c hlt hc
  have hchildren : ∀ j, (s.deleteEntry i).children j +
      (if (s.layers i).parent = some j then 1 else 0) = s.children j := by
    intro j
    have h := count_update
      (q := fun k => (s.deleteEntry i).present k ∧ (s.layers k).parent = some j)
      (H.lt_of_present hi) fun k _ hk => by rw [hpres hk]
    simp only [hgone, hi, true_and, false_and, if_false, Nat.add_zero] at h
    exact h
  constructor
  case keyed =>
    intro k j h
    by_cases hk : k = (s.layers i).chainID
    · simp [hk] at h
    · exact H.keyed (by simpa [hk] using h)
  case older => exact H.older
  case closed =>
    intro j p h hp
    have hj : j ≠ i := by
      rintro rfl
      exact hgone h
    have hj' := (hpres hj).1 h
    refine hstay (H.closed hj' hp) ?_
    rintro rfl
    exact hchild hj' hp
  case mountKeyed => exact H.mountKeyed
  case mountClosed =>
    intro m p h hp
    refine hstay (H.mountClosed h hp) ?_
    rintro rfl
    exact hmount h hp
  case held =>
    intro c p h
    refine hstay (H.held h) ?_
    rintro rfl
    exact hcall h
  case inHand =>
    intro p hp
    exact hstay (H.closed hi hp) (Nat.ne_of_lt (H.older hp))
  case calls => exact H.calls
  case count =>
    intro j h
    have hj : j ≠ i := by
      rintro rfl
      exact hgone h
    have hold := H.count ((hpres hj).1 h)
    have := hchildren j
    change (s.layers j).referenceCount = (s.layers j).references.length +
      (s.deleteEntry i).children j + s.mountsOf j + s.inFlight j + _
    simp only [reduceCtorEq, if_false] at hold
    omega

/-! ## `releaseLayer` -/

theorem deleteLayer (H : Counted s hand) (fate : DeleteFate) (i : Nat) :
    Counted (deleteLayer fate s i).1 hand := by
  cases fate <;> exact H.congr rfl rfl rfl rfl rfl rfl rfl fun _ => ⟨rfl, rfl⟩

end Counted

theorem releaseLoop_keeps {Q : State → Prop} (hdec : ∀ {s i}, Q s →
      Q (s.modifyLayer i fun l => { l with referenceCount := l.referenceCount - 1 }))
    (hfail : ∀ {s i} (fate : DeleteFate), fate ≠ .ok → Q s → Q (deleteLayer fate s i).1)
    (hdel : ∀ {s i}, Q s → Q ((deleteLayer .ok s i).1.deleteEntry i)) {fuel depth i : Nat}
    (hQ : Q s) : Q (releaseLoop fuel fates depth removed s i).1 := by
  induction fuel generalizing fates depth removed s i with
  | zero => exact hQ
  | succ fuel ih =>
    have hQ₁ := hdec (i := i) hQ
    simp only [releaseLoop]
    split
    · exact hQ
    · split
      · exact hQ₁
      · split
        · exact hQ₁
        · split
          · exact hQ₁
          · cases fates.headD .ok with
            | driverFails => exact hfail (i := i) .driverFails nofun hQ₁
            | storeFails => exact hfail (i := i) .storeFails nofun hQ₁
            | ok =>
              have hQ₂ := hdel (i := i) hQ₁
              simp only [deleteLayer] at hQ₂ ⊢
              split
              · exact hQ₂
              · exact ih hQ₂

/-- What `releaseLayer` leaves alone. -/
structure Released (s s' : State) : Prop where
  nextLayer : s'.nextLayer = s.nextLayer
  mountedLayers : s'.mountedLayers = s.mountedLayers
  nextMount : s'.nextMount = s.nextMount
  mounts : s'.mounts = s.mounts
  mountL : s'.mountL = s.mountL
  nextRef : s'.nextRef = s.nextRef
  pc : s'.pc = s.pc
  nextCall : s'.nextCall = s.nextCall
  graphIDs : s'.graphIDs = s.graphIDs
  layers : ∀ i, s'.layers i = { s.layers i with referenceCount := (s'.layers i).referenceCount }
  /-- Layers can only go. -/
  layerMap : ∀ {k i}, s'.layerMap k = some i → s.layerMap k = some i
  storeLayers : ∀ {k f}, s'.store.layers.lookup k = some f → s.store.layers.lookup k = some f
  storeMounts : s'.store.mounts = s.store.mounts

namespace Released

theorem refl : Released s s where
  nextLayer := rfl
  mountedLayers := rfl
  nextMount := rfl
  mounts := rfl
  mountL := rfl
  nextRef := rfl
  pc := rfl
  nextCall := rfl
  graphIDs := rfl
  layers _ := rfl
  layerMap := id
  storeLayers := id
  storeMounts := rfl

theorem trans (h : Released s s') (h' : Released s' s'') : Released s s'' where
  nextLayer := h'.nextLayer.trans h.nextLayer
  mountedLayers := h'.mountedLayers.trans h.mountedLayers
  nextMount := h'.nextMount.trans h.nextMount
  mounts := h'.mounts.trans h.mounts
  mountL := h'.mountL.trans h.mountL
  nextRef := h'.nextRef.trans h.nextRef
  pc := h'.pc.trans h.pc
  nextCall := h'.nextCall.trans h.nextCall
  graphIDs := h'.graphIDs.trans h.graphIDs
  layers i := by
    rw [h'.layers i, h.layers i]
  layerMap hk := h.layerMap (h'.layerMap hk)
  storeLayers hk := h.storeLayers (h'.storeLayers hk)
  storeMounts := h'.storeMounts.trans h.storeMounts

theorem decrement (s : State) (i : Nat) :
    Released s (s.modifyLayer i fun l => { l with referenceCount := l.referenceCount - 1 }) :=
  { Released.refl with
    layers j := by
      by_cases hj : j = i
      · subst hj
        simp
      · simp [hj] }

theorem deleteLayer (fate : DeleteFate) (s : State) (i : Nat) :
    Released s (deleteLayer fate s i).1 := by
  cases fate with
  | ok =>
    refine { Released.refl with storeLayers := fun {k f} h => ?_ }
    change (s.store.layers.erase (s.layers i).chainID).lookup k = some f at h
    by_cases hk : k = (s.layers i).chainID
    · subst hk
      rw [AList.lookup_erase] at h
      cases h
    · rwa [AList.lookup_erase_ne hk] at h
  | driverFails => exact .refl
  | storeFails => exact { Released.refl with }

theorem deleteEntry (s : State) (i : Nat) : Released s (s.deleteEntry i) :=
  { Released.refl with
    layerMap {k j} h := by
      by_cases hk : k = (s.layers i).chainID
      · simp [hk] at h
      · simpa [hk] using h }

theorem releaseLayer (fates : List DeleteFate) (s : State) (i : Nat) :
    Released s (releaseLayer fates s i).1 :=
  releaseLoop_keeps (fun R => R.trans (decrement ..)) (fun _ _ R => R.trans (deleteLayer ..))
    (fun R => R.trans ((deleteLayer ..).trans (deleteEntry ..))) .refl

end Released

section
variable {fates : List DeleteFate} {Q : State → Prop}
  (hdec : ∀ {s i}, Q s → Q (s.modifyLayer i fun l =>
    { l with referenceCount := l.referenceCount - 1 }))
  (hfail : ∀ {s i fate}, fate ∈ fates → Counted s none → s.present i → (s.layers i).referenceCount =
    0 → Q s → (deleteLayer fate s i).2 = none → Q (deleteLayer fate s i).1)
  (hdel : ∀ {s i}, Counted s none → s.present i → (s.layers i).referenceCount = 0 → Q s →
    Q ((deleteLayer .ok s i).1.deleteEntry i))
include hdec hfail hdel

/-- The rule for the loop of `releaseLayer`: what a decrement, a failed deletion and a deletion
keep, the loop keeps. It starts with a layer in hand and ends without. -/
theorem releaseLoop_inv {fuel depth : Nat} (hfuel : i < fuel)
    (hdepth : 0 < depth → removed ≠ []) (H : Counted s (some i)) (hQ : Q s) :
    Counted (releaseLoop fuel fates depth removed s i).1 none ∧
      Q (releaseLoop fuel fates depth removed s i).1 ∧
      ∀ p, (releaseLoop fuel fates depth removed s i).2 ≠ .panic p := by
  induction fuel generalizing fates depth i removed s with
  | zero => cases hfuel
  | succ fuel ih =>
    obtain ⟨hne, H'⟩ := H.decrement
    have hpres := H.inHand rfl
    have hQ' := hdec (i := i) hQ
    simp only [releaseLoop, if_neg hne]
    set s₁ := s.modifyLayer i fun l => { l with referenceCount := l.referenceCount - 1 } with hs₁
    have hpres' : s₁.present i := by
      simpa [hs₁, present] using hpres
    by_cases h0 : (s₁.layers i).referenceCount = 0
    · have hrefs : (s₁.layers i).references = [] := by
        have := H'.count hpres'
        exact eq_nil_of_length_eq_zero (by omega)
      have hnot : ¬(removed = [] ∧ 0 < depth) := fun h => hdepth h.2 h.1
      simp only [h0, hrefs, hnot, ne_eq, not_true_eq_false, if_false]
      cases hfate : fates.headD .ok with
      | ok =>
        have H₂ : Counted ((Layer.deleteLayer .ok s₁ i).1.deleteEntry i) (s₁.layers i).parent :=
          (H'.deleteLayer .ok i).deleteEntry hpres' h0
        have hQ₂ := hdel H' hpres' h0 hQ'
        simp only [Layer.deleteLayer] at H₂ hQ₂ ⊢
        cases hp : (s₁.layers i).parent with
        | none =>
          rw [hp] at H₂
          simp only [deleteEntry_layers, setStore_layers, driverSet_layers, hp]
          exact ⟨H₂, hQ₂, fun p h => nomatch h⟩
        | some q =>
          rw [hp] at H₂
          simp only [deleteEntry_layers, setStore_layers, driverSet_layers, hp]
          have hq : q < i := H'.older hp
          exact ih (fun h => hfail (mem_of_mem_tail h)) (Nat.lt_of_lt_of_le hq
            (Nat.le_of_lt_succ hfuel)) (fun _ => by simp) H₂ hQ₂
      | driverFails =>
        have hmem : DeleteFate.driverFails ∈ fates := by
          cases fates with
          | nil => cases hfate
          | cons f fs => exact hfate ▸ mem_cons_self
        exact ⟨H'.deleteLayer .driverFails i, hfail hmem H' hpres' h0 hQ' rfl, fun p h => nomatch h⟩
      | storeFails =>
        have hmem : DeleteFate.storeFails ∈ fates := by
          cases fates with
          | nil => cases hfate
          | cons f fs => exact hfate ▸ mem_cons_self
        exact ⟨H'.deleteLayer .storeFails i, hfail hmem H' hpres' h0 hQ' rfl, fun p h => nomatch h⟩
    · simp only [h0, ne_eq, not_false_eq_true, if_true]
      exact ⟨H', hQ', fun p h => nomatch h⟩

theorem releaseLayer_inv (H : Counted s (some i)) (hQ : Q s) :
    Counted (releaseLayer fates s i).1 none ∧ Q (releaseLayer fates s i).1 ∧
      ∀ p, (releaseLayer fates s i).2 ≠ .panic p :=
  releaseLoop_inv hdec hfail hdel (Nat.lt_succ_self i) (fun h => absurd h (Nat.lt_irrefl 0)) H hQ

end

theorem Counted.releaseLayer (H : Counted s (some i))
    (fates : List DeleteFate) : Counted (releaseLayer fates s i).1 none ∧
      ∀ p, (releaseLayer fates s i).2 ≠ .panic p := by
  obtain ⟨H', -, hpanic⟩ := releaseLayer_inv (Q := fun _ => True)
    (fun _ => trivial) (fun _ _ _ _ _ _ => trivial) (fun _ _ _ _ => trivial) H trivial
  exact ⟨H', hpanic⟩

end Docker.Layer
