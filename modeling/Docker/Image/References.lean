import Docker.Image.Step
import Docker.Lib.Ledger

/-!
# The layer references of the images

However the calls interleave, and whichever calls of the layer store fail, a reference that `ls.Get`
returned is held by one image or by one `Delete` on its way to `ls.Release`.
-/

namespace Docker.Image

open State Store Option
open Layer (validateDigest)

inductive Owner where
  | image (id : ID)
  | call (c : Nat)
  deriving DecidableEq

/-- The reference a call has taken from an image and not released yet. -/
def Pc.holds : Pc → Option LayerRef
  | .deletingFiles _ layer => layer
  | .releasing layer => some layer
  | _ => none

theorem Pc.holds_of_isReturned {pc : Pc} (h : pc.isReturned = true) : pc.holds = none := by
  cases pc with
  | returned r => rfl
  | _ => cases h

def State.holds (s : State) : Owner → Option Nat
  | .image id => ((s.store.layerOf id).bind fun l => l).map (·.ref)
  | .call c => (s.calls[c]?.bind Pc.holds).map (·.ref)

/-- The config an image is made from, with its digest and its chain id. -/
def IsConfig (cd : Codec) (id : ID) (rootFS : RootFS) : Prop :=
  ∃ config img, cd.fromBytes config = id ∧ checkConfig cd config = .ok (img, rootFS)

def Pc.Knows (cd : Codec) (st : Store) : Pc → Prop
  | .setting config rootFS => ∃ img, checkConfig cd config = .ok (img, rootFS)
  | .locking id rootFS => IsConfig cd id rootFS
  | .gettingLayer id rootFS => IsConfig cd id rootFS ∧ id ∉ st.images ∧ rootFS.chainID cd ≠ ""
  | .forgetting id layer _ => st.layerOf id = some layer
  | _ => True

structure Owned (cd : Codec) (s : State) : Prop where
  exclusive : Exclusive s
  knows : ∀ (c : Nat) (pc : Pc), s.calls[c]? = some pc → pc.Knows cd s.store
  image : ∀ id l, s.store.layerOf id = some l → ∃ rootFS, IsConfig cd id rootFS ∧
    l.map LayerRef.chainID = if rootFS.chainID cd = "" then none else some (rootFS.chainID cd)
  ledger : Ledger s.holds s.store.got s.store.released

variable {cd : Codec} {s s' : State} {st : Store} {c : Nat} {pc pc' : Pc} {l : Label}
  {layer : Option LayerRef}

theorem IsConfig.valid {id : ID} (h : IsConfig cd id rootFS) : validateDigest id = true := by
  obtain ⟨config, img, rfl, -⟩ := h
  exact (cd.valid config).2

theorem Pc.Knows.unlocked (h : pc.Knows cd st) (hpc : pc.locked = false) : pc.Knows cd st' := by
  cases pc <;> first | exact h | cases hpc

theorem Pc.Knows.congr (h : pc.Knows cd st) (hl : ∀ id, st'.layerOf id = st.layerOf id) :
    pc.Knows cd st' := by
  cases pc with
  | gettingLayer id rootFS =>
    refine ⟨h.1, ?_, h.2.2⟩
    rw [← layerOf_eq_none, hl, layerOf_eq_none]
    exact h.2.1
  | forgetting id layer children => exact (hl id).trans h
  | _ => exact h

theorem State.calls_set (hc : s.calls[c]? = some pc)
    (hcalls : s'.calls = s.calls.set c pc') (x : Nat) :
    s'.calls[x]? = if x = c then some pc' else s.calls[x]? := by
  rw [hcalls]
  exact calls_goto hc x

theorem State.holds_goto (hc : s.calls[c]? = some pc) (hcalls : s'.calls = s.calls.set c pc')
    (hl : ∀ id, s'.store.layerOf id = s.store.layerOf id) (hpc : pc'.holds = pc.holds) (o : Owner) :
    s'.holds o = s.holds o := by
  cases o with
  | image id => rw [holds, holds, hl]
  | call x =>
    rw [holds, calls_set hc hcalls]
    split
    · next hx => rw [holds, hx, hc, bind_some, bind_some, hpc]
    · rfl

namespace Owned

theorem init : Owned cd {} where
  exclusive c pc h := by simp at h
  knows c pc h := by simp at h
  image id l h := by simp [layerOf] at h
  ledger := .init fun o => by cases o <;> simp [holds, layerOf]

theorem goto (h : Owned cd s) (hexclusive : Exclusive s') (hc : s.calls[c]? = some pc)
    (hcalls : s'.calls = s.calls.set c pc') (hl : ∀ id, s'.store.layerOf id = s.store.layerOf id)
    (hgot : s'.store.got = s.store.got) (hreleased : s'.store.released = s.store.released)
    (hpc : pc'.holds = pc.holds) (hknows : pc'.Knows cd s'.store) : Owned cd s' where
  exclusive := hexclusive
  knows x pc₁ hx := by
    rw [calls_set hc hcalls] at hx
    split at hx
    · cases hx
      exact hknows
    · exact (h.knows x pc₁ hx).congr hl
  image id l hid := h.image id l (hl id ▸ hid)
  ledger := by
    rw [hgot, hreleased]
    exact h.ledger.congr (holds_goto hc hcalls hl hpc)

theorem start (h : Owned cd s) (hpc : pc.Starts cd) (hexclusive : Exclusive (s.start pc)) :
    Owned cd (s.start pc) where
  exclusive := hexclusive
  knows := by
    refine forall_start h.knows ?_
    cases hpc with
    | setting hcheck => exact ⟨_, hcheck⟩
    | _ => exact trivial
  image := h.image
  ledger := by
    refine h.ledger.congr fun o => ?_
    cases o with
    | image id => rfl
    | call x =>
      rw [holds, calls_start]
      split
      · next hx =>
        rw [holds, hx, List.getElem?_eq_none (Nat.le_refl _)]
        cases hpc <;> rfl
      · rfl

/-- A new image is put in, by a call that has nobody beside it with the lock. -/
theorem insert (h : Owned cd s) (hc : s.calls[c]? = some pc) (hpc : pc.holds = none)
    (hothers : ∀ x pc, x ≠ c → s.calls[x]? = some pc → pc.locked = false) {id : ID}
    (hid : IsConfig cd id rootFS)
    (hlayer : layer.map LayerRef.chainID = if rootFS.chainID cd = "" then none
      else some (rootFS.chainID cd))
    (hcalls : s'.calls = s.calls.set c (.returned r))
    (himages : s'.store.images = s.store.images.insert id { layer := layer })
    (hexclusive : Exclusive s')
    (hledger : (∀ o, s'.holds o = if o = .image id then layer.map LayerRef.ref else s.holds o) →
      Ledger s'.holds s'.store.got s'.store.released) : Owned cd s' := by
  have hl : ∀ x, s'.store.layerOf x = if x = id then some layer else s.store.layerOf x := fun x =>
    layerOf_insert himages
  refine ⟨hexclusive, fun x pc' hx => ?_, fun x l hx => ?_, hledger fun o => ?_⟩
  · rw [calls_set hc hcalls] at hx
    split at hx
    · cases hx
      exact trivial
    · next hne => exact (h.knows x pc' hx).unlocked (hothers x pc' hne hx)
  · rw [hl] at hx
    split at hx
    · next he =>
      cases hx
      exact ⟨rootFS, he ▸ hid, hlayer⟩
    · exact h.image x l hx
  · cases o with
    | image x =>
      rw [holds, hl]
      by_cases hx : x = id
      · simp [hx]
      · simp [hx, holds]
    | call x =>
      have hne : Owner.call x ≠ .image id := nofun
      rw [if_neg hne, holds, calls_set hc hcalls, holds]
      split
      · next hx =>
        rw [hx, hc, bind_some, bind_some, hpc]
        rfl
      · rfl

theorem unlink (h : Owned cd s) {id : ID} {children : Finset ID}
    (hc : s.calls[c]? = some (.forgetting id layer children)) (hst : s.store.Quiet st) :
    Owned cd ((s.withStore (st.removeImage id)).goto c (.deletingFiles id layer)) := by
  have hlayer : s.store.layerOf id = some layer := h.knows c _ hc
  have hl : ∀ x, (st.removeImage id).layerOf x = if x = id then none else s.store.layerOf x :=
    fun x => by
    change ((st.images.erase id).lookup x).map _ = _
    split
    · next hx => rw [hx, AList.lookup_erase, map_none]
    · next hx =>
      rw [AList.lookup_erase_ne hx]
      exact hst.layerOf x
  have hothers : ∀ x pc, x ≠ c → s.calls[x]? = some pc → pc.locked = false := fun x pc hne hx => by
    rw [← Bool.not_eq_true]
    exact fun hpc => hne (h.exclusive.eq_of_locked hx hpc hc rfl)
  refine ⟨h.exclusive.goto hc (fun _ => rfl) _, ?_, fun x l hx => ?_, ?_⟩
  · exact forall_goto hc
      (fun x pc hne hx => (h.knows x pc hx).unlocked (hothers x pc hne hx)) trivial
  · change (st.removeImage id).layerOf x = some l at hx
    rw [hl] at hx
    split at hx
    · cases hx
    · exact h.image x l hx
  · change Ledger _ st.got st.released
    rw [hst.got, hst.released]
    refine h.ledger.move (o := .image id) (p := .call c) (by simp)
      (by simp [holds, hc, Pc.holds]) fun o => ?_
    cases o with
    | image x =>
      change (((st.removeImage id).layerOf x).bind fun l => l).map _ = _
      rw [hl]
      by_cases hx : x = id
      · simp [hx]
      · simp [hx, holds]
    | call x =>
      change ((((s.withStore (st.removeImage id)).goto c (.deletingFiles id layer)).calls[x]?).bind
        Pc.holds).map _ = _
      rw [calls_goto (s := s.withStore (st.removeImage id)) hc]
      by_cases hx : x = c
      · simp [hx, holds, hlayer, Pc.holds]
      · simp [hx, holds, withStore]

theorem release (h : Owned cd s) {layer : LayerRef} (hc : s.calls[c]? = some (.releasing layer))
    (r : Except Error (Option ID)) : Owned cd
    ((s.withStore (s.store.release layer)).unlock.goto c (.returned r)) where
  exclusive := h.exclusive.unlock hc rfl _ _
  knows := forall_goto hc
    (fun x pc _ hx => h.knows x pc hx) trivial
  image := h.image
  ledger := by
    refine h.ledger.giveBack (o := .call c) (by simp [holds, hc, Pc.holds]) fun o => ?_
    cases o with
    | image x => rfl
    | call x =>
      rw [holds, calls_goto (s := (s.withStore (s.store.release layer)).unlock) hc]
      by_cases hx : x = c
      · simp [hx, Pc.holds]
      · simp [hx, holds, withStore, unlock]

theorem step (h : Owned cd s) (hstep : Step cd l s s') : Owned cd s' := by
  have hexclusive := h.exclusive.step hstep
  cases hstep with
  | start hpc => exact h.start hpc hexclusive
  | @returns c pc r hc hpc =>
    refine h.goto hexclusive hc rfl (fun _ => rfl) rfl rfl ?_ trivial
    cases pc <;> first | rfl | cases hpc
  | set hc =>
    obtain ⟨img, hcheck⟩ := h.knows _ _ hc
    exact h.goto hexclusive hc rfl (fun _ => rfl) rfl rfl rfl ⟨_, img, rfl, hcheck⟩
  | @register c id rootFS hc hlock hmem hchain =>
    have hid : IsConfig cd id rootFS := h.knows c _ hc
    rw [State.register, register_of_valid hid.valid] at hexclusive ⊢
    refine h.insert hc rfl (fun x pc _ hx => ?_) hid
      (by rw [if_pos hchain, map_none]) rfl rfl hexclusive
      fun hholds => ?_
    · rw [← Bool.not_eq_true]
      intro hpc
      have hx' := h.exclusive x pc hx hpc
      rw [hlock] at hx'
      cases hx'
    · refine h.ledger.congr fun o => (hholds o).trans ?_
      split
      · next ho => simp [ho, holds, layerOf_eq_none.2 hmem]
      · rfl
  | @lock c pc pc' st hc hlock hst hlocks =>
    refine h.goto hexclusive hc rfl hst.layerOf hst.got hst.released ?_ ?_
    · cases hlocks <;> rfl
    · cases hlocks with
      | @gettingLayer id rootFS hmem hchain =>
        have hknows : (Pc.gettingLayer id rootFS).Knows cd s.store := ⟨h.knows c _ hc, hmem, hchain⟩
        exact hknows.congr hst.layerOf
      | forgetting hm => exact (hst.layerOf _).trans (by rw [layerOf, hm, map_some])
      | settingMetadata => exact trivial
  | @getLayer c id rootFS hc =>
    obtain ⟨hid, hmem, hchain⟩ : IsConfig cd id rootFS ∧ _ := h.knows c _ hc
    rw [State.register, register_of_valid hid.valid] at hexclusive ⊢
    refine h.insert hc rfl (fun x pc hne hx => ?_) hid
      (by rw [if_neg hchain, map_some]) rfl rfl hexclusive
      fun hholds => ?_
    · rw [← Bool.not_eq_true]
      exact fun hpc => hne (h.exclusive.eq_of_locked hx hpc hc rfl)
    · exact h.ledger.issue (by simp [holds, layerOf_eq_none.2 hmem]) hholds
  | forget hc hst =>
    exact h.goto hexclusive hc rfl hst.layerOf hst.got hst.released
      rfl ((hst.layerOf _).trans (h.knows _ _ hc))
  | unlink hc hst hst' =>
    subst hst'
    exact h.unlink hc hst
  | deleteFiles _ hc | deleteFilesLayer _ hc | unlockLayer hc =>
    exact h.goto hexclusive hc rfl (fun _ => rfl) rfl rfl rfl trivial
  | release hc => exact h.release hc _
  | unlockMetadata hc hst =>
    exact h.goto hexclusive hc rfl hst.layerOf hst.got hst.released rfl trivial

theorem of_reachable (h : Transition.Reachable (Docker.Image.step cd) {} s) : Owned cd s :=
  h.inv (fun hs hstep => hs.step (step_cases hstep)) init

end Owned

/-- When no call is in flight, each image with layers has one reference of its own from `ls.Get`;
there are no others that were not passed to `ls.Release`, and none was passed to it twice. -/
theorem layers_of_quiescent (h : Transition.Reachable (step cd) {} s) (hq : s.quiescent = true) :
    (∀ id ∈ s.store.images, ∃ rootFS, IsConfig cd id rootFS ∧
      (rootFS.chainID cd = "" → s.store.layerOf id = some none) ∧
      (rootFS.chainID cd ≠ "" → ∃ r, s.store.layerOf id = some (some ⟨rootFS.chainID cd, r⟩) ∧
        r < s.store.got ∧ r ∉ s.store.released)) ∧
    (∀ id id' l l', s.store.layerOf id = some (some l) → s.store.layerOf id' = some (some l') →
      l.ref = l'.ref → id = id') ∧
    (∀ r, r < s.store.got → r ∉ s.store.released → ∃ id l,
      s.store.layerOf id = some (some l) ∧ l.ref = r) ∧
    s.store.released.Nodup ∧ ∀ r ∈ s.store.released, r < s.store.got := by
  have howned := Owned.of_reachable h
  have hholds : ∀ {id l}, s.store.layerOf id = some (some l) → s.holds (.image id) = some l.ref :=
    fun hl => by
    simp [State.holds, hl]
  refine ⟨fun id hid => ?_, fun id id' l l' hl hl' href => ?_, fun r hr hmem =>
    ?_, howned.ledger.nodup, howned.ledger.bound⟩
  · obtain ⟨l, hl⟩ := isSome_iff_exists.1 (Store.layerOf_isSome.2 hid)
    obtain ⟨rootFS, hconfig, hchain⟩ := howned.image id l hl
    refine ⟨rootFS, hconfig, fun he => ?_, fun hne => ?_⟩
    · rw [if_pos he, map_eq_none_iff] at hchain
      rw [hl, hchain]
    · rw [if_neg hne, map_eq_some_iff] at hchain
      obtain ⟨⟨chainID, r⟩, rfl, rfl⟩ := hchain
      exact ⟨r, hl, howned.ledger.live _ _ (hholds hl)⟩
  · have heq := howned.ledger.unique _ _ l.ref (hholds hl) (href ▸ hholds hl')
    exact Owner.image.inj heq
  · obtain ⟨o, ho⟩ := howned.ledger.owner r hr hmem
    cases o with
    | image id =>
      rw [State.holds, map_eq_some_iff] at ho
      obtain ⟨l, hl, rfl⟩ := ho
      obtain ⟨l', hl', rfl⟩ := bind_eq_some_iff.1 hl
      exact ⟨id, l, hl', rfl⟩
    | call c =>
      rw [State.holds, map_eq_some_iff] at ho
      obtain ⟨l, hl, -⟩ := ho
      obtain ⟨pc, hc, hpc⟩ := bind_eq_some_iff.1 hl
      rw [Pc.holds_of_isReturned (List.all_eq_true.1 hq pc (List.mem_of_getElem? hc))] at hpc
      cases hpc

/-- The first of three creations of one image fails to get the layer, the last finds the image
there. -/
def threeCreations : List Label :=
  [.create [0], .create [0], .create [0], .set 0 true, .set 1 true, .set 2 true, .enterCreate 0,
    .getLayer 0 false,
    .enterCreate 1, .getLayer 1 true, .enterCreate 2]

theorem layers_of_quiescent_three : ∃ s, Transition.run (step oneLayer) threeCreations {} = some s ∧
    (oneLayer.fromBytes [0] ∈ s.store.images) ∧
    (∀ r, r < s.store.got → r ∉ s.store.released → ∃ id l,
      s.store.layerOf id = some (some l) ∧ l.ref = r) ∧
    s.store.released.Nodup := by
  refine Transition.exists_run (fun s => oneLayer.fromBytes [0] ∈ s.store.images ∧
    s.quiescent = true)
    (by decide +kernel) fun s hs ⟨hid, hq⟩ => ?_
  have hall := layers_of_quiescent ⟨_, hs⟩ hq
  exact ⟨hid, hall.2.2.1, hall.2.2.2.1⟩

end Docker.Image
