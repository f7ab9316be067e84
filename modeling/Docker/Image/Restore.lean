import Docker.Image.Store

/-!
# Restoring the image store

What `NewImageStore` finds: an image for every file `Walk` names that can be read, if its layer can
be had, and for each image the children whose recorded parent it is.
-/

namespace Docker.Image

open List

open Layer (ChainID validateDigest)

namespace Store

variable {s s' : Store} {id p c : ID}

def HasLayer (cd : Codec) (ls : ChainID → Bool) (rootFS : RootFS) : Prop :=
  rootFS.chainID cd = "" ∨ ls (rootFS.chainID cd) = true

/-- What the first pass of `restore` makes of the files it is given. -/
structure Restored (cd : Codec) (s : Store) (ids : List ID) (s' : Store) : Prop where
  fs : s'.fs = s.fs
  mem : ∀ id, id ∈ s'.images ↔ id ∈ s.images ∨ id ∈ ids ∧ (s.get cd id).isSome
  children : (∀ p, s.children p = ∅) → ∀ p, s'.children p = ∅

theorem get_congr (h : s'.fs = s.fs) : s'.get cd id = s.get cd id := by rw [get, get, h]

theorem getParent_congr (h : s'.fs = s.fs) : s'.getParent cd id = s.getParent cd id := by
  rw [getParent, getParent, h]

theorem Restored.one {layer : Option LayerRef} (hfs : s'.fs = s.fs)
    (h : s'.images = s.images.insert id { layer := layer })
    {r : Image × RootFS} (hget : s.get cd id = some r) : Restored cd s [id] s' where
  fs := hfs
  mem c := by
    rw [h, AList.mem_insert, mem_singleton, or_comm]
    refine or_congr_right ⟨fun hc => ⟨hc, by rw [hc, hget]; rfl⟩, And.left⟩
  children hempty p := by
    rw [children_insert h]
    split
    · rfl
    · exact hempty p

theorem restoreImage_ok (hid : validateDigest id = true)
    (h : ∀ r, s.get cd id = some r → HasLayer cd ls r.2) :
    ∃ s', s.restoreImage cd ls id = .ok s' ∧ Restored cd s [id] s' := by
  rw [restoreImage]
  cases hget : s.get cd id with
  | none =>
    refine ⟨s, rfl, rfl, fun c => ⟨.inl, ?_⟩, fun hempty => hempty⟩
    rintro (hc | ⟨hc, hs⟩)
    · exact hc
    · rw [mem_singleton.1 hc, hget] at hs
      cases hs
  | some r =>
    dsimp only
    by_cases hchain : r.2.chainID cd = ""
    · rw [if_pos hchain, register_of_valid hid]
      exact ⟨_, rfl, .one rfl rfl hget⟩
    · rw [if_neg hchain, if_pos ((h r hget).resolve_left hchain), register_of_valid hid]
      exact ⟨_, rfl, .one rfl rfl hget⟩

theorem restoreImages_ok (hids : ∀ id ∈ ids, validateDigest id = true)
    (h : ∀ id ∈ ids, ∀ r, s.get cd id = some r → HasLayer cd ls r.2) :
    ∃ s', restoreImages cd ls ids s = .ok s' ∧ Restored cd s ids s' := by
  induction ids generalizing s with
  | nil => exact ⟨s, rfl, rfl, fun c => by simp, fun hempty => hempty⟩
  | cons id ids ih =>
    obtain ⟨s₁, hs₁, h₁⟩ := restoreImage_ok (hids id mem_cons_self) (h id mem_cons_self)
    obtain ⟨s₂, hs₂, h₂⟩ := ih (fun c hc => hids c (mem_cons_of_mem _ hc)) fun c hc r hr =>
      h c (mem_cons_of_mem _ hc) r (get_congr h₁.fs ▸ hr)
    refine ⟨s₂, ?_, h₂.fs.trans h₁.fs, fun c => ?_, fun hempty => h₂.children (h₁.children hempty)⟩
    · rw [restoreImages, hs₁]
      exact hs₂
    · rw [h₂.mem, h₁.mem, get_congr h₁.fs, mem_singleton, mem_cons, or_and_right, or_assoc]

theorem restoreImages_layer (h : restoreImages cd ls ids s = .ok s₁)
    (hids : ∀ id ∈ ids, validateDigest id = true) :
    ∀ id ∈ ids, ∀ r, s.get cd id = some r → HasLayer cd ls r.2 := by
  induction ids generalizing s with
  | nil => simp
  | cons id ids ih =>
    rw [restoreImages] at h
    have hlayer : ∀ r, s.get cd id = some r → HasLayer cd ls r.2 := by
      intro r hr
      rw [HasLayer]
      by_contra hno
      rw [not_or, Bool.not_eq_true] at hno
      rw [restoreImage, hr] at h
      dsimp only at h
      rw [if_neg hno.1, hno.2, if_neg Bool.false_ne_true] at h
      cases h
    obtain ⟨s₂, hs₂, h₂⟩ := restoreImage_ok (hids id mem_cons_self) hlayer
    rw [hs₂] at h
    intro c hc r hr
    rcases mem_cons.1 hc with rfl | hc
    · exact hlayer r hr
    · exact ih h (fun c hc => hids c (mem_cons_of_mem _ hc)) c hc r ((get_congr h₂.fs).trans hr)

@[simp] theorem restoreParent_fs : (s.restoreParent cd id).fs = s.fs := by
  unfold restoreParent
  split <;> simp

@[simp] theorem mem_restoreParent : p ∈ (s.restoreParent cd id).images ↔ p ∈ s.images := by
  unfold restoreParent
  split <;> simp

theorem mem_children_restoreParent : c ∈ (s.restoreParent cd id).children p ↔
    c ∈ s.children p ∨ c = id ∧ p ∈ s.images ∧ s.getParent cd id = some p := by
  unfold restoreParent
  split
  · next h => simp [h]
  · next q h =>
    rw [children_modifyChildren, h]
    by_cases hq : p = q
    · subst hq
      by_cases hmem : p ∈ s.images
      · simp [hmem, or_comm]
      · simp [hmem]
    · simp [hq, Ne.symm hq]

@[simp] theorem mem_restoreParents : p ∈ (s.restoreParents cd ids).images ↔ p ∈ s.images := by
  induction ids generalizing s with
  | nil => rfl
  | cons id ids ih => exact ih.trans mem_restoreParent

theorem mem_children_restoreParents : c ∈ (s.restoreParents cd ids).children p ↔
    c ∈ s.children p ∨ c ∈ ids ∧ p ∈ s.images ∧ s.getParent cd c = some p := by
  induction ids generalizing s with
  | nil => simp [restoreParents]
  | cons id ids ih =>
    rw [restoreParents, foldl_cons, ← restoreParents, ih, mem_children_restoreParent,
      mem_restoreParent,
      getParent_congr restoreParent_fs, mem_cons, or_and_right, or_assoc]
    by_cases hc : c = id
    · simp [hc]
    · simp [hc]

structure IsNewStore (cd : Codec) (s : Store) (iter : List ID) (s' : Store) : Prop where
  mem : ∀ id, id ∈ s'.images ↔ id ∈ s.fs.walk ∧ (s.get cd id).isSome
  children : ∀ p c, c ∈ s'.children p ↔ c ∈ iter ∧ c ∈ s'.images ∧ p ∈ s'.images ∧
    s.getParent cd c = some p

theorem validateDigest_of_walk {fs : Backend} (h : id ∈ fs.walk) : validateDigest id = true := by
  simp only [Backend.walk, mem_filter, Bool.and_eq_true] at h
  exact h.2.2

/-- A restart reads the images whose content was checked when it was stored. -/
theorem mem_walk_iff (hsound : ∀ content, s.fs.content.lookup id = some content →
    cd.fromBytes content = id ∧ ∃ r, checkConfig cd content = .ok r) :
    id ∈ s.fs.walk ∧ (s.get cd id).isSome ↔ id ∈ s.fs.content := by
  constructor
  · rintro ⟨hid, -⟩
    exact (mem_filter.1 hid).1
  · intro hid
    obtain ⟨content, hc⟩ := Option.isSome_iff_exists.1 (AList.lookup_isSome.2 hid)
    obtain ⟨rfl, r, hr⟩ := hsound content hc
    refine ⟨mem_filter.2 ⟨hid, by simp [cd.valid content]⟩, ?_⟩
    rw [Store.get, Backend.get_eq_some.2 ⟨hc, rfl⟩, Option.bind_some, newFromJSON_of_checkConfig hr]
    rfl

theorem newImageStore_ok (iter : List ID) (hids : ids.Perm s.fs.walk)
    (h : ∀ id ∈ s.fs.walk, ∀ r, s.get cd id = some r → HasLayer cd ls r.2) :
    ∃ s', s.newImageStore cd ls ids iter = .ok s' ∧ IsNewStore cd s iter s' := by
  have hlayer : ∀ id ∈ ids, ∀ r, s.forget.get cd id = some r → HasLayer cd ls r.2 := fun id hid =>
    h id (hids.mem_iff.1 hid)
  obtain ⟨s₁, hs₁, h₁⟩ := restoreImages_ok
    (fun id hid => validateDigest_of_walk (hids.mem_iff.1 hid)) hlayer
  refine ⟨s₁.restoreParents cd (iter.filter (· ∈ s₁.images)), ?_, fun id => ?_, fun p c => ?_⟩
  · rw [newImageStore, hs₁]
    rfl
  · rw [mem_restoreParents, h₁.mem, ← hids.mem_iff]
    exact or_iff_right (AList.notMem_empty id)
  · have hempty := h₁.children fun p => rfl
    rw [mem_children_restoreParents, hempty p, mem_restoreParents, mem_restoreParents,
      getParent_congr h₁.fs]
    simp [and_assoc, getParent, forget]

theorem newImageStore_layer {iter : List ID} (hids : ids.Perm s.fs.walk)
    (h : s.newImageStore cd ls ids iter = .ok s') :
    ∀ id ∈ s.fs.walk, ∀ r, s.get cd id = some r → HasLayer cd ls r.2 := by
  rw [newImageStore] at h
  cases hs₁ : restoreImages cd ls ids s.forget with
  | error e =>
    rw [hs₁] at h
    cases h
  | ok s₁ =>
    intro id hid
    exact restoreImages_layer hs₁ (fun id hid => validateDigest_of_walk (hids.mem_iff.1 hid)) id
      (hids.mem_iff.2 hid)

end Store

end Docker.Image
