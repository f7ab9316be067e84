import Docker.Image.Restore
import Docker.Lib.Transition

/-!
# Parents and children

The parent of an image is recorded in the backend, its children are kept in memory. The calls of the
store, one after another, keep the two relations inverse to each other, also across a restart.
-/

namespace Docker.Image

open Function AList Store Transition
open Layer (ChainID)

/-- A call of the store. `Delete` comes with the order in which it finds the children. -/
inductive Op where
  | create (config : Content)
  | delete (id : ID) (order : List ID)
  | setParent (id parent : ID)
  deriving DecidableEq

/-- A call that runs alone, with the layers that `ls.Get` finds. -/
def Op.call (cd : Codec) (ls : ChainID → Bool) : Op → Store → Option Store
  | .create config, s => some (s.create cd ls config).2
  | .delete id order, s =>
    if order.Nodup ∧ order.toFinset = s.children id then some (s.delete cd order id).2 else none
  | .setParent id parent, s => some (s.setParent cd id parent).2

def Op.present (s : Store) : Op → Bool
  | .setParent id parent => id ∈ s.images && parent ∈ s.images
  | _ => true

def callStep (cd : Codec) : Op → Store → Option Store :=
  restrict (Op.call cd fun _ => true) fun s op => op.present s

/-- The relation in the backend is that of the store. -/
structure Linked (cd : Codec) (s : Store) : Prop where
  stored : ∀ id, id ∈ s.images ↔ id ∈ s.fs.content
  sound : ∀ id content, s.fs.content.lookup id = some content →
    cd.fromBytes content = id ∧ ∃ r, checkConfig cd content = .ok r
  parent : ∀ c p, s.fs.metadata c "parent" = some p ↔ c ∈ s.children p
  child : ∀ c p, c ∈ s.children p → c ∈ s.images

namespace Linked

variable {cd : Codec} {s s' : Store} {id p c : ID}

theorem init : Linked cd {} where
  stored id := by simp [notMem_empty]
  sound id content h := by simp at h
  parent c p := by simp [children]
  child c p h := by simp [children] at h

section
variable (h : Linked cd s)
include h

theorem get (hid : id ∈ s.images) : ∃ content, s.fs.get cd id = some content := by
  obtain ⟨content, hc⟩ := Option.isSome_iff_exists.1 (lookup_isSome.2 ((h.stored id).1 hid))
  exact ⟨content, Backend.get_eq_some.2 ⟨hc, (h.sound id content hc).1⟩⟩

theorem getParent : s.getParent cd c = some p ↔ c ∈ s.children p := by
  rw [← h.parent, Store.getParent, Backend.getMetadata, Option.bind_eq_some_iff]
  refine ⟨fun hp => hp.elim fun _ hp => hp.2, fun hp => ?_⟩
  obtain ⟨content, hc⟩ := h.get (h.child c p ((h.parent c p).1 hp))
  exact ⟨content, hc, hp⟩

/-- An image is in the children of no other image than its parent. -/
theorem erase_child :
    (if s.getParent cd id = some p then (s.children p).erase id else s.children p) =
    (s.children p).erase id := by
  split
  · rfl
  · next hnot => exact (Finset.erase_eq_of_notMem fun hc => hnot (h.getParent.2 hc)).symm

theorem sound_stored (hr : checkConfig cd config = .ok r)
    (hc : (s.stored cd config).content.lookup id = some content) :
    cd.fromBytes content = id ∧ ∃ r, checkConfig cd content = .ok r := by
  by_cases hid : id = cd.fromBytes config
  · rw [Store.stored, hid, lookup_insert] at hc
    cases hc
    exact ⟨hid.symm, r, hr⟩
  · rw [Store.stored, lookup_insert_ne hid] at hc
    exact h.sound id content hc

theorem create (config : Content) : Linked cd (s.create cd (fun _ => true) config).2 := by
  have hcreated := created cd (fun _ => true) s config
  generalize s.create cd (fun _ => true) config = r at hcreated
  cases hcreated with
  | rejected _ => exact h
  | existing hr hmem =>
    refine ⟨fun id => ?_, fun id content => h.sound_stored hr, h.parent, h.child⟩
    rw [h.stored id, Store.stored, mem_insert, or_iff_right_of_imp]
    rintro rfl
    exact (h.stored _).1 hmem
  | registered hr hmem hgets =>
    have hchildren : ∀ {s' : Store} {layer} p, s'.images = s.images.insert (cd.fromBytes config)
      { layer := layer } →
        s'.children p = s.children p := fun p he => by
      rw [children_insert he]
      split
      · next hp => rw [hp, children_of_notMem hmem]
      · rfl
    refine ⟨fun id => ?_, fun id content => h.sound_stored hr, fun c p => ?_, fun c p hc => ?_⟩
    · rw [Store.stored, mem_insert, mem_insert, h.stored id]
    · rw [hchildren p rfl]
      exact h.parent c p
    · rw [hchildren p rfl] at hc
      exact (mem_insert _).2 (.inr (h.child c p hc))
  | failed _ _ hls => cases hls

theorem delete (horder : order.toFinset = s.children id) : Linked cd (s.delete cd order id).2 := by
  have hmem : ∀ {c}, c ∈ order ↔ c ∈ s.children id := by
    intro c
    rw [← horder, List.mem_toFinset]
  rw [Store.delete]
  cases hlookup : s.images.lookup id with
  | none => exact h
  | some m =>
    -- the image is a child of its parent only, and not any more if it is its own parent
    have hchildren : ∀ p, ((s.forgetParents order).unlink cd id).children p =
        if p = id then ∅ else (s.children p).erase id := by
      intro p
      rw [children_unlink, getParent_forgetParents]
      by_cases hp : p = id
      · rw [if_pos hp, if_pos hp]
      · rw [if_neg hp, if_neg hp]
        by_cases hid : id ∈ order
        · have hself := h.getParent.2 (hmem.1 hid)
          rw [if_pos hid, if_neg (by simp)]
          refine (Finset.erase_eq_of_notMem fun hc => hp ?_).symm
          exact Option.some.inj ((h.getParent.2 hc).symm.trans hself)
        · rw [if_neg hid]
          exact h.erase_child
    refine ⟨fun c => ?_, fun c content hc => ?_, fun c p => ?_, fun c p hc => ?_⟩
    · change c ∈ ((s.forgetParents order).unlink cd id).images ↔
        c ∈ ((s.forgetParents order).unlink cd id).fs.content.erase id
      rw [mem_unlink, mem_erase, unlink_fs, content_forgetParents, ← h.stored c]
      rfl
    · change (((s.forgetParents order).unlink cd id).fs.content.erase id).lookup c =
        some content at hc
      rw [unlink_fs, content_forgetParents] at hc
      by_cases hcid : c = id
      · rw [hcid, lookup_erase] at hc
        cases hc
      · rw [lookup_erase_ne hcid] at hc
        exact h.sound c content hc
    · change update ((s.forgetParents order).unlink cd id).fs.metadata id
        (fun _ => none) c "parent" = some p ↔
        c ∈ ((s.forgetParents order).unlink cd id).children p
      rw [hchildren p, unlink_fs]
      by_cases hcid : c = id
      · subst hcid
        split <;> simp
      · rw [update_of_ne hcid, metadata_forgetParents]
        by_cases hc : c ∈ order
        · rw [if_pos hc]
          split
          · simp
          · next hp =>
            simp only [reduceCtorEq, Finset.mem_erase, hcid, ne_eq, not_false_eq_true,
              true_and, false_iff]
            intro hcp
            have hparent := (h.parent c id).2 (hmem.1 hc)
            rw [(h.parent c p).2 hcp] at hparent
            exact hp (Option.some.inj hparent)
        · rw [if_neg hc, h.parent]
          split
          · next hp => simp [hp, hmem.not.1 hc]
          · simp [hcid]
    · change c ∈ ((s.forgetParents order).unlink cd id).children p at hc
      rw [hchildren p] at hc
      split at hc
      · exact absurd hc (Finset.notMem_empty c)
      · rw [Finset.mem_erase] at hc
        exact mem_unlink.2 ⟨hc.1, h.child c p hc.2⟩

theorem setParent (hid : id ∈ s.images) (hp : p ∈ s.images) :
    Linked cd (s.setParent cd id p).2 := by
  obtain ⟨content, hc⟩ := h.get hid
  have hchildren : ∀ q, ((s.leaveParent cd id).modifyChildren p (insert id)).children q =
      if q = p then insert id (s.children p) else (s.children q).erase id := by
    intro q
    rw [children_modifyChildren, children_leaveParent, children_leaveParent, h.erase_child,
      h.erase_child]
    by_cases hq : q = p
    · rw [if_pos ⟨hq, by simpa using hp⟩, if_pos hq]
      ext c
      by_cases hc : c = id <;> simp [hc]
    · rw [if_neg fun hand => hq hand.1, if_neg hq]
  have hfs : ((s.leaveParent cd id).modifyChildren p (insert id)).fs.setMetadata cd id "parent" p =
      .ok { s.fs with
      metadata := update s.fs.metadata id (update (s.fs.metadata id) "parent" (some p)) } := by
    rw [modifyChildren_fs, leaveParent_fs, Backend.setMetadata, hc]
  rw [Store.setParent, if_pos hp]
  dsimp only
  rw [hfs]
  refine ⟨fun c => ?_, h.sound, fun c q => ?_, fun c q hc => ?_⟩
  · rw [← h.stored c]
    simp
  · change update s.fs.metadata id (update (s.fs.metadata id) "parent" (some p)) c
      "parent" = some q ↔
      c ∈ ((s.leaveParent cd id).modifyChildren p (insert id)).children q
    rw [hchildren q]
    by_cases hcid : c = id
    · subst hcid
      by_cases hq : q = p
      · simp [hq]
      · simp [hq, Ne.symm hq]
    · rw [update_of_ne hcid, h.parent]
      split
      · next hq => simp [hq, hcid]
      · simp [hcid]
  · change c ∈ ((s.leaveParent cd id).modifyChildren p (insert id)).children q at hc
    rw [hchildren q] at hc
    rw [mem_modifyChildren, mem_leaveParent]
    split at hc
    · rcases Finset.mem_insert.1 hc with rfl | hc
      · exact hid
      · exact h.child c p hc
    · exact h.child c q (Finset.mem_of_mem_erase hc)

theorem step (hstep : callStep cd op s = some s') : Linked cd s' := by
  obtain ⟨hpresent, hcall⟩ := restrict_eq_some.1 hstep
  cases op with
  | create config =>
    cases hcall
    exact h.create config
  | delete id order =>
    rw [Op.call] at hcall
    split at hcall
    · next horder =>
      cases hcall
      exact h.delete horder.2
    · cases hcall
  | setParent id parent =>
    cases hcall
    rw [Op.present, Bool.and_eq_true, decide_eq_true_iff, decide_eq_true_iff] at hpresent
    exact h.setParent hpresent.1 hpresent.2

end

theorem of_reachable (h : Reachable (callStep cd) {} s) : Linked cd s :=
  h.inv (fun hs hstep => hs.step hstep) init

/-- The ids of the content are found by `Walk`, and their configs can be read. -/
theorem walk (h : Linked cd s) : id ∈ s.fs.walk ∧ (s.get cd id).isSome ↔ id ∈ s.images := by
  rw [h.stored]
  exact mem_walk_iff fun content hc => h.sound id content hc

end Linked

/-- After any calls, an image is among the children of another exactly when both are in the store
and the other is its parent; and a restart finds the same images and children. -/
theorem children_iff_getParent {cd : Codec} {s : Store} (h : Reachable (callStep cd) {} s) :
    (∀ p c, c ∈ s.children p ↔ c ∈ s.images ∧ p ∈ s.images ∧ s.getParent cd c = some p) ∧
    ∀ ids iter, ids.Perm s.fs.walk → iter.Perm s.fs.walk →
      ∃ s', s.newImageStore cd (fun _ => true) ids iter = .ok s' ∧
        (∀ id, id ∈ s'.images ↔ id ∈ s.images) ∧ ∀ p, s'.children p = s.children p := by
  have hlinked := Linked.of_reachable h
  have hchildren : ∀ p c, c ∈ s.children p ↔ c ∈ s.images ∧ p ∈ s.images ∧
      s.getParent cd c = some p :=
    fun p c => ⟨fun hc => ⟨hlinked.child c p hc, mem_images_of_child hc, hlinked.getParent.2 hc⟩,
      fun hc => hlinked.getParent.1 hc.2.2⟩
  refine ⟨hchildren, fun ids iter hids hiter => ?_⟩
  have hlayer : ∀ id ∈ s.fs.walk, ∀ r, s.get cd id = some r →
      Store.HasLayer cd (fun _ => true) r.2 :=
    fun _ _ _ _ => .inr rfl
  obtain ⟨s', hs', hnew⟩ := newImageStore_ok iter hids hlayer
  have hmem : ∀ id, id ∈ s'.images ↔ id ∈ s.images := fun id => (hnew.mem id).trans hlinked.walk
  refine ⟨s', hs', hmem, fun p => Finset.ext fun c => ?_⟩
  rw [hnew.children, hmem, hmem, hchildren, hiter.mem_iff, and_iff_right_of_imp]
  exact fun hc => (hlinked.walk.2 hc.1).1

/-- Configs without layers, with one digest for `[1]` and one for the others. -/
def twoImages : Codec where
  fromBytes content := if content = [1] then "sha256:".append
    (String.ofList (List.replicate 64 '1'))
    else "sha256:".append (String.ofList (List.replicate 64 '0'))
  unmarshal _ := some { rootFS := some { diffIDs := [] }, history := [] }
  valid content := by
    split
    · decide +kernel
    · decide +kernel

theorem children_iff_getParent_two : ∃ s, run (callStep twoImages) [.create [0], .create [1],
      .setParent (twoImages.fromBytes [1]) (twoImages.fromBytes [0])] {} = some s ∧
    (∀ p c, c ∈ s.children p ↔ c ∈ s.images ∧ p ∈ s.images ∧ s.getParent twoImages c = some p) ∧
    ∃ s', s.newImageStore twoImages (fun _ => true) s.fs.walk s.fs.walk = .ok s' ∧
      (∀ id, id ∈ s'.images ↔ id ∈ s.images) ∧ ∀ p, s'.children p = s.children p := by
  refine exists_run (fun _ => True) (by decide +kernel) fun s hs _ => ?_
  have hall := children_iff_getParent ⟨_, hs⟩
  exact ⟨hall.1, hall.2 _ _ (.refl _) (.refl _)⟩

/-! ## The images without children -/

abbrev Images := AList fun _ : ID => Image × RootFS

/-- The body of the loop of `imagesMap`. -/
def Store.addImage (cd : Codec) (s : Store) (all : Bool) (images : Images) (id : ID) : Images :=
  if !all && s.children id ≠ ∅ then images
  else match s.get cd id with
    | none => images
    | some img => images.insert id img

def Store.imagesMap (cd : Codec) (s : Store) (all : Bool) : Images :=
  s.images.keys.foldl (s.addImage cd all) ∅

def Store.heads (cd : Codec) (s : Store) := s.imagesMap cd false

def Store.map (cd : Codec) (s : Store) := s.imagesMap cd true

theorem lookup_imagesMap {id : ID} : (Store.imagesMap cd s all).lookup id =
    if id ∈ s.images ∧ (all ∨ s.children id = ∅) then s.get cd id else none := by
  have hloop : ∀ (ids : List ID) (images : Images),
      (ids.foldl (s.addImage cd all) images).lookup id =
      if id ∈ ids ∧ (all ∨ s.children id = ∅) then (s.get cd id).or (images.lookup id)
        else images.lookup id := by
    intro ids
    induction ids with
    | nil => simp
    | cons c ids ih =>
      intro images
      rw [List.foldl_cons, ih, addImage]
      by_cases hid : id = c
      · subst hid
        grind [lookup_insert]
      · grind [lookup_insert_ne]
  rw [imagesMap, hloop]
  simp [AList.mem_keys]

/-- After any calls, `Map` has every image, `Heads` those that no image has as its parent, and both
the config that is read for the id. -/
theorem mem_heads_iff {cd : Codec} {s : Store} (h : Reachable (callStep cd) {} s) :
    (∀ id, id ∈ s.map cd ↔ id ∈ s.images) ∧
    (∀ id, id ∈ s.heads cd ↔ id ∈ s.images ∧ ∀ c ∈ s.images, s.getParent cd c ≠ some id) ∧
    ∀ all id img, (s.imagesMap cd all).lookup id = some img → s.get cd id = some img := by
  have hlinked := Linked.of_reachable h
  have hmem : ∀ all id, id ∈ s.imagesMap cd all ↔ id ∈ s.images ∧ (all ∨ s.children id = ∅) := by
    intro all id
    rw [← lookup_isSome, lookup_imagesMap]
    split
    · next hid => simpa [hid] using (hlinked.walk.2 hid.1).2
    · next hid => simp [hid]
  refine ⟨fun id => ?_, fun id => ?_, fun all id img hl => ?_⟩
  · simp [Store.map, hmem]
  · rw [heads, hmem, or_iff_right nofun, Finset.eq_empty_iff_forall_notMem]
    exact and_congr_right fun _ => ⟨fun hno c _ hp => hno c (hlinked.getParent.1 hp),
      fun hno c hc => hno c (hlinked.child c id hc) (hlinked.getParent.2 hc)⟩
  · rw [lookup_imagesMap] at hl
    exact (Option.ite_none_right_eq_some.1 hl).2

theorem mem_heads_iff_two : ∃ s, run (callStep twoImages) [.create [0], .create [1],
      .setParent (twoImages.fromBytes [1]) (twoImages.fromBytes [0])] {} = some s ∧
    twoImages.fromBytes [0] ∈ s.map twoImages ∧ twoImages.fromBytes [0] ∉ s.heads twoImages := by
  refine exists_run (fun s => twoImages.fromBytes [0] ∈ s.images ∧
    twoImages.fromBytes [1] ∈ s.images ∧
    s.getParent twoImages (twoImages.fromBytes [1]) = some (twoImages.fromBytes [0]))
      (by decide +kernel) ?_
  rintro s hs ⟨h₀, h₁, hp⟩
  obtain ⟨hmap, hheads, -⟩ := mem_heads_iff ⟨_, hs⟩
  exact ⟨(hmap _).2 h₀, fun hh => ((hheads _).1 hh).2 _ h₁ hp⟩

end Docker.Image
