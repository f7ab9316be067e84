import Docker.Image.References

/-!
# The configs of the images

`Create` writes the config outside of the lock of the store, so a `Delete` can remove the config
again before `Create` puts the image in. If that does not happen, every image has its config.
-/

namespace Docker.Image

open State AList Transition

/-- `Create` has written the config and not looked for the image yet. -/
def Pc.isCreating (id : ID) : Pc → Bool
  | .locking id' _ => id' = id
  | _ => false

/-- `Delete` does not remove a config while `Create` for the same image is on the way to the
lock. -/
def noRace (s : State) : Label → Bool
  | .deleteFiles c _ _ =>
    match s.calls[c]? with
    | some (.deletingFiles id _) => !(s.calls.any (Pc.isCreating id))
    | _ => true
  | _ => true

/-- A call that puts an image in has its config there, and one that removes the files has taken the
image out. -/
def Pc.Stored (st : Store) : Pc → Prop
  | .locking id _ | .gettingLayer id _ => id ∈ st.fs.content
  | .deletingFiles id _ => id ∉ st.images
  | _ => True

theorem Pc.Stored.mono {pc : Pc} (h : pc.Stored st)
    (hcontent : ∀ id, id ∈ st.fs.content → id ∈ st'.fs.content)
    (himages : ∀ id, id ∈ st'.images → id ∈ st.images) :
    pc.Stored st' := by
  cases pc with
  | locking id rootFS | gettingLayer id rootFS => exact hcontent id h
  | deletingFiles id layer => exact fun hid => h (himages id hid)
  | _ => exact trivial

structure Present (cd : Codec) (s : State) : Prop where
  sound : ∀ id content, s.store.fs.content.lookup id = some content →
    cd.fromBytes content = id ∧ ∃ r, checkConfig cd content = .ok r
  image : ∀ id, id ∈ s.store.images → id ∈ s.store.fs.content
  stored : ∀ (c : Nat) (pc : Pc), s.calls[c]? = some pc → pc.Stored s.store

namespace Present

variable {cd : Codec} {s s' : State}

theorem init : Present cd {} where
  sound id content h := by simp at h
  image id h := absurd h (notMem_empty id)
  stored c pc h := by simp at h

theorem goto (h : Present cd s) (hc : s.calls[c]? = some pc) (hcalls : s'.calls = s.calls.set c pc')
    (hcontent : s'.store.fs.content = s.store.fs.content)
    (himages : ∀ id, id ∈ s'.store.images → id ∈ s.store.images)
    (hpc : pc'.Stored s'.store) : Present cd s' := by
  refine ⟨fun id content hid => h.sound id content (hcontent ▸ hid), fun id hid => ?_,
    fun x pc₁ hx => ?_⟩
  · rw [hcontent]
    exact h.image id (himages id hid)
  · rw [calls_set hc hcalls] at hx
    split at hx
    · cases hx
      exact hpc
    · exact (h.stored x pc₁ hx).mono (fun id hid => hcontent ▸ hid) himages

theorem quiet (h : Present cd s) (hc : s.calls[c]? = some pc)
    (hcalls : s'.calls = s.calls.set c pc')
    (hst : s.store.Quiet s'.store) (hpc : pc'.Stored s.store) : Present cd s' := by
  have hmem : ∀ id, id ∈ s'.store.images ↔ id ∈ s.store.images := fun id => by
    rw [← Store.layerOf_isSome, hst.layerOf, Store.layerOf_isSome]
  exact h.goto hc hcalls hst.content (fun id => (hmem id).1)
    (hpc.mono (fun id hid => hst.content ▸ hid) fun id => (hmem id).1)

theorem start (h : Present cd s) (hpc : pc.Starts cd) : Present cd (s.start pc) where
  __ := h
  stored := by
    refine forall_start h.stored ?_
    cases hpc <;> exact trivial

theorem set (h : Present cd s) {r : Image × RootFS} (hr : checkConfig cd config = .ok r)
    (hc : s.calls[c]? = some pc) :
    Present cd ((s.withStore { s.store with fs := s.store.stored cd config }).goto c
      (.locking (cd.fromBytes config) rootFS)) := by
  have hgrows : ∀ id, id ∈ s.store.fs.content → id ∈ (s.store.stored cd config).content :=
    fun id hid =>
    (mem_insert _).2 (.inr hid)
  refine ⟨fun id content hid => ?_, fun id hid => hgrows id (h.image id hid), ?_⟩
  · change AList.lookup id (AList.insert _ _ _) = _ at hid
    by_cases he : id = cd.fromBytes config
    · rw [he, lookup_insert] at hid
      cases hid
      exact ⟨he.symm, r, hr⟩
    · rw [lookup_insert_ne he] at hid
      exact h.sound id content hid
  · exact forall_goto hc
      (fun x pc₁ _ hx => (h.stored x pc₁ hx).mono hgrows fun _ hid => hid)
        ((mem_insert _).2 (.inl rfl))

/-- A new image is put in, by a call that has nobody beside it with the lock. -/
theorem insert (h : Present cd s) (hc : s.calls[c]? = some pc)
    (hothers : ∀ x pc, x ≠ c → s.calls[x]? = some pc → pc.locked = false) {id : ID}
    (hid : id ∈ s.store.fs.content) (hcalls : s'.calls = s.calls.set c (.returned r))
    (himages : s'.store.images = s.store.images.insert id { layer := layer })
    (hfs : s'.store.fs = s.store.fs) :
    Present cd s' := by
  refine ⟨fun x content hx => h.sound x content (hfs ▸ hx), fun x hx => ?_, fun x pc₁ hx => ?_⟩
  · rw [himages] at hx
    rw [hfs]
    rcases (mem_insert _).1 hx with rfl | hx
    · exact hid
    · exact h.image x hx
  · rw [calls_set hc hcalls] at hx
    split at hx
    · cases hx
      exact trivial
    · next hne =>
      have hold := h.stored x pc₁ hx
      have hlocked := hothers x pc₁ hne hx
      cases pc₁ with
      | locking id' rootFS =>
        change id' ∈ s'.store.fs.content
        rw [hfs]
        exact hold
      | gettingLayer id' rootFS => cases hlocked
      | deletingFiles id' layer' => cases hlocked
      | _ => exact trivial

theorem mem_deleteFiles {id x : ID} (hne : x ≠ id) (h : x ∈ s.store.fs.content) :
    x ∈ (s.deleteFiles id ok okContent).store.fs.content := by
  cases ok <;> cases okContent <;> first | exact h | exact mem_erase.2 ⟨hne, h⟩

theorem deleteFiles (h : Present cd s) {id : ID}
    (hc : s.calls[c]? = some (.deletingFiles id layer)) (hexclusive : Exclusive s)
    (hrace : s.calls.any (Pc.isCreating id) = false) (hcalls : s'.calls = s.calls.set c pc')
    (hstore : s'.store = (s.deleteFiles id ok okContent).store) (hpc : pc'.Stored s'.store) :
    Present cd s' := by
  have hgone : id ∉ s.store.images := h.stored c _ hc
  refine ⟨fun x content hx => ?_, fun x hx => ?_, fun x pc₁ hx => ?_⟩
  · rw [hstore, State.deleteFiles] at hx
    refine h.sound x content ?_
    by_cases hxid : x = id
    · subst hxid
      cases ok <;> cases okContent
      all_goals first
        | exact hx
        | exact absurd hx (by simp [State.withStore, Backend.deleteContent])
    · cases ok <;> cases okContent <;> first | exact hx | exact (lookup_erase_ne hxid).symm.trans hx
  · rw [hstore] at hx ⊢
    exact mem_deleteFiles (fun he => hgone (he ▸ hx)) (h.image x hx)
  · rw [State.calls_set hc hcalls] at hx
    split at hx
    · cases hx
      exact hpc
    · next hne =>
      have hold := h.stored x pc₁ hx
      cases pc₁ with
      | locking id' rootFS =>
        have hcreating := List.any_eq_false.1 hrace _ (List.mem_of_getElem? hx)
        rw [hstore]
        exact mem_deleteFiles (by simpa [Pc.isCreating] using hcreating) hold
      | gettingLayer id' rootFS => exact absurd (hexclusive.eq_of_locked hx rfl hc rfl) hne
      | deletingFiles id' layer' =>
        rw [hstore]
        exact hold
      | _ => exact trivial

theorem step (h : Present cd s) (howned : Owned cd s) (hstep : Step cd l s s')
    (hrace : noRace s l = true) :
    Present cd s' := by
  cases hstep with
  | start hpc => exact h.start hpc
  | returns hc _ | unlockLayer hc => exact h.quiet hc rfl (.refl _) trivial
  | set hc =>
    obtain ⟨img, hcheck⟩ := howned.knows _ _ hc
    exact h.set hcheck hc
  | @register c id rootFS hc hlock hmem hchain =>
    have hid : IsConfig cd id rootFS := howned.knows c _ hc
    rw [State.register, Store.register_of_valid hid.valid]
    refine h.insert hc (fun x pc _ hx => ?_) (h.stored c _ hc) rfl rfl rfl
    rw [← Bool.not_eq_true]
    intro hpc
    have hx' := howned.exclusive x pc hx hpc
    rw [hlock] at hx'
    cases hx'
  | @lock c pc pc' st hc hlock hst hlocks =>
    refine h.quiet hc rfl hst ?_
    cases hlocks with
    | @gettingLayer id rootFS hmem hchain =>
      have hid : (Pc.locking id rootFS).Stored s.store := h.stored c _ hc
      exact hid
    | _ => exact trivial
  | @getLayer c id rootFS hc =>
    have hid : IsConfig cd id rootFS ∧ _ := howned.knows c _ hc
    rw [State.register, Store.register_of_valid hid.1.valid]
    refine h.insert hc (fun x pc hne hx => ?_) (h.stored c _ hc) rfl rfl rfl
    rw [← Bool.not_eq_true]
    exact fun hpc => hne (howned.exclusive.eq_of_locked hx hpc hc rfl)
  | forget hc hst | unlockMetadata hc hst => exact h.quiet hc rfl hst trivial
  | @unlink c id layer children st st' hc hst hst' =>
    subst hst'
    refine h.goto hc rfl hst.content (fun x hx => ?_) fun hx => ?_
    · have hx : x ∈ st.images := (mem_erase.1 hx).2
      rwa [← Store.layerOf_isSome, hst.layerOf, Store.layerOf_isSome] at hx
    · exact (mem_erase.1 hx).1 rfl
  | @deleteFiles c id ok okContent hl hc | @deleteFilesLayer c id layer ok okContent hl hc =>
    subst hl
    refine h.deleteFiles hc howned.exclusive ?_ rfl rfl trivial
    simpa [noRace, hc] using hrace
  | release hc => exact h.goto hc rfl rfl (fun _ hid => hid) trivial

theorem of_reachable (h : Reachable (restrict (Docker.Image.step cd) noRace) {} s) :
    Present cd s := by
  have hboth : Owned cd s ∧ Present cd s := by
    refine h.inv (I := fun s => Owned cd s ∧ Present cd s) (fun hs hstep => ?_) ⟨.init, init⟩
    obtain ⟨hrace, hstep⟩ := restrict_eq_some.1 hstep
    exact ⟨hs.1.step (step_cases hstep), hs.2.step hs.1 (step_cases hstep) hrace⟩
  exact hboth.2

end Present

/-- If no `Delete` removes a config while `Create` for the image is between `fs.Set` and the lock,
every image can be read. -/
theorem get_of_noRace {cd : Codec} {s : State}
    (h : Reachable (restrict (step cd) noRace) {} s) {id : ID} (hid : id ∈ s.store.images) :
    (s.store.get cd id).isSome = true := by
  have hpresent := Present.of_reachable h
  obtain ⟨content, hc⟩ := Option.isSome_iff_exists.1 (lookup_isSome.2 (hpresent.image id hid))
  obtain ⟨hhash, r, hr⟩ := hpresent.sound id content hc
  rw [Store.get, Backend.get_eq_some.2 ⟨hc, hhash⟩, Option.bind_some, newFromJSON_of_checkConfig hr]
  rfl

/-- An image is created, deleted and created again. -/
def createDeleteCreate : List Label :=
  [.create [0], .set 0 true, .enterCreate 0, .delete (twoImages.fromBytes [0]), .enterDelete 1,
    .unlink 1 true,
    .deleteFiles 1 true true, .create [0], .set 2 true, .enterCreate 2]

theorem get_of_noRace_recreated : ∃ s,
    run (restrict (step twoImages) noRace) createDeleteCreate {} =
    some s ∧ twoImages.fromBytes [0] ∈ s.store.images ∧
      (s.store.get twoImages (twoImages.fromBytes [0])).isSome = true := by
  refine exists_run (fun s => twoImages.fromBytes [0] ∈ s.store.images) (by decide +kernel)
    fun s hs hid => ?_
  exact ⟨hid, get_of_noRace ⟨_, hs⟩ hid⟩

/-- The second `Create` writes the config before `Delete` removes it, and puts the image in
afterwards. -/
theorem image_without_config : (run (step twoImages)
    [.create [0], .set 0 true, .enterCreate 0, .create [0], .set 1 true,
      .delete (twoImages.fromBytes [0]), .enterDelete 2,
      .unlink 2 true, .deleteFiles 2 true true, .enterCreate 1] {}).map (fun s =>
        (s.quiescent, s.store.images.keys, s.store.get twoImages (twoImages.fromBytes [0]))) =
    some (true, [twoImages.fromBytes [0]], none) := by decide +kernel

end Docker.Image
