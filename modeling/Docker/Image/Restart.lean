import Docker.Image.Children

/-!
# Restarts after failed creations

`Create` writes the config before it asks for the layer, and leaves the file behind if there is no
such layer; `restore` takes every file for an image.
-/

namespace Docker.Image

open Store AList Transition
open Layer (ChainID)

structure Daemon where
  store : Store := {}
  layers : Finset ChainID := ∅

inductive Event where
  | call (op : Op)
  | register (chainID : ChainID)
  | unregister (chainID : ChainID)
  deriving DecidableEq

/-- Some image of the store holds a layer with this chain id. -/
def Store.uses (s : Store) (chainID : ChainID) : Bool :=
  s.images.entries.any fun e => e.2.layer.any fun l => l.chainID = chainID

namespace Daemon

def ls (d : Daemon) (chainID : ChainID) : Bool := chainID ∈ d.layers

/-- The layers of stored images are not removed. -/
def step (cd : Codec) : Event → Daemon → Option Daemon
  | .call op, d => (op.call cd d.ls d.store).map fun s => { d with store := s }
  | .register chainID, d => some { d with layers := insert chainID d.layers }
  | .unregister chainID, d =>
    if d.store.uses chainID then none else some { d with layers := d.layers.erase chainID }

def create (cd : Codec) (d : Daemon) (config : Content) : Except Error ID :=
  (d.store.create cd d.ls config).1

def newImageStore (cd : Codec) (d : Daemon) (ids iter : List ID) : Except Error Store :=
  d.store.newImageStore cd d.ls ids iter

end Daemon

/-! ## The layers of the images -/

namespace Store

variable {cd : Codec} {s : Store} {id c : ID}

def layerOf (s : Store) (id : ID) : Option (Option LayerRef) := (s.images.lookup id).map (·.layer)

theorem layerOf_isSome : (s.layerOf id).isSome ↔ id ∈ s.images := by
  rw [layerOf, Option.isSome_map, lookup_isSome]

theorem layerOf_eq_none : s.layerOf id = none ↔ id ∉ s.images := by
  rw [layerOf, Option.map_eq_none_iff, lookup_eq_none]

theorem uses_of_layerOf (h : s.layerOf id = some (some l)) : s.uses l.chainID = true := by
  rw [layerOf, Option.map_eq_some_iff] at h
  obtain ⟨m, hm, hl⟩ := h
  have hentry : ⟨id, m⟩ ∈ s.images.entries := mem_lookup_iff.1 hm
  exact List.any_eq_true.2 ⟨_, hentry, by simp [hl]⟩

theorem layerOf_modifyChildren : (s.modifyChildren id f).layerOf c = s.layerOf c := by
  rw [layerOf, layerOf, lookup_modifyChildren]
  split
  · next hc =>
    rw [hc, Option.map_map]
    rfl
  · rfl

theorem layerOf_leaveParent : (s.leaveParent cd id).layerOf c = s.layerOf c := by
  unfold leaveParent
  split
  · rfl
  · exact layerOf_modifyChildren

theorem layerOf_unlink : (s.unlink cd id).layerOf c = if c = id then none else s.layerOf c := by
  rw [layerOf, unlink_images]
  split
  · next hc => rw [hc, lookup_erase, Option.map_none]
  · next hc =>
    rw [lookup_erase_ne hc]
    exact layerOf_leaveParent

theorem layerOf_insert {s' : Store} (h : s'.images = s.images.insert id { layer := layer }) :
    s'.layerOf c = if c = id then some layer else s.layerOf c := by
  rw [layerOf, h]
  split
  · next hc => rw [hc, lookup_insert, Option.map_some]
  · next hc => rw [lookup_insert_ne hc, layerOf]

theorem layerOf_delete : (s.delete cd order id).2.layerOf c = if c = id then none
    else s.layerOf c := by
  rw [delete]
  cases h : s.images.lookup id with
  | none =>
    dsimp only
    split
    · next hc => rw [hc, layerOf, h, Option.map_none]
    · rfl
  | some m => exact layerOf_unlink

theorem content_delete : (s.delete cd order id).2.fs.content =
    if id ∈ s.images then s.fs.content.erase id else s.fs.content := by
  rw [delete]
  cases h : s.images.lookup id with
  | none => rw [if_neg (lookup_eq_none.1 h)]
  | some m =>
    rw [if_pos (lookup_isSome.1 (h ▸ rfl))]
    change AList.erase id ((s.forgetParents order).unlink cd id).fs.content = _
    rw [unlink_fs, content_forgetParents]

theorem layerOf_setParent : (s.setParent cd id p).2.layerOf c = s.layerOf c := by
  have hlayer : ((s.leaveParent cd id).modifyChildren p (insert id)).layerOf c = s.layerOf c :=
    layerOf_modifyChildren.trans layerOf_leaveParent
  unfold setParent
  split
  · dsimp only
    split
    · exact hlayer
    · exact hlayer
  · rfl

theorem content_setParent : (s.setParent cd id p).2.fs.content = s.fs.content := by
  unfold setParent
  split
  · have hfs : ((s.leaveParent cd id).modifyChildren p (insert id)).fs = s.fs := by simp
    dsimp only
    rw [Backend.setMetadata, hfs]
    split
    · next h =>
      split at h
      · rw [hfs]
      · cases h
    · next h =>
      split at h
      · cases h
      · cases h
        rfl
  · rfl

end Store

/-! ## Files without an image -/

/-- A config in the backend whose image is not in the store. -/
def Daemon.Stray (d : Daemon) (id : ID) : Prop := id ∈ d.store.fs.content ∧ id ∉ d.store.images

/-- A `Create` that fails because there is no such layer, after it has written the config. -/
def FailsAt (cd : Codec) (id : ID) (e : Event) (d : Daemon) : Prop :=
  ∃ config chainID, e = .call (.create config) ∧ cd.fromBytes config = id ∧
    d.create cd config = .error (.noLayer chainID)

def SucceedsAt (cd : Codec) (id : ID) (e : Event) (d : Daemon) : Prop :=
  ∃ config, e = .call (.create config) ∧ d.create cd config = .ok id

section
variable {cd : Codec} {d d' : Daemon} {id : ID} {e : Event}

theorem stray_create (config : Content) :
    Daemon.Stray { d with store := (d.store.create cd d.ls config).2 } id ↔
      FailsAt cd id (.call (.create config)) d ∨ d.Stray id ∧
        ¬ SucceedsAt cd id (.call (.create config)) d := by
  have hfails : FailsAt cd id (.call (.create config)) d ↔
      cd.fromBytes config = id ∧ ∃ chainID, (d.store.create cd d.ls config).1 =
        .error (.noLayer chainID) := by
    simp [FailsAt, Daemon.create]
  have hsucceeds : SucceedsAt cd id (.call (.create config)) d ↔
      (d.store.create cd d.ls config).1 = .ok id := by
    simp [SucceedsAt, Daemon.create]
  rw [hfails, hsucceeds, Daemon.Stray, Daemon.Stray]
  have hcreated := created cd d.ls d.store config
  generalize d.store.create cd d.ls config = r at hcreated
  cases hcreated with
  | rejected he => simp [he]
  | existing _ hmem =>
    have hne : id ∉ d.store.images → cd.fromBytes config ≠ id := fun hid he => hid (he ▸ hmem)
    simp only [stored, mem_insert, reduceCtorEq, exists_false, and_false, false_or, Except.ok.injEq]
    constructor
    · rintro ⟨rfl | hc, hid⟩
      · exact absurd hmem hid
      · exact ⟨⟨hc, hid⟩, hne hid⟩
    · exact fun h => ⟨.inr h.1.1, h.1.2⟩
  | registered _ hmem _ =>
    simp only [stored, mem_insert, reduceCtorEq, exists_false, and_false, false_or,
      Except.ok.injEq, not_or]
    constructor
    · rintro ⟨hc, hne, hid⟩
      exact ⟨⟨hc.resolve_left hne, hid⟩, Ne.symm hne⟩
    · exact fun h => ⟨.inr h.1.1, Ne.symm h.2, h.1.2⟩
  | failed _ hmem _ =>
    simp only [stored, mem_insert, Except.error.injEq, Error.noLayer.injEq, exists_eq', and_true,
      reduceCtorEq, not_false_eq_true]
    constructor
    · rintro ⟨hc, hid⟩
      exact hc.imp Eq.symm fun hc => ⟨hc, hid⟩
    · rintro (rfl | h)
      · exact ⟨.inl rfl, hmem⟩
      · exact ⟨.inr h.1, h.2⟩

/-- A failed creation leaves a stray file, and only a successful one makes it an image. -/
theorem stray_step (h : Daemon.step cd e d = some d') :
    d'.Stray id ↔ FailsAt cd id e d ∨ d.Stray id ∧ ¬ SucceedsAt cd id e d := by
  have hother : (∀ config, e ≠ .call (.create config)) →
      (FailsAt cd id e d ∨ d.Stray id ∧ ¬ SucceedsAt cd id e d ↔
      d.Stray id) := by
    intro hne
    simp [FailsAt, SucceedsAt, hne]
  cases e with
  | register chainID =>
    cases h
    exact (hother (by simp)).symm
  | unregister chainID =>
    rw [Daemon.step] at h
    split at h
    · cases h
    · cases h
      exact (hother (by simp)).symm
  | call op =>
    obtain ⟨s, hs, rfl⟩ := Option.map_eq_some_iff.1 h
    cases op with
    | create config =>
      cases hs
      exact stray_create config
    | setParent c p =>
      cases hs
      rw [hother (by simp), Daemon.Stray, Daemon.Stray, content_setParent, ← layerOf_eq_none,
        ← layerOf_eq_none, layerOf_setParent]
    | delete c order =>
      rw [hother (by simp)]
      rw [Op.call] at hs
      split at hs
      · cases hs
        rw [Daemon.Stray, Daemon.Stray, content_delete, ← layerOf_eq_none, ← layerOf_eq_none,
          layerOf_delete]
        by_cases hid : id = c
        · subst hid
          by_cases hmem : id ∈ d.store.images
          · simp [hmem, layerOf_eq_none, mem_erase]
          · simp [hmem, layerOf_eq_none]
        · split <;> simp [hid, mem_erase]
      · cases hs

end

/-! ## What the store keeps -/

/-- The images are in the backend, with their configs among `configs`, and their layers are
there. -/
structure Kept (cd : Codec) (configs : Set Content) (d : Daemon) : Prop where
  sound : ∀ id content, d.store.fs.content.lookup id = some content →
    cd.fromBytes content = id ∧ content ∈ configs ∧ ∃ r, checkConfig cd content = .ok r
  stored : ∀ id, id ∈ d.store.images → id ∈ d.store.fs.content
  layer : ∀ id l content r, d.store.layerOf id = some l → d.store.fs.content.lookup id =
    some content →
    checkConfig cd content = .ok r → l.map LayerRef.chainID = if r.2.chainID cd = "" then none
      else some (r.2.chainID cd)
  held : ∀ id l, d.store.layerOf id = some (some l) → l.chainID ∈ d.layers

namespace Kept

variable {cd : Codec} {configs : Set Content} {d d' : Daemon} {id : ID}

theorem init : Kept cd configs {} where
  sound id content h := by simp at h
  stored id h := absurd h (notMem_empty id)
  layer id l content r h := by simp [layerOf] at h
  held id l h := by simp [layerOf] at h

theorem restrict (h : Kept cd configs d) (hstored : ∀ id, id ∈ s.images → id ∈ s.fs.content)
    (hcontent : ∀ id content, s.fs.content.lookup id = some content →
      d.store.fs.content.lookup id = some content)
    (hlayer : ∀ id l, s.layerOf id = some l → d.store.layerOf id = some l) :
    Kept cd configs { d with store := s } where
  sound id content hc := h.sound id content (hcontent id content hc)
  stored := hstored
  layer id l content r hl hc := h.layer id l content r (hlayer id l hl) (hcontent id content hc)
  held id l hl := h.held id l (hlayer id _ hl)

theorem create (h : Kept cd configs d) (hinj : configs.InjOn cd.fromBytes)
    (hconfig : config ∈ configs) :
    Kept cd configs { d with store := (d.store.create cd d.ls config).2 } := by
  have hcreated := created cd d.ls d.store config
  generalize d.store.create cd d.ls config = r at hcreated
  have hsound : ∀ {r}, checkConfig cd config = .ok r → ∀ id content,
      (d.store.stored cd config).content.lookup id = some content →
      cd.fromBytes content = id ∧ content ∈ configs ∧ ∃ r, checkConfig cd content = .ok r := by
    intro r hr id content hc
    by_cases hid : id = cd.fromBytes config
    · rw [Store.stored, hid, lookup_insert] at hc
      cases hc
      exact ⟨hid.symm, hconfig, r, hr⟩
    · rw [Store.stored, lookup_insert_ne hid] at hc
      exact h.sound id content hc
  -- the config that is written again is the one that is there
  have hsame : ∀ {id content l}, d.store.layerOf id = some l →
      (d.store.stored cd config).content.lookup id = some content → d.store.fs.content.lookup id =
        some content := by
    intro id content l hl hc
    by_cases hid : id = cd.fromBytes config
    · have hmem := h.stored id (layerOf_isSome.1 (hl ▸ rfl))
      obtain ⟨content', hc'⟩ := Option.isSome_iff_exists.1 (lookup_isSome.2 hmem)
      obtain ⟨hhash, hin, -⟩ := h.sound id content' hc'
      rw [Store.stored, hid, lookup_insert] at hc
      cases hc
      rw [hc', hinj hin hconfig (hhash.trans hid)]
    · rwa [Store.stored, lookup_insert_ne hid] at hc
  have hstored : ∀ {id}, id ∈ d.store.images → id ∈ (d.store.stored cd config).content := fun hid =>
    (mem_insert _).2 (.inr (h.stored _ hid))
  cases hcreated with
  | rejected _ => exact h
  | existing hr _ | failed hr _ _ =>
    exact ⟨hsound hr, fun _ => hstored, fun id l content r hl hc =>
      h.layer id l content r hl (hsame hl hc), h.held⟩
  | @registered img rootFS layer got hr hmem hgets =>
    refine ⟨hsound hr, fun id hid => ?_, fun id l content r hl hc hr' => ?_, fun id l hl => ?_⟩
    · rcases (mem_insert _).1 hid with rfl | hid
      · exact (mem_insert _).2 (.inl rfl)
      · exact hstored hid
    · rw [layerOf_insert rfl] at hl
      split at hl
      · next hid =>
        cases hl
        rw [Store.stored, hid, lookup_insert] at hc
        cases hc
        rw [hr] at hr'
        cases hr'
        cases hgets with
        | empty hchain => simp [hchain]
        | layer hchain _ => simp [hchain]
      · exact h.layer id l content r hl (hsame hl hc) hr'
    · rw [layerOf_insert rfl] at hl
      split at hl
      · cases hgets with
        | empty hchain => cases hl
        | layer hchain hls =>
          cases hl
          exact of_decide_eq_true hls
      · exact h.held id l hl

theorem step (h : Kept cd configs d) (hinj : configs.InjOn cd.fromBytes)
    (he : ∀ config, e = .call (.create config) → config ∈ configs)
    (hstep : Daemon.step cd e d = some d') :
    Kept cd configs d' := by
  cases e with
  | register chainID =>
    cases hstep
    exact ⟨h.sound, h.stored, h.layer, fun id l hl => Finset.mem_insert_of_mem (h.held id l hl)⟩
  | unregister chainID =>
    rw [Daemon.step] at hstep
    split at hstep
    · cases hstep
    · next huses =>
      cases hstep
      refine ⟨h.sound, h.stored, h.layer, fun id l hl => Finset.mem_erase.2 ⟨?_, h.held id l hl⟩⟩
      rintro rfl
      exact huses (uses_of_layerOf hl)
  | call op =>
    obtain ⟨s, hs, rfl⟩ := Option.map_eq_some_iff.1 hstep
    cases op with
    | create config =>
      cases hs
      exact h.create hinj (he config rfl)
    | setParent c p =>
      cases hs
      refine h.restrict (fun id hid => ?_) (fun id content hc => ?_) fun id l hl => ?_
      · rw [← layerOf_isSome, layerOf_setParent, layerOf_isSome] at hid
        rw [content_setParent]
        exact h.stored id hid
      · rwa [content_setParent] at hc
      · rwa [layerOf_setParent] at hl
    | delete c order =>
      rw [Op.call] at hs
      split at hs
      · cases hs
        refine h.restrict (fun id hid => ?_) (fun id content hc => ?_) fun id l hl => ?_
        · rw [← layerOf_isSome, layerOf_delete] at hid
          split at hid
          · cases hid
          · next hne =>
            have hmem := h.stored id (layerOf_isSome.1 hid)
            rw [content_delete]
            split
            · exact (mem_erase).2 ⟨hne, hmem⟩
            · exact hmem
        · rw [content_delete] at hc
          split at hc
          · by_cases hid : id = c
            · rw [hid, lookup_erase] at hc
              cases hc
            · rwa [lookup_erase_ne hid] at hc
          · exact hc
        · rw [layerOf_delete] at hl
          split at hl
          · cases hl
          · exact hl
      · cases hs

theorem of_run (hinj : configs.InjOn cd.fromBytes)
    (hconfigs : ∀ config, .call (.create config) ∈ events → config ∈ configs)
    (hrun : run (Daemon.step cd) events {} = some d) : Kept cd configs d :=
  run_inv_of_mem
    (fun _ hl _ _ h hstep => h.step hinj (fun config he => hconfigs config (he ▸ hl))
      hstep) init hrun

theorem walk (h : Kept cd configs d) :
    id ∈ d.store.fs.walk ∧ (d.store.get cd id).isSome ↔ id ∈ d.store.fs.content := by
  refine mem_walk_iff fun content hc => ?_
  obtain ⟨hid, -, hr⟩ := h.sound id content hc
  exact ⟨hid, hr⟩

theorem hasLayer (h : Kept cd configs d) (hid : id ∈ d.store.images)
    (hr : d.store.get cd id = some r) : Store.HasLayer cd d.ls r.2 := by
  obtain ⟨l, hl⟩ := Option.isSome_iff_exists.1 (Store.layerOf_isSome.2 hid)
  rw [Store.get, Option.bind_eq_some_iff] at hr
  obtain ⟨content, hc, hjson⟩ := hr
  obtain ⟨hc, -⟩ := Backend.get_eq_some.1 hc
  obtain ⟨-, -, r', hr'⟩ := h.sound id content hc
  have hchain := h.layer id l content r' hl hc hr'
  rw [newFromJSON_of_checkConfig hr'] at hjson
  cases hjson
  by_cases hempty : r.2.chainID cd = ""
  · exact .inl hempty
  · rw [if_neg hempty, Option.map_eq_some_iff] at hchain
    obtain ⟨ref, rfl, href⟩ := hchain
    exact .inr (decide_eq_true (href ▸ h.held id ref hl))

/-- A restart finds the same images exactly when there are no stray files. -/
theorem newImageStore_iff (h : Kept cd configs d) (hids : ids.Perm d.store.fs.walk) :
    (∃ s', d.newImageStore cd ids iter = .ok s' ∧ ∀ id, id ∈ s'.images ↔ id ∈ d.store.images) ↔
      ∀ id, ¬ d.Stray id := by
  constructor
  · rintro ⟨s', hs', hmem⟩ id ⟨hc, hid⟩
    obtain ⟨s₁, hs₁, hnew⟩ := newImageStore_ok iter hids (newImageStore_layer hids hs')
    cases hs'.symm.trans hs₁
    exact hid ((hmem id).1 ((hnew.mem id).2 (h.walk.2 hc)))
  · intro hstray
    have himage : ∀ id, id ∈ d.store.fs.content → id ∈ d.store.images := fun id hc => by
      by_contra hid
      exact hstray id ⟨hc, hid⟩
    have hlayer : ∀ id ∈ d.store.fs.walk, ∀ r, d.store.get cd id = some r → HasLayer cd d.ls r.2 :=
      fun id hid r hr => h.hasLayer (himage id (List.mem_filter.1 hid).1) hr
    obtain ⟨s', hs', hnew⟩ := newImageStore_ok iter hids hlayer
    exact ⟨s', hs', fun id => (hnew.mem id).trans (h.walk.trans ⟨himage id, h.stored id⟩)⟩

end Kept

/-- A restart finds exactly the images of the store if and only if each `Create` that failed because
there was no such layer was followed by one that returned the same id. -/
theorem newImageStore_iff_retried {cd : Codec} {events : List Event} {d : Daemon}
    (hrun : run (Daemon.step cd) events {} = some d)
    (hinj : {config | .call (.create config) ∈ events}.InjOn cd.fromBytes) {ids iter : List ID}
    (hids : ids.Perm d.store.fs.walk) :
    (∃ s', d.newImageStore cd ids iter = .ok s' ∧ ∀ id, id ∈ s'.images ↔ id ∈ d.store.images) ↔
      ∀ pre config post t chainID, events = pre ++ .call (.create config) :: post →
        run (Daemon.step cd) pre {} = some t → t.create cd config = .error (.noLayer chainID) →
        ∃ mid config' post' t', post = mid ++ .call (.create config') :: post' ∧
          run (Daemon.step cd) (pre ++ .call (.create config) :: mid) {} = some t' ∧
          t'.create cd config' = .ok (cd.fromBytes config) := by
  have hkept := Kept.of_run hinj (fun _ h => h) hrun
  have hlatch := fun id => run_latch (P := fun d => d.Stray id)
    (fun h => notMem_empty id h.1) (fun hstep => stray_step hstep) hrun
  rw [hkept.newImageStore_iff hids]
  constructor
  · rintro hstray pre config post t chainID rfl ht hfail
    by_contra hno
    refine hstray (cd.fromBytes config)
      ((hlatch _).2 ⟨pre, _, post, t, rfl, ht, ⟨config, chainID, rfl, rfl, hfail⟩, ?_⟩)
    rintro mid _ post' t' hpost ht' ⟨config', rfl, hok⟩
    exact hno ⟨mid, config', post', t', hpost, ht', hok⟩
  · intro hretried id hstray
    obtain ⟨pre, _, post, t, hevents, ht, ⟨config, chainID, rfl, rfl, hfail⟩, hnever⟩ :=
      (hlatch id).1 hstray
    obtain ⟨mid, config', post', t', hpost, ht', hok⟩ :=
      hretried pre config post t chainID hevents ht hfail
    exact hnever mid _ post' t' hpost ht' ⟨config', rfl, hok⟩

/-- The chain id of the one layer of `oneLayer`. -/
def layerID : ChainID := "sha256:".append (String.ofList (List.replicate 64 'a'))

/-- All configs are for one image, with one layer. -/
def oneLayer : Codec where
  fromBytes _ := "sha256:".append (String.ofList (List.replicate 64 '0'))
  unmarshal _ := some { rootFS := some { diffIDs := [layerID] }, history := [] }
  valid _ := twoImages.valid []

/-- The layer is registered after a creation has failed, and the image is created again. -/
theorem newImageStore_iff_retried_layer : ∃ d, Transition.run (Daemon.step oneLayer)
      [.call (.create [0]), .register layerID, .call (.create [0])] {} = some d ∧
    ∃ s', d.newImageStore oneLayer d.store.fs.walk d.store.fs.walk = .ok s' ∧
      ∀ id, id ∈ s'.images ↔ id ∈ d.store.images := by
  have hretry : (Transition.run (Daemon.step oneLayer)
      [.call (.create [0]), .register layerID] {}).map
      (fun t => t.create oneLayer [0]) = some (.ok (oneLayer.fromBytes [0])) := by decide +kernel
  obtain ⟨t', ht', hok⟩ := Option.map_eq_some_iff.1 hretry
  refine Transition.exists_run (fun _ => True) (by decide +kernel) fun d hd _ => ?_
  refine (newImageStore_iff_retried hd (fun c hc c' hc' _ => ?_) (.refl _)).2 ?_
  · simp only [List.mem_cons, Set.mem_ofPred_eq, Event.call.injEq, Op.create.injEq, reduceCtorEq,
      List.not_mem_nil, or_false,
      false_or, or_self] at hc hc'
    rw [hc, hc']
  · rintro (_ | ⟨a, _ | ⟨b, _ | ⟨c, pre⟩⟩⟩) config post t chainID hevents ht hfail
    · cases hevents
      exact ⟨[.register layerID], [0], [], t', rfl, ht', hok⟩
    · simp at hevents
    · cases hevents
      rw [ht'] at ht
      cases ht
      rw [hok] at hfail
      cases hfail
    · simp at hevents

/-- After one creation that failed, `NewImageStore` fails. -/
theorem newImageStore_fails_after_create :
    (run (Daemon.step oneLayer) [.call (.create [0])] {}).map (fun d =>
      (d.store.images.keys,
        (d.newImageStore oneLayer d.store.fs.walk d.store.fs.walk).toOption.isSome)) =
      some ([], false) := by decide +kernel

end Docker.Image
