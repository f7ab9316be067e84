import Docker.Image.Restart

/-!
# Concurrent calls of the image store

`Create`, `Delete` and `SetParent` as they interleave. A step is a section under the lock of the
store or of the backend, up to the next call of the backend or of the layer store, any of which can
fail. Calls are numbered in the order they start.
-/

namespace Docker.Image

open List

inductive Pc where
  /-- `Create` has checked the config and is about to call `fs.Set`. -/
  | setting (config : Content) (rootFS : RootFS)
  /-- `Create` has written the config and is about to lock. -/
  | locking (id : ID) (rootFS : RootFS)
  /-- `Create` holds the lock and is about to call `ls.Get`. -/
  | gettingLayer (id : ID) (rootFS : RootFS)
  /-- `Delete`, about to lock. -/
  | deleting (id : ID)
  /-- `Delete` holds the lock; the children whose parent is still to be forgotten. -/
  | forgetting (id : ID) (layer : Option LayerRef) (children : Finset ID)
  /-- `Delete` has removed the image from the map. -/
  | deletingFiles (id : ID) (layer : Option LayerRef)
  | releasing (layer : LayerRef)
  /-- `SetParent`, about to lock. -/
  | settingParent (id parent : ID)
  | settingMetadata (id parent : ID)
  | returned (result : Except Error (Option ID))
  deriving DecidableEq

def Pc.locked : Pc → Bool
  | .gettingLayer .. | .forgetting .. | .deletingFiles .. | .releasing .. | .settingMetadata .. =>
    true
  | _ => false

def Pc.isReturned : Pc → Bool
  | .returned _ => true
  | _ => false

structure State where
  store : Store := {}
  lock : Option Nat := none
  calls : List Pc := []

def State.quiescent (s : State) : Bool := s.calls.all Pc.isReturned

inductive Label where
  | create (config : Content)
  | delete (id : ID)
  | setParent (id parent : ID)
  | set (c : Nat) (ok : Bool)
  | enterCreate (c : Nat)
  | getLayer (c : Nat) (ok : Bool)
  | enterDelete (c : Nat)
  | forgetParent (c : Nat) (child : ID) (ok : Bool)
  | unlink (c : Nat) (ok : Bool)
  /-- `os.RemoveAll` for the metadata and `os.Remove` for the content. -/
  | deleteFiles (c : Nat) (ok okContent : Bool)
  | release (c : Nat) (ok : Bool)
  | enterSetParent (c : Nat) (ok : Bool)
  | setMetadata (c : Nat) (ok : Bool)
  deriving DecidableEq

namespace State

variable (s : State)

def start (pc : Pc) : State := { s with calls := s.calls ++ [pc] }

def goto (c : Nat) (pc : Pc) : State := { s with calls := s.calls.set c pc }

def withStore (st : Store) : State := { s with store := st }

def take (c : Nat) : State := { s with lock := some c }

def unlock : State := { s with lock := none }

def register (c : Nat) (id : ID) (layer : Option LayerRef) : State :=
  (s.withStore (s.store.register id layer).2).goto c
    (.returned ((s.store.register id layer).1.map some))

/-- The files that `fs.Delete` removes before it fails. -/
def deleteFiles (id : ID) (ok okContent : Bool) : State :=
  let fs := if ok then s.store.fs.deleteAllMetadata id else s.store.fs
  s.withStore { s.store with fs := if ok && okContent then fs.deleteContent id else fs }

end State

variable (cd : Codec)

def step : Label → State → Option State
  | .create config, s =>
    match checkConfig cd config with
    | .error e => some (s.start (.returned (.error e)))
    | .ok (_, rootFS) => some (s.start (.setting config rootFS))
  | .delete id, s => some (s.start (.deleting id))
  | .setParent id parent, s => some (s.start (.settingParent id parent))
  | .set c ok, s =>
    match s.calls[c]? with
    | some (.setting config rootFS) =>
      match if ok then s.store.fs.set cd config else .error .io with
      | .error e => some (s.goto c (.returned (.error e)))
      | .ok (id, fs) => some ((s.withStore { s.store with fs := fs }).goto c (.locking id rootFS))
    | _ => none
  | .enterCreate c, s =>
    match s.calls[c]?, s.lock with
    | some (.locking id rootFS), none =>
      if id ∈ s.store.images then some (s.goto c (.returned (.ok (some id))))
      else if rootFS.chainID cd = "" then some (s.register c id none)
      else some ((s.take c).goto c (.gettingLayer id rootFS))
    | _, _ => none
  | .getLayer c ok, s =>
    match s.calls[c]? with
    | some (.gettingLayer id rootFS) =>
      if ok then
        let (l, st) := s.store.newRef (rootFS.chainID cd)
        some ((s.withStore st).unlock.register c id l)
      else some (s.unlock.goto c (.returned (.error (.noLayer (rootFS.chainID cd)))))
    | _ => none
  | .enterDelete c, s =>
    match s.calls[c]?, s.lock with
    | some (.deleting id), none =>
      match s.store.images.lookup id with
      | none => some (s.goto c (.returned (.error (.unrecognizedImage id))))
      | some m => some ((s.take c).goto c (.forgetting id m.layer m.children))
    | _, _ => none
  | .forgetParent c child ok, s =>
    match s.calls[c]? with
    | some (.forgetting id layer children) =>
      if child ∈ children then
        let fs := if ok then s.store.fs.deleteMetadata child "parent" else s.store.fs
        some ((s.withStore { s.store with fs := fs }).goto c
          (.forgetting id layer (children.erase child)))
      else none
    | _ => none
  | .unlink c ok, s =>
    match s.calls[c]? with
    | some (.forgetting id layer children) =>
      if children = ∅ then
        -- without the parent if it cannot be read
        let st := if ok then s.store.unlink cd id else s.store.removeImage id
        some ((s.withStore st).goto c (.deletingFiles id layer))
      else none
    | _ => none
  | .deleteFiles c ok okContent, s =>
    match s.calls[c]? with
    | some (.deletingFiles id layer) =>
      match layer with
      | none => some ((s.deleteFiles id ok okContent).unlock.goto c (.returned (.ok none)))
      | some l => some ((s.deleteFiles id ok okContent).goto c (.releasing l))
    | _ => none
  | .release c ok, s =>
    match s.calls[c]? with
    | some (.releasing l) =>
      some ((s.withStore (s.store.release l)).unlock.goto c
        (.returned (if ok then .ok none else .error .io)))
    | _ => none
  | .enterSetParent c ok, s =>
    match s.calls[c]?, s.lock with
    | some (.settingParent id parent), none =>
      if parent ∈ s.store.images then
        let st := if ok then s.store.leaveParent cd id else s.store
        some (((s.withStore (st.modifyChildren parent (insert id))).take c).goto c
          (.settingMetadata id parent))
      else some (s.goto c (.returned (.error (.unknownParent parent))))
    | _, _ => none
  | .setMetadata c ok, s =>
    match s.calls[c]? with
    | some (.settingMetadata id parent) =>
      match if ok then s.store.fs.setMetadata cd id "parent" parent else .error .io with
      | .error e => some (s.unlock.goto c (.returned (.error e)))
      | .ok fs =>
        some ((s.withStore { s.store with fs := fs }).unlock.goto c (.returned (.ok none)))
    | _ => none

/-! ## What a step can do -/

/-- Only children, metadata and the set of digests differ. -/
structure Store.Quiet (st st' : Store) : Prop where
  layerOf : ∀ id, st'.layerOf id = st.layerOf id
  content : st'.fs.content = st.fs.content
  got : st'.got = st.got
  released : st'.released = st.released

inductive Pc.Starts : Pc → Prop
  | returned (r : Except Error (Option ID)) : Starts (.returned r)
  | setting {config : Content} {img : Image} {rootFS : RootFS}
    (h : checkConfig cd config = .ok (img, rootFS)) :
    Starts (.setting config rootFS)
  | deleting (id : ID) : Starts (.deleting id)
  | settingParent (id parent : ID) : Starts (.settingParent id parent)

/-- How a call goes on when it has taken the lock and keeps it. -/
inductive Pc.Locks (st : Store) : Pc → Pc → Prop
  | gettingLayer {id : ID} {rootFS : RootFS} (hmem : id ∉ st.images)
    (hchain : rootFS.chainID cd ≠ "") :
    Locks st (.locking id rootFS) (.gettingLayer id rootFS)
  | forgetting {id : ID} {m : ImageMeta} (hm : st.images.lookup id = some m) :
    Locks st (.deleting id) (.forgetting id m.layer m.children)
  | settingMetadata {id parent : ID} : Locks st (.settingParent id parent)
    (.settingMetadata id parent)

inductive Step (l : Label) (s : State) : State → Prop
  | start {pc : Pc} (h : pc.Starts cd) : Step l s (s.start pc)
  | returns {c : Nat} {pc : Pc} {r : Except Error (Option ID)} (hc : s.calls[c]? = some pc)
    (hpc : pc.locked = false) :
    Step l s (s.goto c (.returned r))
  | set {c : Nat} {config : Content} {rootFS : RootFS}
    (hc : s.calls[c]? = some (.setting config rootFS)) :
    Step l s ((s.withStore { s.store with fs := s.store.stored cd config }).goto c
      (.locking (cd.fromBytes config) rootFS))
  | register {c : Nat} {id : ID} {rootFS : RootFS} (hc : s.calls[c]? = some (.locking id rootFS))
    (hlock : s.lock = none) (hmem : id ∉ s.store.images) (hchain : rootFS.chainID cd = "") :
    Step l s (s.register c id none)
  | lock {c : Nat} {pc pc' : Pc} {st : Store} (hc : s.calls[c]? = some pc) (hlock : s.lock = none)
    (hst : s.store.Quiet st) (h : Pc.Locks cd s.store pc pc') :
      Step l s (((s.withStore st).take c).goto c pc')
  | getLayer {c : Nat} {id : ID} {rootFS : RootFS}
    (hc : s.calls[c]? = some (.gettingLayer id rootFS)) :
    Step l s ((s.withStore { s.store with got := s.store.got + 1 }).unlock.register c id
      (some ⟨rootFS.chainID cd, s.store.got⟩))
  | forget {c : Nat} {id : ID} {layer : Option LayerRef}
    {children children' : Finset ID} {st : Store}
    (hc : s.calls[c]? = some (.forgetting id layer children)) (hst : s.store.Quiet st) :
    Step l s ((s.withStore st).goto c (.forgetting id layer children'))
  | unlink {c : Nat} {id : ID} {layer : Option LayerRef} {children : Finset ID} {st st' : Store}
    (hc : s.calls[c]? = some (.forgetting id layer children)) (hst : s.store.Quiet st)
      (hst' : st' = st.removeImage id) :
    Step l s ((s.withStore st').goto c (.deletingFiles id layer))
  | deleteFiles {c : Nat} {id : ID} {ok okContent : Bool} (hl : l = .deleteFiles c ok okContent)
    (hc : s.calls[c]? = some (.deletingFiles id none)) :
    Step l s ((s.deleteFiles id ok okContent).unlock.goto c (.returned (.ok none)))
  | deleteFilesLayer {c : Nat} {id : ID} {layer : LayerRef} {ok okContent : Bool}
    (hl : l = .deleteFiles c ok okContent)
    (hc : s.calls[c]? = some (.deletingFiles id (some layer))) :
    Step l s ((s.deleteFiles id ok okContent).goto c (.releasing layer))
  | release {c : Nat} {layer : LayerRef} {r : Except Error (Option ID)}
    (hc : s.calls[c]? = some (.releasing layer)) :
    Step l s ((s.withStore (s.store.release layer)).unlock.goto c (.returned r))
  | unlockLayer {c : Nat} {id : ID} {rootFS : RootFS} {r : Except Error (Option ID)}
    (hc : s.calls[c]? = some (.gettingLayer id rootFS)) : Step l s (s.unlock.goto c (.returned r))
  | unlockMetadata {c : Nat} {id parent : ID} {st : Store} {r : Except Error (Option ID)}
    (hc : s.calls[c]? = some (.settingMetadata id parent)) (hst : s.store.Quiet st) :
    Step l s ((s.withStore st).unlock.goto c (.returned r))

variable {cd : Codec}

namespace State

variable {s : State} {c : Nat} {pc pc₀ : Pc} {P : Nat → Pc → Prop}

theorem calls_goto (hc : s.calls[c]? = some pc₀) (x : Nat) :
    (s.goto c pc).calls[x]? = if x = c then some pc else s.calls[x]? := by
  obtain ⟨hlt, -⟩ := List.getElem?_eq_some_iff.1 hc
  rw [goto, getElem?_set]
  by_cases hx : x = c
  · subst hx
    rw [if_pos rfl, if_pos hlt, if_pos rfl]
  · rw [if_neg (Ne.symm hx), if_neg hx]

theorem forall_goto (hc : s.calls[c]? = some pc₀)
    (h : ∀ x pc, x ≠ c → s.calls[x]? = some pc → P x pc) (hpc : P c pc) :
    ∀ x pc', (s.goto c pc).calls[x]? = some pc' → P x pc' := by
  intro x pc' hx
  rw [calls_goto hc] at hx
  split at hx
  · next he =>
    cases hx
    exact he ▸ hpc
  · next he => exact h x pc' he hx

theorem calls_start (x : Nat) : (s.start pc).calls[x]? = if x = s.calls.length then some pc
    else s.calls[x]? := by
  rw [start]
  by_cases hx : x = s.calls.length
  · subst hx
    rw [if_pos rfl, getElem?_concat_length]
  · rw [if_neg hx]
    rcases Nat.lt_or_gt_of_ne hx with hlt | hgt
    · rw [getElem?_append_left hlt]
    · rw [getElem?_eq_none (by simp; omega), getElem?_eq_none (by omega)]

theorem forall_start (h : ∀ x pc, s.calls[x]? = some pc → P x pc) (hpc : P s.calls.length pc) :
    ∀ x pc', (s.start pc).calls[x]? = some pc' → P x pc' := by
  intro x pc' hx
  rw [calls_start] at hx
  split at hx
  · next he =>
    cases hx
    exact he ▸ hpc
  · exact h x pc' hx

end State

namespace Store.Quiet

variable {st : Store} {id : ID}

theorem refl (st : Store) : st.Quiet st := ⟨fun _ => rfl, rfl, rfl, rfl⟩

theorem metadata {fs : Backend} (h : fs.content = st.fs.content) : st.Quiet { st with fs := fs } :=
  ⟨fun _ => rfl, h, rfl, rfl⟩

theorem trans (h : st.Quiet st') (h' : st'.Quiet st'') : st.Quiet st'' where
  layerOf id := (h'.layerOf id).trans (h.layerOf id)
  content := h'.content.trans h.content
  got := h'.got.trans h.got
  released := h'.released.trans h.released

theorem modifyChildren (st : Store) (id : ID) (f : Finset ID → Finset ID) :
    st.Quiet (st.modifyChildren id f) where
  layerOf _ := layerOf_modifyChildren
  content := by rw [modifyChildren_fs]
  got := by
    unfold Store.modifyChildren
    split <;> rfl
  released := by
    unfold Store.modifyChildren
    split <;> rfl

theorem leaveParent (cd : Codec) (st : Store) (id : ID) : st.Quiet (st.leaveParent cd id) := by
  unfold Store.leaveParent
  split
  · exact refl st
  · exact modifyChildren st _ _

end Store.Quiet

theorem step_cases (h : step cd l s = some s') : Step cd l s s' := by
  cases l with
  | create config =>
    simp only [step] at h
    split at h
    · cases h
      exact .start (.returned _)
    · next hcheck =>
      cases h
      exact .start (.setting hcheck)
  | delete id =>
    cases h
    exact .start (.deleting id)
  | setParent id parent =>
    cases h
    exact .start (.settingParent id parent)
  | set c ok =>
    simp only [step] at h
    split at h
    · next config rootFS hc =>
      split at h
      · cases h
        exact .returns hc rfl
      · next id fs hset =>
        cases h
        split at hset
        · rw [Backend.set] at hset
          split at hset
          · cases hset
          · cases hset
            exact .set hc
        · cases hset
    · cases h
  | enterCreate c =>
    simp only [step] at h
    split at h
    · next id rootFS hc hlock =>
      split at h
      · cases h
        exact .returns hc rfl
      · next hmem =>
        split at h
        · next hchain =>
          cases h
          exact .register hc hlock hmem hchain
        · next hchain =>
          cases h
          exact .lock hc hlock (.refl _) (.gettingLayer hmem hchain)
    · cases h
  | getLayer c ok =>
    simp only [step] at h
    split at h
    · next id rootFS hc =>
      split at h
      · cases h
        exact .getLayer hc
      · cases h
        exact .unlockLayer hc
    · cases h
  | enterDelete c =>
    simp only [step] at h
    split at h
    · next id hc hlock =>
      split at h
      · cases h
        exact .returns hc rfl
      · next m hm =>
        cases h
        exact .lock hc hlock (.refl _) (.forgetting hm)
    · cases h
  | forgetParent c child ok =>
    simp only [step] at h
    split at h
    · next id layer children hc =>
      split at h
      · cases h
        refine .forget hc (.metadata ?_)
        split <;> rfl
      · cases h
    · cases h
  | unlink c ok =>
    simp only [step] at h
    split at h
    · next id layer children hc =>
      split at h
      · cases h
        split
        · exact .unlink hc (.leaveParent cd s.store id) rfl
        · exact .unlink hc (.refl _) rfl
      · cases h
    · cases h
  | deleteFiles c ok okContent =>
    simp only [step] at h
    split at h
    · next id layer hc =>
      split at h
      · cases h
        exact .deleteFiles rfl hc
      · cases h
        exact .deleteFilesLayer rfl hc
    · cases h
  | release c ok =>
    simp only [step] at h
    split at h
    · next layer hc =>
      cases h
      exact .release hc
    · cases h
  | enterSetParent c ok =>
    simp only [step] at h
    split at h
    · next id parent hc hlock =>
      split at h
      · cases h
        refine .lock hc hlock ?_ .settingMetadata
        split
        · exact (Store.Quiet.leaveParent cd s.store id).trans (.modifyChildren _ _ _)
        · exact .modifyChildren _ _ _
      · cases h
        exact .returns hc rfl
    · cases h
  | setMetadata c ok =>
    simp only [step] at h
    split at h
    · next id parent hc =>
      split at h
      · cases h
        exact .unlockMetadata hc (.refl _)
      · next fs hfs =>
        cases h
        refine .unlockMetadata hc (.metadata ?_)
        split at hfs
        · rw [Backend.setMetadata] at hfs
          split at hfs
          · cases hfs
          · cases hfs
            rfl
        · cases hfs
    · cases h

/-! ## The lock -/

/-- Only the call that has the lock is between locking and unlocking. -/
def Exclusive (s : State) : Prop :=
  ∀ c pc, s.calls[c]? = some pc → pc.locked = true → s.lock = some c

namespace Exclusive

variable {s s' : State} {c : Nat} {pc : Pc} {l : Label}

theorem eq_of_locked (h : Exclusive s) (hc : s.calls[c]? = some pc) (hpc : pc.locked = true)
    (hc' : s.calls[c']? = some pc') (hpc' : pc'.locked = true) : c = c' :=
  Option.some.inj ((h c pc hc hpc).symm.trans (h c' pc' hc' hpc'))

theorem unlock (h : Exclusive s) (hc : s.calls[c]? = some pc) (hpc : pc.locked = true) (st : Store)
    (r : Except Error (Option ID)) : Exclusive ((s.withStore st).unlock.goto c (.returned r)) :=
  State.forall_goto hc
    (fun x pc' hne hx hpc' => absurd (h.eq_of_locked hx hpc' hc hpc) hne) (fun hr => by cases hr)

theorem goto (h : Exclusive s) (hc : s.calls[c]? = some pc)
    (hpc : pc'.locked = true → pc.locked = true)
    (st : Store) : Exclusive ((s.withStore st).goto c pc') :=
  State.forall_goto hc
    (fun x pc _ hx => h x pc hx) fun hpc' => h c pc hc (hpc hpc')

theorem step (h : Exclusive s) (hstep : Step cd l s s') : Exclusive s' := by
  cases hstep with
  | start hpc =>
    refine State.forall_start h fun hlocked => ?_
    cases hpc <;> cases hlocked
  | returns hc _ => exact h.goto hc (fun hpc => by cases hpc) s.store
  | set hc | register hc _ _ _ => exact h.goto hc (fun hpc => by cases hpc) _
  | @lock c pc pc' st hc hlock _ _ =>
    refine State.forall_goto hc
      (fun x pc' _ hx hpc' => ?_) fun _ => rfl
    have hx' := h x pc' hx hpc'
    rw [hlock] at hx'
    cases hx'
  | getLayer hc | deleteFiles _ hc | release hc | unlockMetadata hc _ => exact h.unlock hc rfl _ _
  | forget hc _ | unlink hc _ _ | deleteFilesLayer _ hc => exact h.goto hc (fun _ => rfl) _
  | unlockLayer hc => exact h.unlock hc rfl s.store _

end Exclusive

end Docker.Image
