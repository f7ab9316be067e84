import Docker.Distribution.LayerDescriptor
import Docker.Image.Store
import Docker.Reference.Reload
import Docker.Xfer.Download

/-!
# Pulling an image with a schema 2 manifest

`pullSchema2` and `receiveConfig` in `distribution/pull_v2.go`, in the Unix build, and what they
reach in `image/store.go`, `image/fs.go` and `V2MetadataService`. A function returns, fails with an
error, or ends with a panic.

The image store can change while the layers are downloaded. The deferred release of the layers is
left out.
-/

set_option mvcgen.warning false

namespace Docker.Distribution.Schema2

open Blob (Bytes newDigestVerifier)
open Layer (ChainID DiffID validateDigest)
open Reference (Named)
open Std.Do Image
open Xfer.Download (Answer Descriptor)

inductive Panic
  /-- `could not find ':' in digest` -/
  | noSeparator (digest : String)
  /-- The DiffIDs of a nil `RootFS`. -/
  | nilRootFS
  | indexOutOfRange
  deriving DecidableEq

inductive Error
  /-- An error of `NewDigestVerifier`. -/
  | digest (err : Blob.Error)
  /-- `manifest verification failed for digest %s` -/
  | manifestVerification (digest : String)
  /-- `image config verification failed for digest %s` -/
  | configVerification (digest : String)
  /-- An error of the registry for the config. -/
  | blob (msg : String)
  /-- `ImageConfigPullError` -/
  | imageConfigPull (err : Error)
  | download (err : Xfer.Download.Error)
  /-- An error of `json.Unmarshal`. -/
  | invalidConfig
  /-- `layers from manifest don't match image configuration` -/
  | rootFSMismatch
  | store (err : Image.Error)
  deriving DecidableEq

/-- How a function ends that does not return a value. -/
inductive Fault
  | panic (p : Panic)
  | error (err : Error)
  deriving DecidableEq

def Fault.isPanic : Fault → Bool
  | .panic _ => true
  | .error _ => false

def panicOf {σ α : Type} : EStateM.Result Fault σ α → Option Panic
  | .error (.panic p) _ => some p
  | _ => none

/-! ## Digests -/

def sepIndex (d : String) : Except Panic Nat :=
  match d.toList.idxOf? ':' with
  | some i => .ok i
  | none => .error (.noSeparator d)

/-- `Digest.Algorithm` and `Digest.Hex`. -/
def split (d : String) : Except Panic (String × String) :=
  (sepIndex d).map fun i => (String.ofList (d.toList.take i), String.ofList (d.toList.drop (i + 1)))

def contentFile (id : ID) : Except Panic (List String) :=
  (split id).map fun (algorithm, hex) => ["content", algorithm, hex]

def digestKey (d : String) : Except Panic String :=
  (split d).map fun (algorithm, hex) => algorithm ++ "/" ++ hex

/-- The descriptor of a layer, by its `Key`. -/
def descriptor (d : String) : Descriptor := ⟨"v2:" ++ d⟩

/-- The digest of a layer, from the `Key` of its descriptor. -/
def digest (desc : Descriptor) : String := String.ofList (desc.key.toList.drop 3)

@[simp] theorem digest_descriptor (d : String) : digest (descriptor d) = d := by
  simp [digest, descriptor]

theorem split_of_mem (h : ':' ∈ d.toList) : ∃ r, split d = .ok r := by
  obtain ⟨i, hi⟩ := Option.isSome_iff_exists.1 (List.isSome_idxOf?.2 h)
  simp [split, sepIndex, hi, Except.map]

theorem contentFile_of_mem {id : ID} (h : ':' ∈ id.toList) : ∃ path, contentFile id = .ok path := by
  obtain ⟨r, hr⟩ := split_of_mem h
  exact ⟨_, by rw [contentFile, hr]; rfl⟩

theorem digestKey_of_mem (h : ':' ∈ d.toList) : ∃ key, digestKey d = .ok key := by
  obtain ⟨r, hr⟩ := split_of_mem h
  exact ⟨_, by rw [digestKey, hr]; rfl⟩

theorem mem_of_validateDigest (h : validateDigest d = true) : ':' ∈ d.toList := by
  obtain ⟨a, hex, hd, -⟩ := Layer.toList_of_validateDigest h
  simp [hd]

/-- However often a download failed and was resumed, what it ends with has the digest, which has a
key. -/
theorem content_of_downloadLoop (hw : ∀ i, (rounds i).attempt.FilesWork)
    (h : Blob.downloadLoop sum rounds (Blob.maxDownloadAttempts - 1) { digest := d } =
      .ok (f, size) ld) :
    Blob.newDigest sum (Layer.algorithm d) f.content = d ∧ f.pos = 0 ∧ ∃ key,
      digestKey d = .ok key := by
  have hf := Blob.downloadLoop_verified hw h
  exact ⟨hf.content, hf.pos, digestKey_of_mem (mem_of_validateDigest hf.valid)⟩

open Blob in
theorem content_of_downloadLoop_resumed : ∃ rounds ld,
    downloadLoop exampleSum rounds 4 { digest := exampleDigest } = .ok (⟨[1, 2, 3], 0⟩, 3) ld ∧
      ∃ key, digestKey exampleDigest = .ok key := by
  let rounds (left : Nat) : Round := { attempt := if left = 4 then interrupted else resumed }
  have hw : ∀ i, (rounds i).attempt.FilesWork := fun i => by
    dsimp only [rounds]
    split <;> simp [interrupted, resumed, Attempt.FilesWork]
  have h : downloadLoop exampleSum rounds 4 { digest := exampleDigest } =
      .ok (⟨[1, 2, 3], 0⟩, 3) _ :=
    rfl
  exact ⟨rounds, _, h, (content_of_downloadLoop hw h).2.2⟩

/-! ## What a pull meets -/

structure Manifest where
  /-- The digest of the config. -/
  config : String
  /-- The digests of the layers, the bottom one first. -/
  layers : List String
  canonical : Content

/-- The image store, and all that the layer store, the transfer manager and the metadata service
depend on. -/
structure State (σ : Type) where
  images : Image.Store
  world : σ

structure Env (σ : Type) where
  /-- What `Download` meets; the image store can change meanwhile. -/
  answer : (op : Xfer.Download.Op) → State σ → Answer op × State σ
  /-- `blobs.Get` for the config. -/
  config : Except String Content
  /-- Whether an error for the config is there when `Download` fails. -/
  configErrFirst : Bool
  /-- The layers that `ls.Get` finds when the image is created. -/
  layers : ChainID → Bool

abbrev M (σ : Type) := EStateM Fault (State σ)

section
variable {σ α : Type}

def orPanic : Except Panic α → M σ α
  | .ok a => return a
  | .error p => throw (.panic p)

def orFail : Except Error α → M σ α
  | .ok a => return a
  | .error e => throw (.error e)

/-- `DiffID` looks its digest up in the metadata store. -/
def enter : Xfer.Download.Op → M σ Unit
  | .diffID desc => do
    let _ ← orPanic (digestKey (digest desc))
  | _ => return ()

/-- Run a program of the download manager. -/
def perform (env : Env σ) : Prog Xfer.Download.Op Answer α → M σ α
  | .ret a => return a
  | .call op k => do
    enter op
    let s ← get
    set (env.answer op s).2
    perform env (k (env.answer op s).1)

variable (sum : String → Bytes → String) (cd : Codec) (env : Env σ)

def verify (d : String) (p : Bytes) (failed : Error) : Except Error Unit :=
  match newDigestVerifier d with
  | .error e => .error (.digest e)
  | .ok v => if { v with written := p }.verified sum then .ok () else .error failed

def schema2ManifestDigest (ref : Named) (mfst : Manifest) : Except Error String :=
  match ref.kind with
  | .canonical d =>
    (verify sum (String.ofList d) mfst.canonical (.manifestVerification (String.ofList d))).map
      fun _ => String.ofList d
  | _ => .ok (cd.fromBytes mfst.canonical)

def pullSchema2ImageConfig (d : String) : Except Error Content :=
  match env.config with
  | .error msg => .error (.blob msg)
  | .ok configJSON => (verify sum d configJSON (.configVerification d)).map fun _ => configJSON

/-- The config or the error that comes through the channels. -/
def receiveConfig (received : Except Error Content) : M σ (Content × Image.Image) := do
  match received with
  | .error e => throw (.error (.imageConfigPull e))
  | .ok configJSON =>
    match cd.unmarshal configJSON with
    | none => throw (.error .invalidConfig)
    | some unmarshalledConfig => return (configJSON, unmarshalledConfig)

/-- The loop over the DiffIDs, with the index in step. -/
def compareDiffIDs : List DiffID → List DiffID → M σ Unit
  | [], _ => return ()
  | _ :: _, [] => throw (.panic .indexOutOfRange)
  | d :: ds, d' :: ds' => if d = d' then compareDiffIDs ds ds' else throw (.error .rootFSMismatch)

def create (config : Content) : M σ ID := do
  let s ← get
  let (res, images) := s.images.create cd env.layers config
  set { s with images }
  match res with
  | .ok id => return id
  | .error .nilRootFS => throw (.panic .nilRootFS)
  | .error e => throw (.error (.store e))

def pullSchema2 (ref : Named) (mfst : Manifest) : M σ (ID × String) := do
  let manifestDigest ← orFail (schema2ManifestDigest sum cd ref mfst)
  let _ ← orPanic (contentFile mfst.config)
  if ((← get).images.get cd mfst.config).isSome then return (mfst.config, manifestDigest)
  -- The config is pulled while the layers are.
  let received := pullSchema2ImageConfig sum env mfst.config
  let rootFS ← perform env (Xfer.Download.download (mfst.layers.map descriptor))
  if let some err := rootFS.err then
    match env.configErrFirst, received with
    | true, .error e => throw (.error (.imageConfigPull e))
    | _, _ => throw (.error (.download err))
  let (configJSON, unmarshalledConfig) ← receiveConfig cd received
  -- Only the Windows build has looked whether there is a `rootfs`.
  match unmarshalledConfig.rootFS with
  | none => throw (.panic .nilRootFS)
  | some configRootFS =>
    if rootFS.diffIDs.length ≠ configRootFS.diffIDs.length then throw (.error .rootFSMismatch)
    compareDiffIDs rootFS.diffIDs configRootFS.diffIDs
    let imageID ← create cd env configJSON
    return (imageID, manifestDigest)

end

/-! ## No panic -/

section
variable {σ α : Type} {sum : String → Bytes → String} {cd : Codec} {env : Env σ} {config : Content}

def Manifest.HasSeparators (mfst : Manifest) : Prop :=
  ∀ d ∈ mfst.config :: mfst.layers, ':' ∈ d.toList

def HasRootFS (cd : Codec) (config : Content) : Prop :=
  ∀ img, cd.unmarshal config = some img → img.rootFS.isSome = true

@[spec]
theorem orPanic_spec (h : x = .ok a) : ⦃⌜True⌝⦄ (orPanic x : M σ α)
    ⦃post⟨fun _ _ => ⌜True⌝, fun e _ => ⌜e.isPanic = false⌝⟩⦄ := by
  subst h
  mvcgen [orPanic]

@[spec]
theorem orFail_spec (x : Except Error α) : ⦃⌜True⌝⦄ (orFail x : M σ α)
    ⦃post⟨fun _ _ => ⌜True⌝, fun e _ => ⌜e.isPanic = false⌝⟩⦄ := by
  cases x with
  | error e | ok a => mvcgen [orFail]

theorem enter_eq_pure (h : ∀ desc, op = .diffID desc → ':' ∈ (digest desc).toList) :
    (enter op : M σ Unit) = pure () := by
  cases op with
  | diffID desc =>
    obtain ⟨key, hkey⟩ := digestKey_of_mem (h desc rfl)
    rw [enter, hkey]
    rfl
  | _ => rfl

theorem perform_spec (env : Env σ) {layers : List String}
    (hp : Xfer.Download.AsksOnly (layers.map descriptor) p) (hl : ∀ d ∈ layers, ':' ∈ d.toList) :
    ⦃⌜True⌝⦄ perform env p ⦃post⟨fun _ _ => ⌜True⌝, fun e _ => ⌜e.isPanic = false⌝⟩⦄ := by
  induction p with
  | ret a => mvcgen [perform]
  | call op k ih =>
    have henter : ∀ desc, op = .diffID desc → ':' ∈ (digest desc).toList := by
      intro desc hop
      obtain ⟨d, hd, rfl⟩ := List.mem_map.1 (hp.1 desc hop)
      rw [digest_descriptor]
      exact hl d hd
    have hk := fun r => ih r (hp.2 r trivial)
    rw [perform, enter_eq_pure henter]
    mvcgen [hk]

@[spec]
theorem receiveConfig_spec (received : Except Error Content) :
    ⦃⌜True⌝⦄ (receiveConfig cd received : M σ _)
    ⦃post⟨fun r _ => ⌜received = .ok r.1 ∧ cd.unmarshal r.1 = some r.2⌝, fun e _ =>
      ⌜e.isPanic = false⌝⟩⦄ := by
  mvcgen [receiveConfig]

@[spec]
theorem compareDiffIDs_spec (h : ds.length = ds'.length) :
    ⦃⌜True⌝⦄ (compareDiffIDs ds ds' : M σ Unit) ⦃post⟨fun _ _ => ⌜True⌝, fun e _ =>
      ⌜e.isPanic = false⌝⟩⦄ := by
  induction ds generalizing ds' with
  | nil => mvcgen [compareDiffIDs]
  | cons d ds ih =>
    cases ds' with
    | nil => cases h
    | cons d' ds' =>
      have ih := ih (Nat.succ.inj h)
      mvcgen [compareDiffIDs, ih]

theorem checkConfig_eq_nilRootFS : checkConfig cd config = .error .nilRootFS ↔
    ¬HasRootFS cd config := by
  unfold checkConfig HasRootFS
  cases cd.unmarshal config with
  | none => simp
  | some img =>
    cases hroot : img.rootFS with
    | none => simp [hroot]
    | some rootFS =>
      simp only [Option.some.injEq, forall_eq', hroot, Option.isSome_some,
        not_true_eq_false, iff_false]
      split <;> nofun

theorem createLocked_ne_nilRootFS (st : Store) (ls : ChainID → Bool) (id : ID) (rootFS : RootFS) :
    (st.createLocked cd ls id rootFS).1 ≠ .error .nilRootFS := by
  have hregister : ∀ (st : Store) layer, (st.register id layer).1 ≠ .error .nilRootFS :=
    fun st layer => by
    unfold Image.Store.register
    split <;> nofun
  unfold Image.Store.createLocked
  split
  · nofun
  · dsimp only
    split
    · exact hregister _ _
    · split
      · exact hregister _ _
      · nofun

/-- `Create` panics for the configs without a `rootfs`, and for no others. -/
theorem create_eq_nilRootFS (st : Store) (ls : ChainID → Bool) :
    (st.create cd ls config).1 = .error .nilRootFS ↔ ¬HasRootFS cd config := by
  rw [← checkConfig_eq_nilRootFS, Image.Store.create]
  cases checkConfig cd config with
  | error e => simp
  | ok r =>
    refine iff_of_false ?_ nofun
    by_cases hdata : config = []
    · simp [Image.Backend.set, hdata]
    · simp only [Image.Backend.set, if_neg hdata]
      exact createLocked_ne_nilRootFS _ ls _ r.2

@[spec]
theorem create_spec (h : HasRootFS cd config) :
    ⦃⌜True⌝⦄ create cd env config ⦃post⟨fun _ _ => ⌜True⌝, fun e _ => ⌜e.isPanic = false⌝⟩⦄ := by
  mvcgen [create]
  exact absurd h ((create_eq_nilRootFS _ _).1 ‹_›)

theorem pullSchema2_spec {ref : Named} {mfst : Manifest} (hm : mfst.HasSeparators)
    (hroot : ∀ config, pullSchema2ImageConfig sum env mfst.config = .ok config →
      HasRootFS cd config) :
    ⦃⌜True⌝⦄ pullSchema2 sum cd env ref mfst ⦃post⟨fun _ _ => ⌜True⌝, fun e _ =>
      ⌜e.isPanic = false⌝⟩⦄ := by
  obtain ⟨path, hfile⟩ := contentFile_of_mem (hm _ List.mem_cons_self)
  have hdownload := perform_spec env (Xfer.Download.asksOnly_download (mfst.layers.map descriptor))
    fun d hd => hm d (List.mem_cons_of_mem _ hd)
  mvcgen [pullSchema2, hfile, hdownload]
  · rename_i hnone _ hreceived
    have hsome := hroot _ hreceived.1 _ hreceived.2
    rw [hnone] at hsome
    cases hsome
  · exact not_not.1 ‹_›
  · rename_i hreceived _ _
    exact hroot _ hreceived.1

theorem panicOf_eq_none {x : M σ α}
    (h : ⦃⌜True⌝⦄ x ⦃post⟨fun _ _ => ⌜True⌝, fun e _ => ⌜e.isPanic = false⌝⟩⦄) (s : State σ) :
    panicOf (x.run s) = none := by
  have hres := EStateM.of_wp_run_eq rfl (fun r : EStateM.Result Fault (State σ) α => match r with
    | .ok _ _ => True
    | .error e _ => e.isPanic = false) fun _ => h s trivial
  revert hres
  cases x.run s with
  | ok a s' => exact fun _ => rfl
  | error e s' =>
    intro he
    cases e with
    | panic p => cases he
    | error err => rfl

/-! ## Panics -/

/-- A daemon that has all layers. -/
def havingAll (config : Except String Content) : Env Unit where
  answer op s := match op with
    | .diffID _ => (some "", s)
    | .get _ => (some (0 : Nat), s)
    | .releaseLayer _ => ((), s)
    | .transfer _ _ => ((0 : Nat), s)
    | .returned _ => ((0 : Nat), s)
    | .release _ _ => ((), s)
    | .select _ => (true, s)
    | .result _ => (.error "", s)
  config := config
  configErrFirst := false
  layers _ := true

theorem split_of_not_mem (h : ':' ∉ d.toList) : split d = .error (.noSeparator d) := by
  simp [split, sepIndex, List.idxOf?_eq_none_iff.2 h, Except.map]

theorem perform_bind (p : Prog Xfer.Download.Op Answer α) (f : α → Prog Xfer.Download.Op Answer β) :
    perform env (p.bind f) = perform env p >>= fun a => perform env (f a) := by
  induction p with
  | ret a => rfl
  | call op k ih =>
    funext s
    simp only [Prog.bind, perform, ih, bind_assoc]

theorem perform_ensure (config : Except String Content) {x : Xfer.Download.Locals}
    (hmissing : x.missingLayer = false)
    (hdownloads : x.downloads = none) (d : String) (s : State Unit) :
    (':' ∉ d.toList → perform (havingAll config) (Xfer.Download.ensure (descriptor d) x) s =
      .error (.panic (.noSeparator d)) s) ∧
    (':' ∈ d.toList → ∃ y, y.missingLayer = false ∧ y.downloads = none ∧
      perform (havingAll config) (Xfer.Download.ensure (descriptor d) x) s = .ok y s) := by
  obtain ⟨topLayer, missing, key, diffIDs, downloads⟩ := x
  obtain rfl : missing = false := hmissing
  obtain rfl : downloads = none := hdownloads
  constructor
  · intro hd
    have henter : (enter (.diffID (descriptor d)) : M Unit Unit) =
        throw (.panic (.noSeparator d)) := by
      rw [enter, digest_descriptor, digestKey, split_of_not_mem hd]
      rfl
    change (enter (.diffID (descriptor d)) >>= _ : M Unit _) s = _
    rw [henter]
    rfl
  · intro hd
    have henter : (enter (.diffID (descriptor d)) : M Unit Unit) = pure () :=
      enter_eq_pure fun desc hdesc => by
      cases hdesc
      rwa [digest_descriptor]
    refine ⟨⟨some 0, false, key ++ (descriptor d).key, diffIDs ++ [""], none⟩, rfl, rfl, ?_⟩
    change (enter (.diffID (descriptor d)) >>= _ : M Unit _) s = _
    rw [henter]
    cases topLayer <;> rfl

theorem perform_ensureAll (config : Except String Content) {x : Xfer.Download.Locals}
    (hmissing : x.missingLayer = false)
    (hdownloads : x.downloads = none) (layers : List String) (s : State Unit) :
    (∃ d, perform (havingAll config) (Xfer.Download.ensureAll (layers.map descriptor) x) s =
      .error (.panic (.noSeparator d)) s) ∨
    (∀ d ∈ layers, ':' ∈ d.toList) ∧ ∃ y, y.downloads = none ∧
      perform (havingAll config) (Xfer.Download.ensureAll (layers.map descriptor) x)
        s = .ok y s := by
  induction layers generalizing x with
  | nil => exact .inr ⟨nofun, x, hdownloads, rfl⟩
  | cons d layers ih =>
    obtain ⟨hpanic, hgo⟩ := perform_ensure config hmissing hdownloads d s
    change (∃ d', perform _ ((Xfer.Download.ensure (descriptor d) x).bind _) s = _) ∨ _ ∧ ∃ y, _ ∧
      perform _ ((Xfer.Download.ensure (descriptor d) x).bind _) s = _
    simp only [perform_bind, bind, EStateM.bind]
    by_cases hd : ':' ∈ d.toList
    · obtain ⟨y, hy, hy', heq⟩ := hgo hd
      rw [heq]
      refine (ih hy hy').imp_right fun ⟨hall, hok⟩ => ⟨List.forall_mem_cons.2 ⟨hd, hall⟩, hok⟩
    · rw [hpanic hd]
      exact .inl ⟨d, rfl⟩

theorem perform_download (config : Except String Content) (layers : List String) (s : State Unit) :
    (∃ d, perform (havingAll config) (Xfer.Download.download (layers.map descriptor)) s =
      .error (.panic (.noSeparator d)) s) ∨
    (∀ d ∈ layers, ':' ∈ d.toList) ∧ ∃ outcome, outcome.err = none ∧
      perform (havingAll config) (Xfer.Download.download (layers.map descriptor)) s =
        .ok outcome s := by
  change (∃ d, perform _ ((Xfer.Download.ensureAll _ _).bind _) s = _) ∨ _ ∧ ∃ outcome, _ ∧
    perform _ ((Xfer.Download.ensureAll _ _).bind _) s = _
  simp only [perform_bind, bind, EStateM.bind]
  rcases perform_ensureAll config (x := {}) rfl rfl layers s with ⟨d, heq⟩ | ⟨hall, y, hy, heq⟩
  · rw [heq]
    exact .inl ⟨d, rfl⟩
  · rw [heq]
    dsimp only
    rw [hy]
    exact .inr ⟨hall, _, rfl, rfl⟩

/-- A daemon that has all layers panics, unless the digests have their separator and the config has
a `rootfs`. -/
theorem hasRootFS_of_no_panic {ref : Named} {mfst : Manifest} {config : Except String Content}
    (hdigest : schema2ManifestDigest sum cd ref mfst = .ok manifestDigest)
    (h : panicOf (pullSchema2 sum cd (havingAll config) ref mfst ⟨{}, ()⟩) = none) :
    mfst.HasSeparators ∧
      ∀ content, pullSchema2ImageConfig sum (havingAll config) mfst.config = .ok content →
        HasRootFS cd content := by
  rw [pullSchema2, hdigest] at h
  simp only [orFail, pure_bind] at h
  by_cases hc : ':' ∈ mfst.config.toList
  · obtain ⟨path, hfile⟩ := contentFile_of_mem hc
    have hget : (({} : Image.Store).get cd mfst.config).isSome = false := rfl
    simp only [hfile, orPanic, pure_bind] at h
    simp only [bind, EStateM.bind, MonadState.get, getThe, MonadStateOf.get, EStateM.get, hget,
      Bool.false_eq_true, if_false] at h
    rcases perform_download config mfst.layers ⟨{}, ()⟩ with ⟨d, heq⟩ | ⟨hall, outcome, herr, heq⟩
    · rw [heq] at h
      cases h
    · rw [heq] at h
      dsimp only at h
      rw [herr] at h
      refine ⟨List.forall_mem_cons.2 ⟨hc, hall⟩, fun content hcontent img himg => ?_⟩
      by_contra hnone
      simp only [hcontent, receiveConfig, himg, pure, EStateM.bind, EStateM.pure,
        Option.not_isSome_iff_eq_none.1 hnone] at h
      cases h
  · have hfile : contentFile mfst.config = .error (.noSeparator mfst.config) := by
      rw [contentFile, split_of_not_mem hc]
      rfl
    rw [hfile] at h
    cases h

/-- A registry answer cannot crash a pull, whatever state the daemon is in, if and only if the
manifest is refused, or else its digests have their separator and a config that is verified has a
`rootfs`. And `Create` panics just without a `rootfs`. -/
theorem pullSchema2_no_panic (sum : String → Bytes → String) (cd : Codec) :
    (∀ (ref : Named) (mfst : Manifest) (config : Except String Content),
      (∀ (σ : Type) (env : Env σ) (s : State σ), env.config = config →
        panicOf ((pullSchema2 sum cd env ref mfst).run s) = none) ↔
      (∃ e, schema2ManifestDigest sum cd ref mfst = .error e) ∨ mfst.HasSeparators ∧
        ∀ content, pullSchema2ImageConfig sum (havingAll config) mfst.config = .ok content →
          HasRootFS cd content) ∧
    ∀ (σ : Type) (env : Env σ) (s : State σ) config, panicOf ((create cd env config).run s) = none ↔
      HasRootFS cd config := by
  refine ⟨fun ref mfst config => ⟨fun h => ?_, ?_⟩, fun σ env s config =>
    ⟨fun h => ?_, fun h => panicOf_eq_none (create_spec h) s⟩⟩
  · cases hdigest : schema2ManifestDigest sum cd ref mfst with
    | error e => exact .inl ⟨e, rfl⟩
    | ok manifestDigest =>
      exact .inr (hasRootFS_of_no_panic hdigest (h Unit (havingAll config) ⟨{}, ()⟩ rfl))
  · rintro hor σ env s rfl
    rcases hor with ⟨e, he⟩ | ⟨hm, hroot⟩
    · rw [pullSchema2, he]
      rfl
    · have hroot : ∀ content, pullSchema2ImageConfig sum env mfst.config = .ok content →
          HasRootFS cd content :=
        hroot
      exact panicOf_eq_none (pullSchema2_spec hm hroot) s
  · rw [← not_not (a := HasRootFS cd config), ← create_eq_nilRootFS s.images env.layers]
    intro hnil
    simp only [create, EStateM.run, bind, EStateM.bind, MonadState.get, getThe, MonadStateOf.get,
      EStateM.get, set,
      MonadStateOf.set, EStateM.set, hnil] at h
    cases h

end

/-! ### Configs without and with a `rootfs` -/

def emptyConfig : Content := [0x7b, 0x7d]

def exampleSum (_ : String) (content : Bytes) : String :=
  String.ofList (List.replicate 64 (if content = emptyConfig then 'a' else 'b'))

/-- A decoder for `{}`; other configs have a `rootfs` without layers. -/
def exampleCodec : Codec where
  fromBytes := Blob.newDigest exampleSum "sha256"
  unmarshal content :=
    some { rootFS := if content = emptyConfig then none else some { diffIDs := [] }, history := [] }
  valid content := by
    unfold Blob.newDigest exampleSum
    split
    · decide +kernel
    · decide +kernel

def exampleEnv (config : Content) : Env Unit where
  answer op s := match op with
    | .diffID _ => (none, s)
    | .get _ => (none, s)
    | .releaseLayer _ => ((), s)
    | .transfer _ _ => ((0 : Nat), s)
    | .returned _ => ((0 : Nat), s)
    | .release _ _ => ((), s)
    | .select _ => (true, s)
    | .result _ => (.error "no layers", s)
  config := .ok config
  configErrFirst := false
  layers _ := false

def exampleManifest (config : Content) (layers : List String) : Manifest :=
  { config := exampleCodec.fromBytes config, layers, canonical := [] }

def exampleRef : Named :=
  { name := "foo".toList, kind := .tagged "latest".toList
    name_valid := Reference.fooLatest.name_valid, kind_valid := Reference.fooLatest.kind_valid }

/-- A config without a `rootfs`, which is verified, and a layer without a digest. -/
theorem pullSchema2_panics :
    pullSchema2ImageConfig exampleSum (exampleEnv emptyConfig)
      (exampleManifest emptyConfig []).config = .ok emptyConfig ∧
    panicOf ((pullSchema2 exampleSum exampleCodec (exampleEnv emptyConfig) exampleRef
      (exampleManifest emptyConfig [])).run
      ⟨{}, ()⟩) = some .nilRootFS ∧
    panicOf ((pullSchema2 exampleSum exampleCodec (exampleEnv [1]) exampleRef
      (exampleManifest [1] [""])).run
      ⟨{}, ()⟩) = some (.noSeparator "") ∧
    panicOf ((create exampleCodec (exampleEnv []) emptyConfig).run ⟨{}, ()⟩) = some .nilRootFS := by
  decide +kernel

theorem pullSchema2_no_panic_example :
    panicOf ((pullSchema2 exampleSum exampleCodec (exampleEnv [1]) exampleRef
    (exampleManifest [1] [])).run ⟨{}, ()⟩) = none := by
  have hm : (exampleManifest [1] []).HasSeparators := by
    unfold Manifest.HasSeparators
    decide +kernel
  refine ((pullSchema2_no_panic exampleSum exampleCodec).1 exampleRef _ (.ok [1])).2
    (.inr ⟨hm, fun content hcontent img himg => ?_⟩)
    Unit _ _ rfl
  cases himg
  have hconfig : pullSchema2ImageConfig exampleSum (havingAll (.ok [1]))
      (exampleManifest [1] []).config = .ok [1] := by
    decide +kernel
  cases hconfig.symm.trans hcontent
  rfl

end Docker.Distribution.Schema2
