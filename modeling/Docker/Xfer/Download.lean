import Docker.Layer.ChainID
import Docker.Lib.Owned

/-!
# The download manager

`LayerDownloadManager.Download` in `distribution/xfer/download.go` as a program that calls the layer
store and the transfer manager. Layers that exist are held through a reference of the layer store,
the others through the watchers of their transfers. A layer is given by its DiffID and those of its
parents, the top one first.
-/

namespace Docker.Xfer.Download

open Prog.Owns Prog List Option Multiset
open Layer (DiffID)

/-- A `DownloadDescriptor`; how its `DiffID` and `Download` end is left to the environment. -/
structure Descriptor where
  key : String
  deriving DecidableEq

/-- A layer with its parents; nil if there is none. -/
abbrev Chain := List DiffID

inductive Job where
  /-- `makeDownloadFunc(descriptor, parentLayer, nil)`, with the DiffIDs of the parent. -/
  | download (descriptor : Descriptor) (parentLayer : List DiffID)
  /-- `makeDownloadFunc(descriptor, "", parentDownload)` -/
  | downloadOnto (descriptor : Descriptor) (parentDownload : Nat)
  /-- `makeDownloadFuncFromDownload` -/
  | fromDownload (descriptor : Descriptor) (sourceDownload parentDownload : Nat)
  deriving DecidableEq

inductive Op where
  | diffID (descriptor : Descriptor)
  /-- `ldm.layerStore.Get` for the chain ID of these DiffIDs. -/
  | get (diffIDs : List DiffID)
  | releaseLayer (ref : Nat)
  /-- A call of `ldm.tm.Transfer`. -/
  | transfer (key : String) (job : Job)
  /-- The return of this call. The watcher is named by the call. -/
  | returned (c : Nat)
  | release (t w : Nat)
  /-- The `select` on `ctx.Done()` and `topDownload.Done()`. -/
  | select (t : Nat)
  | result (t : Nat)
  deriving DecidableEq

def Answer : Op → Type
  /- none: an error -/
  | .diffID _ => Option DiffID
  /- a reference, or an error -/
  | .get _ => Option Nat
  | .releaseLayer _ | .release _ _ => Unit
  /- the call -/
  | .transfer _ _ => Nat
  /- the transfer -/
  | .returned _ => Nat
  /- true: the transfer is done -/
  | .select _ => Bool
  | .result _ => Except String Chain

section
variable (descriptor : Descriptor) (t w ref : Nat)

def diffID : Prog Op Answer (Option DiffID) := .call (.diffID descriptor) .ret

def get (diffIDs : List DiffID) : Prog Op Answer (Option Nat) := .call (.get diffIDs) .ret

def releaseLayer : Prog Op Answer Unit := .call (.releaseLayer ref) .ret

def transfer (key : String) (job : Job) : Prog Op Answer (Nat × Nat) :=
  .call (.transfer key job) fun c => .call (.returned c) fun t => .ret (t, c)

def release : Prog Op Answer Unit := .call (.release t w) .ret

def select : Prog Op Answer Bool := .call (.select t) .ret

def result : Prog Op Answer (Except String Chain) := .call (.result t) .ret

end

inductive Hold where
  | layer (ref : Nat)
  /-- A call that is to return a watcher. -/
  | call (c : Nat)
  | watcher (t w : Nat)
  deriving DecidableEq

/-- The variables that are set with the first download. -/
structure Downloads where
  topDownload : Nat
  watcher : Nat
  downloadsByKey : List (String × Nat)
  /-- The deferred calls of `Release`, the last one first. -/
  deferred : List (Nat × Nat)

structure Locals where
  topLayer : Option Nat := none
  missingLayer : Bool := false
  transferKey : String := ""
  /-- `rootFS.DiffIDs` -/
  diffIDs : List DiffID := []
  downloads : Option Downloads := none

inductive Error where
  /-- `ctx.Err()` -/
  | cancelled
  | transfer (err : String)
  /-- `internal error: too few parent layers` -/
  | tooFewParentLayers
  deriving DecidableEq

/-- What `Download` returns; `release` is what the returned function releases. -/
structure Outcome where
  diffIDs : List DiffID
  release : Option Hold
  err : Option Error
  deriving DecidableEq

/-- `if topLayer != nil { layer.ReleaseAndLog(ldm.layerStore, topLayer) }` -/
def releaseTop : Option Nat → Prog Op Answer Unit
  | some topLayer => releaseLayer topLayer
  | none => return ()

def lookup (descriptor : Descriptor) (x : Locals) : Prog Op Answer (Option Locals) := do
  if x.missingLayer then return none
  match ← diffID descriptor with
  | none => return none
  | some diffID =>
    match ← get (x.diffIDs ++ [diffID]) with
    | none => return none
    | some l =>
      releaseTop x.topLayer
      return some { x with topLayer := some l, diffIDs := x.diffIDs ++ [diffID] }

def fetch (descriptor : Descriptor) (x : Locals) : Prog Op Answer Locals := do
  match x.downloads with
  | none =>
    let (t, w) ← transfer x.transferKey (.download descriptor x.diffIDs)
    return { x with downloads := some ⟨t, w, [(descriptor.key, t)], []⟩ }
  | some d =>
    -- the same data as a previous layer in the stack is not downloaded again
    match d.downloadsByKey.lookup descriptor.key with
    | some existingDownload =>
      let (t, w) ← transfer x.transferKey (.fromDownload descriptor existingDownload d.topDownload)
      return { x with
        downloads := some ⟨t, w, d.downloadsByKey, (d.topDownload, d.watcher) :: d.deferred⟩ }
    | none =>
      let (t, w) ← transfer x.transferKey (.downloadOnto descriptor d.topDownload)
      let downloadsByKey := (descriptor.key, t) :: d.downloadsByKey
      return { x with
        downloads := some ⟨t, w, downloadsByKey, (d.topDownload, d.watcher) :: d.deferred⟩ }

def ensure (descriptor : Descriptor) (x : Locals) : Prog Op Answer Locals := do
  let x := { x with transferKey := x.transferKey ++ descriptor.key }
  match ← lookup descriptor x with
  | some x => return x
  | none => fetch descriptor { x with missingLayer := true }

def ensureAll : List Descriptor → Locals → Prog Op Answer Locals
  | [], x => return x
  | descriptor :: layers, x => do ensureAll layers (← ensure descriptor x)

/-- The loop that reads the DiffIDs from the top layer down; `false` if there were too few
layers. -/
def collect : Nat → Chain → List DiffID → List DiffID × Bool
  | 0, _, diffIDs => (diffIDs, true)
  | _ + 1, [], diffIDs => (diffIDs, false)
  | n + 1, diffID :: parent, diffIDs => collect n parent (diffID :: diffIDs)

def await (layers : List Descriptor) (d : Downloads) : Prog Op Answer Outcome := do
  if ← select d.topDownload then
    match ← result d.topDownload with
    | .error err =>
      release d.topDownload d.watcher
      return ⟨[], none, some (.transfer err)⟩
    | .ok l =>
      match collect layers.length l [] with
      | (diffIDs, true) => return ⟨diffIDs, some (.watcher d.topDownload d.watcher), none⟩
      | (diffIDs, false) =>
        release d.topDownload d.watcher
        return ⟨diffIDs, none, some .tooFewParentLayers⟩
  else
    release d.topDownload d.watcher
    return ⟨[], none, some .cancelled⟩

def releaseAll : List (Nat × Nat) → Prog Op Answer Unit
  | [] => return ()
  | (t, w) :: deferred => do
    release t w
    releaseAll deferred

def download (layers : List Descriptor) : Prog Op Answer Outcome := do
  let x ← ensureAll layers {}
  match x.downloads with
  | none => return ⟨x.diffIDs, x.topLayer.map .layer, none⟩
  | some d =>
    let outcome ← await layers d
    releaseTop x.topLayer
    releaseAll d.deferred
    return outcome

/-! ## The descriptors that are asked -/

/-- Only these descriptors are asked for their DiffID. -/
def AsksOnly (layers : List Descriptor) (p : Prog Op Answer α) : Prop :=
  p.Always (fun _ _ => True) (fun op => ∀ descriptor, op = .diffID descriptor →
    descriptor ∈ layers) fun _ => True

theorem AsksOnly.bind (hp : AsksOnly layers p)
    (hf : ∀ a, AsksOnly layers (f a)) : AsksOnly layers (p.bind f) :=
  Prog.Always.bind hp fun a _ => hf a

theorem asksOnly_transfer (key : String) (job : Job) : AsksOnly layers (transfer key job) :=
  ⟨nofun, fun _ _ => ⟨nofun, fun _ _ => trivial⟩⟩

theorem asksOnly_release (t w : Nat) : AsksOnly layers (release t w) := ⟨nofun, fun _ _ => trivial⟩

theorem asksOnly_releaseTop (topLayer : Option Nat) : AsksOnly layers (releaseTop topLayer) := by
  cases topLayer with
  | none => trivial
  | some ref => exact ⟨nofun, fun _ _ => trivial⟩

theorem asksOnly_lookup (h : descriptor ∈ layers) (x : Locals) :
    AsksOnly layers (lookup descriptor x) := by
  unfold lookup
  split
  · trivial
  · refine ⟨fun d hd => ?_, fun r _ => ?_⟩
    · cases hd
      exact h
    · cases r with
      | none => trivial
      | some diffID =>
        refine ⟨nofun, fun r _ => ?_⟩
        cases r with
        | none => trivial
        | some l => exact (asksOnly_releaseTop x.topLayer).bind fun _ => trivial

theorem asksOnly_fetch (x : Locals) : AsksOnly layers (fetch descriptor x) := by
  unfold fetch
  split
  · exact (asksOnly_transfer _ _).bind fun _ => trivial
  · split
    · exact (asksOnly_transfer _ _).bind fun _ => trivial
    · exact (asksOnly_transfer _ _).bind fun _ => trivial

theorem asksOnly_ensureAll (h : ∀ d ∈ ds, d ∈ layers) (x : Locals) :
    AsksOnly layers (ensureAll ds x) := by
  induction ds generalizing x with
  | nil => trivial
  | cons d ds ih =>
    refine AsksOnly.bind ?_ fun y => ih (fun d' hd' => h d' (mem_cons_of_mem d hd')) y
    refine (asksOnly_lookup (h d mem_cons_self) _).bind fun found => ?_
    cases found with
    | some y => trivial
    | none => exact asksOnly_fetch _

theorem asksOnly_await (d : Downloads) : AsksOnly layers (await layers d) := by
  refine ⟨nofun, fun done _ => ?_⟩
  cases done with
  | false => exact (asksOnly_release _ _).bind fun _ => trivial
  | true =>
    refine ⟨nofun, fun res _ => ?_⟩
    cases res with
    | error err => exact (asksOnly_release _ _).bind fun _ => trivial
    | ok l =>
      change AsksOnly layers (match collect layers.length l [] with
        | (_, true) => _
        | (_, false) => _)
      split
      · trivial
      · exact (asksOnly_release _ _).bind fun _ => trivial

theorem asksOnly_releaseAll (deferred : List (Nat × Nat)) :
    AsksOnly layers (releaseAll deferred) := by
  induction deferred with
  | nil => trivial
  | cons e deferred ih => exact (asksOnly_release e.1 e.2).bind fun _ => ih

theorem asksOnly_download (layers : List Descriptor) : AsksOnly layers (download layers) := by
  refine (asksOnly_ensureAll (fun _ hd => hd) {}).bind fun x => ?_
  cases x.downloads with
  | none => trivial
  | some d =>
    refine (asksOnly_await d).bind fun o => ?_
    exact (asksOnly_releaseTop x.topLayer).bind fun _ => (asksOnly_releaseAll d.deferred).bind
      fun _ => trivial

/-! ## What the calls give and cost -/

/-- The key of each call of `Transfer`, the key and the result of a transfer, the DiffIDs of a
reference. -/
structure World where
  request : Nat → Option String
  key : Nat → Option String
  result : Nat → Option (Except String Chain)
  chain : Nat → Option (List DiffID)

namespace World

/-- What is known stays known. -/
instance : Preorder World where
  le w w' := (∀ c key, w.request c = some key → w'.request c = some key) ∧
    (∀ t key, w.key t = some key → w'.key t = some key) ∧
    (∀ t res, w.result t = some res → w'.result t = some res) ∧
    ∀ ref ds, w.chain ref = some ds → w'.chain ref = some ds
  le_refl w := ⟨fun _ _ h => h, fun _ _ h => h, fun _ _ h => h, fun _ _ h => h⟩
  le_trans w₁ w₂ w₃ h h' := ⟨fun c k hk => h'.1 c k (h.1 c k hk), fun t k hk =>
    h'.2.1 t k (h.2.1 t k hk),
    fun t r hr => h'.2.2.1 t r (h.2.2.1 t r hr), fun r ds hr => h'.2.2.2 r ds (h.2.2.2 r ds hr)⟩

variable {w w' : World}

theorem key_mono (h : w ≤ w') {key : String} (hk : w.key t = some key) : w'.key t = some key :=
  h.2.1 t key hk

theorem result_mono (h : w ≤ w') (hr : w.result t = some res) : w'.result t = some res :=
  h.2.2.1 t res hr

theorem chain_mono (h : w ≤ w') (hr : w.chain ref = some ds) : w'.chain ref = some ds :=
  h.2.2.2 ref ds hr

end World

def cost : Op → Multiset Hold
  | .releaseLayer ref => {.layer ref}
  | .returned c => {.call c}
  | .release t w => {.watcher t w}
  | _ => 0

def gain : (op : Op) → Answer op → Multiset Hold
  | .get _, answer => (answer : Option Nat).elim 0 fun ref => {.layer ref}
  | .transfer _ _, c => {.call c}
  | .returned c, t => {.watcher t c}
  | _, _ => 0

/-- The length of a list of these keys can be told from the concatenation. -/
def Decodable (K : Set String) : Prop :=
  ∀ ks ks' : List String, (∀ k ∈ ks, k ∈ K) → (∀ k ∈ ks', k ∈ K) →
    String.join ks = String.join ks' → ks.length = ks'.length

section
variable (K : Set String)

/-- The transfer has the key of this many layers. -/
def World.Covers (w : World) (t n : Nat) : Prop :=
  ∃ ks : List String, (∀ k ∈ ks, k ∈ K) ∧ w.key t = some (String.join ks) ∧ ks.length = n

/-- The job is for one layer more than its parent has, and the key for all of them. -/
def Planned (w : World) (key : String) (job : Job) : Prop :=
  ∃ ks : List String, (∀ k ∈ ks, k ∈ K) ∧ key = String.join ks ∧ match job with
    | .download _ parentLayer => parentLayer.length + 1 = ks.length
    | .downloadOnto _ parent | .fromDownload _ _ parent =>
      ∃ n, w.Covers K parent n ∧ n + 1 = ks.length

/-- With `strict` the answers are those of a layer store and a transfer manager, and without it they
are any. -/
def rules (strict : Prop) : Prog.Rules Op Answer World Hold where
  pre
    | .transfer key job, w => strict → Planned K w key job
    | _, _ => True
  ok
    | .get ds, answer, w => strict → ∀ ref, (answer : Option Nat) = some ref → w.chain ref = some ds
    | .transfer key _, c, w => strict → w.request c = some key
    | .returned c, t, w => strict → ∀ key, w.request c = some key → w.key t = some key
    | .result t, answer, w => strict → ∀ l, (answer : Except String Chain) = .ok l →
      l = [] ∨ w.result t = some (.ok l) ∧ ∀ n, w.Covers K t n → l.length = n
    | _, _, _ => True
  cost := cost
  gain := gain

end

section
variable {h : Multiset Hold}

section
variable {ds : List DiffID}

theorem hold_rest : h - 0 + 0 = h := by rw [tsub_zero, add_zero]

theorem hold_more (a : Hold) : h - 0 + {a} = a ::ₘ h := by rw [tsub_zero, add_comm, singleton_add]

theorem hold_less (a : Hold) : h - {a} + 0 = h.erase a := by rw [add_zero, sub_singleton]

theorem owns_diffID {Q : Option DiffID → Multiset Hold → World → Prop}
    (hQ : ∀ w', w ≤ w' → ∀ diffID, Q diffID h w') :
    Owns (rules K strict) Q h w (diffID descriptor) := by
  refine ⟨trivial, zero_le h, fun w' hw r _ => ?_⟩
  change Q r (h - 0 + 0) w'
  rw [hold_rest]
  exact hQ w' hw r

theorem owns_get {Q : Option Nat → Multiset Hold → World → Prop}
    (hnone : ∀ w', w ≤ w' → Q none h w')
    (hsome : ∀ w', w ≤ w' → ∀ ref, (strict → w'.chain ref = some ds) →
      Q (some ref) (.layer ref ::ₘ h) w') :
    Owns (rules K strict) Q h w (get ds) := by
  refine ⟨trivial, zero_le h, fun w' hw r hr => ?_⟩
  cases r with
  | none =>
    change Q none (h - 0 + 0) w'
    rw [hold_rest]
    exact hnone w' hw
  | some ref =>
    change Q (some ref) (h - 0 + {.layer ref}) w'
    rw [hold_more]
    exact hsome w' hw ref fun hs => hr hs ref rfl

theorem owns_releaseLayer (hmem : Hold.layer ref ∈ h)
    (hQ : ∀ w', w ≤ w' → Q () (h.erase (.layer ref)) w') :
    Owns (rules K strict) Q h w (releaseLayer ref) := by
  refine ⟨trivial, singleton_le.2 hmem, fun w' hw _ _ => ?_⟩
  change Q () (h - {.layer ref} + 0) w'
  rw [hold_less]
  exact hQ w' hw

theorem owns_release (hmem : Hold.watcher t v ∈ h)
    (hQ : ∀ w', w ≤ w' → Q () (h.erase (.watcher t v)) w') :
    Owns (rules K strict) Q h w (release t v) := by
  refine ⟨trivial, singleton_le.2 hmem, fun w' hw _ _ => ?_⟩
  change Q () (h - {.watcher t v} + 0) w'
  rw [hold_less]
  exact hQ w' hw

theorem owns_select {Q : Bool → Multiset Hold → World → Prop}
    (hQ : ∀ w', w ≤ w' → ∀ done, Q done h w') :
    Owns (rules K strict) Q h w (select t) := by
  refine ⟨trivial, zero_le h, fun w' hw r _ => ?_⟩
  change Q r (h - 0 + 0) w'
  rw [hold_rest]
  exact hQ w' hw r

theorem owns_result {Q : Except String Chain → Multiset Hold → World → Prop}
    (herror : ∀ w', w ≤ w' → ∀ err, Q (.error err) h w')
    (hok : ∀ w', w ≤ w' → ∀ l, (strict → l = [] ∨ w'.result t = some (.ok l) ∧
      ∀ n, w'.Covers K t n → l.length = n) →
      Q (.ok l) h w') : Owns (rules K strict) Q h w (result t) := by
  refine ⟨trivial, zero_le h, fun w' hw r hr => ?_⟩
  change Q r (h - 0 + 0) w'
  rw [hold_rest]
  cases r with
  | error err => exact herror w' hw err
  | ok l => exact hok w' hw l fun hs => hr hs l rfl

theorem owns_transfer {Q : Nat × Nat → Multiset Hold → World → Prop}
    (hpre : strict → Planned K w key job)
    (hQ : ∀ w', w ≤ w' → ∀ t v, (strict → w'.key t = some key) → Q (t, v) (.watcher t v ::ₘ h) w') :
    Owns (rules K strict) Q h w (transfer key job) := by
  refine ⟨hpre, Multiset.zero_le h, fun w' hw c hc => ?_⟩
  change Owns (rules K strict) Q (h - 0 + {.call c}) w' (.call (.returned c) fun t => .ret (t, c))
  rw [hold_more]
  refine ⟨trivial, Multiset.singleton_le.2 (Multiset.mem_cons_self _ _), fun w'' hw' t ht => ?_⟩
  change Q (t, c) (.call c ::ₘ h - {.call c} + {.watcher t c}) w''
  rw [Multiset.sub_singleton, Multiset.erase_cons_head, add_comm, Multiset.singleton_add]
  exact hQ w'' (hw.trans hw') t c fun hs => ht hs key (hw'.1 c key (hc hs))

end

/-! ## What `Download` holds -/

def topHolds : Option Nat → Multiset Hold
  | none => 0
  | some topLayer => {.layer topLayer}

def deferredHolds (deferred : List (Nat × Nat)) : Multiset Hold :=
  (deferred.map fun e => Hold.watcher e.1 e.2 : List Hold)

def Downloads.holds (d : Downloads) : Multiset Hold :=
  .watcher d.topDownload d.watcher ::ₘ deferredHolds d.deferred

def Locals.holds (x : Locals) : Multiset Hold :=
  topHolds x.topLayer + x.downloads.elim 0 Downloads.holds

theorem deferredHolds_cons (t v : Nat) (deferred : List (Nat × Nat)) :
    deferredHolds ((t, v) :: deferred) = .watcher t v ::ₘ deferredHolds deferred := rfl

/-- The variables at the head of the loop, where the layers with the keys `ks` are done. -/
structure Fits (strict : Prop) (K : Set String) (w : World) (ks : List String) (x : Locals) :
    Prop where
  keys : strict → ∀ k ∈ ks, k ∈ K
  missing : x.missingLayer = x.downloads.isSome
  transferKey : x.transferKey = String.join ks
  nonempty : x.downloads.isSome = true → ks ≠ []
  diffIDs : x.downloads = none → x.diffIDs.length = ks.length
  noLayer : x.downloads = none → x.topLayer = none → ks = []
  topLayer : strict → x.downloads = none → ∀ ref, x.topLayer = some ref →
    w.chain ref = some x.diffIDs
  topDownload : strict → ∀ d, x.downloads = some d → w.key d.topDownload = some (String.join ks)

variable {ks : List String} {descriptor : Descriptor}

theorem Fits.later (hx : Fits strict K w ks x) (hw : w ≤ w') : Fits strict K w' ks x :=
  { hx with
    topLayer := fun hs hd ref href => World.chain_mono hw (hx.topLayer hs hd ref href)
    topDownload := fun hs d hd => World.key_mono hw (hx.topDownload hs d hd) }

theorem owns_releaseTop (topLayer : Option Nat) (hQ : ∀ w', w ≤ w' → Q () h' w') :
    Owns (rules K strict) Q (topHolds topLayer + h') w (releaseTop topLayer) := by
  cases topLayer with
  | none =>
    change Q () (0 + h') w
    rw [zero_add]
    exact hQ w le_rfl
  | some ref =>
    refine owns_releaseLayer (by simp [topHolds]) fun w' hw => ?_
    rw [topHolds, Multiset.singleton_add, Multiset.erase_cons_head]
    exact hQ w' hw

theorem owns_releaseAll (deferred : List (Nat × Nat)) (hQ : ∀ w', w ≤ w' → Q () h' w') :
    Owns (rules K strict) Q (deferredHolds deferred + h') w (releaseAll deferred) := by
  induction deferred generalizing w with
  | nil =>
    change Q () (0 + h') w
    rw [zero_add]
    exact hQ w le_rfl
  | cons e deferred ih =>
    obtain ⟨t, v⟩ := e
    refine bind (owns_release (by simp [deferredHolds_cons]) fun w' hw => ?_)
    rw [deferredHolds_cons, Multiset.cons_add, Multiset.erase_cons_head]
    exact ih fun w'' hw' => hQ w'' (hw.trans hw')

section
variable (hx : Fits strict K w ks x) (hkey : strict → descriptor.key ∈ K)
include hx hkey

theorem owns_lookup : Owns (rules K strict) (fun o h w' => w ≤ w' ∧ match o with
        | none => h = x.holds
        | some y => h = y.holds ∧ Fits strict K w' (ks ++ [descriptor.key]) y)
      x.holds w (lookup descriptor { x with transferKey := x.transferKey ++ descriptor.key }) := by
  by_cases hmiss : x.missingLayer = true
  · simp only [hmiss]
    exact ⟨le_rfl, rfl⟩
  · have hnone : x.downloads = none := by simpa [hx.missing] using hmiss
    simp only [hmiss]
    refine bind (owns_diffID fun w₁ hw₁ diffID => ?_)
    cases diffID with
    | none => exact ⟨hw₁, rfl⟩
    | some diffID =>
      refine bind (owns_get (fun w₂ hw₂ => ⟨hw₁.trans hw₂, rfl⟩) fun w₂ hw₂ ref href => ?_)
      have hholds : Hold.layer ref ::ₘ x.holds = topHolds x.topLayer + {.layer ref} := by
        rw [Locals.holds, hnone, elim_none, add_zero, ← singleton_add, add_comm]
      rw [hholds]
      refine bind (owns_releaseTop x.topLayer fun w₃ hw₃ => ⟨(hw₁.trans hw₂).trans hw₃, ?_, ?_⟩)
      · simp [Locals.holds, topHolds, hnone]
      · refine
          { keys := fun hs => by simpa [or_imp, forall_and] using ⟨hx.keys hs, hkey hs⟩
            missing := by simp [hnone]
            transferKey := by simp [hx.transferKey]
            nonempty := by simp [hnone]
            diffIDs := fun _ => by simp [hx.diffIDs hnone]
            noLayer := nofun
            topLayer := ?_
            topDownload := fun _ d hd => nomatch hnone.symm.trans hd }
        rintro hs - ref' ⟨⟩
        exact World.chain_mono hw₃ (href hs)

theorem owns_fetch :
    Owns (rules K strict) (fun y h w' => h = y.holds ∧
      Fits strict K w' (ks ++ [descriptor.key]) y) x.holds w
      (fetch descriptor
        { x with transferKey := x.transferKey ++ descriptor.key, missingLayer := true }) := by
  have hkeys : strict → ∀ k ∈ ks ++ [descriptor.key], k ∈ K := fun hs => by
    simpa [or_imp, forall_and] using ⟨hx.keys hs, hkey hs⟩
  have hjoin : x.transferKey ++ descriptor.key = String.join (ks ++ [descriptor.key]) := by
    simp [hx.transferKey]
  -- the state after the transfer of this layer is the last one
  have hfits : ∀ w' d, (strict → w'.key d.topDownload = some (x.transferKey ++ descriptor.key)) →
      Fits strict K w' (ks ++ [descriptor.key])
        { x with
          transferKey := x.transferKey ++ descriptor.key
          missingLayer := true
          downloads := some d } :=
    fun w' d hd =>
      { keys := hkeys
        missing := rfl
        transferKey := hjoin
        nonempty := by simp
        diffIDs := nofun
        noLayer := nofun
        topLayer := nofun
        topDownload := by
          rintro hs _ ⟨⟩
          exact hjoin ▸ hd hs }
  unfold fetch
  cases hd : x.downloads with
  | none =>
    have hplan : strict → Planned K w (x.transferKey ++ descriptor.key)
        (.download descriptor x.diffIDs) :=
      fun hs => ⟨_, hkeys hs, hjoin, by simp [hx.diffIDs hd]⟩
    refine bind (owns_transfer hplan fun w' _ t v ht => ⟨?_, hfits w' _ ht⟩)
    simp only [Locals.holds, hd, elim_none, elim_some, add_zero, Downloads.holds,
      deferredHolds, map_nil]
    exact (singleton_add _ _).symm.trans (add_comm _ _)
  | some d =>
    have hcovers : strict → w.Covers K d.topDownload ks.length :=
      fun hs => ⟨ks, hx.keys hs, hx.topDownload hs d hd, rfl⟩
    have hholds : ∀ t v, Hold.watcher t v ::ₘ x.holds = topHolds x.topLayer +
        (.watcher t v ::ₘ d.holds) := by
      intro t v
      rw [Locals.holds, hd, elim_some, ← add_cons]
    dsimp only
    split
    all_goals
      refine bind (owns_transfer (fun hs => ⟨_, hkeys hs, hjoin, _, hcovers hs, by simp⟩)
        fun w' _ t v ht =>
        ⟨?_, hfits w' _ ht⟩)
      rw [hholds]
      rfl

theorem owns_ensure :
    Owns (rules K strict) (fun y h w' => h = y.holds ∧
      Fits strict K w' (ks ++ [descriptor.key]) y) x.holds w
      (ensure descriptor x) := by
  refine bind ((owns_lookup hx hkey).mono ?_)
  rintro o h w' ⟨hw, ho⟩
  cases o with
  | some y => exact ho
  | none =>
    obtain rfl : h = x.holds := ho
    exact owns_fetch (hx.later hw) hkey

end

theorem owns_ensureAll (layers : List Descriptor) (hx : Fits strict K w ks x)
    (hkeys : strict → ∀ d ∈ layers, d.key ∈ K) :
    Owns (rules K strict)
      (fun y h w' => h = y.holds ∧ Fits strict K w' (ks ++ layers.map Descriptor.key) y) x.holds w
      (ensureAll layers x) := by
  induction layers generalizing ks x w with
  | nil => exact ⟨rfl, by simpa using hx⟩
  | cons d layers ih =>
    refine bind ((owns_ensure hx fun hs => hkeys hs d mem_cons_self).mono ?_)
    rintro y h w' ⟨rfl, hy⟩
    have hrest := ih hy fun hs d' hd' => hkeys hs d' (mem_cons_of_mem d hd')
    rwa [append_assoc] at hrest

theorem collect_eq (n : Nat) (l : Chain) (diffIDs : List DiffID) :
    collect n l diffIDs = ((l.take n).reverse ++ diffIDs, decide (n ≤ l.length)) := by
  induction n generalizing l diffIDs with
  | zero => simp [collect]
  | succ n ih =>
    cases l with
    | nil => simp [collect]
    | cons d l => simp [collect, ih]

/-- The layer that the DiffIDs name is the one that is held. -/
def Outcome.Backed (o : Outcome) (w : World) : Prop :=
  match o.release with
  | none => o.diffIDs = []
  | some (.layer ref) => w.chain ref = some o.diffIDs
  | some (.watcher t _) => w.result t = some (.ok o.diffIDs.reverse)
  | some (.call _) => False

/-- What `Download` returns for this many layers. -/
structure Returns (strict : Prop) (n : Nat) (o : Outcome) (h : Multiset Hold)
    (w : World) : Prop where
  holds : h = o.release.elim 0 fun a => {a}
  failed : o.err ≠ none → o.release = none
  length : o.err = none → o.diffIDs.length = n
  backed : strict → o.err = none → o.Backed w

theorem Outcome.Backed.later {o : Outcome} (ho : o.Backed w) (hw : w ≤ w') : o.Backed w' := by
  unfold Outcome.Backed at ho ⊢
  split at ho
  · exact ho
  · exact World.chain_mono hw ho
  · exact World.result_mono hw ho
  · exact ho

theorem Returns.later {n : Nat} (ho : Returns strict n o h w) (hw : w ≤ w') :
    Returns strict n o h w' :=
  { ho with backed := fun hs he => (ho.backed hs he).later hw }

theorem owns_await (hne : layers ≠ []) (hcovers : strict → w.Covers K d.topDownload layers.length) :
    Owns (rules K strict) (fun o h w' => ∃ h₀, h = h₀ + h' ∧ Returns strict layers.length o h₀ w')
      (.watcher d.topDownload d.watcher ::ₘ h') w (await layers d) := by
  -- an error gives the watcher back
  have hfail : ∀ w₁ diffIDs err, Owns (rules K strict)
      (fun o h w' => ∃ h₀, h = h₀ + h' ∧ Returns strict layers.length o h₀ w')
      (.watcher d.topDownload d.watcher ::ₘ h') w₁
      ((release d.topDownload d.watcher).bind fun _ => .ret ⟨diffIDs, none, some err⟩) := by
    intro w₁ diffIDs err
    refine bind (owns_release (mem_cons_self _ _) fun w₂ _ =>
      ⟨0, ?_, rfl, fun _ => rfl, nofun, nofun⟩)
    rw [Multiset.erase_cons_head, zero_add]
  refine bind (owns_select fun w₁ hw₁ done => ?_)
  cases done with
  | false => exact hfail w₁ [] .cancelled
  | true =>
    refine bind (owns_result (fun w₂ _ err => hfail w₂ [] (.transfer err)) fun w₂ hw₂ l hl => ?_)
    dsimp only
    rw [collect_eq]
    by_cases hlen : layers.length ≤ l.length
    · rw [decide_eq_true hlen, append_nil]
      refine ⟨{.watcher d.topDownload d.watcher}, (singleton_add _ _).symm, rfl, fun he =>
        absurd rfl he, ?_, ?_⟩
      · intro _
        rw [length_reverse, length_take, Nat.min_eq_left hlen]
      · intro hs _
        rcases hl hs with rfl | ⟨hres, hn⟩
        · exact absurd (length_eq_zero_iff.1 (Nat.le_zero.1 hlen)) hne
        · obtain ⟨ks, hks, hkey, hlength⟩ := hcovers hs
          have hcovers₂ : w₂.Covers K d.topDownload layers.length :=
            ⟨ks, hks, World.key_mono (hw₁.trans hw₂) hkey, hlength⟩
          change w₂.result d.topDownload = some (.ok (l.take layers.length).reverse.reverse)
          rw [← hn _ hcovers₂, take_length, reverse_reverse]
          exact hres
    · rw [decide_eq_false hlen]
      exact hfail w₂ _ _

theorem owns_download (layers : List Descriptor) (hkeys : strict → ∀ d ∈ layers, d.key ∈ K) :
    Owns (rules K strict) (Returns strict layers.length) 0 w (download layers) := by
  have hinit : Fits strict K w [] {} :=
    { keys := nofun
      missing := rfl
      transferKey := rfl
      nonempty := nofun
      diffIDs := fun _ => rfl
      noLayer := fun _ _ => rfl
      topLayer := nofun
      topDownload := nofun }
  refine bind ((owns_ensureAll layers hinit hkeys).mono ?_)
  rintro x h w₁ ⟨rfl, hx⟩
  have hlength : ([] ++ layers.map Descriptor.key).length = layers.length := by simp
  cases hd : x.downloads with
  | none =>
    have hdiffIDs : x.diffIDs.length = layers.length := (hx.diffIDs hd).trans hlength
    refine ⟨?_, fun he => absurd rfl he, fun _ => hdiffIDs, fun hs _ => ?_⟩
    · rw [Locals.holds, hd, elim_none, add_zero]
      cases x.topLayer <;> rfl
    · cases htop : x.topLayer with
      | none =>
        rw [← hlength, hx.noLayer hd htop] at hdiffIDs
        exact length_eq_zero_iff.1 hdiffIDs
      | some ref => exact hx.topLayer hs hd ref htop
  | some d =>
    have hne : layers ≠ [] := by
      rintro rfl
      exact hx.nonempty (by rw [hd]; rfl) rfl
    have hcovers : strict → w₁.Covers K d.topDownload layers.length := fun hs =>
      ⟨_, hx.keys hs, hx.topDownload hs d hd, hlength⟩
    have hholds : x.holds = .watcher d.topDownload d.watcher ::ₘ
        (topHolds x.topLayer + deferredHolds d.deferred) := by
      rw [Locals.holds, hd, elim_some, Downloads.holds, add_cons]
    rw [hholds]
    refine bind ((owns_await hne hcovers).mono ?_)
    rintro o h w₂ ⟨h₀, rfl, hret⟩
    rw [add_left_comm]
    refine bind (owns_releaseTop x.topLayer fun w₃ hw₃ => ?_)
    rw [add_comm]
    exact bind (owns_releaseAll d.deferred fun w₄ hw₄ => hret.later (hw₃.trans hw₄))

end

end Docker.Xfer.Download
