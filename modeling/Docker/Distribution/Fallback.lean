import Docker.Distribution.Push

/-!
# Falling back to the next endpoint

The loops of `pullFromRegistry` and of `Push`, with the attempts they make. How an attempt ends is a
parameter, and so is the list of endpoints.
-/

namespace Docker.Distribution

open List

open Image (ID)
open Reference Registry Progress

structure Made where
  /-- The number of the endpoint in the list. -/
  index : Nat
  endpoint : APIEndpoint
  /-- Nothing if the attempt was a success. -/
  failure : Option Failure

section
variable {σ α : Type} (attempt : Nat → APIEndpoint → σ → Option (Except Failure α × σ))
variable (record : Progress → APIEndpoint → Failure → Progress)

/-- The loop over the endpoints. There is no attempt if `newPuller` or `NewPusher` does not know the
version of the endpoint. -/
def tryEndpoints : List APIEndpoint → Nat → Progress → σ → List Made × Except (Option Failure) α × σ
  | [], _, p, s => ([], .error p.lastErr, s)
  | endpoint :: endpoints, j, p, s =>
    if p.skips endpoint then tryEndpoints endpoints (j + 1) p s
    else
      match attempt j endpoint s with
      | none => tryEndpoints endpoints (j + 1) { p with lastErr := some { fallback := false } } s
      | some (.ok a, s) => ([⟨j, endpoint, none⟩], .ok a, s)
      | some (.error f, s) =>
        if f.fallback then
          let (made, result, s) := tryEndpoints endpoints (j + 1) (record p endpoint f) s
          (⟨j, endpoint, some f⟩ :: made, result, s)
        else ([⟨j, endpoint, some f⟩], .error (some f), s)

/-- `Push` keeps the last error, whatever it is. -/
def pushRecord (p : Progress) (endpoint : APIEndpoint) (f : Failure) : Progress :=
  { p.after endpoint f with lastErr := some f }

def tryPull (endpoints : List APIEndpoint) : σ → List Made × Except (Option Failure) α × σ :=
  tryEndpoints attempt Progress.after endpoints 0 {}

def tryPush (endpoints : List APIEndpoint) : σ → List Made × Except (Option Failure) α × σ :=
  tryEndpoints attempt pushRecord endpoints 0 {}

end

/-! ## The loops of the model -/

section
variable (ref : Named) (info : RepositoryInfo)

def pullAttempt (attempts : Attempts) (i j : Nat) (endpoint : APIEndpoint) (st : Store) :
    Option (Except Failure ID × Store) :=
  match endpoint.version with
  | .v2 => some (pullV2 attempts i j ref st)
  | .v1 => some (pullV1 attempts i j info ref st)

/-- An attempt of `Push`, with what has been uploaded so far. -/
def pushAttempt (attempts : PushAttempts) (j : Nat) (endpoint : APIEndpoint) :
    List Upload × Store → Option (Except Failure Unit × List Upload × Store)
  | (uploads, st) =>
    let (more, result, st) := pushTo attempts info endpoint j ref st
    some (result, uploads ++ more, st)

def pullResult : Except (Option Failure) ID × Store → Except PullError ID × Store
  | (.ok id, st) => (.ok id, st)
  | (.error (some f), st) => (.error (.puller f), st)
  | (.error none, st) => (.error (.noEndpoints ref.string), st)

def pushResult : Except (Option Failure) Unit × List Upload × Store →
    List Upload × Except PushError Unit × Store
  | (.ok _, uploads, st) => (uploads, .ok (), st)
  | (.error (some f), uploads, st) => (uploads, .error (.pusher f), st)
  | (.error none, uploads, st) => (uploads, .error (.noEndpoints info.named.name), st)

theorem pullEndpoints_eq (attempts : Attempts) (i : Nat) (endpoints : List APIEndpoint) (j : Nat)
    (p : Progress) (st : Store) :
    pullEndpoints attempts i info ref endpoints j p st =
      pullResult ref (tryEndpoints (pullAttempt ref info attempts i) after endpoints j p st).2 := by
  induction endpoints generalizing j p st with
  | nil =>
    rw [pullEndpoints, tryEndpoints]
    cases p.lastErr <;> rfl
  | cons endpoint endpoints ih =>
    rw [pullEndpoints, tryEndpoints, pullAttempt]
    split
    · exact ih ..
    · cases endpoint.version
      all_goals
        dsimp only
        split
        · next h => rw [h]; rfl
        · next f st' h =>
          rw [h]
          dsimp only
          split
          · exact ih ..
          · rfl

theorem pushEndpoints_eq (attempts : PushAttempts) (endpoints : List APIEndpoint) (j : Nat)
    (p : Progress) (uploads : List Upload) (st : Store) :
    let x := pushEndpoints attempts info ref endpoints j p st
    (uploads ++ x.1, x.2) =
      pushResult info (tryEndpoints (pushAttempt ref info attempts) pushRecord endpoints j p
        (uploads, st)).2 := by
  induction endpoints generalizing j p uploads st with
  | nil =>
    rw [pushEndpoints, tryEndpoints]
    cases p.lastErr <;> simp [pushResult]
  | cons endpoint endpoints ih =>
    rw [pushEndpoints, tryEndpoints, pushAttempt]
    split
    · exact ih ..
    · split
      · next more _ st' h => rw [h]; rfl
      · next more f st' h =>
        rw [h]
        dsimp only
        split
        · have h := ih (j + 1) (pushRecord p endpoint f) (uploads ++ more) st'
          simpa [pushRecord] using h
        · rfl

end

/-! ## What an attempt rules out -/

/-- What `made` says about the attempts of one call, for a list of endpoints. -/
structure NoDowngrade (endpoints : List APIEndpoint) (made : List Made) : Prop where
  listed : ∀ m ∈ made, endpoints[m.index]? = some m.endpoint
  /-- In the order of the list, and no endpoint twice. -/
  ordered : made.Pairwise fun a b => a.index < b.index
  /-- None after a success, a cancellation or another error. -/
  afterFallback : made.Pairwise fun a _ => ∃ f, a.failure = some f ∧ f.fallback = true
  keepsTLS : made.Pairwise fun a b => ∀ f, a.failure = some f → f.fallback = true →
    f.transportOK = true →
    a.endpoint.url.scheme = https → b.endpoint.url.scheme ≠ https →
      b.endpoint.url.host ≠ a.endpoint.url.host
  keepsV2 : made.Pairwise fun a b => ∀ f, a.failure = some f → f.fallback = true →
    f.confirmedV2 = true →
    b.endpoint.version ≠ .v1

namespace Progress

/-- Whatever `p` has confirmed is confirmed in `q`. -/
structure Le (p q : Progress) : Prop where
  confirmedV2 : p.confirmedV2 = true → q.confirmedV2 = true
  confirmedTLSRegistries : p.confirmedTLSRegistries ⊆ q.confirmedTLSRegistries

variable {p q : Progress}

theorem Le.refl : Le p p := ⟨id, Subset.refl _⟩

theorem le_after : Le p (p.after endpoint f) where
  confirmedV2 h := by simp [after, h]
  confirmedTLSRegistries := by
    dsimp only [after]
    split
    · exact subset_cons_self ..
    · exact Subset.refl _

theorem skips_eq_false : p.skips endpoint = false ↔
    (p.confirmedV2 = true → endpoint.version ≠ .v1) ∧
    (endpoint.url.scheme ≠ https → endpoint.url.host ∉ p.confirmedTLSRegistries) := by
  simp [skips]

theorem Le.skips (h : Le p q) (hq : q.skips endpoint = false) : p.skips endpoint = false := by
  rw [skips_eq_false] at hq ⊢
  exact ⟨fun hp => hq.1 (h.confirmedV2 hp), fun hs hp => hq.2 hs (h.confirmedTLSRegistries hp)⟩

/-- What is not skipped after a failure does not go back behind it. -/
theorem not_skips_after (h : (p.after endpoint f).skips other = false) :
    (f.transportOK = true → endpoint.url.scheme = https → other.url.scheme ≠ https →
      other.url.host ≠ endpoint.url.host) ∧
      (f.confirmedV2 = true → other.version ≠ .v1) := by
  obtain ⟨hv2, htls⟩ := skips_eq_false.1 h
  constructor
  · intro hok hs hne heq
    apply htls hne
    rw [after, heq]
    simp [hok, hs]
  · intro hf
    apply hv2
    simp [after, hf]

end Progress

section
variable {σ α : Type} {attempt : Nat → APIEndpoint → σ → Option (Except Failure α × σ)}
/-- `record` forgets nothing about the endpoints. -/
def Records (record : Progress → APIEndpoint → Failure → Progress) : Prop :=
  ∀ (p : Progress) endpoint f, (p.after endpoint f).Le (record p endpoint f)

theorem Records.after : Records after := fun _ _ _ => .refl

theorem Records.push : Records pushRecord := fun _ _ _ => ⟨id, Subset.refl _⟩

/-- What the rest of a loop attempts, with `p` known at its beginning. -/
structure Tries (endpoints : List APIEndpoint) (j : Nat) (p : Progress) (made : List Made) :
    Prop where
  later : ∀ m ∈ made, j ≤ m.index
  listed : ∀ m ∈ made, endpoints[m.index - j]? = some m.endpoint
  notSkipped : ∀ m ∈ made, p.skips m.endpoint = false
  ordered : made.Pairwise fun a b => a.index < b.index
  fallsBack : made.Pairwise fun a b => ∃ f, a.failure = some f ∧ f.fallback = true ∧
    ∃ q : Progress, (q.after a.endpoint f).skips b.endpoint = false

namespace Tries

variable {endpoints : List APIEndpoint}

theorem nil : Tries endpoints j p [] := ⟨by simp, by simp, by simp, .nil, .nil⟩

theorem single {failure : Option Failure} (h : p.skips endpoint = false) :
    Tries (endpoint :: endpoints) j p [⟨j, endpoint, failure⟩] :=
  ⟨by simp, by simp, by simpa using h, by simp, by simp⟩

theorem skip (h : Tries endpoints (j + 1) q made) (hpq : p.Le q) :
    Tries (endpoint :: endpoints) j p made where
  later m hm := Nat.le_of_succ_le (h.later m hm)
  listed m hm := by
    have hj := h.later m hm
    rw [show m.index - j = m.index - (j + 1) + 1 by omega, getElem?_cons_succ]
    exact h.listed m hm
  notSkipped m hm := hpq.skips (h.notSkipped m hm)
  ordered := h.ordered
  fallsBack := h.fallsBack

/-- An attempt at the first endpoint that falls back to the others. -/
theorem cons {f : Failure} (h : Tries endpoints (j + 1) q made) (hq : (p.after endpoint f).Le q)
    (hp : p.skips endpoint = false) (hf : f.fallback = true) :
    Tries (endpoint :: endpoints) j p (⟨j, endpoint, some f⟩ :: made) := by
  have hrest : Tries (endpoint :: endpoints) j p made :=
    h.skip ⟨fun hc => hq.1 (le_after.1 hc), fun _ hc => hq.2 (le_after.2 hc)⟩
  refine ⟨?_, ?_, ?_, ?_, ?_⟩
  · simpa using hrest.later
  · simpa using hrest.listed
  · simpa [hp] using hrest.notSkipped
  · exact pairwise_cons.2 ⟨fun m hm => h.later m hm, h.ordered⟩
  · exact pairwise_cons.2 ⟨fun m hm => ⟨f, rfl, hf, p, hq.skips (h.notSkipped m hm)⟩, h.fallsBack⟩

theorem noDowngrade (h : Tries endpoints 0 p made) : NoDowngrade endpoints made where
  listed := h.listed
  ordered := h.ordered
  afterFallback := h.fallsBack.imp fun ⟨f, ha, hf, _⟩ => ⟨f, ha, hf⟩
  keepsTLS := by
    refine h.fallsBack.imp fun {a b} ⟨f, ha, _, q, hskip⟩ g hg _ => ?_
    obtain rfl : f = g := Option.some.inj (ha.symm.trans hg)
    exact (not_skips_after hskip).1
  keepsV2 := by
    refine h.fallsBack.imp fun {a b} ⟨f, ha, _, q, hskip⟩ g hg _ => ?_
    obtain rfl : f = g := Option.some.inj (ha.symm.trans hg)
    exact (not_skips_after hskip).2

end Tries

theorem tryEndpoints_tries (hrecord : Records record) (endpoints : List APIEndpoint) (j : Nat)
    (p : Progress) (s : σ) :
    Tries endpoints j p (tryEndpoints attempt record endpoints j p s).1 := by
  induction endpoints generalizing j p s with
  | nil => exact .nil
  | cons endpoint endpoints ih =>
    rw [tryEndpoints]
    split
    · exact (ih ..).skip .refl
    · next hskip =>
      have hskip : p.skips endpoint = false := by simpa using hskip
      split
      · exact (ih ..).skip ⟨id, Subset.refl _⟩
      · exact .single hskip
      · next f s' _ =>
        split
        · next hf => exact (ih ..).cons (hrecord p endpoint f) hskip hf
        · exact .single hskip

/-- Neither a pull nor a push goes back to plain HTTP or V1 for a registry that was seen to use TLS
or V2; the attempts follow the list up to the first one that does not fall back. -/
theorem no_downgrade (attempt : Nat → APIEndpoint → σ → Option (Except Failure α × σ))
    (endpoints : List APIEndpoint) (s : σ) :
    NoDowngrade endpoints (tryPull attempt endpoints s).1 ∧
      NoDowngrade endpoints (tryPush attempt endpoints s).1 :=
  ⟨(tryEndpoints_tries .after endpoints 0 {} s).noDowngrade,
    (tryEndpoints_tries .push endpoints 0 {} s).noDowngrade⟩

end

end Docker.Distribution
