import Docker.Reference.Lookup
import Docker.Registry.Config

/-!
# Endpoints of a registry

`registry/service_v1.go`, `registry/service_v2.go`, the look-up of `registry/service.go` and the
filter of `registry/session.go`. The filter looks at the hosts of the endpoints, and with `V2Only`
it is not reached.
-/

namespace Docker.Registry

open Reference Fallible List

inductive APIVersion where
  | v1 | v2
  deriving DecidableEq

structure APIEndpoint where
  mirror : Bool := false
  url : URL
  version : APIVersion
  official : Bool := false
  trimHostname : Bool := true
  tlsConfig : TLSConfig
  deriving DecidableEq

def defaultV1Registry : URL := ⟨https, "index.docker.io".toList, []⟩

def defaultV2Registry : URL := ⟨https, "registry-1.docker.io".toList, []⟩

section
variable {Addr Subnet : Type} (net : Net Addr Subnet) (r : Registries)
  (config : ServiceConfig Subnet)

def tlsConfig (hostname : Str) : Except Error TLSConfig :=
  newTLSConfig net hostname (isSecureIndex net config hostname)

/-- An address without a scheme is reached over HTTPS. -/
def withScheme (addr : Str) : Str :=
  if address http [] <+: addr ∨ address https [] <+: addr then addr else address https addr

def mirrorEndpoint (mirror : Str) : Except Error APIEndpoint :=
  match net.parse (withScheme mirror) with
  | none => .error (.parse (withScheme mirror))
  | some mirrorURL => do
    let mirrorTLSConfig ← tlsConfig net config mirrorURL.host
    return { mirror := true, url := mirrorURL, version := .v2, tlsConfig := mirrorTLSConfig }

/-- The endpoints of a registry that is not the public one: plain HTTP only if it is insecure. -/
def privateEndpoints (version : APIVersion) (hostname : Str) : Except Error (List APIEndpoint) := do
  let tls ← tlsConfig net config hostname
  let secure : APIEndpoint := { url := ⟨https, hostname, []⟩, version := version, tlsConfig := tls }
  if tls.insecureSkipVerify then return [secure, { secure with url := ⟨http, hostname, []⟩ }]
  return [secure]

def lookupV2Endpoints (hostname : Str) : Except Error (List APIEndpoint) :=
  if hostname = indexName ∨ hostname = defaultV1Registry.host then do
    let mirrors ← config.mirrors.mapM (mirrorEndpoint net config)
    return mirrors ++
      [{ url := defaultV2Registry, version := .v2, official := true, tlsConfig := .serverDefault }]
  else privateEndpoints net config .v2 hostname

def lookupV1Endpoints (hostname : Str) : Except Error (List APIEndpoint) :=
  if hostname = indexName then
    .ok
      [{ url := defaultV1Registry, version := .v1, official := true, tlsConfig := .serverDefault }]
  else privateEndpoints net config .v1 hostname

/-- An endpoint that cannot be parsed is blocked as well. -/
def isEndpointURLBlocked (endpoint : Str) : Bool :=
  match net.parse endpoint with
  | some parsedURL => r.isIndexBlocked parsedURL.host
  | none => true

def isEndpointBlocked (endpoint : APIEndpoint) : Bool :=
  isEndpointURLBlocked net r (net.string endpoint.url)

def filterBlockedEndpoints (endpoints : List APIEndpoint) : List APIEndpoint :=
  endpoints.filter fun endpoint => !isEndpointBlocked net r endpoint

def lookupEndpoints (hostname : Str) : Except Error (List APIEndpoint) := do
  let endpoints ← lookupV2Endpoints net config hostname
  if config.v2Only then return endpoints
  let legacyEndpoints ← lookupV1Endpoints net config hostname
  let endpoints := endpoints ++ legacyEndpoints
  let filtered := filterBlockedEndpoints net r endpoints
  if filtered.length = 0 ∧ endpoints.length > 0 then .error .allBlocked
  else return filtered

def lookupPullEndpoints (hostname : Str) : Except Error (List APIEndpoint) :=
  lookupEndpoints net r config hostname

def lookupPushEndpoints (hostname : Str) : Except Error (List APIEndpoint) := do
  let allEndpoints ← lookupEndpoints net r config hostname
  return allEndpoints.filter fun endpoint => !endpoint.mirror

/-! ## What is looked up -/

def allEndpoints (hostname : Str) : Except Error (List APIEndpoint) := do
  let endpoints ← lookupV2Endpoints net config hostname
  if config.v2Only then return endpoints
  return endpoints ++ (← lookupV1Endpoints net config hostname)

def hosts (hostname : Str) : List Str :=
  if hostname = indexName then [defaultV2Registry.host, defaultV1Registry.host] else [hostname]

end

section
variable {Addr Subnet : Type} {net : Net Addr Subnet} {r : Registries}
  {config : ServiceConfig Subnet}
  {hostname : Str} {es : List APIEndpoint} {e : APIEndpoint} {err : Error}

theorem isEndpointBlocked_of_url (hnet : net.Lawful) (hscheme : scheme = http ∨ scheme = https)
    (hhost : isHostText hostname = true) (h : e.url = ⟨scheme, hostname, []⟩) :
    isEndpointBlocked net r e = r.isIndexBlocked hostname := by
  rw [isEndpointBlocked, h, hnet.string hscheme hhost, isEndpointURLBlocked,
    hnet.parse hscheme hhost]

/-- An endpoint of the registry itself. -/
structure Own (hostname : Str) (e : APIEndpoint) : Prop where
  mirror : e.mirror = false
  url : ∃ n ∈ hosts hostname, ∃ scheme, (scheme = http ∨ scheme = https) ∧ e.url = ⟨scheme, n, []⟩

theorem privateEndpoints_own (hne : hostname ≠ indexName)
    (h : privateEndpoints net config version hostname = .ok es) :
    es ≠ [] ∧ ∀ e ∈ es, Own hostname e := by
  obtain ⟨tls, -, h⟩ := bind_eq_ok.1 h
  have hown {scheme : Str} hscheme :
      Own hostname { url := ⟨scheme, hostname, []⟩, version := version, tlsConfig := tls } :=
    ⟨rfl, hostname, by simp [hosts, hne], scheme, hscheme, rfl⟩
  split at h <;> cases h
  · simpa using ⟨hown (.inr rfl), hown (.inl rfl)⟩
  · simpa using hown (.inr rfl)

theorem mirror_of_mapM {mirrors : List Str}
    (h : mirrors.mapM (mirrorEndpoint net config) = .ok es) :
    ∀ e ∈ es, e.mirror = true := by
  induction mirrors generalizing es with
  | nil =>
    cases h
    simp
  | cons m ms ih =>
    rw [mapM_cons] at h
    obtain ⟨e, he, h⟩ := bind_eq_ok.1 h
    obtain ⟨es', hes, h⟩ := bind_eq_ok.1 h
    cases h
    refine forall_mem_cons.2 ⟨?_, ih hes⟩
    unfold mirrorEndpoint at he
    split at he
    · cases he
    · obtain ⟨tls, -, he⟩ := bind_eq_ok.1 he
      cases he
      rfl

theorem lookupV2Endpoints_own (hne : hostname ≠ legacyDefaultHostname)
    (h : lookupV2Endpoints net config hostname = .ok es) :
    es ≠ [] ∧ ∀ e ∈ es, e.mirror = true ∨ Own hostname e := by
  unfold lookupV2Endpoints at h
  split at h
  · next hor =>
    obtain rfl : hostname = indexName := hor.resolve_right hne
    obtain ⟨mirrors, hmirrors, h⟩ := bind_eq_ok.1 h
    cases h
    refine ⟨by simp, fun e he => ?_⟩
    rcases mem_append.1 he with he | he
    · exact .inl (mirror_of_mapM hmirrors e he)
    · rw [mem_singleton.1 he]
      exact .inr ⟨rfl, _, mem_cons_self, https, .inr rfl, rfl⟩
  · next hor =>
    obtain ⟨hes, hown⟩ := privateEndpoints_own (fun he => hor (.inl he)) h
    exact ⟨hes, fun e he => .inr (hown e he)⟩

theorem lookupV1Endpoints_own (h : lookupV1Endpoints net config hostname = .ok es) :
    ∀ e ∈ es, Own hostname e := by
  unfold lookupV1Endpoints at h
  split at h
  · next hor =>
    cases h
    rw [forall_mem_singleton, hor]
    exact ⟨rfl, _, mem_cons_of_mem _ mem_cons_self, https, .inr rfl, rfl⟩
  · next hne => exact (privateEndpoints_own hne h).2

theorem allEndpoints_own (hne : hostname ≠ legacyDefaultHostname)
    (h : allEndpoints net config hostname = .ok es) :
    es ≠ [] ∧ ∀ e ∈ es, e.mirror = true ∨ Own hostname e := by
  obtain ⟨v2, hv2, h⟩ := bind_eq_ok.1 h
  obtain ⟨hes, hown⟩ := lookupV2Endpoints_own hne hv2
  split at h
  · cases h
    exact ⟨hes, hown⟩
  · obtain ⟨v1, hv1, h⟩ := bind_eq_ok.1 h
    cases h
    refine ⟨by simp [hes], List.forall_mem_append.2 ⟨hown, fun e he => ?_⟩⟩
    exact .inr (lookupV1Endpoints_own hv1 e he)

theorem exists_mem_privateEndpoints (h : privateEndpoints net config version hostname = .ok es) :
    ∃ e ∈ es, e.url = ⟨https, hostname, []⟩ := by
  obtain ⟨tls, -, h⟩ := bind_eq_ok.1 h
  split at h <;> cases h <;> exact ⟨_, mem_cons_self, rfl⟩

/-- Every host of a registry has an endpoint. -/
theorem exists_mem_allEndpoints (hv2 : config.v2Only = false)
    (h : allEndpoints net config hostname = .ok es) :
    ∀ n ∈ hosts hostname, ∃ e ∈ es, e.url = ⟨https, n, []⟩ := by
  obtain ⟨v2, hv2Endpoints, h⟩ := bind_eq_ok.1 h
  rw [hv2, if_neg Bool.false_ne_true] at h
  obtain ⟨v1, hv1, h⟩ := bind_eq_ok.1 h
  cases h
  unfold lookupV2Endpoints at hv2Endpoints
  unfold lookupV1Endpoints at hv1
  intro n hn
  unfold hosts at hn
  split at hn
  · next he =>
    rw [if_pos (.inl he)] at hv2Endpoints
    rw [if_pos he] at hv1
    obtain ⟨mirrors, -, hv2Endpoints⟩ := bind_eq_ok.1 hv2Endpoints
    cases hv2Endpoints
    cases hv1
    simp only [mem_cons, not_mem_nil, or_false] at hn
    rcases hn with rfl | rfl
    · exact ⟨_, mem_append_left _ (mem_append_right _ mem_cons_self), rfl⟩
    · exact ⟨_, mem_append_right _ mem_cons_self, rfl⟩
  · next hne =>
    rw [mem_singleton.1 hn]
    rw [if_neg hne] at hv1
    obtain ⟨e, he, hurl⟩ := exists_mem_privateEndpoints hv1
    exact ⟨e, mem_append_right _ he, hurl⟩

/-- The hosts of a registry are blocked or not like its endpoints. -/
theorem isIndexBlocked_of_endpoints (hnet : net.Lawful)
    (hhost : ∀ n ∈ hosts hostname, isHostText n = true) (hv2 : config.v2Only = false)
    (h : allEndpoints net config hostname = .ok es) (hb : ∀ e ∈ es, isEndpointBlocked net r e = b) :
    ∀ n ∈ hosts hostname, r.isIndexBlocked n = b := by
  intro n hn
  obtain ⟨e, he, hurl⟩ := exists_mem_allEndpoints hv2 h n hn
  rw [← isEndpointBlocked_of_url hnet (.inr rfl) (hhost n hn) hurl, hb e he]

theorem lookupEndpoints_of_error (h : allEndpoints net config hostname = .error err) :
    lookupEndpoints net r config hostname = .error err := by
  unfold allEndpoints at h
  unfold lookupEndpoints
  cases hv2 : lookupV2Endpoints net config hostname with
  | error e => simpa [hv2, bind, Except.bind] using h
  | ok v2 =>
    cases hv1 : lookupV1Endpoints net config hostname with
    | error e => cases hv : config.v2Only <;> simp_all [bind, Except.bind]
    | ok v1 => cases hv : config.v2Only <;> simp_all [bind, Except.bind, pure, Except.pure]

/-- With `V2Only` all endpoints are returned, otherwise those that are not blocked, if there are
any. -/
theorem lookupEndpoints_of_ok (hes : es ≠ []) (h : allEndpoints net config hostname = .ok es) :
    lookupEndpoints net r config hostname = if config.v2Only then .ok es
      else if ∀ e ∈ es, isEndpointBlocked net r e = true then .error .allBlocked
      else .ok (es.filter fun e => !isEndpointBlocked net r e) := by
  obtain ⟨v2, hv2, h⟩ := bind_eq_ok.1 h
  unfold lookupEndpoints
  rw [hv2]
  cases hv : config.v2Only with
  | true =>
    rw [hv] at h
    cases h
    rfl
  | false =>
    rw [hv] at h
    obtain ⟨v1, hv1, h⟩ := bind_eq_ok.1 h
    cases h
    have hnil : (filterBlockedEndpoints net r (v2 ++ v1)).length = 0 ∧ (v2 ++ v1).length > 0 ↔
        ∀ e ∈ v2 ++ v1, isEndpointBlocked net r e = true := by
      rw [and_iff_left (length_pos_iff.2 hes), length_eq_zero_iff, filterBlockedEndpoints,
        filter_eq_nil_iff]
      simp only [Bool.not_eq_true', Bool.not_eq_false]
    rw [hv1]
    change (if _ then _ else _) = if _ then _ else _
    simp only [hnil]
    rfl

theorem lookupPushEndpoints_of_ok (h : lookupEndpoints net r config hostname = .ok es) :
    lookupPushEndpoints net r config hostname = .ok (es.filter fun e => !e.mirror) := by
  rw [lookupPushEndpoints, h]
  rfl

theorem lookupPushEndpoints_of_error (h : lookupEndpoints net r config hostname = .error err) :
    lookupPushEndpoints net r config hostname = .error err := by
  rw [lookupPushEndpoints, h]
  rfl

/-- The endpoints of a registry are blocked or not like its hosts. -/
theorem Own.blocked (hnet : net.Lawful) (h : Own hostname e)
    (hhost : ∀ n ∈ hosts hostname, isHostText n = true)
    (hb : ∀ n ∈ hosts hostname, r.isIndexBlocked n = b) : isEndpointBlocked net r e = b := by
  obtain ⟨n, hn, scheme, hscheme, hurl⟩ := h.url
  rw [isEndpointBlocked_of_url hnet hscheme (hhost n hn) hurl, hb n hn]

theorem hostname_ne_legacy (ref : Named) : ref.hostname ≠ legacyDefaultHostname := by
  unfold Named.hostname splitHostname
  split
  dsimp only
  split
  · decide
  · assumption

theorem isHostText_hosts (ref : Named) : ∀ n ∈ hosts ref.hostname, isHostText n = true := by
  unfold hosts
  split
  · decide
  · rw [forall_mem_singleton]
    exact isHostText_hostname ref

def exampleFoo : Named where
  name := "example.com/foo".toList
  kind := .nameOnly
  name_valid := by decide
  kind_valid := isValid_nameOnly

def officialFoo : Named where
  name := "docker.io/foo".toList
  kind := .nameOnly
  name_valid := Store.dockerFoo.name_valid
  kind_valid := isValid_nameOnly

/-- With `V2Only` a blocked registry has endpoints, and so has the public registry if only its name
is blocked; where all but the defaults are blocked it has none. -/
theorem lookupEndpoints_not_iff_blocked :
    (let r : Registries := ⟨[exampleFoo.hostname], [indexName]⟩
     let config : ServiceConfig Empty := { mirrors := [], v2Only := true }
     r.isIndexBlocked exampleFoo.hostname = true ∧
       (lookupPullEndpoints plainNet r config exampleFoo.hostname).map List.length = .ok 1 ∧
       (lookupPushEndpoints plainNet r config exampleFoo.hostname).map List.length = .ok 1) ∧
    (let r : Registries := ⟨[officialFoo.hostname], [indexName]⟩
     let config : ServiceConfig Empty := { mirrors := [], v2Only := false }
     r.isIndexBlocked officialFoo.hostname = true ∧
       (lookupPullEndpoints plainNet r config officialFoo.hostname).map List.length = .ok 2 ∧
       (lookupPushEndpoints plainNet r config officialFoo.hostname).map List.length = .ok 2) ∧
    (let r : Registries := ⟨[['*']], [indexName]⟩
     let config : ServiceConfig Empty := { mirrors := [], v2Only := false }
     r.isIndexBlocked officialFoo.hostname = false ∧
       lookupPullEndpoints plainNet r config officialFoo.hostname = .error .allBlocked ∧
       lookupPushEndpoints plainNet r config officialFoo.hostname = .error .allBlocked) := by
  decide

/-- A blocked registry has no endpoints and any other all of its if and only if, where there are
endpoints to be looked up, its hosts and mirrors are blocked like it and the filter is reached for a
blocked one. -/
theorem lookupEndpoints_of_hosts (hnet : net.Lawful) (r : Registries)
    (config : ServiceConfig Subnet) (ref : Named) :
    ((r.isIndexBlocked ref.hostname = true →
      (∃ err, lookupPullEndpoints net r config ref.hostname = .error err) ∧
      ∃ err, lookupPushEndpoints net r config ref.hostname = .error err) ∧
    (r.isIndexBlocked ref.hostname = false → ∀ es, allEndpoints net config ref.hostname = .ok es →
      (∀ e ∈ es, e.mirror = true → isEndpointBlocked net r e = false) →
      lookupPullEndpoints net r config ref.hostname = .ok es ∧
      lookupPushEndpoints net r config ref.hostname = .ok (es.filter fun e => !e.mirror))) ↔
    ∀ es, allEndpoints net config ref.hostname = .ok es →
      (r.isIndexBlocked ref.hostname = true → config.v2Only = false ∧
        (∀ n ∈ hosts ref.hostname, r.isIndexBlocked n = true) ∧
        ∀ e ∈ es, e.mirror = true → isEndpointBlocked net r e = true) ∧
      (r.isIndexBlocked ref.hostname = false →
        (∀ e ∈ es, e.mirror = true → isEndpointBlocked net r e = false) →
        config.v2Only = true ∨ ∀ n ∈ hosts ref.hostname, r.isIndexBlocked n = false) := by
  have hhost := isHostText_hosts ref
  constructor
  · rintro ⟨herrors, hreturns⟩ es hall
    obtain ⟨hes, -⟩ := allEndpoints_own (hostname_ne_legacy ref) hall
    have hlookup := lookupEndpoints_of_ok (r := r) hes hall
    constructor
    · intro hb
      obtain ⟨⟨err, herr⟩, -⟩ := herrors hb
      rw [lookupPullEndpoints, hlookup] at herr
      split at herr
      · cases herr
      · next hv2 =>
        have hv2 : config.v2Only = false := by simpa using hv2
        split at herr
        · next hblocked =>
          exact ⟨hv2, isIndexBlocked_of_endpoints hnet hhost hv2 hall hblocked, fun e he _ =>
            hblocked e he⟩
        · cases herr
    · intro hb hmirrors
      obtain ⟨hok, -⟩ := hreturns hb es hall hmirrors
      rw [lookupPullEndpoints, hlookup] at hok
      cases hv2 : config.v2Only with
      | true => exact .inl rfl
      | false =>
        rw [hv2, if_neg Bool.false_ne_true] at hok
        split at hok
        · cases hok
        · have hopen := List.filter_eq_self.1 (Except.ok.inj hok)
          exact .inr (isIndexBlocked_of_endpoints hnet hhost hv2 hall
            fun e he => by simpa using hopen e he)
  · intro hcond
    constructor
    · intro hb
      have herr : ∃ err, lookupEndpoints net r config ref.hostname = .error err := by
        cases hall : allEndpoints net config ref.hostname with
        | error err => exact ⟨err, lookupEndpoints_of_error hall⟩
        | ok es =>
          obtain ⟨hv2, hhosts, hmirrors⟩ := (hcond es hall).1 hb
          obtain ⟨hes, hown⟩ := allEndpoints_own (hostname_ne_legacy ref) hall
          have hblocked : ∀ e ∈ es, isEndpointBlocked net r e = true := fun e he =>
            (hown e he).elim (hmirrors e he) fun ho => ho.blocked hnet hhost hhosts
          refine ⟨.allBlocked, ?_⟩
          rw [lookupEndpoints_of_ok hes hall, hv2, if_neg Bool.false_ne_true, if_pos hblocked]
      obtain ⟨err, herr⟩ := herr
      exact ⟨⟨err, herr⟩, err, lookupPushEndpoints_of_error herr⟩
    · intro hb es hall hmirrors
      obtain ⟨hes, hown⟩ := allEndpoints_own (hostname_ne_legacy ref) hall
      have hok : lookupEndpoints net r config ref.hostname = .ok es := by
        rw [lookupEndpoints_of_ok hes hall]
        cases hv2 : config.v2Only with
        | true => rfl
        | false =>
          have hhosts := ((hcond es hall).2 hb hmirrors).resolve_left (by simp [hv2])
          have hopen : ∀ e ∈ es, isEndpointBlocked net r e = false := fun e he =>
            (hown e he).elim (hmirrors e he) fun ho => ho.blocked hnet hhost hhosts
          have hne : ¬ ∀ e ∈ es, isEndpointBlocked net r e = true := by
            obtain ⟨e, he⟩ := exists_mem_of_ne_nil es hes
            exact fun hall => Bool.false_ne_true ((hopen e he).symm.trans (hall e he))
          rw [if_neg Bool.false_ne_true, if_neg hne,
            List.filter_eq_self.2 fun e he => by rw [hopen e he]; rfl]
      exact ⟨hok, lookupPushEndpoints_of_ok hok⟩

theorem lookupEndpoints_of_hosts_exampleFoo :
    (∃ err, lookupPullEndpoints plainNet ⟨[exampleFoo.hostname], [indexName]⟩
      { mirrors := [], v2Only := false }
      exampleFoo.hostname = .error err) ∧
    ∃ es, lookupPullEndpoints plainNet ⟨[], [indexName]⟩
      { mirrors := [], v2Only := false } exampleFoo.hostname = .ok es := by
  refine ⟨?_, ?_⟩
  · refine (((lookupEndpoints_of_hosts plainNet_lawful ⟨[exampleFoo.hostname], [indexName]⟩
      { mirrors := [], v2Only := false } exampleFoo).2 fun es hes => ?_).1 (by decide)).1
    cases hes
    decide
  · refine ⟨_,
      (((lookupEndpoints_of_hosts plainNet_lawful ⟨[], [indexName]⟩
      { mirrors := [], v2Only := false }
      exampleFoo).2 fun es hes => ?_).2 (by decide) _ rfl (by decide)).1⟩
    cases hes
    decide

end

end Docker.Registry
