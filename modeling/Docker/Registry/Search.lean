import Docker.Lib.Prog
import Docker.Registry.Endpoints

/-!
# Search

`Search` and `searchTerm` of `registry/service.go`, with the V1 endpoint they set up
(`registry/endpoint_v1.go`), the session (`registry/session.go`) and the V2 authorization
(`registry/auth.go`). A search of one term is a program that makes requests, each with the name of
the index it is made for. The results are left out.
-/

namespace Docker.Registry

open Reference Prog Fallible

inductive Request where
  /-- `_ping` of a V1 registry -/
  | ping (index url : Str)
  /-- The ping of `PingV2Registry`. -/
  | pingV2 (index url : Str)
  /-- The token that a query with the V2 client needs. -/
  | authorize (index : Str)
  | query (index url term : Str) (limit : Int)
  deriving DecidableEq

def Request.index : Request → Str
  | .ping index _ | .pingV2 index _ | .authorize index | .query index _ _ _ => index

/-- A token comes from the server that the registry names. -/
def Request.url : Request → Option Str
  | .ping _ url | .pingV2 _ url | .query _ url _ _ => some url
  | .authorize _ => none

/-- The answer to a ping of a V2 registry: whether it says that it is one, and whether it asks for a
token. -/
structure PingV2 where
  foundV2 : Bool
  challenge : Bool

/-- What the answer is read as; `none` and `error` are failures. -/
def Request.Answer : Request → Type
  /- whether the registry is standalone -/
  | .ping .. => Option Bool
  | .pingV2 .. => Except Bool PingV2
  | .authorize .. => Bool
  /- the names of the repositories found -/
  | .query .. => Option (List Str)

inductive SearchError where
  | config (e : Error)
  /-- `Invalid repository name (ex: "registry.domain.tld/myrepos")` -/
  | invalidRepositoryName
  /-- `unsupported V1 version path %s` -/
  | unsupportedVersion (path : Str)
  /-- `invalid registry endpoint` -/
  | invalidEndpoint (url : Str)
  | ping
  | v2Auth
  /-- `Index %q is blocked.` -/
  | indexBlocked (url : Str)
  /-- `Limit %d is outside the range of [1, 100]` -/
  | limit (limit : Int)
  | query
  /-- `No configured repository to search.` -/
  | noRegistry
  deriving DecidableEq

abbrev Act := ExceptT SearchError (Prog Request Request.Answer)

structure AuthConfig where
  username : Str
  identityToken : Str
  deriving DecidableEq

structure V1Endpoint where
  /-- The index it was made for. -/
  index : Str
  url : URL
  isSecure : Bool
  deriving DecidableEq

structure SearchResult where
  indexName : Str
  registryName : Str
  name : Str
  deriving DecidableEq

section
variable {Addr Subnet : Type} (net : Net Addr Subnet) (r : Registries)
  (config : ServiceConfig Subnet) (authConfigs : List (Str × AuthConfig)) (limit : Int)

/-! ## Terms -/

def Registries.splitReposSearchTerm (reposName : Str) (fixMissingIndex : Bool) : Str × Str :=
  match cut '/' reposName with
  | (front, some rest) =>
    if looksLikeHost front then (front, rest)
      else (if fixMissingIndex then r.indexServerName else [], reposName)
  | (_, none) => (if fixMissingIndex then r.indexServerName else [], reposName)

def Registries.isReposSearchTermFullyQualified (term : Str) : Bool :=
  (r.splitReposSearchTerm term false).1 != []

/-- The terms that are searched, at the same time: the given one, or one for each default
registry. -/
def Registries.searchTerms (term : Str) : Except SearchError (List Str) :=
  if r.isReposSearchTermFullyQualified term then .ok [term]
  else if r.defaults.length < 1 then .error .noRegistry
  else .ok (r.defaults.mapIdx fun i name => if i > 0 then name ++ '/' :: term else term)

/-! ## Endpoints -/

def indexServer : Str := net.string defaultV1Registry ++ "/v1/".toList

def getAuthConfigKey (index : IndexInfo) : Str :=
  if index.official then indexServer net else index.name

/-- The host of a key of a legacy configuration file. -/
def convertToHostname (url : Str) : Str :=
  (cut '/' (if address http [] <+: url then trimPrefix (address http []) url else trimPrefix
    (address https []) url)).1

def resolveAuthConfig (index : IndexInfo) : AuthConfig :=
  let configKey := getAuthConfigKey net index
  match authConfigs.find? fun p => p.1 = configKey with
  | some (_, c) => c
  | none =>
    if index.official then ⟨[], []⟩
    else match authConfigs.find? fun p => configKey = convertToHostname p.1 with
      | some (_, c) => c
      | none => ⟨[], []⟩

def trimV1Address (address : Str) : Except SearchError Str :=
  let address := if ['/'] <:+ address then address.dropLast else address
  let chunks := address.splitOn '/'
  let apiVersionStr := chunks.getLastD []
  if apiVersionStr = "v1".toList then .ok (['/'].intercalate chunks.dropLast)
  else if apiVersionStr = "v2".toList then .error (.unsupportedVersion apiVersionStr)
  else .ok address

def newV1EndpointFromStr (index address : Str) (tls : TLSConfig) : Except SearchError V1Endpoint :=
  do
  let address ← trimV1Address (withScheme address)
  match net.parse address with
  | none => .error (.config (.parse address))
  | some uri => .ok ⟨index, uri, !tls.insecureSkipVerify⟩

namespace V1Endpoint

variable (e : V1Endpoint)

def string : Str := net.string e.url ++ "/v1/".toList

def path (path : Str) : Str := net.string e.url ++ "/v1/".toList ++ path

def getPing : Act (Option Bool) := ask (Request.ping e.index (e.path net "_ping".toList))

/-- Whether the registry is standalone, if it answers. The official index is not pinged. -/
def ping : Act (Option Bool) :=
  if e.string net = indexServer net then pure (some false) else e.getPing net

end V1Endpoint

def setUpEndpoint (index : IndexInfo) : Except SearchError V1Endpoint := do
  match newTLSConfig net index.name index.secure with
  | .error e => .error (.config e)
  | .ok tls =>
    let e ← newV1EndpointFromStr net index.name (getAuthConfigKey net index) tls
    return { e with url := { e.url with scheme := https } }

/-- An insecure registry that does not answer over HTTPS is tried over HTTP. -/
def validateEndpoint (e : V1Endpoint) : Act V1Endpoint := do
  match ← e.ping net with
  | some _ => return e
  | none =>
    if e.isSecure then throw (.invalidEndpoint (e.string net))
    else
      let e := { e with url := { e.url with scheme := http } }
      match ← e.ping net with
      | some _ => return e
      | none => throw (.invalidEndpoint (e.string net))

def pingV2Registry (e : V1Endpoint) : Act (Except Bool PingV2) :=
  ask (Request.pingV2 e.index ((net.string e.url).rdropWhile (· == '/') ++ "/v2/".toList))

/-- The client of the V2 authorization, if the registry has it; it may need a token. -/
def v2AuthHTTPClient (e : V1Endpoint) : Act (Option Bool) := do
  match ← pingV2Registry net e with
  | .ok answer => return if answer.foundV2 then some answer.challenge else none
  | .error foundV2 => if foundV2 then throw .v2Auth else return none

def authorizeClient (e : V1Endpoint) : Act PUnit := do
  if e.string net ≠ indexServer net ∧ e.url.scheme = https then
    match ← e.ping net with
    | some _ => return
    | none => throw .ping

def newSession (e : V1Endpoint) : Act PUnit :=
  if isEndpointURLBlocked net r (net.string e.url) then throw (.indexBlocked (net.string e.url))
  else authorizeClient net e

def authorizeQuery (e : V1Endpoint) (challenge : Bool) : Act Bool :=
  if challenge then ask (Request.authorize e.index) else pure true

def query (e : V1Endpoint) (term : Str) : Act (Option (List Str)) :=
  ask (Request.query e.index (e.path net "search".toList) term limit)

def searchRepositories (e : V1Endpoint) (challenge : Bool) (term : Str) : Act (List Str) :=
  if limit < 1 ∨ limit > 100 then throw (.limit limit)
  else do
    match ← authorizeQuery e challenge with
    | false => throw .query
    | true =>
      match ← query net limit e term with
      | some results => return results
      | none => throw .query

/-! ## Searches -/

def Registries.searchResult (index : IndexInfo) (name : Str) : SearchResult :=
  match r.splitReposSearchTerm name false with
  | (newRegistryName, newName) =>
    if newRegistryName ≠ [] then ⟨index.name, newRegistryName, newName⟩
      else ⟨index.name, index.name, name⟩

/-- The index and the endpoint of a term, before the first request. -/
def setUp (term : Str) : Except SearchError (IndexInfo × V1Endpoint) := do
  if "://".toList <:+: term then .error .invalidRepositoryName
  else
    match newIndexInfo net r config (r.splitReposSearchTerm term true).1 with
    | .error e => .error (.config e)
    | .ok index => return (index, ← setUpEndpoint net index)

/-- `library/` is dropped in front of a name of the official index. -/
def localName (index : IndexInfo) (remoteName : Str) : Str :=
  if index.official then trimPrefix defaultRepoPrefix remoteName else remoteName

def useToken (authConfig : AuthConfig) : Bool :=
  authConfig.identityToken ≠ [] ∧ authConfig.username ≠ []

/-- The V2 client, which is only tried with an identity token; whoever has none gets the V1
client. -/
def searchClient (e : V1Endpoint) (authConfig : AuthConfig) : Act (Option Bool) :=
  if useToken authConfig then v2AuthHTTPClient net e else pure none

def authorizeV1 (e : V1Endpoint) : Option Bool → Act PUnit
  | none => authorizeClient net e
  | some _ => pure ⟨⟩

def searchTerm (term : Str) : Act (List SearchResult) := do
  let (index, e) ← ExceptT.mk (.ret (setUp net r config term))
  let e ← validateEndpoint net e
  let client ← searchClient net e (resolveAuthConfig net authConfigs index)
  authorizeV1 net e client
  newSession net r e
  let results ← searchRepositories net limit e (client.getD false)
    (localName index (r.splitReposSearchTerm term true).2)
  return results.map (r.searchResult index)

/-- Some run of a search for the term makes the request. -/
def Sends (term : Str) (req : Request) : Prop :=
  ∃ terms, r.searchTerms term = .ok terms ∧ ∃ t ∈ terms, ∃ reqs,
    (searchTerm net r config authConfigs limit t).run.Makes (fun _ _ => True) reqs ∧ req ∈ reqs

/-- The index that requests are made for: for the official one with an identity token, or behind the
check of `NewSession`. -/
def contacted (term : Str) : Option Str :=
  match setUp net r config term with
  | .error _ => none
  | .ok (index, e) =>
    if e.string net ≠ indexServer net ∨ useToken (resolveAuthConfig net authConfigs index) = true ∨
      isEndpointURLBlocked net r (net.string e.url) = false ∧ 1 ≤ limit ∧
        limit ≤ 100 then some e.index
    else none

end

/-! ## Which requests are made -/

section
variable {Addr Subnet : Type} {net : Net Addr Subnet} {r : Registries}
  {config : ServiceConfig Subnet} {authConfigs : List (Str × AuthConfig)} {limit : Int}
  {e : V1Endpoint} {good : Request → Prop} {term : Str}

abbrev Requests {α : Type} (good : Request → Prop) (x : Act α) (Q : α → Prop) : Prop :=
  Safe (fun _ _ => True) good x Q

/-- The request is made for the index of the endpoint, and to a url below that of the endpoint, over
HTTPS or HTTP. -/
structure MadeTo (net : Net Addr Subnet) (e : V1Endpoint) (req : Request) : Prop where
  index : req.index = e.index
  url : ∀ u ∈ req.url, ∃ scheme, (scheme = http ∨ scheme = https) ∧
    (net.string { e.url with scheme }).rdropWhile (· == '/') <+: u

section
variable (hscheme : e.url.scheme = http ∨ e.url.scheme = https)
include hscheme

theorem madeTo_path (hindex : req.index = e.index) (hurl : req.url = some (e.path net path)) :
    MadeTo net e req where
  index := hindex
  url u hu := by
    obtain rfl : e.path net path = u := Option.some.inj (hurl.symm.trans hu)
    exact ⟨_, hscheme, ( List.rdropWhile_prefix _ _).trans
      (( List.prefix_append _ _).trans ( List.prefix_append _ _))⟩

section
variable (hgood : ∀ req, MadeTo net e req → good req)
include hgood

theorem requests_ping : Requests good (e.ping net) fun _ => True := by
  unfold V1Endpoint.ping
  split
  · trivial
  · exact ⟨hgood _ (madeTo_path hscheme rfl rfl), fun _ _ => trivial⟩

theorem requests_validateEndpoint : Requests good (validateEndpoint net e) fun e' =>
    (e'.url.scheme = http ∨ e'.url.scheme = https) ∧ ∀ req, MadeTo net e' req →
      MadeTo net e req := by
  unfold validateEndpoint
  rw [Requests, safe_bind]
  refine (requests_ping hscheme hgood).mono fun a _ => ?_
  cases a with
  | some _ => exact ⟨hscheme, fun _ h => h⟩
  | none =>
    dsimp only
    split
    · trivial
    · rw [safe_bind]
      refine (requests_ping (e := { e with url := { e.url with scheme := http } }) (.inl rfl)
        fun req h => hgood req ⟨h.index, h.url⟩).mono fun a _ => ?_
      cases a with
      | some _ => exact ⟨.inl rfl, fun _ h => ⟨h.index, h.url⟩⟩
      | none => trivial

theorem requests_v2AuthHTTPClient : Requests good (v2AuthHTTPClient net e) fun _ => True := by
  unfold v2AuthHTTPClient
  refine ⟨hgood _ ⟨rfl, fun u hu => ?_⟩, fun answer _ => ?_⟩
  · cases hu
    exact ⟨_, hscheme, List.prefix_append _ _⟩
  cases answer with
  | ok a => trivial
  | error found => cases found <;> trivial

theorem requests_authorizeClient : Requests good (authorizeClient net e) fun _ => True := by
  unfold authorizeClient
  split
  · rw [Requests, safe_bind]
    refine (requests_ping hscheme hgood).mono fun a _ => ?_
    cases a <;> trivial
  · trivial

theorem requests_newSession : Requests good (newSession net r e) fun _ => True := by
  unfold newSession
  split
  · trivial
  · exact requests_authorizeClient hscheme hgood

theorem requests_searchClient (authConfig : AuthConfig) :
    Requests good (searchClient net e authConfig) fun _ => True := by
  unfold searchClient
  split
  · exact requests_v2AuthHTTPClient hscheme hgood
  · trivial

theorem requests_authorizeV1 (client : Option Bool) :
    Requests good (authorizeV1 net e client) fun _ => True := by
  cases client with
  | none => exact requests_authorizeClient hscheme hgood
  | some _ => trivial

omit hscheme in
theorem requests_authorizeQuery (challenge : Bool) :
    Requests good (authorizeQuery e challenge) fun _ => True := by
  cases challenge with
  | false => trivial
  | true => exact ⟨hgood _ ⟨rfl, nofun⟩, fun _ _ => trivial⟩

theorem requests_searchRepositories (challenge : Bool) (term : Str) :
    Requests good (searchRepositories net limit e challenge term) fun _ => True := by
  unfold searchRepositories
  split
  · trivial
  · rw [Requests, safe_bind]
    refine (requests_authorizeQuery hgood challenge).mono fun authorized _ => ?_
    cases authorized with
    | false => trivial
    | true =>
      refine ⟨hgood _ (madeTo_path hscheme rfl rfl), fun a _ => ?_⟩
      cases a <;> trivial

end

end

theorem requests_setUp : Requests good (ExceptT.mk (.ret (setUp net r config term)) >>= k) Q ↔
      ∀ p, setUp net r config term = .ok p → Requests good (k p) Q := by
  cases setUp net r config term with
  | error e | ok p => simp [Safe, Always, ExceptT.run, ExceptT.mk]

/-- The endpoint has the name of the index, and its address, which is asked over HTTPS first. -/
structure EndpointOf (net : Net Addr Subnet) (index : IndexInfo) (e : V1Endpoint) : Prop where
  name : e.index = index.name
  url : ∃ address uri, trimV1Address (withScheme (getAuthConfigKey net index)) = .ok address ∧
    net.parse address = some uri ∧ e.url = { uri with scheme := https }

theorem endpoint_of_setUp (h : setUp net r config term = .ok (index, e)) :
    newIndexInfo net r config (r.splitReposSearchTerm term true).1 = .ok index ∧
      EndpointOf net index e := by
  unfold setUp at h
  split at h
  · cases h
  · split at h
    · cases h
    · next i hi =>
      obtain ⟨e', he', h⟩ := bind_eq_ok.1 h
      cases h
      unfold setUpEndpoint at he'
      split at he'
      · cases he'
      · obtain ⟨e'', he'', he⟩ := bind_eq_ok.1 he'
        cases he
        obtain ⟨address, haddress, hparse⟩ := bind_eq_ok.1 he''
        split at hparse <;> cases hparse
        next uri huri => exact ⟨hi, rfl, address, uri, haddress, huri, rfl⟩

theorem requests_searchTerm
    (hgood : ∀ index e, setUp net r config term = .ok (index, e) → ∀ req,
      MadeTo net e req → good req) :
    Requests good (searchTerm net r config authConfigs limit term) fun _ => True := by
  unfold searchTerm
  rw [requests_setUp]
  rintro ⟨index, e⟩ hset
  rw [Requests, safe_bind]
  obtain ⟨_, _, -, -, hurl⟩ := (endpoint_of_setUp hset).2.url
  refine (requests_validateEndpoint (.inr (by rw [hurl])) (hgood index e hset)).mono
    fun e' he' => ?_
  obtain ⟨hscheme, he'⟩ := he'
  have hgood : ∀ req, MadeTo net e' req → good req :=
    fun req hreq => hgood index e hset req (he' req hreq)
  rw [safe_bind]
  refine (requests_searchClient hscheme hgood _).mono fun client _ => ?_
  rw [safe_bind]
  refine (requests_authorizeV1 hscheme hgood client).mono fun _ _ => ?_
  rw [safe_bind]
  refine (requests_newSession hscheme hgood).mono fun _ _ => ?_
  rw [safe_bind]
  exact (requests_searchRepositories hscheme hgood _ _).mono fun _ _ => trivial

section
variable (h : e.string net = indexServer net)
include h

theorem ping_official : Requests good (e.ping net) Q ↔ Q (some false) := by
  rw [V1Endpoint.ping, if_pos h]
  rfl

theorem validateEndpoint_official : Requests good (validateEndpoint net e) Q ↔ Q e := by
  rw [validateEndpoint, Requests, safe_bind, ← Requests, ping_official h]
  rfl

theorem authorizeClient_official : Requests good (authorizeClient net e) Q ↔ Q ⟨⟩ := by
  rw [authorizeClient, if_neg fun hne => hne.1 h]
  rfl

theorem newSession_official : Requests good (newSession net r e) Q ↔
    (isEndpointURLBlocked net r (net.string e.url) = false → Q ⟨⟩) := by
  unfold newSession
  cases isEndpointURLBlocked net r (net.string e.url) with
  | true => exact ⟨fun _ => nofun, fun _ => trivial⟩
  | false => exact (authorizeClient_official h).trans ⟨fun hq _ => hq, fun hq => hq rfl⟩

end

/-- A search of one term makes requests for a blocked index exactly if that is the index it
contacts. -/
theorem requests_searchTerm_iff :
    Requests (fun req => r.isIndexBlocked req.index = false)
      (searchTerm net r config authConfigs limit term) (fun _ => True) ↔
      ∀ n, contacted net r config authConfigs limit term = some n → r.isIndexBlocked n = false := by
  constructor
  · intro h n hn
    unfold contacted at hn
    split at hn
    · cases hn
    · next index e hset =>
      split at hn <;> cases hn
      next hor =>
      have h := requests_setUp.1 h _ hset
      by_cases hoff : e.string net = indexServer net
      · rw [Requests, safe_bind, ← Requests, validateEndpoint_official hoff, safe_bind,
          searchClient] at h
        cases htok : useToken (resolveAuthConfig net authConfigs index) with
        | true =>
          rw [htok, if_pos rfl, v2AuthHTTPClient, safe_bind] at h
          exact h.1
        | false =>
          -- The query is the first request.
          obtain ⟨hopen, hle, hge⟩ := (hor.resolve_left fun hne => hne hoff).resolve_left
            (by simp [htok])
          rw [htok, if_neg Bool.false_ne_true, safe_pure, safe_bind, authorizeV1, ← Requests,
            authorizeClient_official hoff,
            safe_bind, ← Requests, newSession_official hoff] at h
          have h := h hopen
          rw [safe_bind, searchRepositories, if_neg (by omega), safe_bind, authorizeQuery] at h
          exact (safe_bind.1 h).1
      · rw [Requests, safe_bind, validateEndpoint, safe_bind, V1Endpoint.ping, if_neg hoff] at h
        exact h.1
  · intro h
    cases hc : contacted net r config authConfigs limit term with
    | some n =>
      refine requests_searchTerm fun index e hset req hreq => ?_
      refine hreq.index ▸ h _ ?_
      rw [contacted, hset] at hc ⊢
      dsimp only at hc ⊢
      split at hc
      · exact if_pos ‹_›
      · cases hc
    | none =>
      unfold searchTerm
      rw [requests_setUp]
      rintro ⟨index, e⟩ hset
      rw [contacted, hset] at hc
      dsimp only at hc
      split at hc
      · cases hc
      next hor =>
      rw [not_or, not_or, not_not, Bool.not_eq_true] at hor
      obtain ⟨hoff, htok, hlimit⟩ := hor
      rw [Requests, safe_bind, ← Requests, validateEndpoint_official hoff, safe_bind,
        searchClient, htok,
        if_neg Bool.false_ne_true, safe_pure, safe_bind, authorizeV1, ← Requests,
          authorizeClient_official hoff,
        safe_bind, ← Requests, newSession_official hoff]
      intro hopen
      have hout : ¬ (1 ≤ limit ∧ limit ≤ 100) := fun hl => hlimit ⟨hopen, hl⟩
      rw [safe_bind, searchRepositories, if_pos (by omega)]
      trivial

theorem exists_sends (hterms : r.searchTerms term = .ok terms) (ht : t ∈ terms)
    (hc : contacted net r config authConfigs limit t = some n) (hb : r.isIndexBlocked n = true) :
    ∃ req, Sends net r config authConfigs limit term req ∧ r.isIndexBlocked req.index = true := by
  by_contra hno
  have hall : ∀ reqs, (searchTerm net r config authConfigs limit t).run.Makes
      (fun _ _ => True) reqs →
      ∀ req ∈ reqs, r.isIndexBlocked req.index = false := by
    intro reqs hmakes req hreq
    rw [← Bool.not_eq_true]
    exact fun hreqb => hno ⟨req, ⟨terms, hterms, t, ht, reqs, hmakes, hreq⟩, hreqb⟩
  have := requests_searchTerm_iff.1 (safe_iff_makes.2 hall) n hc
  rw [hb] at this
  cases this

/-- A blocked registry is pinged, and the public registry is queried if only its name is blocked. -/
theorem search_sends_blocked : (let r : Registries := ⟨["example.com".toList], [indexName]⟩
     ∃ req, Sends plainNet r (newServiceConfig plainNet r ⟨[], [], false⟩)
       [] 25 "example.com/foo".toList req ∧
       r.isIndexBlocked req.index = true) ∧
    (let r : Registries := ⟨[indexName], [indexName]⟩
     ∃ req, Sends plainNet r (newServiceConfig plainNet r ⟨[], [], false⟩) [] 25 "foo".toList req ∧
       r.isIndexBlocked req.index = true) :=
  ⟨exists_sends rfl List.mem_cons_self (n := "example.com".toList) (by decide) (by decide),
    exists_sends rfl List.mem_cons_self (n := indexName) (by decide) (by decide)⟩

/-- A search makes no request for a blocked index exactly if no index that it contacts is
blocked. -/
theorem search_blocked_iff (net : Net Addr Subnet) (r : Registries) (config : ServiceConfig Subnet)
    (authConfigs : List (Str × AuthConfig)) (limit : Int) (term : Str) :
    (∀ req, Sends net r config authConfigs limit term req → r.isIndexBlocked req.index = false) ↔
      ∀ terms, r.searchTerms term = .ok terms → ∀ t ∈ terms, ∀ n,
        contacted net r config authConfigs limit t = some n → r.isIndexBlocked n = false := by
  constructor
  · intro h terms hterms t ht n hn
    rw [← Bool.not_eq_true]
    intro hb
    obtain ⟨req, hsends, hreq⟩ := exists_sends hterms ht hn hb
    rw [h req hsends] at hreq
    cases hreq
  · rintro h req ⟨terms, hterms, t, ht, reqs, hmakes, hreq⟩
    exact safe_iff_makes.1 (requests_searchTerm_iff.2 (h terms hterms t ht)) reqs hmakes req hreq

theorem search_blocked_iff_open :
    let r : Registries := ⟨["example.com".toList], [indexName]⟩
    ¬ ∃ req, Sends plainNet r (newServiceConfig plainNet r ⟨[], [], false⟩) [] 25 "foo".toList req ∧
      r.isIndexBlocked req.index = true := by
  rintro r ⟨req, hsends, hb⟩
  have hopen := (search_blocked_iff plainNet r (newServiceConfig plainNet r ⟨[], [], false⟩)
    [] 25 "foo".toList).2
    (fun terms hterms => by cases hterms; decide) req hsends
  rw [hopen] at hb
  cases hb

end

end Docker.Registry
