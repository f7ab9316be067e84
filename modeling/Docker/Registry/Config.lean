import Docker.Lib.Fallible
import Docker.Reference.Basic

/-!
# Registry configuration

`registry/config.go` and `newTLSConfig`. `BlockedRegistries` and `DefaultRegistries` are a record,
and what the code asks of the Go library, the network and the certificate directory is a parameter.
-/

namespace Docker.Registry

open Reference Fallible List

structure Registries where
  blocked : List Str
  defaults : List Str

structure URL where
  scheme : Str
  host : Str
  /-- The user, the path, the query and the fragment. -/
  rest : Str
  deriving DecidableEq

def http : Str := "http".toList
def https : Str := "https".toList

def address (scheme host : Str) : Str := scheme ++ "://".toList ++ host

structure Net (Addr Subnet : Type) where
  /-- `url.Parse` -/
  parse : Str → Option URL
  /-- `URL.String` -/
  string : URL → Str
  /-- The host of `net.SplitHostPort`. -/
  splitHostPort : Str → Option Str
  lookupIP : Str → Option (List Addr)
  parseIP : Str → Option Addr
  parseCIDR : Str → Option Subnet
  contains : Subnet → Addr → Bool
  /-- The certificates for a host name, if there are any, are read without an error. -/
  readCertsDirectory : Str → Bool

/-- The characters of the host names of references. -/
def isHostText (host : Str) : Bool := host.all fun c => isHostChar c || isComponentChar c

/-- A host name without characters that have a meaning in a URL is its host. -/
structure Net.Lawful {Addr Subnet : Type} (net : Net Addr Subnet) : Prop where
  string {scheme host : Str} : scheme = http ∨ scheme = https → isHostText host = true →
    net.string ⟨scheme, host, []⟩ = address scheme host
  parse {scheme host : Str} : scheme = http ∨ scheme = https → isHostText host = true →
    net.parse (address scheme host) = some ⟨scheme, host, []⟩

/-- Addresses that are read up to the first slash, where no name is looked up. -/
def plainNet : Net Empty Empty where
  parse s :=
    if address https [] <+: s then some ⟨https, (s.drop 8).takeWhile (· != '/'),
      (s.drop 8).dropWhile (· != '/')⟩
    else if address http [] <+: s then some ⟨http, (s.drop 7).takeWhile (· != '/'),
      (s.drop 7).dropWhile (· != '/')⟩
    else none
  string u := address u.scheme u.host ++ u.rest
  splitHostPort _ := none
  lookupIP _ := none
  parseIP _ := none
  parseCIDR _ := none
  contains := nofun
  readCertsDirectory _ := true

theorem plainNet_lawful : plainNet.Lawful where
  string _ _ := append_nil _
  parse {scheme host} hscheme hhost := by
    have hslash : ∀ c ∈ host, (c != '/') = true := by
      intro c hc
      have := all_eq_true.1 hhost c hc
      rw [bne_iff_ne]
      rintro rfl
      cases this
    have htake : host.takeWhile (· != '/') = host := takeWhile_eq_self_iff.2 hslash
    have hdrop : host.dropWhile (· != '/') = [] := dropWhile_eq_nil_iff.2 hslash
    rcases hscheme with rfl | rfl
    · have hnot : ¬ address https [] <+: address http host := by
        rintro ⟨t, ht⟩
        cases ht
      have hpre : address http [] <+: address http host := ⟨host, rfl⟩
      have hdrop' : (address http host).drop 7 = host := rfl
      simp only [plainNet, if_neg hnot, if_pos hpre, hdrop', htake, hdrop]
    · have hpre : address https [] <+: address https host := ⟨host, rfl⟩
      have hdrop' : (address https host).drop 8 = host := rfl
      simp only [plainNet, if_pos hpre, hdrop', htake, hdrop]

inductive Error where
  /-- `Invalid index name (%s). Cannot begin or end with a hyphen.` -/
  | invalidIndexName (val : Str)
  /-- `No default registry configured.` -/
  | noDefaultRegistry
  | reference (e : Reference.Error)
  | parse (url : Str)
  | certs (hostname : Str)
  /-- `All endpoints blocked.` -/
  | allBlocked
  deriving DecidableEq

/-- `IndexName` and `DefaultNamespace` -/
def indexName : Str := "docker.io".toList

/-! ## Block list -/

namespace Registries

variable (r : Registries)

def indexServerName : Str := r.defaults.headD []

def isIndexBlocked (indexName : Str) : Bool :=
  if indexName ∈ r.blocked then true
  else if ['*'] ∈ r.blocked then
    if indexName ∈ r.defaults then false else true
  else false

/-- `index.` in front of a default registry is dropped; the loop ends at the first one that is the
name. -/
def resolveIndexName : List Str → Str → Str
  | [], val => val
  | r :: rs, val =>
    if val = r then val else resolveIndexName rs (if val = "index.".toList ++ r then r else val)

def validateIndexName (val : Str) : Except Error Str :=
  let val := if val = legacyDefaultHostname then defaultHostname else val
  let val := resolveIndexName r.defaults val
  if ['-'] <+: val ∨ ['-'] <:+ val then .error (.invalidIndexName val) else .ok val

end Registries

/-! ## Indexes -/

structure IndexInfo where
  name : Str
  mirrors : List Str
  secure : Bool
  official : Bool
  deriving DecidableEq

theorem name_eq_of_none {n : Str} {i : IndexInfo} (h : none = some i) : i.name = n := nomatch h

structure ServiceConfig (Subnet : Type) where
  insecureRegistryCIDRs : List Subnet := []
  indexConfigs : Str → Option IndexInfo := fun _ => none
  mirrors : List Str
  v2Only : Bool
  /-- An index is configured under its own name. -/
  name_eq : ∀ {n i}, indexConfigs n = some i → i.name = n := by exact name_eq_of_none

structure ServiceOptions where
  mirrors : List Str
  insecureRegistries : List Str
  v2Only : Bool

section
variable (net : Net Addr Subnet) (r : Registries) (config : ServiceConfig Subnet)

def isSecureIndex (name : Str) : Bool :=
  match config.indexConfigs name with
  | some index => index.secure
  | none =>
    if name = indexName then true
    else
      let host := (net.splitHostPort name).getD name
      let addrs := match net.lookupIP host with
        | some addrs => addrs
        | none => (net.parseIP host).toList
      !addrs.any fun addr => config.insecureRegistryCIDRs.any fun ipnet => net.contains ipnet addr

def ServiceConfig.setIndex (index : IndexInfo) : ServiceConfig Subnet where
  insecureRegistryCIDRs := config.insecureRegistryCIDRs
  indexConfigs n := if n = index.name then some index else config.indexConfigs n
  mirrors := config.mirrors
  v2Only := config.v2Only
  name_eq {n i} h := by
    split at h
    · cases h
      exact Eq.symm ‹_›
    · exact config.name_eq h

def addInsecure (name : Str) : ServiceConfig Subnet :=
  match net.parseCIDR name with
  | some ipnet => { config with insecureRegistryCIDRs := config.insecureRegistryCIDRs ++ [ipnet] }
  | none => config.setIndex ⟨name, [], false, false⟩

/-- Mirrors are only for the official index. -/
def addDefault (name : Str) : ServiceConfig Subnet :=
  match config.indexConfigs name with
  | some _ => config
  | none =>
    config.setIndex {
      name := name
      mirrors := if name = indexName then config.mirrors else []
      secure := isSecureIndex net config name
      official := name = indexName }

def newServiceConfig (options : ServiceOptions) : ServiceConfig Subnet :=
  let config := (options.insecureRegistries ++ ["127.0.0.0/8".toList]).foldl (addInsecure net)
    { mirrors := options.mirrors, v2Only := options.v2Only }
  r.defaults.foldl (addDefault net) config

def newIndexInfo (name : Str) : Except Error IndexInfo := do
  let name ← r.validateIndexName name
  match config.indexConfigs name with
  | some index => .ok index
  | none => .ok ⟨name, [], isSecureIndex net config name, name = indexName⟩

structure RepositoryInfo where
  named : Named
  index : IndexInfo
  official : Bool

/-- The hostname of an unqualified name is the first default registry. -/
def qualify (name : Named) : Except Error (Str × Named) :=
  if name.hostname = [] then
    if r.indexServerName = [] then .error .noDefaultRegistry
    else
      match qualifyUnqualifiedReference name r.indexServerName with
      | .ok fqr => .ok (r.indexServerName, fqr)
      | .error e => .error (.reference e)
  else .ok (name.hostname, name)

def newRepositoryInfo (name : Named) : Except Error RepositoryInfo := do
  let (name, named) ← qualify r name
  let index ← newIndexInfo net r config name
  return ⟨named, index, index.official && defaultRepoPrefix.isPrefixOf named.remoteName⟩

structure TLSConfig where
  insecureSkipVerify : Bool
  deriving DecidableEq

def TLSConfig.serverDefault : TLSConfig := ⟨false⟩

def newTLSConfig (hostname : Str) (isSecure : Bool) : Except Error TLSConfig :=
  if isSecure ∧ net.readCertsDirectory hostname = false then .error (.certs hostname)
  else .ok ⟨!isSecure⟩

end

/-! ## Host names of references -/

theorem isHostText_hostname (ref : Named) : isHostText ref.hostname = true := by
  rcases hcut : cut '/' ref.name with ⟨front, o⟩
  obtain ⟨hslash, hname⟩ := cut_eq hcut
  have hfront : isHostText front = true := by
    refine all_eq_true.2 fun c hc => ?_
    have hchar := isNameChar_of_isName (isRepositoryName_iff.1 ref.name_valid).1 c
      (hname ▸ mem_append_left _ hc)
    rw [isNameChar, Bool.or_assoc, Bool.or_eq_true, beq_iff_eq] at hchar
    exact hchar.resolve_left fun he => hslash (he ▸ hc)
  rw [Named.hostname, splitHostname, hcut]
  cases o with
  | none => rfl
  | some rest =>
    dsimp only
    cases hlooks : looksLikeHost front with
    | false => rfl
    | true =>
      rw [if_pos rfl]
      split
      · decide
      · exact hfront

end Docker.Registry
