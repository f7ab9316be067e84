import Docker.Reference.Grammar

/-!
# References

`reference/reference.go` and `reference/utils.go`. A reference is a normalized repository name,
alone or with a tag or a digest.

`strings.ToLower` is taken on ASCII, and lengths in characters: other names fail the regular
expression.
-/

namespace Docker.Reference

open List

open Layer (isLowerHex validateDigest)

inductive Error where
  /-- `Error parsing reference: %q is not a valid repository/tag` -/
  | notAReference (s : Str)
  /-- `invalid reference format: repository name must be lowercase` -/
  | notLowercase
  /-- `Invalid repository name (%s), cannot specify 64-byte hexadecimal strings` -/
  | idAsName (name : Str)
  | nameTooLong
  | referenceInvalidFormat
  | tagInvalidFormat
  | digestInvalidFormat
  /-- `Invalid hostname %q` -/
  | invalidHostname (indexName : Str)
  deriving DecidableEq

def defaultTag : Str := "latest".toList
def defaultHostname : Str := "docker.io".toList
def legacyDefaultHostname : Str := "index.docker.io".toList
def defaultRepoPrefix : Str := "library/".toList

def nameTotalLengthMax : Nat := 255

/-! ## Host names and normalization -/

/-- What is in front of the first slash is read as a host name if it looks like one. -/
def looksLikeHost (front : Str) : Bool :=
  front.any (fun c => c == '.' || c == ':') || front == "localhost".toList

def splitHostname (name : Str) : Str × Str :=
  let (hostname, remoteName) : Str × Str :=
    match cut '/' name with
    | (front, some rest) => if looksLikeHost front then (front, rest) else ([], name)
    | (_, none) => ([], name)
  let hostname := if hostname = legacyDefaultHostname then defaultHostname else hostname
  let remoteName :=
    if hostname = defaultHostname ∧ '/' ∉ remoteName then defaultRepoPrefix ++ remoteName
      else remoteName
  (hostname, remoteName)

def trimPrefix (pre s : Str) : Str := if pre <+: s then s.drop pre.length else s

def toLower (s : Str) : Str := s.map Char.toLower

def normalize (name : Str) : Except Error Str :=
  let (host, remoteName) := splitHostname name
  if toLower remoteName ≠ remoteName then .error .notLowercase
  else if host = defaultHostname then .ok (host ++ '/' :: trimPrefix defaultRepoPrefix remoteName)
  else .ok name

/-- `v1.ValidateID` returns nil: 64 lower-case hex digits. -/
def validateID (s : Str) : Bool := s.length == 64 && s.all isLowerHex

def validateName (name : Str) : Bool := !(validateID (trimPrefix (defaultHostname ++ ['/']) name))

/-- The normalized names: the host name is not the old name of the default one, and what follows is
in lower case. -/
def isNormal (name : Str) : Bool :=
  !((legacyDefaultHostname ++ ['/']).isPrefixOf name) && toLower (splitHostname name).2 ==
    (splitHostname name).2

theorem splitHostname_of_notMem (h : '/' ∉ name) : splitHostname name = ([], name) := by
  simp only [splitHostname, cut_of_notMem h]
  rfl

theorem splitHostname_of_not (h : '/' ∉ front) (hfront : looksLikeHost front = false) :
    splitHostname (front ++ '/' :: rest) = ([], front ++ '/' :: rest) := by
  simp only [splitHostname, cut_append h, hfront]
  rfl

theorem splitHostname_of_host (h : '/' ∉ front) (hfront : looksLikeHost front = true)
    (hne : front ≠ legacyDefaultHostname) (hne' : front ≠ defaultHostname) :
    splitHostname (front ++ '/' :: rest) = (front, rest) := by
  simp [splitHostname, cut_append h, hfront, hne, hne']

/-- The remote name below the default host, where `library/` is added to a name of one component. -/
def withLibrary (rest : Str) : Str := if '/' ∉ rest then defaultRepoPrefix ++ rest else rest

theorem splitHostname_of_default (h : front = defaultHostname ∨ front = legacyDefaultHostname) :
    splitHostname (front ++ '/' :: rest) = (defaultHostname, withLibrary rest) := by
  have hslash : '/' ∉ front := by rcases h with rfl | rfl <;> decide
  have hfront : looksLikeHost front = true := by rcases h with rfl | rfl <;> decide
  have hhost : (if front = legacyDefaultHostname then defaultHostname else front) =
      defaultHostname := by
    rcases h with rfl | rfl
    · exact if_neg (by decide)
    · exact if_pos rfl
  simp [splitHostname, cut_append hslash, hfront, hhost, withLibrary]

theorem cut_of_isPrefix (hhost : '/' ∉ host) (h : host ++ ['/'] <+: name) :
    ∃ rest, name = host ++ '/' :: rest ∧ cut '/' name = (host, some rest) := by
  obtain ⟨rest, rfl⟩ := h
  rw [append_assoc, singleton_append]
  exact ⟨rest, rfl, cut_append hhost⟩

theorem splitHostname_cases (name : Str) :
    (∃ front rest, name = front ++ '/' :: rest ∧
      (front = defaultHostname ∨ front = legacyDefaultHostname) ∧
      splitHostname name = (defaultHostname, withLibrary rest)) ∨
    ((splitHostname name).1 ≠ defaultHostname ∧
      ¬ (defaultHostname ++ ['/']) <+: name ∧ ¬ (legacyDefaultHostname ++ ['/']) <+: name) := by
  rcases hcut : cut '/' name with ⟨front, o⟩
  obtain ⟨hslash, rfl⟩ := cut_eq hcut
  by_cases hfront : o.isSome ∧ (front = defaultHostname ∨ front = legacyDefaultHostname)
  · obtain ⟨rest, rfl⟩ := Option.isSome_iff_exists.1 hfront.1
    exact .inl ⟨front, rest, rfl, hfront.2, splitHostname_of_default hfront.2⟩
  right
  have hpre : ∀ host, '/' ∉ host → host = defaultHostname ∨ host = legacyDefaultHostname →
      ¬ (host ++ ['/']) <+: front ++ opt '/' o := by
    rintro host hhost hor hpre
    obtain ⟨rest, -, hrest⟩ := cut_of_isPrefix hhost hpre
    obtain ⟨rfl, rfl⟩ := Prod.mk.inj (hcut.symm.trans hrest)
    exact hfront ⟨rfl, hor⟩
  refine ⟨?_, hpre _ (by decide) (.inl rfl), hpre _ (by decide) (.inr rfl)⟩
  cases o with
  | none =>
    rw [opt, append_nil, splitHostname_of_notMem hslash]
    exact (cons_ne_nil _ _).symm
  | some rest =>
    obtain ⟨hne, hne'⟩ : front ≠ defaultHostname ∧ front ≠ legacyDefaultHostname := by
      simpa using hfront
    rw [opt]
    cases hlooks : looksLikeHost front with
    | false =>
      rw [splitHostname_of_not hslash hlooks]
      exact (cons_ne_nil _ _).symm
    | true => rwa [splitHostname_of_host hslash hlooks hne' hne]

theorem normalize_of_default (h : front = defaultHostname ∨ front = legacyDefaultHostname) :
    normalize (front ++ '/' :: rest) = if toLower (withLibrary rest) ≠ withLibrary rest
      then .error .notLowercase
      else .ok (defaultHostname ++ '/' :: trimPrefix defaultRepoPrefix (withLibrary rest)) := by
  simp [normalize, splitHostname_of_default h]

theorem trimPrefix_withLibrary (rest : Str) :
    trimPrefix defaultRepoPrefix (withLibrary rest) = if defaultRepoPrefix <+: rest then rest.drop 8
      else rest := by
  unfold withLibrary
  split
  · next h =>
    have hpre : ¬ defaultRepoPrefix <+: rest := fun hpre => h (hpre.subset (by decide))
    rw [if_neg hpre, trimPrefix, if_pos (prefix_append ..), drop_left]
  · rfl

theorem toLower_append (s t : Str) : toLower (s ++ t) = toLower s ++ toLower t := map_append

theorem toLower_withLibrary : toLower (withLibrary rest) = withLibrary rest ↔
    toLower rest = rest := by
  unfold withLibrary
  split
  · rw [toLower_append]
    exact append_right_inj _
  · rfl

theorem toLower_trimPrefix (h : toLower s = s) : toLower (trimPrefix pre s) = trimPrefix pre s := by
  unfold trimPrefix
  split
  · rw [toLower, map_drop]
    exact congrArg _ h
  · exact h

theorem isNormal_iff : isNormal n = true ↔
    ¬ (legacyDefaultHostname ++ ['/']) <+: n ∧ toLower (splitHostname n).2 =
      (splitHostname n).2 := by
  rw [isNormal, Bool.and_eq_true, Bool.not_eq_true', ← Bool.not_eq_true,
    isPrefixOf_iff_prefix, beq_iff_eq]

theorem normalize_of_not (h : (splitHostname name).1 ≠ defaultHostname) :
    normalize name = if toLower (splitHostname name).2 ≠ (splitHostname name).2
      then .error .notLowercase
      else .ok name := by
  simp only [normalize, if_neg h]

theorem isNormal_of_normalize (h : normalize name = .ok n) : isNormal n = true := by
  rw [isNormal_iff]
  obtain ⟨front, rest, rfl, hfront, hsplit⟩ | ⟨hhost, -, hlegacy⟩ := splitHostname_cases name
  · rw [normalize_of_default hfront, ite_not] at h
    split at h <;> cases h
    next hlower =>
    rw [splitHostname_of_default (.inl rfl), toLower_withLibrary]
    refine ⟨fun hpre => ?_, toLower_trimPrefix hlower⟩
    obtain ⟨_, -, hcut⟩ := cut_of_isPrefix (by decide) hpre
    rw [cut_append (by decide)] at hcut
    exact absurd (Prod.mk.inj hcut).1 (by decide)
  · rw [normalize_of_not hhost, ite_not] at h
    split at h <;> cases h
    next hlower => exact ⟨hlegacy, hlower⟩

/-- Normalizing twice makes a difference for a name with a second `library/` only. -/
theorem normalize_eq_self_iff (h : isNormal n = true) :
    normalize n = .ok n ↔ ¬ defaultHostname ++ '/' :: defaultRepoPrefix <+: n := by
  rw [isNormal_iff] at h
  obtain ⟨hlegacy, hlower⟩ := h
  obtain ⟨front, rest, rfl, hfront, hsplit⟩ | ⟨hhost, hdefault, -⟩ := splitHostname_cases n
  · have hfront : front = defaultHostname := by
      refine hfront.resolve_right fun he => hlegacy ⟨rest, ?_⟩
      rw [he, append_assoc, singleton_append]
    subst hfront
    rw [hsplit] at hlower
    rw [normalize_of_default (.inl rfl), ite_not, if_pos hlower, trimPrefix_withLibrary,
      prefix_append_right_inj,
      prefix_cons_inj]
    split
    · next hpre =>
      have hlen : 8 ≤ rest.length := hpre.length_le
      have hdrop : rest.drop 8 ≠ rest := fun he => by
        have := congrArg List.length he
        rw [length_drop] at this
        omega
      simp [hpre, hdrop]
    · next hpre => simp [hpre]
  · rw [normalize_of_not hhost, ite_not, if_pos hlower]
    refine iff_of_true rfl fun hpre => hdefault (.trans ?_ hpre)
    decide

/-! ## References -/

/-- What a reference has besides its name. -/
inductive Kind where
  | nameOnly
  | tagged (tag : Str)
  | canonical (digest : Str)
  deriving DecidableEq

def Kind.tag : Kind → Option Str
  | .tagged tag => some tag
  | _ => none

def Kind.digest : Kind → Option Str
  | .canonical digest => some digest
  | _ => none

def Kind.isValid : Kind → Bool
  | .nameOnly => true
  | .tagged tag => isTag tag
  | .canonical digest => isDigestRegexp digest

def isRepositoryName (name : Str) : Bool :=
  isName name && name.length ≤ nameTotalLengthMax && isNormal name && validateName name

theorem isValid_nameOnly : Kind.nameOnly.isValid = true := rfl

/-- `Named`, with the types below it. -/
@[ext]
structure Named where
  name : Str
  kind : Kind
  name_valid : isRepositoryName name = true
  kind_valid : kind.isValid = true
  deriving DecidableEq

namespace Named

variable (r : Named)

def string : Str :=
  match r.kind with
  | .nameOnly => r.name
  | .tagged tag => r.name ++ ':' :: tag
  | .canonical digest => r.name ++ '@' :: digest

def hostname : Str := (splitHostname r.name).1

def remoteName : Str := (splitHostname r.name).2

def isNameOnly : Bool := r.kind == .nameOnly

def isCanonical : Bool :=
  match r.kind with
  | .canonical _ => true
  | _ => false

end Named

def withName (name : Str) : Except Error Named :=
  match h : normalize name with
  | .error e => .error e
  | .ok n =>
    if hid : validateName n then
      if hlen : n.length ≤ nameTotalLengthMax then
        if hname : isName n then
          .ok {
            name := n
            kind := .nameOnly
            name_valid := by simp [isRepositoryName, hname, hlen, hid, isNormal_of_normalize h]
            kind_valid := rfl }
        else .error .referenceInvalidFormat
      else .error .nameTooLong
    else .error (.idAsName n)

def withTag (name : Named) (tag : Str) : Except Error Named :=
  if h : isTag tag then .ok { name with kind := .tagged tag, kind_valid := h }
    else .error .tagInvalidFormat

/-- The digest is matched with the regular expression only. -/
def withDigest (name : Named) (digest : Str) : Except Error Named :=
  if h : isDigestRegexp digest then .ok { name with kind := .canonical digest, kind_valid := h }
  else .error .digestInvalidFormat

/-- `distreference.ParseNamed`: name, tag and digest, where a digest is validated. -/
def distParseNamed (s : Str) : Option (Str × Option Str × Option Str) :=
  match submatch s with
  | none => none
  | some (name, tag, digest) =>
    if name.length ≤ nameTotalLengthMax &&
      digest.all (fun d => validateDigest (String.ofList d)) then
      some (name, tag, digest)
    else none

/-- A tag is dropped if there is a digest. -/
def parseNamed (s : Str) : Except Error Named :=
  match distParseNamed s with
  | none => .error (.notAReference s)
  | some (name, tag, digest) => do
    let r ← withName name
    match digest, tag with
    | some digest, _ => withDigest r digest
    | none, some tag => withTag r tag
    | none, none => .ok r

theorem isTag_defaultTag : isTag defaultTag = true := by decide

def withDefaultTag (ref : Named) : Named :=
  if ref.isNameOnly then { ref with kind := .tagged defaultTag, kind_valid := isTag_defaultTag }
    else ref

/-! ## Qualified and unqualified names -/

def substituteReferenceName (ref : Named) (reposName : Str) : Except Error Named := do
  let reposNameRef ← withName reposName
  match ref.kind with
  | .tagged tag => withTag reposNameRef tag
  | .canonical digest => withDigest reposNameRef digest
  | .nameOnly => .ok reposNameRef

def isValidHostname (hostname : Str) : Bool :=
  hostname != [] && '/' ∉ hostname &&
    ('.' ∈ hostname || ':' ∈ hostname || hostname == "localhost".toList)

/-- The index name, with the remote name or the error of making one. -/
def splitReposName (reposName : Named) : Str × Except Error Named :=
  let (indexName, remoteNameStr) := splitHostnameRegexp reposName.name
  if isValidHostname indexName then (indexName, withName remoteNameStr) else ([], .ok reposName)

def qualifyUnqualifiedReference (ref : Named) (indexName : Str) : Except Error Named :=
  if isValidHostname indexName then
    match splitReposName ref with
    | (_, .error e) => .error e
    | (orig, .ok remoteName) =>
      if orig = [] then substituteReferenceName ref
        (indexName ++ '/' :: remoteName.name) else .ok ref
  else .error (.invalidHostname indexName)

def isReferenceFullyQualified (reposName : Named) : Bool := (splitReposName reposName).1 != []

/-! ## Every reference is made by the package -/

open Kind

section
variable {r r' : Named}

theorem isRepositoryName_iff : isRepositoryName n = true ↔
    isName n = true ∧ n.length ≤ nameTotalLengthMax ∧ isNormal n = true ∧
      validateName n = true := by
  simp [isRepositoryName, and_assoc]

theorem withName_eq_ok : withName s = .ok r ↔ normalize s = .ok r.name ∧ r.kind = .nameOnly := by
  unfold withName
  constructor
  · intro h
    split at h
    · cases h
    · next n hn =>
      split_ifs at h
      cases h
      exact ⟨hn, rfl⟩
  · rintro ⟨hn, hkind⟩
    obtain ⟨hname, hlen, -, hid⟩ := isRepositoryName_iff.1 r.name_valid
    split
    · next he => cases he.symm.trans hn
    · next n hn' =>
      cases hn'.symm.trans hn
      rw [dif_pos hid, dif_pos hlen, dif_pos hname]
      exact congrArg _ (Named.ext rfl hkind.symm)

theorem withTag_eq_ok {tag : Str} :
    withTag r tag = .ok r' ↔ r'.name = r.name ∧ r'.kind = .tagged tag := by
  unfold withTag
  constructor
  · intro h
    split_ifs at h
    cases h
    exact ⟨rfl, rfl⟩
  · rintro ⟨hname, hkind⟩
    have htag : isTag tag = true := by simpa [hkind, isValid] using r'.kind_valid
    rw [dif_pos htag]
    exact congrArg _ (Named.ext hname.symm hkind.symm)

theorem withDigest_eq_ok {digest : Str} :
    withDigest r digest = .ok r' ↔ r'.name = r.name ∧ r'.kind = .canonical digest := by
  unfold withDigest
  constructor
  · intro h
    split_ifs at h
    cases h
    exact ⟨rfl, rfl⟩
  · rintro ⟨hname, hkind⟩
    have hdigest : isDigestRegexp digest = true := by simpa [hkind, isValid] using r'.kind_valid
    rw [dif_pos hdigest]
    exact congrArg _ (Named.ext hname.symm hkind.symm)

/-! ## Reading a reference back -/

theorem Named.string_eq (r : Named) :
    r.string = r.name ++ opt ':' r.kind.tag ++ opt '@' r.kind.digest := by
  unfold Named.string
  cases r.kind <;> simp [tag, digest, opt]

theorem Named.submatch_string (r : Named) :
    submatch r.string = some (r.name, r.kind.tag, r.kind.digest) := by
  refine submatch_eq_some_iff.2 ⟨(isRepositoryName_iff.1 r.name_valid).1, ?_, ?_, r.string_eq⟩
  all_goals
    have := r.kind_valid
    revert this
    cases r.kind <;> simp [isValid, tag, digest]

theorem Named.string_inj (h : r.string = r'.string) : r = r' := by
  have hsub := r.submatch_string
  rw [h, r'.submatch_string, Option.some_inj, Prod.mk.injEq, Prod.mk.injEq] at hsub
  obtain ⟨hname, htag, hdigest⟩ := hsub
  refine Named.ext hname.symm ?_
  revert htag hdigest
  cases r.kind <;> cases r'.kind <;> simp_all [tag, digest]

/-- The digests `digest.ParseDigest` takes. -/
def Kind.digestSupported (k : Kind) : Bool := k.digest.all fun d => validateDigest (String.ofList d)

theorem distParseNamed_string (r : Named) : distParseNamed r.string =
    if r.kind.digestSupported then some (r.name, r.kind.tag, r.kind.digest) else none := by
  have hlen := (isRepositoryName_iff.1 r.name_valid).2.1
  simp only [distParseNamed, r.submatch_string, hlen, decide_true, Bool.true_and]
  rfl

/-- The name is not below `docker.io/library/`, and a digest is one that `digest.Validate` takes. -/
def Named.Stable (r : Named) : Prop :=
  ¬ defaultHostname ++ '/' :: defaultRepoPrefix <+: r.name ∧ r.kind.digestSupported = true

instance (r : Named) : Decidable r.Stable := inferInstanceAs (Decidable (_ ∧ _))

theorem parseNamed_string_of_supported (h : r.kind.digestSupported = true) :
    parseNamed r.string = .ok r ↔ normalize r.name = .ok r.name := by
  unfold parseNamed
  rw [distParseNamed_string, if_pos h]
  simp only []
  cases hname : withName r.name with
  | error e =>
    refine iff_of_false (by simp [bind, Except.bind]) fun hn => ?_
    have hok := (withName_eq_ok (r := { r with kind := .nameOnly, kind_valid := rfl })).2 ⟨hn, rfl⟩
    cases hname.symm.trans hok
  | ok base =>
    obtain ⟨hbase, hkind⟩ := withName_eq_ok.1 hname
    rw [hbase, Except.ok.injEq, eq_comm (a := base.name)]
    change (match r.kind.digest, r.kind.tag with
      | some digest, _ => withDigest base digest
      | none, some tag => withTag base tag
      | none, none => .ok base) = .ok r ↔ _
    cases hr : r.kind with
    | nameOnly => simp [Kind.digest, Kind.tag, Named.ext_iff, hkind, hr, eq_comm]
    | tagged tag => simp [Kind.digest, Kind.tag, withTag_eq_ok, hr]
    | canonical digest => simp [Kind.digest, Kind.tag, withDigest_eq_ok, hr]

theorem kind_of_parseNamed_string (h : parseNamed r.string = .ok r') : r'.kind = r.kind := by
  rw [parseNamed, distParseNamed_string] at h
  split at h
  · cases h
  · next name tag digest he =>
    split at he <;> cases he
    cases hname : withName r.name with
    | error e =>
      rw [hname] at h
      cases h
    | ok base =>
      rw [hname] at h
      cases hr : r.kind with
      | nameOnly =>
        rw [hr] at h
        cases h
        exact (withName_eq_ok.1 hname).2
      | tagged tag =>
        rw [hr] at h
        exact (withTag_eq_ok.1 h).2
      | canonical digest =>
        rw [hr] at h
        exact (withDigest_eq_ok.1 h).2

theorem parseNamed_string_iff (r : Named) : parseNamed r.string = .ok r ↔ r.Stable := by
  have hnormal := (isRepositoryName_iff.1 r.name_valid).2.2.1
  by_cases h : r.kind.digestSupported = true
  · rw [parseNamed_string_of_supported h, normalize_eq_self_iff hnormal, Named.Stable,
      and_iff_left h]
  · refine iff_of_false ?_ fun hst => h hst.2
    rw [parseNamed, distParseNamed_string, if_neg h]
    exact fun he => by cases he

end

end Docker.Reference
