import Mathlib

/-!
# Digests and chain ids

Model of the string side of `digest.Digest` and of `CreateChainID` in `layer/layer.go`. The hash
itself is a parameter `fromBytes : String → String` of everything that computes a digest.
-/

namespace Docker.Layer

open List Bool

/-- The content-addressable id of a layer: a digest, as a string. -/
abbrev ChainID := String

abbrev DiffID := String

section
variable (fromBytes : String → String)

def createChainIDFromParent (parent : ChainID) : List DiffID → ChainID
  | [] => parent
  | dgst :: dgsts =>
    if parent = "" then createChainIDFromParent dgst dgsts
    else createChainIDFromParent (fromBytes (parent ++ " " ++ dgst)) dgsts

def createChainID (dgsts : List DiffID) : ChainID := createChainIDFromParent fromBytes "" dgsts

theorem createChainIDFromParent_append (parent : ChainID) (ds ds' : List DiffID) :
    createChainIDFromParent fromBytes parent (ds ++ ds') =
      createChainIDFromParent fromBytes (createChainIDFromParent fromBytes parent ds) ds' := by
  induction ds generalizing parent with
  | nil => rfl
  | cons d ds ih =>
    simp only [cons_append, createChainIDFromParent]
    split
    · exact ih _
    · exact ih _

theorem createChainID_concat (ds : List DiffID) (d : DiffID) : createChainID fromBytes (ds ++ [d]) =
      createChainIDFromParent fromBytes (createChainID fromBytes ds) [d] :=
  createChainIDFromParent_append fromBytes "" ds [d]

theorem createChainIDFromParent_single (parent : ChainID) (d : DiffID) :
    createChainIDFromParent fromBytes parent [d] =
      if parent = "" then d else fromBytes (parent ++ " " ++ d) := by
  simp only [createChainIDFromParent]

end

/-! ## The syntax of digests and graph ids -/

def isSpace (c : Char) : Bool :=
  let n := c.toNat
  (9 ≤ n && n ≤ 13) || n == 0x20 || n == 0x85 || n == 0xa0 || n == 0x1680 ||
    (0x2000 ≤ n && n ≤ 0x200a) || n == 0x2028 || n == 0x2029 || n == 0x202f || n == 0x205f ||
    n == 0x3000

def trimSpace (s : String) : String :=
  String.ofList ((s.toList.dropWhile isSpace).reverse.dropWhile isSpace).reverse

def isLowerHex (c : Char) : Bool := ('0' ≤ c && c ≤ '9') || ('a' ≤ c && c ≤ 'f')

def isHex (c : Char) : Bool := isLowerHex c || ('A' ≤ c && c ≤ 'F')

def algorithm (d : String) : String := String.ofList (d.toList.takeWhile (· != ':'))

/-- The length of the hex part that belongs to a supported algorithm. -/
def hexLength : String → Option Nat
  | "sha256" => some 64
  | "sha384" => some 96
  | "sha512" => some 128
  | _ => none

/-- `Digest.Validate` returns nil: `algorithm:hex` with a supported algorithm and a hex part of its
length. -/
def validateDigest (d : String) : Bool :=
  match d.toList.dropWhile (· != ':') with
  | ':' :: hex => hex.all isHex && hexLength (algorithm d) == some hex.length
  | _ => false

/-- `digest.ParseDigest(strings.TrimSpace(content))`. -/
def parseDigest (content : String) : Option String :=
  let d := trimSpace content
  if validateDigest d then some d else none

/-- `stringIDRegexp`: 64 lower-case hex digits, and possibly `-init`. -/
def isStringID (s : String) : Bool :=
  let cs := s.toList
  (cs.take 64).length == 64 && (cs.take 64).all isLowerHex &&
    (cs.drop 64 == [] || cs.drop 64 == "-init".toList)

/-- `strings.TrimSpace(content)`, if it is the id of a graph layer. -/
def parseStringID (content : String) : Option String :=
  let id := trimSpace content
  if isStringID id then some id else none

/-! ## Well-formed digests -/

theorem hexLength_isSome (h : hexLength a = some n) :
    a = "sha256" ∨ a = "sha384" ∨ a = "sha512" := by
  unfold hexLength at h
  split at h
  · exact .inl rfl
  · exact .inr (.inl rfl)
  · exact .inr (.inr rfl)
  · cases h

/-- The characters of a valid digest: a supported algorithm, a colon and hex digits. -/
theorem toList_of_validateDigest (h : validateDigest d = true) :
    ∃ a hex, d.toList = a ++ ':' :: hex ∧
      (a = "sha256".toList ∨ a = "sha384".toList ∨ a = "sha512".toList) ∧
      hex.all isHex = true ∧ hex ≠ [] := by
  unfold validateDigest at h
  split at h
  next hex hdrop =>
    rw [and_eq_true, beq_iff_eq] at h
    obtain ⟨hhex, hlen⟩ := h
    refine ⟨d.toList.takeWhile (· != ':'), hex, ?_, ?_, hhex, ?_⟩
    · rw [← hdrop, takeWhile_append_dropWhile]
    · have halg : ∀ {a}, algorithm d = a → d.toList.takeWhile (· != ':') = a.toList := by
        rintro _ rfl
        simp [algorithm]
      exact (hexLength_isSome hlen).imp halg fun h => h.imp halg halg
    · rintro rfl
      rcases hexLength_isSome hlen with ha | ha | ha <;> rw [ha] at hlen <;> cases hlen
  next => cases h

theorem isSpace_of_isHex (h : isHex c = true) : isSpace c = false := by
  simp only [isHex, isLowerHex, or_eq_true, and_eq_true, decide_eq_true_eq, Char.le_def,
    UInt32.le_iff_toNat_le] at h
  have hn : ∀ {x : Char}, x.val.toNat = x.toNat := rfl
  simp only [hn] at h
  have h1 : '0'.toNat = 48 ∧ '9'.toNat = 57 ∧ 'a'.toNat = 97 ∧ 'f'.toNat = 102 ∧
    'A'.toNat = 65 ∧ 'F'.toNat = 70 := by decide
  simp only [isSpace, or_eq_false_iff, and_eq_false_iff, decide_eq_false_iff_not,
    beq_eq_false_iff_ne]
  omega

theorem no_space_of_validateDigest (h : validateDigest d = true) (hc : c ∈ d.toList) :
    isSpace c = false := by
  obtain ⟨a, hex, hd, ha, hhex, -⟩ := toList_of_validateDigest h
  rw [hd, mem_append, mem_cons] at hc
  rcases hc with hc | rfl | hc
  · have hall : (a.all fun c => !isSpace c) = true := by
      rcases ha with rfl | rfl | rfl <;> decide
    simpa using all_eq_true.1 hall c hc
  · decide
  · exact isSpace_of_isHex (all_eq_true.1 hhex c hc)

theorem ne_empty_of_validateDigest (h : validateDigest d = true) : d ≠ "" := by
  rintro rfl
  exact absurd h (by decide)

theorem trimSpace_of_no_space (h : ∀ c ∈ d.toList, isSpace c = false) : trimSpace d = d := by
  have keep : ∀ {cs : List Char}, (∀ c ∈ cs, isSpace c = false) → cs.dropWhile isSpace = cs := by
    intro cs hcs
    cases cs with
    | nil => rfl
    | cons c cs => rw [dropWhile_cons, hcs c mem_cons_self]; rfl
  unfold trimSpace
  rw [keep h, keep (by simpa using h), reverse_reverse, String.ofList_toList]

theorem parseDigest_of_validateDigest (h : validateDigest d = true) : parseDigest d = some d := by
  unfold parseDigest
  rw [trimSpace_of_no_space fun c => no_space_of_validateDigest h]
  exact if_pos h

/-! ## Chain ids determine diff ids -/

section
variable (fromBytes : String → String)

/-- The strings that `createChainIDFromParent` hashes. -/
def chainStringsFrom (parent : ChainID) : List DiffID → List String
  | [] => []
  | dgst :: dgsts =>
    if parent = "" then chainStringsFrom dgst dgsts
    else (parent ++ " " ++ dgst) :: chainStringsFrom (fromBytes (parent ++ " " ++ dgst)) dgsts

def chainStrings (dgsts : List DiffID) : List String := chainStringsFrom fromBytes "" dgsts

theorem chainStringsFrom_append (parent : ChainID) (ds ds' : List DiffID) :
    chainStringsFrom fromBytes parent (ds ++ ds') = chainStringsFrom fromBytes parent ds ++
      chainStringsFrom fromBytes (createChainIDFromParent fromBytes parent ds) ds' := by
  induction ds generalizing parent with
  | nil => rfl
  | cons d ds ih =>
    simp only [cons_append, chainStringsFrom, createChainIDFromParent]
    split
    · exact ih _
    · rw [ih, cons_append]

theorem chainStrings_concat (d : DiffID) (h : createChainID fromBytes ds ≠ "") :
    chainStrings fromBytes (ds ++ [d]) = chainStrings fromBytes ds ++
      [createChainID fromBytes ds ++ " " ++ d] := by
  unfold chainStrings
  rw [chainStringsFrom_append]
  exact congrArg _ (by simp only [chainStringsFrom]; exact if_neg h)

variable {fromBytes}

theorem createChainID_valid (hdigest : ∀ x, validateDigest (fromBytes x) = true)
    (hds : ∀ d ∈ ds, validateDigest d = true) (hne : ds ≠ []) :
    validateDigest (createChainID fromBytes ds) = true := by
  rcases eq_nil_or_concat' ds with rfl | ⟨ds, d, rfl⟩
  · exact (hne rfl).elim
  · rw [createChainID_concat, createChainIDFromParent_single]
    split
    · exact hds d (by simp)
    · exact hdigest _

theorem createChainID_ne_empty (hdigest : ∀ x, validateDigest (fromBytes x) = true)
    (hfirst : ds.head? ≠ some "") (hne : ds ≠ []) : createChainID fromBytes ds ≠ "" := by
  induction ds using reverseRecOn with
  | nil => exact (hne rfl).elim
  | append_singleton ds d ih =>
    rw [createChainID_concat, createChainIDFromParent_single]
    by_cases hds : ds = []
    · subst hds
      rintro rfl
      exact hfirst rfl
    · rw [if_neg (ih (by rwa [head?_append_of_ne_nil ds hds] at hfirst) hds)]
      exact ne_empty_of_validateDigest (hdigest _)

/-- The strings hashed for two chains tell where their parents end. -/
theorem chainString_inj (hp : validateDigest p = true)
    (hd : validateDigest d = true) (h : p ++ " " ++ d = p' ++ " " ++ d') : p = p' ∧ d = d' := by
  have hspace : ∀ {x : String}, validateDigest x = true → ' ' ∉ x.toList := by
    intro x hx hmem
    exact absurd (no_space_of_validateDigest hx hmem) (by decide)
  have hlist : p.toList ++ ' ' :: d.toList = p'.toList ++ ' ' :: d'.toList := by
    simpa using congrArg String.toList h
  obtain ⟨hp', -, hd'⟩ := (append_cons_inj_of_notMem (hspace hp) (hspace hd)).1 hlist
  exact ⟨String.toList_inj.1 hp', String.toList_inj.1 hd'⟩

/-- Lists of digests with the same chain id are equal, if the hash tells apart what is hashed for
them, neither first entry is such a hash of the other chain, and that of the second list is not
empty. -/
theorem createChainID_inj (hdigest : ∀ x, validateDigest (fromBytes x) = true)
    (hds : ∀ d ∈ ds, validateDigest d = true) (hd : ds ≠ []) (he : es ≠ [])
    (hempty : es.head? ≠ some "")
    (hinj : Set.InjOn fromBytes {x | x ∈ chainStrings fromBytes ds ∨ x ∈ chainStrings fromBytes es})
    (hfirst : ∀ x ∈ chainStrings fromBytes es, ds.head? ≠ some (fromBytes x))
    (hfirst' : ∀ x ∈ chainStrings fromBytes ds, es.head? ≠ some (fromBytes x))
    (h : createChainID fromBytes ds = createChainID fromBytes es) : ds = es := by
  induction ds using reverseRecOn generalizing es with
  | nil => exact (hd rfl).elim
  | append_singleton ds d ih =>
    rcases eq_nil_or_concat' es with rfl | ⟨es, e, rfl⟩
    · exact (he rfl).elim
    rw [createChainID_concat, createChainID_concat, createChainIDFromParent_single,
      createChainIDFromParent_single] at h
    have hnil : createChainID fromBytes [] = "" := rfl
    have hds' : ∀ x ∈ ds, validateDigest x = true := fun x hx => hds x (by simp [hx])
    have hempty' : es ≠ [] → es.head? ≠ some "" := by
      intro hes
      rwa [head?_append_of_ne_nil es hes] at hempty
    by_cases h1 : ds = [] <;> by_cases h2 : es = []
    · subst h1 h2
      simpa [hnil] using h
    · subst h1
      have hne := createChainID_ne_empty hdigest (hempty' h2) h2
      rw [if_pos hnil, if_neg hne] at h
      refine (hfirst _ ?_ (congrArg some h)).elim
      rw [chainStrings_concat _ _ hne]
      simp
    · subst h2
      have hne := ne_empty_of_validateDigest (createChainID_valid hdigest hds' h1)
      rw [if_pos hnil, if_neg hne] at h
      refine (hfirst' _ ?_ (congrArg some h.symm)).elim
      rw [chainStrings_concat _ _ hne]
      simp
    · have hv := createChainID_valid hdigest hds' h1
      have hne := ne_empty_of_validateDigest hv
      have hne' := createChainID_ne_empty hdigest (hempty' h2) h2
      rw [if_neg hne, if_neg hne'] at h
      have hs := chainStrings_concat fromBytes d hne
      have hs' := chainStrings_concat fromBytes e hne'
      have heq := hinj (by simp [hs]) (by simp [hs']) h
      obtain ⟨hchain, rfl⟩ := chainString_inj hv (hds d (by simp)) heq
      have hmem : ∀ {x}, x ∈ chainStrings fromBytes ds →
          x ∈ chainStrings fromBytes (ds ++ [d]) := by
        intro x hx
        rw [hs]
        exact mem_append_left _ hx
      have hmem' : ∀ {x}, x ∈ chainStrings fromBytes es →
          x ∈ chainStrings fromBytes (es ++ [d]) := by
        intro x hx
        rw [hs']
        exact mem_append_left _ hx
      rw [ih hds' h1 h2 (hempty' h2) (hinj.mono fun x hx => hx.imp hmem hmem') ?_ ?_ hchain]
      · intro x hx
        rw [← head?_append_of_ne_nil ds h1]
        exact hfirst x (hmem' hx)
      · intro x hx
        rw [← head?_append_of_ne_nil es h2]
        exact hfirst' x (hmem hx)

end

end Docker.Layer
