import Docker.Layer.ChainID
import Docker.Lib.Filepath

/-!
# The grammar of references

The regular expressions of `distribution/reference/regexp.go` as recognizers on lists of characters,
and the submatches of `ReferenceRegexp`. A string matches it in one way at most, so the order of the
alternatives does not matter.
-/

namespace Docker.Reference

open List

open Layer (isHex)

abbrev Str := List Char

/-! ## Characters -/

def isDigit (c : Char) : Bool := '0' ≤ c && c ≤ '9'

def isLower (c : Char) : Bool := 'a' ≤ c && c ≤ 'z'

def isUpper (c : Char) : Bool := 'A' ≤ c && c ≤ 'Z'

def isLowerNum (c : Char) : Bool := isLower c || isDigit c

def isAlnum (c : Char) : Bool := isLowerNum c || isUpper c

def isWord (c : Char) : Bool := isAlnum c || c == '_'

/-! ## Names -/

/-- In a name component: a letter or digit must follow, the last character was one, or it was the
first `_` or a `-` of a separator. -/
inductive ComponentState where
  | need | alnum | underscore | dash
  deriving DecidableEq

def ComponentState.next : ComponentState → Char → Option ComponentState
  | .need, c => if isLowerNum c then some .alnum else none
  | .alnum, c =>
    if isLowerNum c then some .alnum
    else if c = '.' then some .need
    else if c = '_' then some .underscore
    else if c = '-' then some .dash
    else none
  | .underscore, c => if isLowerNum c then some .alnum else if c = '_' then some .need else none
  | .dash, c => if isLowerNum c then some .alnum else if c = '-' then some .dash else none

/-- `nameComponentRegexp`: `[a-z0-9]+(?:(?:[._]|__|[-]*)[a-z0-9]+)*` -/
def isComponent (s : Str) : Bool := s.foldlM ComponentState.next .need == some .alnum

/-- `hostnameComponentRegexp`: `[a-zA-Z0-9]|[a-zA-Z0-9][a-zA-Z0-9-]*[a-zA-Z0-9]` -/
def isHostComponent (s : Str) : Bool :=
  s.head?.any isAlnum && s.getLast?.any isAlnum && s.all fun c => isAlnum c || c == '-'

/-- What is in front of the first `c`, and what is behind it. -/
def cut (c : Char) (s : Str) : Str × Option Str :=
  match s.dropWhile (· != c) with
  | [] => (s, none)
  | _ :: t => (s.takeWhile (· != c), some t)

/-- `hostnameRegexp`: host components with dots between them, and possibly a port. -/
def isHostname (s : Str) : Bool :=
  let (host, port) := cut ':' s
  (host.splitOn '.').all isHostComponent && port.all fun p => p != [] && p.all isDigit

/-- `anchoredNameRegexp`: components with slashes between them, possibly behind a host name. -/
def isName (s : Str) : Bool :=
  match s.splitOn '/' with
  | [] => false
  | seg :: segs => segs.all isComponent && (isComponent seg || isHostname seg && segs != [])

/-- The submatches of `anchoredNameRegexp`, which takes a host name where it can; without a match,
the whole string. -/
def splitHostnameRegexp (name : Str) : Str × Str :=
  match name.splitOn '/' with
  | seg :: seg' :: segs =>
    if isHostname seg && (seg' :: segs).all isComponent then (seg, ['/'].intercalate (seg' :: segs))
      else ([], name)
  | _ => ([], name)

/-! ## Tags and digests -/

/-- `TagRegexp`: `[\w][\w.-]{0,127}` -/
def isTag : Str → Bool
  | [] => false
  | c :: cs => isWord c && cs.length ≤ 127 && cs.all fun c => isWord c || c == '.' || c == '-'

/-- The characters of an algorithm, where `inside` is false if a letter must follow. -/
def algorithmNext (inside : Bool) (c : Char) : Option Bool :=
  if isLower c || isUpper c then some true
  else if inside && isDigit c then some true
  else if inside && (c == '-' || c == '_' || c == '+' || c == '.') then some false
  else none

/-- `DigestRegexp`: `[A-Za-z][A-Za-z0-9]*(?:[-_+.][A-Za-z][A-Za-z0-9]*)*[:][[:xdigit:]]{32,}` -/
def isDigestRegexp (s : Str) : Bool :=
  match cut ':' s with
  | (alg, some hex) =>
    alg.foldlM algorithmNext false == some true && 32 ≤ hex.length && hex.all isHex
  | (_, none) => false

/-! ## References -/

def cutTag (s : Str) : Str × Option Str :=
  match s.reverse.dropWhile fun c => c != ':' && c != '/' with
  | ':' :: name => (name.reverse, some (s.reverse.takeWhile fun c => c != ':' && c != '/').reverse)
  | _ => (s, none)

/-- The submatches of `ReferenceRegexp` for name, tag and digest. -/
def submatch (s : Str) : Option (Str × Option Str × Option Str) :=
  let (rest, digest) := cut '@' s
  let (name, tag) := cutTag rest
  if isName name && tag.all isTag && digest.all isDigestRegexp
    then some (name, tag, digest) else none

/-! ## Cutting -/

theorem dropWhile_append_cons (hs : ∀ x ∈ s, p x = true) (hc : p c = false) :
    (s ++ c :: t).dropWhile p = c :: t := by
  rw [dropWhile_append_of_pos hs, dropWhile_cons_of_neg (by simp [hc])]

theorem takeWhile_append_cons (hs : ∀ x ∈ s, p x = true) (hc : p c = false) :
    (s ++ c :: t).takeWhile p = s := by
  rw [takeWhile_append_of_pos hs, takeWhile_cons_of_neg (by simp [hc]), append_nil]

theorem eq_of_dropWhile_eq_cons (h : s.dropWhile p = c :: t) :
    p c = false ∧ s = s.takeWhile p ++ c :: t := by
  refine ⟨?_, by rw [← h, takeWhile_append_dropWhile]⟩
  have hne : s.dropWhile p ≠ [] := by simp [h]
  simpa [h] using head_dropWhile_not p hne

theorem cut_append (h : c ∉ s) : cut c (s ++ c :: t) = (s, some t) := by
  have hs : ∀ x ∈ s, (x != c) = true := fun x hx => bne_iff_ne.2 fun he => h (he ▸ hx)
  rw [cut, dropWhile_append_cons hs (bne_self_eq_false c),
    takeWhile_append_cons hs (bne_self_eq_false c)]

theorem cut_of_notMem (h : c ∉ s) : cut c s = (s, none) := by
  have hdrop : s.dropWhile (· != c) = [] := dropWhile_eq_nil_iff.2 fun x hx =>
    bne_iff_ne.2 fun he => h (he ▸ hx)
  rw [cut, hdrop]

/-- An optional part of a string, with the character in front of it. -/
def opt (c : Char) : Option Str → Str
  | none => []
  | some s => c :: s

theorem cut_append_opt (h : c ∉ s) : cut c (s ++ opt c o) = (s, o) := by
  cases o with
  | none => rw [opt, append_nil, cut_of_notMem h]
  | some t => exact cut_append h

theorem cut_eq (h : cut c s = (t, o)) : c ∉ t ∧ s = t ++ opt c o := by
  unfold cut at h
  split at h
  · next hnil =>
    cases h
    have hall := dropWhile_eq_nil_iff.1 hnil
    exact ⟨fun hmem => by simpa using hall c hmem, (append_nil s).symm⟩
  · next d t hcons =>
    cases h
    obtain ⟨hd, hs⟩ := eq_of_dropWhile_eq_cons hcons
    have hdc : d = c := by simpa using hd
    exact ⟨fun hmem => by simpa using mem_takeWhile_imp hmem, by rwa [hdc] at hs⟩

theorem cutTag_append (hs : ∀ x ∈ t, (x != ':' && x != '/') = true) :
    cutTag (s ++ ':' :: t) = (s, some t) := by
  have hrev : (s ++ ':' :: t).reverse = t.reverse ++ ':' :: s.reverse := by simp
  have ht : ∀ x ∈ t.reverse, (x != ':' && x != '/') = true := fun x hx => hs x (mem_reverse.1 hx)
  rw [cutTag, hrev, dropWhile_append_cons ht (by decide), takeWhile_append_cons ht (by decide)]
  simp

theorem cutTag_eq (h : cutTag s = (t, o)) : s = t ++ opt ':' o := by
  unfold cutTag at h
  split at h
  · next n hcons =>
    cases h
    have hs := (eq_of_dropWhile_eq_cons hcons).2
    rw [← reverse_reverse s]
    conv_lhs => rw [hs]
    simp [opt]
  · cases h
    exact (append_nil s).symm

theorem cutTag_of_last (hs : ∀ x ∈ s, (x != ':' && x != '/') = true)
    (ht : t = [] ∨ ∃ u, t = u ++ ['/']) :
    cutTag (t ++ s) = (t ++ s, none) := by
  have hrev : ∀ x ∈ s.reverse, (x != ':' && x != '/') = true := fun x hx => hs x (mem_reverse.1 hx)
  unfold cutTag
  obtain rfl | ⟨u, rfl⟩ := ht
  · rw [nil_append, dropWhile_eq_nil_iff.2 hrev]
  · have hcons : (u ++ ['/'] ++ s).reverse = s.reverse ++ '/' :: u.reverse := by simp
    rw [hcons, dropWhile_append_cons hrev (by decide)]
    simp

theorem forall_mem_intercalate {P : Char → Prop} (hc : P c) (h : ∀ s ∈ ss, ∀ x ∈ s, P x) :
    ∀ x ∈ [c].intercalate ss, P x := by
  induction ss with
  | nil => simp
  | cons s ss ih =>
    have hs := h s (mem_cons_self ..)
    have ih := ih fun s hs => h s (mem_cons_of_mem _ hs)
    cases ss with
    | nil => simpa using hs
    | cons s' ss =>
      intro x hx
      rw [intercalate_cons_cons, mem_append, mem_append, mem_singleton] at hx
      obtain (hx | rfl) | hx := hx
      exacts [hs x hx, hc, ih x hx]

/-! ## What the recognizers accept -/

def isComponentChar (c : Char) : Bool := isLowerNum c || c == '.' || c == '_' || c == '-'

theorem foldlM_next {s : Str} (h : s.foldlM ComponentState.next st = some st') :
    ∀ c ∈ s, isComponentChar c = true := by
  induction s generalizing st with
  | nil => simp
  | cons c s ih =>
    rw [foldlM_cons, Option.bind_eq_bind, Option.bind_eq_some_iff] at h
    obtain ⟨st₁, hnext, h⟩ := h
    refine forall_mem_cons.2 ⟨?_, ih h⟩
    rw [isComponentChar]
    cases st <;> simp only [ComponentState.next] at hnext <;> split_ifs at hnext <;> simp_all

theorem isComponentChar_of_isComponent (h : isComponent s = true) :
    ∀ c ∈ s, isComponentChar c = true := by
  rw [isComponent, beq_iff_eq] at h
  exact foldlM_next h

def isHostChar (c : Char) : Bool := isAlnum c || c == '-' || c == '.' || c == ':'

theorem isHostChar_of_isHostname (h : isHostname s = true) : ∀ c ∈ s, isHostChar c = true := by
  unfold isHostname at h
  rcases hcut : cut ':' s with ⟨host, port⟩
  rw [hcut] at h
  simp only [Bool.and_eq_true, List.all_eq_true] at h
  obtain ⟨hhost, hport⟩ := h
  have hchar : ∀ c ∈ ['.'].intercalate (host.splitOn '.'), isHostChar c = true := by
    refine forall_mem_intercalate (by decide) fun t ht c hc => ?_
    have hall := hhost t ht
    rw [isHostComponent, Bool.and_eq_true, List.all_eq_true] at hall
    rw [isHostChar, hall.2 c hc, Bool.true_or, Bool.true_or]
  rw [List.intercalate_splitOn] at hchar
  rw [(cut_eq hcut).2]
  refine List.forall_mem_append.2 ⟨hchar, ?_⟩
  cases port with
  | none => simp [opt]
  | some p =>
    rw [Option.all_some, Bool.and_eq_true, List.all_eq_true] at hport
    refine forall_mem_cons.2 ⟨by decide, fun c hc => ?_⟩
    simp [isHostChar, isAlnum, isLowerNum, hport.2 c hc]

theorem isName_cases (h : isName n = true) : ∃ seg segs, n.splitOn '/' = seg :: segs ∧
    (∀ s ∈ segs, isComponent s = true) ∧
    (isComponent seg = true ∨ isHostname seg = true ∧ segs ≠ []) := by
  unfold isName at h
  split at h
  · cases h
  · next seg segs hsplit =>
    exact ⟨seg, segs, hsplit, by simpa using h⟩

def isNameChar (c : Char) : Bool := c == '/' || isHostChar c || isComponentChar c

theorem isNameChar_of_isName (h : isName n = true) : ∀ c ∈ n, isNameChar c = true := by
  obtain ⟨seg, segs, hsplit, hsegs, hseg⟩ := isName_cases h
  have hcomp : ∀ s, isComponent s = true → ∀ c ∈ s, isNameChar c = true := by
    intro s hs c hc
    rw [isNameChar, isComponentChar_of_isComponent hs c hc, Bool.or_true]
  have hall : ∀ c ∈ ['/'].intercalate (seg :: segs), isNameChar c = true := by
    refine forall_mem_intercalate (by decide)
      (forall_mem_cons.2 ⟨?_, fun s hs => hcomp s (hsegs s hs)⟩)
    obtain hseg | ⟨hseg, -⟩ := hseg
    · exact hcomp seg hseg
    · intro c hc
      rw [isNameChar, isHostChar_of_isHostname hseg c hc, Bool.or_true, Bool.true_or]
  rwa [← hsplit, intercalate_splitOn] at hall

theorem at_notMem_of_isName (h : isName n = true) : '@' ∉ n :=
  fun hmem => absurd (isNameChar_of_isName h _ hmem) (by decide)

theorem exists_last_component (h : isName n = true) :
    ∃ t s, n = t ++ s ∧ isComponent s = true ∧ (t = [] ∨ ∃ u, t = u ++ ['/']) := by
  obtain ⟨seg, segs, hsplit, hsegs, hseg⟩ := isName_cases h
  have hn : n = ['/'].intercalate (seg :: segs) := by rw [← hsplit, intercalate_splitOn]
  rcases segs.eq_nil_or_concat with rfl | ⟨init, last, rfl⟩
  · have hseg : isComponent seg = true := by simpa using hseg
    exact ⟨[], seg, by simpa using hn, hseg, .inl rfl⟩
  · refine ⟨['/'].intercalate (seg :: init) ++ ['/'], last, ?_, hsegs last (by simp), .inr ⟨_, rfl⟩⟩
    rw [hn, concat_eq_append, ← cons_append, Filepath.intercalate_append (cons_ne_nil _ _)
      (cons_ne_nil _ _)]
    simp

theorem cutTag_of_isName (h : isName n = true) : cutTag n = (n, none) := by
  obtain ⟨t, s, rfl, hs, ht⟩ := exists_last_component h
  refine cutTag_of_last (fun c hc => ?_) ht
  have hchar := isComponentChar_of_isComponent hs c hc
  rw [Bool.and_eq_true, bne_iff_ne, bne_iff_ne]
  constructor <;> rintro rfl <;> exact absurd hchar (by decide)

theorem isTag_char (h : isTag t = true) (hc : c ∈ t) : (c != ':' && c != '/') = true ∧ c ≠ '@' := by
  have hchar : (isWord c || c == '.' || c == '-') = true := by
    cases t with
    | nil => cases hc
    | cons d t =>
      rw [isTag, Bool.and_eq_true, Bool.and_eq_true, List.all_eq_true] at h
      obtain rfl | hc := mem_cons.1 hc
      · simp [h.1.1]
      · exact h.2 c hc
  rw [Bool.and_eq_true, bne_iff_ne, bne_iff_ne]
  refine ⟨⟨?_, ?_⟩, ?_⟩ <;> rintro rfl <;> exact absurd hchar (by decide)

theorem submatch_eq_some_iff : submatch s = some (n, tag, digest) ↔
    isName n = true ∧ tag.all isTag = true ∧ digest.all isDigestRegexp = true ∧
      s = n ++ opt ':' tag ++ opt '@' digest := by
  constructor
  · intro h
    unfold submatch at h
    rcases hat : cut '@' s with ⟨rest, d⟩
    rcases htag : cutTag rest with ⟨name, t⟩
    simp only [hat, htag] at h
    split at h
    · next hall =>
      cases h
      rw [Bool.and_eq_true, Bool.and_eq_true] at hall
      refine ⟨hall.1.1, hall.1.2, hall.2, ?_⟩
      rw [(cut_eq hat).2, cutTag_eq htag]
    · cases h
  · rintro ⟨hn, htag, hdigest, rfl⟩
    have hat : '@' ∉ n ++ opt ':' tag := by
      rw [List.mem_append, not_or]
      refine ⟨at_notMem_of_isName hn, fun hmem => ?_⟩
      cases tag with
      | none => cases hmem
      | some t =>
        rw [opt, List.mem_cons] at hmem
        obtain h | h := hmem
        exacts [absurd h (by decide), (isTag_char htag h).2 rfl]
    have hcut : cutTag (n ++ opt ':' tag) = (n, tag) := by
      cases tag with
      | none => rw [opt, List.append_nil, cutTag_of_isName hn]
      | some t => exact cutTag_append fun c hc => (isTag_char htag hc).1
    simp only [submatch, cut_append_opt hat, hcut, hn, htag, hdigest, Bool.and_self, if_true]

end Docker.Reference
