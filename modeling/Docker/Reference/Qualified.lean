import Docker.Reference.Matching

/-!
# Two readings of a host name

`Hostname` takes what is in front of the first slash if it looks like a host name, `SplitReposName`
only if the grammar also reads it as one. A component of a path can have an underscore, a host name
cannot.
-/

namespace Docker.Reference

open Named List ComponentState

/-! ## Components without an underscore -/

/-- What stands between two dots when the reading of a component goes on in the given state. -/
structure HostPiece (st : ComponentState) (p : Str) : Prop where
  chars : ∀ c ∈ p, (isAlnum c || c == '-') = true
  first : st = .need → p.head?.any isAlnum = true
  last : p.getLast?.any isAlnum = true ∨ p = [] ∧ st = .alnum

theorem HostPiece.isHostComponent (h : HostPiece .need p) : isHostComponent p = true := by
  have hlast : p.getLast?.any isAlnum = true := h.last.resolve_right fun hp => by cases hp.2
  rw [Reference.isHostComponent, h.first rfl, hlast]
  simpa using h.chars

theorem isAlnum_of_isLowerNum (h : isLowerNum c = true) : isAlnum c = true := by
  rw [isAlnum, h, Bool.true_or]

theorem ComponentState.next_cases {st st' : ComponentState} (h : st.next c = some st')
    (hc : c ≠ '_') :
    isLowerNum c = true ∧ st' = .alnum ∨ c = '.' ∧ st = .alnum ∧ st' = .need ∨ c = '-' ∧
      st ≠ .need ∧ st' = .dash := by
  cases st with
  | need =>
    simp only [next] at h
    split at h
    · next hnum => exact .inl ⟨hnum, by simpa using h.symm⟩
    · cases h
  | alnum =>
    simp only [next, if_neg hc] at h
    split at h
    · next hnum => exact .inl ⟨hnum, by simpa using h.symm⟩
    · split at h
      · next hdot => exact .inr (.inl ⟨hdot, rfl, by simpa using h.symm⟩)
      · split at h
        · next hdash => exact .inr (.inr ⟨hdash, by simp, by simpa using h.symm⟩)
        · cases h
  | underscore =>
    simp only [next, if_neg hc] at h
    split at h
    · next hnum => exact .inl ⟨hnum, by simpa using h.symm⟩
    · cases h
  | dash =>
    simp only [next] at h
    split at h
    · next hnum => exact .inl ⟨hnum, by simpa using h.symm⟩
    · split at h
      · next hdash => exact .inr (.inr ⟨hdash, by simp, by simpa using h.symm⟩)
      · cases h

theorem HostPiece.cons (h : HostPiece st' p)
    (hc : isLowerNum c = true ∧ st' = .alnum ∨ c = '-' ∧ st ≠ .need ∧ st' = .dash) :
    HostPiece st (c :: p) where
  chars := by
    refine forall_mem_cons.2 ⟨?_, h.chars⟩
    obtain ⟨hnum, -⟩ | ⟨rfl, -, -⟩ := hc
    · rw [isAlnum_of_isLowerNum hnum, Bool.true_or]
    · decide
  first hst := by
    obtain ⟨hnum, -⟩ | ⟨-, hne, -⟩ := hc
    · exact isAlnum_of_isLowerNum hnum
    · exact absurd hst hne
  last := by
    left
    obtain hlast | ⟨rfl, rfl⟩ := h.last
    · cases p with
      | nil => cases hlast
      | cons d p => rwa [getLast?_cons_cons]
    · obtain ⟨hnum, -⟩ | ⟨-, -, hdash⟩ := hc
      · exact isAlnum_of_isLowerNum hnum
      · cases hdash

theorem splitOn_dot_of_foldlM {s : Str} (h : s.foldlM next st = some .alnum)
    (hs : '_' ∉ s) : ∃ p ps, s.splitOn '.' = p :: ps ∧ HostPiece st p ∧ ∀ q ∈ ps,
      isHostComponent q = true := by
  induction s generalizing st with
  | nil =>
    cases h
    exact ⟨[], [], rfl, ⟨nofun, nofun, .inr ⟨rfl, rfl⟩⟩, nofun⟩
  | cons c s ih =>
    rw [List.mem_cons, not_or] at hs
    rw [List.foldlM_cons, Option.bind_eq_bind, Option.bind_eq_some_iff] at h
    obtain ⟨st', hnext, h⟩ := h
    obtain ⟨p, ps, hsplit, hp, hps⟩ := ih h hs.2
    rw [List.splitOn, List.splitOnP_cons_eq_if_modifyHead]
    change ∃ p ps, (if (c == '.') = true then [] :: s.splitOn '.'
      else (s.splitOn '.').modifyHead _) = _ ∧ _
    rw [hsplit]
    obtain hnum | ⟨rfl, rfl, rfl⟩ | hdash := next_cases hnext (Ne.symm hs.1)
    · have hdot : ¬ (c == '.') = true := fun he => by
        rw [beq_iff_eq.1 he] at hnum
        exact absurd hnum.1 (by decide)
      exact ⟨c :: p, ps, if_neg hdot, hp.cons (.inl hnum), hps⟩
    · -- a dot ends a piece, and the next one is read from its start
      exact ⟨[], p :: ps, if_pos rfl, ⟨nofun, nofun, .inr ⟨rfl, rfl⟩⟩,
        List.forall_mem_cons.2 ⟨hp.isHostComponent, hps⟩⟩
    · have hdot : ¬ (c == '.') = true := fun he => by
        rw [beq_iff_eq.1 he] at hdash
        exact absurd hdash.1 (by decide)
      exact ⟨c :: p, ps, if_neg hdot, hp.cons (.inr hdash), hps⟩

theorem isHostname_of_isComponent (h : isComponent s = true) (hs : '_' ∉ s) :
    isHostname s = true := by
  have hport : ':' ∉ s := fun hmem => absurd (isComponentChar_of_isComponent h _ hmem) (by decide)
  rw [isComponent, beq_iff_eq] at h
  obtain ⟨p, ps, hsplit, hp, hps⟩ := splitOn_dot_of_foldlM h hs
  rw [isHostname, cut_of_notMem hport]
  simp only [hsplit, all_cons, hp.isHostComponent, all_eq_true.2 hps]
  rfl

/-! ## The two readings -/

section
variable {r : Named}

theorem isValidHostname_of_looksLikeHost (hslash : '/' ∉ host) (h : looksLikeHost host = true) :
    isValidHostname host = true := by
  have hne : host ≠ [] := by
    rintro rfl
    cases h
  simp only [looksLikeHost, Bool.or_eq_true, any_eq_true, beq_iff_eq] at h
  simp only [isValidHostname, Bool.and_eq_true, Bool.or_eq_true, decide_eq_true_eq,
    bne_iff_ne, beq_iff_eq]
  refine ⟨⟨hne, hslash⟩, ?_⟩
  obtain ⟨c, hc, rfl | rfl⟩ | hlocal := h
  · exact .inl (.inl hc)
  · exact .inl (.inr hc)
  · exact .inr hlocal

/-- The name of a reference never has the old name of the default host in front. -/
theorem Named.hostname_of_front (hname : r.name = front ++ '/' :: rest) (hslash : '/' ∉ front)
    (hfront : looksLikeHost front = true) : r.hostname = front := by
  have hlegacy : front ≠ legacyDefaultHostname := by
    rintro rfl
    refine (isNormal_iff.1 (isRepositoryName_iff.1 r.name_valid).2.2.1).1 ⟨rest, ?_⟩
    rw [hname, append_assoc, singleton_append]
  rw [hostname, hname]
  by_cases hdefault : front = defaultHostname
  · rw [splitHostname_of_default (.inl hdefault), hdefault]
  · rw [splitHostname_of_host hslash hfront hlegacy hdefault]

theorem Named.hostname_cases (r : Named) : r.hostname = [] ∨
    ∃ rest, r.name = r.hostname ++ '/' :: rest ∧ '/' ∉ r.hostname ∧
      looksLikeHost r.hostname = true := by
  rcases hcut : cut '/' r.name with ⟨front, o⟩
  obtain ⟨hslash, hname⟩ := cut_eq hcut
  cases o with
  | none =>
    rw [opt, append_nil] at hname
    left
    rw [hostname, splitHostname_of_notMem (hname ▸ hslash)]
  | some rest =>
    rw [opt] at hname
    cases hlooks : looksLikeHost front with
    | false =>
      left
      rw [hostname, hname, splitHostname_of_not hslash hlooks]
    | true =>
      rw [hostname_of_front hname hslash hlooks]
      exact .inr ⟨rest, hname, hslash, hlooks⟩

theorem isHostname_splitHostnameRegexp (name : Str) :
    (splitHostnameRegexp name).1 = [] ∨ isHostname (splitHostnameRegexp name).1 = true := by
  unfold splitHostnameRegexp
  split
  · split
    · next h => exact .inr (Bool.and_eq_true_iff.1 h).1
    · exact .inl rfl
  · exact .inl rfl

theorem splitReposName_of_qualified (h : isReferenceFullyQualified r = true) :
    (splitReposName r).1 = r.hostname ∧ '_' ∉ r.hostname := by
  obtain ⟨rest, hname, hslash, hfront⟩ := splitHostnameRegexp_of_qualified h
  have hsplit : (splitReposName r).1 = (splitHostnameRegexp r.name).1 := by
    simp [splitReposName, isValidHostname_of_qualified h]
  have hne : (splitHostnameRegexp r.name).1 ≠ [] := by
    intro hnil
    rw [hnil] at hfront
    cases hfront
  have hhost := (isHostname_splitHostnameRegexp r.name).resolve_left hne
  rw [hsplit, hostname_of_front hname hslash hfront]
  exact ⟨rfl, fun hmem => absurd (isHostChar_of_isHostname hhost _ hmem) (by decide)⟩

theorem isReferenceFullyQualified_of_hostname (hne : r.hostname ≠ []) (h : '_' ∉ r.hostname) :
    isReferenceFullyQualified r = true := by
  obtain ⟨rest, hname, hslash, hlooks⟩ := r.hostname_cases.resolve_left hne
  obtain ⟨seg, segs, hsplit, hsegs, hseg⟩ := isName_cases (isRepositoryName_iff.1 r.name_valid).1
  obtain ⟨seg', segs', hrest⟩ := exists_cons_of_ne_nil (splitOn_ne_nil '/' rest)
  have hcut : r.name.splitOn '/' = r.hostname :: seg' :: segs' := by
    conv_lhs => rw [hname, Filepath.splitOn_cons_slash, Filepath.splitOn_name hslash, hrest,
      singleton_append]
  obtain ⟨rfl, rfl⟩ := List.cons.inj (hsplit.symm.trans hcut)
  have hhost : isHostname r.hostname = true :=
    hseg.elim (fun hcomp => isHostname_of_isComponent hcomp h) And.left
  have hregexp : (splitHostnameRegexp r.name).1 = r.hostname := by
    rw [splitHostnameRegexp, hcut]
    simp only [hhost, all_eq_true.2 hsegs]
    rfl
  have hvalid : isValidHostname r.hostname = true := isValidHostname_of_looksLikeHost hslash hlooks
  have hindex : (splitReposName r).1 = r.hostname := by simp [splitReposName, hregexp, hvalid]
  rw [isReferenceFullyQualified, hindex, bne_iff_ne]
  exact hne

/-- The two readings differ for host names with an underscore, and for no others. -/
theorem isReferenceFullyQualified_iff :
    isReferenceFullyQualified r = true ↔ r.hostname ≠ [] ∧ '_' ∉ r.hostname := by
  constructor
  · intro h
    exact ⟨hostname_ne_nil h, (splitReposName_of_qualified h).2⟩
  · rintro ⟨hne, h⟩
    exact isReferenceFullyQualified_of_hostname hne h

end

/-- For a host name without an underscore the two readings agree. -/
theorem qualified_iff_hostname (r : Named) (h : '_' ∉ r.hostname) :
    (isReferenceFullyQualified r = true ↔ r.hostname ≠ []) ∧
      (isReferenceFullyQualified r = true → (splitReposName r).1 = r.hostname) := by
  rw [isReferenceFullyQualified_iff, and_iff_left h]
  exact ⟨Iff.rfl, fun hne =>
    (splitReposName_of_qualified (isReferenceFullyQualified_of_hostname hne h)).1⟩

def localFoo : Named where
  name := "localhost:5000/foo".toList
  kind := .nameOnly
  name_valid := by decide
  kind_valid := isValid_nameOnly

theorem qualified_iff_hostname_local : parseNamed "localhost:5000/foo".toList = .ok localFoo ∧
    isReferenceFullyQualified localFoo = true ∧ (splitReposName localFoo).1 =
      localFoo.hostname := by
  obtain ⟨hiff, hindex⟩ := qualified_iff_hostname localFoo (by decide)
  have hqualified := hiff.2 (by decide)
  exact ⟨by decide +kernel, hqualified, hindex hqualified⟩

def underscoreFoo : Named where
  name := "my_host.org/foo".toList
  kind := .nameOnly
  name_valid := by decide
  kind_valid := isValid_nameOnly

/-- The reference has a host name, and it is not qualified. -/
theorem underscore_not_qualified : parseNamed "my_host.org/foo".toList = .ok underscoreFoo ∧
    underscoreFoo.hostname = "my_host.org".toList ∧
      isReferenceFullyQualified underscoreFoo = false := by
  decide +kernel

end Docker.Reference
