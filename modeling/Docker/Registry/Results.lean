import Docker.Registry.Config

/-!
# Search results

What `Search` of `registry/service.go` does with the answers. The list of them is sorted, and
`removeSearchDuplicates` looks at neighbours only.
-/

namespace Docker.Registry

open Reference List

structure SearchResultExt where
  indexName : Str := []
  registryName : Str := []
  starCount : Int := 0
  isOfficial : Bool := false
  name : Str := []
  isAutomated : Bool := false
  description : Str := []
  deriving DecidableEq

def getSearchResultsCmpFunc (withIndex : Bool) (fst snd : SearchResultExt) : Bool :=
  if withIndex ∧ fst.indexName ≠ snd.indexName then fst.indexName < snd.indexName
  else if withIndex ∧ fst.starCount ≠ snd.starCount then fst.starCount > snd.starCount
  else if fst.registryName ≠ snd.registryName then fst.registryName < snd.registryName
  else if !withIndex ∧ fst.starCount ≠ snd.starCount then fst.starCount > snd.starCount
  else if fst.name ≠ snd.name then fst.name < snd.name
  else fst.description < snd.description

def SearchResultExt.repo (e : SearchResultExt) : Str × Str := (e.registryName, e.name)

/-- The lower the number, the higher the priority of the index. -/
def Registries.prio (r : Registries) (e : SearchResultExt) : Nat :=
  r.defaults.findIdx (e.indexName = ·)

def Registries.keep (r : Registries) (prev curr : SearchResultExt) : SearchResultExt :=
  if r.prio prev > r.prio curr ∨ r.prio prev = r.prio curr ∧
    prev.starCount < curr.starCount then curr else prev

/-- The loop of `removeSearchDuplicates`, with the last entry of `res`. -/
def Registries.removeFrom (r : Registries) (prev : SearchResultExt) :
    List SearchResultExt → List SearchResultExt
  | [] => [prev]
  | curr :: data =>
    if prev.registryName = curr.registryName ∧
      prev.name = curr.name then r.removeFrom (r.keep prev curr) data
    else prev :: r.removeFrom curr data

def Registries.removeSearchDuplicates (r : Registries) : List SearchResultExt → List SearchResultExt
  | [] => []
  | e :: data => r.removeFrom e data

/-! ## Duplicates -/

section
variable {r : Registries} {a b c e prev : SearchResultExt} {data : List SearchResultExt}

/-- The index of `k` has a higher priority, or the same one and `k` has no fewer stars. -/
def Registries.AtLeast (r : Registries) (k e : SearchResultExt) : Prop :=
  r.prio k < r.prio e ∨ r.prio k = r.prio e ∧ e.starCount ≤ k.starCount

theorem keep_atLeast : r.AtLeast (r.keep a b) a ∧ r.AtLeast (r.keep a b) b := by
  unfold Registries.keep Registries.AtLeast
  split <;> omega

theorem keep_eq (r : Registries) (a b : SearchResultExt) : r.keep a b = a ∨ r.keep a b = b := by
  unfold Registries.keep
  split
  · exact .inr rfl
  · exact .inl rfl

theorem repo_keep (h : prev.repo = curr.repo) : (r.keep prev curr).repo = prev.repo := by
  rcases keep_eq r prev curr with hkeep | hkeep <;> rw [hkeep, h]

theorem Registries.AtLeast.trans (hab : r.AtLeast a b) (hbc : r.AtLeast b c) : r.AtLeast a c := by
  unfold Registries.AtLeast at *
  omega

/-- Between two entries of a repository are only entries of it. -/
def Grouped : List SearchResultExt → Prop
  | [] => True
  | a :: l => (∀ b c, [b, c].Sublist l → a.repo = c.repo → a.repo = b.repo) ∧ Grouped l

theorem removeFrom_spec (h : Grouped (prev :: data)) :
    ((r.removeFrom prev data).map (·.repo)).Nodup ∧
    (∀ e ∈ r.removeFrom prev data, e ∈ prev :: data) ∧
    ∀ e ∈ prev :: data, ∃ k ∈ r.removeFrom prev data, k.repo = e.repo ∧ r.AtLeast k e := by
  induction data generalizing prev with
  | nil => exact ⟨nodup_singleton _, fun e he => he, fun e he => ⟨e, he, rfl, .inr ⟨rfl, le_rfl⟩⟩⟩
  | cons curr data ih =>
    obtain ⟨hprev, hcurr, hdata⟩ := h
    unfold Registries.removeFrom
    split
    · next hsame =>
      have hrepo : prev.repo = curr.repo := Prod.ext hsame.1 hsame.2
      have hkeep := repo_keep (r := r) hrepo
      have hgrouped : Grouped (r.keep prev curr :: data) := by
        refine ⟨fun b c hbc heq => ?_, hdata⟩
        rw [hkeep] at heq ⊢
        exact hprev b c (hbc.cons _) heq
      obtain ⟨hnodup, hsub, hall⟩ := ih hgrouped
      obtain ⟨k, hk, hkrepo, hkbest⟩ := hall _ mem_cons_self
      refine ⟨hnodup, fun e he => ?_, forall_mem_cons.2
        ⟨?_, forall_mem_cons.2 ⟨?_, fun e he => hall e (.tail _ he)⟩⟩⟩
      · rcases mem_cons.1 (hsub e he) with rfl | he
        · rcases keep_eq r prev curr with h | h <;> simp [h]
        · simp [he]
      · exact ⟨k, hk, hkrepo.trans hkeep, hkbest.trans keep_atLeast.1⟩
      · exact ⟨k, hk, hkrepo.trans (hkeep.trans hrepo), hkbest.trans keep_atLeast.2⟩
    · next hother =>
      have hne : prev.repo ≠ curr.repo := fun h => hother (Prod.mk.inj h)
      obtain ⟨hnodup, hsub, hall⟩ := ih ⟨hcurr, hdata⟩
      refine ⟨nodup_cons.2 ⟨fun hmem => ?_, hnodup⟩,
        forall_mem_cons.2 ⟨mem_cons_self, fun e he => .tail _ (hsub e he)⟩,
        forall_mem_cons.2 ⟨⟨prev, mem_cons_self, rfl, .inr ⟨rfl, le_rfl⟩⟩, fun e he => ?_⟩⟩
      · obtain ⟨k, hk, hkrepo⟩ := mem_map.1 hmem
        rcases mem_cons.1 (hsub k hk) with rfl | hk
        · exact hne hkrepo.symm
        · exact hne (hprev curr k ((singleton_sublist.2 hk).cons_cons curr) hkrepo.symm)
      · obtain ⟨k, hk, hkbest⟩ := hall e he
        exact ⟨k, .tail _ hk, hkbest⟩

theorem grouped_of_nodup (h : ((r.removeFrom prev data).map (·.repo)).Nodup) :
    Grouped (prev :: data) := by
  induction data generalizing prev with
  | nil => exact ⟨nofun, trivial⟩
  | cons curr data ih =>
    unfold Registries.removeFrom at h
    split at h
    · next hsame =>
      have hrepo : prev.repo = curr.repo := Prod.ext hsame.1 hsame.2
      obtain ⟨hprev, hdata⟩ := ih h
      rw [repo_keep hrepo] at hprev
      refine ⟨fun b c hbc hac => ?_, fun b c hbc hac => ?_, hdata⟩
      · cases hbc with
        | cons _ hbc => exact hprev b c hbc hac
        | cons_cons => exact hrepo
      · rw [← hrepo] at hac ⊢
        exact hprev b c hbc hac
    · obtain ⟨hprev, hnodup⟩ := nodup_cons.1 h
      have hgrouped := ih hnodup
      refine ⟨fun b c hbc hac => absurd ?_ hprev, hgrouped⟩
      -- the entry that is kept for `c` is behind `prev`
      obtain ⟨k, hk, hrepo, -⟩ := (removeFrom_spec (r := r) hgrouped).2.2 c (hbc.subset (by simp))
      exact mem_map.2 ⟨k, hk, hrepo.trans hac.symm⟩

/-- The order of the entries of different repositories is total. -/
theorem cmp_of_sorted (hne : a.repo ≠ b.repo) (h : getSearchResultsCmpFunc false b a = false) :
    getSearchResultsCmpFunc false a b = true := by
  unfold getSearchResultsCmpFunc at h ⊢
  rcases eq_or_ne a.registryName b.registryName with hreg | hreg
  · have hname : a.name ≠ b.name := fun h => hne (Prod.ext hreg h)
    rcases eq_or_ne a.starCount b.starCount with hstar | hstar
    · simp [hreg, hstar, hname, hname.symm] at h ⊢
      exact lt_of_le_of_ne h hname
    · simp [hreg, hstar, hstar.symm] at h ⊢
      exact lt_of_le_of_ne h hstar.symm
  · simp [hreg, hreg.symm] at h ⊢
    exact lt_of_le_of_ne h hreg

/-- In the order in which the entries are sorted, none is between two entries of another
repository. -/
def NoneBetween (data : List SearchResultExt) : Prop :=
  ∀ a ∈ data, ∀ b ∈ data, ∀ c ∈ data, getSearchResultsCmpFunc false a b = true →
    getSearchResultsCmpFunc false b c = true →
    a.repo = c.repo → a.repo = b.repo

theorem sublist_pair (hb : b ∈ data) (hc : c ∈ data) (hne : b ≠ c) :
    [b, c].Sublist data ∨ [c, b].Sublist data := by
  obtain ⟨s, t, rfl⟩ := append_of_mem hb
  rcases mem_append.1 hc with hc | hc
  · exact .inr ((singleton_sublist.2 hc).append (singleton_sublist.2 mem_cons_self))
  · have hc : c ∈ t := (mem_cons.1 hc).resolve_left (Ne.symm hne)
    exact .inl (((singleton_sublist.2 hc).cons_cons b).trans (sublist_append_right s _))

theorem grouped_iff (hsorted : data.Pairwise fun a b => getSearchResultsCmpFunc false b a = false) :
    Grouped data ↔ NoneBetween data := by
  induction data with
  | nil => simp [Grouped, NoneBetween]
  | cons x data ih =>
    obtain ⟨hhead, htail⟩ := pairwise_cons.1 hsorted
    constructor
    · rintro ⟨hx, hgrouped⟩ a ha b hb c hc hab hbc hac
      rcases mem_cons.1 hb with rfl | hb'
      · rcases mem_cons.1 ha with rfl | ha'
        · rfl
        · cases hab.symm.trans (hhead a ha')
      rcases mem_cons.1 hc with rfl | hc'
      · cases hbc.symm.trans (hhead b hb')
      rcases mem_cons.1 ha with rfl | ha'
      · by_contra hne
        rcases sublist_pair hb' hc' (fun he => hne (he ▸ hac)) with hsub | hsub
        · exact hne (hx b c hsub hac)
        · have hcb : getSearchResultsCmpFunc false b c = false := by simpa using htail.sublist hsub
          cases hbc.symm.trans hcb
      · exact (ih htail).1 hgrouped a ha' b hb' c hc' hab hbc hac
    · intro h
      refine ⟨fun b c hbc hac => ?_, (ih htail).2 fun a ha b hb c hc =>
        h a (.tail _ ha) b (.tail _ hb) c (.tail _ hc)⟩
      have hb : b ∈ data := hbc.subset (by simp)
      have hc : c ∈ data := hbc.subset (by simp)
      by_contra hne
      have hcb : getSearchResultsCmpFunc false c b = false := by simpa using htail.sublist hbc
      exact hne (h x mem_cons_self b (.tail _ hb) c (.tail _ hc) (cmp_of_sorted hne (hhead b hb))
        (cmp_of_sorted (fun he => hne (hac.trans he.symm)) hcb) hac)

/-- A sorted list has each repository once then, from the index with the highest priority and with
the most stars there, if and only if the entries of each repository follow each other. -/
theorem removeSearchDuplicates_spec (r : Registries) {data sorted : List SearchResultExt}
    (hperm : sorted.Perm data)
    (hsorted : sorted.Pairwise fun a b => getSearchResultsCmpFunc false b a = false) :
    (((r.removeSearchDuplicates sorted).map (·.repo)).Nodup ∧
      (∀ e ∈ r.removeSearchDuplicates sorted, e ∈ data) ∧
      ∀ e ∈ data, ∃ k ∈ r.removeSearchDuplicates sorted, k.repo = e.repo ∧ r.AtLeast k e) ↔
        NoneBetween data := by
  have hbetween : NoneBetween data ↔ NoneBetween sorted := by simp only [NoneBetween, hperm.mem_iff]
  rw [hbetween, ← grouped_iff hsorted]
  cases sorted with
  | nil => simp [← hperm.mem_iff, Registries.removeSearchDuplicates, Grouped]
  | cons a sorted =>
    refine ⟨fun h => grouped_of_nodup h.1, fun hgrouped => ?_⟩
    obtain ⟨hnodup, hsub, hall⟩ := removeFrom_spec (r := r) hgrouped
    exact ⟨hnodup, fun e he => hperm.mem_iff.1 (hsub e he), fun e he => hall e (hperm.mem_iff.2 he)⟩

end

def entry (index : String) (stars : Int) (name : String) : SearchResultExt :=
  { indexName := index.toList, starCount := stars, name := name.toList }

def preferred : Registries := ⟨[], ["j".toList]⟩

theorem removeSearchDuplicates_spec_two :
    ((preferred.removeSearchDuplicates [entry "i" 5 "a", entry "j" 4 "a", entry "i" 3 "b"]).map
      (·.repo)).Nodup :=
  ((removeSearchDuplicates_spec preferred (.refl _) (by decide)).2
    (by unfold NoneBetween; decide)).1

/-- With another repository between them, both entries of a repository stay. -/
theorem removeSearchDuplicates_apart :
    (let data := [entry "i" 5 "a", entry "i" 3 "b", entry "j" 1 "a"]
    data.Pairwise (fun a b => getSearchResultsCmpFunc false b a = false) ∧
      preferred.removeSearchDuplicates data = data) := by
  decide

end Docker.Registry
