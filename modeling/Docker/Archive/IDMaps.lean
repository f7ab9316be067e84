import Docker.Archive.Basic

/-!
# Maps of user and group ids

`createIDMap` and `ToContainer` in `pkg/idtools/idtools.go`. The ids of a container are numbered
through the ranges of the host, in the order of their starts, which are different if the ranges are
disjoint.
-/

namespace Docker.Archive

open List

structure SubIDRange where
  start : Int
  length : Int
  deriving DecidableEq

/-- The loop of `createIDMap`, from a container id on. -/
def idMapFrom (containerID : Int) : List SubIDRange → List IDMap
  | [] => []
  | r :: rs => ⟨containerID, r.start, r.length⟩ :: idMapFrom (containerID + r.length) rs

def sort (subidRanges : List SubIDRange) : List SubIDRange :=
  subidRanges.mergeSort fun a b => a.start ≤ b.start

def createIDMap (subidRanges : List SubIDRange) : List IDMap := idMapFrom 0 (sort subidRanges)

def toContainer (hostID : Int) : Option (List IDMap) → Except String Int
  | none => .ok hostID
  | some idMap =>
    match idMap.find? fun m => m.hostID ≤ hostID ∧ hostID ≤ m.hostID + m.size - 1 with
    | some m => .ok (m.containerID + (hostID - m.hostID))
    | none => .error s!"Host ID {hostID} cannot be mapped to a container ID"

def SubIDRange.has (r : SubIDRange) (id : Int) : Prop := r.start ≤ id ∧ id < r.start + r.length

def SubIDRange.Before (a b : SubIDRange) : Prop := a.start + a.length ≤ b.start

def total (rs : List SubIDRange) : Int := (rs.map SubIDRange.length).sum

/-- The entry takes the container id to the host id. -/
def IDMap.Maps (m : IDMap) (c h : Int) : Prop :=
  m.containerID ≤ c ∧ c < m.containerID + m.size ∧ h = m.hostID + (c - m.containerID)

def IDMap.Before (a b : IDMap) : Prop :=
  a.containerID + a.size ≤ b.containerID ∧ a.hostID + a.size ≤ b.hostID

variable {rs : List SubIDRange} {k c h : Int} {m : IDMap} {idMap : List IDMap}

theorem total_nonneg (hlen : ∀ r ∈ rs, 0 < r.length) : 0 ≤ total rs := by
  induction rs with
  | nil => exact Int.le_refl _
  | cons r rs ih =>
    rw [forall_mem_cons] at hlen
    have hcons : total (r :: rs) = r.length + total rs := sum_cons
    have := ih hlen.2
    omega

theorem of_mem_idMapFrom (hlen : ∀ r ∈ rs, 0 < r.length) (hm : m ∈ idMapFrom k rs) :
    k ≤ m.containerID ∧
    m.containerID + m.size ≤ k + total rs ∧ ⟨m.hostID, m.size⟩ ∈ rs := by
  induction rs generalizing k with
  | nil => cases hm
  | cons r rs ih =>
    rw [forall_mem_cons] at hlen
    have hcons : total (r :: rs) = r.length + total rs := sum_cons
    have htotal := total_nonneg hlen.2
    obtain rfl | hm := mem_cons.1 hm
    · exact ⟨Int.le_refl _, by dsimp only; omega, mem_cons_self⟩
    · obtain ⟨hle, hlt, hr⟩ := ih hlen.2 hm
      exact ⟨by omega, by omega, mem_cons_of_mem _ hr⟩

theorem pairwise_idMapFrom (hlen : ∀ r ∈ rs, 0 < r.length) (hrs : rs.Pairwise SubIDRange.Before) :
    (idMapFrom k rs).Pairwise IDMap.Before := by
  induction rs generalizing k with
  | nil => exact .nil
  | cons r rs ih =>
    rw [forall_mem_cons] at hlen
    rw [pairwise_cons] at hrs
    refine pairwise_cons.2 ⟨fun m hm => ?_, ih hlen.2 hrs.2⟩
    obtain ⟨hle, -, hr⟩ := of_mem_idMapFrom hlen.2 hm
    exact ⟨hle, hrs.1 _ hr⟩

theorem exists_mem_idMapFrom_container (hc : k ≤ c) (hlt : c < k + total rs) :
    ∃ m ∈ idMapFrom k rs, ∃ h, m.Maps c h := by
  induction rs generalizing k with
  | nil =>
    simp only [total, map_nil, sum_nil] at hlt
    omega
  | cons r rs ih =>
    have hcons : total (r :: rs) = r.length + total rs := sum_cons
    by_cases hr : c < k + r.length
    · exact ⟨_, mem_cons_self, _, hc, hr, rfl⟩
    · obtain ⟨m, hm, hmaps⟩ := ih (k := k + r.length) (by omega) (by omega)
      exact ⟨m, mem_cons_of_mem _ hm, hmaps⟩

theorem exists_mem_idMapFrom_host (hr : r ∈ rs) (hh : r.has h) :
    ∃ m ∈ idMapFrom k rs, ∃ c, m.Maps c h := by
  induction rs generalizing k with
  | nil => cases hr
  | cons r' rs ih =>
    obtain rfl | hr := mem_cons.1 hr
    · obtain ⟨hle, hlt⟩ := hh
      exact ⟨_, mem_cons_self, k + (h - r.start), by dsimp only [IDMap.Maps]; omega⟩
    · obtain ⟨m, hm, hmaps⟩ := ih hr
      exact ⟨m, mem_cons_of_mem _ hm, hmaps⟩

/-! ## Lookups -/

theorem find?_eq_some_iff_of_unique {l : List α}
    (hl : ∀ a ∈ l, ∀ b ∈ l, p a = true → p b = true → a = b) :
    l.find? p = some a ↔ a ∈ l ∧ p a = true := by
  refine ⟨fun h => ⟨mem_of_find?_eq_some h, List.find?_some h⟩, fun ⟨ha, hp⟩ => ?_⟩
  cases h : l.find? p with
  | none => exact absurd hp (List.find?_eq_none.1 h a ha)
  | some b => rw [hl b (mem_of_find?_eq_some h) a ha (List.find?_some h) hp]

section
variable (hmap : ∀ a ∈ idMap, ∀ b ∈ idMap, a ≠ b → a.Before b ∨ b.Before a)
include hmap

theorem toHost_eq_ok : toHost c (some idMap) = .ok h ↔ ∃ m ∈ idMap, m.Maps c h := by
  have hfind (m : IDMap) := find?_eq_some_iff_of_unique (a := m)
    (p := fun m => m.containerID ≤ c ∧ c ≤ m.containerID + m.size - 1) fun a ha b hb hpa hpb => by
      by_contra hne
      simp only [decide_eq_true_eq] at hpa hpb
      obtain hab | hab := hmap a ha b hb hne <;> dsimp only [IDMap.Before] at hab <;> omega
  simp only [decide_eq_true_eq] at hfind
  dsimp only [toHost]
  constructor
  · intro hok
    split at hok <;> cases hok
    next m hm =>
      obtain ⟨hm, hle, hlt⟩ := (hfind m).1 hm
      exact ⟨m, hm, hle, by omega, rfl⟩
  · rintro ⟨m, hm, hle, hlt, rfl⟩
    rw [(hfind m).2 ⟨hm, hle, by omega⟩]

theorem toContainer_eq_ok : toContainer h (some idMap) = .ok c ↔ ∃ m ∈ idMap, m.Maps c h := by
  have hfind (m : IDMap) := find?_eq_some_iff_of_unique (a := m)
    (p := fun m => m.hostID ≤ h ∧ h ≤ m.hostID + m.size - 1) fun a ha b hb hpa hpb => by
      by_contra hne
      simp only [decide_eq_true_eq] at hpa hpb
      obtain hab | hab := hmap a ha b hb hne <;> dsimp only [IDMap.Before] at hab <;> omega
  simp only [decide_eq_true_eq] at hfind
  dsimp only [toContainer]
  constructor
  · intro hok
    split at hok <;> cases hok
    next m hm =>
      obtain ⟨hm, hle, hlt⟩ := (hfind m).1 hm
      exact ⟨m, hm, by omega, by omega, by omega⟩
  · rintro ⟨m, hm, hle, hlt, rfl⟩
    rw [(hfind m).2 ⟨hm, by omega, by omega⟩]
    exact congrArg Except.ok (by omega)

end

theorem sort_pairwise (hlen : ∀ r ∈ sort rs, 0 < r.length)
    (hdisjoint : rs.Pairwise fun a b => a.Before b ∨ b.Before a) :
    (sort rs).Pairwise SubIDRange.Before := by
  have hperm : (sort rs).Perm rs := mergeSort_perm ..
  have hsorted : (sort rs).Pairwise fun a b => decide (a.start ≤ b.start) :=
    pairwise_mergeSort (by grind) (by grind) rs
  refine (hsorted.and ((hperm.symm.pairwise_iff Or.symm).1 hdisjoint)).imp_of_mem ?_
  rintro a b ha hb ⟨hle, hab | hba⟩
  · exact hab
  · -- `b` starts where `a` does or behind it, so it cannot end before `a` starts
    have := hlen b hb
    have hle := of_decide_eq_true hle
    dsimp only [SubIDRange.Before] at hba
    omega

/-- For disjoint ranges `ToHost` is defined below the sum of the lengths and strictly increasing,
`ToContainer` is defined on the union of the ranges, and each is the inverse of the other. -/
theorem createIDMap_bijective (hpos : ∀ r ∈ rs, 0 < r.length)
    (hdisjoint : rs.Pairwise fun a b => a.Before b ∨ b.Before a) :
    let m := some (createIDMap rs)
    (∀ c, (∃ h, toHost c m = .ok h) ↔ 0 ≤ c ∧ c < total rs) ∧
    (∀ h, (∃ c, toContainer h m = .ok c) ↔ ∃ r ∈ rs, r.has h) ∧
    (∀ c h, toHost c m = .ok h ↔ toContainer h m = .ok c) ∧
    ∀ c c' h h', toHost c m = .ok h → toHost c' m = .ok h' → c < c' → h < h' := by
  have hperm : (sort rs).Perm rs := mergeSort_perm ..
  have hlen : ∀ r ∈ sort rs, 0 < r.length := fun r hr => hpos r (hperm.mem_iff.1 hr)
  have htotal : total (sort rs) = total rs := (hperm.map _).sum_eq
  have hmap : ∀ a ∈ createIDMap rs, ∀ b ∈ createIDMap rs, a ≠ b → a.Before b ∨ b.Before a := by
    have hbefore : (createIDMap rs).Pairwise fun a b => a.Before b ∨ b.Before a :=
      (pairwise_idMapFrom hlen (sort_pairwise hlen hdisjoint)).imp .inl
    have : Std.Symm fun a b : IDMap => a.Before b ∨ b.Before a := ⟨fun _ _ => Or.symm⟩
    exact fun a ha b hb => hbefore.forall ha hb
  simp only [toHost_eq_ok hmap, toContainer_eq_ok hmap]
  refine ⟨fun c => ⟨?_, fun hc => ?_⟩, fun h => ⟨?_, fun ⟨r, hr, hh⟩ => ?_⟩, fun _ _ => trivial, ?_⟩
  · rintro ⟨h, m, hm, hle, hlt, -⟩
    obtain ⟨hle', hlt', -⟩ := of_mem_idMapFrom hlen hm
    omega
  · have hlt : c < 0 + total (sort rs) := by omega
    obtain ⟨m, hm, h, hmaps⟩ := exists_mem_idMapFrom_container hc.1 hlt
    exact ⟨h, m, hm, hmaps⟩
  · rintro ⟨c, m, hm, hle, hlt, rfl⟩
    obtain ⟨-, -, hr⟩ := of_mem_idMapFrom hlen hm
    exact ⟨_, hperm.mem_iff.1 hr, by dsimp only; omega, by dsimp only; omega⟩
  · obtain ⟨m, hm, c, hmaps⟩ := exists_mem_idMapFrom_host (hperm.mem_iff.2 hr) hh
    exact ⟨c, m, hm, hmaps⟩
  · rintro c c' h h' ⟨m, hm, hle, hlt, rfl⟩ ⟨m', hm', hle', hlt', rfl⟩ hcc
    by_cases he : m = m'
    · subst he
      omega
    · obtain hb | hb := hmap m hm m' hm' he <;> dsimp only [IDMap.Before] at hb <;> omega

theorem createIDMap_bijective_two : toHost 7 (some (createIDMap [⟨40, 5⟩, ⟨10, 5⟩])) = .ok 42 ∧
    toContainer 42 (some (createIDMap [⟨40, 5⟩, ⟨10, 5⟩])) = .ok 7 := by
  have hok : toHost 7 (some (createIDMap [⟨40, 5⟩, ⟨10, 5⟩])) = .ok 42 := by
    simp [createIDMap, sort, mergeSort, idMapFrom, toHost]
  have hdisjoint : [⟨40, 5⟩, ⟨10, 5⟩].Pairwise fun a b : SubIDRange => a.Before b ∨ b.Before a := by
    simp [SubIDRange.Before]
  exact ⟨hok, ((createIDMap_bijective (by decide) hdisjoint).2.2.1 7 42).1 hok⟩

end Docker.Archive
