import Docker.Archive.Basic

/-!
# Archives under another name

`RebaseArchiveEntries` of `pkg/archive/copy.go` replaces the base in the names of the entries. The
names that hard links refer to stay as they are.
-/

namespace Docker.Archive

open Filepath List

/-- `strings.Replace(s, old, new, 1)` -/
def replaceFirst (old new : Str) : Str → Str
  | [] => if old = [] then new else []
  | c :: s =>
    if hasPrefix (c :: s) old then new ++ (c :: s).drop old.length else c :: replaceFirst old new s

/-- A stream that breaks off is passed on up to there. -/
def rebaseArchiveEntries (srcContent : Layer) (oldBase newBase : Str) : Layer :=
  let oldBase := if oldBase = ['/'] then [] else oldBase
  { srcContent with
    entries := srcContent.entries.map fun e =>
      ({ e.1 with name := replaceFirst oldBase newBase e.1.name }, e.2) }

/-- The entry with the beginning of its name replaced. -/
def rebased (oldBase newBase : Str) (e : Header × Content) : Header × Content :=
  ({ e.1 with name := newBase ++ e.1.name.drop oldBase.length }, e.2)

/-- Hard links refer to earlier entries of the archive, those of the given numbers. -/
def LinksTo (entries : List (Header × Content)) (i j : Nat) : Prop :=
  j < i ∧ ∃ e e', entries[i]? = some e ∧ entries[j]? = some e' ∧ e.1.typeflag = .link ∧
    e.1.linkname = e'.1.name

theorem replaceFirst_of_hasPrefix (new : Str) (h : hasPrefix s old = true) :
    replaceFirst old new s = new ++ s.drop old.length := by
  cases s with
  | nil =>
    obtain rfl := prefix_nil.1 (hasPrefix_iff.1 h)
    simp [replaceFirst]
  | cons c s => rw [replaceFirst, if_pos h]

theorem hasPrefix_of_inside (h : inside d p = true) : hasPrefix p d = true := by
  rw [inside, Bool.or_eq_true, beq_iff_eq] at h
  rw [hasPrefix_iff]
  rcases h with rfl | h
  · exact prefix_refl p
  · exact (prefix_append d ['/']).trans (hasPrefix_iff.1 h)

section
variable {srcContent : Layer} {oldBase newBase : Str}
  (hnames : ∀ e ∈ srcContent.entries, inside oldBase e.1.name = true)
include hnames

theorem rebase_entries (hroot : oldBase ≠ ['/']) :
    (rebaseArchiveEntries srcContent oldBase newBase).entries = srcContent.entries.map
    (rebased oldBase newBase) := by
  refine map_congr_left fun e he => ?_
  rw [if_neg hroot, replaceFirst_of_hasPrefix newBase (hasPrefix_of_inside (hnames e he))]
  rfl

/-- With the base `/`, the slash at the beginning of a name stays. -/
theorem rebase_entries_ne (hroot : oldBase = ['/']) (hne : srcContent.entries ≠ []) :
    (rebaseArchiveEntries srcContent oldBase newBase).entries ≠ srcContent.entries.map
    (rebased oldBase newBase) := by
  subst hroot
  obtain ⟨e, es, hes⟩ := exists_cons_of_ne_nil hne
  have hin := hnames e (hes ▸ mem_cons_self)
  obtain ⟨r, hr⟩ := hasPrefix_iff.1 (hasPrefix_of_inside hin)
  intro h
  simp [rebaseArchiveEntries, hes, rebased, ← hr, replaceFirst, hasPrefix] at h

/-- A hard link refers to the same entry afterwards just if the base is not changed. -/
theorem linksTo_rebased (h : LinksTo srcContent.entries i j) :
    LinksTo (srcContent.entries.map (rebased oldBase newBase)) i j ↔ oldBase = newBase := by
  obtain ⟨hlt, e, e', he, he', hlink, hname⟩ := h
  obtain ⟨r, hr⟩ := hasPrefix_iff.1 (hasPrefix_of_inside (hnames e' (mem_of_getElem? he')))
  have hiff : e.1.linkname = newBase ++ e'.1.name.drop oldBase.length ↔ oldBase = newBase := by
    rw [hname, ← hr, drop_left]
    exact append_left_inj r
  rw [← hiff]
  constructor
  · rintro ⟨-, f, f', hf, hf', -, hname'⟩
    rw [getElem?_map, he] at hf
    rw [getElem?_map, he'] at hf'
    cases hf
    cases hf'
    exact hname'
  · exact fun hname' => ⟨hlt, rebased oldBase newBase e,
      rebased oldBase newBase e', by simp [he], by simp [he'], hlink, hname'⟩

end

/-- Exactly the base is replaced in the names and hard links refer to the same entries as before, if
and only if there is nothing to do for the base `/`, and for another one there are no hard links or
the base stays. -/
theorem rebase_selfContained {srcContent : Layer} {oldBase newBase : Str}
    (hnames : ∀ e ∈ srcContent.entries, inside oldBase e.1.name = true)
    (hlinked : ∀ (i : Nat) e, srcContent.entries[i]? = some e → e.1.typeflag = .link →
      ∃ j, LinksTo srcContent.entries i j) :
    ((rebaseArchiveEntries srcContent oldBase newBase).entries = srcContent.entries.map
      (rebased oldBase newBase) ∧
      ∀ i j, LinksTo srcContent.entries i j →
        LinksTo (rebaseArchiveEntries srcContent oldBase newBase).entries i j) ↔
    if oldBase = ['/'] then srcContent.entries = []
    else oldBase = newBase ∨ ∀ e ∈ srcContent.entries, e.1.typeflag ≠ .link := by
  split
  · next hroot =>
    refine ⟨fun h => ?_, fun hnil => ?_⟩
    · by_contra hne
      exact rebase_entries_ne hnames hroot hne h.1
    · simp [rebaseArchiveEntries, hnil, LinksTo]
  · next hroot =>
    rw [rebase_entries hnames hroot, and_iff_right rfl]
    refine ⟨fun h => ?_, fun h i j hij => (linksTo_rebased hnames hij).2 ?_⟩
    · refine or_iff_not_imp_right.2 fun hlink => ?_
      simp only [not_forall, not_not] at hlink
      obtain ⟨e, he, hlink⟩ := hlink
      obtain ⟨i, hi⟩ := mem_iff_getElem?.1 he
      obtain ⟨j, hij⟩ := hlinked i e hi hlink
      exact (linksTo_rebased hnames hij).1 (h i j hij)
    · obtain ⟨-, e, -, he, -, hlink, -⟩ := hij
      exact h.resolve_right fun hno => hno e (mem_of_getElem? he) hlink

/-- `a/a/f`, where the base comes twice. -/
def nestedFile : Layer where
  entries := [({ name := ['a', '/', 'a', '/', 'f'] }, [7])]

theorem rebase_selfContained_nested :
    (rebaseArchiveEntries nestedFile ['a'] ['b']).entries =
    [({ name := ['b', '/', 'a', '/', 'f'] }, [7])] :=
  ((rebase_selfContained (by decide) (fun i e he hlink => by
    have hfile : ∀ e ∈ nestedFile.entries, e.1.typeflag ≠ .link := by decide
    exact absurd hlink (hfile e (mem_of_getElem? he)))).2 (by decide)).1

/-- A file and a hard link to it. -/
def linkedFile : Layer where
  entries := [({ name := ['a', '/', 'f'] }, [7]),
    ({ name := ['a', '/', 'g'], typeflag := .link, linkname := ['a', '/', 'f'] }, [])]

theorem rebase_breaks_link : (∀ e ∈ linkedFile.entries, inside ['a'] e.1.name = true) ∧
    LinksTo linkedFile.entries 1 0 ∧
    (rebaseArchiveEntries linkedFile ['a'] ['b']).entries = [({ name := ['b', '/', 'f'] }, [7]),
      ({ name := ['b', '/', 'g'], typeflag := .link, linkname := ['a', '/', 'f'] }, [])] :=
  ⟨by decide, ⟨by decide, _, _, rfl, rfl, rfl, rfl⟩, by decide⟩

end Docker.Archive
