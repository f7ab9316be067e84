import Docker.Archive.Containment

/-!
# Where the links of an archive lead

`createTarFile` makes a link only if its lexical target begins with the text of the directory that
the archive is extracted to. A sibling whose name begins with the name of the directory passes this
check.
-/

namespace Docker.Archive

open Filepath List

/-- The lexical target of the link that the header is for. -/
def linkTarget (path extractDir : Str) (hdr : Header) : Option Str :=
  match hdr.typeflag with
  | .link => some (join extractDir hdr.linkname)
  | .symlink => some (join (dir path) hdr.linkname)
  | _ => none

def Call.isLink : Call → Bool
  | .change _ (.link ..) | .change _ (.symlink ..) => true
  | _ => false

section
variable {extractDir path target : Str} {hdr : Header} {temp lchown : Bool} {data : Content}
  {chownOpts : Option (Int × Int)} {ok : (c : Call) → c.Answer → Prop} {calls : List Call}

/-- A path that begins with the text of another one is inside, or inside a path that goes on in the
same element. -/
theorem inside_of_hasPrefix (h : hasPrefix target extractDir = true) :
    inside extractDir target = true ∨ ∃ x, x ≠ [] ∧ '/' ∉ x ∧
      inside (extractDir ++ x) target = true := by
  obtain ⟨r, rfl⟩ := hasPrefix_iff.1 h
  have hr := (takeWhile_append_dropWhile (p := (· != '/')) (l := r)).symm
  have hx : '/' ∉ r.takeWhile (· != '/') := fun hm => by simpa using mem_takeWhile_imp hm
  generalize r.takeWhile (· != '/') = x at hr hx
  have hin : inside (extractDir ++ x) (extractDir ++ r) = true := by
    rw [hr, ← append_assoc]
    cases hd : r.dropWhile (· != '/') with
    | nil => simp [inside]
    | cons a q =>
      obtain rfl : a = '/' := by
        simpa [hd] using head_dropWhile_not (· != '/') (l := r) (by simp [hd])
      simp [inside, hasPrefix_iff]
  by_cases hnil : x = []
  · exact .inl (by simpa [hnil] using hin)
  · exact .inr ⟨x, hnil, hx, hin⟩

theorem rejected_eq_none
    (hrun : (createTarFile temp path extractDir hdr data lchown chownOpts).run.Makes ok calls)
    (hne : calls ≠ []) : rejected path extractDir hdr = none := by
  unfold createTarFile at hrun
  split at hrun
  · cases hrun
    exact absurd rfl hne
  · next h => exact h

theorem hasPrefix_linkTarget (h : rejected path extractDir hdr = none)
    (ht : linkTarget path extractDir hdr = some target) : hasPrefix target extractDir = true := by
  unfold linkTarget at ht
  unfold rejected at h
  split at ht <;> cases ht <;> simp_all

/-- A path inside a directory does not go on in the last element of the directory's name. -/
theorem not_inside_sibling (hne : x ≠ []) (hx : '/' ∉ x) (h : inside extractDir target = true) :
    inside (extractDir ++ x) target = false := by
  obtain ⟨a, y, rfl⟩ := exists_cons_of_ne_nil hne
  have ha : a ≠ '/' := fun he => hx (he ▸ mem_cons_self)
  by_contra hin
  have hr : ∃ r, target = extractDir ++ a :: r := by
    simp only [inside, Bool.or_eq_true, beq_iff_eq, hasPrefix_iff, Bool.not_eq_false] at hin
    rcases hin with rfl | ⟨r, rfl⟩
    · exact ⟨y, rfl⟩
    · exact ⟨y ++ '/' :: r, by simp⟩
  obtain ⟨r, rfl⟩ := hr
  simp [inside, hasPrefix_iff, ha.symm] at h

/-- A link that `createTarFile` makes leads to the directory or into it if and only if it does not
lead to a sibling whose name begins with the name of the directory. -/
theorem link_inside
    (hrun : (createTarFile temp path extractDir hdr data lchown chownOpts).run.Makes ok calls)
    (hmade : ∃ c ∈ calls, c.isLink = true) (ht : linkTarget path extractDir hdr = some target) :
    inside extractDir target = true ↔ ∀ x, x ≠ [] → '/' ∉ x →
      inside (extractDir ++ x) target = false := by
  refine ⟨fun h x hne hx => not_inside_sibling hne hx h, fun hsibling => ?_⟩
  obtain ⟨c, hc, -⟩ := hmade
  have hrej := rejected_eq_none hrun (ne_nil_of_mem hc)
  rcases inside_of_hasPrefix (hasPrefix_linkTarget hrej ht) with hin | ⟨x, hne, hx, hin⟩
  · exact hin
  · rw [hsibling x hne hx] at hin
    cases hin

end

/-- A symlink at `/d/l`. -/
def symlinkTo (linkname : Str) : Header :=
  { name := ['l'], typeflag := .symlink, linkname := linkname }

theorem symlink_made (linkname : Str)
    (h : rejected ['/', 'd', '/', 'l'] ['/', 'd'] (symlinkTo linkname) = none) :
    (createTarFile false ['/', 'd', '/', 'l'] ['/', 'd'] (symlinkTo linkname)
      [] true none).run.Makes (fun _ _ => True)
      [.change false (.symlink linkname ['/', 'd', '/', 'l'])] := by
  rw [createTarFile, h]
  exact .last _ _

theorem link_inside_f : inside ['/', 'd'] ['/', 'd', '/', 'f'] = true ↔
    ∀ x, x ≠ [] → '/' ∉ x → inside (['/', 'd'] ++ x) ['/', 'd', '/', 'f'] = false :=
  link_inside (symlink_made ['f'] (by decide)) ⟨_, mem_singleton_self _, rfl⟩ (by decide)

/-- Below `/d` a symlink can lead to `/dx/f`. -/
theorem link_outside : IsDest ['/', 'd'] ∧ inside ['/', 'd'] ['/', 'd', '/', 'l'] = true ∧
    linkTarget ['/', 'd', '/', 'l'] ['/', 'd'] (symlinkTo ['.', '.', '/', 'd', 'x', '/', 'f']) =
      some ['/', 'd', 'x', '/', 'f'] ∧ inside ['/', 'd'] ['/', 'd', 'x', '/', 'f'] = false ∧
    (createTarFile false ['/', 'd', '/', 'l'] ['/', 'd']
      (symlinkTo ['.', '.', '/', 'd', 'x', '/', 'f']) [] true
      none).run.Makes (fun _ _ => True)
        [.change false (.symlink ['.', '.', '/', 'd', 'x', '/', 'f'] ['/', 'd', '/', 'l'])] :=
  ⟨⟨by decide, by decide, by decide⟩, by decide, by decide, by decide, symlink_made _ (by decide)⟩

end Docker.Archive
