import Docker.Archive.Unpack

/-!
# What unpacking a layer touches

Which headers keep `UnpackLayer` inside its destination, an existing directory, whatever else the
file system answers. Containment is lexical: it is about the paths handed to the calls.

The check against breaking out comes after the parent directory is made, lets the parent of the
destination through, and is about the path of a whiteout and not about what the whiteout removes.
-/

namespace Docker.Archive

open Filepath Change List

/-- The directories that hold `dest`, itself included. -/
def above (dest path : Str) : Bool := path == ['/'] || inside path dest

def Change.path : Change → Str
  | .mkdirAll path _ | .removeAll path | .mkdir path _ | .writeFile path _ _ | .mknod path _ _ _ _
  | .link _ path | .symlink _ path | .lchown path _ _ | .lsetxattr path _ _ | .chmod path _
  | .chtimes path _ _ | .lutimes path _ _ => path

/-- The change stays in `dest` and leaves it in place. `MkdirAll` makes the directories that are
missing on the way to its path, none of which is above `dest`. -/
def Change.contained (dest : Str) : Change → Bool
  | .mkdirAll path _ =>
    (elements path).inits.all fun es => inside dest (print true es) || above dest (print true es)
  | .removeAll path => inside dest path && path != dest
  | c => inside dest c.path

/-- Changes of files in the temporary directory do not count. -/
def Call.contained (dest : Str) : Call → Bool
  | .change false c => c.contained dest
  | _ => true

/-- The answers of a file system where `dest` is a directory. -/
def Answers (dest : Str) : (c : Call) → c.Answer → Prop
  | .lstat path, (r : Except Errno Info) => above dest path → ∃ fi, r = .ok fi ∧ fi.isDir
  | .readDirNames _, (r : Except Errno (List Str)) =>
    ∀ names, r = .ok names → ∀ name ∈ names, IsName name
  | _, _ => True

/-- A cleaned absolute path other than the root. -/
structure IsDest (dest : Str) : Prop where
  isAbs : isAbs dest
  clean : clean dest = dest
  ne_root : dest ≠ ['/']

/-! ## Headers -/

def breaksOut (dest path : Str) : Bool :=
  match rel dest path with
  | none => true
  | some r => hasPrefix r (dotdot ++ ['/'])

def whiteoutTarget (path : Str) : Str := join (dir path) ((base path).drop whiteoutPrefix.length)

/-- The entry at a path that passes the check stays inside: a whiteout by what it removes, an opaque
mark by the directory it empties, others by their path. An entry for a directory whose owner cannot
be mapped is not written. -/
def pathStays (dest : Str) (options : Options) (root : Int × Int) (path : Str) (hdr : Header) :
    Bool :=
  if hasPrefix (base path) whiteoutPrefix then
    if base path = whiteoutOpaqueDir then inside dest (dir path)
    else inside dest (whiteoutTarget path) && whiteoutTarget path != dest
  else
    inside dest path && (path != dest || hdr.typeflag = .dir) ||
      hdr.typeflag = .dir && !(mapOwner options root hdr).isOk

/-- The entry stays inside, and so does the parent directory that is made for it. -/
def entryStays (dest : Str) (options : Options) (root : Int × Int) (hdr : Header) : Bool :=
  (['/'].isSuffixOf hdr.name || inside dest (join dest (dir hdr.name)) ||
    above dest (join dest (dir hdr.name))) &&
    (isSkipped hdr.name || breaksOut dest (join dest hdr.name) ||
      pathStays dest options root (join dest hdr.name) hdr)

/-- The links after an entry, or `none` for an entry that ends the loop with an error however the
file system answers. -/
def entryLinks (dest : Str) (options : Options) (root : Int × Int) (hdr : Header)
    (links : Str → Option Header) :
    Option (Str → Option Header) :=
  if isSkipped hdr.name then
    some (if isLinkTarget hdr then Function.update links (base hdr.name) (some hdr) else links)
  else if breaksOut dest (join dest hdr.name) then none
  else if hasPrefix (base (join dest hdr.name)) whiteoutPrefix then some links
  else
    match (srcHeader links hdr).bind (mapOwner options root) with
    | .error _ => none
    | .ok srcHdr =>
      if (rejected (join dest hdr.name) dest srcHdr).isSome then none
        else some (hdr.relink srcHdr links)

/-- Every entry that the loop can come to stays inside. -/
def entriesStay (dest : Str) (options : Options) (root : Int × Int) :
    List (Header × Content) → (Str → Option Header) → Bool
  | [], _ => true
  | entry :: entries, links =>
    entryStays dest options root entry.1.cleaned &&
      (entryLinks dest options root entry.1.cleaned links).all
        (entriesStay dest options root entries)

def layerStays (dest : Str) (layer : Layer) (options : Options) : Bool :=
  match getRootUIDGID options.uidMaps options.gidMaps with
  | .error _ => true
  | .ok root => entriesStay dest options root layer.entries fun _ => none

/-! ## Paths below the destination -/

structure DestElems (dest : Str) (ds : List Str) : Prop where
  names : ∀ d ∈ ds, IsName d
  ne_nil : ds ≠ []
  eq : dest = print true ds

theorem IsDest.elems {dest : Str} (h : IsDest dest) : ∃ ds, DestElems dest ds := by
  have heq : dest = print true (resolve true [] (dest.splitOn '/')) := by
    have hc := h.clean
    rwa [Filepath.clean, h.isAbs, eq_comm] at hc
  refine ⟨_, resolve_isName (fun c hc => slash_notMem_of_mem_splitOn hc) (by simp [Names]),
    fun hnil => ?_, heq⟩
  rw [hnil] at heq
  exact h.ne_root heq

namespace DestElems

variable {dest p : Str}
variable (h : DestElems dest ds)
include h

/-- Whatever is joined to the destination is an absolute path again. -/
theorem exists_join (p : Str) : ∃ xs, join dest p = print true xs ∧ Names xs :=
  ⟨_, h.eq ▸ join_print h.names, resolve_isName
    (fun _ hc => slash_notMem_of_mem_splitOn hc) h.names⟩

theorem inside_iff (hx : Names xs) :
    inside dest (print true xs) = true ↔ ds <+: xs := h.eq ▸ inside_print h.names hx h.ne_nil

theorem above_iff (hx : Names xs) : above dest (print true xs) = true ↔ xs <+: ds := by
  by_cases hnil : xs = []
  · subst hnil
    simp [above, print_true]
  · have hne := print_ne_root hx hnil
    simp only [above, Bool.or_eq_true, beq_iff_eq, hne, false_or, h.eq]
    exact inside_print hx h.names hnil

theorem eq_iff (hx : Names xs) : print true xs = dest ↔ xs = ds :=
  ⟨fun he => print_inj hx h.names (he.trans h.eq), fun he => he ▸ h.eq.symm⟩

theorem breaksOut_iff (hx : Names xs) :
    breaksOut dest (print true xs) = true ↔ ¬ ds <+: xs ∧ xs ≠ ds.dropLast := by
  obtain ⟨r, hr, hp⟩ := hasPrefix_rel h.names hx
  rw [breaksOut, h.eq, hr]
  exact hp

theorem mkdirAll_contained_iff (hx : Names xs) (perm : Nat) :
    (mkdirAll (print true xs) perm).contained dest = true ↔ ds <+: xs ∨ xs <+: ds := by
  have hall : (mkdirAll (print true xs) perm).contained dest = true ↔
      ∀ es, es <+: xs → ds <+: es ∨ es <+: ds := by
    simp only [contained, elements_print hx, all_eq_true, mem_inits, Bool.or_eq_true]
    refine forall_congr' fun es => imp_congr_right fun hes => ?_
    have hn : Names es := fun x hxe => hx x (hes.subset hxe)
    rw [h.inside_iff hn, h.above_iff hn]
  rw [hall]
  constructor
  · exact fun hes => hes xs (prefix_refl xs)
  · rintro (hds | hxs) es hes
    · exact prefix_or_prefix_of_prefix hds hes
    · exact .inr (hes.trans hxs)

end DestElems

/-! ## Programs that stay inside -/

/-- Every call of the program is contained, and `Q` holds when it ends without an error. -/
def Stays (dest : Str) {α : Type} (x : Act α) (Q : α → Prop) : Prop :=
  Prog.Safe (Answers dest) (fun c => c.contained dest = true) x Q

section
variable {dest path : Str} {c : Change} {options : Options} {hdr : Header}

@[simp] theorem stays_pure {Q : α → Prop} : Stays dest (pure a) Q ↔ Q a := Prog.safe_pure

@[simp] theorem stays_throw {Q : α → Prop} : Stays dest (throw e) Q ↔ True := Prog.safe_throw

theorem stays_bind {x : Act α} {Q : β → Prop} :
    Stays dest (x >>= f) Q ↔ Stays dest x fun a => Stays dest (f a) Q := Prog.safe_bind

theorem Stays.mono {x : Act α} {Q Q' : α → Prop} (h : Stays dest x Q) (hQ : ∀ a, Q a → Q' a) :
    Stays dest x Q' := Prog.Safe.mono h hQ

theorem stays_call {c : Call} {Q : c.Answer → Prop} :
    Stays dest (call c) Q ↔ c.contained dest = true ∧ ∀ r, Answers dest c r → Q r := Iff.rfl

theorem stays_raise {Q : α → Prop} : Stays dest (raise r) Q ↔ ∀ a, r = .ok a → Q a := by
  cases r with
  | error e => simp [raise]
  | ok a => simp [raise]

theorem stays_raiseError {Q : α → Prop} : Stays dest (raiseError r) Q ↔ ∀ a, r = .ok a → Q a := by
  cases r with
  | error e | ok a => simp [raiseError]

theorem stays_change : Stays dest (change temp c) Q ↔ (Call.change temp c).contained dest =
    true ∧ Q () := by
  rw [change, stays_bind, stays_call]
  refine and_congr Iff.rfl ⟨fun h => ?_, fun h r _ => ?_⟩
  · exact stays_raise.1 (h (.ok ()) trivial) () rfl
  · exact stays_raise.2 fun _ _ => h

/-- A change at a path inside, or in the temporary directory. -/
def Kept (dest : Str) (temp : Bool) (path : Str) : Prop := temp = true ∨ inside dest path = true

section
variable (h : Kept dest temp path)
include h

theorem Kept.contained (hc : c.contained dest = inside dest path) :
    (Call.change temp c).contained dest = true := by
  rcases h with rfl | h
  · rfl
  · cases temp with
    | true => rfl
    | false => exact hc.trans h

theorem Kept.stays_change (hc : c.contained dest = inside dest path) :
    Stays dest (change temp c) fun _ => True :=
  Archive.stays_change.2 ⟨h.contained hc, trivial⟩

theorem Kept.stays_makeFile (ex : Str) (hdr : Header) (data : Content) :
    Stays dest (makeFile temp path ex hdr data) fun _ => True := by
  unfold makeFile
  split
  case h_1 =>
    rw [makeDir, stays_bind, stays_call]
    refine ⟨rfl, fun r _ => ?_⟩
    split
    · split
      · exact trivial
      · exact h.stays_change rfl
    · exact h.stays_change rfl
  all_goals first
    | exact h.stays_change rfl
    | exact trivial

theorem Kept.stays_setXattr (xattr : String × Content) :
    Stays dest (setXattr temp path xattr) fun _ => True := by
  rw [setXattr, stays_bind, stays_call]
  refine ⟨h.contained rfl, fun r _ => ?_⟩
  split
  · exact trivial
  · exact stays_raise.2 fun _ _ => trivial

theorem Kept.stays_ifLinksToFile (hdr : Header) (hc : c.contained dest = inside dest path) :
    Stays dest (linksToFile hdr >>= fun b => if b then change temp c else pure ())
      fun _ => True := by
  rw [stays_bind, linksToFile, stays_bind, stays_call]
  refine ⟨rfl, fun r _ => ?_⟩
  have hb : ∀ b : Bool, Stays dest (if b then change temp c else pure ()) fun _ => True := by
    intro b
    cases b with
    | false => exact trivial
    | true => exact h.stays_change hc
  split
  · exact hb _
  · exact hb _

theorem Kept.stays_handleLChmod (hdr : Header) :
    Stays dest (handleLChmod temp hdr path) fun _ => True := by
  unfold handleLChmod
  split
  · exact h.stays_ifLinksToFile hdr rfl
  · split
    · exact h.stays_change rfl
    · exact trivial

theorem Kept.stays_setTimes (hdr : Header) : Stays dest (setTimes temp hdr path) fun _ => True := by
  unfold setTimes
  split
  · exact h.stays_ifLinksToFile hdr rfl
  · split
    · exact h.stays_change rfl
    · rw [stays_bind, stays_call]
      refine ⟨h.contained rfl, fun r _ => ?_⟩
      split
      · exact trivial
      · exact stays_raise.2 fun _ _ => trivial

theorem Kept.stays_createTarFile (ex : Str) (hdr : Header) (data : Content) :
    Stays dest (createTarFile temp path ex hdr data true none) fun _ =>
      rejected path ex hdr = none := by
  unfold createTarFile
  split
  · exact trivial
  next hrej =>
  rw [stays_bind]
  refine (h.stays_makeFile ex hdr data).mono fun _ _ => ?_
  split
  · exact hrej
  rw [setMetadata, stays_bind, setOwner, if_pos rfl]
  refine (h.stays_change rfl).mono fun _ _ => ?_
  rw [stays_bind]
  refine Stays.mono (Prog.safe_forM fun xattr _ => h.stays_setXattr xattr) fun _ _ => ?_
  rw [stays_bind]
  exact (h.stays_handleLChmod hdr).mono fun _ _ => (h.stays_setTimes hdr).mono fun _ _ => hrej

end

/-! ### The entries -/

theorem DestElems.stays_ensureParent (hd : DestElems dest ds)
    (h : (['/'].isSuffixOf name || inside dest (join dest (dir name)) ||
      above dest (join dest (dir name))) = true) :
    Stays dest (ensureParent dest name) fun _ => True := by
  unfold ensureParent
  split
  · exact trivial
  next hs =>
  obtain ⟨xs, hxs, hn⟩ := hd.exists_join (dir name)
  simp only [hs, Bool.false_or, Bool.or_eq_true, hxs, hd.inside_iff hn, hd.above_iff hn] at h
  rw [stays_bind, stays_call, hxs]
  refine ⟨rfl, fun r _ => ?_⟩
  split
  · exact stays_change.2 ⟨(hd.mkdirAll_contained_iff hn 0o600).2 h, trivial⟩
  · exact trivial

theorem stays_walk {fn : Str → Option Errno → Act Unit}
    (hfn : ∀ xs err, (Names xs) → zs <+: xs → Stays dest (fn (print true xs) err) fun _ => True)
    (fuel : Nat) (hx : Names xs) (hz : zs <+: xs) (info : Info) :
    Stays dest (walk fn fuel (print true xs) info) fun _ => True := by
  induction fuel generalizing xs info with
  | zero => exact trivial
  | succ fuel ih =>
    rw [walk, stays_bind]
    refine (hfn xs none hx hz).mono fun _ _ => ?_
    split
    · rw [stays_bind, stays_call]
      refine ⟨rfl, fun r hr => ?_⟩
      split
      · exact hfn xs _ hx hz
      · next names =>
        refine Prog.safe_forM fun name hname => ?_
        have hn : IsName name := hr names rfl name hname
        have hx' := forall_mem_concat hx hn
        have hz' : zs <+: xs ++ [name] := hz.trans (prefix_append xs [name])
        change Stays dest _ _
        rw [join_name hx hn, stays_bind, stays_call]
        refine ⟨rfl, fun r _ => ?_⟩
        split
        · exact hfn _ _ hx' hz'
        · exact ih hx' hz' _
    · exact trivial

theorem DestElems.stays_removeStale {zs : List Str} (hd : DestElems dest ds) (hds : ds <+: zs)
    (hx : Names xs) (hz : zs <+: xs) (unpacked : List Str) (err : Option Errno) :
    Stays dest (removeStale (print true zs) unpacked (print true xs) err) fun _ => True := by
  unfold removeStale
  split
  · split
    · exact trivial
    · exact trivial
  split
  · exact trivial
  next hne =>
  split
  · exact trivial
  refine stays_change.2 ⟨?_, trivial⟩
  have hnd : xs ≠ ds := by
    rintro rfl
    exact hne (by rw [hds.eq_of_length_le hz.length_le])
  simp [Call.contained, contained, hd.inside_iff hx, hds.trans hz, hd.eq_iff hx, hnd]

theorem DestElems.stays_whiteout (hd : DestElems dest ds) (hx : Names xs) (fuel : Nat) (v : Vars)
    (h : (if base (print true xs) = whiteoutOpaqueDir then inside dest (dir (print true xs)) else
      inside dest (whiteoutTarget (print true xs)) && whiteoutTarget
        (print true xs) != dest) = true) :
    Stays dest (whiteout fuel (print true xs) v) fun _ => True := by
  have hn : ∀ x ∈ xs.dropLast, IsName x := fun x hxl => hx x (dropLast_subset xs hxl)
  unfold whiteout
  split at h
  · next hop =>
    rw [dir_print hx, hd.inside_iff hn] at h
    rw [if_pos hop, dir_print hx, stays_bind, stays_call]
    refine ⟨rfl, fun r _ => ?_⟩
    rw [stays_bind, stays_raise]
    intro _ _
    have hfn : ∀ ys err, (Names ys) → xs.dropLast <+: ys →
        Stays dest (removeStale (print true xs.dropLast) v.unpackedPaths (print true ys) err)
          fun _ => True :=
      fun ys err hy hz => hd.stays_removeStale h hy hz v.unpackedPaths err
    rw [walkRoot, stays_bind, stays_call]
    refine ⟨rfl, fun r _ => ?_⟩
    split
    · exact hfn _ _ hn (prefix_refl _)
    · exact stays_walk hfn fuel hn (prefix_refl _) _
  · next hop =>
    rw [if_neg hop]
    exact stays_change.2 ⟨h, trivial⟩

/-- What the loop keeps: the directories whose times are set at the end are inside. -/
def Vars.dirsInside (dest : Str) (v : Vars) : Prop :=
  ∀ hdr ∈ v.dirs, inside dest (join dest hdr.name) = true

theorem DestElems.stays_clearPath (hd : DestElems dest ds) (hx : Names xs) {typeflag : Typeflag}
    (h : ds <+: xs ∧ (xs ≠ ds ∨ typeflag = .dir) ∨ xs <+: ds ∧ typeflag = .dir) :
    Stays dest (clearPath (print true xs) typeflag) fun _ => True := by
  rw [clearPath, stays_bind, stays_call]
  refine ⟨rfl, fun r hr => ?_⟩
  split
  · next fi =>
    split
    · exact trivial
    · next hkeep =>
      refine stays_change.2 ⟨?_, trivial⟩
      -- a directory above or at the destination is there, and is not removed for a directory
      have hdir : xs <+: ds → typeflag ≠ .dir := fun hxd ht => by
        obtain ⟨fi', he, hfi⟩ := hr ((hd.above_iff hx).2 hxd)
        cases he
        simp [hfi, ht] at hkeep
      have hin : ds <+: xs := h.elim And.left fun h => absurd h.2 (hdir h.1)
      have hne : xs ≠ ds := fun he => by
        subst he
        rcases h with ⟨-, h | h⟩ | ⟨-, h⟩
        · exact h rfl
        · exact hdir (prefix_refl _) h
        · exact hdir (prefix_refl _) h
      simp [Call.contained, contained, hd.inside_iff hx, hin, hd.eq_iff hx, hne]
  · exact trivial

theorem Header.isAufsLink_of_dir (h : hdr.typeflag = .dir) : hdr.isAufsLink = false := by
  simp [isAufsLink, h]

theorem stays_srcData : Stays dest (srcData hdr data v) fun _ => True := by
  unfold srcData
  split
  · exact ⟨rfl, fun r _ => stays_raise.2 fun _ _ => trivial⟩
  · exact trivial

theorem DestElems.stays_extract (hd : DestElems dest ds) (hx : Names xs)
    (hpath : join dest hdr.name = print true xs) (h : ds <+: xs ∧ (xs ≠ ds ∨ hdr.typeflag = .dir) ∨
      xs <+: ds ∧ hdr.typeflag = .dir ∧ (mapOwner options root hdr).isOk = false)
        (hv : v.dirsInside dest) :
    Stays dest (extract dest options root (print true xs) hdr data v) fun v' => v'.dirsInside dest ∧
      ∃ srcHdr, (srcHeader v.aufsHardlinks hdr).bind (mapOwner options root) = .ok srcHdr ∧
        rejected (print true xs) dest srcHdr = none ∧
          v'.aufsHardlinks = hdr.relink srcHdr v.aufsHardlinks := by
  rw [extract, stays_bind]
  have hclear : ds <+: xs ∧ (xs ≠ ds ∨ hdr.typeflag = .dir) ∨ xs <+: ds ∧ hdr.typeflag = .dir :=
    h.imp_right fun h => ⟨h.1, h.2.1⟩
  refine (hd.stays_clearPath hx hclear).mono fun _ _ => ?_
  rw [stays_bind, stays_raiseError]
  intro srcHdr hsrc
  rw [stays_bind]
  refine stays_srcData.mono fun reader _ => ?_
  rw [stays_bind, stays_raiseError]
  intro srcHdr' hmap
  have hin : ds <+: xs := by
    rcases h with h | ⟨-, ht, hno⟩
    · exact h.1
    · rw [srcHeader, hdr.isAufsLink_of_dir ht] at hsrc
      cases hsrc
      simp [hmap, Except.isOk, Except.toBool] at hno
  rw [stays_bind]
  have hkept : Kept dest false (print true xs) := .inr ((hd.inside_iff hx).2 hin)
  refine (hkept.stays_createTarFile dest srcHdr' reader).mono fun _ hrej => ?_
  refine ⟨?_, srcHdr', by rw [hsrc]; exact hmap, hrej, rfl⟩
  intro hdr' hmem
  split at hmem
  · rcases mem_append.1 hmem with hmem | hmem
    · exact hv hdr' hmem
    · rw [mem_singleton.1 hmem, hpath]
      exact (hd.inside_iff hx).2 hin
  · exact hv hdr' hmem

theorem stays_saveLink : Stays dest (saveLink dest hdr data v) fun v' =>
      v'.dirs = v.dirs ∧ v'.aufsHardlinks = Function.update v.aufsHardlinks (base hdr.name)
        (some hdr) := by
  have htemp : Stays dest (linkTempdir v) fun _ => True := by
    unfold linkTempdir
    split
    · exact ⟨rfl, fun r _ => stays_raise.2 fun _ _ => trivial⟩
    · exact trivial
  rw [saveLink, stays_bind]
  refine htemp.mono fun tempdir _ => ?_
  rw [stays_bind]
  have hkept : Kept dest true (join tempdir (base hdr.name)) := .inl rfl
  exact (hkept.stays_createTarFile dest hdr data).mono fun _ _ => ⟨rfl, rfl⟩

section
variable (hd : DestElems dest ds)
include hd

theorem DestElems.stays_unpackPath (hx : Names xs) (fuel : Nat)
    (hpath : join dest hdr.name = print true xs)
    (hskip : ¬ isSkipped hdr.name = true)
    (h : breaksOut dest (print true xs) = true ∨
      pathStays dest options root (print true xs) hdr = true)
    (hv : v.dirsInside dest) :
    Stays dest (unpackPath fuel dest options root (print true xs) hdr data v) fun v' =>
      v'.dirsInside dest ∧
      entryLinks dest options root hdr v.aufsHardlinks = some v'.aufsHardlinks := by
  have hout := hd.breaksOut_iff hx
  rw [entryLinks, if_neg hskip, hpath]
  unfold unpackPath
  rw [breaksOut] at h hout ⊢
  split
  · exact trivial
  split
  · exact trivial
  next r hr hno =>
  simp only [hr, hno, Bool.false_eq_true, false_iff, not_and, not_not, false_or] at h hout ⊢
  rw [pathStays] at h
  split at h
  · next hw =>
    rw [if_pos hw, if_pos hw, stays_bind]
    exact (hd.stays_whiteout hx fuel v h).mono fun _ _ => ⟨hv, rfl⟩
  · next hw =>
    rw [if_neg hw, if_neg hw]
    -- what the check lets through is inside or the parent of the destination
    have hin : ds <+: xs ∨ xs <+: ds :=
      (em (ds <+: xs)).imp_right fun hn => hout hn ▸ List.dropLast_prefix ds
    refine (hd.stays_extract hx hpath ?_ hv).mono fun v' hv' => ?_
    · simp only [Bool.or_eq_true, Bool.and_eq_true, hd.inside_iff hx, bne_iff_ne,
        ne_eq, hd.eq_iff hx,
        decide_eq_true_eq, Bool.not_eq_true'] at h
      rcases h with h | ⟨ht, hid⟩
      · exact .inl h
      · exact hin.imp (fun hin => ⟨hin, .inr ht⟩) fun hin => ⟨hin, ht, hid⟩
    · obtain ⟨hdirs, srcHdr, hsrc, hrej, hlinks⟩ := hv'
      exact ⟨hdirs, by simp [hsrc, hrej, hlinks]⟩

theorem DestElems.stays_unpackEntry (fuel : Nat) {entry : Header × Content}
    (h : entryStays dest options root entry.1.cleaned = true) (hv : v.dirsInside dest) :
    Stays dest (unpackEntry fuel dest options root entry v) fun v' => v'.dirsInside dest ∧
      entryLinks dest options root entry.1.cleaned v.aufsHardlinks = some v'.aufsHardlinks := by
  rw [entryStays, Bool.and_eq_true] at h
  rw [unpackEntry, unpackHeader, stays_bind]
  generalize entry.1.cleaned = hdr at h ⊢
  refine (hd.stays_ensureParent h.1).mono fun _ _ => ?_
  by_cases hskip : isSkipped hdr.name = true
  · rw [if_pos hskip, entryLinks, if_pos hskip]
    split
    · exact stays_saveLink.mono fun v' hv' =>
        ⟨fun d hmem => hv d (hv'.1 ▸ hmem), congrArg some hv'.2.symm⟩
    · exact ⟨hv, rfl⟩
  · obtain ⟨xs, hpath, hx⟩ := hd.exists_join hdr.name
    have h₂ := h.2
    simp only [hskip, hpath, Bool.false_or, Bool.or_eq_true] at h₂
    rw [if_neg hskip, hpath]
    exact hd.stays_unpackPath hx fuel hpath hskip h₂ hv

theorem DestElems.stays_unpackEntries (fuel : Nat)
    (h : entriesStay dest options root entries v.aufsHardlinks = true) (hv : v.dirsInside dest) :
    Stays dest (unpackEntries fuel dest options root entries v) fun v' => v'.dirsInside dest := by
  induction entries generalizing v with
  | nil => exact hv
  | cons entry entries ih =>
    rw [entriesStay, Bool.and_eq_true] at h
    rw [unpackEntries, stays_bind]
    refine (hd.stays_unpackEntry fuel h.1 hv).mono fun v' hv' => ?_
    have h₂ := h.2
    rw [hv'.2] at h₂
    exact ih h₂ hv'.1

theorem DestElems.stays_unpackLayer (fuel : Nat) {layer : Layer}
    (h : layerStays dest layer options = true) :
    Stays dest (unpackLayer fuel dest layer options) fun _ => True := by
  rw [unpackLayer, stays_bind, stays_raiseError]
  intro root hroot
  rw [layerStays, hroot] at h
  rw [stays_bind]
  refine (hd.stays_unpackEntries fuel h (by simp [Vars.dirsInside])).mono fun v hv => ?_
  rw [stays_bind, stays_raiseError]
  intro _ _
  rw [stays_bind]
  refine Stays.mono (Prog.safe_forM fun hdr hmem => ?_) fun _ _ => trivial
  exact stays_change.2 ⟨hv hdr hmem, trivial⟩

end

/-! ## What the file system can make of an entry

From a program that stays inside, each result that some answers lead to. -/

section Results
theorem answers_dir {q : Str} : Answers dest (.lstat q) (.ok { isDir := true }) :=
  fun _ => ⟨_, rfl, rfl⟩

theorem makeFile_result {ex : Str} (h : Stays dest (makeFile temp path ex hdr data) Q) : Q () := by
  unfold makeFile at h
  split at h
  case h_1 =>
    exact h.2 (.ok { isDir := true }) answers_dir
  all_goals first
    | exact (stays_change.1 h).2
    | exact h

theorem setXattrs_result {xattrs : List (String × Content)}
    (h : Stays dest (xattrs.forM (setXattr temp path)) Q) :
    Q () := by
  induction xattrs with
  | nil => exact h
  | cons xattr xattrs ih =>
    change Stays dest (setXattr temp path xattr >>= fun _ =>
      xattrs.forM (setXattr temp path)) Q at h
    exact ih (h.2 (.ok ()) trivial)

theorem ifLinksToFile_result
    (h : Stays dest (linksToFile hdr >>= fun b => if b then change temp c else pure ()) Q) :
    Q () := by
  exact (stays_change.1 (h.2 (.ok { isDir := true }) answers_dir)).2

theorem handleLChmod_result (h : Stays dest (handleLChmod temp hdr path) Q) : Q () := by
  unfold handleLChmod at h
  split at h
  · exact ifLinksToFile_result h
  · split at h
    · exact (stays_change.1 h).2
    · exact h

theorem setTimes_result (h : Stays dest (setTimes temp hdr path) Q) : Q () := by
  unfold setTimes at h
  split at h
  · exact ifLinksToFile_result h
  · split at h
    · exact (stays_change.1 h).2
    · exact h.2 (.ok ()) trivial

theorem createTarFile_result {ex : Str} (hrej : rejected path ex hdr = none)
    (h : Stays dest (createTarFile temp path ex hdr data true none) Q) : Q () := by
  unfold createTarFile at h
  rw [hrej] at h
  rw [stays_bind] at h
  have h := makeFile_result h
  split at h
  · exact h
  rw [setMetadata, stays_bind, setOwner, if_pos rfl] at h
  have h := (stays_change.1 h).2
  rw [stays_bind] at h
  have h := setXattrs_result h
  rw [stays_bind] at h
  exact setTimes_result (handleLChmod_result h)

theorem ensureParent_result (h : Stays dest (ensureParent dest name) Q) : Q () := by
  unfold ensureParent at h
  split at h
  · exact h
  · exact h.2 (.ok { isDir := true }) answers_dir

theorem clearPath_result {typeflag : Typeflag} (h : Stays dest (clearPath path typeflag) Q) :
    Q () := by
  rw [clearPath, stays_bind, stays_call] at h
  have h := h.2 (.ok { isDir := true }) answers_dir
  dsimp only at h
  split at h
  · exact h
  · exact (stays_change.1 h).2

theorem saveLink_result (ht : hdr.typeflag = .reg) (h : Stays dest (saveLink dest hdr data v) P) :
    ∃ v', P v' ∧ v'.unpackedPaths = v.unpackedPaths ∧
      v'.aufsHardlinks = Function.update v.aufsHardlinks (base hdr.name) (some hdr) := by
  have htemp : ∀ {R : Str → Prop}, Stays dest (linkTempdir v) R → ∃ tempdir, R tempdir := by
    intro R h
    unfold linkTempdir at h
    split at h
    · exact ⟨[], h.2 (.ok []) trivial⟩
    · exact ⟨_, h⟩
  rw [saveLink, stays_bind] at h
  obtain ⟨tempdir, h⟩ := htemp h
  rw [stays_bind] at h
  have hrej : rejected (join tempdir (base hdr.name)) dest hdr = none := by simp [rejected, ht]
  exact ⟨_, createTarFile_result hrej h, rfl, rfl⟩

theorem extract_result {srcHdr : Header}
    (hsrc : (srcHeader v.aufsHardlinks hdr).bind (mapOwner options root) = .ok srcHdr)
    (hrej : rejected path dest srcHdr = none)
    (h : Stays dest (extract dest options root path hdr data v) P) :
    ∃ v', P v' ∧ v'.unpackedPaths = path :: v.unpackedPaths ∧
      v'.aufsHardlinks = hdr.relink srcHdr v.aufsHardlinks := by
  have hdata : ∀ {R : Content → Prop}, Stays dest (srcData hdr data v) R → ∃ reader, R reader := by
    intro R h
    unfold srcData at h
    split at h
    · exact ⟨[], h.2 (.ok []) trivial⟩
    · exact ⟨_, h⟩
  cases hs : srcHeader v.aufsHardlinks hdr with
  | error e =>
    rw [hs] at hsrc
    cases hsrc
  | ok src =>
    rw [hs] at hsrc
    rw [extract, stays_bind] at h
    have h := clearPath_result h
    rw [stays_bind, stays_raiseError] at h
    have h := h src hs
    rw [stays_bind] at h
    obtain ⟨reader, h⟩ := hdata h
    rw [stays_bind, stays_raiseError] at h
    have h := h srcHdr hsrc
    rw [stays_bind] at h
    exact ⟨_, createTarFile_result hrej h, rfl, rfl⟩

theorem whiteout_result {fuel : Nat} (h : Stays dest (whiteout (fuel + 1) path v) Q) : Q () := by
  unfold whiteout at h
  split at h
  · rw [stays_bind, stays_call] at h
    have h := h.2 (.ok { isDir := true }) answers_dir
    rw [stays_bind, stays_raise] at h
    have h := h _ rfl
    rw [walkRoot, stays_bind, stays_call] at h
    have h := h.2 (.ok { isDir := true }) answers_dir
    dsimp only at h
    rw [walk, stays_bind, removeStale, if_pos rfl, stays_pure, if_pos rfl, stays_bind,
      stays_call] at h
    -- the directory is gone when it comes to be read
    have h := h.2 (.error .notExist) (fun _ he => nomatch he)
    exact h
  · exact (stays_change.1 h).2

end Results

/-! ### Where an entry leaves the destination -/

theorem DestElems.ensureParent_stays (hd : DestElems dest ds)
    (h : Stays dest (ensureParent dest name) Q) :
    (['/'].isSuffixOf name || inside dest (join dest (dir name)) ||
      above dest (join dest (dir name))) = true := by
  obtain ⟨xs, hxs, hn⟩ := hd.exists_join (dir name)
  unfold ensureParent at h
  split at h
  · next hs => simp [hs]
  · rw [stays_bind, stays_call, hxs] at h
    rw [hxs]
    by_cases ha : above dest (print true xs) = true
    · simp [ha]
    · have h := h.2 (.error .notExist) (fun h => absurd h ha)
      have hc := (hd.mkdirAll_contained_iff hn 0o600).1 (stays_change.1 h).1
      rw [hd.above_iff hn] at ha
      simp [hd.inside_iff hn, hc.resolve_right ha]

theorem DestElems.exists_outside {zs : List Str} (hd : DestElems dest ds) (h : ¬ ds <+: zs) :
    ∃ name, IsName name ∧ ¬ ds <+: zs ++ [name] := by
  have hlast := hd.names _ (getLast_mem hd.ne_nil)
  refine ⟨ds.getLast hd.ne_nil ++ ['x'], ⟨by simp, ?_, ?_, ?_⟩, fun hp => ?_⟩
  · exact fun he => hlast.ne_nil (append_eq_singleton_iff.1 he |>.resolve_right (by simp) |>.1)
  · intro he
    have := congrArg getLast? he
    simp [dotdot] at this
  · simpa using hlast.slash
  · rcases prefix_concat_iff.1 hp with he | hp
    · have := congrArg getLast? he
      rw [getLast?_eq_getLast_of_ne_nil hd.ne_nil, getLast?_append] at this
      simp at this
    · exact h hp

theorem DestElems.whiteout_stays (hd : DestElems dest ds) (hx : Names xs)
    (hv : ∀ p ∈ v.unpackedPaths, inside dest p = true)
    (h : Stays dest (whiteout 2 (print true xs) v) Q) :
    (if base (print true xs) = whiteoutOpaqueDir then inside dest (dir (print true xs)) else
      inside dest (whiteoutTarget (print true xs)) && whiteoutTarget
        (print true xs) != dest) = true := by
  have hn : ∀ x ∈ xs.dropLast, IsName x := fun x hxl => hx x (dropLast_subset xs hxl)
  unfold whiteout at h
  split at h
  · next hop =>
    rw [if_pos hop, dir_print hx, hd.inside_iff hn]
    by_contra hout
    obtain ⟨name, hname, hout⟩ := hd.exists_outside hout
    have hn' := forall_mem_concat hn hname
    have hins := (hd.inside_iff hn').not.2 hout
    -- the walk comes to the entry of that name
    rw [dir_print hx, stays_bind, stays_call] at h
    have h := h.2 (.ok { isDir := true }) answers_dir
    rw [stays_bind, stays_raise] at h
    have h := h _ rfl
    rw [walkRoot, stays_bind, stays_call] at h
    have h := h.2 (.ok { isDir := true }) answers_dir
    dsimp only at h
    rw [walk, stays_bind, removeStale, if_pos rfl, stays_pure, if_pos rfl, stays_bind,
      stays_call] at h
    have h := h.2 (.ok [name]) (fun names he => by cases he; simpa using hname)
    change Stays dest (_ >>= fun _ => pure ()) Q at h
    rw [stays_bind] at h
    dsimp only at h
    rw [join_name hn hname, stays_bind, stays_call] at h
    have h := h.2 (.ok { isDir := true }) answers_dir
    dsimp only at h
    have hne : print true (xs.dropLast ++ [name]) ≠ print true xs.dropLast := fun he => by
      simpa using print_inj hn' hn he
    rw [walk, stays_bind, removeStale, if_neg hne, if_neg fun hmem => hins (hv _ hmem),
      stays_change] at h
    simp [Call.contained, contained, hins] at h
  · next hop =>
    rw [if_neg hop]
    exact (stays_change.1 h).1

theorem mapOwner_typeflag {hdr' : Header} (h : mapOwner options root hdr = .ok hdr') :
    hdr'.typeflag = hdr.typeflag := by
  rw [mapOwner] at h
  cases hu : mapID hdr.uid root.1 options.uidMaps with
  | error e => rw [hu] at h; cases h
  | ok uid =>
    cases hg : mapID hdr.gid root.2 options.gidMaps with
    | error e => rw [hu, hg] at h; cases h
    | ok gid => rw [hu, hg] at h; cases h; rfl

section
variable (hd : DestElems dest ds) (hx : Names xs)
include hd hx

theorem DestElems.extract_stays (hin : ds <+: xs ∨ xs = ds.dropLast)
    (h : Stays dest (extract dest options root (print true xs) hdr data v) P) :
    ds <+: xs ∧ (xs ≠ ds ∨ hdr.typeflag = .dir) ∨ hdr.typeflag = .dir ∧
      (mapOwner options root hdr).isOk = false := by
  rw [extract, stays_bind] at h
  have habove : xs <+: ds → hdr.typeflag = .dir := by
    intro hxd
    by_contra ht
    have h := h.2 (.ok { isDir := true }) answers_dir
    simp only [ht, decide_false, Bool.and_false, Bool.false_eq_true, if_false] at h
    have hc := h.1
    simp only [Call.contained, contained, Bool.and_eq_true, hd.inside_iff hx, bne_iff_ne, ne_eq,
      hd.eq_iff hx] at hc
    exact hc.2 (hxd.eq_of_length_le hc.1.length_le)
  by_cases hds : ds <+: xs
  · by_cases he : xs = ds
    · exact .inl ⟨hds, .inr (habove (he ▸ prefix_refl xs))⟩
    · exact .inl ⟨hds, .inl he⟩
  · have ht := habove (hin.resolve_left hds ▸ dropLast_prefix ds)
    refine .inr ⟨ht, ?_⟩
    cases hmap : mapOwner options root hdr with
    | error e => rfl
    | ok srcHdr =>
      exfalso
      have htype : srcHdr.typeflag = .dir := (mapOwner_typeflag hmap).trans ht
      have hlink := hdr.isAufsLink_of_dir ht
      have h := clearPath_result h
      rw [stays_bind, stays_raiseError] at h
      have h := h hdr (by simp [srcHeader, hlink])
      rw [stays_bind, srcData, if_neg (by simp [hlink]), stays_pure, stays_bind,
        stays_raiseError] at h
      have h := h srcHdr hmap
      rw [stays_bind, createTarFile, rejected, htype] at h
      rw [stays_bind] at h
      have h := makeFile_result h
      exact hds ((hd.inside_iff hx).1 h.1)

theorem DestElems.unpackPath_stays (hv : ∀ p ∈ v.unpackedPaths, inside dest p = true)
    (h : Stays dest (unpackPath 2 dest options root (print true xs) hdr data v) P) :
    breaksOut dest (print true xs) = true ∨
      pathStays dest options root (print true xs) hdr = true := by
  have hout := hd.breaksOut_iff hx
  unfold unpackPath at h
  rw [breaksOut] at hout ⊢
  cases hr : rel dest (print true xs) with
  | none => exact .inl rfl
  | some r =>
    rw [hr] at h hout
    by_cases hp : hasPrefix r (dotdot ++ ['/']) = true
    · exact .inl hp
    simp only [hp, Bool.false_eq_true, if_false, false_iff, not_and, not_not, false_or] at h hout ⊢
    unfold pathStays
    split at h
    · next hw =>
      rw [if_pos hw]
      rw [stays_bind] at h
      exact hd.whiteout_stays hx hv h
    · next hw =>
      rw [if_neg hw]
      have h := hd.extract_stays hx ((em (ds <+: xs)).imp_right hout) h
      simpa only [Bool.or_eq_true, Bool.and_eq_true, hd.inside_iff hx, bne_iff_ne, ne_eq,
        hd.eq_iff hx, decide_eq_true_eq, Bool.not_eq_true'] using h

theorem DestElems.unpackPath_result {links : Str → Option Header}
    (hpath : join dest hdr.name = print true xs)
    (hskip : ¬ isSkipped hdr.name = true) (hv : ∀ p ∈ v.unpackedPaths, inside dest p = true)
    (hlinks : entryLinks dest options root hdr v.aufsHardlinks = some links)
    (h : Stays dest (unpackPath 2 dest options root (print true xs) hdr data v) P) :
    ∃ v', P v' ∧ (∀ p ∈ v'.unpackedPaths, inside dest p = true) ∧ v'.aufsHardlinks = links := by
  have hstays := hd.unpackPath_stays hx hv h
  rw [entryLinks, if_neg hskip, hpath] at hlinks
  have hout : ¬ breaksOut dest (print true xs) = true := fun hb => by simp [hb] at hlinks
  have hstays := hstays.resolve_left hout
  rw [if_neg hout] at hlinks
  unfold unpackPath at h
  rw [breaksOut] at hout
  split at h
  · next hr => simp [hr] at hout
  next r hr =>
  split at h
  · next hp => simp [hr, hp] at hout
  split at h
  · next hw =>
    rw [if_pos hw] at hlinks
    rw [stays_bind] at h
    exact ⟨v, whiteout_result h, hv, Option.some.inj hlinks⟩
  · next hw =>
    rw [if_neg hw] at hlinks
    split at hlinks
    · cases hlinks
    next srcHdr hsrc =>
    split at hlinks
    · cases hlinks
    next hrej =>
    obtain ⟨v', hP, hpaths, hv'⟩ := extract_result hsrc (by simpa using hrej) h
    refine ⟨v', hP, ?_, hv'.trans (Option.some.inj hlinks)⟩
    rw [hpaths, forall_mem_cons]
    refine ⟨?_, hv⟩
    -- an entry outside is passed over only if its owner cannot be mapped
    rw [pathStays, if_neg hw, Bool.or_eq_true, Bool.and_eq_true, Bool.and_eq_true] at hstays
    rcases hstays with hin | ⟨ht, hid⟩
    · exact hin.1
    · rw [srcHeader, if_neg (by simp [hdr.isAufsLink_of_dir (of_decide_eq_true ht)])] at hsrc
      have hmap : mapOwner options root hdr = .ok srcHdr := hsrc
      simp [hmap, Except.isOk, Except.toBool] at hid

end

theorem DestElems.unpackHeader_stays (hd : DestElems dest ds)
    (h : Stays dest (unpackHeader 2 dest options root hdr data v) P)
    (hv : ∀ p ∈ v.unpackedPaths, inside dest p = true) :
    entryStays dest options root hdr = true ∧ ∀ links,
      entryLinks dest options root hdr v.aufsHardlinks = some links →
        ∃ v', P v' ∧ (∀ p ∈ v'.unpackedPaths, inside dest p = true) ∧ v'.aufsHardlinks = links := by
  rw [unpackHeader, stays_bind] at h
  have hparent := hd.ensureParent_stays h
  have h := ensureParent_result h
  rw [entryStays, hparent, Bool.true_and]
  by_cases hskip : isSkipped hdr.name = true
  · rw [if_pos hskip] at h
    refine ⟨by simp [hskip], fun links hlinks => ?_⟩
    rw [entryLinks, if_pos hskip] at hlinks
    split at h
    · next ht =>
      have hreg : hdr.typeflag = .reg := by
        rw [isLinkTarget, Bool.and_eq_true, decide_eq_true_eq] at ht
        exact ht.2
      obtain ⟨v', hP, hpaths, hv'⟩ := saveLink_result hreg h
      exact ⟨v', hP, hpaths ▸ hv, hv'.trans (Option.some.inj (by simpa [ht] using hlinks))⟩
    · next ht => exact ⟨_, h, hv, Option.some.inj (by simpa [ht] using hlinks)⟩
  · obtain ⟨xs, hpath, hx⟩ := hd.exists_join hdr.name
    rw [if_neg hskip, hpath] at h
    refine ⟨?_, fun links hlinks => hd.unpackPath_result hx hpath hskip hv hlinks h⟩
    simpa [hskip, hpath] using hd.unpackPath_stays hx hv h

theorem DestElems.unpackEntries_stays (hd : DestElems dest ds)
    (hv : ∀ p ∈ v.unpackedPaths, inside dest p = true)
    (h : Stays dest (unpackEntries 2 dest options root entries v) P) :
    entriesStay dest options root entries v.aufsHardlinks = true := by
  induction entries generalizing v with
  | nil => rfl
  | cons entry entries ih =>
    rw [unpackEntries, stays_bind, unpackEntry] at h
    obtain ⟨hentry, hnext⟩ := hd.unpackHeader_stays h hv
    rw [entriesStay, hentry, Bool.true_and]
    cases hlinks : entryLinks dest options root entry.1.cleaned v.aufsHardlinks with
    | none => rfl
    | some links =>
      obtain ⟨v', h', hv', rfl⟩ := hnext links hlinks
      exact ih hv' h'

end

/-- `UnpackLayer` stays inside its destination and leaves it in place, whatever the file system
answers, exactly when the entries that its loop can come to all stay inside. -/
theorem unpackLayer_contained_iff {dest : Str} (hdest : IsDest dest) (layer : Layer)
    (options : Options) :
    (∀ fuel calls, (unpackLayer fuel dest layer options).run.Makes (Answers dest) calls →
      ∀ c ∈ calls, c.contained dest = true) ↔ layerStays dest layer options = true := by
  obtain ⟨ds, hd⟩ := hdest.elems
  have hmakes : ∀ fuel, (∀ calls, (unpackLayer fuel dest layer options).run.Makes
      (Answers dest) calls →
      ∀ c ∈ calls, c.contained dest = true) ↔ Stays dest (unpackLayer fuel dest layer options)
        fun _ => True := by
    intro fuel
    rw [← Prog.always_iff_makes, Stays, Prog.Safe]
    exact ⟨fun h => h.mono fun r _ => by cases r <;> trivial, fun h => h.mono fun _ _ => trivial⟩
  simp only [hmakes]
  refine ⟨fun h => ?_, fun h fuel => hd.stays_unpackLayer fuel h⟩
  -- two levels of a walk are enough to come to a file outside
  have h := h 2
  rw [unpackLayer, stays_bind, stays_raiseError] at h
  rw [layerStays]
  split
  · rfl
  · next root hroot =>
    have h := h root hroot
    rw [stays_bind] at h
    exact hd.unpackEntries_stays (by simp) h

/-- A directory with a file and a whiteout in it. -/
def usrLayer : Layer where
  entries := [({ name := ['u', '/'], typeflag := .dir }, []), ({ name := ['u', '/', 'x'] }, [7]),
    ({ name := ['u', '/', '.', 'w', 'h', '.', 'y'] }, [])]

theorem unpackLayer_contained_usr :
    IsDest ['/', 'd'] ∧ ∀ fuel calls, (unpackLayer fuel ['/', 'd'] usrLayer {}).run.Makes
      (Answers ['/', 'd']) calls →
      ∀ c ∈ calls, c.contained ['/', 'd'] = true := by
  have hdest : IsDest ['/', 'd'] := ⟨by decide, by decide, by decide⟩
  exact ⟨hdest, (unpackLayer_contained_iff hdest usrLayer {}).2 (by decide)⟩

def dotsLayer : Layer where
  entries := [({ name := ['.', 'w', 'h', '.', '.', '.'] }, [])]

/-- Unpacked below `/d/e` it removes `/d`: the path of the entry is inside, what it removes is
not. -/
theorem whiteout_removes_parent :
    IsDest ['/', 'd', '/', 'e'] ∧ (Change.removeAll ['/', 'd']).contained
      ['/', 'd', '/', 'e'] = false ∧
      ∃ calls, (unpackLayer 0 ['/', 'd', '/', 'e'] dotsLayer {}).run.Makes
        (Answers ['/', 'd', '/', 'e']) calls ∧
        .change false (.removeAll ['/', 'd']) ∈ calls := by
  refine ⟨⟨by decide, by decide, by decide⟩, by decide,
    [.lstat ['/', 'd', '/', 'e'], .change false (.removeAll ['/', 'd'])], ?_, by simp⟩
  exact .next answers_dir (.last _ _)

end Docker.Archive
