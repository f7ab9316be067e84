import Docker.Archive.Apply

/-!
# Diff, then apply

The export of the changes between two trees, unpacked over a copy of the old tree, makes the new
tree: its structure, contents, link targets, modes and owners.

While the entries are unpacked in the order of their paths, a path is as in the old tree as long as
a change of it or of a directory above it is due, and as in the new tree afterwards (`Partway`).
-/

namespace Docker.Archive

open Filepath Forest Node Fs List Option

/-- The symlinks of the tree, when it is at `ds`, lead lexically to places at or below `ds`. -/
def Forest.TargetsInside (ds : List Str) (f : Forest) : Prop :=
  ∀ ys n target, f.get ys = some n → n.kind = .symlink target →
    ds <+: resolve true (ds ++ ys.dropLast) (target.splitOn '/')

/-- The changes from some path on, in order. -/
structure Due (new old : Forest) (due : List PathChange) : Prop where
  sorted : due.Pairwise fun a b => a.path < b.path
  sound : ∀ c ∈ due, ∃ zs k, c = ⟨print true zs, k⟩ ∧ Changed new old zs k
  complete : ∀ zs k, Changed new old zs k → ⟨print true zs, k⟩ ∈ due ∨ ∀ c ∈ due,
    print true zs < c.path

/-- A change of the path or of a directory above it is due. -/
def IsDue (new old : Forest) (due : List PathChange) (ys : List Str) : Prop :=
  ∃ zs k, ⟨print true zs, k⟩ ∈ due ∧ Changed new old zs k ∧ zs <+: ys

/-- The directory at `ds` on the way from the old tree to the new tree. -/
structure Partway (ds : List Str) (new old : Forest) (due : List PathChange) (fs : Fs) : Prop where
  root : fs.isDirAt ds = true
  todo : ∀ ys, ys ≠ [] → IsDue new old due ys → (fs.get (ds ++ ys)).map Node.core =
    (old.get ys).map Node.core
  done : ∀ ys, ys ≠ [] → ¬ IsDue new old due ys → (fs.get (ds ++ ys)).map Node.core =
    (new.get ys).map Node.core

section
variable {new old : Forest} {ds qs ys zs : List Str} {fs fs' : Fs}

theorem Due.init (hnew : new.WF) (hold : old.WF) : Due new old (sortByPath (changes new old)) where
  sorted := sortByPath_sorted (nodup_changes hnew hold)
  sound _ hc := (mem_changes hnew hold).1 (mem_sortByPath.1 hc)
  complete zs k h := .inl (mem_sortByPath.2 ((mem_changes hnew hold).2 ⟨zs, k, rfl, h⟩))

theorem Due.tail (h : Due new old (c :: due)) : Due new old due where
  sorted := (pairwise_cons.1 h.sorted).2
  sound c' hc' := h.sound c' (mem_cons_of_mem _ hc')
  complete zs k hk := by
    rcases h.complete zs k hk with hmem | hlt
    · rcases mem_cons.1 hmem with rfl | hmem
      · exact .inr (pairwise_cons.1 h.sorted).1
      · exact .inl hmem
    · exact .inr fun c' hc' => hlt c' (mem_cons_of_mem _ hc')

/-- Behind a change no change of its path or of a directory above it is due. -/
theorem Due.not_isDue (h : Due new old (⟨print true qs, k⟩ :: due)) (hq : Names qs)
    (hz : zs <+: qs) :
    ¬ IsDue new old due zs := by
  rintro ⟨ws, k', hmem, -, hw⟩
  have hlt := (pairwise_cons.1 h.sorted).1 _ hmem
  by_cases he : ws = qs
  · subst he
    exact lt_irrefl _ hlt
  · exact lt_asymm hlt (print_lt hq (hw.trans hz) he)

theorem Due.mem_of_below (h : Due new old (⟨print true qs, k⟩ :: due)) (hnew : new.WF)
    (hold : old.WF)
    (hz : Changed new old zs k') (hp : qs <+: zs) (hne : zs ≠ qs) : ⟨print true zs, k'⟩ ∈ due := by
  have hnames : Names zs := fun z hmem => (hz.names hnew hold z hmem).1
  have hlt := print_lt hnames hp (Ne.symm hne)
  rcases h.complete zs k' hz with hmem | hless
  · rcases mem_cons.1 hmem with he | hmem
    · exact absurd hlt (by rw [(PathChange.mk.inj he).1]; exact lt_irrefl _)
    · exact hmem
  · exact absurd (hless _ mem_cons_self) (lt_asymm hlt)

theorem isDue_cons (hq : Names qs) (hnew : new.WF) (hold : old.WF) (hk : Changed new old qs k) :
    IsDue new old (⟨print true qs, k⟩ :: due) ys ↔ qs <+: ys ∨ IsDue new old due ys := by
  constructor
  · rintro ⟨zs, k', hmem, hz, hp⟩
    rcases mem_cons.1 hmem with he | hmem
    · have hnames : Names zs := fun z hmem => (hz.names hnew hold z hmem).1
      exact .inl (print_inj hnames hq (PathChange.mk.inj he).1 ▸ hp)
    · exact .inr ⟨zs, k', hmem, hz, hp⟩
  · rintro (hp | ⟨zs, k', hmem, hz, hp⟩)
    · exact ⟨qs, k, mem_cons_self, hk, hp⟩
    · exact ⟨zs, k', mem_cons_of_mem _ hmem, hz, hp⟩

theorem isDirAt_of_core {f : Forest} (hne : ys ≠ [])
    (h : (fs.get xs).map core = (f.get ys).map core) : fs.isDirAt xs = true ↔ f.IsDirAt ys := by
  rw [isDirAt_iff, IsDirAt, or_iff_right hne]
  cases hm : fs.get xs with
  | none =>
    rw [hm, map_none, eq_comm, map_eq_none_iff] at h
    simp [h]
  | some m =>
    rw [hm, map_some, eq_comm, map_eq_some_iff] at h
    obtain ⟨n, hn, hcore⟩ := h
    have hkind : n.kind = m.kind := congrArg Prod.fst hcore
    simp [hn, hkind]

theorem Partway.isDirAt (h : Partway ds new old due fs) (hnot : ¬ IsDue new old due ys)
    (hdir : new.IsDirAt ys) :
    fs.isDirAt (ds ++ ys) = true := by
  by_cases hne : ys = []
  · simpa [hne] using h.root
  · exact (isDirAt_of_core hne (h.done ys hne hnot)).2 hdir

theorem Partway.parent (h : Partway ds new old (⟨print true qs, k⟩ :: due) fs)
    (hdue : Due new old (⟨print true qs, k⟩ :: due)) (hnew : new.WF) (hold : old.WF)
    (hk : Changed new old qs k) :
    fs.isDirAt (ds ++ qs.dropLast) = true := by
  have hq : Names qs := fun q hmem => (hk.names hnew hold q hmem).1
  refine h.isDirAt (fun hd => ?_) (hk.isDirAt_dropLast hnew hold)
  rcases (isDue_cons hq hnew hold hk).1 hd with hp | hd
  · exact not_prefix_dropLast hk.ne_nil hp
  · exact hdue.not_isDue hq ( dropLast_prefix qs) hd

/-- A change is done when the paths from its own on are as they should be, and the others have
stayed. -/
theorem Partway.step (h : Partway ds new old (⟨print true qs, k⟩ :: due) fs) (hnew : new.WF)
    (hold : old.WF)
    (hk : Changed new old qs k) (haside : ∀ ys, ¬ ds ++ qs <+: ys → fs'.get ys = fs.get ys)
    (htodo : ∀ ys, qs <+: ys → IsDue new old due ys → (fs'.get (ds ++ ys)).map core =
      (old.get ys).map core)
    (hdone : ∀ ys, qs <+: ys → ¬ IsDue new old due ys →
      (fs'.get (ds ++ ys)).map core = (new.get ys).map core) :
    Partway ds new old due fs' := by
  have hq : Names qs := fun q hmem => (hk.names hnew hold q hmem).1
  have hcons : ∀ ys, IsDue new old (⟨print true qs, k⟩ :: due) ys ↔ qs <+: ys ∨
      IsDue new old due ys :=
    fun ys =>
    isDue_cons hq hnew hold hk
  have hstay : ∀ ys, ¬ qs <+: ys → fs'.get (ds ++ ys) = fs.get (ds ++ ys) := fun ys hys =>
    haside _ fun hp => hys ((prefix_append_right_inj ds).1 hp)
  refine ⟨?_, fun ys hne hd => ?_, fun ys hne hd => ?_⟩
  · have hnp : ¬ ds ++ qs <+: ds := fun hp => by
      have hle := hp.length_le
      rw [length_append] at hle
      exact hk.ne_nil (length_eq_zero_iff.1 (by omega))
    rw [Fs.isDirAt, haside ds hnp]
    exact h.root
  · by_cases hp : qs <+: ys
    · exact htodo ys hp hd
    · rw [hstay ys hp]
      exact h.todo ys hne ((hcons ys).2 (.inr hd))
  · by_cases hp : qs <+: ys
    · exact hdone ys hp hd
    · rw [hstay ys hp]
      exact h.done ys hne fun hd' => ((hcons ys).1 hd').elim hp hd

/-- Below a path that is no directory in the new tree nothing is due. -/
theorem Due.not_isDue_of_not_dir (hdue : Due new old (⟨print true qs, k⟩ :: due)) (hnew : new.WF)
    (hold : old.WF) (hk : Changed new old qs k) (hdir : ¬ new.IsDirAt qs) (hp : qs <+: ys) :
    ¬ IsDue new old due ys := by
  have hq : Names qs := fun q hmem => (hk.names hnew hold q hmem).1
  rintro ⟨zs, k', hmem, hz, hzy⟩
  rcases prefix_or_prefix_of_prefix hzy hp with hzq | hqz
  · exact hdue.not_isDue hq hzq ⟨zs, k', hmem, hz, prefix_refl zs⟩
  · by_cases he : zs = qs
    · subst he
      exact hdue.not_isDue hq (prefix_refl zs) ⟨zs, k', hmem, hz, prefix_refl zs⟩
    · have hdl : qs <+: zs.dropLast := by
        obtain ⟨ws, rfl⟩ := hqz
        rw [dropLast_append_of_ne_nil fun hw => he (by simp [hw])]
        exact prefix_append qs _
      exact hdir (isDirAt_mono (hz.isDirAt_dropLast hnew hold) hnew hdl)

theorem Partway.remove (h : Partway ds new old (⟨print true qs, .delete⟩ :: due) fs)
    (hdue : Due new old (⟨print true qs, .delete⟩ :: due)) (hnew : new.WF) (hold : old.WF)
    (hk : Changed new old qs .delete) : Partway ds new old due (fs.remove (ds ++ qs)) := by
  have hgone : new.get qs = none := hk.get.1 rfl
  have hdir : ¬ new.IsDirAt qs := by
    rintro (he | ⟨n, hn, -⟩)
    · exact hk.ne_nil he
    · rw [hgone] at hn
      cases hn
  refine h.step hnew hold hk (fun ys hys => by rw [get_remove, if_neg hys]) (fun ys hp hd => ?_)
    fun ys hp _ => ?_
  · exact absurd hd (hdue.not_isDue_of_not_dir hnew hold hk hdir hp)
  · have hnew' : new.get ys = none := by
      by_cases he : qs = ys
      · exact he ▸ hgone
      · exact get_eq_none hdir hnew hp he
    rw [get_remove, if_pos ((prefix_append_right_inj ds).2 hp), hnew']

/-- What an unchanged directory has below the change of its metadata is the same in both trees. -/
theorem Due.core_below (hdue : Due new old (⟨print true qs, k⟩ :: due)) (hnew : new.WF)
    (hold : old.WF)
    (hsame : SameContent new old) (hdir : new.IsDirAt qs) (hp : qs <+: ys) (hne : ys ≠ qs)
    (hnot : ¬ IsDue new old due ys) : (old.get ys).map core = (new.get ys).map core := by
  refine core_of_unchanged hnew hold hsame fun zs k' hzy hz => ?_
  by_cases hzq : zs <+: qs
  · refine ⟨?_, isDirAt_mono hdir hnew hzq⟩
    rintro rfl
    exact hne (hzq.eq_of_length (le_antisymm hzq.length_le hp.length_le))
  · have hqz := ( prefix_or_prefix_of_prefix hzy hp).resolve_left hzq
    have hzne : zs ≠ qs := fun he => hzq (he ▸ prefix_refl zs)
    exact absurd ⟨zs, k', hdue.mem_of_below hnew hold hz hqz hzne, hz, hzy⟩ hnot

theorem Due.get_below (hdue : Due new old (⟨print true qs, k⟩ :: due)) (hnew : new.WF)
    (hold : old.WF)
    (hdir : ¬ old.IsDirAt qs) (hp : qs <+: ys) (hne : ys ≠ qs) (hnot : ¬ IsDue new old due ys) :
    new.get ys = none := by
  by_contra hsome
  obtain ⟨m, hm⟩ := ne_none_iff_exists'.1 hsome
  have hgone := get_eq_none hdir hold hp (Ne.symm hne)
  obtain ⟨k', hk'⟩ := changed_of_get hnew hm old (by simp [hgone])
  exact hnot ⟨ys, k', hdue.mem_of_below hnew hold hk' hp hne, hk', prefix_refl ys⟩

theorem Partway.unpack (h : Partway ds new old (⟨print true qs, k⟩ :: due) fs)
    (hdue : Due new old (⟨print true qs, k⟩ :: due)) (hnew : new.WF) (hold : old.WF)
    (hsame : SameContent new old)
    (hk : Changed new old qs k) (hn : new.get qs = some n) (hu : Unpacked fs fs' (ds ++ qs) n) :
    Partway ds new old due fs' := by
  have hq : Names qs := fun q hmem => (hk.names hnew hold q hmem).1
  -- before the change, the path and what is below it are as in the old tree
  have hbefore : ∀ ys, qs <+: ys → (fs.get (ds ++ ys)).map core = (old.get ys).map core :=
    fun ys hp =>
    h.todo ys (fun he => hk.ne_nil (prefix_nil.1 (he ▸ hp))) ⟨qs, k, mem_cons_self, hk, hp⟩
  have hdirAt := isDirAt_of_core hk.ne_nil (hbefore qs (prefix_refl qs))
  have hdirNew : new.IsDirAt qs ↔ n.kind = .dir := by
    simp [IsDirAt, hk.ne_nil, hn]
  have hbelow : ∀ {ys}, qs <+: ys → ds ++ qs <+: ds ++ ys := (prefix_append_right_inj ds).2
  by_cases hmerge : n.kind = .dir ∧ old.IsDirAt qs
  · have hkeep : ∀ ys, qs <+: ys → ys ≠ qs → (fs'.get (ds ++ ys)).map core =
        (old.get ys).map core :=
      fun ys hp hne => by
        rw [hu.merged hmerge.1 (hdirAt.2 hmerge.2) _ (hbelow hp) (by simpa using hne)]
        exact hbefore ys hp
    refine h.step hnew hold hk hu.aside (fun ys hp hd => ?_) fun ys hp hd => ?_
    · refine hkeep ys hp ?_
      rintro rfl
      exact hdue.not_isDue hq (prefix_refl ys) hd
    · by_cases he : ys = qs
      · rw [he, hu.here, hn, map_some]
      · rw [hkeep ys hp he]
        exact hdue.core_below hnew hold hsame (hdirNew.2 hmerge.1) hp he hd
  · have hempty : ∀ ys, qs <+: ys → ys ≠ qs → fs'.get (ds ++ ys) = none := fun ys hp hne => by
      refine hu.replaced (fun hd => ?_) (fun zs hz hzne hnone => ?_) _ (hbelow hp)
        (by simpa using hne)
      · rw [Bool.eq_false_iff, ne_eq, hdirAt]
        exact fun hdir => hmerge ⟨hd, hdir⟩
      · obtain ⟨ws, rfl⟩ := hz
        have hnd : ¬ old.IsDirAt qs := by
          rw [← hdirAt, Fs.isDirAt, hnone]
          exact Bool.false_ne_true
        have hws : qs ≠ qs ++ ws := fun he => hzne (by rw [append_assoc, ← he])
        have hview := hbefore (qs ++ ws) (prefix_append qs ws)
        rw [get_eq_none hnd hold (prefix_append qs ws) hws, map_none, map_eq_none_iff] at hview
        rw [append_assoc, hview]
    refine h.step hnew hold hk hu.aside (fun ys hp hd => ?_) fun ys hp hd => ?_
    · have he : ys ≠ qs := by
        rintro rfl
        exact hdue.not_isDue hq (prefix_refl ys) hd
      rw [hempty ys hp he]
      by_cases hdir : n.kind = .dir
      · rw [get_eq_none (fun hd => hmerge ⟨hdir, hd⟩) hold hp (Ne.symm he)]
      · exact absurd hd (hdue.not_isDue_of_not_dir hnew hold hk (hdirNew.not.2 hdir) hp)
    · by_cases he : ys = qs
      · rw [he, hu.here, hn, map_some]
      · rw [hempty ys hp he]
        by_cases hdir : n.kind = .dir
        · rw [hdue.get_below hnew hold (fun hd => hmerge ⟨hdir, hd⟩) hp he hd]
        · rw [get_eq_none (hdirNew.not.2 hdir) hnew hp (Ne.symm he)]

theorem Partway.init (hnew : new.WF) (hold : old.WF) (hsame : SameContent new old)
    (hroot : fs.isDirAt ds = true)
    (h : ∀ ys, ys ≠ [] → (fs.get (ds ++ ys)).map core = (old.get ys).map core) :
    Partway ds new old (sortByPath (changes new old)) fs where
  root := hroot
  todo ys hne _ := h ys hne
  done ys hne hnot := by
    rw [h ys hne]
    refine core_of_unchanged hnew hold hsame fun zs k hp hk => absurd ⟨zs, k, ?_, hk, hp⟩ hnot
    exact mem_sortByPath.2 ((mem_changes hnew hold).2 ⟨zs, k, rfl, hk⟩)

/-! ## The entries -/

theorem name_fileHeader (hy : Names ys) (hne : ys ≠ []) (n : Node) :
    (fileHeader (['/'].intercalate ys) n).cleaned.name = ['/'].intercalate ys := by
  change clean (canonicalTarName _ _) = _
  rw [canonicalTarName, slash_notSuffix_intercalate hy hne]
  cases n.isDir
  · exact clean_intercalate hy hne
  · exact clean_intercalate_slash hy hne

theorem headerFor_fileHeader (hn : n.WF) (name : Str) :
    HeaderFor (fileHeader name n).cleaned n where
  typeflag := rfl
  linkname := rfl
  perm := by
    change (2 ^ 12 * n.kind.fmt + n.perm) % 0o10000 = n.perm
    have := hn.perm_lt
    omega
  uid := rfl
  gid := rfl

theorem rejected_fileHeader (hd : Names ds) (hy : Names ys) (hne : ys ≠ [])
    (hn : new.get ys = some n) (htargets : new.TargetsInside ds) (name : Str) :
    rejected (print true (ds ++ ys)) (print true ds) (fileHeader name n).cleaned = none := by
  cases hk : n.kind with
  | dir | reg data => simp [rejected, Header.cleaned, fileHeader, Kind.typeflag, hk]
  | symlink target =>
    obtain ⟨ws, hws⟩ := htargets ys n target hn hk
    have hnames := forall_mem_append hd fun y hmem => hy y (dropLast_subset ys hmem)
    have hinside : hasPrefix (join (dir (print true (ds ++ ys))) target)
        (print true ds) = true := by
      rw [dir_print (forall_mem_append hd hy), dropLast_append_of_ne_nil hne,
        join_print hnames, ← hws]
      exact hasPrefix_print ds ws
    simp [rejected, Header.cleaned, fileHeader, Kind.typeflag, Kind.linkname, hk, hinside]

theorem name_whiteoutHeader (hys : Names ys) (hy : IsName y) (now : Int) :
    (whiteoutHeader now (print true (ys ++ [y]))).cleaned.name =
    ['/'].intercalate (ys ++ [whiteoutPrefix ++ y]) := by
  have hws := forall_mem_concat hys (isName_whiteout hy)
  change clean ((join (dir _) (whiteoutPrefix ++ base _)).drop 1) = _
  rw [dir_print (forall_mem_concat hys hy), dropLast_concat, base_print hys hy,
    join_name hys (isName_whiteout hy), print_true, drop_succ_cons, drop_zero]
  exact clean_intercalate hws (by simp)

/-- The directories whose times are set at the end are directories of the new tree. -/
def DirsOf (new : Forest) (dirs : List Header) : Prop :=
  ∀ hdr ∈ dirs, ∃ ys n, (∀ y ∈ ys, IsName y) ∧ hdr.name = ['/'].intercalate ys ∧ new.get ys = some n

/-- The next change is exported, and unpacking its entry does it. -/
theorem runs_unpackEntry (hd : Names ds) (hnew : new.WF) (hold : old.WF)
    (hsame : SameContent new old) (htargets : new.TargetsInside ds) (fuel : Nat) (now : Int)
    (hdue : Due new old (⟨print true qs, k⟩ :: due)) (hk : Changed new old qs k)
    (h : Partway ds new old (⟨print true qs, k⟩ :: due) fs) (hv : DirsOf new v.dirs) :
    ∃ entry, exportChange new now ⟨print true qs, k⟩ = some entry ∧
      Runs (unpackEntry fuel (print true ds) {} (0, 0) entry v) fs fun v' fs' =>
        DirsOf new v'.dirs ∧ Partway ds new old due fs' := by
  have hnames := hk.names hnew hold
  have hq : Names qs := fun q hmem => (hnames q hmem).1
  have hparent := h.parent hdue hnew hold hk
  by_cases hdel : k = .delete
  · subst hdel
    refine ⟨_, if_pos rfl, ?_⟩
    obtain ⟨ys, y, rfl⟩ := (eq_nil_or_concat qs).resolve_left hk.ne_nil
    rw [concat_eq_append] at *
    rw [dropLast_concat] at hparent
    have hname := name_whiteoutHeader (fun z hmem => hq z (mem_append_left _ hmem))
      (hq y (by simp)) now
    refine (runs_unpackWhiteout hd hnames fuel hname hparent _).mono ?_
    rintro v' fs' ⟨hdirs, rfl⟩
    exact ⟨hdirs ▸ hv, h.remove hdue hnew hold hk⟩
  · obtain ⟨n, hn⟩ := ne_none_iff_exists'.1 (hk.get.not.1 hdel)
    refine ⟨(fileHeader (['/'].intercalate qs) n, n.kind.data), ?_, ?_⟩
    · rw [exportChange, if_neg hdel, addTarFile, elements_print hq, hn, print_true]
      rfl
    · have hname := name_fileHeader hq hk.ne_nil n
      refine (runs_unpackFile hd hnames hk.ne_nil fuel hname (hnew.get hn)
        (headerFor_fileHeader (hnew.get hn) _)
        (rejected_fileHeader hd hq hk.ne_nil hn htargets _) hparent _).mono ?_
      rintro v' fs' ⟨hdirs, hu⟩
      refine ⟨?_, h.unpack hdue hnew hold hsame hk hn hu⟩
      rw [hdirs]
      split
      · intro hdr hmem
        rcases mem_append.1 hmem with hmem | hmem
        · exact hv hdr hmem
        · exact ⟨qs, n, hq, mem_singleton.1 hmem ▸ hname, hn⟩
      · exact hv

theorem runs_unpackEntries (hd : Names ds) (hnew : new.WF) (hold : old.WF)
    (hsame : SameContent new old) (htargets : new.TargetsInside ds) (fuel : Nat) (now : Int)
    (hdue : Due new old due) (h : Partway ds new old due fs) (hv : DirsOf new v.dirs) :
    Runs (unpackEntries fuel (print true ds) {} (0, 0) (due.filterMap (exportChange new now)) v)
      fs fun v' fs' =>
      DirsOf new v'.dirs ∧ Partway ds new old [] fs' := by
  induction due generalizing fs v with
  | nil => exact ⟨hv, h⟩
  | cons c due ih =>
    obtain ⟨qs, k, rfl, hk⟩ := hdue.sound c mem_cons_self
    obtain ⟨entry, hentry, hrun⟩ := runs_unpackEntry hd hnew hold hsame htargets fuel
      now hdue hk h hv
    rw [filterMap_cons_some hentry, unpackEntries, runs_bind]
    exact hrun.mono fun v' fs' h' => ih hdue.tail h'.2 h'.1

/-- The tree is at `ds`, up to its times and capabilities. -/
def Fs.Holds (fs : Fs) (ds : List Str) (f : Forest) : Prop :=
  fs.isDirAt ds = true ∧ ∀ ys, ys ≠ [] → (fs.get (ds ++ ys)).map Node.core =
    (f.get ys).map Node.core

theorem Partway.holds (h : Partway ds new old [] fs) : fs.Holds ds new :=
  ⟨h.root, fun ys hne => h.done ys hne fun ⟨_, _, hmem, _⟩ => absurd hmem not_mem_nil⟩

theorem runs_setDirTimes (hd : Names ds) (hy : Names ys)
    (hname : hdr.name = ['/'].intercalate ys) (hn : new.get ys = some n) (h : fs.Holds ds new) :
    Runs (setDirTimes (print true ds) hdr) fs fun _ fs' => fs'.Holds ds new := by
  have hne : ys ≠ [] := by
    rintro rfl
    cases hn
  obtain ⟨m, hm, -⟩ : ∃ m, fs.get (ds ++ ys) = some m ∧ m.core = n.core := by
    rw [← map_eq_some_iff, h.2 ys hne, hn, map_some]
  have happly : fs.apply (.chtimes (join (print true ds) hdr.name) hdr.accessTime hdr.modTime) =
      (.ok (), fs.set (ds ++ ys) (setTime hdr.modTime m)) := by
    rw [apply, hname, join_intercalate hd hy hne,
      elements_print (forall_mem_append hd hy), modify_eq hm]
  have hcore : ∀ zs, ((fs.set (ds ++ ys) (setTime hdr.modTime m)).get zs).map core =
      (fs.get zs).map core := by
    intro zs
    rw [get_set]
    split
    · next he =>
      rw [he, hm]
      rfl
    · rfl
  refine runs_change happly ⟨?_, fun zs hz => (hcore _).trans (h.2 zs hz)⟩
  have hroot : ds ≠ ds ++ ys := by simpa using hne
  rw [isDirAt, get_set, if_neg hroot]
  exact h.1

/-- Unpacking the exported changes over the old tree makes the new tree. -/
theorem runs_unpackLayer (hd : Names ds) (hnew : new.WF) (hold : old.WF)
    (hsame : SameContent new old)
    (htargets : new.TargetsInside ds) (fuel : Nat) (now : Int) (h : fs.Holds ds old) :
    Runs (unpackLayer fuel (print true ds) { entries := exportChanges new now (changes new old) }
      {}) fs fun _ fs' =>
      fs'.Holds ds new := by
  have hdone := runs_unpackEntries hd hnew hold hsame htargets fuel now (.init hnew hold)
    (.init hnew hold hsame h.1 h.2) (v := {}) fun hdr hmem => absurd hmem not_mem_nil
  have hroot : getRootUIDGID none none = .ok (0, 0) := rfl
  change Runs (unpackEntries fuel _ _ _ _ _ >>= _) fs _
  rw [runs_bind]
  refine hdone.mono fun v fs' ⟨hv, h'⟩ => ?_
  change Runs (v.dirs.forM (setDirTimes (print true ds)) >>= _) fs' _
  rw [runs_bind]
  refine Prog.succeeds_forM (fun hdr hmem fs h => ?_) h'.holds
  obtain ⟨ys, n, hy, hname, hn⟩ := hv hdr hmem
  exact runs_setDirTimes hd hy hname hn h

/-- Unpacking the changes between two trees over a copy of the old tree succeeds and makes it the
new tree. -/
theorem unpackLayer_exportChanges (hd : ∀ d ∈ ds, IsName d) (hnew : new.WF) (hold : old.WF)
    (hsame : SameContent new old) (htargets : new.TargetsInside ds) (fuel : Nat) (now : Int)
    (h : fs.Holds ds old) :
    ∃ size fs', (unpackLayer fuel (print true ds)
      { entries := exportChanges new now (changes new old) } {}).run.exec
      Fs.answer fs = (.ok size, fs') ∧ fs'.Holds ds new := by
  have hrun := runs_unpackLayer hd hnew hold hsame htargets fuel now h
  unfold Runs Prog.Succeeds at hrun
  split at hrun
  · next size fs' heq => exact ⟨size, fs', heq, hrun⟩
  · exact hrun.elim

end

/-- A directory `a` with a file `f`. -/
def dirWithFile : Forest :=
  .cons ['a'] { kind := .dir, perm := 0o755 }
    (.cons ['f'] { kind := .reg [1], perm := 0o644 } .nil .nil) .nil

def linkToFile : Forest :=
  .cons ['a'] { kind := .symlink ['b'], perm := 0o777 } .nil
    (.cons ['b'] { kind := .reg [2], perm := 0o600, uid := 7 } .nil .nil)

def dirWithFileAt : Fs :=
  [([['d']], { kind := .dir, perm := 0o755 }), ([['d'], ['a']], { kind := .dir, perm := 0o755 }),
  ([['d'], ['a'], ['f']], { kind := .reg [1], perm := 0o644 })]

theorem get_linkToFile (h : linkToFile.get ys = some n) :
    ys = [['a']] ∧ n.kind = .symlink ['b'] ∨ ys = [['b']] ∧ n.kind = .reg [2] := by
  rcases ys with _ | ⟨x, _ | ⟨y, ys⟩⟩
  · cases h
  · simp only [linkToFile, Forest.get, Forest.find] at h
    split_ifs at h with ha hb
    · cases h
      exact .inl ⟨by rw [ha], rfl⟩
    · cases h
      exact .inr ⟨by rw [hb], rfl⟩
    · cases h
  · simp only [linkToFile, Forest.get, Forest.find] at h
    split_ifs at h <;> simp at h

theorem holds_dirWithFile : dirWithFileAt.Holds [['d']] dirWithFile := by
  have hempty : ∀ zs, Fs.get [] zs = none := fun _ => rfl
  have hget : ∀ zs, zs ≠ [] → dirWithFileAt.get ([['d']] ++ zs) = dirWithFile.get zs := by
    rintro (_ | ⟨x, _ | ⟨y, zs⟩⟩) hne
    · exact absurd rfl hne
    · by_cases ha : x = ['a']
      · simp [dirWithFileAt, Fs.get_cons, dirWithFile, Forest.get, Forest.find, ha]
      · simp [dirWithFileAt, Fs.get_cons, hempty, dirWithFile, Forest.get, Forest.find,
          ha, Ne.symm ha]
    · by_cases ha : x = ['a']
      · by_cases hf : y = ['f']
        · cases zs <;> simp [dirWithFileAt, Fs.get_cons, hempty, dirWithFile, Forest.get,
            Forest.find, ha, hf]
        · cases zs <;> simp [dirWithFileAt, Fs.get_cons, hempty, dirWithFile, Forest.get,
            Forest.find, ha, hf, Ne.symm hf]
      · simp [dirWithFileAt, Fs.get_cons, hempty, dirWithFile, Forest.get, Forest.find,
          ha, Ne.symm ha]
  exact ⟨rfl, fun zs hne => by rw [hget zs hne]⟩

theorem unpackLayer_exportChanges_link : ∃ size fs',
    (unpackLayer 0 (print true [['d']])
      { entries := exportChanges linkToFile 0 (changes linkToFile dirWithFile) }
      {}).run.exec Fs.answer dirWithFileAt = (.ok size, fs') ∧ fs'.Holds [['d']] linkToFile := by
  have hname : ∀ c : Char, c ≠ '.' → c ≠ '/' → IsName [c] := fun c h₁ h₂ =>
    ⟨by simp, by simpa [dot] using h₁, by simp [dotdot], by simpa using Ne.symm h₂⟩
  refine unpackLayer_exportChanges ?_ ?_ ?_ ?_ ?_ 0 0 holds_dirWithFile
  · simpa using hname 'd' (by decide) (by decide)
  · have ha := hname 'a' (by decide) (by decide)
    have hb := hname 'b' (by decide) (by decide)
    exact ⟨ha, rfl, rfl, ⟨by decide, fun _ _ => rfl⟩, fun _ => rfl, trivial,
      hb, rfl, rfl, ⟨by decide, by simp⟩, fun _ => rfl, trivial, trivial⟩
  · have ha := hname 'a' (by decide) (by decide)
    have hf := hname 'f' (by decide) (by decide)
    exact ⟨ha, rfl, rfl, ⟨by decide, by simp⟩, by simp,
      ⟨hf, rfl, rfl, ⟨by decide, by simp⟩, fun _ => rfl, trivial, trivial⟩, trivial⟩
  · intro ys n o hn ho _ hdir _
    rcases get_linkToFile hn with ⟨rfl, -⟩ | ⟨rfl, -⟩
    · cases ho
      exact absurd rfl hdir
    · cases ho
  · intro ys n target hn hk
    rcases get_linkToFile hn with ⟨rfl, hlink⟩ | ⟨rfl, hreg⟩
    · rw [hlink] at hk
      cases hk
      exact ⟨[['b']], rfl⟩
    · rw [hreg] at hk
      cases hk

end Docker.Archive
