import Docker.Archive.Files

/-!
# Export of changes, and unpacking what was exported

`ExportChanges` of `pkg/archive/changes.go`, `addTarFile` of `pkg/archive/archive.go`, and what
unpacking a single entry does to the file system.
-/

namespace Docker.Archive

open Filepath Fs List Bool

/-! ## `ExportChanges` -/

def canonicalTarName (name : Str) (isDir : Bool) : Str :=
  if isDir && !(['/'].isSuffixOf name) then name ++ ['/'] else name

def Kind.typeflag : Kind → Typeflag
  | .dir => .dir
  | .reg _ => .reg
  | .symlink _ => .symlink

def Kind.linkname : Kind → Str
  | .symlink target => target
  | _ => []

def Kind.data : Kind → Content
  | .reg data => data
  | _ => []

/-- `tar.FileInfoHeader`, with the name set and the capability as an extended attribute. -/
def fileHeader (name : Str) (n : Node) : Header where
  name := canonicalTarName name n.isDir
  typeflag := n.kind.typeflag
  linkname := n.kind.linkname
  mode := n.mode
  uid := n.uid
  gid := n.gid
  size := n.kind.data.length
  modTime := n.mtim.sec * 1000000000 + n.mtim.nsec
  accessTime := n.mtim.sec * 1000000000 + n.mtim.nsec
  xattrs := n.capability.toList.map fun c => ("security.capability", c)

/-- `addTarFile` without id maps, for a file of the tree; a file that is not there is left out. -/
def addTarFile (new : Forest) (path name : Str) : Option (Header × Content) :=
  (new.get (elements path)).map fun n => (fileHeader name n, n.kind.data)

def whiteoutHeader (now : Int) (path : Str) : Header where
  name := (join (dir path) (whiteoutPrefix ++ base path)).drop 1
  modTime := now
  accessTime := now

def sortByPath (cs : List PathChange) : List PathChange := cs.mergeSort fun a b => a.path ≤ b.path

def exportChange (new : Forest) (now : Int) (c : PathChange) : Option (Header × Content) :=
  if c.kind = .delete then some (whiteoutHeader now c.path, [])
  else addTarFile new c.path (c.path.drop 1)

def exportChanges (new : Forest) (now : Int) (cs : List PathChange) : List (Header × Content) :=
  (sortByPath cs).filterMap (exportChange new now)

/-! ## The order of the entries -/

theorem sortByPath_sorted (h : (cs.map PathChange.path).Nodup) :
    (sortByPath cs).Pairwise fun a b => a.path < b.path := by
  have hle : (sortByPath cs).Pairwise fun a b => decide (a.path ≤ b.path) = true := by
    refine pairwise_mergeSort (fun a b c h₁ h₂ => ?_) (fun a b => ?_) cs
    · rw [decide_eq_true_eq] at h₁ h₂ ⊢
      exact le_trans h₁ h₂
    · rw [or_eq_true, decide_eq_true_eq, decide_eq_true_eq]
      exact le_total _ _
  have hne : (sortByPath cs).Pairwise fun a b => a.path ≠ b.path := by
    have hperm := (mergeSort_perm cs fun a b => decide (a.path ≤ b.path)).map PathChange.path
    exact pairwise_map.1 (hperm.nodup_iff.2 h)
  exact hle.imp₂ (fun _ _ h₁ h₂ => lt_of_le_of_ne (of_decide_eq_true h₁) h₂) hne

theorem mem_sortByPath : c ∈ sortByPath cs ↔ c ∈ cs :=
  (mergeSort_perm cs _).mem_iff

theorem lt_append_cons (s t : Str) (a : Char) : s < s ++ a :: t := by
  induction s with
  | nil => exact nil_lt_cons a t
  | cons b s ih => exact cons_lt_cons_iff.2 (.inr ⟨rfl, ih⟩)

theorem print_lt (hy : Names ys) (hp : xs <+: ys) (hne : xs ≠ ys) :
    print true xs < print true ys := by
  obtain ⟨zs, rfl⟩ := hp
  have hzs : zs ≠ [] := fun he => hne (by simp [he])
  refine cons_lt_cons_iff.2 (.inr ⟨rfl, ?_⟩)
  by_cases hxs : xs = []
  · subst hxs
    obtain ⟨a, t, ha⟩ := exists_cons_of_ne_nil
      (intercalate_ne_nil (fun c hc => (hy c (by simpa using hc)).ne_nil) hzs)
    rw [nil_append, ha]
    exact nil_lt_cons a t
  · rw [intercalate_append hxs hzs]
    exact lt_append_cons _ _ _

/-! ## Runs on a file system -/

/-- The program ends without an error, in a result and a file system that satisfy `P`. -/
def Runs {α : Type} (x : Act α) (fs : Fs) (P : α → Fs → Prop) : Prop :=
  Prog.Succeeds Fs.answer x fs P

section Runs
variable {fs fs' fs₀ : Fs}

theorem runs_pure {P : α → Fs → Prop} : Runs (pure a) fs P ↔ P a fs := Iff.rfl

theorem runs_bind {f : α → Act β} {P : β → Fs → Prop} :
    Runs (x >>= f) fs P ↔ Runs x fs fun a fs' => Runs (f a) fs' P := Prog.succeeds_bind

theorem Runs.mono {P P' : α → Fs → Prop} (h : Runs x fs P) (hP : ∀ a fs', P a fs' → P' a fs') :
    Runs x fs P' := Prog.Succeeds.mono h hP

theorem runs_call {c : Call} {P : c.Answer → Fs → Prop} :
    Runs (call c) fs P ↔ P (answer c fs).1 (answer c fs).2 := Iff.rfl

theorem runs_lstat (hx : Names xs) {P : Except Errno Info → Fs → Prop} :
    Runs (call (.lstat (print true xs))) fs P ↔ P (fs.lstat xs) fs := by
  have hans : answer (.lstat (print true xs)) fs = (fs.lstat xs, fs) := by
    change (fs.lstat (elements (print true xs)), fs) = _
    rw [elements_print hx]
  rw [runs_call, hans]

theorem runs_change (h : fs.apply c = (.ok (), fs')) (hP : P () fs') :
    Runs (change temp c) fs P := by
  change Runs (raise (fs.apply c).1) (fs.apply c).2 P
  rw [h]
  exact hP

/-- The file system is `fs₀` but for the file at `xs`, which is `m`. -/
structure OnlyAt (fs₀ fs : Fs) (xs : List Str) (m : Node) : Prop where
  here : fs.get xs = some m
  other : ∀ ys, ys ≠ xs → fs.get ys = fs₀.get ys

theorem OnlyAt.set (h : ∀ ys, ys ≠ xs → fs.get ys = fs₀.get ys) (m : Node) :
    OnlyAt fs₀ (fs.set xs m) xs m where
  here := by simp [get_set]
  other ys hys := by rw [get_set, if_neg hys, h ys hys]

theorem OnlyAt.runs_change (h : OnlyAt fs₀ fs xs m) (hc : fs.apply c = fs.modify xs g) :
    Runs (change temp c) fs fun _ fs' => OnlyAt fs₀ fs' xs (g m) :=
  Archive.runs_change (hc.trans (modify_eq h.here g)) (.set h.other _)

theorem OnlyAt.runs_setXattr (hx : Names xs) (h : OnlyAt fs₀ fs xs m) (xattr : String × Content) :
    Runs (setXattr temp (print true xs) xattr) fs fun _ fs' => ∃ m', OnlyAt fs₀ fs' xs m' ∧
      m'.core = m.core := by
  have hans : answer (.change temp (.lsetxattr (print true xs) xattr.1 xattr.2)) fs =
      (.ok (), fs.set xs
      (if xattr.1 = "security.capability" then { m with capability := some xattr.2 } else m)) := by
    change fs.modify (elements (print true xs)) _ = _
    rw [elements_print hx, modify_eq h.here]
  rw [setXattr, runs_bind, runs_call, hans]
  refine ⟨_, .set h.other _, ?_⟩
  split <;> rfl

theorem OnlyAt.runs_setXattrs (hx : Names xs) (h : OnlyAt fs₀ fs xs m)
    (xattrs : List (String × Content)) :
    Runs (xattrs.forM (setXattr temp (print true xs))) fs fun _ fs' =>
      ∃ m', OnlyAt fs₀ fs' xs m' ∧ m'.core = m.core := by
  refine Prog.succeeds_forM ?_ ⟨m, h, rfl⟩
  rintro xattr - fs ⟨m', h', hcore⟩
  exact (h'.runs_setXattr hx xattr).mono fun _ fs' ⟨m'', h'', hcore'⟩ =>
    ⟨m'', h'', hcore'.trans hcore⟩

structure HeaderFor (hdr : Header) (n : Node) : Prop where
  typeflag : hdr.typeflag = n.kind.typeflag
  linkname : hdr.linkname = n.kind.linkname
  perm : hdr.perm = n.perm
  uid : hdr.uid = n.uid
  gid : hdr.gid = n.gid

theorem HeaderFor.ne_link (h : HeaderFor hdr n) : hdr.typeflag ≠ .link := by
  rw [h.typeflag]
  cases n.kind <;> simp [Kind.typeflag]

theorem HeaderFor.eq_symlink_iff (h : HeaderFor hdr n) :
    hdr.typeflag = .symlink ↔ ∃ target, n.kind = .symlink target := by
  rw [h.typeflag]
  cases n.kind <;> simp [Kind.typeflag]

section
variable (hx : Names xs) (h : OnlyAt fs₀ fs xs m)
include hx h

theorem OnlyAt.runs_handleLChmod (hhdr : HeaderFor hdr n)
    (hcore : (m.kind, m.uid, m.gid) = (n.kind, n.uid, n.gid))
    (hperm : ∀ target, n.kind = .symlink target → m.perm = n.perm) :
    Runs (handleLChmod temp hdr (print true xs)) fs fun _ fs' => ∃ m', OnlyAt fs₀ fs' xs m' ∧
      m'.core = n.core := by
  simp only [Prod.mk.injEq] at hcore
  rw [handleLChmod, if_neg hhdr.ne_link]
  by_cases hs : hdr.typeflag = .symlink
  · obtain ⟨target, ht⟩ := hhdr.eq_symlink_iff.1 hs
    rw [if_neg (not_not.2 hs)]
    exact ⟨m, h, by simp [Node.core, hcore, hperm target ht]⟩
  · have hchmod : fs.apply (.chmod (print true xs) hdr.perm) = fs.modify xs fun m =>
        { m with perm := hdr.perm } := by
      rw [apply, elements_print hx]
    rw [if_pos hs]
    exact (h.runs_change hchmod).mono fun _ fs' h' => ⟨_, h', by simp [Node.core, hcore, hhdr.perm]⟩

theorem OnlyAt.runs_setTimes (hlink : hdr.typeflag ≠ .link) :
    Runs (setTimes temp hdr (print true xs)) fs fun _ fs' => ∃ m', OnlyAt fs₀ fs' xs m' ∧
      m'.core = m.core := by
  rw [setTimes, if_neg hlink]
  by_cases hs : hdr.typeflag = .symlink
  · have hans : answer (.change temp (.lutimes (print true xs) hdr.aTime hdr.modTime)) fs =
        (.ok (), fs.set xs (setTime hdr.modTime m)) := by
      change fs.modify (elements (print true xs)) _ = _
      rw [elements_print hx, modify_eq h.here]
    rw [if_neg (not_not.2 hs), runs_bind, runs_call, hans]
    exact ⟨_, .set h.other _, rfl⟩
  · have htimes : fs.apply (.chtimes (print true xs) hdr.aTime hdr.modTime) =
        fs.modify xs (setTime hdr.modTime) := by
      rw [apply, elements_print hx]
    rw [if_pos hs]
    exact (h.runs_change htimes).mono fun _ fs' h' => ⟨_, h', rfl⟩

theorem OnlyAt.runs_setMetadata (hn : n.WF) (hhdr : HeaderFor hdr n) (hkind : m.kind = n.kind)
    (hperm : ∀ target, n.kind = .symlink target → m.perm = 0o777) :
    Runs (setMetadata temp hdr (print true xs) true none) fs fun _ fs' =>
      ∃ m', OnlyAt fs₀ fs' xs m' ∧ m'.core = n.core := by
  have hlchown : fs.apply (.lchown (print true xs) hdr.uid hdr.gid) = fs.modify xs fun m => { m with
      uid := hdr.uid, gid := hdr.gid, perm :=
        if m.kind = .dir then m.perm else m.perm % 0o2000 } := by
    rw [apply, elements_print hx]
  rw [setMetadata, runs_bind, setOwner, if_pos rfl]
  refine (h.runs_change hlchown).mono fun _ fs₁ h₁ => ?_
  rw [runs_bind]
  refine (h₁.runs_setXattrs hx hdr.xattrs).mono fun _ fs₂ H₂ => ?_
  obtain ⟨m₂, h₂, hcore₂⟩ := H₂
  simp only [Node.core, Prod.mk.injEq] at hcore₂
  rw [runs_bind]
  refine (h₂.runs_handleLChmod hx hhdr ?_ ?_).mono fun _ fs₃ H₃ => ?_
  · simp [hcore₂, hkind, hhdr.uid, hhdr.gid]
  · intro target ht
    rw [hcore₂.2.1, if_neg (by simp [hkind, ht]), hperm target ht, hn.symlink_perm target ht]
  · obtain ⟨m₃, h₃, hcore₃⟩ := H₃
    exact (h₃.runs_setTimes hx hhdr.ne_link).mono fun _ fs₄ H₄ => H₄.imp fun _ h =>
      ⟨h.1, h.2.trans hcore₃⟩

end

theorem runs_make (hc : fs.apply c = fs.make xs m) (hnone : fs.get xs = none)
    (hdir : fs.isDirAt xs.dropLast = true) (hP : P () (fs.set xs m)) : Runs (change temp c) fs P :=
  runs_change (hc.trans (make_eq hnone hdir m)) hP

theorem runs_makeFile (hx : Names xs) (hhdr : HeaderFor hdr n) (ex : Str)
    (hparent : fs.isDirAt xs.dropLast = true)
    (hfree : fs.get xs = none ∨ n.kind = .dir ∧ fs.isDirAt xs = true) :
    Runs (makeFile temp (print true xs) ex hdr n.kind.data) fs fun _ fs' =>
      ∃ m, OnlyAt fs fs' xs m ∧ m.kind = n.kind ∧ ∀ target, n.kind = .symlink target →
        m.perm = 0o777 := by
  have helem := elements_print hx
  have hset : ∀ m, OnlyAt fs (fs.set xs m) xs m := OnlyAt.set fun _ _ => rfl
  rw [makeFile, hhdr.typeflag]
  cases hk : n.kind with
  | dir =>
    simp only [Kind.typeflag]
    rw [makeDir, runs_bind, runs_lstat hx]
    have hmkdir : fs.get xs = none → Runs (change temp (.mkdir (print true xs) hdr.perm))
        fs fun _ fs' =>
        ∃ m, OnlyAt fs fs' xs m ∧ m.kind = .dir ∧ ∀ target, Kind.dir = .symlink target →
          m.perm = 0o777 := fun hnone =>
      runs_make (by rw [apply, helem]) hnone hparent ⟨_, hset _, rfl, by simp⟩
    rcases hfree with hnone | ⟨-, hdir⟩
    · simp only [lstat, hnone]
      exact hmkdir hnone
    · obtain ⟨m, hm, hmk⟩ := isDirAt_iff.1 hdir
      simp only [lstat_eq hm, info, hmk, decide_true, if_true]
      exact ⟨m, ⟨hm, fun _ _ => rfl⟩, hmk, by simp⟩
  | reg data =>
    have hnone : fs.get xs = none := hfree.resolve_right (by simp [hk])
    refine runs_make (m := { kind := .reg data, perm := hdr.perm }) ?_ hnone hparent
      ⟨_, hset _, rfl, by simp⟩
    rw [apply, helem, write, hnone]
    rfl
  | symlink target =>
    have hnone : fs.get xs = none := hfree.resolve_right (by simp [hk])
    have hlink : hdr.linkname = target := by rw [hhdr.linkname, hk, Kind.linkname]
    refine runs_make (m := { kind := .symlink target, perm := 0o777 }) ?_ hnone hparent
      ⟨_, hset _, rfl, fun _ _ => rfl⟩
    rw [apply, helem, hlink]

theorem runs_createTarFile (hx : Names xs) (hn : n.WF) (hhdr : HeaderFor hdr n)
    (hrej : rejected (print true xs) ex hdr = none) (hparent : fs.isDirAt xs.dropLast = true)
    (hfree : fs.get xs = none ∨ n.kind = .dir ∧ fs.isDirAt xs = true) :
    Runs (createTarFile temp (print true xs) ex hdr n.kind.data true none) fs fun _ fs' =>
      ∃ m, OnlyAt fs fs' xs m ∧ m.core = n.core := by
  have hglobal : hdr.typeflag ≠ .xGlobalHeader := by
    rw [hhdr.typeflag]
    cases n.kind <;> simp [Kind.typeflag]
  rw [createTarFile, hrej]
  rw [runs_bind]
  refine (runs_makeFile hx hhdr ex hparent hfree).mono fun _ fs₁ ⟨m, h, hkind, hperm⟩ => ?_
  rw [if_neg hglobal]
  exact h.runs_setMetadata hx hn hhdr hkind hperm

/-- What unpacking `n` at `xs` does: a directory is merged with one that is there, anything else is
replaced with all below. -/
structure Unpacked (fs fs' : Fs) (xs : List Str) (n : Node) : Prop where
  here : (fs'.get xs).map Node.core = some n.core
  aside : ∀ ys, ¬ xs <+: ys → fs'.get ys = fs.get ys
  merged : n.kind = .dir → fs.isDirAt xs = true → ∀ ys, xs <+: ys → ys ≠ xs → fs'.get ys = fs.get ys
  replaced : (n.kind = .dir → fs.isDirAt xs = false) →
    (∀ ys, xs <+: ys → ys ≠ xs → fs.get xs = none → fs.get ys = none) →
    ∀ ys, xs <+: ys → ys ≠ xs → fs'.get ys = none

theorem not_prefix_dropLast (hne : xs ≠ []) : ¬ xs <+: xs.dropLast := fun h => by
  have := h.length_le
  have := length_pos_iff.2 hne
  simp at *
  omega

theorem runs_clearPath (hx : Names xs) (hhdr : HeaderFor hdr n) :
    Runs (clearPath (print true xs) hdr.typeflag) fs fun _ fs' =>
      (n.kind = .dir ∧ fs.isDirAt xs = true ∧ fs' = fs) ∨
      (fs'.get xs = none ∧ (n.kind = .dir → fs.isDirAt xs = false) ∧
        ∀ ys, fs'.get ys = if (fs.get xs).isSome ∧ xs <+: ys then none else fs.get ys) := by
  have hdir : hdr.typeflag = .dir ↔ n.kind = .dir := by
    rw [hhdr.typeflag]
    cases n.kind <;> simp [Kind.typeflag]
  rw [clearPath, runs_bind, runs_lstat hx]
  cases hm : fs.get xs with
  | none =>
    simp only [lstat, hm]
    exact .inr ⟨hm, fun _ => by simp [isDirAt, hm], by simp⟩
  | some m =>
    simp only [lstat_eq hm]
    by_cases hmerge : m.kind = .dir ∧ n.kind = .dir
    · rw [if_pos (by simp [info, hmerge, hdir])]
      exact .inl ⟨hmerge.2, isDirAt_iff.2 ⟨m, hm, hmerge.1⟩, rfl⟩
    · rw [if_neg (by simpa [info, hdir] using hmerge)]
      have hrm : fs.apply (.removeAll (print true xs)) = (.ok (), fs.remove xs) := by
        rw [apply, elements_print hx]
      refine runs_change hrm (.inr ⟨?_, ?_, fun ys => ?_⟩)
      · simp [get_remove]
      · intro hn
        have hmk : m.kind ≠ .dir := fun hmk => hmerge ⟨hmk, hn⟩
        simp [isDirAt, hm, hmk]
      · simp [get_remove]

theorem mapOwner_nil (hdr : Header) : mapOwner {} (0, 0) hdr = .ok hdr := by
  have hid : ∀ id : Int, mapID id 0 none = .ok id := fun id => by
    rw [mapID]
    split <;> rfl
  rw [mapOwner, hid, hid]
  rfl

theorem runs_extract (hx : Names xs) (hne : xs ≠ []) (hn : n.WF) (hhdr : HeaderFor hdr n)
    (hrej : rejected (print true xs) dest hdr = none)
    (hparent : fs.isDirAt xs.dropLast = true) (v : Vars) :
    Runs (extract dest {} (0, 0) (print true xs) hdr n.kind.data v) fs fun v' fs' =>
      v'.dirs = (if hdr.typeflag = .dir then v.dirs ++ [hdr] else v.dirs) ∧
        Unpacked fs fs' xs n := by
  have haufs : hdr.isAufsLink = false := by simp [Header.isAufsLink, hhdr.ne_link]
  rw [extract, runs_bind]
  refine (runs_clearPath hx hhdr).mono fun _ fs₁ hclear => ?_
  rw [srcHeader, haufs, if_neg Bool.false_ne_true, raiseError, runs_bind, runs_pure, srcData, haufs,
    if_neg Bool.false_ne_true, runs_bind, runs_pure, mapOwner_nil, raiseError, runs_bind,
      runs_pure, runs_bind]
  have hparent₁ : fs₁.isDirAt xs.dropLast = true := by
    rcases hclear with ⟨-, -, rfl⟩ | ⟨-, -, hget⟩
    · exact hparent
    · rw [isDirAt, hget, if_neg fun h => not_prefix_dropLast hne h.2]
      exact hparent
  have hfree : fs₁.get xs = none ∨ n.kind = .dir ∧ fs₁.isDirAt xs = true := by
    rcases hclear with ⟨hk, hd, rfl⟩ | ⟨hnone, -⟩
    · exact .inr ⟨hk, hd⟩
    · exact .inl hnone
  refine (runs_createTarFile hx hn hhdr hrej hparent₁ hfree).mono fun _ fs₂ H => ⟨rfl, ?_⟩
  obtain ⟨m, h, hcore⟩ := H
  have hother : ∀ ys, ys ≠ xs → fs₂.get ys = fs₁.get ys := h.other
  refine ⟨by rw [h.here, Option.map_some, hcore], fun ys hys => ?_, fun hk hd ys _ hne' => ?_,
    fun hno horphan ys hys hne' => ?_⟩
  · rw [hother ys fun he => hys (he ▸ List.prefix_refl _)]
    rcases hclear with ⟨-, -, rfl⟩ | ⟨-, -, hget⟩
    · rfl
    · rw [hget, if_neg fun h => hys h.2]
  · rw [hother ys hne']
    rcases hclear with ⟨-, -, rfl⟩ | ⟨-, hd', -⟩
    · rfl
    · rw [hd' hk] at hd
      cases hd
  · rw [hother ys hne']
    rcases hclear with ⟨hk, hd, -⟩ | ⟨-, -, hget⟩
    · rw [hno hk] at hd
      cases hd
    · rw [hget]
      cases hxs : fs.get xs with
      | none => simpa using horphan ys hys hne' hxs
      | some m => simp [hys]

/-! ### The entries of an export -/

theorem forall_mem_append {P : Str → Prop} {ds ws : List Str} (hd : ∀ d ∈ ds, P d)
    (hw : ∀ w ∈ ws, P w) :
    ∀ x ∈ ds ++ ws, P x := fun x hx => (mem_append.1 hx).elim (hd x) (hw x)

theorem dropLast_append_of_ne_nil (hne : ws ≠ []) : (ds ++ ws).dropLast = ds ++ ws.dropLast := by
  rw [dropLast_append, if_neg (by simp [hne])]

theorem runs_unpackHeader (hd : Names ds) (hw : Names ws) (hne : ws ≠ [])
    (fuel : Nat) {data : Content} {P : Vars → Fs → Prop} (hname : hdr.name = ['/'].intercalate ws)
    (hskip : isSkipped hdr.name = false) (hparent : fs.isDirAt (ds ++ ws.dropLast) = true)
    (h : Runs (if hasPrefix (base (print true (ds ++ ws))) whiteoutPrefix then (do
        whiteout fuel (print true (ds ++ ws)) v
        pure v) else extract (print true ds) {} (0, 0) (print true (ds ++ ws)) hdr data v) fs P) :
    Runs (unpackHeader fuel (print true ds) {} (0, 0) hdr data v) fs P := by
  have hdl : ∀ x ∈ ds ++ ws.dropLast, IsName x :=
    forall_mem_append hd fun w hmem => hw w (List.dropLast_subset ws hmem)
  have hpar : Runs (ensureParent (print true ds) hdr.name) fs fun _ fs' => fs' = fs := by
    obtain ⟨m, hm, -⟩ := isDirAt_iff.1 hparent
    rw [ensureParent, hname, slash_notSuffix_intercalate hw hne, if_neg Bool.false_ne_true,
      join_dir_intercalate hd hw hne, runs_bind, runs_lstat hdl, lstat_eq hm]
    exact rfl
  rw [unpackHeader, runs_bind]
  refine hpar.mono ?_
  rintro _ _ rfl
  rw [hskip, if_neg Bool.false_ne_true, unpackPath, hname, join_intercalate hd hw hne]
  obtain ⟨q, hq, hup⟩ := hasPrefix_rel hd (forall_mem_append hd hw)
  have hno : ¬ hasPrefix q (dotdot ++ ['/']) = true := fun hp => (hup.1 hp).1 (prefix_append ds ws)
  rw [hq]
  dsimp only
  rw [if_neg hno]
  exact h

theorem isSkipped_false (h : hasPrefix w whiteoutMetaPrefix = false) :
    isSkipped (['/'].intercalate (w :: ws)) = false := by
  rw [isSkipped, and_eq_false_iff]
  left
  rw [eq_false_iff] at h ⊢
  exact fun hp => h (hasPrefix_of_intercalate (by decide) hp)

theorem hasPrefix_meta (h : hasPrefix w whiteoutPrefix = false) :
    hasPrefix w whiteoutMetaPrefix = false := by
  rw [eq_false_iff] at h ⊢
  exact fun hp => h (hasPrefix_iff.2 ((prefix_append _ _).trans (hasPrefix_iff.1 hp)))

theorem runs_unpackFile (hd : Names ds)
    (hy : ∀ y ∈ ys, IsName y ∧ hasPrefix y whiteoutPrefix = false) (hne : ys ≠ []) (fuel : Nat)
    (hname : hdr.name = ['/'].intercalate ys) (hn : n.WF) (hhdr : HeaderFor hdr n)
    (hrej : rejected (print true (ds ++ ys)) (print true ds) hdr = none)
    (hparent : fs.isDirAt (ds ++ ys.dropLast) = true) (v : Vars) :
    Runs (unpackHeader fuel (print true ds) {} (0, 0) hdr n.kind.data v) fs fun v' fs' =>
      v'.dirs = (if hdr.typeflag = .dir then v.dirs ++ [hdr] else v.dirs) ∧
        Unpacked fs fs' (ds ++ ys) n := by
  have hnames : Names ys := fun y hmem => (hy y hmem).1
  have hskip : isSkipped hdr.name = false := by
    obtain ⟨y, ys, rfl⟩ := List.exists_cons_of_ne_nil hne
    rw [hname]
    exact isSkipped_false (hasPrefix_meta (hy y mem_cons_self).2)
  refine runs_unpackHeader hd hnames hne fuel hname hskip hparent ?_
  have hbase : hasPrefix (base (print true (ds ++ ys))) whiteoutPrefix = false := by
    obtain ⟨ys, y, rfl⟩ := (eq_nil_or_concat ys).resolve_left hne
    rw [concat_eq_append] at hnames hy ⊢
    rw [← append_assoc, base_print (forall_mem_append hd fun w hmem =>
      hnames w (mem_append_left _ hmem))
      (hnames y (by simp))]
    exact (hy y (by simp)).2
  rw [hbase, if_neg Bool.false_ne_true]
  refine runs_extract (forall_mem_append hd hnames) (by simp [hne]) hn hhdr hrej ?_ v
  rwa [dropLast_append_of_ne_nil hne]

theorem isName_whiteout {y : Str} (hy : IsName y) : IsName (whiteoutPrefix ++ y) where
  ne_nil := by simp [whiteoutPrefix]
  ne_dot := by simp [whiteoutPrefix, dot]
  ne_dotdot := by simp [whiteoutPrefix, dotdot]
  slash := by simpa [whiteoutPrefix] using hy.slash

theorem runs_unpackWhiteout {ds ys : List Str} {y : Str} (hd : Names ds)
    (hy : ∀ z ∈ ys ++ [y], IsName z ∧ hasPrefix z whiteoutPrefix = false) (fuel : Nat)
    (hname : hdr.name = ['/'].intercalate (ys ++ [whiteoutPrefix ++ y]))
    (hparent : fs.isDirAt (ds ++ ys) = true)
    (v : Vars) : Runs (unpackHeader fuel (print true ds) {} (0, 0) hdr data v) fs fun v' fs' =>
      v'.dirs = v.dirs ∧ fs' = fs.remove (ds ++ (ys ++ [y])) := by
  have hys : Names ys := fun z hmem => (hy z (mem_append_left _ hmem)).1
  have hyn := hy y (by simp)
  have hws := forall_mem_concat hys (isName_whiteout hyn.1)
  have hdy := forall_mem_append hd hys
  have hmeta : ∀ w ∈ ys ++ [whiteoutPrefix ++ y], hasPrefix w whiteoutMetaPrefix = false := by
    refine forall_mem_concat (fun z hmem => hasPrefix_meta (hy z (mem_append_left _ hmem)).2) ?_
    rw [eq_false_iff]
    intro hp
    rw [hasPrefix_iff, whiteoutMetaPrefix, prefix_append_right_inj] at hp
    exact eq_false_iff.1 hyn.2 (hasPrefix_iff.2 hp)
  have hskip : isSkipped hdr.name = false := by
    rw [hname]
    obtain ⟨w, ws, hcons⟩ := exists_cons_of_ne_nil (show ys ++ [whiteoutPrefix ++ y] ≠ [] by simp)
    rw [hcons] at hmeta ⊢
    exact isSkipped_false (hmeta w mem_cons_self)
  have hpath : print true (ds ++ (ys ++ [whiteoutPrefix ++ y])) =
      print true (ds ++ ys ++ [whiteoutPrefix ++ y]) := by
    rw [append_assoc]
  have hbase : base (print true (ds ++ (ys ++ [whiteoutPrefix ++ y]))) = whiteoutPrefix ++ y := by
    rw [hpath, base_print hdy (isName_whiteout hyn.1)]
  have hdir : dir (print true (ds ++ (ys ++ [whiteoutPrefix ++ y]))) = print true (ds ++ ys) := by
    rw [hpath, dir_print (forall_mem_concat hdy (isName_whiteout hyn.1)), dropLast_concat]
  have hopaque : whiteoutPrefix ++ y ≠ whiteoutOpaqueDir := fun he => by
    have : hasPrefix (whiteoutPrefix ++ y) whiteoutMetaPrefix = true := by
      rw [he]
      decide
    simp [hmeta _ (mem_append_right ys (mem_singleton.2 rfl))] at this
  refine runs_unpackHeader hd hws (by simp) fuel hname hskip (by simpa using hparent) ?_
  have hwh : hasPrefix (whiteoutPrefix ++ y) whiteoutPrefix = true :=
    hasPrefix_iff.2 (prefix_append _ _)
  rw [hbase, if_pos hwh, runs_bind, whiteout, hbase, if_neg hopaque, hdir, drop_left]
  dsimp only
  rw [join_name hdy hyn.1]
  refine runs_change ?_ ⟨rfl, rfl⟩
  rw [apply, elements_print (forall_mem_concat hdy hyn.1), append_assoc]

end Runs

end Docker.Archive
