import Docker.Archive.Unpack

/-!
# The changes between two trees

`pkg/archive/changes.go` and `pkg/archive/changes_unix.go`: trees of files and the changes from one
to another that `FileInfo.Changes` records. The children of a directory are a list without repeated
names, in any order, as the iteration order of the map is open.
-/

namespace Docker.Archive

open Filepath List Option Prod

inductive Kind where
  | dir
  | reg (data : Content)
  | symlink (target : Str)
  deriving DecidableEq

structure Timespec where
  sec : Int
  nsec : Int
  deriving DecidableEq

structure Node where
  kind : Kind
  perm : Nat
  uid : Int := 0
  gid : Int := 0
  rdev : Nat := 0
  mtim : Timespec := ⟨0, 0⟩
  capability : Option Content := none
  deriving DecidableEq

/-- The files of a directory: the name of each with the file, the files in it, and the other
files. -/
inductive Forest where
  | nil
  | cons (name : Str) (node : Node) (children rest : Forest)

def Forest.find : Forest → Str → Option (Node × Forest)
  | nil, _ => none
  | cons name node children rest, x => if x = name then some (node, children) else rest.find x

def Forest.get : Forest → List Str → Option Node
  | _, [] => none
  | f, [x] => (f.find x).map fst
  | f, x :: y :: xs => (f.find x).bind fun c => c.2.get (y :: xs)

def sIFDIR : Nat := 0o040000

/-- The file type bits of a mode, shifted to the right. -/
def Kind.fmt : Kind → Nat
  | .dir => 0o04
  | .reg _ => 0o10
  | .symlink _ => 0o12

def Node.mode (n : Node) : Nat := 2 ^ 12 * n.kind.fmt + n.perm

/-- The size of a directory is never looked at. -/
def Node.size (n : Node) : Nat :=
  match n.kind with
  | .dir => 0
  | .reg data => data.length
  | .symlink target => target.length

def Node.isDir (n : Node) : Bool := n.mode &&& sIFDIR ≠ 0

def sameFsTimeSpec (a b : Timespec) : Bool :=
  a.sec = b.sec && (a.nsec = b.nsec || a.nsec = 0 || b.nsec = 0)

def statDifferent (old new : Node) : Bool :=
  old.mode ≠ new.mode || old.uid ≠ new.uid || old.gid ≠ new.gid || old.rdev ≠ new.rdev ||
    (old.mode &&& sIFDIR ≠ sIFDIR && (!sameFsTimeSpec old.mtim new.mtim || old.size ≠ new.size))

def differs (old new : Node) : Bool :=
  statDifferent old new || old.capability.getD [] ≠ new.capability.getD []

inductive ChangeKind where
  | modify | add | delete
  deriving DecidableEq

structure PathChange where
  path : Str
  kind : ChangeKind
  deriving DecidableEq

/-- The old files that a new file is compared with: those of the old directory, if the new file is
a directory at all. -/
def oldChildren (node : Node) (old : Option (Node × Forest)) : Forest :=
  if node.isDir then (old.map snd).getD .nil else .nil

def deletions (path : Str) (new : Forest) : Forest → List PathChange
  | .nil => []
  | .cons name _ _ rest =>
    if (new.find name).isSome then deletions path new rest
    else ⟨join path name, .delete⟩ :: deletions path new rest

/-- The changes for one file, given those inside it: what the loop over its directory records, and
`addChanges` of the file with the directory entry in front of the rest. -/
def fileChanges (path : Str) (node : Node) (old : Option (Node × Forest))
    (inside : List PathChange) :
    List PathChange :=
  let changed := old.any fun o => differs o.1 node
  let added := changed || old.isNone
  let changes := (if old.isNone then [⟨path, .add⟩] else []) ++ inside
  (if changed then [⟨path, .modify⟩] else []) ++
    if changes ≠ [] ∧ node.isDir ∧ ¬ added ∧ path ≠ ['/'] then ⟨path, .modify⟩ ::
      changes else changes

/-- The loop of `addChanges` over the new files of a directory. -/
def childChanges : Str → Forest → Forest → List PathChange
  | _, .nil, _ => []
  | path, .cons name node children rest, old =>
    let p := join path name
    let oldFiles := oldChildren node (old.find name)
    fileChanges p node (old.find name)
      (childChanges p children oldFiles ++ deletions p children oldFiles) ++
      childChanges path rest old

def dirChanges (path : Str) (new old : Forest) : List PathChange :=
  childChanges path new old ++ deletions path new old

/-- `FileInfo.Changes` of the root of `new`: no change is recorded for the root. -/
def changes (new old : Forest) : List PathChange := dirChanges ['/'] new old

/-! ## Well-formed trees -/

/-- The modes that files have; a symlink has all permissions. -/
structure Node.WF (n : Node) : Prop where
  perm_lt : n.perm < 2 ^ 12
  symlink_perm : ∀ target, n.kind = .symlink target → n.perm = 0o777

/-- Names are names of files, not those of whiteouts, and stand for one file; only directories have
files in them. -/
def Forest.WF : Forest → Prop
  | nil => True
  | cons name node children rest =>
    IsName name ∧ hasPrefix name whiteoutPrefix = false ∧ rest.find name = none ∧ node.WF ∧
      (node.kind ≠ .dir → children = nil) ∧ children.WF ∧ rest.WF

theorem and_sIFDIR (m : Nat) : m &&& sIFDIR = (m.testBit 14).toNat * sIFDIR := Nat.and_two_pow m 14

theorem Node.WF.testBit_mode {n : Node} (h : n.WF) : n.mode.testBit 14 = true ↔ n.kind = .dir := by
  rw [mode, Nat.testBit_two_pow_mul_add _ h.perm_lt]
  cases n.kind with
  | dir | reg data | symlink target => simp [Kind.fmt, Nat.testBit]

theorem Node.WF.isDir_iff {n : Node} (h : n.WF) : n.isDir = true ↔ n.kind = .dir := by
  rw [← h.testBit_mode, isDir, and_sIFDIR]
  cases n.mode.testBit 14 <;> decide

theorem Node.WF.mode_inj {n o : Node} (hn : n.WF) (ho : o.WF) (h : n.mode = o.mode) :
    n.kind.fmt = o.kind.fmt ∧ n.perm = o.perm := by
  have := hn.perm_lt
  have := ho.perm_lt
  unfold mode at h
  omega

open Forest

namespace Forest

variable {f new old : Forest}

theorem WF.find (h : f.WF) (hx : f.find x = some (n, c)) :
    IsName x ∧ hasPrefix x whiteoutPrefix = false ∧ n.WF ∧ (n.kind ≠ .dir → c = nil) ∧ c.WF := by
  induction f with
  | nil => cases hx
  | cons name node children rest _ ih =>
    obtain ⟨hname, hwh, -, hnode, hchildren, hwf, hrest⟩ := h
    rw [Forest.find] at hx
    split at hx
    · next he =>
      cases hx
      exact he ▸ ⟨hname, hwh, hnode, hchildren, hwf⟩
    · exact ih hrest hx

theorem sizeOf_lt_of_find (hx : f.find x = some (n, c)) : sizeOf c < sizeOf f := by
  induction f with
  | nil => cases hx
  | cons name node children rest _ ih =>
    rw [find] at hx
    split at hx
    · cases hx
      simp only [cons.sizeOf_spec]
      omega
    · have := ih hx
      simp only [cons.sizeOf_spec]
      omega

theorem get_cons (hxs : xs ≠ []) : f.get (x :: xs) = (f.find x).bind fun c => c.2.get xs := by
  obtain ⟨y, ys, rfl⟩ := exists_cons_of_ne_nil hxs
  rfl

theorem get_singleton : f.get [x] = (f.find x).map fst := rfl

@[simp] theorem find_nil : nil.find x = none := rfl

@[simp] theorem get_nil : nil.get xs = none := by
  cases xs with
  | nil => rfl
  | cons x xs => cases xs <;> rfl

theorem WF.oldChildren (h : ∀ c ∈ o, c.2.WF) (n : Node) : (oldChildren n o).WF := by
  unfold Archive.oldChildren
  split
  · cases o with
    | none => exact trivial
    | some c => exact h c rfl
  · exact trivial

theorem WF.find_oldChildren (h : f.WF) (x : Str) (n : Node) :
    (Archive.oldChildren n (f.find x)).WF :=
  WF.oldChildren (fun _ hc => (h.find hc).2.2.2.2) n

end Forest

/-! ## Which paths change -/

/-- The path, from a directory on, at which a change of the given kind is recorded. -/
inductive Changed : Forest → Forest → List Str → ChangeKind → Prop
  | add {new old : Forest} {x : Str} {n : Node} {c : Forest} : new.find x = some (n, c) →
    old.find x = none →
    Changed new old [x] .add
  | modify {new old : Forest} {x : Str} {n o : Node} {c d : Forest} : new.find x = some (n, c) →
    old.find x = some (o, d) → differs o n = true → Changed new old [x] .modify
  | inside {new old : Forest} {x : Str} {n o : Node} {c d : Forest} {ys : List Str}
    {k : ChangeKind} :
    new.find x = some (n, c) → old.find x = some (o, d) → n.isDir = true → Changed c d ys k →
    Changed new old [x] .modify
  | delete {new old : Forest} {x : Str} {o : Node} {d : Forest} : new.find x = none →
    old.find x = some (o, d) →
    Changed new old [x] .delete
  | deep {new old : Forest} {x : Str} {n : Node} {c : Forest} {ys : List Str} {k : ChangeKind} :
    new.find x = some (n, c) → Changed c (oldChildren n (old.find x)) ys k →
      Changed new old (x :: ys) k

section Members
theorem mem_fileChanges : c ∈ fileChanges path n o ins ↔ c ∈ ins ∨ (o = none ∧ c = ⟨path, .add⟩) ∨
      ∃ o', o = some o' ∧ c = ⟨path, .modify⟩ ∧
        (differs o'.1 n = true ∨ ins ≠ [] ∧ n.isDir = true ∧ path ≠ ['/']) := by
  cases o with
  | none => simp [fileChanges, or_comm]
  | some o =>
    by_cases hd : differs o.1 n = true
    · simp [fileChanges, hd, or_comm]
    · by_cases hi : ins ≠ [] ∧ n.isDir = true ∧ path ≠ ['/']
      · simp [fileChanges, hd, hi, or_comm]
      · have hi' : ¬ (ins ≠ [] ∧ n.isDir = true ∧ ¬ (false || false) = true ∧ path ≠ ['/']) := by
          simpa using hi
        simp only [fileChanges, any_some, hd, isNone_some, nil_append, Bool.false_eq_true, if_false,
          if_neg hi', hi, or_false, and_false, reduceCtorEq, false_and, Option.some.injEq,
            exists_eq_left']

theorem mem_deletions (h : old.WF) : c ∈ deletions path new old ↔
    ∃ x o, old.find x = some o ∧ new.find x = none ∧ c = ⟨join path x, .delete⟩ := by
  induction old with
  | nil => simp [deletions]
  | cons name node children rest _ ih =>
    obtain ⟨-, -, hfresh, -, -, -, hrest⟩ := h
    have ih := ih hrest
    have hne : ∀ {x o}, rest.find x = some o → x ≠ name := fun hx he => by simp [he, hfresh] at hx
    have hmem : (∃ x o, (Forest.cons name node children rest).find x = some o ∧ new.find x = none ∧
        c = ⟨join path x, .delete⟩) ↔
        (new.find name = none ∧ c = ⟨join path name, .delete⟩) ∨ c ∈ deletions path new rest := by
      rw [ih]
      constructor
      · rintro ⟨x, o, hx, hnew, rfl⟩
        rw [find] at hx
        split at hx
        · next he => exact .inl ⟨he ▸ hnew, by rw [he]⟩
        · exact .inr ⟨x, o, hx, hnew, rfl⟩
      · rintro (⟨hnew, rfl⟩ | ⟨x, o, hx, hnew, rfl⟩)
        · exact ⟨name, (node, children), by simp [find], hnew, rfl⟩
        · exact ⟨x, o, by rw [find, if_neg (hne hx), hx], hnew, rfl⟩
    rw [hmem, deletions]
    cases hn : new.find name with
    | none => simp
    | some o => simp

theorem mem_childChanges (h : new.WF) :
    c ∈ childChanges path new old ↔ ∃ x n d, new.find x = some (n, d) ∧
    c ∈ fileChanges (join path x) n (old.find x)
      (dirChanges (join path x) d (oldChildren n (old.find x))) := by
  induction new with
  | nil => simp [childChanges]
  | cons name node children rest _ ih =>
    obtain ⟨-, -, hfresh, -, -, -, hrest⟩ := h
    have hne : ∀ {x o}, rest.find x = some o → x ≠ name := fun hx he => by simp [he, hfresh] at hx
    rw [childChanges, mem_append, ih hrest]
    constructor
    · rintro (hc | ⟨x, n, d, hx, hc⟩)
      · exact ⟨name, node, children, by simp [find], hc⟩
      · exact ⟨x, n, d, by rw [find, if_neg (hne hx), hx], hc⟩
    · rintro ⟨x, n, d, hx, hc⟩
      rw [find] at hx
      split at hx
      · next he =>
        cases hx
        exact .inl (he ▸ hc)
      · exact .inr ⟨x, n, d, hx, hc⟩

/-- `Changes` records what `Changed` says, with the path written out. -/
theorem mem_dirChanges (hnew : new.WF) (hold : old.WF) (hps : Names ps) :
    c ∈ dirChanges (print true ps) new old ↔ ∃ ys k, c = ⟨print true (ps ++ ys), k⟩ ∧
      Changed new old ys k := by
  induction hsize : sizeOf new using Nat.strong_induction_on generalizing new old ps c with
  | _ size ih =>
  subst hsize
  have hjoin : ∀ {x n d}, new.find x = some (n, d) →
      join (print true ps) x = print true (ps ++ [x]) :=
    fun hx => join_name hps (hnew.find hx).1
  -- the changes inside a file of the directory
  have hfile : ∀ {x n d} {c : PathChange}, new.find x = some (n, d) →
      (c ∈ dirChanges (join (print true ps) x) d (oldChildren n (old.find x)) ↔
        ∃ ys k, c = ⟨print true (ps ++ x :: ys), k⟩ ∧
          Changed d (oldChildren n (old.find x)) ys k) := by
    intro x n d c hx
    rw [hjoin hx, ih _ (sizeOf_lt_of_find hx) (hnew.find hx).2.2.2.2 (hold.find_oldChildren x n)
      (forall_mem_concat hps (hnew.find hx).1) rfl]
    simp
  rw [dirChanges, mem_append, mem_childChanges hnew, mem_deletions hold]
  constructor
  · rintro (⟨x, n, d, hx, hc⟩ | ⟨x, ⟨o, d⟩, hx, hn, rfl⟩)
    · rcases mem_fileChanges.1 hc with hc | ⟨ho, rfl⟩ | ⟨⟨o, e⟩, ho, rfl, hdiff⟩
      · obtain ⟨ys, k, rfl, h⟩ := (hfile hx).1 hc
        exact ⟨x :: ys, k, rfl, .deep hx h⟩
      · exact ⟨[x], .add, by rw [hjoin hx], .add hx ho⟩
      · refine ⟨[x], .modify, by rw [hjoin hx], ?_⟩
        rcases hdiff with hdiff | ⟨hne, hdir, -⟩
        · exact .modify hx ho hdiff
        · obtain ⟨c', hc'⟩ := exists_mem_of_ne_nil _ hne
          obtain ⟨ys, k, -, h⟩ := (hfile hx).1 hc'
          have hold' : oldChildren n (old.find x) = e := by simp [oldChildren, hdir, ho]
          exact .inside hx ho hdir (hold' ▸ h)
    · exact ⟨[x], .delete, by rw [join_name hps (hold.find hx).1], .delete hn hx⟩
  · rintro ⟨ys, k, rfl, h⟩
    cases h with
    | add hx ho => exact .inl ⟨_, _, _, hx, mem_fileChanges.2 (.inr (.inl ⟨ho, by rw [hjoin hx]⟩))⟩
    | modify hx ho hdiff =>
      exact .inl ⟨_, _, _, hx, mem_fileChanges.2
        (.inr (.inr ⟨_, ho, by rw [hjoin hx], .inl hdiff⟩))⟩
    | inside hx ho hdir h =>
      refine .inl ⟨_, _, _, hx, mem_fileChanges.2
        (.inr (.inr ⟨_, ho, by rw [hjoin hx], .inr ⟨?_, hdir, ?_⟩⟩))⟩
      · exact ne_nil_of_mem ((hfile hx).2 ⟨_, _, rfl, by simpa [oldChildren, hdir, ho] using h⟩)
      · rw [hjoin hx]
        exact print_ne_root (forall_mem_concat hps (hnew.find hx).1) (by simp)
    | delete hn hx => exact .inr ⟨_, _, hx, hn, by rw [join_name hps (hold.find hx).1]⟩
    | deep hx h => exact .inl ⟨_, _, _, hx, mem_fileChanges.2 (.inl ((hfile hx).2 ⟨_, _, rfl, h⟩))⟩

end Members

/-! ## Changes and the files they are about -/

/-- What a tree keeps of a file when it is taken apart and put together again. -/
def Node.core (n : Node) : Kind × Nat × Int × Int := (n.kind, n.perm, n.uid, n.gid)

def Forest.IsDirAt (f : Forest) (xs : List Str) : Prop :=
  xs = [] ∨ ∃ n, f.get xs = some n ∧ n.kind = .dir

section Facts
variable {new old f : Forest}

theorem Forest.WF.kind_of_get (h : f.WF) (hx : f.find x = some (n, c)) (hn : c.get ys ≠ none) :
    n.kind = .dir := by
  by_contra hk
  rw [(h.find hx).2.2.2.1 hk] at hn
  simp at hn

theorem Forest.get_append (hxs : xs ≠ []) (hys : ys ≠ [])
    (h : f.get (xs ++ ys) = some n) (hf : f.WF) :
    ∃ o, f.get xs = some o ∧ o.kind = .dir := by
  induction xs generalizing f with
  | nil => exact absurd rfl hxs
  | cons x xs ih =>
    rw [cons_append, get_cons (by simp [hys]), bind_eq_some_iff] at h
    obtain ⟨⟨o, c⟩, hx, h⟩ := h
    by_cases hnil : xs = []
    · subst hnil
      exact ⟨o, by simp [get_singleton, hx], hf.kind_of_get hx (ne_none_iff_exists'.2 ⟨n, h⟩)⟩
    · obtain ⟨o', hget, hdir⟩ := ih hnil h (hf.find hx).2.2.2.2
      exact ⟨o', by simpa [get_cons hnil, hx] using hget, hdir⟩

theorem Forest.isDirAt_of_get (h : f.get ys = some n) (hf : f.WF) (hp : xs <+: ys) (hne : xs ≠ ys) :
    f.IsDirAt xs := by
  obtain ⟨zs, rfl⟩ := hp
  by_cases hxs : xs = []
  · exact .inl hxs
  · exact .inr (get_append hxs (fun he => hne (by simp [he])) h hf)

theorem Forest.isDirAt_mono (h : f.IsDirAt ys) (hf : f.WF) (hp : xs <+: ys) : f.IsDirAt xs := by
  by_cases he : xs = ys
  · exact he ▸ h
  · rcases h with rfl | ⟨n, hn, -⟩
    · exact .inl (prefix_nil.1 hp)
    · exact isDirAt_of_get hn hf hp he

theorem Forest.get_eq_none (h : ¬ f.IsDirAt xs) (hf : f.WF) (hp : xs <+: ys) (hne : xs ≠ ys) :
    f.get ys = none := by
  by_contra hn
  obtain ⟨n, hn⟩ := ne_none_iff_exists'.1 hn
  exact h (isDirAt_of_get hn hf hp hne)

theorem Changed.ne_nil (h : Changed new old ys k) : ys ≠ [] := by
  cases h <;> simp

theorem oldChildren_of_isDir {o : Option (Node × Forest)} (h : n.isDir = true) :
    oldChildren n o = (o.map snd).getD .nil := by simp [oldChildren, h]

theorem oldChildren_of_not_isDir {o : Option (Node × Forest)} (h : ¬ n.isDir = true) :
    oldChildren n o = .nil := by
  simp [oldChildren, h]

@[simp] theorem not_changed_nil : ¬ Changed .nil .nil ys k := fun h => by
  cases h <;> simp_all

theorem Changed.names (h : Changed new old ys k) (hnew : new.WF) (hold : old.WF) :
    ∀ y ∈ ys, IsName y ∧ hasPrefix y whiteoutPrefix = false := by
  have hname : ∀ {f : Forest} {x n c}, f.WF → f.find x = some (n, c) → IsName x ∧
      hasPrefix x whiteoutPrefix = false :=
    fun hf hx => ⟨(hf.find hx).1, (hf.find hx).2.1⟩
  induction h with
  | add hx _ | modify hx _ _ | inside hx _ _ _ _ => simpa using hname hnew hx
  | delete _ hx => simpa using hname hold hx
  | deep hx _ ih =>
    rw [forall_mem_cons]
    exact ⟨hname hnew hx, ih (hnew.find hx).2.2.2.2 (hold.find_oldChildren _ _)⟩

theorem Changed.isDirAt_dropLast (h : Changed new old ys k) (hnew : new.WF) (hold : old.WF) :
    new.IsDirAt ys.dropLast := by
  induction h with
  | add _ _ | modify _ _ _ | inside _ _ _ _ _ | delete _ _ => exact .inl rfl
  | @deep new old x n c ys k hx h ih =>
    rw [dropLast_cons_of_ne_nil h.ne_nil]
    rcases ih (hnew.find hx).2.2.2.2 (hold.find_oldChildren _ _) with hnil | ⟨m, hm, hdir⟩
    · refine .inr ⟨n, by simp [hnil, Forest.get_singleton, hx], ?_⟩
      -- a file that is no directory has no changes in it
      by_contra hk
      have hnd : ¬ n.isDir = true := fun hd => hk ((hnew.find hx).2.2.1.isDir_iff.1 hd)
      rw [(hnew.find hx).2.2.2.1 hk, oldChildren_of_not_isDir hnd] at h
      exact not_changed_nil h
    · have hne : ys.dropLast ≠ [] := by
        rintro he
        simp [he, Forest.get] at hm
      exact .inr ⟨m, by simpa [Forest.get_cons hne, hx] using hm, hdir⟩

/-- Deletions are about files that are gone, other changes about files that are there. -/
theorem Changed.get (h : Changed new old ys k) : k = .delete ↔ new.get ys = none := by
  induction h with
  | add hx _ | modify hx _ _ | inside hx _ _ _ _ | delete hx _ => simp [get_singleton, hx]
  | deep hx h ih => simpa [get_cons h.ne_nil, hx] using ih

/-- A file of the new tree that the old tree has not, or has otherwise, is changed. -/
theorem changed_of_get (hnew : new.WF) (hn : new.get ys = some n) (old : Forest)
    (ho : ∀ o, old.get ys = some o → differs o n = true) : ∃ k, Changed new old ys k := by
  induction ys generalizing new old with
  | nil => cases hn
  | cons x ys ih =>
    by_cases hnil : ys = []
    · subst hnil
      rw [get_singleton, map_eq_some_iff] at hn
      obtain ⟨⟨m, c⟩, hx, rfl⟩ := hn
      cases hox : old.find x with
      | none => exact ⟨.add, .add hx hox⟩
      | some p => exact ⟨.modify, .modify hx hox (ho p.1 (by simp [get_singleton, hox]))⟩
    · rw [get_cons hnil, bind_eq_some_iff] at hn
      obtain ⟨⟨m, c⟩, hx, hn⟩ := hn
      have hdir : m.isDir = true := (hnew.find hx).2.2.1.isDir_iff.2
        (hnew.kind_of_get hx (ne_none_iff_exists'.2 ⟨n, hn⟩))
      have ho' : ∀ o, (oldChildren m (old.find x)).get ys = some o → differs o n = true := by
        intro o h
        rw [oldChildren_of_isDir hdir] at h
        cases hox : old.find x with
        | none => simp [hox] at h
        | some p => exact ho o (by simpa [get_cons hnil, hox] using h)
      obtain ⟨k, hk⟩ := ih (hnew.find hx).2.2.2.2 hn _ ho'
      exact ⟨k, .deep hx hk⟩

theorem differs_of_kind (hn : n.WF) (ho : o.WF) (h : n.kind.fmt ≠ o.kind.fmt) :
    differs o n = true := by
  have hmode : o.mode ≠ n.mode := fun he => h (ho.mode_inj hn he).1.symm
  simp [differs, statDifferent, hmode]

/-- A file of the old tree that is gone goes with a change of its path or of a former directory on
the way to it. -/
theorem changed_of_gone (hnew : new.WF) (hold : old.WF) (hn : new.get ys = none)
    (ho : old.get ys = some o) :
    ∃ zs k, zs <+: ys ∧ Changed new old zs k ∧ ¬ new.IsDirAt zs := by
  induction ys generalizing new old with
  | nil => cases ho
  | cons x ys ih =>
    have hstop : ∀ k, Changed new old [x] k → (∀ m c, new.find x = some (m, c) → m.kind ≠ .dir) →
        ∃ zs k, zs <+: x :: ys ∧ Changed new old zs k ∧ ¬ new.IsDirAt zs := by
      refine fun k hk hm => ⟨[x], k, ⟨ys, rfl⟩, hk, ?_⟩
      rintro (he | ⟨m, hget, hdir⟩)
      · simp at he
      · rw [get_singleton, map_eq_some_iff] at hget
        obtain ⟨⟨m', c⟩, hx, rfl⟩ := hget
        exact hm m' c hx hdir
    cases hx : new.find x with
    | none =>
      have hox : ∃ p, old.find x = some p := by
        by_cases hnil : ys = []
        · subst hnil
          rw [get_singleton, map_eq_some_iff] at ho
          exact ho.imp fun _ h => h.1
        · rw [get_cons hnil, bind_eq_some_iff] at ho
          exact ho.imp fun _ h => h.1
      obtain ⟨p, hp⟩ := hox
      exact hstop .delete (.delete hx hp) (by simp [hx])
    | some q =>
      obtain ⟨m, c⟩ := q
      have hnil : ys ≠ [] := by
        rintro rfl
        simp [get_singleton, hx] at hn
      rw [get_cons hnil, hx] at hn
      rw [get_cons hnil, bind_eq_some_iff] at ho
      obtain ⟨⟨o', d⟩, hox, ho⟩ := ho
      by_cases hdir : m.kind = .dir
      · have hisDir := (hnew.find hx).2.2.1.isDir_iff.2 hdir
        have hd : oldChildren m (old.find x) = d := by simp [oldChildren_of_isDir hisDir, hox]
        obtain ⟨zs, k, hp, hk, hnd⟩ := ih (hnew.find hx).2.2.2.2 (hold.find hox).2.2.2.2 hn ho
        have hzs := hk.ne_nil
        refine ⟨x :: zs, k, prefix_cons_inj x |>.2 hp, .deep hx (hd ▸ hk), fun h => hnd (.inr ?_)⟩
        rcases h with he | ⟨m', hm', hd'⟩
        · simp at he
        · exact ⟨m', by simpa [get_cons hzs, hx] using hm', hd'⟩
      · have hodir : o'.kind = .dir := hold.kind_of_get hox (ne_none_iff_exists'.2 ⟨o, ho⟩)
        have hfmt : m.kind.fmt ≠ o'.kind.fmt := by
          rw [hodir]
          cases hm : m.kind with
          | dir => exact absurd hm hdir
          | reg data | symlink target => simp [Kind.fmt]
        refine hstop .modify (.modify hx hox
          (differs_of_kind (hnew.find hx).2.2.1 (hold.find hox).2.2.1 hfmt)) ?_
        intro m' c' he
        rw [hx] at he
        cases he
        exact hdir

/-- Files that are not directories and that the comparison takes for equal have equal contents. -/
def SameContent (new old : Forest) : Prop := ∀ ys n o, new.get ys = some n → old.get ys = some o →
  n.kind ≠ .dir → o.kind ≠ .dir → differs o n = false → o.kind = n.kind

theorem Forest.WF.get (h : f.WF) (hn : f.get ys = some n) : n.WF := by
  induction ys generalizing f with
  | nil => cases hn
  | cons x ys ih =>
    by_cases hnil : ys = []
    · subst hnil
      rw [get_singleton, map_eq_some_iff] at hn
      obtain ⟨⟨m, c⟩, hx, rfl⟩ := hn
      exact (h.find hx).2.2.1
    · rw [get_cons hnil, bind_eq_some_iff] at hn
      obtain ⟨⟨m, c⟩, hx, hn⟩ := hn
      exact ih (h.find hx).2.2.2.2 hn

theorem core_of_not_differs (hn : n.WF) (ho : o.WF) (h : differs o n = false)
    (hsame : n.kind ≠ .dir → o.kind ≠ .dir → o.kind = n.kind) : o.core = n.core := by
  have hfields : o.mode = n.mode ∧ o.uid = n.uid ∧ o.gid = n.gid := by
    simp only [differs, statDifferent, Bool.or_eq_false_iff, decide_eq_false_iff_not,
      ne_eq, not_not] at h
    exact ⟨h.1.1.1.1.1, h.1.1.1.1.2, h.1.1.1.2⟩
  obtain ⟨hfmt, hperm⟩ := ho.mode_inj hn hfields.1
  have hkind : o.kind = n.kind := by
    cases hk : o.kind with
    | dir =>
      rw [hk] at hfmt
      cases hk' : n.kind with
      | dir => rfl
      | reg data | symlink target => simp [hk', Kind.fmt] at hfmt
    | reg data | symlink target =>
      rw [← hk]
      refine hsame (fun hk' => ?_) (by simp [hk])
      simp [hk, hk', Kind.fmt] at hfmt
  simp [Node.core, hkind, hperm, hfields]

/-- A path is the same in both trees when it is not changed and the changes on the way to it leave
directories. -/
theorem core_of_unchanged (hnew : new.WF) (hold : old.WF) (hsame : SameContent new old)
    (h : ∀ zs k, zs <+: ys → Changed new old zs k → zs ≠ ys ∧ new.IsDirAt zs) :
    (old.get ys).map Node.core = (new.get ys).map Node.core := by
  cases hn : new.get ys with
  | none =>
    cases ho : old.get ys with
    | none => rfl
    | some o =>
      obtain ⟨zs, k, hp, hk, hnd⟩ := changed_of_gone hnew hold hn ho
      exact absurd (h zs k hp hk).2 hnd
  | some n =>
    have hno : ∀ k, ¬ Changed new old ys k := fun k hk => (h ys k (prefix_refl ys) hk).1 rfl
    cases ho : old.get ys with
    | none =>
      obtain ⟨k, hk⟩ := changed_of_get hnew hn old (by simp [ho])
      exact absurd hk (hno k)
    | some o =>
      have hd : differs o n = false := by
        by_contra hd
        obtain ⟨k, hk⟩ := changed_of_get hnew hn old (by simpa [ho] using hd)
        exact hno k hk
      have hcore := core_of_not_differs (hnew.get hn) (hold.get ho) hd fun h₁ h₂ =>
        hsame ys n o hn ho h₁ h₂ hd
      simp [hcore]

end Facts

/-! ## No path is recorded twice -/

section Nodup
variable {new old : Forest}

theorem nodup_fileChanges (h : (ins.map PathChange.path).Nodup)
    (hp : path ∉ ins.map PathChange.path) :
    ((fileChanges path n o ins).map PathChange.path).Nodup := by
  have hcons : ∀ k, ((⟨path, k⟩ :: ins).map PathChange.path).Nodup := fun _ =>
    nodup_cons.2 ⟨hp, h⟩
  cases o with
  | none => simpa [fileChanges] using hcons .add
  | some o =>
    by_cases hd : differs o.1 n = true
    · simpa [fileChanges, hd] using hcons .modify
    · simp only [fileChanges, any_some, hd, isNone_some, nil_append, Bool.false_eq_true, if_false]
      split
      · exact hcons .modify
      · exact h

theorem nodup_deletions (hold : old.WF) (hps : Names ps) :
    ((deletions (print true ps) new old).map PathChange.path).Nodup := by
  induction old with
  | nil => exact .nil
  | cons name node children rest _ ih =>
    obtain ⟨hname, -, hfresh, -, -, -, hrest⟩ := hold
    rw [deletions]
    split
    · exact ih hrest
    · rw [map_cons, nodup_cons]
      refine ⟨fun hmem => ?_, ih hrest⟩
      obtain ⟨c, hc, he⟩ := mem_map.1 hmem
      obtain ⟨x, o, hx, -, rfl⟩ := (mem_deletions hrest).1 hc
      have hxn := (hrest.find hx).1
      rw [join_name hps hname, join_name hps hxn] at he
      have := print_inj (forall_mem_concat hps hxn) (forall_mem_concat hps hname) he
      simp only [append_cancel_left_eq, List.cons.injEq, and_true] at this
      simp [this, hfresh] at hx

/-- The changes of the loop are below the new files of the directory. -/
theorem path_of_mem_childChanges (hnew : new.WF) (hold : old.WF) (hps : Names ps)
    (hc : c ∈ childChanges (print true ps) new old) :
    ∃ x ys, new.find x ≠ none ∧ (∀ y ∈ x :: ys, IsName y) ∧
      c.path = print true (ps ++ x :: ys) := by
  obtain ⟨x, n, d, hx, hc⟩ := (mem_childChanges hnew).1 hc
  have hname := (hnew.find hx).1
  have hne : new.find x ≠ none := by simp [hx]
  rw [join_name hps hname] at hc
  rcases mem_fileChanges.1 hc with hc | ⟨-, rfl⟩ | ⟨-, -, rfl, -⟩
  · have hold' := hold.find_oldChildren x n
    obtain ⟨ys, k, rfl, h⟩ := (mem_dirChanges (hnew.find hx).2.2.2.2 hold'
      (forall_mem_concat hps hname)).1 hc
    refine ⟨x, ys, hne, forall_mem_cons.2 ⟨hname, fun y hy => ?_⟩, by simp⟩
    exact (h.names (hnew.find hx).2.2.2.2 hold' y hy).1
  · exact ⟨x, [], hne, by simpa using hname, rfl⟩
  · exact ⟨x, [], hne, by simpa using hname, rfl⟩

theorem head_inj (hps : Names ps) (hx : ∀ z ∈ x :: xs, IsName z)
    (hy : ∀ z ∈ y :: ys, IsName z) (h : print true (ps ++ x :: xs) = print true (ps ++ y :: ys)) :
    x = y := by
  have hall : ∀ {zs : List Str}, (Names zs) → ∀ z ∈ ps ++ zs, IsName z := fun hzs z hz =>
    (mem_append.1 hz).elim (hps z) (hzs z)
  exact (List.cons.inj (append_cancel_left (print_inj (hall hx) (hall hy) h))).1

theorem nodup_dirChanges (hnew : new.WF) (hold : old.WF) (hps : Names ps)
    (h : ((childChanges (print true ps) new old).map PathChange.path).Nodup) :
    ((dirChanges (print true ps) new old).map PathChange.path).Nodup := by
  rw [dirChanges, map_append, nodup_append]
  refine ⟨h, nodup_deletions hold hps, ?_⟩
  rintro _ hmem _ hmem' he
  obtain ⟨c, hc, rfl⟩ := mem_map.1 hmem
  obtain ⟨c', hc', rfl⟩ := mem_map.1 hmem'
  obtain ⟨x, ys, hx, hnames, hcp⟩ := path_of_mem_childChanges hnew hold hps hc
  obtain ⟨y, o, hy, hno, rfl⟩ := (mem_deletions hold).1 hc'
  have hyn := (hold.find hy).1
  rw [hcp, join_name hps hyn] at he
  exact hx (head_inj hps hnames (by simpa using hyn) he ▸ hno)

theorem nodup_childChanges (hnew : new.WF) (hold : old.WF) (hps : Names ps) :
    ((childChanges (print true ps) new old).map PathChange.path).Nodup := by
  induction new generalizing old ps with
  | nil => exact .nil
  | cons name node children rest ihc ihr =>
    obtain ⟨hname, -, hfresh, -, -, hchildren, hrest⟩ := hnew
    have hps' := forall_mem_concat hps hname
    have hold' := hold.find_oldChildren name node
    rw [childChanges, map_append, nodup_append]
    rw [join_name hps hname]
    have hins := nodup_dirChanges hchildren hold' hps' (ihc hchildren hold' hps')
    -- the changes inside the file are below it
    have hpath : ∀ c ∈ dirChanges (print true (ps ++ [name])) children
        (oldChildren node (old.find name)),
        ∃ ys, ys ≠ [] ∧ (Names ys) ∧ c.path = print true (ps ++ name :: ys) := by
      intro c hc
      obtain ⟨ys, k, rfl, h⟩ := (mem_dirChanges hchildren hold' hps').1 hc
      exact ⟨ys, h.ne_nil, fun y hy => (h.names hchildren hold' y hy).1, by simp⟩
    refine ⟨nodup_fileChanges hins fun hmem => ?_, ihr hrest hold hps, ?_⟩
    · obtain ⟨c, hc, he⟩ := mem_map.1 hmem
      obtain ⟨ys, hne, hnames, hcp⟩ := hpath c hc
      rw [hcp] at he
      have hall : ∀ z ∈ ps ++ name :: ys, IsName z := fun z hz =>
        (mem_append.1 hz).elim (hps z) fun hz => (mem_cons.1 hz).elim (· ▸ hname) (hnames z)
      have := print_inj hall hps' he
      simp [hne] at this
    · rintro _ hmem _ hmem' he
      obtain ⟨c, hc, rfl⟩ := mem_map.1 hmem
      obtain ⟨c', hc', rfl⟩ := mem_map.1 hmem'
      obtain ⟨x, ys, hx, hnames, hcp⟩ := path_of_mem_childChanges hrest hold hps hc'
      have hc₁ : ∃ zs, (∀ z ∈ name :: zs, IsName z) ∧ c.path = print true (ps ++ name :: zs) := by
        rcases mem_fileChanges.1 hc with hc | ⟨-, rfl⟩ | ⟨-, -, rfl, -⟩
        · obtain ⟨ys, -, hys, hcp⟩ := hpath c hc
          exact ⟨ys, forall_mem_cons.2 ⟨hname, hys⟩, hcp⟩
        · exact ⟨[], by simpa using hname, rfl⟩
        · exact ⟨[], by simpa using hname, rfl⟩
      obtain ⟨zs, hzs, hcp₁⟩ := hc₁
      rw [hcp₁, hcp] at he
      exact hx (head_inj hps hzs hnames he ▸ hfresh)

theorem nodup_changes (hnew : new.WF) (hold : old.WF) :
    ((changes new old).map PathChange.path).Nodup :=
  nodup_dirChanges hnew hold (by simp [Names])
    (nodup_childChanges hnew hold (by simp [Names]) :
      ((childChanges (print true []) new old).map PathChange.path).Nodup)

theorem mem_changes (hnew : new.WF) (hold : old.WF) :
    c ∈ changes new old ↔ ∃ ys k, c = ⟨print true ys, k⟩ ∧ Changed new old ys k :=
  mem_dirChanges hnew hold (by simp : ∀ p ∈ ([] : List Str), IsName p)

end Nodup

end Docker.Archive
