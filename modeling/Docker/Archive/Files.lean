import Docker.Archive.Changes

/-!
# A file system of directories, files and symlinks

The calls of `Basic` answered by a finite list of files by the elements of their absolute paths.
Symlinks are not followed, there are no devices and no hard links, and the times of directories are
not kept up.
-/

namespace Docker.Archive

open Filepath

/-- The files by their absolute paths. The first entry of a path counts. -/
abbrev Fs := List (List Str × Node)

namespace Fs

def get (fs : Fs) (xs : List Str) : Option Node := (fs.find? fun e => e.1 = xs).map Prod.snd

def set (fs : Fs) (xs : List Str) (n : Node) : Fs := (xs, n) :: fs

/-- Without the file and all that is below it. -/
def remove (fs : Fs) (xs : List Str) : Fs := fs.filter fun e => !xs.isPrefixOf e.1

def isDirAt (fs : Fs) (xs : List Str) : Bool := (fs.get xs).any fun n => n.kind = .dir

/-- Why there is no file: something on the way to it is no directory, or it is missing. -/
def missing (fs : Fs) (xs : List Str) : Errno :=
  if xs.inits.any fun ys => (fs.get ys).any fun n => n.kind ≠ .dir then .notDir else .notExist

def make (fs : Fs) (xs : List Str) (n : Node) : Except Errno Unit × Fs :=
  if (fs.get xs).isSome then (.error .exist, fs)
  else if fs.isDirAt xs.dropLast then (.ok (), fs.set xs n)
  else (.error (fs.missing xs.dropLast), fs)

def modify (fs : Fs) (xs : List Str) (g : Node → Node) : Except Errno Unit × Fs :=
  match fs.get xs with
  | some n => (.ok (), fs.set xs (g n))
  | none => (.error (fs.missing xs), fs)

/-- The directories of a path, from the top, where they are missing. -/
def makeDirs (perm : Nat) : List (List Str) → Fs → Except Errno Unit × Fs
  | [], fs => (.ok (), fs)
  | ys :: yss, fs =>
    match fs.get ys with
    | none => makeDirs perm yss (fs.set ys { kind := .dir, perm := perm })
    | some n => if n.kind = .dir then makeDirs perm yss fs else (.error .notDir, fs)

/-- Write from the start of the file on, without shortening it first. -/
def write (fs : Fs) (xs : List Str) (perm : Nat) (data : Content) : Except Errno Unit × Fs :=
  match fs.get xs with
  | none => fs.make xs { kind := .reg data, perm := perm }
  | some n =>
    match n.kind with
    | .reg before => (.ok (), fs.set xs { n with kind := .reg (data ++ before.drop data.length) })
    | _ => (.error .exist, fs)

def setTime (ns : Int) (n : Node) : Node := { n with mtim := ⟨ns / 1000000000, ns % 1000000000⟩ }

def apply (fs : Fs) : Change → Except Errno Unit × Fs
  | .mkdirAll path perm => fs.makeDirs perm (elements path).inits
  | .removeAll path => (.ok (), fs.remove (elements path))
  | .mkdir path perm => fs.make (elements path) { kind := .dir, perm := perm }
  | .writeFile path perm data => fs.write (elements path) perm data
  | .mknod .. | .link .. => (.error .notSup, fs)
  | .symlink target path => fs.make (elements path) { kind := .symlink target, perm := 0o777 }
  -- the set-id bits of a file go with its owner
  | .lchown path uid gid => fs.modify (elements path) fun n =>
    { n with uid := uid, gid := gid, perm := if n.kind = .dir then n.perm else n.perm % 0o2000 }
  | .lsetxattr path key value => fs.modify (elements path) fun n =>
    if key = "security.capability" then { n with capability := some value } else n
  | .chmod path perm => fs.modify (elements path) fun n => { n with perm := perm }
  | .chtimes path _ mtime | .lutimes path _ mtime => fs.modify (elements path) (setTime mtime)

def info (n : Node) : Info where
  isDir := n.kind = .dir
  isSymlink := match n.kind with
    | .symlink _ => true
    | _ => false

def lstat (fs : Fs) (xs : List Str) : Except Errno Info :=
  match fs.get xs with
  | some n => .ok (info n)
  | none => .error (fs.missing xs)

def readFile (fs : Fs) (xs : List Str) : Except Errno Content :=
  match fs.get xs with
  | some n =>
    match n.kind with
    | .reg data => .ok data
    | _ => .error (.other 0)
  | none => .error (fs.missing xs)

def readDirNames (fs : Fs) (xs : List Str) : Except Errno (List Str) :=
  if fs.isDirAt xs then .ok ((fs.filter fun e => e.1 ≠ [] ∧ e.1.dropLast = xs).filterMap fun e =>
    e.1.getLast?).dedup
  else .error (fs.missing xs)

/-- The answers to the calls. The temporary directory is at a fixed path. -/
def answer : (c : Call) → Fs → c.Answer × Fs
  | .lstat path, fs => (fs.lstat (elements path), fs)
  | .readDirNames path, fs => (fs.readDirNames (elements path), fs)
  | .tempDir _, fs => (.ok ['/', 't', 'm', 'p'], fs)
  | .readFile path, fs => (fs.readFile (elements path), fs)
  | .change _ c, fs => fs.apply c

variable {fs : Fs}

theorem get_cons : get (e :: fs) ys = if e.1 = ys then some e.2 else fs.get ys := by
  unfold get
  split
  · next h => simp [h]
  · next h => simp [h]

theorem get_set : (fs.set xs n).get ys = if ys = xs then some n else fs.get ys := by
  rw [set, get_cons]
  exact if_congr eq_comm rfl rfl

theorem remove_cons : remove (e :: fs) xs = if xs <+: e.1 then fs.remove xs else e ::
    fs.remove xs := by
  rw [remove, List.filter_cons]
  by_cases he : xs <+: e.1
  · rw [if_pos he, List.isPrefixOf_iff_prefix.2 he]
    rfl
  · have hb : xs.isPrefixOf e.1 = false :=
      Bool.eq_false_iff.2 fun h => he (List.isPrefixOf_iff_prefix.1 h)
    rw [if_neg he, hb]
    rfl

theorem get_remove : (fs.remove xs).get ys = if xs <+: ys then none else fs.get ys := by
  induction fs with
  | nil => simp [remove, get]
  | cons e fs ih =>
    rw [remove_cons, get_cons]
    by_cases he : xs <+: e.1
    · rw [if_pos he, ih]
      split
      · rfl
      · next h =>
        have hne : e.1 ≠ ys := fun hy => h (hy ▸ he)
        rw [if_neg hne]
    · rw [if_neg he, get_cons, ih]
      split
      · next hy => rw [if_neg fun h => he (hy ▸ h)]
      · rfl

theorem isDirAt_iff : fs.isDirAt xs = true ↔ ∃ n, fs.get xs = some n ∧ n.kind = .dir := by
  cases h : fs.get xs with
  | none | some n => simp [isDirAt, h]

theorem make_eq (h : fs.get xs = none) (hdir : fs.isDirAt xs.dropLast = true) (n : Node) :
    fs.make xs n = (.ok (), fs.set xs n) := by
  simp [make, h, hdir]

theorem modify_eq (h : fs.get xs = some n) (g : Node → Node) :
    fs.modify xs g = (.ok (), fs.set xs (g n)) := by
  simp [modify, h]

theorem lstat_eq (h : fs.get xs = some n) : fs.lstat xs = .ok (info n) := by simp [lstat, h]

end Fs

end Docker.Archive
