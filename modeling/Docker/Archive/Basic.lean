import Docker.Lib.Filepath
import Docker.Lib.Prog

/-!
# Writing the entries of a tar archive

`pkg/archive/archive.go`, `pkg/archive/archive_unix.go` and `pkg/idtools/idtools.go`: tar headers,
the file system calls that unpacking makes, and `createTarFile`, as programs over those calls. The
answers are left open here.
-/

namespace Docker.Archive

open Filepath

/-- The bytes of a file, of an extended attribute or of a name. -/
abbrev Content := List UInt8

inductive Typeflag where
  | reg | regA | link | symlink | char | block | dir | fifo | xGlobalHeader
  | other (code : Nat)
  deriving DecidableEq

/-- A tar header. Times are nanoseconds. -/
structure Header where
  name : Str
  typeflag : Typeflag := .regA
  linkname : Str := []
  mode : Nat := 0
  uid : Int := 0
  gid : Int := 0
  size : Int := 0
  modTime : Int := 0
  accessTime : Int := 0
  xattrs : List (String × Content) := []
  devmajor : Int := 0
  devminor : Int := 0
  deriving DecidableEq

/-- The permission, set-id and sticky bits of `hdr.FileInfo().Mode()`. -/
def Header.perm (hdr : Header) : Nat := hdr.mode % 0o10000

/-- The last access is never before the last modification. -/
def Header.aTime (hdr : Header) : Int :=
  if hdr.accessTime < hdr.modTime then hdr.modTime else hdr.accessTime

/-- An archive is its entries, and the error other than the end of the archive that reading it
runs into behind them. -/
structure Layer where
  entries : List (Header × Content)
  broken : Bool := false

/-! ## File system calls -/

inductive Errno where
  | notExist | exist | notDir | notSup | notSupportedPlatform
  | other (code : Nat)
  deriving DecidableEq

structure Info where
  isDir : Bool
  isSymlink : Bool := false
  deriving DecidableEq

inductive Change where
  | mkdirAll (path : Str) (perm : Nat)
  | removeAll (path : Str)
  | mkdir (path : Str) (perm : Nat)
  /-- Open with `O_CREATE|O_WRONLY` and copy the data into the file. -/
  | writeFile (path : Str) (perm : Nat) (data : Content)
  | mknod (path : Str) (typeflag : Typeflag) (perm : Nat) (major minor : Int)
  | link (target path : Str)
  | symlink (target path : Str)
  | lchown (path : Str) (uid gid : Int)
  | lsetxattr (path : Str) (key : String) (value : Content)
  | chmod (path : Str) (perm : Nat)
  | chtimes (path : Str) (atime mtime : Int)
  | lutimes (path : Str) (atime mtime : Int)

/-- The calls. `temp` marks changes in the temporary directory for links into aufs metadata. -/
inductive Call where
  | lstat (path : Str)
  | readDirNames (path : Str)
  | tempDir (pattern : String)
  | readFile (path : Str)
  | change (temp : Bool) (c : Change)

abbrev Call.Answer : Call → Type
  | .lstat _ => Except Errno Info
  | .readDirNames _ => Except Errno (List Str)
  | .tempDir _ => Except Errno Str
  | .readFile _ => Except Errno Content
  | .change _ _ => Except Errno Unit

inductive Error where
  | errno (e : Errno)
  /-- Reading the archive failed. -/
  | read
  /-- The breakout errors: `name is outside of dest`, `invalid hardlink target -> linkname` and
  `invalid symlink path -> linkname`. -/
  | outside (name dest : Str)
  | invalidHardlink (target linkname : Str)
  | invalidSymlink (path linkname : Str)
  | unhandled (typeflag : Typeflag)
  | invalidAufsHardlink
  | noHostID (contID : Int)
  | noRel (base targ : Str)
  deriving DecidableEq

/-- Programs that call the file system and can fail. -/
abbrev Act := ExceptT Error (Prog Call Call.Answer)

def call (c : Call) : Act c.Answer := Prog.ask c

def raise {α : Type} : Except Errno α → Act α
  | .ok a => pure a
  | .error e => throw (.errno e)

def change (temp : Bool) (c : Change) : Act Unit := do raise (← call (.change temp c))

/-! ## User and group ids -/

structure IDMap where
  containerID : Int
  hostID : Int
  size : Int
  deriving DecidableEq

def toHost (contID : Int) : Option (List IDMap) → Except Error Int
  | none => .ok contID
  | some idMap =>
    match idMap.find? fun m => m.containerID ≤ contID ∧ contID ≤ m.containerID + m.size - 1 with
    | some m => .ok (m.hostID + (contID - m.containerID))
    | none => .error (.noHostID contID)

structure Options where
  uidMaps : Option (List IDMap) := none
  gidMaps : Option (List IDMap) := none

def getRootID (idMap : Option (List IDMap)) : Except Error Int :=
  if idMap.isSome then toHost 0 idMap else .ok 0

def getRootUIDGID (uidMap gidMap : Option (List IDMap)) : Except Error (Int × Int) := do
  let uid ← getRootID uidMap
  let gid ← getRootID gidMap
  pure (uid, gid)

/-! ## `createTarFile` -/

/-- The failures of `createTarFile` that the file system has no part in: unknown types, and links
that leave the directory. -/
def rejected (path extractDir : Str) (hdr : Header) : Option Error :=
  match hdr.typeflag with
  | .link =>
    let targetPath := join extractDir hdr.linkname
    if hasPrefix targetPath extractDir then none
      else some (.invalidHardlink targetPath hdr.linkname)
  | .symlink =>
    let targetPath := join (dir path) hdr.linkname
    if hasPrefix targetPath extractDir then none else some (.invalidSymlink path hdr.linkname)
  | .other code => some (.unhandled (.other code))
  | _ => none

/-- A directory that is there already is merged with. -/
def makeDir (temp : Bool) (path : Str) (perm : Nat) : Act Unit := do
  match ← call (.lstat path) with
  | .ok fi => if fi.isDir then pure () else change temp (.mkdir path perm)
  | .error _ => change temp (.mkdir path perm)

def makeFile (temp : Bool) (path extractDir : Str) (hdr : Header) (data : Content) : Act Unit :=
  match hdr.typeflag with
  | .dir => makeDir temp path hdr.perm
  | .reg | .regA => change temp (.writeFile path hdr.perm data)
  | .block | .char | .fifo =>
    change temp (.mknod path hdr.typeflag hdr.perm hdr.devmajor hdr.devminor)
  | .link => change temp (.link (join extractDir hdr.linkname) path)
  | .symlink => change temp (.symlink hdr.linkname path)
  | .xGlobalHeader | .other _ => pure ()

/-- An extended attribute that the file system has no support for is left out. -/
def setXattr (temp : Bool) (path : Str) (xattr : String × Content) : Act Unit := do
  match ← call (.change temp (.lsetxattr path xattr.1 xattr.2)) with
  | .error .notSup => pure ()
  | r => raise r

/-- Whether the target of a hard link, found from the working directory, is there and no symlink. -/
def linksToFile (hdr : Header) : Act Bool := do
  match ← call (.lstat hdr.linkname) with
  | .ok fi => pure !fi.isSymlink
  | .error _ => pure false

def handleLChmod (temp : Bool) (hdr : Header) (path : Str) : Act Unit := do
  if hdr.typeflag = .link then
    if ← linksToFile hdr then change temp (.chmod path hdr.perm)
  else if hdr.typeflag ≠ .symlink then
    change temp (.chmod path hdr.perm)

def setTimes (temp : Bool) (hdr : Header) (path : Str) : Act Unit := do
  if hdr.typeflag = .link then
    if ← linksToFile hdr then change temp (.chtimes path hdr.aTime hdr.modTime)
  else if hdr.typeflag ≠ .symlink then
    change temp (.chtimes path hdr.aTime hdr.modTime)
  else
    match ← call (.change temp (.lutimes path hdr.aTime hdr.modTime)) with
    | .error .notSupportedPlatform => pure ()
    | r => raise r

def setOwner (temp : Bool) (hdr : Header) (path : Str) (lchown : Bool)
    (chownOpts : Option (Int × Int)) :
    Act Unit :=
  if lchown then change temp (.lchown path (chownOpts.getD (hdr.uid, hdr.gid)).1
    (chownOpts.getD (hdr.uid, hdr.gid)).2)
  else pure ()

/-- The mode is set after the owner, as a change of the owner can modify the mode. -/
def setMetadata (temp : Bool) (hdr : Header) (path : Str) (lchown : Bool)
    (chownOpts : Option (Int × Int)) :
    Act Unit := do
  setOwner temp hdr path lchown chownOpts
  hdr.xattrs.forM (setXattr temp path)
  handleLChmod temp hdr path
  setTimes temp hdr path

/-- Global headers of the archive are ignored. -/
def createTarFile (temp : Bool) (path extractDir : Str) (hdr : Header) (data : Content)
    (lchown : Bool) (chownOpts : Option (Int × Int)) : Act Unit :=
  match rejected path extractDir hdr with
  | some e => throw e
  | none => do
    makeFile temp path extractDir hdr data
    if hdr.typeflag = .xGlobalHeader then pure () else setMetadata temp hdr path lchown chownOpts

end Docker.Archive
