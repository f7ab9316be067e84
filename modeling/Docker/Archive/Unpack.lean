import Docker.Archive.Basic

/-!
# `UnpackLayer`

`pkg/archive/diff.go`: a layer is unpacked entry by entry over what the destination already holds.
`fuel` bounds the depth of `filepath.Walk`, and every result is for all values of it. Closing files
and removing the temporary directory at the end are left out.
-/

namespace Docker.Archive

open Filepath

def whiteoutPrefix : Str := ['.', 'w', 'h', '.']
def whiteoutMetaPrefix : Str := whiteoutPrefix ++ whiteoutPrefix
def whiteoutLinkDir : Str := whiteoutMetaPrefix ++ ['p', 'l', 'n', 'k']
def whiteoutOpaqueDir : Str := whiteoutMetaPrefix ++ ['.', 'o', 'p', 'q']

/-! ## `filepath.Walk` -/

/-- `walk` of `filepath.Walk` for a function that never answers `SkipDir`. -/
def walk (fn : Str → Option Errno → Act Unit) : Nat → Str → Info → Act Unit
  | 0, _, _ => pure ()
  | fuel + 1, path, info => do
    fn path none
    if info.isDir then
      match ← call (.readDirNames path) with
      | .error e => fn path (some e)
      | .ok names => names.forM fun name => do
        let filename := join path name
        match ← call (.lstat filename) with
        | .error e => fn filename (some e)
        | .ok fileInfo => walk fn fuel filename fileInfo

def walkRoot (fn : Str → Option Errno → Act Unit) (fuel : Nat) (root : Str) : Act Unit := do
  match ← call (.lstat root) with
  | .error e => fn root (some e)
  | .ok info => walk fn fuel root info

/-! ## The loop -/

structure Vars where
  size : Int := 0
  dirs : List Header := []
  unpackedPaths : List Str := []
  aufsTempdir : Str := []
  aufsHardlinks : Str → Option Header := fun _ => none

def ensureParent (dest name : Str) : Act Unit := do
  unless ['/'].isSuffixOf name do
    let parentPath := join dest (dir name)
    match ← call (.lstat parentPath) with
    | .error .notExist => change false (.mkdirAll parentPath 0o600)
    | _ => pure ()

/-- The temporary directory, made when it is first needed. -/
def linkTempdir (v : Vars) : Act Str := do
  if v.aufsTempdir = [] then raise (← call (.tempDir "dockerplnk")) else pure v.aufsTempdir

/-- A regular file of the aufs link directory goes to the temporary directory. -/
def saveLink (dest : Str) (hdr : Header) (data : Content) (v : Vars) : Act Vars := do
  let tempdir ← linkTempdir v
  createTarFile true (join tempdir (base hdr.name)) dest hdr data true none
  pure { v with
    aufsTempdir := tempdir
    aufsHardlinks := Function.update v.aufsHardlinks (base hdr.name) (some hdr) }

/-- What the walk over an opaque directory does at each path. -/
def removeStale (dir : Str) (unpackedPaths : List Str) (path : Str) : Option Errno → Act Unit
  | some e => if e = .notExist then pure () else throw (.errno e)
  | none =>
    if path = dir then pure ()
    else if path ∈ unpackedPaths then pure ()
    else change false (.removeAll path)

def whiteout (fuel : Nat) (path : Str) (v : Vars) : Act Unit := do
  let dir := dir path
  if base path = whiteoutOpaqueDir then
    let _ ← raise (← call (.lstat dir))
    walkRoot (removeStale dir v.unpackedPaths) fuel dir
  else
    let originalBase := (base path).drop whiteoutPrefix.length
    change false (.removeAll (join dir originalBase))

def Header.isAufsLink (hdr : Header) : Bool :=
  hdr.typeflag = .link && hasPrefix (clean hdr.linkname) whiteoutLinkDir

/-- The remapped root is not mapped again. -/
def mapID (id root : Int) (idMap : Option (List IDMap)) : Except Error Int :=
  if id ≠ root then toHost id idMap else .ok id

def mapOwner (options : Options) (root : Int × Int) (hdr : Header) : Except Error Header := do
  let uid ← mapID hdr.uid root.1 options.uidMaps
  let gid ← mapID hdr.gid root.2 options.gidMaps
  pure { hdr with uid := uid, gid := gid }

def srcHeader (aufsHardlinks : Str → Option Header) (hdr : Header) : Except Error Header :=
  if hdr.isAufsLink then
    match aufsHardlinks (base hdr.linkname) with
    | some srcHdr => .ok srcHdr
    | none => .error .invalidAufsHardlink
  else .ok hdr

def srcData (hdr : Header) (data : Content) (v : Vars) : Act Content := do
  if hdr.isAufsLink then raise (← call (.readFile (join v.aufsTempdir (base hdr.linkname))))
    else pure data

/-- The links after an entry: `srcHdr` is a reference, so the mapped owner stays with the saved
header. -/
def Header.relink (hdr srcHdr : Header) (aufsHardlinks : Str → Option Header) :
    Str → Option Header :=
  if hdr.isAufsLink then Function.update aufsHardlinks (base hdr.linkname) (some srcHdr)
    else aufsHardlinks

def raiseError {α : Type} : Except Error α → Act α
  | .ok a => pure a
  | .error e => throw e

/-- Remove what is at the path, except for a directory that the entry is merged with. -/
def clearPath (path : Str) (typeflag : Typeflag) : Act Unit := do
  match ← call (.lstat path) with
  | .ok fi => unless fi.isDir && typeflag = .dir do change false (.removeAll path)
  | .error _ => pure ()

def extract (dest : Str) (options : Options) (root : Int × Int) (path : Str) (hdr : Header)
    (data : Content) (v : Vars) : Act Vars := do
  clearPath path hdr.typeflag
  let srcHdr ← raiseError (srcHeader v.aufsHardlinks hdr)
  let reader ← srcData hdr data v
  let srcHdr ← raiseError (mapOwner options root srcHdr)
  createTarFile false path dest srcHdr reader true none
  pure { v with
    dirs := if hdr.typeflag = .dir then v.dirs ++ [hdr] else v.dirs
    unpackedPaths := path :: v.unpackedPaths
    aufsHardlinks := hdr.relink srcHdr v.aufsHardlinks }

/-- Aufs metadata is skipped, the mark of an opaque directory at the top excepted. -/
def isSkipped (name : Str) : Bool := hasPrefix name whiteoutMetaPrefix && name != whiteoutOpaqueDir

/-- Whether a skipped entry can be the target of a hard link. -/
def isLinkTarget (hdr : Header) : Bool := hasPrefix hdr.name whiteoutLinkDir && hdr.typeflag = .reg

def unpackPath (fuel : Nat) (dest : Str) (options : Options) (root : Int × Int) (path : Str)
    (hdr : Header) (data : Content) (v : Vars) : Act Vars :=
  match rel dest path with
  | none => throw (.noRel dest path)
  | some r =>
    if hasPrefix r (dotdot ++ ['/']) then throw (.outside hdr.name dest)
    else if hasPrefix (base path) whiteoutPrefix then do
      whiteout fuel path v
      pure v
    else extract dest options root path hdr data v

/-- One turn of the loop, for a header with a cleaned name. -/
def unpackHeader (fuel : Nat) (dest : Str) (options : Options) (root : Int × Int) (hdr : Header)
    (data : Content) (v : Vars) : Act Vars := do
  ensureParent dest hdr.name
  if isSkipped hdr.name then
    if isLinkTarget hdr then saveLink dest hdr data v else pure v
  else unpackPath fuel dest options root (join dest hdr.name) hdr data v

def Header.cleaned (hdr : Header) : Header := { hdr with name := clean hdr.name }

def unpackEntry (fuel : Nat) (dest : Str) (options : Options) (root : Int × Int)
    (entry : Header × Content) (v : Vars) : Act Vars :=
  unpackHeader fuel dest options root entry.1.cleaned entry.2
    { v with size := v.size + entry.1.size }

def unpackEntries (fuel : Nat) (dest : Str) (options : Options) (root : Int × Int) :
    List (Header × Content) → Vars → Act Vars
  | [], v => pure v
  | entry :: entries, v => do
    let v ← unpackEntry fuel dest options root entry v
    unpackEntries fuel dest options root entries v

def setDirTimes (dest : Str) (hdr : Header) : Act Unit :=
  change false (.chtimes (join dest hdr.name) hdr.accessTime hdr.modTime)

def unpackLayer (fuel : Nat) (dest : Str) (layer : Layer) (options : Options) : Act Int := do
  let root ← raiseError (getRootUIDGID options.uidMaps options.gidMaps)
  let v ← unpackEntries fuel dest options root layer.entries {}
  raiseError (if layer.broken then .error .read else .ok ())
  -- at the end, as making files in a directory changes its times
  v.dirs.forM (setDirTimes dest)
  pure v.size

end Docker.Archive
