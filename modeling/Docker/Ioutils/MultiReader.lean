import Docker.Ioutils.Buffer
import Docker.Lib.Cursor
import Docker.Lib.Transition

/-!
# `MultiReadSeeker`

Model of `pkg/ioutils/multireader.go`, for distinct readers that never fail: contents with a
position of their own. A reader is its index, so `posIdx` is the identity on readers; it is 0 on the
nil reader, which is not in the map. `MultiReadSeeker` returns a single reader as it is, so there
are none or at least two.
-/

namespace Docker.Ioutils.MultiReader

open Stream (Err Cursor Whence)

inductive Failure where
  | err (e : Err)
  /-- An index that is out of range, or a nil reader. -/
  | panic
  deriving DecidableEq

structure Slice where
  len : Nat
  cap : Nat
  len_le_cap : len ≤ cap
  deriving DecidableEq

structure Pos where
  idx : Nat
  offset : Int
  deriving DecidableEq

structure MultiReadSeeker where
  readers : List Cursor
  pos : Option Pos := none
  deriving DecidableEq

def multiReadSeeker (contents : List Bytes) : MultiReadSeeker where
  readers := contents.map fun content => { content }

def posIdx : Option Nat → Nat
  | some i => i
  | none => 0

/-! ## Sizes -/

def getReadSeekerSize (rdr : Cursor) : Except Err (Int × Cursor) := do
  let (pos, rdr) ← rdr.seek 0 .seekCur
  let (size, rdr) ← rdr.seek 0 .seekEnd
  let (_, rdr) ← rdr.seek pos .seekSet
  return (size, rdr)

/-- The loop of `getCurOffset`, from reader `i` on. -/
def curOffsetFrom (pos : Pos) : Nat → List Cursor → Except Err (Int × List Cursor)
  | _, [] => return (0, [])
  | i, rdr :: rest =>
    if posIdx (some i) = pos.idx then return (pos.offset, rdr :: rest)
    else do
      let (size, rdr) ← getReadSeekerSize rdr
      let (totalSize, rest) ← curOffsetFrom pos (i + 1) rest
      return (size + totalSize, rdr :: rest)

/-- The loop of `getOffsetToReader` for reader `k`, from reader `i` on. It is the size of reader `k`
that is added for each reader before it. -/
def offsetToFrom (k : Nat) (size : Int) : Nat → List Cursor → Int
  | _, [] => 0
  | i, _ :: rest => if i = k then 0 else size + offsetToFrom k size (i + 1) rest

namespace MultiReadSeeker

variable (r : MultiReadSeeker)

/-- The readers after the call are those before it, `getReadSeekerSize` resets their positions. -/
def getCurOffset (pos : Pos) : Except Failure (Int × List Cursor) :=
  if pos.idx < r.readers.length then (curOffsetFrom pos 0 r.readers).mapError .err
    else .error .panic

def getOffsetToReader (k : Nat) (rdr : Cursor) : Except Failure Int := do
  let (size, _) ← (getReadSeekerSize rdr).mapError .err
  return offsetToFrom k size 0 r.readers

/-- The loop of `getReaderForOffset`, from reader `i` on. The reader is assigned to a variable of
the loop, so only the offset in it is returned. -/
def readerForOffsetFrom (offset : Int) : Nat → List Cursor → Except Failure Int
  | _, [] => return 0
  | i, rdr :: rest => do
    let offsetTo ← r.getOffsetToReader i rdr
    if offsetTo > offset then
      -- `r.readers[i-1]`
      if i = 0 then throw .panic else return offsetTo - offset
    else if rest = [] then return offsetTo + offset
    else readerForOffsetFrom offset (i + 1) rest

def getReaderForOffset (offset : Int) : Except Failure (Option Nat × Int) := do
  let rdrOffset ← r.readerForOffsetFrom offset 0 r.readers
  return (none, rdrOffset)

/-! ## `Seek` -/

/-- The loop of `Seek` for `SEEK_SET`, from reader `i` on. -/
def seekSetFrom (offset : Int) : Nat → Int → List Cursor → Except Err (Pos × List Cursor)
  | _, _, [] => throw (.other s!"Error seeking for whence: 0, offset: {offset}")
  | i, tmpOffset, rdr :: rest => do
    let (s, rdr) ← rdr.seek 0 .seekEnd
    if offset > tmpOffset + s then
      if rest = [] then
        let rdrOffset := s + (offset - tmpOffset)
        let (_, rdr) ← rdr.seek rdrOffset .seekSet
        return (⟨i, rdrOffset⟩, [rdr])
      else
        let (pos, rest) ← seekSetFrom offset (i + 1) (tmpOffset + s) rest
        return (pos, rdr :: rest)
    else
      let rdrOffset := offset - tmpOffset
      let readers := rdr.moved rdrOffset .seekSet :: rest.map (·.moved 0 .seekSet)
      return (if rdrOffset = s ∧ rest ≠ [] then ⟨i + 1, 0⟩ else ⟨i, rdrOffset⟩, readers)

def seekSet (offset : Int) : Except Failure Int × MultiReadSeeker :=
  match seekSetFrom offset 0 0 r.readers with
  | .error e => (.error (.err e), r)
  | .ok (pos, readers) => (.ok offset, { readers, pos := some pos })

/-- The loop of `Seek` for `SEEK_END`. -/
def seekEndFrom : List Cursor → Except Err (Int × List Cursor)
  | [] => return (0, [])
  | rdr :: rest => do
    let (s, rdr) ← rdr.seek 0 .seekEnd
    let (tmpOffset, rest) ← seekEndFrom rest
    return (s + tmpOffset, rdr :: rest)

def seekEnd (offset : Int) : Except Failure Int × MultiReadSeeker :=
  match seekEndFrom r.readers with
  | .error e => (.error (.err e), r)
  -- what the inner `Seek` returns is dropped
  | .ok (tmpOffset, readers) =>
    (.ok (tmpOffset + offset), (seekSet { r with readers } (tmpOffset + offset)).2)

def seekCur (offset : Int) : Except Failure Int × MultiReadSeeker :=
  match r.pos with
  | none => r.seekSet offset
  | some pos =>
    match r.getCurOffset pos with
    | .error e => (.error e, r)
    | .ok (curOffset, readers) =>
      let r := { r with readers }
      if offset = 0 then (.ok curOffset, r)
      else
        match r.getReaderForOffset (curOffset + offset) with
        | .error e => (.error e, r)
        | .ok (rdr, rdrOffset) =>
          (.ok (curOffset + offset), { r with pos := some ⟨posIdx rdr, rdrOffset⟩ })

def seek (offset : Int) : Whence → Except Failure Int × MultiReadSeeker
  | .seekSet => r.seekSet offset
  | .seekEnd => r.seekEnd offset
  | .seekCur => r.seekCur offset
  | .invalid whence => (.error (.err (.other s!"Invalid whence: {whence}")), r)

/-! ## `Read` -/

/-- The loop of `Read` from reader `i` on: what was copied, the position of the last reader that was
read, and the readers. -/
def copyFrom : Nat → Nat → List Cursor → Option (Bytes × Pos × List Cursor)
  | _, _, [] => none
  | i, bCap, rdr :: rest =>
    let (data, rdr) := rdr.copyN bCap
    if bCap - data.length = 0 ∨ rest =
      [] then some (data, ⟨posIdx (some i), rdr.offset⟩, rdr :: rest)
    else (copyFrom (i + 1) (bCap - data.length) rest).map fun (data', pos, rest) =>
      (data ++ data', pos, rdr :: rest)

/-- `Read` of a `bytes.Buffer` with these bytes into a slice of length `len`. -/
def bufferRead (buf : Bytes) (len : Nat) : Bytes × Option Err :=
  if buf = [] then if len = 0 then ([], none) else ([], some .eof) else (buf.take len, none)

def read (b : Slice) : Except Failure (Bytes × Option Err) × MultiReadSeeker :=
  let pos := r.pos.getD ⟨0, 0⟩
  match copyFrom pos.idx b.cap (r.readers.drop pos.idx) with
  | none => (.error .panic, { r with pos := some pos })
  | some (buf, pos', rest) =>
    (.ok (bufferRead buf b.len), { readers := r.readers.take pos.idx ++ rest, pos := some pos' })

end MultiReadSeeker

/-! ## Calls -/

inductive Op where
  | seek (offset : Int) (whence : Whence)
  | read (b : Slice)
  deriving DecidableEq

inductive Answer where
  | position (result : Except Failure Int)
  | bytes (result : Except Failure (Bytes × Option Err))
  deriving DecidableEq

def MultiReadSeeker.step : Op → MultiReadSeeker → Answer × MultiReadSeeker
  | .seek offset whence, r => (.position (r.seek offset whence).1, (r.seek offset whence).2)
  | .read b, r => (.bytes (r.read b).1, (r.read b).2)

def single : Op → Cursor → Answer × Cursor
  | .seek offset whence, c =>
    match c.seek offset whence with
    | .ok (position, c) => (.position (.ok position), c)
    | .error e => (.position (.error (.err e)), c)
  | .read b, c => (.bytes (.ok (c.read b.len).1), (c.read b.len).2)

end Docker.Ioutils.MultiReader
