import Docker.Lib.Stream

/-!
# The stdcopy multiplexer

`pkg/stdcopy`: `StdWriter.write` puts one payload on the connection behind a header of eight bytes,
and `stdCopy` takes such a connection apart again, through one growing buffer that it fills, parses
at the front and shifts.

A buffer is the Go slice `buf` with `nr`, the number of bytes read into it so far. `bufLen` is the
length of the slice at every point of the loop. Go's `int` has 64 bits here.
-/

namespace Docker.Stdcopy
open Stream

inductive StdType where
  | stdin
  | stdout
  | stderr
  deriving DecidableEq

def StdType.toByte : StdType → UInt8
  | .stdin => 0
  | .stdout => 1
  | .stderr => 2

def stdWriterPrefixLen : Nat := 8
def stdWriterFdIndex : Nat := 0
def stdWriterSizeIndex : Nat := 4
def startingBufLen : Nat := 32 * 1024 + stdWriterPrefixLen + 1

/-- `binary.BigEndian.PutUint32(b, uint32(n))`. -/
def putUint32 (n : Nat) : Bytes :=
  [UInt8.ofNat (n / 2 ^ 24), UInt8.ofNat (n / 2 ^ 16), UInt8.ofNat (n / 2 ^ 8), UInt8.ofNat n]

/-- `int(binary.BigEndian.Uint32(b))`; a slice that is too short does not occur. -/
def uint32 : Bytes → Nat
  | b0 :: b1 :: b2 :: b3 :: _ =>
    b0.toNat * 2 ^ 24 + b1.toNat * 2 ^ 16 + b2.toNat * 2 ^ 8 + b3.toNat
  | _ => 0

/-! ## The writer -/

/-- The embedded `io.Writer` can be nil. -/
structure StdWriter (σ : Type) where
  writer : Option (Writer σ)
  prefixByte : UInt8

def newStdWriter (w : Writer σ) (t : StdType) : StdWriter σ := ⟨some w, t.toByte⟩

def header (prefixByte : UInt8) (n : Nat) : Bytes := [prefixByte, 0, 0, 0] ++ putUint32 n

/-- `stdWriter.Write`. The receiver and the slice can be nil. The count is the one of the writer
below less the header, and truncated subtraction is the test `n < 0` of the source. -/
def StdWriter.write (w : Option (StdWriter σ)) (p : Option Bytes) (s : σ) :
    (Nat × Option Err) × σ :=
  match w with
  | none | some ⟨none, _⟩ => ((0, some (.other "Writer not instantiated")), s)
  | some ⟨some out, prefixByte⟩ =>
    match p with
    | none => ((0, none), s)
    | some p =>
      let ((n, err), s) := out.write (header prefixByte p.length ++ p) s
      ((n - stdWriterPrefixLen, err), s)

/-- What a connection that accepts everything has seen after writes through the `StdWriter` of their
streams. -/
def mux (ws : List (StdType × Bytes)) : Bytes :=
  ws.foldl (fun conn w => (StdWriter.write (some (newStdWriter .sink w.1)) (some w.2) conn).2) []

/-! ## The copier -/

structure Buffer where
  buf : Bytes
  nr : Nat

namespace Buffer

/-- What `src.Read(buf[nr:])` and `nr += nr2` do with the data. -/
def store (b : Buffer) (data : Bytes) : Buffer :=
  { buf := b.buf.take b.nr ++ data ++ b.buf.drop (b.nr + data.length), nr := b.nr + data.length }

/-- `append(buf, make([]byte, frameSize+stdWriterPrefixLen-bufLen+1)...)`, when the frame does not
fit. -/
def extend (b : Buffer) (frameSize : Nat) : Buffer :=
  if frameSize + stdWriterPrefixLen > b.buf.length then
    { b with
      buf := b.buf ++ List.replicate (frameSize + stdWriterPrefixLen - b.buf.length + 1) 0 }
  else b

/-- `copy(buf, buf[n:])` and `nr -= n`: the front is overwritten, the tail stays as it is. -/
def shift (b : Buffer) (n : Nat) : Buffer :=
  { buf := b.buf.drop n ++ b.buf.drop (b.buf.length - n), nr := b.nr - n }

end Buffer

inductive Fill where
  /-- Enough bytes are there. -/
  | full
  /-- The stream ended first. -/
  | short
  | failed (e : Err)
  deriving DecidableEq

/-- The loop `for nr < need { nr2, er = src.Read(buf[nr:]) … }`, which `StdCopy` runs for the
header and again for the frame. `none` means that the fuel did not suffice. -/
def fill (src : Reader ρ) (need : Nat) : Nat → Buffer → ρ → Option (Fill × Buffer × ρ)
  | 0, _, _ => none
  | fuel + 1, b, r =>
    if b.nr < need then
      let ((data, er), r) := src.read (b.buf.length - b.nr) r
      let b := b.store data
      match er with
      | some .eof => some (if b.nr < need then .short else .full, b, r)
      | some e => some (.failed e, b, r)
      | none => fill src need fuel b r
    else some (.full, b, r)

/-- The switch on `buf[stdWriterFdIndex]`: `some true` is `dsterr`, `some false` is `dstout`. -/
def selectOut (fd : UInt8) : Option Bool :=
  if fd = StdType.stdin.toByte ∨ fd = StdType.stdout.toByte then some false
  else if fd = StdType.stderr.toByte then some true
  else none

/-- The variables of `StdCopy` that live across iterations, with the states of the two writers
and of the reader. -/
structure State (σ τ ρ : Type) where
  buffer : Buffer
  written : Nat
  dstout : σ
  dsterr : τ
  src : ρ

def State.output (dstout : Writer σ) (dsterr : Writer τ) (toErr : Bool) (p : Bytes)
    (st : State σ τ ρ) : (Nat × Option Err) × State σ τ ρ :=
  if toErr then
    let (res, w) := dsterr.write p st.dsterr
    (res, { st with dsterr := w })
  else
    let (res, w) := dstout.write p st.dstout
    (res, { st with dstout := w })

/-- The loop of `StdCopy`: the number of bytes written, the error, and the final state. -/
def stdCopyLoop (dstout : Writer σ) (dsterr : Writer τ) (src : Reader ρ) :
    Nat → State σ τ ρ → Option ((Nat × Option Err) × State σ τ ρ)
  | 0, _ => none
  | fuel + 1, st => do
    -- Make sure we have at least a full header
    let (res, b, r) ← fill src stdWriterPrefixLen (fuel + 1) st.buffer st.src
    let st := { st with buffer := b, src := r }
    match res with
    | .short => return ((st.written, none), st)
    | .failed e => return ((0, some e), st)
    | .full =>
    let fd := st.buffer.buf.getD stdWriterFdIndex 0
    match selectOut fd with
    | none => return ((0, some (.other ("Unrecognized input header: " ++ toString fd.toNat))), st)
    | some toErr =>
    let frameSize := uint32 (st.buffer.buf.drop stdWriterSizeIndex)
    let (res, b, r) ← fill src (frameSize + stdWriterPrefixLen) (fuel + 1)
      (st.buffer.extend frameSize) st.src
    let st := { st with buffer := b, src := r }
    match res with
    | .short => return ((st.written, none), st)
    | .failed e => return ((0, some e), st)
    | .full =>
    let ((nw, ew), st) := st.output dstout dsterr toErr
      ((st.buffer.buf.drop stdWriterPrefixLen).take frameSize)
    match ew with
    | some e => return ((0, some e), st)
    | none =>
    if nw ≠ frameSize then return ((0, some .shortWrite), st) else
    stdCopyLoop dstout dsterr src fuel { st with
        written := st.written + nw
        buffer := st.buffer.shift (frameSize + stdWriterPrefixLen) }

def stdCopy (dstout : Writer σ) (dsterr : Writer τ) (src : Reader ρ) (fuel : Nat)
    (out : σ) (err : τ) (r : ρ) : Option ((Nat × Option Err) × State σ τ ρ) :=
  stdCopyLoop dstout dsterr src fuel
    { buffer := ⟨List.replicate startingBufLen 0, 0⟩, written := 0, dstout := out, dsterr := err,
      src := r }

end Docker.Stdcopy
