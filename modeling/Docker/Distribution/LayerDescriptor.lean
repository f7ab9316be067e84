import Docker.Layer.ChainID

/-!
# Downloading a layer in several attempts

`v2LayerDescriptor.Download` in `distribution/pull_v2.go`, `retryOnError` in
`distribution/errors.go` and the loop around it in `makeDownloadFunc` of
`distribution/xfer/download.go`. A failed attempt leaves a temporary file and a verifier behind, and
the next attempt goes on with both. The hash functions are a parameter `sum`.
-/

set_option mvcgen.warning false

namespace Docker.Distribution.Blob

open List Option

open Layer (algorithm validateDigest)
open Std.Do

abbrev Bytes := List UInt8

/-! ## Errors -/

/-- The codes of `errcode.Error` that `retryOnError` knows. -/
inductive ErrorCode
  | unauthorized
  | unsupported
  | denied
  | tooManyRequests
  | nameUnknown
  | other (code : Nat)
  deriving DecidableEq

inductive Error
  /-- An empty `errcode.Errors`. -/
  | noErrors
  /-- `errcode.Errors`, by the first of them. -/
  | errors (first : Error)
  | errcode (code : ErrorCode)
  /-- `*url.Error` -/
  | url (err : Error)
  /-- `*client.UnexpectedHTTPResponseError` -/
  | unexpectedHTTPResponse
  /-- `distribution.ErrBlobUnknown` -/
  | blobUnknown
  /-- `transport.ErrWrongCodeForByteRange` -/
  | wrongCodeForByteRange
  /-- `auth.ErrNoBasicAuthCredentials` -/
  | noBasicAuthCredentials
  /-- `auth.ErrNoToken` -/
  | noToken
  /-- An error of `Digest.Validate`. -/
  | invalidDigest
  /-- `filesystem layer verification failed for digest %s` -/
  | verificationFailed (digest : String)
  /-- `os.ErrInvalid`, for an operation on a nil file. -/
  | invalidFile
  /-- `download cancelled during retry delay` -/
  | cancelledDuringDelay
  | other (msg : String)
  /-- `xfer.DoNotRetry` -/
  | doNotRetry (err : Error)
  deriving DecidableEq

def Error.isDoNotRetry : Error → Bool
  | .doNotRetry _ => true
  | _ => false

/-- The text of `syscall.ENOSPC`, in lower case. -/
def noSpace : String := "no space left on device"

def retryOnError : Error → Error
  | .errors first => retryOnError first
  | .errcode code =>
    if code ∈ [.unauthorized, .unsupported, .denied, .tooManyRequests, .nameUnknown]
      then .doNotRetry (.errcode code)
    else .errcode code
  | .url .noBasicAuthCredentials => .doNotRetry .noBasicAuthCredentials
  | .url .noToken => .doNotRetry .noToken
  | .url err => retryOnError err
  | .unexpectedHTTPResponse => .doNotRetry .unexpectedHTTPResponse
  | .other msg => if noSpace.toList <:+: msg.toList then .doNotRetry (.other msg) else .other msg
  -- The texts of the errors that have a name do not tell of a full disk.
  | err => err

/-! ## Files and verifiers -/

structure File where
  content : Bytes := []
  pos : Nat := 0
  deriving DecidableEq

namespace File

/-- Write at the position of the file. A gap behind its end is filled with zeros. -/
def write (f : File) (p : Bytes) : File where
  content := f.content.take f.pos ++ replicate (f.pos - f.content.length) 0 ++ p ++
    f.content.drop (f.pos + p.length)
  pos := f.pos + p.length

def seekStart (f : File) : File := { f with pos := 0 }

def seekEnd (f : File) : File := { f with pos := f.content.length }

/-- `Truncate(0)` leaves the position where it is. -/
def truncate (f : File) : File := { f with content := [] }

def AtEnd (f : File) : Prop := f.pos = f.content.length

theorem AtEnd.write {f : File} (h : f.AtEnd) (p : Bytes) :
    (f.write p).content = f.content ++ p ∧ (f.write p).AtEnd := by
  unfold AtEnd at h
  simp [File.write, AtEnd, h]

end File

/-- A `hashVerifier`, by the bytes that the hash was fed. -/
structure Verifier where
  digest : String
  written : Bytes := []
  deriving DecidableEq

def newDigestVerifier (d : String) : Except Error Verifier :=
  if validateDigest d then .ok { digest := d } else .error .invalidDigest

section
variable (sum : String → Bytes → String)

/-- `NewDigest`, for the hash of some content. -/
def newDigest (alg : String) (content : Bytes) : String := alg ++ ":" ++ sum alg content

def Verifier.verified (v : Verifier) : Bool :=
  v.digest == newDigest sum (algorithm v.digest) v.written

end

/-! ## One attempt -/

inductive TruncateError
  | seek (err : Error)
  | truncate (err : Error)
  deriving DecidableEq

/-- How the operations on the temporary file fail in an attempt. -/
structure FileErrors where
  create : Option Error := none
  seekEnd : Option Error := none
  /-- In `truncateDownloadFile`, for a partial download that is larger than the blob. -/
  startOver : Option TruncateError := none
  /-- In `truncateDownloadFile`, for an attempt that fails. -/
  truncate : Option TruncateError := none
  rewind : Option Error := none
  deriving DecidableEq

/-- What a `Read` returns, and how many bytes of it are written to the file if that fails. -/
structure Chunk where
  bytes : Bytes
  writeErr : Option (Nat × Error) := none
  deriving DecidableEq

/-- What the registry answers in an attempt, and how operations on the temporary file fail. -/
structure Attempt where
  openErr : Option Error := none
  /-- Of `layerDownload.Seek(offset, os.SEEK_SET)` for a partial download. -/
  resumeErr : Option Error := none
  /-- `layerDownload.Seek(0, os.SEEK_END)` -/
  size : Except Error Int := .ok 0
  /-- Of `layerDownload.Seek(offset, os.SEEK_SET)` once the size is known. -/
  restoreErr : Option Error := none
  /-- The reads of the blob. -/
  chunks : List Chunk := []
  /-- The error that the reads end with, if it is not `io.EOF`. -/
  readErr : Option Error := none
  files : FileErrors := {}

def Attempt.FilesWork (a : Attempt) : Prop := a.files = {} ∧ ∀ c ∈ a.chunks, c.writeErr = none

structure V2LayerDescriptor where
  digest : String
  tmpFile : Option File := none
  verifier : Option Verifier := none
  deriving DecidableEq

abbrev M := EStateM Error V2LayerDescriptor

def createDownloadFile (err : Option Error) : M Unit := do
  if let some e := err then
    modify fun ld => { ld with tmpFile := none }
    throw (.doNotRetry e)
  modify fun ld => { ld with tmpFile := some {} }

/-- The start of `Download`: the offset at which it goes on. -/
def openDownloadFile (errs : FileErrors) : M Nat := do
  match (← get).tmpFile with
  | none =>
    createDownloadFile errs.create
    return 0
  | some f =>
    -- A file that cannot be resumed is replaced, and the verifier stays as it is.
    if errs.seekEnd.isSome then
      createDownloadFile errs.create
      return 0
    modify fun ld => { ld with tmpFile := some f.seekEnd }
    return f.content.length

/-- All callers wrap an error in `DoNotRetry`. -/
def truncateDownloadFile (err : Option TruncateError) : M Unit := do
  modify fun ld => { ld with verifier := none }
  if let some (.seek e) := err then throw (.doNotRetry e)
  modify fun ld => { ld with tmpFile := ld.tmpFile.map File.seekStart }
  if let some (.truncate e) := err then throw (.doNotRetry e)
  modify fun ld => { ld with tmpFile := ld.tmpFile.map File.truncate }

/-- The size of the blob, or 0, and the offset at which the download goes on. -/
def seekBlob (a : Attempt) (offset : Nat) : M (Int × Nat) := do
  if offset ≠ 0 then
    if let some e := a.resumeErr then
      truncateDownloadFile a.files.truncate
      throw e
  match a.size with
  | .error _ => return (0, offset)
  | .ok size =>
    let mut offset := offset
    if size ≠ 0 ∧ size < offset then
      truncateDownloadFile a.files.startOver
      offset := 0
    if let some e := a.restoreErr then throw e
    return (size, offset)

/-- `io.Copy(tmpFile, io.TeeReader(reader, ld.verifier))`: the verifier is fed before the file is
written. -/
def copy (readErr : Option Error) : List Chunk → M (Option Error)
  | [] => return readErr
  | c :: cs => do
    modify fun ld =>
      { ld with verifier := ld.verifier.map fun v => { v with written := v.written ++ c.bytes } }
    match c.writeErr with
    | none =>
      modify fun ld => { ld with tmpFile := ld.tmpFile.map fun f => f.write c.bytes }
      copy readErr cs
    | some (n, e) =>
      modify fun ld => { ld with tmpFile := ld.tmpFile.map fun f => f.write (c.bytes.take n) }
      return some e

def ensureVerifier : M Unit := do
  let ld ← get
  if ld.verifier.isNone then
    match newDigestVerifier ld.digest with
    | .error e => throw (.doNotRetry e)
    | .ok v => set { ld with verifier := some v }

section
variable (sum : String → Bytes → String)

def verifyDownload (a : Attempt) (offset : Nat) : M File := do
  let ld ← get
  unless ld.verifier.any (Verifier.verified sum) do
    if offset ≠ 0 then
      truncateDownloadFile a.files.truncate
      throw (.verificationFailed ld.digest)
    throw (.doNotRetry (.verificationFailed ld.digest))
  if let some e := a.files.rewind then
    set { ld with tmpFile := none, verifier := none }
    throw (.doNotRetry e)
  match ld.tmpFile with
  | none => throw (.doNotRetry .invalidFile)
  | some f =>
    -- The file is handed off. The verifier stays.
    set { ld with tmpFile := none }
    return f.seekStart

def download (a : Attempt) : M (File × Int) := do
  let offset ← openDownloadFile a.files
  if let some e := a.openErr then
    throw (if e = .blobUnknown then .doNotRetry e else retryOnError e)
  let (size, offset) ← seekBlob a offset
  ensureVerifier
  match ← copy a.readErr a.chunks with
  | some .wrongCodeForByteRange =>
    truncateDownloadFile a.files.truncate
    throw .wrongCodeForByteRange
  | some e => throw (retryOnError e)
  | none =>
    let f ← verifyDownload sum a offset
    return (f, size)

end

/-! ## The verifier is in step with the file -/

section
variable {d : String} {ld : V2LayerDescriptor} {f : File}

/-- The verifier was fed what the file holds. -/
structure InStep (d : String) (ld : V2LayerDescriptor) : Prop where
  digest : ld.digest = d
  verifier : ∀ v ∈ ld.verifier, v.digest = d ∧ validateDigest d = true
  fed : (ld.verifier.map Verifier.written).getD [] = (ld.tmpFile.map File.content).getD []

/-- There is a file, and it is extended when it is written. -/
structure Ready (d : String) (ld : V2LayerDescriptor) : Prop extends InStep d ld where
  file : ∃ f, ld.tmpFile = some f ∧ f.AtEnd

/-- A file that can be handed out: it holds what the digest is of, and is read from its first
byte. -/
structure Verified (sum : String → Bytes → String) (d : String) (f : File) : Prop where
  valid : validateDigest d = true
  content : newDigest sum (algorithm d) f.content = d
  pos : f.pos = 0

structure Fed (d : String) (ld : V2LayerDescriptor) : Prop extends Ready d ld where
  hasVerifier : ld.verifier.isSome = true

attribute [grind →] Ready.toInStep Fed.toReady

theorem InStep.create (h : InStep d ld) (hf : ld.tmpFile = none) :
    Ready d { ld with tmpFile := some {} } where
  digest := h.digest
  verifier := h.verifier
  fed := by simpa [hf] using h.fed
  file := ⟨_, rfl, rfl⟩

theorem InStep.seekEnd (h : InStep d ld) (hf : ld.tmpFile = some f) :
    Ready d { ld with tmpFile := some f.seekEnd } where
  digest := h.digest
  verifier := h.verifier
  fed := by simpa [hf, File.seekEnd] using h.fed
  file := ⟨_, rfl, rfl⟩

theorem Ready.truncate (h : Ready d ld) :
    Ready d
      { ld with
        tmpFile := (ld.tmpFile.map File.seekStart).map File.truncate, verifier := none } := by
  obtain ⟨f, hf, -⟩ := h.file
  rw [hf]
  exact { digest := h.digest, verifier := nofun, fed := rfl, file := ⟨_, rfl, rfl⟩ }

theorem Ready.newVerifier (h : Ready d ld) (hv : ld.verifier = none)
    (hd : validateDigest ld.digest = true) :
    Fed d { ld with verifier := some { digest := ld.digest } } where
  digest := h.digest
  verifier := by simpa [h.digest] using hd
  fed := by simpa [hv] using h.fed
  file := h.file
  hasVerifier := rfl

theorem Fed.tee (h : Fed d ld) (p : Bytes) : Fed d { ld with
      verifier := ld.verifier.map fun v => { v with written := v.written ++ p }
      tmpFile := ld.tmpFile.map fun f => f.write p } := by
  obtain ⟨f, hf, hend⟩ := h.file
  obtain ⟨v, hv⟩ := isSome_iff_exists.1 h.hasVerifier
  have hfed := h.fed
  obtain ⟨hcontent, hend⟩ := hend.write p
  simp only [hf, hv, map_some, getD_some] at hfed ⊢
  exact
    { digest := h.digest
      verifier := by simpa using h.verifier v hv
      fed := by simp [hfed, hcontent]
      file := ⟨_, rfl, hend⟩
      hasVerifier := rfl }

variable {sum : String → Bytes → String}

theorem Fed.verified (h : Fed d ld) (hf : ld.tmpFile = some f)
    (hv : ld.verifier.any (Verifier.verified sum) = true) :
    validateDigest d = true ∧ newDigest sum (algorithm d) f.content = d := by
  obtain ⟨v, hs, hv⟩ := (any_eq_true _ _).1 hv
  have hfed := h.fed
  simp only [hf, hs, map_some, getD_some] at hfed
  obtain ⟨hd, hvalid⟩ := h.verifier v hs
  rw [Verifier.verified, beq_iff_eq, hd, hfed] at hv
  exact ⟨hvalid, hv.symm⟩

@[spec]
theorem createDownloadFile_spec : ⦃fun ld => ⌜InStep d ld ∧
    ld.tmpFile = none⌝⦄ createDownloadFile none
    ⦃post⟨fun _ ld => ⌜Ready d ld⌝, fun _ ld => ⌜InStep d ld⌝⟩⦄ := by
  mvcgen [createDownloadFile]
  rename_i h _
  exact InStep.create h.1 h.2

@[spec]
theorem openDownloadFile_spec : ⦃fun ld => ⌜InStep d ld⌝⦄ openDownloadFile {}
    ⦃post⟨fun _ ld => ⌜Ready d ld⌝, fun _ ld => ⌜InStep d ld⌝⟩⦄ := by
  mvcgen [openDownloadFile]
  exact InStep.seekEnd ‹_› ‹_›

@[spec]
theorem truncateDownloadFile_spec : ⦃fun ld => ⌜Ready d ld⌝⦄ truncateDownloadFile none
    ⦃post⟨fun _ ld => ⌜Ready d ld⌝, fun _ ld => ⌜InStep d ld⌝⟩⦄ := by
  mvcgen [truncateDownloadFile]
  exact Ready.truncate ‹_›

variable {a : Attempt}

@[spec]
theorem seekBlob_spec (ha : a.files = {}) : ⦃fun ld => ⌜Ready d ld⌝⦄ seekBlob a offset
    ⦃post⟨fun _ ld => ⌜Ready d ld⌝, fun _ ld => ⌜InStep d ld⌝⟩⦄ := by
  mvcgen [seekBlob, ha]
  all_goals grind

@[spec]
theorem ensureVerifier_spec : ⦃fun ld => ⌜Ready d ld⌝⦄ ensureVerifier
    ⦃post⟨fun _ ld => ⌜Fed d ld⌝, fun _ ld => ⌜InStep d ld⌝⟩⦄ := by
  mvcgen [ensureVerifier]
  case vc1.isTrue.h_1 => exact Ready.toInStep ‹_›
  case vc2.isTrue.h_2 hready hnone v hv =>
    unfold newDigestVerifier at hv
    split at hv
    · cases hv
      exact hready.newVerifier (isNone_iff_eq_none.1 hnone) ‹_›
    · cases hv
  case vc3.isFalse hready hsome => exact ⟨hready, by simpa [isSome_iff_ne_none] using hsome⟩

@[spec]
theorem copy_spec (hcs : ∀ c ∈ cs, c.writeErr = none) : ⦃fun ld => ⌜Fed d ld⌝⦄ copy readErr cs
    ⦃post⟨fun _ ld => ⌜Fed d ld⌝, fun _ ld => ⌜InStep d ld⌝⟩⦄ := by
  induction cs with
  | nil => mvcgen [copy]
  | cons c cs ih =>
    have hc := hcs c mem_cons_self
    have ih := ih fun c' h' => hcs c' (mem_cons_of_mem _ h')
    mvcgen [copy, hc, ih]
    exact Fed.tee ‹_› c.bytes

@[spec]
theorem verifyDownload_spec (ha : a.files = {}) : ⦃fun ld => ⌜Fed d ld⌝⦄ verifyDownload sum a offset
    ⦃post⟨fun f _ => ⌜Verified sum d f⌝, fun _ ld => ⌜InStep d ld⌝⟩⦄ := by
  mvcgen [verifyDownload, ha]
  case vc2.isTrue.h_2 hfed _ hv _ f hf =>
    obtain ⟨hvalid, hcontent⟩ := hfed.verified hf hv
    exact ⟨hvalid, hcontent, rfl⟩
  all_goals grind

@[spec]
theorem download_spec (ha : a.FilesWork) : ⦃fun ld => ⌜InStep d ld⌝⦄ download sum a
    ⦃post⟨fun r _ => ⌜Verified sum d r.1⌝, fun _ ld => ⌜InStep d ld⌝⟩⦄ := by
  obtain ⟨hfiles, hchunks⟩ := ha
  mvcgen [download, hfiles, hchunks]
  all_goals grind

end

/-! ## Sequences of attempts -/

section
variable (sum : String → Bytes → String)

def failures : List Attempt → V2LayerDescriptor → Option V2LayerDescriptor
  | [], ld => some ld
  | a :: as, ld =>
    match (download sum a).run ld with
    | .error _ ld => failures as ld
    | .ok _ _ => none

/-- A turn of the loop in `makeDownloadFunc`. -/
structure Round where
  attempt : Attempt
  /-- The context is done when the attempt has failed. -/
  cancelled : Bool := false
  /-- The context is done before the delay is over. -/
  cancelledDuringDelay : Bool := false

def maxDownloadAttempts : Nat := 5

/-- The loop of `makeDownloadFunc`. The rounds are numbered by the attempts that are left after
them. -/
def downloadLoop (rounds : Nat → Round) (left : Nat) (ld : V2LayerDescriptor) :
    EStateM.Result Error V2LayerDescriptor (File × Int) :=
  match (download sum (rounds left).attempt).run ld with
  | .ok r ld => .ok r ld
  | .error e ld =>
    if (rounds left).cancelled || e.isDoNotRetry then .error e ld
    else
      match left with
      | 0 => .error e ld
      | left' + 1 =>
        if (rounds left).cancelledDuringDelay then .error .cancelledDuringDelay ld
        else downloadLoop rounds left' ld

end

section
variable {sum : String → Bytes → String} {d : String} {a : Attempt} {as : List Attempt}
  {ld ld' : V2LayerDescriptor}

theorem InStep.new (d : String) : InStep d { digest := d } := ⟨rfl, nofun, rfl⟩

/-- A file that is handed out was verified, and a failure leaves the verifier in step. -/
def Outcome (sum : String → Bytes → String) (d : String) :
    EStateM.Result Error V2LayerDescriptor (File × Int) → Prop
  | .ok r _ => Verified sum d r.1
  | .error _ ld => InStep d ld

theorem InStep.download (h : InStep d ld) (ha : a.FilesWork)
    (hrun : (download sum a).run ld = res) : Outcome sum d res :=
  EStateM.of_wp_run_eq hrun (Outcome sum d) fun _ => download_spec ha ld h

theorem InStep.failures (h : InStep d ld) (has : ∀ a ∈ as, a.FilesWork)
    (hf : failures sum as ld = some ld') :
    InStep d ld' := by
  induction as generalizing ld with
  | nil =>
    cases hf
    exact h
  | cons a as ih =>
    simp only [Blob.failures] at hf
    split at hf
    case h_1 e ld₁ hrun =>
      have h₁ : InStep d ld₁ := h.download (has a mem_cons_self) hrun
      exact ih h₁ (fun a' h' => has a' (mem_cons_of_mem _ h')) hf
    case h_2 => cases hf

/-- Whatever the registry does in the attempts, the file that is handed out was verified as a
whole. -/
theorem download_verified (d : String) (as : List Attempt) (a : Attempt)
    (hw : ∀ b ∈ as ++ [a], b.FilesWork) {f : File}
    {size : Int} (hf : failures sum as { digest := d } = some ld)
    (h : (download sum a).run ld = .ok (f, size) ld') :
    newDigest sum (algorithm d) f.content = d ∧ f.pos = 0 := by
  have hld := (InStep.new d).failures (fun b hb => hw b (mem_append_left _ hb)) hf
  have hout : Verified sum d f := hld.download (hw a (by simp)) h
  exact ⟨hout.content, hout.pos⟩

theorem failures_of_downloadLoop (h : downloadLoop sum rounds left ld = .ok r ld') :
    ∃ as a ld₁, as.length ≤ left ∧ (∀ b ∈ as ++ [a], ∃ i, b = (rounds i).attempt) ∧
      failures sum as ld = some ld₁ ∧ (download sum a).run ld₁ = .ok r ld' := by
  fun_induction downloadLoop sum rounds left ld with
  | case1 left ld r ld' hrun =>
    cases h
    exact ⟨[], _, ld, Nat.zero_le _, fun b hb => ⟨left, mem_singleton.1 hb⟩, rfl, hrun⟩
  | case4 ld e ld₁ left hrun _ hdelay => simp [hdelay] at h
  | case5 ld e ld₁ left hrun _ hdelay ih =>
    rw [if_neg hdelay] at h
    obtain ⟨as, a, ld₂, hlen, hrounds, hfail, hlast⟩ := ih h
    refine ⟨(rounds (left + 1)).attempt :: as, a, ld₂, Nat.succ_le_succ hlen, ?_, ?_, hlast⟩
    · intro b hb
      obtain rfl | hb := mem_cons.1 hb
      · exact ⟨_, rfl⟩
      · exact hrounds b hb
    · simpa only [failures, hrun] using hfail
  | _ => cases h

/-- What `makeDownloadFunc` goes on with was verified as a whole. -/
theorem downloadLoop_verified (hw : ∀ i, (rounds i).attempt.FilesWork)
    (h : downloadLoop sum rounds (maxDownloadAttempts - 1) { digest := d } = .ok (f, size) ld') :
    Verified sum d f := by
  obtain ⟨as, a, ld, -, hrounds, hfail, hlast⟩ := failures_of_downloadLoop h
  have hw : ∀ b ∈ as ++ [a], b.FilesWork := fun b hb => by
    obtain ⟨i, rfl⟩ := hrounds b hb
    exact hw i
  have hld := (InStep.new d).failures (fun b hb => hw b (mem_append_left _ hb)) hfail
  exact hld.download (hw a (by simp)) hlast

end

/-! ### A download that is resumed -/

def exampleSum (_ : String) (content : Bytes) : String :=
  String.ofList (replicate 64 (if content = [1, 2, 3] then 'a' else 'b'))

def exampleDigest : String := newDigest exampleSum "sha256" [1, 2, 3]

def interrupted : Attempt :=
  { size := .ok 3, chunks := [⟨[1, 2], none⟩], readErr := some (.other "unexpected EOF") }

def resumed : Attempt := { size := .ok 3, chunks := [⟨[3], none⟩] }

theorem download_verified_resumed :
    ∃ ld ld', failures exampleSum [interrupted] { digest := exampleDigest } = some ld ∧
    (download exampleSum resumed).run ld = .ok (⟨[1, 2, 3], 0⟩, 3) ld' ∧
      newDigest exampleSum (algorithm exampleDigest) [1, 2, 3] = exampleDigest := by
  have hw : ∀ b ∈ [interrupted] ++ [resumed], b.FilesWork := by
    simp [interrupted, resumed, Attempt.FilesWork]
  have hf : failures exampleSum [interrupted] { digest := exampleDigest } =
      some ⟨exampleDigest, some ⟨[1, 2], 2⟩, some ⟨exampleDigest, [1, 2]⟩⟩ := by decide +kernel
  have h : (download exampleSum resumed).run
      ⟨exampleDigest, some ⟨[1, 2], 2⟩, some ⟨exampleDigest, [1, 2]⟩⟩ =
      .ok (⟨[1, 2, 3], 0⟩, 3) ⟨exampleDigest, none, some ⟨exampleDigest, [1, 2, 3]⟩⟩ := rfl
  exact ⟨_, _, hf, h, (download_verified _ _ _ hw hf h).1⟩

end Docker.Distribution.Blob
