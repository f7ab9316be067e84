import Docker.Lib.Stream

/-!
# Rotated log files

`daemon/logger/loggerutils/rotatefilewriter.go`, and the loop of `readLogs` in
`daemon/logger/jsonfilelog/read.go` that opens the files again. File operations succeed. The writer
closes its file before it is renamed.
-/

namespace Docker.Logger
open Stream Function List Option

abbrev Files := String → Option Bytes

namespace Files

/-- `os.Rename`. The writer ignores that there is no such file. -/
def rename (fs : Files) (fromPath toPath : String) : Files :=
  match fs fromPath with
  | some data => Function.update (Function.update fs fromPath none) toPath (some data)
  | none => fs

/-- `os.OpenFile` with `O_TRUNC|O_CREATE` -/
def truncate (fs : Files) (path : String) : Files := Function.update fs path (some [])

def append (fs : Files) (path : String) (data : Bytes) : Files :=
  Function.update fs path ((fs path).map (· ++ data))

end Files

structure RotateFileWriter where
  name : String
  /-- The size at which the file is rotated, `-1` for never. -/
  capacity : Int64
  currentSize : Int64
  maxFiles : Nat
  deriving DecidableEq

def rotatedName (name : String) (i : Nat) : String := name ++ "." ++ toString i

/-- The loop `for i := maxFiles - 1; i > 1; i--` of `rotate`. -/
def rotateLoop (name : String) : Nat → Files → Files
  | i + 2, fs =>
    rotateLoop name (i + 1) (fs.rename (rotatedName name (i + 1)) (rotatedName name (i + 2)))
  | _, fs => fs

def rotate (name : String) (maxFiles : Nat) (fs : Files) : Files :=
  if maxFiles < 2 then fs
  else (rotateLoop name (maxFiles - 1) fs).rename name (rotatedName name 1)

namespace RotateFileWriter

/-- `NewRotateFileWriter`, which creates the file or goes on at its end. -/
def new (logPath : String) (capacity : Int64) (maxFiles : Nat) (fs : Files) :
    RotateFileWriter × Files :=
  let data := (fs logPath).getD []
  (⟨logPath, capacity, Int64.ofNat data.length, maxFiles⟩, Function.update fs logPath (some data))

def checkCapacityAndRotate (w : RotateFileWriter) (fs : Files) : RotateFileWriter × Files :=
  if w.capacity = -1 then (w, fs)
  else if w.currentSize ≥ w.capacity then
    ({ w with currentSize := 0 }, (rotate w.name w.maxFiles fs).truncate w.name)
  else (w, fs)

def write (w : RotateFileWriter) (message : Bytes) (fs : Files) : RotateFileWriter × Files :=
  let (w, fs) := w.checkCapacityAndRotate fs
  ({ w with currentSize := w.currentSize + Int64.ofNat message.length }, fs.append w.name message)

def writeAll (w : RotateFileWriter) (messages : List Bytes) (fs : Files) :
    RotateFileWriter × Files :=
  messages.foldl (fun (w, fs) message => w.write message fs) (w, fs)

end RotateFileWriter

/-- The loop `for i := l.writer.MaxFiles(); i > 1; i--` of `readLogs`. -/
def openLoop (name : String) (fs : Files) : Nat → List Bytes
  | i + 2 => (fs (rotatedName name (i + 1))).toList ++ openLoop name fs (i + 1)
  | _ => []

/-- The files that `readLogs` reads, in this order. It fails if there is no latest file. -/
def openLogs (name : String) (maxFiles : Nat) (fs : Files) : Option (List Bytes) :=
  (fs name).map fun latestFile => openLoop name fs maxFiles ++ [latestFile]

/-! ## The names of the files -/

def logName (name : String) : Nat → String
  | 0 => name
  | i + 1 => rotatedName name (i + 1)

theorem rotatedName_inj (h : rotatedName name i = rotatedName name j) : i = j := by
  have hdigits : Nat.toDigits 10 i = Nat.toDigits 10 j := by
    have hlist := congrArg String.toList h
    simpa [rotatedName] using hlist
  rw [← Nat.ofDigitChars_ten_toDigits (n := i), hdigits, Nat.ofDigitChars_ten_toDigits]

theorem rotatedName_ne (name : String) (i : Nat) : rotatedName name i ≠ name := by
  intro h
  have hlen := congrArg (fun s => s.toList.length) h
  simp [rotatedName] at hlen

/-! ## Rotation -/

open Files

section
variable {name path : String} {fs : Files} {i j maxFiles : Nat}

theorem Files.rename_of_ne (hfrom : path ≠ fromPath) (hto : path ≠ toPath) :
    fs.rename fromPath toPath path = fs path := by
  cases hdata : fs fromPath with
  | none => simp only [rename, hdata]
  | some data =>
    simp only [rename, hdata]
    rw [update_of_ne hto, update_of_ne hfrom]

theorem Files.rename_from (h : fromPath ≠ toPath) : fs.rename fromPath toPath fromPath = none := by
  cases hdata : fs fromPath with
  | none => simp only [rename, hdata]
  | some data =>
    simp only [rename, hdata]
    rw [update_of_ne h, update_self]

theorem Files.rename_to (h : fs fromPath = none → fs toPath = none) :
    fs.rename fromPath toPath toPath = fs fromPath := by
  cases hdata : fs fromPath with
  | none => simp only [rename, hdata, h hdata]
  | some data =>
    simp only [rename, hdata]
    exact update_self ..

theorem rotateLoop_of_ne (h : ∀ j, 0 < j → j ≤ i → path ≠ rotatedName name j) :
    rotateLoop name i fs path = fs path := by
  fun_induction rotateLoop name i fs with
  | case1 i fs ih =>
    rw [ih fun j hpos hle => h j hpos (by omega)]
    exact rename_of_ne (h (i + 1) (by omega) (by omega)) (h (i + 2) (by omega) (by omega))
  | case2 => rfl

theorem rotateLoop_rotatedName (hgap : ∀ j, 0 < j → j < i → fs (rotatedName name j) = none →
      fs (rotatedName name (j + 1)) = none)
    (hpos : 0 < j) (hlt : j < i) : rotateLoop name i fs (rotatedName name (j + 1)) =
      fs (rotatedName name j) := by
  fun_induction rotateLoop name i fs with
  | case1 i fs ih =>
    -- the file `i + 2` has moved already, and `i + 1` is missing when the next one moves
    have hne : rotatedName name (i + 1) ≠ rotatedName name (i + 2) := fun he => by
      have := rotatedName_inj he
      omega
    have hkeep : ∀ k, k < i + 1 → fs.rename (rotatedName name (i + 1)) (rotatedName name (i + 2))
        (rotatedName name k) =
        fs (rotatedName name k) := by
      intro k hk
      refine rename_of_ne (fun he => ?_) fun he => ?_
      · have := rotatedName_inj he
        omega
      · have := rotatedName_inj he
        omega
    obtain rfl | hlt : j = i + 1 ∨ j < i + 1 := by omega
    · rw [rotateLoop_of_ne fun k _ hk he => by have := rotatedName_inj he; omega]
      exact rename_to (hgap (i + 1) hpos (by omega))
    · rw [ih ?_ hlt, hkeep j hlt]
      intro k hpos hk hnone
      rw [hkeep k hk] at hnone
      obtain rfl | hk : k = i ∨ k + 1 < i + 1 := by omega
      · exact rename_from hne
      · rw [hkeep (k + 1) hk]
        exact hgap k hpos (by omega) hnone
  | case2 i fs hi => exact absurd (by omega) (hi (i - 2))

theorem rotate_of_ne (hname : path ≠ name)
    (h : ∀ j, 0 < j → j < maxFiles → path ≠ rotatedName name j) :
    rotate name maxFiles fs path = fs path := by
  unfold rotate
  split
  · rfl
  · rw [rename_of_ne hname (h 1 (by omega) (by omega))]
    exact rotateLoop_of_ne fun j hpos hle => h j hpos (by omega)

/-- Every rotated file has moved up by one, and the latest one is the first of them. -/
theorem rotate_rotatedName (hname : fs name ≠ none)
    (hgap : ∀ j, 0 < j → j + 1 < maxFiles → fs (rotatedName name j) = none →
      fs (rotatedName name (j + 1)) = none)
    (hlt : i + 1 < maxFiles) : rotate name maxFiles fs (rotatedName name (i + 1)) =
      fs (logName name i) := by
  have hloop : rotateLoop name (maxFiles - 1) fs name = fs name :=
    rotateLoop_of_ne fun j _ _ => (rotatedName_ne name j).symm
  unfold rotate
  rw [if_neg (by omega)]
  cases i with
  | zero =>
    refine (rename_to fun hnone => ?_).trans hloop
    exact absurd (hloop.symm.trans hnone) hname
  | succ i =>
    rw [rename_of_ne (rotatedName_ne name _) fun he => by have := rotatedName_inj he; omega]
    exact rotateLoop_rotatedName (fun j hpos hj => hgap j hpos (by omega)) (by omega) (by omega)

end

/-! ## The messages in the files -/

/-- The messages in the latest file, and in the rotated ones from the newest to the oldest. -/
structure Segments where
  latest : List Bytes
  rotated : List (List Bytes)

namespace Segments

def rotate (maxFiles : Nat) (segs : Segments) : Segments :=
  ⟨[], (segs.latest :: segs.rotated).take (maxFiles - 1)⟩

def append (message : Bytes) (segs : Segments) : Segments :=
  ⟨segs.latest ++ [message], segs.rotated⟩

def toList (segs : Segments) : List (List Bytes) := segs.rotated.reverse ++ [segs.latest]

theorem flatten_append (message : Bytes) (segs : Segments) :
    (segs.append message).toList.flatten = segs.toList.flatten ++ [message] := by
  simp [append, toList]

theorem flatten_rotate (maxFiles : Nat) (segs : Segments) :
    (segs.rotate maxFiles).toList.flatten <:+ segs.toList.flatten := by
  have hsplit : segs.toList = ((segs.latest :: segs.rotated).drop (maxFiles - 1)).reverse ++
      ((segs.latest :: segs.rotated).take (maxFiles - 1)).reverse := by
    rw [← reverse_append, take_append_drop, reverse_cons]
    rfl
  rw [hsplit, List.flatten_append]
  simp [rotate, toList]

end Segments

structure Holds (name : String) (maxFiles : Nat) (fs₀ fs : Files) (segs : Segments) : Prop where
  latest : fs name = some segs.latest.flatten
  rotated : ∀ i, i + 1 < maxFiles → fs (rotatedName name (i + 1)) = segs.rotated[i]?.map flatten
  length_lt : segs.rotated.length < maxFiles
  others : ∀ path, (∀ i < maxFiles, path ≠ logName name i) → fs path = fs₀ path

namespace Holds

variable {name : String} {maxFiles : Nat} {fs₀ fs : Files}
variable (h : Holds name maxFiles fs₀ fs segs)
include h

theorem logName (hi : i < maxFiles) :
    fs (logName name i) = (segs.latest :: segs.rotated)[i]?.map flatten := by
  cases i with
  | zero => exact h.latest
  | succ i => exact h.rotated i hi

theorem rotate : Holds name maxFiles fs₀ ((Logger.rotate name maxFiles fs).truncate name)
    (segs.rotate maxFiles) where
  latest := update_self ..
  rotated i hi := by
    have hgap : ∀ j, 0 < j → j + 1 < maxFiles → fs (rotatedName name j) = none →
        fs (rotatedName name (j + 1)) = none := by
      intro j hpos hj hnone
      obtain ⟨j, rfl⟩ : ∃ k, j = k + 1 := ⟨j - 1, by omega⟩
      rw [h.rotated j (by omega), map_eq_none_iff, getElem?_eq_none_iff] at hnone
      rw [h.rotated (j + 1) hj, map_eq_none_iff, getElem?_eq_none_iff]
      omega
    have hname : fs name ≠ none := by
      rw [h.latest]
      exact nofun
    refine (update_of_ne (rotatedName_ne name _) ..).trans ?_
    rw [rotate_rotatedName hname hgap hi, h.logName (by omega), Segments.rotate,
      getElem?_take_of_lt (by omega)]
  length_lt := by
    have hlt := h.length_lt
    simp only [Segments.rotate, length_take, length_cons]
    omega
  others path hpath := by
    have hname : path ≠ name := hpath 0 (Nat.zero_lt_of_lt h.length_lt)
    refine (update_of_ne hname ..).trans ?_
    rw [rotate_of_ne hname ?_, h.others path hpath]
    intro j hj hlt
    obtain ⟨j, rfl⟩ : ∃ k, j = k + 1 := ⟨j - 1, by omega⟩
    exact hpath (j + 1) hlt

theorem append (message : Bytes) : Holds name maxFiles fs₀ (fs.append name message)
    (segs.append message) where
  latest := by
    refine (update_self ..).trans ?_
    simp [h.latest, Segments.append]
  rotated i hi := (update_of_ne (rotatedName_ne name _) ..).trans (h.rotated i hi)
  length_lt := h.length_lt
  others path hpath := (update_of_ne (hpath 0 (Nat.zero_lt_of_lt h.length_lt)) ..).trans
    (h.others path hpath)

theorem openLoop_eq (hi : i < maxFiles) :
    openLoop name fs (i + 1) = (segs.rotated.take i).reverse.map flatten := by
  induction i with
  | zero => rfl
  | succ i ih =>
    rw [openLoop, ih (by omega), h.rotated i hi, take_add_one]
    cases segs.rotated[i]? <;> simp

theorem openLogs_eq : openLogs name maxFiles fs = some (segs.toList.map flatten) := by
  have hlt := h.length_lt
  obtain ⟨k, rfl⟩ : ∃ k, maxFiles = k + 1 := ⟨maxFiles - 1, by omega⟩
  rw [openLogs, h.latest, map_some, h.openLoop_eq (by omega), take_of_length_le (by omega)]
  simp [Segments.toList]

end Holds

/-- The files hold a tail of the messages, with the last one at the end. -/
structure Tail (name : String) (maxFiles : Nat) (fs₀ : Files) (messages : List Bytes)
    (w : RotateFileWriter) (fs : Files) (segs : Segments) : Prop where
  name_eq : w.name = name
  maxFiles_eq : w.maxFiles = maxFiles
  holds : Holds name maxFiles fs₀ fs segs
  suffix : segs.toList.flatten <:+ messages
  last : ∀ m, messages.getLast? = some m → segs.latest.getLast? = some m

namespace Tail

variable {name : String} {maxFiles : Nat} {fs₀ fs : Files} {messages : List Bytes}
  {w : RotateFileWriter}

theorem new (capacity : Int64) (hmax : 0 < maxFiles)
    (hnone : ∀ i < maxFiles, fs₀ (logName name i) = none) :
    Tail name maxFiles fs₀ [] (RotateFileWriter.new name capacity maxFiles fs₀).1
      (RotateFileWriter.new name capacity maxFiles fs₀).2 ⟨[], []⟩ where
  name_eq := rfl
  maxFiles_eq := rfl
  holds := {
    latest := by
      have hlatest : fs₀ name = none := hnone 0 hmax
      refine (update_self ..).trans ?_
      simp [hlatest]
    rotated := fun i hi => (update_of_ne (rotatedName_ne name _) ..).trans (hnone (i + 1) hi)
    length_lt := hmax
    others := fun path hpath => update_of_ne (hpath 0 hmax) .. }
  suffix := nil_suffix
  last m hm := by cases hm

/-- The check before a write keeps a tail of the messages, though the last one can be in a rotated
file. -/
theorem checkCapacityAndRotate (h : Tail name maxFiles fs₀ messages w fs segs) :
    ∃ segs', (w.checkCapacityAndRotate fs).1.name = name ∧
      (w.checkCapacityAndRotate fs).1.maxFiles = maxFiles ∧
      Holds name maxFiles fs₀ (w.checkCapacityAndRotate fs).2 segs' ∧
        segs'.toList.flatten <:+ messages := by
  unfold RotateFileWriter.checkCapacityAndRotate
  split
  · exact ⟨segs, h.name_eq, h.maxFiles_eq, h.holds, h.suffix⟩
  · split
    · refine ⟨segs.rotate maxFiles, h.name_eq, h.maxFiles_eq, ?_,
        (segs.flatten_rotate maxFiles).trans h.suffix⟩
      rw [h.name_eq, h.maxFiles_eq]
      exact h.holds.rotate
    · exact ⟨segs, h.name_eq, h.maxFiles_eq, h.holds, h.suffix⟩

theorem write (h : Tail name maxFiles fs₀ messages w fs segs) (m : Bytes) :
    ∃ segs', Tail name maxFiles fs₀ (messages ++ [m]) (w.write m fs).1 (w.write m fs).2 segs' := by
  obtain ⟨segs', hname, hmax, hholds, hsuffix⟩ := h.checkCapacityAndRotate
  refine ⟨segs'.append m, ?_⟩
  exact {
    name_eq := hname
    maxFiles_eq := hmax
    holds := by
      unfold RotateFileWriter.write
      dsimp only
      rw [hname]
      exact hholds.append m
    suffix := by
      rw [Segments.flatten_append]
      exact suffix_append_self_iff.2 hsuffix
    last := by
      intro m' hm'
      rw [getLast?_concat] at hm'
      rw [Segments.append, getLast?_concat]
      exact hm' }

theorem writeAll (h : Tail name maxFiles fs₀ messages w fs segs) (ms : List Bytes) :
    ∃ segs', Tail name maxFiles fs₀ (messages ++ ms) (w.writeAll ms fs).1
      (w.writeAll ms fs).2 segs' := by
  induction ms generalizing messages w fs segs with
  | nil => exact ⟨segs, by rw [append_nil]; exact h⟩
  | cons m ms ih =>
    obtain ⟨segs', h'⟩ := h.write m
    rw [append_cons messages m ms]
    exact ih h'

end Tail

/-- Whatever was written, `readLogs` opens files that hold whole messages and together a tail of
what was written. No other file has changed. -/
theorem openLogs_writeAll (name : String) (capacity : Int64) {maxFiles : Nat} (hmax : 1 ≤ maxFiles)
    (fs₀ : Files) (hnone : ∀ i < maxFiles, fs₀ (logName name i) = none) (messages : List Bytes) :
    let (w, fs₁) := RotateFileWriter.new name capacity maxFiles fs₀
    let fs := (w.writeAll messages fs₁).2
    (∃ segments : List (List Bytes), openLogs name maxFiles fs = some (segments.map flatten) ∧
      segments.flatten <:+ messages ∧
      ∀ m, messages.getLast? = some m → ∃ segment, segments.getLast? = some segment ∧
        segment.getLast? = some m) ∧
    ∀ path, (∀ i < maxFiles, path ≠ logName name i) → fs path = fs₀ path := by
  obtain ⟨segs, h⟩ := (Tail.new capacity hmax hnone).writeAll messages
  refine ⟨⟨segs.toList, h.holds.openLogs_eq, h.suffix, ?_⟩, h.holds.others⟩
  intro m hm
  exact ⟨segs.latest, getLast?_concat, h.last m hm⟩

/-- Two files of one message each, after three messages. -/
theorem openLogs_writeAll_three :
    let (w, fs₁) := RotateFileWriter.new "json.log" 2 2 fun _ => none
    let fs := (w.writeAll [[97, 10], [98, 10], [99, 10]] fs₁).2
    openLogs "json.log" 2 fs = some [[98, 10], [99, 10]] ∧
      ∀ path, (∀ i < 2, path ≠ logName "json.log" i) → fs path = none := by
  obtain ⟨-, hothers⟩ :=
    openLogs_writeAll "json.log" 2 (by decide : 1 ≤ 2) (fun _ => none) (fun _ _ => rfl)
    [[97, 10], [98, 10], [99, 10]]
  exact ⟨by decide +kernel, hothers⟩

end Docker.Logger
