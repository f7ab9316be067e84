import Docker.Lib.Stream

/-!
# The log copier

`Copier.copySrc` in `daemon/logger/copier.go`, which takes the output of a container apart into
messages for a log driver.

Of the buffer only `buf[0:n]` is kept, the bytes read and not yet logged. `closed i` says whether
the channel `closed` is found closed by the `i`-th `select` of the loop. The result is the list of
messages that the driver gets, without time stamps.
-/

namespace Docker.Logger
open Stream List Script

def bufSize : Nat := 16 * 1024
def readSize : Nat := 2 * 1024

def newline : UInt8 := 10

structure Message where
  source : String
  line : Bytes
  /-- `Partial`: the line goes on in the next message. -/
  isPartial : Bool
  deriving DecidableEq

structure Scan where
  logged : List Message
  /-- The first byte that was not logged. -/
  p : Nat
  /-- The number of the next `select`. -/
  select : Nat
  /-- The channel was found closed, and `copySrc` returns. -/
  closed : Bool
  deriving DecidableEq

/-- The loop `for q := bytes.Index(buf[p:n], '\n'); q >= 0; …`. -/
def logLines (closed : Nat → Bool) (name : String) (buf : Bytes) (p i : Nat) : Scan :=
  match h : (buf.drop p).idxOf? newline with
  | none => ⟨[], p, i, false⟩
  | some q =>
    if closed i then ⟨[], p, i, true⟩
    else
      let rest := logLines closed name buf (p + q + 1) (i + 1)
      { rest with logged := ⟨name, (buf.drop p).take q, false⟩ :: rest.logged }
termination_by buf.length - p
decreasing_by
  have hq := lt_of_idxOf? h
  rw [length_drop] at hq
  omega

/-- The end of an iteration: the rest is logged at the end of the stream, or if the buffer is full
and has no line. What is still to be logged moves to the front. -/
def logRest (name : String) (eof : Bool) (buf : Bytes) (p : Nat) : List Message × Bytes :=
  if (eof ∨ (p = 0 ∧ buf.length = bufSize)) ∧ p < buf.length then ([⟨name, buf.drop p, true⟩], [])
  else ([], buf.drop p)

/-- The loop of `copySrc`. `none` means that the fuel did not suffice. -/
def copyLoop (closed : Nat → Bool) (name : String) (src : Reader ρ) :
    Nat → Bytes → Nat → ρ → Option (List Message)
  | 0, _, _, _ => none
  | fuel + 1, buf, i, r =>
    if closed i then some []
    else
      let upto := min (buf.length + readSize) bufSize
      let ((data, err), r) := if upto > buf.length then src.read (upto - buf.length) r
        else (([], none), r)
      let eof : Bool := err = some .eof
      if err ≠ none ∧ ¬ eof then some []
      else
        let buf := buf ++ data
        if buf.length = 0 ∧ eof then some []
        else
          let scan := logLines closed name buf 0 (i + 1)
          if scan.closed then some scan.logged
          else
            let (last, buf) := logRest name eof buf scan.p
            if eof then some (scan.logged ++ last)
            else (copyLoop closed name src fuel buf scan.select r).map (scan.logged ++ last ++ ·)

/-- `Copier.copySrc`, with the messages that the driver gets. -/
def copySrc (closed : Nat → Bool) (name : String) (src : Reader ρ) (fuel : Nat) (r : ρ) :
    Option (List Message) :=
  copyLoop closed name src fuel [] 0 r

/-- What a message stands for: the line, and the newline if it is there. -/
def Message.render (m : Message) : Bytes := if m.isPartial then m.line else m.line ++ [newline]

def render (ms : List Message) : Bytes := ms.flatMap Message.render

@[simp] theorem render_nil : render [] = [] := rfl

@[simp] theorem render_append (ms ms' : List Message) :
    render (ms ++ ms') = render ms ++ render ms' :=
  flatMap_append

theorem render_cons (m : Message) (ms : List Message) : render (m :: ms) = m.render ++ render ms :=
  flatMap_cons

/-! ## One iteration -/

/-- What a scan from `p` on logs, and what it leaves. -/
structure Scan.Scanned (buf : Bytes) (p : Nat) (s : Scan) : Prop where
  notClosed : s.closed = false
  lossless : render s.logged ++ buf.drop s.p = buf.drop p
  rest : newline ∉ buf.drop s.p
  lines : ∀ m ∈ s.logged, newline ∉ m.line ∧ m.isPartial = false

theorem logLines_scanned (name : String) (buf : Bytes) (p i : Nat) :
    (logLines (fun _ => false) name buf p i).Scanned buf p := by
  fun_induction logLines (fun _ => false) name buf p i with
  | case1 p i h =>
    exact {
      notClosed := rfl
      lossless := rfl
      rest := idxOf?_eq_none_iff.1 h
      lines := nofun }
  | case2 p i q h hclosed => cases hclosed
  | case3 p i q h hclosed rest ih =>
    have hsplit := eq_of_idxOf? h
    rw [drop_drop] at hsplit
    exact {
      notClosed := ih.notClosed
      lossless := by
        rw [render_cons, append_assoc, ih.lossless]
        conv_rhs => rw [hsplit]
        simp [Message.render, Nat.add_assoc]
      rest := ih.rest
      lines := by
        intro m hm
        obtain rfl | hm := mem_cons.1 hm
        · exact ⟨not_mem_take_of_idxOf? h, rfl⟩
        · exact ih.lines m hm }

/-- A line, or a part of a line that fills the buffer. -/
structure Message.Whole (m : Message) : Prop where
  line : newline ∉ m.line
  full : m.isPartial = true → m.line.length = bufSize

/-- The messages up to the end of the stream, where the last line can be cut short. -/
inductive Delivered : List Message → Prop
  | nil : Delivered []
  | last {m : Message} (hline : newline ∉ m.line) (hpos : m.line ≠ [])
    (hle : m.line.length ≤ bufSize) : Delivered [m]
  | cons {m : Message} {ms : List Message} (hm : m.Whole) (hms : Delivered ms) : Delivered (m :: ms)

theorem Delivered.append (hms : ∀ m ∈ ms, m.Whole) (h : Delivered ms') : Delivered (ms ++ ms') := by
  induction ms with
  | nil => exact h
  | cons m ms ih =>
    exact .cons (hms m mem_cons_self) (ih fun m' hm' => hms m' (mem_cons_of_mem _ hm'))

namespace Delivered

variable {ms : List Message} {m : Message}

theorem newline_notMem (h : Delivered ms) (hm : m ∈ ms) : newline ∉ m.line := by
  induction h with
  | nil => cases hm
  | last hline =>
    cases mem_singleton.1 hm
    exact hline
  | cons hwhole _ ih =>
    obtain rfl | hm := mem_cons.1 hm
    · exact hwhole.line
    · exact ih hm

theorem length_of_partial (h : Delivered ms) (hm : m ∈ ms) (hp : m.isPartial = true) :
    m.line ≠ [] ∧ m.line.length ≤ bufSize := by
  induction h with
  | nil => cases hm
  | last _ hpos hle =>
    cases mem_singleton.1 hm
    exact ⟨hpos, hle⟩
  | cons hwhole _ ih =>
    obtain rfl | hm := mem_cons.1 hm
    · have hfull := hwhole.full hp
      refine ⟨?_, Nat.le_of_eq hfull⟩
      rintro hnil
      rw [hnil] at hfull
      cases hfull
    · exact ih hm

/-- Only the last message can be a part of a line that does not fill the buffer. -/
theorem eq_last_of_partial (h : Delivered ms) (hm : ms[i]? = some m) (hp : m.isPartial = true)
    (hlen : m.line.length < bufSize) : i + 1 = ms.length := by
  induction h generalizing i with
  | nil => cases hm
  | last =>
    have hi := (List.getElem?_eq_some_iff.1 hm).1
    rw [length_singleton] at hi ⊢
    omega
  | cons hwhole _ ih =>
    cases i with
    | zero =>
      cases hm
      exact absurd (hwhole.full hp) (Nat.ne_of_lt hlen)
    | succ i => rw [ih hm, length_cons]

end Delivered

section
variable {name : String}

theorem render_logRest (name : String) (eof : Bool) (buf : Bytes) (p : Nat) :
    render (logRest name eof buf p).1 ++ (logRest name eof buf p).2 = buf.drop p := by
  unfold logRest
  split
  · simp [render, Message.render]
  · rfl

theorem logRest_eof : (logRest name true buf p).2 = [] := by
  unfold logRest
  split
  · rfl
  · next h => exact drop_eq_nil_of_le (by simpa using h)

theorem length_logRest (name : String) (p : Nat) (h : buf.length ≤ bufSize) :
    (logRest name false buf p).2.length < bufSize := by
  have hpos : 0 < bufSize := by decide
  unfold logRest
  split
  · exact hpos
  · next hrest =>
    simp only [Bool.false_eq_true, false_or, not_and] at hrest
    rw [length_drop]
    by_contra hfull
    have hp : p = 0 := by omega
    have hlen : buf.length = bufSize := by omega
    exact hrest ⟨hp, hlen⟩ (by omega)

theorem whole_logRest (h : newline ∉ buf.drop p) : ∀ m ∈ (logRest name false buf p).1, m.Whole := by
  unfold logRest
  split
  · next hrest =>
    intro m hm
    rw [mem_singleton.1 hm]
    simp only [Bool.false_eq_true, false_or] at hrest
    obtain ⟨⟨rfl, hlen⟩, -⟩ := hrest
    exact ⟨h, fun _ => hlen⟩
  · exact nofun

theorem delivered_logRest (h : newline ∉ buf.drop p) (hlen : buf.length ≤ bufSize) :
    Delivered (logRest name true buf p).1 := by
  unfold logRest
  split
  · next hrest =>
    refine .last h ?_ ?_
    · rw [Ne, drop_eq_nil_iff]
      omega
    · rw [length_drop]
      omega
  · exact .nil

end

/-! ## The whole stream -/

theorem copyLoop_script (name : String) (fuel : Nat) (hfuel : r.weight < fuel)
    (hbuf : buf.length < bufSize) :
    ∃ ms, copyLoop (fun _ => false) name reader fuel buf i r = some ms ∧
      render ms = buf ++ r.remaining ∧
      Delivered ms := by
  -- every read makes the script lighter or is the last one
  induction fuel generalizing buf i r with
  | zero => omega
  | succ fuel ih =>
    have hroom : min (buf.length + readSize) bufSize > buf.length := by
      have hpos : 0 < readSize := by decide
      omega
    obtain ⟨⟨⟨data, er⟩, r'⟩, hread⟩ :
        ∃ x, r.read (min (buf.length + readSize) bufSize - buf.length) = x :=
      ⟨_, rfl⟩
    have hlen : (buf ++ data).length ≤ bufSize := by
      have hdata := read_length hread
      rw [length_append]
      omega
    have hrem := read_remaining hread
    have hscan := logLines_scanned name (buf ++ data) 0 (i + 1)
    have hwhole : ∀ m ∈ (logLines (fun _ => false) name (buf ++ data) 0 (i + 1)).logged,
        m.Whole := by
      intro m hm
      obtain ⟨hline, hpart⟩ := hscan.lines m hm
      exact ⟨hline, by rw [hpart]; exact nofun⟩
    generalize hs : logLines (fun _ => false) name (buf ++ data) 0 (i + 1) = scan at hscan hwhole
    have hlossless := hscan.lossless
    rw [drop_zero] at hlossless
    simp only [copyLoop, Bool.false_eq_true, if_false, if_pos hroom, reader_read, hread]
    obtain rfl | ⟨rfl, hnil⟩ := read_err hread
    · -- more can come
      have hweight : r'.weight < fuel := by
        have hless := read_weight (by omega) hread
        omega
      obtain ⟨ms, hms, hrender, hdel⟩ :=
        ih (i := scan.select) hweight (length_logRest name scan.p hlen)
      refine ⟨scan.logged ++ (logRest name false (buf ++ data) scan.p).1 ++ ms, ?_, ?_, ?_⟩
      · simp [hs, hscan.notClosed, hms]
      · calc render (scan.logged ++ (logRest name false (buf ++ data) scan.p).1 ++ ms)
            = render scan.logged ++ (render (logRest name false (buf ++ data) scan.p).1 ++
                (logRest name false (buf ++ data) scan.p).2) ++ r'.remaining := by
              simp [hrender]
          _ = buf ++ data ++ r'.remaining := by rw [render_logRest, hlossless]
          _ = buf ++ r.remaining := by rw [append_assoc, hrem]
      · rw [append_assoc]
        exact (hdel.append (whole_logRest hscan.rest)).append hwhole
    · -- the end of the stream
      rw [hnil, append_nil] at hrem
      rw [← hrem]
      by_cases hempty : (buf ++ data).length = 0
      · refine ⟨[], by simp [hempty], ?_, .nil⟩
        rw [length_eq_zero_iff.1 hempty, render_nil]
      · have hrest := render_logRest name true (buf ++ data) scan.p
        rw [logRest_eof, append_nil] at hrest
        refine ⟨scan.logged ++ (logRest name true (buf ++ data) scan.p).1, ?_, ?_, ?_⟩
        · rw [if_neg (by simp), if_neg (by simpa using hempty), hs]
          simp [hscan.notClosed]
        · rw [render_append, hrest, hlossless]
        · exact (delivered_logRest hscan.rest hlen).append hwhole

/-- For every way a reader returns a stream in pieces, the messages are the stream taken apart at
its newlines and where the buffer is full. -/
theorem copySrc_lossless (name : String) (chunks : List Bytes) (eofWithData : Bool) {fuel : Nat}
    (hfuel : (mk chunks eofWithData []).weight < fuel) :
    ∃ ms, copySrc (fun _ => false) name reader fuel ⟨chunks, eofWithData, []⟩ = some ms ∧
      render ms = chunks.flatten ∧
      (∀ m ∈ ms, newline ∉ m.line) ∧
      (∀ m ∈ ms, m.isPartial = true → m.line ≠ [] ∧ m.line.length ≤ 16384) ∧
      (∀ (i : Nat) (m : Message), ms[i]? = some m → m.isPartial = true → m.line.length < 16384 →
        i + 1 = ms.length) := by
  have hroom : ([] : Bytes).length < bufSize := by decide
  obtain ⟨ms, hms, hrender, hdel⟩ := copyLoop_script name fuel hfuel hroom
  refine ⟨ms, hms, hrender, ?_, ?_, ?_⟩
  · intro m hm
    exact hdel.newline_notMem hm
  · intro m hm
    exact hdel.length_of_partial hm
  · intro i m hm
    exact hdel.eq_last_of_partial hm

/-- Two lines in three pieces, the second line cut short by the end of the stream. -/
theorem copySrc_lossless_three :
    ∃ ms, copySrc (fun _ => false) "stdout" reader 9
      ⟨[[104], [105, 10], [111]], true, []⟩ = some ms ∧
      render ms = [104, 105, 10, 111] := by
  obtain ⟨ms, hms, hrender, -⟩ :=
    copySrc_lossless "stdout" [[104], [105, 10], [111]] true (by decide : _ < 9)
  exact ⟨ms, hms, hrender⟩

end Docker.Logger
