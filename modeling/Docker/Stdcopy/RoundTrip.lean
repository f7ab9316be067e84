import Docker.Stdcopy.Basic

/-!
# Demultiplexing what was multiplexed

`stdCopy` on any truncation of a multiplexed connection, handed out in any pieces.

The loop invariant is one equation: the bytes pending in the buffer followed by those still to be
read are the truncated frames that are left. The reading loop keeps it because it only moves bytes
from the reader to the buffer.
-/

namespace Docker.Stdcopy
open Stream Buffer List Script

/-! ## Frames -/

def frame (w : StdType × Bytes) : Bytes := header w.1.toByte w.2.length ++ w.2

theorem mux_eq (ws : List (StdType × Bytes)) : mux ws = ws.flatMap frame := by
  suffices ∀ conn, ws.foldl (fun conn w =>
      (StdWriter.write (some (newStdWriter .sink w.1)) (some w.2) conn).2) conn =
      conn ++ ws.flatMap frame by simpa [mux] using this []
  intro conn
  induction ws generalizing conn with
  | nil => simp
  | cons w ws ih =>
    rw [foldl_cons, ih]
    simp [StdWriter.write, newStdWriter, frame]

@[simp] theorem length_header (c : UInt8) (n : Nat) : (header c n).length = stdWriterPrefixLen :=
  rfl

theorem length_frame (w : StdType × Bytes) :
    (frame w).length = w.2.length + stdWriterPrefixLen := by
  simp [frame, Nat.add_comm]

theorem uint32_putUint32 (hn : n < 2 ^ 32) (rest : Bytes) : uint32 (putUint32 n ++ rest) = n := by
  simp only [putUint32, uint32, cons_append, UInt8.toNat_ofNat']
  omega

/-- The streams the loop takes apart: `dsterr` gets standard error, `dstout` the others. -/
def StdType.toErr : StdType → Bool
  | .stderr => true
  | _ => false

@[simp] theorem selectOut_toByte (t : StdType) : selectOut t.toByte = some t.toErr := by
  cases t <;> decide

/-- The writes whose frames lie completely within the first `n` bytes of the connection. -/
def completeFrames : List (StdType × Bytes) → Nat → List (StdType × Bytes)
  | [], _ => []
  | w :: ws, n =>
    if (frame w).length ≤ n then w :: completeFrames ws (n - (frame w).length) else []

/-- The payloads for one of the two outputs, in order. -/
def payloads (toErr : Bool) (ws : List (StdType × Bytes)) : Bytes :=
  (ws.filter (·.1.toErr = toErr)).flatMap (·.2)

@[simp] theorem payloads_nil (toErr : Bool) : payloads toErr [] = [] := rfl

theorem payloads_cons (toErr : Bool) (w : StdType × Bytes) (ws : List (StdType × Bytes)) :
    payloads toErr (w :: ws) = (if w.1.toErr = toErr then w.2 else []) ++ payloads toErr ws := by
  unfold payloads
  by_cases h : w.1.toErr = toErr <;> simp [h]

/-! ## The buffer -/

namespace Buffer

/-- The bytes that were read and not yet taken apart. -/
def pending (b : Buffer) : Bytes := b.buf.take b.nr

variable {b : Buffer} {n : Nat}

theorem length_pending (h : b.nr ≤ b.buf.length) : b.pending.length = b.nr := by
  simp [pending, h]

theorem pending_store (h : b.nr ≤ b.buf.length) : (b.store data).pending = b.pending ++ data := by
  simp only [pending, store]
  rw [take_append_of_le_length (by simp [h]), take_of_length_le (by simp [h])]

theorem length_store (h : b.nr + data.length ≤ b.buf.length) :
    (b.store data).buf.length = b.buf.length := by
  simp only [store, length_append, length_take, length_drop]
  omega

theorem pending_extend (h : b.nr ≤ b.buf.length) : (b.extend n).pending = b.pending := by
  unfold extend pending
  split
  · simp [take_append_of_le_length h]
  · rfl

theorem nr_extend : (b.extend n).nr = b.nr := by
  unfold extend
  split <;> rfl

theorem le_length_extend : b.buf.length ≤ (b.extend n).buf.length := by
  unfold extend
  split <;> simp

theorem fits_extend : n + stdWriterPrefixLen ≤ (b.extend n).buf.length := by
  unfold extend
  split
  · simp only [length_append, length_replicate]
    omega
  · omega

theorem pending_shift (h : b.nr ≤ b.buf.length) : (b.shift n).pending = b.pending.drop n := by
  simp only [pending, shift]
  rw [take_append_of_le_length (by simp only [length_drop]; omega), drop_take]

theorem length_shift (h : n ≤ b.buf.length) : (b.shift n).buf.length = b.buf.length := by
  simp only [shift, length_append, length_drop]
  omega

/-- A part of the slice that was read completely is a part of what is pending. -/
theorem take_drop_buf (h : k + n ≤ b.nr) : (b.buf.drop k).take n = (b.pending.drop k).take n := by
  rw [pending, drop_take, take_take, Nat.min_eq_left (by omega)]

end Buffer

/-! ## The reading loop -/

section
variable {b : Buffer} (fuel : Nat) (hb : b.nr ≤ b.buf.length) (hneed : need ≤ b.buf.length)
include fuel hb hneed

/-- The reading loop moves bytes to the buffer until enough are there or the stream ends, and never
reads into an empty buffer. -/
theorem fill_script (hfuel : r.weight < fuel) (hreads : ∀ n ∈ r.reads, 0 < n) :
    ∃ res b' r', fill reader need fuel b r = some (res, b', r') ∧
      b'.nr ≤ b'.buf.length ∧ b'.buf.length = b.buf.length ∧ r'.weight ≤ r.weight ∧
      b'.pending ++ r'.remaining = b.pending ++ r.remaining ∧ (∀ n ∈ r'.reads, 0 < n) ∧
      (res = .full ∧ need ≤ b'.nr ∨ res = .short ∧ b'.nr < need ∧ r'.remaining = []) := by
  induction fuel generalizing b r with
  | zero => omega
  | succ fuel ih =>
    by_cases hlt : b.nr < need
    · rcases hr : r.read (b.buf.length - b.nr) with ⟨⟨data, er⟩, r'⟩
      have hpos : 0 < b.buf.length - b.nr := by omega
      have hlen := read_length hr
      have hnr : (b.store data).nr ≤ (b.store data).buf.length := by
        rw [length_store (by omega)]; simp only [store]; omega
      have hbuf : (b.store data).buf.length = b.buf.length := length_store (by omega)
      have heq : (b.store data).pending ++ r'.remaining = b.pending ++ r.remaining := by
        rw [pending_store hb, append_assoc, read_remaining hr]
      have hreads' : ∀ n ∈ r'.reads, 0 < n := by
        rw [read_reads hr]
        exact forall_mem_cons.2 ⟨hpos, hreads⟩
      rcases read_err hr with rfl | ⟨rfl, hend⟩
      · have hw := read_weight hpos hr
        obtain ⟨res, b', r'', h1, h2, h3, h4, h5, h6, h7⟩ := ih hnr (by omega) (by omega) hreads'
        refine ⟨res, b', r'', ?_, h2, by omega, by omega, by rw [h5, heq], h6, h7⟩
        simp [fill, hlt, hr, h1]
      · refine ⟨_, b.store data, r', by simp [fill, hlt, hr]; rfl, hnr, hbuf,
          read_weight_le hr, heq, hreads', ?_⟩
        by_cases h : (b.store data).nr < need
        · exact .inr ⟨if_pos h, h, hend⟩
        · exact .inl ⟨if_neg h, by omega⟩
    · exact ⟨.full, b, r, by simp [fill, hlt], hb, rfl, Nat.le_refl _, rfl, hreads,
        .inl ⟨rfl, by omega⟩⟩

/-- The reading loop succeeds exactly when the stream still has enough bytes. -/
theorem fill_full (hfuel : r.weight < fuel) (hreads : ∀ n ∈ r.reads, 0 < n)
    (ht : b.pending ++ r.remaining = t) (h : need ≤ t.length) :
    ∃ b' r', fill reader need fuel b r = some (.full, b', r') ∧
      b'.nr ≤ b'.buf.length ∧ b'.buf.length = b.buf.length ∧ r'.weight ≤ r.weight ∧
      b'.pending ++ r'.remaining = t ∧ (∀ n ∈ r'.reads, 0 < n) ∧ need ≤ b'.nr := by
  obtain ⟨res, b', r', h1, h2, h3, h4, h5, h6, ⟨rfl, h7⟩ | ⟨rfl, h7, h8⟩⟩ :=
    fill_script fuel hb hneed hfuel hreads
  · exact ⟨b', r', h1, h2, h3, h4, h5.trans ht, h6, h7⟩
  · rw [ht, h8, append_nil] at h5
    rw [← h5, length_pending h2] at h
    omega

theorem fill_short (hfuel : r.weight < fuel)
    (hreads : ∀ n ∈ r.reads, 0 < n) (ht : b.pending ++ r.remaining = t) (h : t.length < need) :
    ∃ b' r', fill reader need fuel b r = some (.short, b', r') ∧ ∀ n ∈ r'.reads, 0 < n := by
  obtain ⟨res, b', r', h1, h2, -, -, h5, h6, ⟨rfl, h7⟩ | ⟨rfl, -, -⟩⟩ :=
    fill_script fuel hb hneed hfuel hreads
  · have := congrArg List.length (h5.trans ht)
    rw [length_append, length_pending h2] at this
    omega
  · exact ⟨b', r', h1, h6⟩

end

/-! ## The copying loop -/

theorem take_drop_of_append_eq {p r t : Bytes} (h : p ++ r = t)
    (hk : k + m ≤ p.length) : (p.drop k).take m = (t.drop k).take m := by
  rw [← h, drop_append_of_le_length (by omega),
    take_append_of_le_length (by simp only [length_drop]; omega)]

theorem header_parse {buf : Bytes} (hsize : size < 2 ^ 32)
    (h : buf.take stdWriterPrefixLen = header c size) :
    buf[stdWriterFdIndex]?.getD 0 = c ∧ uint32 (buf.drop stdWriterSizeIndex) = size := by
  rw [← take_append_drop stdWriterPrefixLen buf, h]
  exact ⟨rfl, uint32_putUint32 hsize _⟩

theorem State.output_sink (toErr : Bool) (p : Bytes) (st : State Bytes Bytes ρ) :
    st.output .sink .sink toErr p = ((p.length, none), { st with
        dstout := st.dstout ++ (if toErr then [] else p)
        dsterr := st.dsterr ++ (if toErr then p else []) }) := by
  cases toErr <;> simp [State.output]

/-- The result of a copy that ran into the end of the stream after the frames `ws`. -/
def Delivered (ws : List (StdType × Bytes)) (st : State Bytes Bytes Script)
    (res : Option ((Nat × Option Err) × State Bytes Bytes Script)) : Prop :=
  ∃ st', res = some ((st.written + (ws.map (·.2.length)).sum, none), st') ∧
    st'.dstout = st.dstout ++ payloads false ws ∧ st'.dsterr = st.dsterr ++ payloads true ws ∧
    ∀ n ∈ st'.src.reads, 0 < n

theorem Delivered.stop (hreads : ∀ n ∈ r.reads, 0 < n) :
    Delivered [] st (some ((st.written, none), { st with buffer := b, src := r })) :=
  ⟨_, rfl, by simp, by simp, hreads⟩

/-- One more frame in front of what the rest of the loop delivers. -/
theorem Delivered.cons (h : Delivered ws
      { buffer := b, src := r, written := st.written + w.2.length,
        dstout := st.dstout ++ (if w.1.toErr then [] else w.2),
        dsterr := st.dsterr ++ (if w.1.toErr then w.2 else []) } res) :
          Delivered (w :: ws) st res := by
  obtain ⟨st', rfl, hout, herr, hreads⟩ := h
  refine ⟨st', by simp [Nat.add_assoc], ?_, ?_, hreads⟩
  · rw [hout, payloads_cons, append_assoc]
    cases w.1.toErr <;> rfl
  · rw [herr, payloads_cons, append_assoc]

theorem stdCopyLoop_mux (ws : List (StdType × Bytes)) (hws : ∀ w ∈ ws, w.2.length < 2 ^ 32)
    (fuel : Nat) {n : Nat} {st : State Bytes Bytes Script}
    (hb : st.buffer.nr ≤ st.buffer.buf.length) (hlen : stdWriterPrefixLen ≤ st.buffer.buf.length)
    (hfuel : ws.length + st.src.weight < fuel) (hreads : ∀ n ∈ st.src.reads, 0 < n)
    (heq : st.buffer.pending ++ st.src.remaining = (ws.flatMap frame).take n) :
    Delivered (completeFrames ws n) st (stdCopyLoop .sink .sink reader fuel st) := by
  induction ws generalizing n fuel st with
  | nil =>
    obtain ⟨fuel, rfl⟩ : ∃ k, fuel = k + 1 := ⟨fuel - 1, by omega⟩
    obtain ⟨b, r, hfill, hreads'⟩ := fill_short (fuel + 1) hb hlen (by omega) hreads heq
      (by simp [stdWriterPrefixLen])
    simp only [stdCopyLoop, hfill]
    exact .stop hreads'
  | cons w ws ih =>
    obtain ⟨fuel, rfl⟩ : ∃ k, fuel = k + 1 := ⟨fuel - 1, by omega⟩
    obtain ⟨hw, hws⟩ := forall_mem_cons.1 hws
    have hframe := length_frame w
    rw [length_cons] at hfuel
    rw [flatMap_cons] at heq
    generalize ht : (frame w ++ ws.flatMap frame).take n = t at heq
    -- The truncated connection is shorter than the first frame iff it was cut inside it.
    have htlen : ∀ k ≤ (frame w).length, (k ≤ t.length ↔ k ≤ n) := by
      intro k hk
      simp only [← ht, length_take, length_append]
      omega
    by_cases h8 : stdWriterPrefixLen ≤ n
    · obtain ⟨b, r, hfill, hbb, hbl, hrw, heqb, hreadsb, hneedb⟩ :=
        fill_full (fuel + 1) hb hlen (by omega) hreads heq ((htlen _ (by omega)).2 h8)
      have hhead : b.buf.take stdWriterPrefixLen = header w.1.toByte w.2.length := by
        have h0 := @take_drop_buf b stdWriterPrefixLen 0 (by omega)
        rw [take_drop_of_append_eq heqb (by rw [length_pending hbb]; omega)] at h0
        rw [drop_zero, drop_zero, ← ht, take_take, Nat.min_eq_left h8, frame,
          append_assoc, take_append_of_le_length (by simp)] at h0
        rw [h0, take_of_length_le (by simp)]
      obtain ⟨hfd, hsize⟩ := header_parse hw hhead
      -- The second reading loop starts from the extended buffer.
      have hext : (b.extend w.2.length).nr ≤ (b.extend w.2.length).buf.length := by
        rw [nr_extend]
        exact Nat.le_trans hbb le_length_extend
      have heqe : (b.extend w.2.length).pending ++ r.remaining = t := by
        rw [pending_extend hbb, heqb]
      by_cases hn : (frame w).length ≤ n
      · obtain ⟨b', r', hfill', hbb', hbl', hrw', heqb', hreadsb', hneedb'⟩ :=
          fill_full (fuel + 1) hext fits_extend (by omega) hreadsb heqe
            (by rw [← hframe]; exact (htlen _ (Nat.le_refl _)).2 hn)
        have hpay : (b'.buf.drop stdWriterPrefixLen).take w.2.length = w.2 := by
          rw [take_drop_buf (by omega),
            take_drop_of_append_eq heqb' (by rw [length_pending hbb']; omega), ← ht,
            drop_take, take_take, Nat.min_eq_left (by omega), frame, append_assoc,
            drop_left' (length_header ..), take_left' rfl]
        have hnext : (b'.shift (w.2.length + stdWriterPrefixLen)).pending ++ r'.remaining =
            (ws.flatMap frame).take (n - (frame w).length) := by
          rw [pending_shift hbb', ← drop_append_of_le_length
            (by rw [length_pending hbb']; exact hneedb'), heqb', ← hframe, ← ht,
            drop_take, drop_left' rfl]
        have hstep : stdCopyLoop .sink .sink reader (fuel + 1) st =
            stdCopyLoop .sink .sink reader fuel
              { buffer := b'.shift (w.2.length + stdWriterPrefixLen), src := r',
                written := st.written + w.2.length,
                dstout := st.dstout ++ (if w.1.toErr then [] else w.2),
                dsterr := st.dsterr ++ (if w.1.toErr then w.2 else []) } := by
          simp [stdCopyLoop, hfill, hfd, hsize, hfill', State.output_sink, hpay, -length_take]
        rw [hstep, completeFrames, if_pos hn]
        have hlens := b'.length_shift (n := w.2.length + stdWriterPrefixLen) (by omega)
        refine .cons (ih hws fuel ?_ ?_ ?_ hreadsb' hnext)
        · rw [hlens]; simp only [shift]; omega
        · rw [hlens]; omega
        · simp only; omega
      · obtain ⟨b', r', hfill', hreads'⟩ := fill_short (fuel + 1) hext fits_extend
          (by omega) hreadsb heqe (by have := htlen _ (Nat.le_refl _); omega)
        have hstep : stdCopyLoop .sink .sink reader (fuel + 1) st =
            some ((st.written, none), { st with buffer := b', src := r' }) := by
          simp [stdCopyLoop, hfill, hfd, hsize, hfill']
        rw [hstep, completeFrames, if_neg hn]
        exact .stop hreads'
    · obtain ⟨b, r, hfill, hreads'⟩ := fill_short (fuel + 1) hb hlen (by omega) hreads heq
        (by have := htlen stdWriterPrefixLen (by omega); omega)
      simp only [stdCopyLoop, hfill, completeFrames]
      rw [if_neg (by omega)]
      exact .stop hreads'

/-- **The round trip.** Multiplex any writes, cut the connection anywhere and hand it out in any
pieces: the copier delivers exactly the payloads of the complete frames, and never reads into an
empty buffer. -/
theorem stdCopy_mux (ws : List (StdType × Bytes)) (hws : ∀ w ∈ ws, w.2.length < 2 ^ 32)
    (n : Nat) (chunks : List Bytes) (eofWithData : Bool) (h : chunks.flatten = (mux ws).take n) :
    ∃ enough, ∀ fuel ≥ enough, ∃ st, stdCopy .sink .sink reader fuel [] [] { chunks, eofWithData } =
        some ((((completeFrames ws n).map (·.2.length)).sum, none), st) ∧
      st.dstout = payloads false (completeFrames ws n) ∧
      st.dsterr = payloads true (completeFrames ws n) ∧ ∀ k ∈ st.src.reads, 0 < k := by
  refine ⟨ws.length + weight { chunks, eofWithData } + 1, fun fuel hfuel => ?_⟩
  rw [mux_eq] at h
  obtain ⟨st, hst, hout, herr, hreads⟩ := @stdCopyLoop_mux ws hws fuel n
    { buffer := ⟨replicate startingBufLen 0, 0⟩, written := 0, dstout := [],
             dsterr := [], src := { chunks, eofWithData } }
    (Nat.zero_le _) (by rw [length_replicate]; decide) (by simp only; omega) (by simp)
    (by simpa [Buffer.pending, remaining] using h)
  exact ⟨st, by rw [stdCopy, hst, Nat.zero_add], by simpa using hout, by simpa using herr, hreads⟩

/-- A connection cut inside the header of its second frame. -/
theorem stdCopy_mux_cut_header : ∃ enough, ∀ fuel ≥ enough,
    ∃ st, stdCopy .sink .sink reader fuel [] []
        { chunks := [[1, 0, 0], [0, 0, 0, 0, 2, 104], [], [105, 2, 0, 0, 0, 0]],
          eofWithData := true } = some ((2, none), st) ∧
      st.dstout = [104, 105] ∧ st.dsterr = [] ∧ ∀ k ∈ st.src.reads, 0 < k :=
  stdCopy_mux [(.stdout, [104, 105]), (.stderr, [33])] (by decide) 15
    [[1, 0, 0], [0, 0, 0, 0, 2, 104], [], [105, 2, 0, 0, 0, 0]] true (by decide)

end Docker.Stdcopy
