import Mathlib

/-!
# Byte streams

Readers and writers in the style of Go's `io` package: a `Reader` is asked for at most `n` bytes and
answers with data and possibly an error, the end of the stream being `Err.eof`; a `Writer` answers
with the number of bytes it took.

Whatever a reader does on one run is the run of the `Script` of the pieces it returned, so a
statement about every script is a statement about every reader that ends.
-/

namespace Stream

open List

abbrev Bytes := List UInt8

inductive Err where
  | eof
  | shortWrite
  | other (msg : String)
  deriving DecidableEq

structure Reader (ρ : Type) where
  /-- Read into a buffer of the given length. -/
  read : Nat → ρ → (Bytes × Option Err) × ρ

structure Writer (σ : Type) where
  write : Bytes → σ → (Nat × Option Err) × σ

/-- The writer that accepts everything; its state is what was written so far. -/
def Writer.sink : Writer Bytes where
  write p s := ((p.length, none), s ++ p)

@[simp] theorem Writer.sink_write (p s : Bytes) : sink.write p s = ((p.length, none), s ++ p) := rfl

/-- A reader given by the pieces it hands out, in parts where the buffer is shorter. `eofWithData`
says that the last piece comes together with the end of the stream. `reads` records the lengths of
the buffers. -/
structure Script where
  chunks : List Bytes
  eofWithData : Bool
  reads : List Nat := []
  deriving DecidableEq

namespace Script

def read (n : Nat) (s : Script) : (Bytes × Option Err) × Script :=
  match s.chunks with
  | [] => (([], some .eof), { s with reads := n :: s.reads })
  | c :: cs =>
    if c.length ≤ n then
      ((c, if cs = [] ∧ s.eofWithData = true then some .eof else none),
        { s with chunks := cs, reads := n :: s.reads })
    else
      ((c.take n, none), { s with chunks := c.drop n :: cs, reads := n :: s.reads })

def reader : Reader Script := ⟨read⟩

def remaining (s : Script) : Bytes := s.chunks.flatten

/-- Bounds the number of reads until the end of the stream is reported. -/
def weight (s : Script) : Nat := s.chunks.length + s.remaining.length

variable {s s' : Script} {data : Bytes} {er : Option Err} {n : Nat}

@[simp] theorem reader_read : reader.read n s = s.read n := rfl

section
variable (h : s.read n = ((data, er), s'))
include h

theorem read_reads : s'.reads = n :: s.reads := by
  unfold read at h
  split at h
  · cases h; rfl
  · split at h <;> cases h <;> rfl

theorem read_remaining : data ++ s'.remaining = s.remaining := by
  unfold read at h
  split at h
  next hc => cases h; simp [remaining, hc]
  next c cs hc =>
    split at h <;> cases h
    · simp [remaining, hc]
    · simp [remaining, hc, ← append_assoc]

theorem read_length : data.length ≤ n := by
  unfold read at h
  split at h
  · cases h; simp
  · split at h <;> cases h
    · assumption
    · exact length_take_le ..

/-- A script reports no error but the end, and then nothing is left. -/
theorem read_err : er = none ∨ (er = some .eof ∧ s'.remaining = []) := by
  unfold read at h
  split at h
  next hc => cases h; simp [remaining, hc]
  next c cs hc =>
    split at h <;> cases h
    · by_cases he : cs = [] ∧ s.eofWithData = true
      · simp [he, remaining]
      · simp [he]
    · simp

theorem read_weight_le : s'.weight ≤ s.weight := by
  unfold read at h
  split at h
  · cases h; simp [weight, remaining]
  next c cs hc =>
    split at h <;> cases h <;> simp only [weight, remaining, hc, length_cons,
      flatten_cons, length_append, length_drop] <;> omega

end

/-- A read into a non-empty buffer that does not report the end makes progress. -/
theorem read_weight (hn : 0 < n) (h : s.read n = ((data, none), s')) : s'.weight < s.weight := by
  unfold read at h
  split at h
  · cases h
  next c cs hc =>
    split at h <;> simp only [Prod.mk.injEq] at h <;> obtain ⟨⟨-, -⟩, rfl⟩ := h
    · simp only [weight, remaining, hc, length_cons, flatten_cons, length_append]
      omega
    · simp only [weight, remaining, hc, length_cons, flatten_cons, length_append, length_drop]
      omega

end Script

/-! ## Searching -/

section
variable {c : UInt8} {p : Bytes} {q : Nat}

theorem eq_of_idxOf? (h : p.idxOf? c = some q) : p = p.take q ++ c :: p.drop (q + 1) := by
  obtain ⟨hq, hc, -⟩ := idxOf?_eq_some_iff.1 h
  rw [← hc, ← drop_eq_getElem_cons hq, take_append_drop]

theorem lt_of_idxOf? (h : p.idxOf? c = some q) : q < p.length := (idxOf?_eq_some_iff.1 h).1

theorem not_mem_take_of_idxOf? (h : p.idxOf? c = some q) : c ∉ p.take q := by
  obtain ⟨hq, -, hfirst⟩ := idxOf?_eq_some_iff.1 h
  intro hmem
  obtain ⟨j, hj, he⟩ := mem_iff_getElem.1 hmem
  rw [getElem_take] at he
  exact hfirst j (by rw [length_take] at hj; omega) he

end

end Stream
