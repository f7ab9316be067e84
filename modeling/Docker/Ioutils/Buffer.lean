import Mathlib

/-!
# Fixed buffers and their pools

Model of `pkg/ioutils/buffer.go` and of `getBuffer` and `returnBuffer` in `bytespipe.go`. A buffer
from a pool still has the bytes of its former use behind `pos`.
-/

namespace Docker.Ioutils

open List

abbrev Bytes := List UInt8

inductive Error where
  /-- `io.EOF` -/
  | eof
  /-- `ErrClosed`: `write to closed BytesPipe` -/
  | closed
  /-- `errBufferFull`: `buffer is full` -/
  | bufferFull
  /-- `io.ErrShortWrite` -/
  | shortWrite
  /-- An error given to `CloseWithError`. -/
  | other (text : String)
  deriving DecidableEq

/-- `buf` is the array up to its capacity. -/
@[ext]
structure FixedBuffer where
  buf : Bytes
  pos : Nat := 0
  lastRead : Nat := 0
  pos_le : pos ≤ buf.length := by omega
  lastRead_le : lastRead ≤ pos := by omega
  deriving DecidableEq

namespace FixedBuffer

variable (b : FixedBuffer) (p : Bytes)

def cap : Nat := b.buf.length

def len : Nat := b.pos - b.lastRead

/-- The bytes between `lastRead` and `pos`, `String` in the source. -/
def unread : Bytes := (b.buf.take b.pos).drop b.lastRead

def room : Nat := min (b.cap - b.pos) p.length

def written : FixedBuffer where
  buf := b.buf.take b.pos ++ (p.take (b.room p) ++ b.buf.drop (b.pos + b.room p))
  pos := b.pos + b.room p
  lastRead := b.lastRead
  pos_le := by
    have := b.pos_le
    simp only [length_append, length_take, length_drop, room, cap]
    omega
  lastRead_le := Nat.le_add_right_of_le b.lastRead_le

def write : Nat × Option Error × FixedBuffer :=
  let n := b.room p
  let b' := b.written p
  if n < p.length then (n, some (if b'.pos = b'.cap then .bufferFull else .shortWrite), b')
    else (n, none, b')

/-- `Read` into a slice of `k` bytes: the bytes copied and the buffer. -/
def read (k : Nat) : Bytes × FixedBuffer :=
  (b.unread.take k, { b with
      lastRead := b.lastRead + min k b.len
      lastRead_le := by
        have := b.lastRead_le
        simp only [len]
        omega })

def reset : FixedBuffer := { buf := b.buf }

variable {b p}

theorem length_unread : b.unread.length = b.len := by
  have := b.pos_le
  rw [unread, length_drop, length_take, len]
  omega

theorem room_le : b.room p ≤ p.length := Nat.min_le_right ..

@[simp] theorem cap_written : (b.written p).cap = b.cap := by
  simp only [cap, written, room, length_append, length_take, length_drop]
  omega

@[simp] theorem len_written : (b.written p).len = b.len + b.room p := by
  have := b.lastRead_le
  simp only [len, written]
  omega

@[simp] theorem unread_written : (b.written p).unread = b.unread ++ p.take (b.room p) := by
  have hpos := b.pos_le
  have hlast := b.lastRead_le
  have htake : ((b.written p).buf).take (b.written p).pos = b.buf.take b.pos ++
      p.take (b.room p) := by
    have hlen : (b.buf.take b.pos ++ p.take (b.room p)).length = b.pos + b.room p := by
      rw [length_append, length_take, length_take, Nat.min_eq_left hpos, Nat.min_eq_left room_le]
    simp only [written]
    rw [← append_assoc, ← hlen, take_left]
  rw [unread, htake]
  exact drop_append_of_le_length (hlast.trans_eq (length_take_of_le hpos).symm)

theorem pos_written_of_lt (h : b.room p < p.length) : (b.written p).pos = b.cap := by
  have := b.pos_le
  simp only [written, room, cap] at *
  omega

theorem write_eq : b.write p = (b.room p, if b.room p < p.length then some .bufferFull else none,
      b.written p) := by
  simp only [write, cap_written]
  by_cases h : b.room p < p.length
  · simp only [if_pos h, if_pos (pos_written_of_lt h)]
  · simp only [if_neg h]

theorem unread_read : (b.read k).1 ++ (b.read k).2.unread = b.unread := by
  have hdrop : (b.read k).2.unread = b.unread.drop (min k b.len) := by
    simp only [read, unread, drop_drop]
  have htake : (b.read k).1 = b.unread.take (min k b.len) := by
    rw [← length_unread]
    exact take_eq_take_min
  rw [hdrop, htake, take_append_drop]

theorem len_read : (b.read k).1.length + (b.read k).2.len = b.len := by
  rw [← length_unread, ← length_unread, ← length_append, unread_read]

def Fresh (b : FixedBuffer) (size : Nat) : Prop := b.cap = size ∧ b.pos = 0 ∧ b.lastRead = 0

theorem Fresh.unread (h : b.Fresh size) : b.unread = [] := by
  rw [FixedBuffer.unread, h.2.1, take_zero, drop_nil]

theorem Fresh.len (h : b.Fresh size) : b.len = 0 := by rw [FixedBuffer.len, h.2.1, Nat.zero_sub]

end FixedBuffer

/-- `bufPools`: buffers that were given back, by capacity. -/
structure Pool where
  buffers : Nat → List FixedBuffer := fun _ => []
  fresh : ∀ size, ∀ b ∈ buffers size, b.Fresh size := by simp

namespace Pool

variable (pool : Pool)

def getBuffer (size : Nat) : FixedBuffer × Pool :=
  match h : pool.buffers size with
  | [] => ({ buf := .replicate size 0 }, pool)
  | b :: bs =>
    (b, {
      buffers := fun n => if n = size then bs else pool.buffers n
      fresh := by
        intro n b' hb'
        split at hb'
        · next hn => exact hn ▸ pool.fresh size b' (h ▸ mem_cons_of_mem _ hb')
        · exact pool.fresh n b' hb' })

def returnBuffer (b : FixedBuffer) : Pool where
  buffers n := if n = b.reset.cap then b.reset :: pool.buffers n else pool.buffers n
  fresh := by
    intro n b' hb'
    split at hb'
    · next hn =>
      obtain rfl | hb' := mem_cons.1 hb'
      exacts [⟨hn.symm, rfl, rfl⟩, pool.fresh n b' hb']
    · exact pool.fresh n b' hb'

theorem fresh_getBuffer (size : Nat) : (pool.getBuffer size).1.Fresh size := by
  unfold getBuffer
  split
  · exact ⟨length_replicate, rfl, rfl⟩
  · next b bs h => exact pool.fresh size b (h ▸ mem_cons_self)

end Pool

end Docker.Ioutils
