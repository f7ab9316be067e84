import Docker.Lib.Stream

/-!
# Readers with a position

A content with a position in it, read and moved the way Go's `bytes.Reader` or a file is: a position
behind the end is allowed and reads nothing, a position in front of the start is refused.
-/

namespace Stream

inductive Whence where
  | seekSet
  | seekCur
  | seekEnd
  | invalid (whence : Int)
  deriving DecidableEq

structure Cursor where
  content : Bytes
  offset : Nat := 0
  deriving DecidableEq

namespace Cursor

def rest (c : Cursor) : Bytes := c.content.drop c.offset

def size (c : Cursor) : Nat := c.content.length

def target (c : Cursor) (offset : Int) : Whence → Except Err Int
  | .seekSet => .ok offset
  | .seekCur => .ok (c.offset + offset)
  | .seekEnd => .ok (c.size + offset)
  | .invalid _ => .error (.other "invalid whence")

def seek (c : Cursor) (offset : Int) (whence : Whence) : Except Err (Int × Cursor) := do
  let abs ← c.target offset whence
  if abs < 0 then throw (.other "negative position")
    else return (abs, { c with offset := abs.toNat })

/-- `Seek`, where the error is dropped. -/
def moved (c : Cursor) (offset : Int) (whence : Whence) : Cursor :=
  match c.seek offset whence with
  | .ok (_, c) => c
  | .error _ => c

/-- At most `n` bytes, and as many as there are. -/
def copyN (c : Cursor) (n : Nat) : Bytes × Cursor :=
  (c.rest.take n, { c with offset := c.offset + (c.rest.take n).length })

def read (c : Cursor) (n : Nat) : (Bytes × Option Err) × Cursor :=
  ((c.rest.take n, if n ≠ 0 ∧ c.rest = [] then some .eof else none), (c.copyN n).2)

variable {c : Cursor} {n : Nat}

theorem seek_of_target {offset : Int} (h : c.target offset whence = .ok (n : Int)) :
    c.seek offset whence = .ok ((n : Int), { c with offset := n }) := by
  simp [seek, h, bind, Except.bind, pure, Except.pure]

theorem seek_set (c : Cursor) (n : Nat) :
    c.seek n .seekSet = .ok ((n : Int), { c with offset := n }) :=
  seek_of_target rfl

theorem seek_end (c : Cursor) : c.seek 0 .seekEnd =
    .ok ((c.size : Int), { c with offset := c.size }) :=
  seek_of_target (congrArg _ (Int.add_zero _))

theorem seek_cur (c : Cursor) : c.seek 0 .seekCur = .ok ((c.offset : Int), c) :=
  seek_of_target (congrArg _ (Int.add_zero _))

theorem moved_set (c : Cursor) (n : Nat) : c.moved n .seekSet = { c with offset := n } := by
  rw [moved, seek_set]

@[simp] theorem content_copyN : (c.copyN n).2.content = c.content := rfl

theorem length_rest : c.rest.length = c.size - c.offset := List.length_drop

theorem copyN_of_le (h : n ≤ c.rest.length) : (c.copyN n).2.offset = c.offset + n := by
  rw [copyN, List.length_take, Nat.min_eq_left h]

theorem offset_copyN_of_ge (h : c.rest.length ≤ n) (hc : c.offset ≤ c.size) :
    (c.copyN n).2.offset = c.size := by
  have hrest := c.length_rest
  rw [copyN, List.take_of_length_le h]
  dsimp only
  omega

end Cursor

end Stream
