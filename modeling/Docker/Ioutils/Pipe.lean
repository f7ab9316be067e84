import Docker.Ioutils.Buffer
import Docker.Lib.Transition

/-!
# The bytes pipe

`BytesPipe` in `pkg/ioutils/bytespipe.go` under any number of concurrent calls. A step is one turn
of a loop, or what is between two of them, with the lock held; a call that waits gives up the lock
until another call broadcasts.

The pools are shared with other pipes, so they can change at any time. The state also logs the byte
segments that writes put into the buffers, and what reads return.
-/

namespace Docker.Ioutils

open Transition Option

def maxCap : Nat := 1000000
def minCap : Nat := 64
def blockThreshold : Nat := 1000000

structure BytesPipe where
  buf : List FixedBuffer
  bufLen : Nat := 0
  closeErr : Option Error := none
  deriving DecidableEq

def BytesPipe.unread (bp : BytesPipe) : Bytes := bp.buf.flatMap FixedBuffer.unread

/-- A call with its arguments; a read has the length of its slice. -/
inductive Op where
  | write (p : Bytes)
  | read (k : Nat)
  | closeWithError (err : Option Error)
  deriving DecidableEq

inductive Pc where
  | start
  /-- The head of `loop0`. -/
  | writeLoop (p : Bytes) (written : Nat)
  /-- The inner loop, for a buffer `b` that was filled. -/
  | writeNext (p : Bytes) (written cap : Nat)
  | writeAsleep (p : Bytes) (written cap : Nat)
  | writeAwake (p : Bytes) (written cap : Nat)
  | wrote (n : Nat) (err : Option Error)
  | readAsleep (k : Nat)
  | readAwake (k : Nat)
  /-- The loop of `Read`; `k` bytes of the slice are left, and `data` has been copied. -/
  | readLoop (k : Nat) (data : Bytes)
  /-- The lock has been released, and `bp.closeErr` is about to be returned. -/
  | readClosed
  | didRead (data : Bytes) (err : Option Error)
  | closed
  /-- An index is out of range. -/
  | panic
  deriving DecidableEq

namespace Pc

def holds : Pc → Bool
  | .writeLoop .. | .writeNext .. | .readLoop .. => true
  | _ => false

def wake : Pc → Pc
  | .writeAsleep p written cap => .writeAwake p written cap
  | .readAsleep k => .readAwake k
  | pc => pc

def data : Pc → Bytes
  | .readLoop _ data => data
  | _ => []

end Pc

structure Call where
  op : Op
  pc : Pc
  deriving DecidableEq

structure State where
  pipe : BytesPipe
  pool : Pool
  lock : Option Nat := none
  calls : List Call := []
  /-- The segments that writes have put into a buffer. -/
  accepted : List (Nat × Bytes) := []
  /-- What reads have returned. -/
  returned : List (Nat × Bytes) := []

inductive Label where
  | call (op : Op)
  | run (c : Nat)
  | setPool (pool : Pool)

def State.init (pool : Pool) : State :=
  let (b, pool) := pool.getBuffer minCap
  { pipe := { buf := [b] }, pool := pool }

namespace State

variable (s : State) (c : Nat)

def goto (pc : Pc) : State :=
  { s with calls := s.calls.modify c fun call => { call with pc := pc } }

def take : State := { s with lock := some c }

def unlock : State := { s with lock := none }

def broadcast : State :=
  { s with calls := s.calls.map fun call => { call with pc := call.pc.wake } }

/-- The buffers in front of the last one, the last one, and the pools; a buffer is added if there is
none. -/
def lastBuffer : List FixedBuffer × FixedBuffer × Pool :=
  match s.pipe.buf.getLast? with
  | none => ([], s.pool.getBuffer minCap)
  | some b => (s.pipe.buf.dropLast, b, s.pool)

/-- The state with `p` written to the last buffer, as far as there is room. -/
def accept (p : Bytes) : State :=
  let (front, b, pool) := s.lastBuffer
  let (n, _, b') := b.write p
  { s with
    pipe := { s.pipe with buf := front ++ [b'], bufLen := s.pipe.bufLen + n }
    pool := pool
    accepted := s.accepted ++ [(c, p.take n)] }

def writeLoop (p : Bytes) (written : Nat) : State :=
  if s.pipe.closeErr.isSome then s.unlock.goto c (.wrote written (some .closed))
  else
    let b := s.lastBuffer.2.1
    let (n, err, _) := b.write p
    let s := s.accept c p
    if err.isSome ∧ err ≠ some .bufferFull then s.broadcast.unlock.goto c (.wrote (written + n) err)
    else if p.length = n then s.broadcast.unlock.goto c (.wrote (written + n) none)
    else s.goto c (.writeNext (p.drop n) (written + n) b.cap)

def grow (size : Nat) : State :=
  let (b, pool) := s.pool.getBuffer size
  { s with pipe := { s.pipe with buf := s.pipe.buf ++ [b] }, pool := pool }

def writeNext (p : Bytes) (written cap : Nat) : State :=
  if s.pipe.bufLen ≥ blockThreshold then s.unlock.goto c (.writeAsleep p written cap)
  else (s.grow (if cap * 2 > maxCap then maxCap else cap * 2)).goto c (.writeLoop p written)

def finishRead (data : Bytes) (err : Option Error) : State :=
  { s with returned := s.returned ++ [(c, data)] }.goto c (.didRead data err)

/-- The state with up to `k` bytes read from the first buffer, which goes to the pool when it is
empty. -/
def consume (k : Nat) (b : FixedBuffer) (bs : List FixedBuffer) : State :=
  let (data, b') := b.read k
  { s with
    pipe := { s.pipe with
      buf := if b'.len = 0 then bs else b' :: bs
      bufLen := s.pipe.bufLen - data.length }
    pool := if b'.len = 0 then s.pool.returnBuffer b' else s.pool }

def readLoop (k : Nat) (data : Bytes) : State :=
  if 0 < s.pipe.bufLen then
    match s.pipe.buf with
    | [] => s.goto c .panic
    | b :: bs =>
      let read := (b.read k).1
      let s := s.consume k b bs
      if k = read.length then s.broadcast.unlock.finishRead c (data ++ read) none
      else s.goto c (.readLoop (k - read.length) (data ++ read))
  else s.broadcast.unlock.finishRead c data none

def exec (call : Call) : Option State :=
  match call.pc, call.op with
  | .start, .write p => if s.lock = none then some ((s.take c).goto c (.writeLoop p 0)) else none
  | .start, .read k =>
    if s.lock = none then
      some (if s.pipe.bufLen = 0 then
          if s.pipe.closeErr.isSome then s.goto c .readClosed else s.goto c (.readAsleep k)
        else (s.take c).goto c (.readLoop k []))
    else none
  | .start, .closeWithError err =>
    if s.lock = none then
      some (({ s with pipe := { s.pipe with closeErr := some (err.getD .eof) } }.broadcast).goto c
        .closed)
    else none
  | .writeLoop p written, _ => some (s.writeLoop c p written)
  | .writeNext p written cap, _ => some (s.writeNext c p written cap)
  | .writeAwake p written cap, _ =>
    if s.lock = none then
      some ((s.take c).goto c (if s.pipe.closeErr.isSome then .writeLoop p written
        else .writeNext p written cap))
    else none
  | .readAwake k, _ =>
    if s.lock = none then
      some (if s.pipe.bufLen = 0 ∧ s.pipe.closeErr.isSome then s.finishRead c [] s.pipe.closeErr
        else (s.take c).goto c (.readLoop k []))
    else none
  | .readLoop k data, _ => some (s.readLoop c k data)
  | .readClosed, _ => some (s.finishRead c [] s.pipe.closeErr)
  | _, _ => none

end State

def step : Label → State → Option State
  | .call op, s => some { s with calls := s.calls ++ [⟨op, .start⟩] }
  | .run c, s => s.calls[c]?.bind (s.exec c)
  | .setPool pool, s => some { s with pool := pool }

/-! ## What a step can do -/

inductive Step (s : State) : Label → State → Prop where
  | call (op : Op) : Step s (.call op) { s with calls := s.calls ++ [⟨op, .start⟩] }
  | setPool (pool : Pool) : Step s (.setPool pool) { s with pool := pool }
  | enterWrite {c : Nat} {p : Bytes} (hc : s.calls[c]? = some ⟨.write p, .start⟩)
    (hlock : s.lock = none) :
    Step s (.run c) ((s.take c).goto c (.writeLoop p 0))
  | writeClosed {c : Nat} {op : Op} {p : Bytes} {w : Nat}
    (hc : s.calls[c]? = some ⟨op, .writeLoop p w⟩)
      (hclosed : s.pipe.closeErr.isSome) :
    Step s (.run c) (s.unlock.goto c (.wrote w (some .closed)))
  | writeAll {c : Nat} {op : Op} {p : Bytes} {w : Nat}
    (hc : s.calls[c]? = some ⟨op, .writeLoop p w⟩)
      (hopen : s.pipe.closeErr = none) (hroom : s.lastBuffer.2.1.room p = p.length) :
    Step s (.run c) ((s.accept c p).broadcast.unlock.goto c (.wrote (w + p.length) none))
  | writePart {c : Nat} {op : Op} {p : Bytes} {w n : Nat}
    (hc : s.calls[c]? = some ⟨op, .writeLoop p w⟩)
      (hopen : s.pipe.closeErr = none) (hn : s.lastBuffer.2.1.room p = n) (hroom : n < p.length) :
    Step s (.run c) ((s.accept c p).goto c (.writeNext (p.drop n) (w + n) s.lastBuffer.2.1.cap))
  | writeWait {c : Nat} {op : Op} {p : Bytes} {w cap : Nat}
    (hc : s.calls[c]? = some ⟨op, .writeNext p w cap⟩)
      (hlen : blockThreshold ≤ s.pipe.bufLen) :
    Step s (.run c) (s.unlock.goto c (.writeAsleep p w cap))
  | writeGrow {c : Nat} {op : Op} {p : Bytes} {w cap : Nat}
    (hc : s.calls[c]? = some ⟨op, .writeNext p w cap⟩)
      (hlen : s.pipe.bufLen < blockThreshold) :
    Step s (.run c) ((s.grow (if cap * 2 > maxCap then maxCap else cap * 2)).goto c
      (.writeLoop p w))
  | writeResume {c : Nat} {op : Op} {p : Bytes} {w cap : Nat}
    (hc : s.calls[c]? = some ⟨op, .writeAwake p w cap⟩)
      (hlock : s.lock = none) :
    Step s (.run c) ((s.take c).goto c
      (if s.pipe.closeErr.isSome then .writeLoop p w else .writeNext p w cap))
  | readClosed {c k : Nat} (hc : s.calls[c]? = some ⟨.read k, .start⟩) (hlock : s.lock = none)
      (hlen : s.pipe.bufLen = 0) (hclosed : s.pipe.closeErr.isSome) :
    Step s (.run c) (s.goto c .readClosed)
  | readWait {c k : Nat} (hc : s.calls[c]? = some ⟨.read k, .start⟩) (hlock : s.lock = none)
      (hlen : s.pipe.bufLen = 0) (hopen : s.pipe.closeErr = none) :
    Step s (.run c) (s.goto c (.readAsleep k))
  | readEnter {c k : Nat} {call : Call} (hc : s.calls[c]? = some call) (hlock : s.lock = none)
      (hpc : call = ⟨.read k, .start⟩ ∧ 0 < s.pipe.bufLen ∨ call.pc = .readAwake k)
      (hsome : ¬ (s.pipe.bufLen = 0 ∧ s.pipe.closeErr.isSome)) :
    Step s (.run c) ((s.take c).goto c (.readLoop k []))
  | readErr {c : Nat} {call : Call} (hc : s.calls[c]? = some call)
      (hpc : call.pc = .readClosed ∨ ∃ k, call.pc = .readAwake k ∧ s.lock = none ∧
        s.pipe.bufLen = 0 ∧
        s.pipe.closeErr.isSome) :
    Step s (.run c) (s.finishRead c [] s.pipe.closeErr)
  | readMore {c k : Nat} {op : Op} {data : Bytes} {b : FixedBuffer} {bs : List FixedBuffer}
      (hc : s.calls[c]? = some ⟨op, .readLoop k data⟩) (hlen : 0 < s.pipe.bufLen)
        (hbuf : s.pipe.buf = b :: bs) :
    Step s (.run c) ((s.consume k b bs).goto c
      (.readLoop (k - (b.read k).1.length) (data ++ (b.read k).1)))
  | readFull {c k : Nat} {op : Op} {data : Bytes} {b : FixedBuffer} {bs : List FixedBuffer}
      (hc : s.calls[c]? = some ⟨op, .readLoop k data⟩) (hlen : 0 < s.pipe.bufLen)
        (hbuf : s.pipe.buf = b :: bs)
      (hfull : k = (b.read k).1.length) :
    Step s (.run c) ((s.consume k b bs).broadcast.unlock.finishRead c (data ++ (b.read k).1) none)
  | readPanic {c k : Nat} {op : Op} {data : Bytes} (hc : s.calls[c]? = some ⟨op, .readLoop k data⟩)
      (hlen : 0 < s.pipe.bufLen) (hbuf : s.pipe.buf = []) :
    Step s (.run c) (s.goto c .panic)
  | readEmpty {c k : Nat} {op : Op} {data : Bytes} (hc : s.calls[c]? = some ⟨op, .readLoop k data⟩)
      (hlen : s.pipe.bufLen = 0) :
    Step s (.run c) (s.broadcast.unlock.finishRead c data none)
  | close {c : Nat} {err : Option Error} (hc : s.calls[c]? = some ⟨.closeWithError err, .start⟩)
      (hlock : s.lock = none) :
    Step s (.run c)
      (({ s with pipe := { s.pipe with closeErr := some (err.getD .eof) } }.broadcast).goto c
      .closed)

theorem writeLoop_step (hc : s.calls[c]? = some ⟨op, .writeLoop p w⟩) :
    Step s (.run c) (s.writeLoop c p w) := by
  unfold State.writeLoop
  split
  · next h => exact .writeClosed hc h
  · next h =>
    have hopen : s.pipe.closeErr = none := by simpa using h
    rcases Nat.lt_or_eq_of_le FixedBuffer.room_le with hroom | hroom
    · have hne : p.length ≠ s.lastBuffer.2.1.room p := Nat.ne_of_gt hroom
      simp only [FixedBuffer.write_eq, if_pos hroom, if_neg hne, ne_eq, not_true_eq_false,
        and_false, if_false]
      exact .writePart hc hopen rfl hroom
    · simp only [FixedBuffer.write_eq, hroom, Nat.lt_irrefl, if_false, isSome_none,
        Bool.false_eq_true, false_and,
        if_true]
      exact .writeAll hc hopen hroom

theorem readLoop_step (hc : s.calls[c]? = some ⟨op, .readLoop k data⟩) :
    Step s (.run c) (s.readLoop c k data) := by
  unfold State.readLoop
  split
  · next hlen =>
    split
    · next hbuf => exact .readPanic hc hlen hbuf
    · next b bs hbuf =>
      dsimp only
      split
      · next hfull => exact .readFull hc hlen hbuf hfull
      · exact .readMore hc hlen hbuf
  · next hlen => exact .readEmpty hc (by omega)

theorem step_cases (h : step l s = some s') : Step s l s' := by
  cases l with
  | call op => cases h; exact .call op
  | setPool pool => cases h; exact .setPool pool
  | run c =>
    obtain ⟨⟨op, pc⟩, hc, h⟩ := bind_eq_some_iff.1 h
    cases pc with
    | start =>
      cases op with
      | write p =>
        simp only [State.exec, ite_none_right_eq_some, some_inj] at h
        obtain ⟨hlock, rfl⟩ := h
        exact .enterWrite hc hlock
      | read k =>
        simp only [State.exec, ite_none_right_eq_some, some_inj] at h
        obtain ⟨hlock, rfl⟩ := h
        split
        · next hlen =>
          split
          · next hclosed => exact .readClosed hc hlock hlen hclosed
          · next hclosed => exact .readWait hc hlock hlen (by simpa using hclosed)
        · next hlen =>
            exact .readEnter hc hlock (.inl ⟨rfl, Nat.pos_of_ne_zero hlen⟩) fun h => hlen h.1
      | closeWithError err =>
        simp only [State.exec, ite_none_right_eq_some, some_inj] at h
        obtain ⟨hlock, rfl⟩ := h
        exact .close hc hlock
    | writeLoop p w =>
      cases h
      exact writeLoop_step hc
    | writeNext p w cap =>
      cases h
      unfold State.writeNext
      split
      · next hlen => exact .writeWait hc hlen
      · next hlen => exact .writeGrow hc (Nat.lt_of_not_le hlen)
    | writeAwake p w cap =>
      simp only [State.exec, ite_none_right_eq_some, some_inj] at h
      obtain ⟨hlock, rfl⟩ := h
      exact .writeResume hc hlock
    | readAwake k =>
      simp only [State.exec, ite_none_right_eq_some, some_inj] at h
      obtain ⟨hlock, rfl⟩ := h
      split
      · next hclosed => exact .readErr hc (.inr ⟨k, rfl, hlock, hclosed⟩)
      · next hclosed => exact .readEnter hc hlock (.inr rfl) hclosed
    | readLoop k data =>
      cases h
      exact readLoop_step hc
    | readClosed =>
      cases h
      exact .readErr hc (.inl rfl)
    | writeAsleep | wrote | readAsleep | didRead | closed | panic => simp [State.exec] at h

end Docker.Ioutils
