import Docker.Ioutils.Fifo

/-!
# What waiting for the pipe is good for

A write waits while `blockThreshold` bytes are in the buffers, which bounds what the pipe holds. A
read waits at most once, so a read that was woken can come back with nothing.
-/

namespace Docker.Ioutils

open Transition List

variable {s s' : State} {c k : Nat} {call : Call} {b : FixedBuffer} {bp bp' : BytesPipe}

/-! ## The memory of the pipe -/

def BytesPipe.spare (bp : BytesPipe) : Nat := bp.buf.getLast?.elim 0 fun b => b.cap - b.pos

structure BytesPipe.Bounded (bp : BytesPipe) : Prop where
  cap : ∀ b ∈ bp.buf, b.cap ≤ maxCap
  total : bp.bufLen + bp.spare < 2 * blockThreshold

namespace BytesPipe.Bounded

theorem of_concat (hbuf : bp.buf = f ++ [b]) (hfront : ∀ b ∈ f, b.cap ≤ maxCap)
    (hcap : b.cap ≤ maxCap) (htotal : bp.bufLen + (b.cap - b.pos) < 2 * blockThreshold) :
    bp.Bounded where
  cap b' hb' := by
    rw [hbuf, mem_append, mem_singleton] at hb'
    obtain hb' | rfl := hb'
    exacts [hfront b' hb', hcap]
  total := by rwa [spare, hbuf, getLast?_concat]

theorem init (pool : Pool) : (State.init pool).pipe.Bounded := by
  obtain ⟨hcap, hpos, -⟩ := pool.fresh_getBuffer minCap
  refine of_concat (b := (pool.getBuffer minCap).1)
    (f := []) rfl nofun (hcap.trans_le (by decide)) ?_
  rw [hcap, hpos]
  exact (by decide : 0 + minCap < 2 * blockThreshold)

theorem lastBuffer (h : s.pipe.Bounded) (hfifo : Fifo s) : (∀ b ∈ s.lastBuffer.1, b.cap ≤ maxCap) ∧
    s.lastBuffer.2.1.cap ≤ maxCap ∧
    s.pipe.bufLen + (s.lastBuffer.2.1.cap - s.lastBuffer.2.1.pos) < 2 * blockThreshold := by
  unfold State.lastBuffer
  split
  · next hnil =>
    obtain ⟨hcap, hpos, -⟩ := s.pool.fresh_getBuffer minCap
    have hlen : s.pipe.bufLen = 0 := by rw [hfifo.bufLen, getLast?_eq_none_iff.1 hnil]; rfl
    refine ⟨nofun, ?_, ?_⟩ <;> simp only [hcap, hpos, hlen] <;> decide
  · next b hb =>
    have htotal := h.total
    rw [spare, hb] at htotal
    exact ⟨fun b' hb' => h.cap b' (dropLast_subset _ hb'), h.cap b (mem_of_getLast? hb), htotal⟩

theorem accept (h : s.pipe.Bounded) (hfifo : Fifo s) : (s.accept c p).pipe.Bounded := by
  obtain ⟨hfront, hcap, htotal⟩ := h.lastBuffer hfifo
  refine of_concat (b := s.lastBuffer.2.1.written p)
    (by simp [State.accept, FixedBuffer.write_eq]) hfront ?_ ?_
  · rwa [FixedBuffer.cap_written]
  · rw [Fifo.accept_bufLen, FixedBuffer.cap_written]
    simp only [FixedBuffer.written, FixedBuffer.room]
    omega

theorem grow (h : s.pipe.Bounded) (hlen : s.pipe.bufLen < blockThreshold) (hsize : size ≤ maxCap) :
    (s.grow size).pipe.Bounded := by
  obtain ⟨hcap, hpos, -⟩ := s.pool.fresh_getBuffer size
  refine of_concat (b := (s.pool.getBuffer size).1) rfl h.cap (hcap.trans_le hsize) ?_
  rw [hcap, hpos]
  exact (Nat.add_lt_add_of_lt_of_le hlen hsize).trans_eq (Nat.two_mul _).symm

theorem consume (h : s.pipe.Bounded) (hbuf : s.pipe.buf = b :: bs) :
    (s.consume k b bs).pipe.Bounded := by
  have hcap := h.cap
  rw [hbuf, forall_mem_cons] at hcap
  have hspare : (s.consume k b bs).pipe.spare ≤ s.pipe.spare := by
    simp only [spare, hbuf, State.consume]
    cases bs with
    | nil => split <;> simp [FixedBuffer.read, FixedBuffer.cap]
    | cons b' bs => split <;> simp
  refine ⟨?_, Nat.lt_of_le_of_lt (Nat.add_le_add (Nat.sub_le ..) hspare) h.total⟩
  simp only [State.consume]
  split
  exacts [hcap.2, forall_mem_cons.2 hcap]

theorem step (h : s.pipe.Bounded) (hfifo : Fifo s) (hl : step l s = some s') : s'.pipe.Bounded := by
  cases step_cases hl with
  | @writeAll c | @writePart c => exact h.accept (c := c) hfifo
  | writeGrow _ hlen =>
    refine h.grow hlen ?_
    split <;> omega
  | readMore _ _ hbuf | readFull _ _ hbuf => exact h.consume hbuf
  | close => exact ⟨h.cap, h.total⟩
  | _ => exact h

end BytesPipe.Bounded

/-- However many calls write and read: fewer than 2,000,000 bytes are in the buffers, and no buffer
has a capacity of more than 1,000,000. -/
theorem bufLen_lt_of_reachable {pool : Pool} (h : Reachable step (.init pool) s) :
    s.pipe.bufLen < 2000000 ∧ ∀ b ∈ s.pipe.buf, b.cap ≤ 1000000 := by
  have hbounded := h.inv (I := fun s => (Exclusive s ∧ Fifo s) ∧ s.pipe.Bounded)
    (fun ⟨⟨hex, hfifo⟩, h⟩ hl => ⟨⟨hex.step hl, hfifo.step hex hl⟩, h.step hfifo hl⟩)
    ⟨⟨fun _ _ hc => (by cases hc), .init pool⟩, .init pool⟩
  exact ⟨Nat.lt_of_le_of_lt (Nat.le_add_right ..) hbounded.2.total, hbounded.2.cap⟩

theorem bufLen_lt_of_reachable_grown :
    ∃ s, run step [.call (.write (.replicate 70 7)), .run 0, .run 0, .run 0, .run 0] (.init {}) =
    some s ∧ s.pipe.bufLen < 2000000 ∧ ∀ b ∈ s.pipe.buf, b.cap ≤ 1000000 := by
  exact exists_run (fun _ => True) (by decide +kernel) fun s hs _ => bufLen_lt_of_reachable ⟨_, hs⟩

/-! ## Reads that come back with nothing -/

/-- Both reads are woken by a write of one byte, and the first one takes it. -/
theorem read_returns_nothing : (run step
      [.call (.read 1), .run 0, .call (.read 1), .run 1, .call (.write [7]), .run 2, .run 2, .run 0,
        .run 0, .run 1, .run 1]
      (.init {})).map State.calls =
    some [⟨.read 1, .didRead [7] none⟩, ⟨.read 1, .didRead [] none⟩,
      ⟨.write [7], .wrote 1 none⟩] := by
  decide +kernel

/-- A read that was woken goes on only when there are bytes in the buffers, or the pipe is
closed. -/
def wokenForData (s : State) : Label → Bool
  | .run c => match s.calls[c]? with
    | some ⟨_, .readAwake _⟩ => 0 < s.pipe.bufLen ∨ s.pipe.closeErr.isSome
    | _ => true
  | _ => true

/-- A read that has copied nothing yet has the whole slice left, and there are bytes for it. -/
def Call.Fruitful (call : Call) (bp : BytesPipe) : Prop :=
  match call.pc with
  | .readAsleep k | .readAwake k => call.op = .read k
  | .readLoop k data => data ≠ [] ∨ call.op = .read k ∧ 0 < bp.bufLen
  | .readClosed => bp.closeErr.isSome
  | .didRead data err => data ≠ [] ∨ err.isSome ∨ call.op = .read 0
  | _ => True

def Fruitful (s : State) : Prop :=
  ∀ (c : Nat) (call : Call), s.calls[c]? = some call → call.Fruitful s.pipe

namespace Fruitful

theorem mono (h : call.Fruitful bp) (hclosed : bp.closeErr.isSome → bp'.closeErr.isSome)
    (hlen : call.pc.holds = true → bp.bufLen ≤ bp'.bufLen) : call.Fruitful bp' := by
  obtain ⟨op, pc⟩ := call
  cases pc with
  | readLoop k data => exact h.imp_right fun h => ⟨h.1, Nat.lt_of_lt_of_le h.2 (hlen rfl)⟩
  | readClosed => exact hclosed h
  | _ => exact h

theorem wake (h : call.Fruitful bp) : Call.Fruitful { call with pc := call.pc.wake } bp := by
  obtain ⟨op, pc⟩ := call
  cases pc <;> exact h

/-- Bytes are taken only by the call with the lock, so not from a read in its loop. -/
theorem move (h : Fruitful s) (hex : Exclusive s) (m : Moved s s' c call pc)
    (hclosed : s.pipe.closeErr.isSome → s'.pipe.closeErr.isSome)
    (hlen : s.pipe.bufLen ≤ s'.pipe.bufLen ∨ call.pc.holds = true)
    (hown : call.Fruitful s.pipe → Call.Fruitful { call with pc := pc } s'.pipe) : Fruitful s' := by
  refine m.forall (hown (h c call m.before)) fun d call' hd hcall => ?_
  have hother : call'.Fruitful s'.pipe := by
    refine mono (h d call' hcall) hclosed fun hholds => hlen.resolve_right fun hc => hd ?_
    exact Option.some_inj.1 ((hex d call' hcall hholds).symm.trans (hex c call m.before hc))
  exact ⟨hother, wake hother⟩

theorem step (h : Fruitful s) (hex : Exclusive s) (hok : wokenForData s l = true)
    (hl : step l s = some s') : Fruitful s' := by
  have hlen := Nat.le_refl s.pipe.bufLen
  have haccept : ∀ c p, s.pipe.bufLen ≤ (s.accept c p).pipe.bufLen := fun c p =>
    (Nat.le_add_right ..).trans_eq (Fifo.accept_bufLen p).symm
  cases step_cases hl with
  | call op =>
    intro c call hc
    obtain hc | ⟨-, rfl⟩ := getElem?_concat_cases hc
    exacts [h c call hc, trivial]
  | setPool => exact h
  | enterWrite hc | writeClosed hc | writeWait hc | writeGrow hc | readPanic hc =>
    exact h.move hex (.of_goto hc rfl) id (.inl hlen) fun _ => trivial
  | @writeAll c op p w hc =>
    exact h.move hex (.of_broadcast hc rfl) id (.inl (haccept c p)) fun _ => trivial
  | @writePart c op p w n hc =>
    exact h.move hex (.of_goto hc rfl) id (.inl (haccept c p)) fun _ => trivial
  | writeResume hc =>
    refine h.move hex (.of_goto hc rfl) id (.inl hlen) fun _ => ?_
    split <;> trivial
  | readClosed hc _ _ hclosed => exact h.move hex (.of_goto hc rfl) id (.inl hlen) fun _ => hclosed
  | readWait hc => exact h.move hex (.of_goto hc rfl) id (.inl hlen) fun _ => rfl
  | @readEnter c k call hc hlock hpc hsome =>
    obtain ⟨op, pc⟩ := call
    obtain ⟨he, hpos⟩ | rfl := hpc
    · cases he
      exact h.move hex (.of_goto hc rfl) id (.inl hlen) fun _ => .inr ⟨rfl, hpos⟩
    · simp only [wokenForData, hc, decide_eq_true_eq] at hok
      refine h.move hex (.of_goto hc rfl) id (.inl hlen) fun hop =>
        .inr ⟨hop, Nat.pos_of_ne_zero fun hzero => ?_⟩
      exact hsome ⟨hzero, hok.resolve_left (Nat.not_lt.2 (Nat.le_of_eq hzero))⟩
  | @readErr c call hc hpc =>
    obtain ⟨op, pc⟩ := call
    refine h.move hex (.of_goto hc rfl) id (.inl hlen) fun hclosed => .inr (.inl ?_)
    obtain rfl | ⟨k, rfl, -, -, hclosed⟩ := hpc <;> exact hclosed
  | @readMore c k op data b bs hc hlen hbuf =>
    refine h.move hex (.of_goto hc rfl) id (.inr rfl) fun hf => ?_
    by_cases hread : (b.read k).1 = []
    · simpa [Call.Fruitful, hread, State.goto, State.consume] using hf
    · exact .inl (append_ne_nil_of_right_ne_nil _ hread)
  | @readFull c k op data b bs hc hlen hbuf hfull =>
    refine h.move hex (.of_broadcast hc rfl) id (.inr rfl) fun hf => ?_
    by_cases hread : (b.read k).1 = []
    · rw [hread] at hfull ⊢
      subst hfull
      simpa [Call.Fruitful] using hf.imp_right And.left
    · exact .inl (append_ne_nil_of_right_ne_nil _ hread)
  | readEmpty hc hzero =>
    exact h.move hex (.of_broadcast hc rfl) id (.inl hlen) fun hf =>
      .inl (hf.resolve_right fun hf => Nat.ne_of_gt hf.2 hzero)
  | close hc => exact h.move hex (.of_broadcast hc rfl) (fun _ => rfl) (.inl hlen) fun _ => trivial

end Fruitful

/-- As long as a read that was woken goes on only while there are bytes for it or the pipe is
closed, a read into a slice that is not empty returns bytes or an error. -/
theorem read_fruitful_of_woken {pool : Pool} {data : Bytes} {err : Option Error}
    (h : Reachable (restrict step wokenForData) (.init pool) s) (hk : 0 < k)
    (hc : s.calls[c]? = some ⟨.read k, .didRead data err⟩) : data ≠ [] ∨ err.isSome := by
  have hinv := h.inv (I := fun s => Exclusive s ∧ Fruitful s) (fun ⟨hex, hf⟩ hl => by
    obtain ⟨hok, hl⟩ := restrict_eq_some.1 hl
    exact ⟨hex.step hl, hf.step hex hok hl⟩)
      ⟨fun _ _ hc => (by cases hc), fun _ _ hc => (by cases hc)⟩
  obtain hdata | herr | hop := hinv.2 c _ hc
  · exact .inl hdata
  · exact .inr herr
  · cases hop
    cases hk

theorem read_fruitful_of_woken_one : ∃ s, run (restrict step wokenForData)
      [.call (.read 1), .run 0, .call (.write [7]), .run 1, .run 1, .run 0, .run 0]
      (.init {}) = some s ∧
    s.calls[0]? = some ⟨.read 1, .didRead [7] none⟩ ∧
      ([7] ≠ ([] : Bytes) ∨ (none : Option Error).isSome) := by
  refine exists_run (fun s => s.calls[0]? = some ⟨.read 1, .didRead [7] none⟩) (by decide +kernel)
    fun s hs hc => ?_
  exact ⟨hc, read_fruitful_of_woken ⟨_, hs⟩ (by decide) hc⟩

/-! ## Nobody sleeps through what it waits for -/

/-- What holds of the pipe while the call is asleep, or about to be. -/
def Call.Waits (call : Call) (s : State) : Prop :=
  match call.pc with
  | .readAsleep _ =>
    s.pipe.closeErr = none ∧ (s.lock = none → s.pipe.bufLen = 0 ∨ blockThreshold ≤ s.pipe.bufLen)
  | .writeAsleep .. => s.pipe.closeErr = none ∧ (s.lock = none → blockThreshold ≤ s.pipe.bufLen)
  | .writeNext .. => s.pipe.closeErr = none
  | _ => True

def Waits (s : State) : Prop := ∀ (c : Nat) (call : Call), s.calls[c]? = some call → call.Waits s

namespace Waits

/-- Who gives up the lock and wakes nobody leaves a pipe that is full or closed. -/
theorem goto (h : Waits s) (hc : s.calls[c]? = some call)
    (hcalls : s'.calls = s.calls.modify c fun call => { call with pc := pc })
    (hclosed : s'.pipe.closeErr = s.pipe.closeErr)
    (hlock : s'.lock = none → s.lock = none ∧ s'.pipe.bufLen = s.pipe.bufLen ∨
      blockThreshold ≤ s'.pipe.bufLen ∨
      s.pipe.closeErr ≠ none) (hown : call.Waits s → Call.Waits { call with pc := pc } s') :
        Waits s' := by
  intro d call' hd
  rw [hcalls, getElem?_modify] at hd
  obtain ⟨call₀, h₀, rfl⟩ := Option.map_eq_some_iff.1 hd
  split
  · next he =>
    subst he
    cases hc.symm.trans h₀
    exact hown (h c call hc)
  · have hwait := h d call₀ h₀
    unfold Call.Waits at hwait ⊢
    grind

theorem broadcast (h : Waits s)
    (hcalls : s'.calls = s.broadcast.calls.modify c fun call => { call with pc := pc })
    (hclosed : s'.pipe.closeErr = s.pipe.closeErr ∨ Exclusive s ∧ s.lock = none)
    (hpc : ∀ call : Call, Call.Waits { call with pc := pc } s') : Waits s' := by
  intro d call' hd
  rw [hcalls, getElem?_modify, State.broadcast, getElem?_map, Option.map_eq_map,
    Option.map_map] at hd
  obtain ⟨⟨op, pc⟩, h₀, rfl⟩ := Option.map_eq_some_iff.1 hd
  dsimp only [Function.comp]
  split
  · exact hpc ⟨op, pc⟩
  · cases pc with
    | writeNext p w cap =>
      obtain he | ⟨hex, hlock⟩ := hclosed
      · exact he.trans (h d _ h₀)
      · cases hlock.symm.trans (hex d _ h₀ rfl)
    | _ => trivial

theorem step (h : Waits s) (hex : Exclusive s) (hl : step l s = some s') : Waits s' := by
  cases step_cases hl with
  | call op =>
    intro c call hc
    obtain hc | ⟨-, rfl⟩ := getElem?_concat_cases hc
    exacts [h c call hc, trivial]
  | setPool => exact h
  | enterWrite hc | readEnter hc => exact h.goto hc rfl rfl nofun fun _ => trivial
  | writeResume hc =>
    refine h.goto hc rfl rfl nofun fun _ => ?_
    split
    · trivial
    · next hopen => exact Option.not_isSome_iff_eq_none.1 hopen
  | writePart hc hopen =>
    have hheld := hex _ _ hc rfl
    exact h.goto hc rfl rfl (fun hlock => by cases hheld.symm.trans hlock) fun _ => hopen
  | writeGrow hc | readMore hc =>
    have hheld := hex _ _ hc rfl
    exact h.goto hc rfl rfl (fun hlock => by cases hheld.symm.trans hlock) fun _ => trivial
  | writeClosed hc hclosed =>
    exact h.goto hc rfl rfl (fun _ => .inr (.inr (Option.isSome_iff_ne_none.1 hclosed)))
      fun _ => trivial
  | writeWait hc hlen =>
    exact h.goto hc rfl rfl (fun _ => .inr (.inl hlen)) fun hopen => ⟨hopen, fun _ => hlen⟩
  | readWait hc _ hlen hopen =>
    exact h.goto hc rfl rfl (fun hl => .inl ⟨hl, rfl⟩) fun _ => ⟨hopen, fun _ => .inl hlen⟩
  | readClosed hc | readPanic hc | readErr hc =>
    exact h.goto hc rfl rfl (fun hl => .inl ⟨hl, rfl⟩) fun _ => trivial
  | writeAll | readFull | readEmpty => exact h.broadcast rfl (.inl rfl) fun _ => trivial
  | close _ hlock => exact h.broadcast rfl (.inr ⟨hex, hlock⟩) fun _ => trivial

end Waits

/-- In every state in which nobody has the lock, a call sleeps only while the pipe is open: a write
while the pipe is full, and a read while it is empty, or full. -/
theorem asleep_of_reachable {pool : Pool} (h : Reachable step (.init pool) s)
    (hlock : s.lock = none) :
    ∀ call ∈ s.calls, (∀ k, call.pc = .readAsleep k → s.pipe.closeErr = none ∧
        (s.pipe.bufLen = 0 ∨ blockThreshold ≤ s.pipe.bufLen)) ∧
      ∀ p w cap, call.pc = .writeAsleep p w cap → s.pipe.closeErr = none ∧
        blockThreshold ≤ s.pipe.bufLen := by
  have hinv := h.inv (I := fun s => Exclusive s ∧ Waits s)
    (fun ⟨hex, hw⟩ hl => ⟨hex.step hl, hw.step hex hl⟩)
    ⟨fun _ _ hc => (by cases hc), fun _ _ hc => (by cases hc)⟩
  intro call hcall
  obtain ⟨c, hc⟩ := mem_iff_getElem?.1 hcall
  have hwait := hinv.2 c call hc
  refine ⟨fun k hpc => ?_, fun p w cap hpc => ?_⟩ <;> rw [Call.Waits, hpc] at hwait <;>
    exact ⟨hwait.1, hwait.2 hlock⟩

theorem asleep_of_reachable_read : ∃ s, run step [.call (.read 1), .run 0] (.init {}) = some s ∧
    (s.pipe.closeErr = none ∧ (s.pipe.bufLen = 0 ∨ blockThreshold ≤ s.pipe.bufLen)) := by
  refine exists_run (fun s => s.lock = none ∧ s.calls = [⟨.read 1, .readAsleep 1⟩])
    (by decide +kernel) fun s hs hp => ?_
  exact (asleep_of_reachable ⟨_, hs⟩ hp.1 _ (hp.2 ▸ mem_singleton_self _)).1 1 rfl

end Docker.Ioutils
