import Docker.Ioutils.Pipe

/-!
# The pipe is a lossless queue

In every state that the calls reach, what the reads have returned, followed by what is in the
buffers, is what the writes have put into them.
-/

namespace Docker.Ioutils

open Transition State FixedBuffer List Option Prod

variable {s s' : State} {c : Nat} {call : Call}

/-! ## One call moves on -/

@[simp] theorem Pc.wake_holds (pc : Pc) : pc.wake.holds = pc.holds := by cases pc <;> rfl

@[simp] theorem Pc.wake_data (pc : Pc) : pc.wake.data = pc.data := by cases pc <;> rfl

/-- The call `c` goes to `pc`; other calls are where they were, or were woken. -/
structure Moved (s s' : State) (c : Nat) (call : Call) (pc : Pc) : Prop where
  before : s.calls[c]? = some call
  after : s'.calls[c]? = some { call with pc := pc }
  others : ∀ d, d ≠ c → s'.calls[d]? = s.calls[d]? ∨
    s'.calls[d]? = s.calls[d]?.map fun call => { call with pc := call.pc.wake }

theorem Moved.of_goto (hc : s.calls[c]? = some call)
    (h : s'.calls = s.calls.modify c fun call => { call with pc := pc }) :
    Moved s s' c call pc where
  before := hc
  after := by
    rw [h, getElem?_modify_eq, hc]
    rfl
  others d hd := .inl (by rw [h, getElem?_modify_ne _ _ hd.symm])

theorem Moved.of_broadcast (hc : s.calls[c]? = some call)
    (h : s'.calls = s.broadcast.calls.modify c fun call => { call with pc := pc }) :
    Moved s s' c call pc where
  before := hc
  after := by
    rw [h, getElem?_modify_eq, broadcast, getElem?_map, hc]
    rfl
  others d hd := .inr (by rw [h, getElem?_modify_ne _ _ hd.symm, broadcast, getElem?_map])

/-- What holds of the call that moved, and of each other call whether it was woken or not, holds of
all. -/
theorem Moved.forall {P : Nat → Call → Prop} (m : Moved s s' c call pc)
    (hown : P c { call with pc := pc })
    (hothers : ∀ d call, d ≠ c → s.calls[d]? = some call → P d call ∧
      P d { call with pc := call.pc.wake }) :
    ∀ d call, s'.calls[d]? = some call → P d call := by
  intro d call' h
  by_cases hd : d = c
  · subst hd
    rw [m.after, some_inj] at h
    exact h ▸ hown
  · obtain he | he := m.others d hd <;> rw [he] at h
    · exact (hothers d call' hd h).1
    · obtain ⟨call₀, h₀, rfl⟩ := map_eq_some_iff.1 h
      exact (hothers d call₀ hd h₀).2

/-! ## The holder of the lock -/

/-- A call inside of a section with the lock holds it. -/
def Exclusive (s : State) : Prop :=
  ∀ (c : Nat) (call : Call), s.calls[c]? = some call → call.pc.holds = true → s.lock = some c

theorem Exclusive.move (h : Exclusive s) (m : Moved s s' c call pc)
    (hown : pc.holds = true → s'.lock = some c)
    (hlock : s'.lock = s.lock ∨ s.lock = none ∨ s.lock = some c) : Exclusive s' := by
  have hothers : ∀ d call, d ≠ c → s.calls[d]? = some call → call.pc.holds = true →
      s'.lock = some d := by
    intro d call hd hcall hholds
    have hs := h d call hcall hholds
    obtain he | he | he := hlock
    · exact he.trans hs
    · cases he.symm.trans hs
    · cases he.symm.trans hs
      exact absurd rfl hd
  refine m.forall hown fun d call hd hcall => ⟨hothers d call hd hcall, ?_⟩
  rw [Pc.wake_holds]
  exact hothers d call hd hcall

theorem Exclusive.step (h : Exclusive s) (hl : step l s = some s') : Exclusive s' := by
  cases step_cases hl with
  | call op =>
    intro c call hc hholds
    obtain hc | ⟨-, rfl⟩ := getElem?_concat_cases hc
    · exact h c call hc hholds
    · cases hholds
  | setPool => exact h
  | enterWrite hc hlock | writeResume hc hlock | readEnter hc hlock =>
    exact h.move (.of_goto hc rfl) (fun _ => rfl) (.inr (.inl hlock))
  | writeClosed hc | writeWait hc =>
    exact h.move (.of_goto hc rfl) nofun (.inr (.inr (h _ _ hc rfl)))
  | writeAll hc | readFull hc | readEmpty hc =>
    exact h.move (.of_broadcast hc rfl) nofun (.inr (.inr (h _ _ hc rfl)))
  | writePart hc | writeGrow hc | readMore hc hlen hbuf =>
    exact h.move (.of_goto hc rfl) (fun _ => h _ _ hc rfl) (.inl rfl)
  | readClosed hc | readWait hc | readErr hc | readPanic hc =>
    exact h.move (.of_goto hc rfl) nofun (.inl rfl)
  | close hc => exact h.move (.of_broadcast hc rfl) nofun (.inl rfl)

/-! ## The queue -/

/-- What the call with the lock has read and not returned. -/
def State.pending (s : State) : Bytes :=
  (s.lock.bind fun c => s.calls[c]?).elim [] fun call => call.pc.data

theorem pending_of_none (h : s.lock = none) : s.pending = [] := by rw [pending, h]; rfl

theorem pending_of_some (h : s.lock = some c) (hc : s.calls[c]? = some call) :
    s.pending = call.pc.data := by
  rw [pending, h, bind_some, hc, elim_some]

theorem Moved.pending (m : Moved s s' c call pc) (hlock : s'.lock = s.lock)
    (hdata : call.pc.data = pc.data) :
    s'.pending = s.pending := by
  unfold State.pending
  rw [hlock]
  cases s.lock with
  | none => rfl
  | some d =>
    rw [bind_some, bind_some]
    by_cases hd : d = c
    · rw [hd, m.after, m.before, elim_some, elim_some, hdata]
    · obtain he | he := m.others d hd <;> rw [he]
      cases s.calls[d]? <;> simp

theorem pending_goto (hc : s.calls[c]? = some call) (hdata : call.pc.data = pc.data) :
    (s.goto c pc).pending = s.pending :=
  (Moved.of_goto hc rfl).pending rfl hdata

theorem pending_take (hc : s.calls[c]? = some call) : ((s.take c).goto c pc).pending = pc.data :=
  pending_of_some rfl (Moved.of_goto hc rfl).after

theorem pending_goto_self (hlock : s.lock = some c) (hc : s.calls[c]? = some call) (pc : Pc) :
    (s.goto c pc).pending = pc.data :=
  pending_of_some (s := s.goto c pc) hlock (Moved.of_goto hc rfl).after

theorem pending_finishRead (hc : s.calls[c]? = some call)
    (hdata : call.pc.data = []) : (s.finishRead c data err).pending = s.pending :=
  pending_goto hc hdata

/-- What was returned, then what is being returned and what is in the buffers, is what was
written. -/
structure Fifo (s : State) : Prop where
  bytes : s.returned.flatMap snd ++ s.pending ++ s.pipe.unread = s.accepted.flatMap snd
  bufLen : s.pipe.bufLen = (s.pipe.buf.map FixedBuffer.len).sum

namespace Fifo

theorem init (pool : Pool) : Fifo (.init pool) where
  bytes := by
    simp [State.init, State.pending, BytesPipe.unread, (pool.fresh_getBuffer minCap).unread]
  bufLen := by simp [State.init, (pool.fresh_getBuffer minCap).len]

theorem quiet (h : Fifo s) (hpending : s'.pending = s.pending)
    (hunread : s'.pipe.unread = s.pipe.unread := by rfl)
    (hlen : (s'.pipe.buf.map len).sum = (s.pipe.buf.map len).sum := by rfl)
    (hbufLen : s'.pipe.bufLen = s.pipe.bufLen := by rfl) (hacc : s'.accepted = s.accepted := by rfl)
    (hret : s'.returned = s.returned := by rfl) : Fifo s' where
  bytes := by rw [hret, hpending, hunread, hacc, h.bytes]
  bufLen := by rw [hbufLen, hlen, h.bufLen]

theorem lastBuffer_eq (s : State) :
    s.lastBuffer.1.flatMap unread ++ s.lastBuffer.2.1.unread = s.pipe.unread ∧
    (s.lastBuffer.1.map len).sum + s.lastBuffer.2.1.len = (s.pipe.buf.map len).sum := by
  unfold lastBuffer BytesPipe.unread
  split
  · next h =>
    rw [getLast?_eq_none_iff] at h
    simp [h, (s.pool.fresh_getBuffer minCap).unread, (s.pool.fresh_getBuffer minCap).len]
  · next b h =>
    obtain ⟨front, hfront⟩ := getLast?_eq_some_iff.1 h
    simp [hfront]

theorem unread_accept (p : Bytes) :
    (s.accept c p).pipe.unread = s.pipe.unread ++ p.take (s.lastBuffer.2.1.room p) := by
  rw [← (lastBuffer_eq s).1]
  simp [accept, BytesPipe.unread, write_eq]

theorem len_accept (p : Bytes) : ((s.accept c p).pipe.buf.map len).sum =
    (s.pipe.buf.map len).sum + s.lastBuffer.2.1.room p := by
  rw [← (lastBuffer_eq s).2]
  simp [accept, write_eq, Nat.add_assoc]

theorem accept_bufLen (p : Bytes) :
    (s.accept c p).pipe.bufLen = s.pipe.bufLen + s.lastBuffer.2.1.room p := by
  simp [accept, write_eq]

theorem accept_accepted (p : Bytes) :
    (s.accept c p).accepted = s.accepted ++ [(c, p.take (s.lastBuffer.2.1.room p))] := by
  simp [accept, write_eq]

theorem accept {p : Bytes} (h : Fifo s) (hpipe : s'.pipe = (s.accept c p).pipe)
    (hacc : s'.accepted = (s.accept c p).accepted) (hret : s'.returned = s.returned)
    (hpending : s.pending = []) (hpending' : s'.pending = []) : Fifo s' where
  bytes := by
    have hb := h.bytes
    rw [hpending, append_nil] at hb
    rw [hret, hpending', hpipe, hacc, unread_accept, accept_accepted, append_nil,
      ← append_assoc, hb]
    simp
  bufLen := by rw [hpipe, accept_bufLen, len_accept, h.bufLen]

theorem unread_consume (hbuf : s.pipe.buf = b :: bs) :
    (b.read k).1 ++ (s.consume k b bs).pipe.unread = s.pipe.unread := by
  have hread := unread_read (b := b) (k := k)
  simp only [consume, BytesPipe.unread, hbuf, flatMap_cons]
  split
  · next hlen =>
    have hnil : (b.read k).2.unread = [] := eq_nil_of_length_eq_zero (length_unread.trans hlen)
    rw [← hread, hnil, append_nil]
  · rw [flatMap_cons, ← append_assoc, hread]

theorem len_consume (hbuf : s.pipe.buf = b :: bs) :
    (b.read k).1.length + ((s.consume k b bs).pipe.buf.map len).sum =
      (s.pipe.buf.map len).sum := by
  have hread := len_read (b := b) (k := k)
  simp only [consume, hbuf, map_cons, sum_cons]
  split
  · omega
  · rw [map_cons, sum_cons, ← Nat.add_assoc, hread]

theorem consume {k : Nat} (h : Fifo s) (hbuf : s.pipe.buf = b :: bs)
    (hpipe : s'.pipe = (s.consume k b bs).pipe)
    (hacc : s'.accepted = s.accepted)
    (hret : s'.returned.flatMap snd ++ s'.pending = s.returned.flatMap snd ++
      s.pending ++ (b.read k).1) :
    Fifo s' where
  bytes := by
    rw [hret, hpipe, hacc, append_assoc, unread_consume hbuf, h.bytes]
  bufLen := by
    have hlen := len_consume (k := k) hbuf
    have hbufLen : (s.consume k b bs).pipe.bufLen = s.pipe.bufLen - (b.read k).1.length := rfl
    rw [hpipe, hbufLen, h.bufLen]
    omega

theorem pending_call (op : Op) : pending { s with calls := s.calls ++ [⟨op, .start⟩] } =
    s.pending := by
  unfold pending
  cases s.lock with
  | none => rfl
  | some d =>
    rw [bind_some, bind_some, getElem?_append]
    split
    · rfl
    · next hd =>
      rw [getElem?_eq_none (Nat.le_of_not_lt hd), getElem?_singleton]
      split <;> rfl

theorem step (h : Fifo s) (hex : Exclusive s) (hl : step l s = some s') : Fifo s' := by
  have hpend : ∀ {c : Nat} {call : Call}, s.calls[c]? = some call → call.pc.holds = true →
      s.pending = call.pc.data :=
    fun hc hholds => pending_of_some (hex _ _ hc hholds) hc
  cases step_cases hl with
  | call op => exact h.quiet (pending_call op)
  | setPool => exact h.quiet rfl
  | enterWrite hc hlock | readEnter hc hlock =>
    exact h.quiet ((pending_take hc).trans (pending_of_none hlock).symm)
  | writeClosed hc | writeWait hc => exact h.quiet ((pending_of_none rfl).trans (hpend hc rfl).symm)
  | writeAll hc => exact h.accept rfl rfl rfl (hpend hc rfl) (pending_of_none rfl)
  | @writePart c op p w n hc =>
    exact h.accept rfl rfl rfl (hpend hc rfl) (pending_goto_self (hex _ _ hc rfl) hc _)
  | @writeGrow c op p w cap hc =>
    have hfresh := s.pool.fresh_getBuffer (if cap * 2 > maxCap then maxCap else cap * 2)
    refine h.quiet (pending_goto hc rfl) ?_ ?_
    · simp [State.goto, State.grow, BytesPipe.unread, hfresh.unread]
    · simp [goto, grow, hfresh.len]
  | writeResume hc hlock =>
    refine h.quiet ?_
    rw [pending_of_none hlock, pending_take hc]
    split <;> rfl
  | readClosed hc | readWait hc => exact h.quiet (pending_goto hc rfl)
  | @readErr c call hc hpc =>
    have hdata : call.pc.data = [] := by
      obtain hpc | ⟨k, hpc, -⟩ := hpc <;> rw [hpc] <;> rfl
    refine { bytes := ?_, bufLen := h.bufLen }
    rw [pending_finishRead hc hdata]
    simpa [finishRead, goto] using h.bytes
  | @readMore c k op data b bs hc hlen hbuf =>
    have hpending := pending_goto_self (s := s.consume k b bs) (hex _ _ hc rfl) hc
      (.readLoop (k - (b.read k).1.length) (data ++ (b.read k).1))
    refine h.consume hbuf rfl rfl ?_
    rw [hpend hc rfl, hpending, append_assoc]
    rfl
  | readFull hc hlen hbuf =>
    refine h.consume hbuf rfl rfl ?_
    rw [hpend hc rfl, pending_of_none rfl]
    simp [finishRead, goto, unlock, broadcast, State.consume, Pc.data]
  | readPanic hc hlen hbuf =>
    rw [h.bufLen, hbuf] at hlen
    cases hlen
  | readEmpty hc =>
    refine { bytes := ?_, bufLen := h.bufLen }
    rw [pending_of_none rfl]
    refine Eq.trans ?_ h.bytes
    rw [hpend hc rfl]
    simp [finishRead, goto, unlock, broadcast, Pc.data]
  | close hc hlock =>
    refine h.quiet ?_
    rw [pending_of_none hlock]
    exact pending_of_none hlock

end Fifo

/-! ## What a write returns -/

def State.acceptedOf (s : State) (c : Nat) : Bytes :=
  (s.accepted.filter fun e => e.1 == c).flatMap snd

/-- The argument of a write is what was accepted and what is left of it; other calls have written
nothing. -/
def Call.Progress (call : Call) (done : Bytes) : Prop :=
  match call.pc with
  | .writeLoop p w | .writeNext p w _ | .writeAsleep p w _ | .writeAwake p w _ =>
    call.op = .write (done ++ p) ∧ w = done.length
  | .wrote n _ => ∃ rest, call.op = .write (done ++ rest) ∧ n = done.length
  | _ => done = []

structure Accounted (s : State) : Prop where
  calls : ∀ (c : Nat) (call : Call), s.calls[c]? = some call → call.Progress (s.acceptedOf c)
  others : ∀ c : Nat, s.calls[c]? = none → s.acceptedOf c = []

theorem Call.Progress.wake (h : call.Progress done) :
    Call.Progress { call with pc := call.pc.wake } done := by
  obtain ⟨op, pc⟩ := call
  cases pc <;> exact h

theorem acceptedOf_append (h : s'.accepted = s.accepted ++ [(c, x)]) :
    s'.acceptedOf d = if d = c then s.acceptedOf c ++ x else s.acceptedOf d := by
  rw [acceptedOf, h, filter_append, flatMap_append]
  split
  · next hd =>
    subst hd
    simp [acceptedOf]
  · next hd => simp [acceptedOf, Ne.symm hd]

namespace Accounted

theorem move (h : Accounted s) (m : Moved s s' c call pc)
    (hothers : ∀ d, d ≠ c → s'.acceptedOf d = s.acceptedOf d)
    (hown : call.Progress (s.acceptedOf c) → Call.Progress { call with pc := pc }
      (s'.acceptedOf c)) :
    Accounted s' where
  calls := by
    refine m.forall (hown (h.calls c call m.before)) fun d call hd hcall => ?_
    rw [hothers d hd]
    exact ⟨h.calls d call hcall, (h.calls d call hcall).wake⟩
  others d hd := by
    have hdc : d ≠ c := by
      rintro rfl
      cases m.after.symm.trans hd
    rw [hothers d hdc]
    obtain he | he := m.others d hdc <;> rw [he] at hd
    · exact h.others d hd
    · exact h.others d (map_eq_none_iff.1 hd)

theorem quiet (h : Accounted s) (m : Moved s s' c call pc) (hacc : s'.accepted = s.accepted)
    (hown : ∀ {done}, call.Progress done → Call.Progress { call with pc := pc } done) :
    Accounted s' := by
  have hof : ∀ d, s'.acceptedOf d = s.acceptedOf d := fun d => by rw [acceptedOf, hacc]; rfl
  exact h.move m (fun d _ => hof d) fun hp => (hof c).symm ▸ hown hp

theorem accept (h : Accounted s) (m : Moved s s' c call pc)
    (hacc : s'.accepted = (s.accept c p).accepted)
    (hown : ∀ {done}, call.Progress done →
      Call.Progress { call with pc := pc } (done ++ p.take (s.lastBuffer.2.1.room p))) :
        Accounted s' := by
  rw [Fifo.accept_accepted] at hacc
  refine h.move m (fun d hd => ?_) fun hp => ?_
  · rw [acceptedOf_append hacc, if_neg hd]
  · rw [acceptedOf_append hacc, if_pos rfl]
    exact hown hp

theorem init (pool : Pool) : Accounted (.init pool) where
  calls c call hc := by cases hc
  others c _ := rfl

theorem step (h : Accounted s) (hl : step l s = some s') : Accounted s' := by
  cases step_cases hl with
  | call op =>
    refine { calls := fun d call hd => ?_, others := fun d hd => ?_ }
    · obtain hd | ⟨rfl, rfl⟩ := getElem?_concat_cases hd
      · exact h.calls d call hd
      · exact h.others _ (getElem?_eq_none (Nat.le_refl _))
    · rw [getElem?_eq_none_iff, length_append] at hd
      exact h.others d (getElem?_eq_none (by omega))
  | setPool => exact { calls := h.calls, others := h.others }
  | enterWrite hc => exact h.quiet (.of_goto hc rfl) rfl fun hp => by cases hp; exact ⟨rfl, rfl⟩
  | writeClosed hc => exact h.quiet (.of_goto hc rfl) rfl fun hp => ⟨_, hp⟩
  | @writeAll c op p w hc hopen hroom =>
    refine h.accept (.of_broadcast hc rfl) rfl fun hp => ?_
    rw [hroom, take_length]
    obtain ⟨hop, rfl⟩ := hp
    exact ⟨[], by simpa using hop, by simp⟩
  | @writePart c op p w n hc hopen hn hroom =>
    refine h.accept (.of_goto hc rfl) rfl fun hp => ?_
    obtain ⟨hop, rfl⟩ := hp
    refine ⟨?_, ?_⟩
    · rw [hn, append_assoc, take_append_drop]
      exact hop
    · simp [hn, Nat.min_eq_left (Nat.le_of_lt hroom)]
  | writeWait hc | writeGrow hc | readClosed hc | readWait hc | readMore hc | readPanic hc =>
    exact h.quiet (.of_goto hc rfl) rfl id
  | writeResume hc =>
    refine h.quiet (.of_goto hc rfl) rfl fun hp => ?_
    split <;> exact hp
  | readEnter hc hlock hpc =>
    refine h.quiet (.of_goto hc rfl) rfl fun hp => ?_
    obtain ⟨rfl, -⟩ | hpc := hpc
    · exact hp
    · simpa [Call.Progress, hpc] using hp
  | readErr hc hpc =>
    refine h.quiet (.of_goto hc rfl) rfl fun hp => ?_
    obtain hpc | ⟨k, hpc, -⟩ := hpc <;> simpa [Call.Progress, hpc] using hp
  | readFull hc | readEmpty hc | close hc => exact h.quiet (.of_broadcast hc rfl) rfl id

end Accounted

/-! ## When a read returns the error -/

structure Drained (s : State) : Prop where
  closed : s.pipe.closeErr.isSome = true
  bufLen : s.pipe.bufLen = 0
  pending : s.pending = []

def Pc.isErr : Pc → Bool
  | .readClosed => true
  | .didRead _ err => err.isSome
  | _ => false

@[simp] theorem Pc.wake_isErr (pc : Pc) : pc.wake.isErr = pc.isErr := by cases pc <;> rfl

theorem Drained.step (h : Drained s) (hl : Docker.Ioutils.step l s = some s') : Drained s' := by
  have hopen : s.pipe.closeErr ≠ none := fun hn => by simpa [hn] using h.closed
  cases step_cases hl with
  | call op => exact ⟨h.closed, h.bufLen, (Fifo.pending_call op).trans h.pending⟩
  | setPool => exact ⟨h.closed, h.bufLen, h.pending⟩
  | enterWrite hc => exact ⟨h.closed, h.bufLen, pending_take hc⟩
  | writeClosed | writeWait | readEmpty => exact ⟨h.closed, h.bufLen, rfl⟩
  | writeAll _ hn | writePart _ hn | readWait _ _ _ hn => exact absurd hn hopen
  | writeGrow hc => exact ⟨h.closed, h.bufLen, Eq.trans (pending_goto hc rfl) h.pending⟩
  | writeResume hc =>
    refine ⟨h.closed, h.bufLen, (pending_take hc).trans ?_⟩
    split <;> rfl
  | readClosed hc => exact ⟨h.closed, h.bufLen, Eq.trans (pending_goto hc rfl) h.pending⟩
  | readEnter _ _ _ hsome => exact absurd ⟨h.bufLen, h.closed⟩ hsome
  | @readErr c call hc hpc =>
    have hdata : call.pc.data = [] := by
      obtain hpc | ⟨k, hpc, -⟩ := hpc <;> rw [hpc] <;> rfl
    exact ⟨h.closed, h.bufLen, (pending_finishRead hc hdata).trans h.pending⟩
  | readMore _ hlen | readFull _ hlen | readPanic _ hlen =>
    exact absurd h.bufLen (Nat.ne_of_gt hlen)
  | close hc hlock => exact ⟨rfl, h.bufLen, pending_of_none hlock⟩

def ErrAtEnd (s : State) : Prop :=
  ∀ (c : Nat) (call : Call), s.calls[c]? = some call → call.pc.isErr = true → Drained s

theorem ErrAtEnd.move (h : ErrAtEnd s) (hl : Docker.Ioutils.step l s = some s')
    (m : Moved s s' c call pc) (hown : pc.isErr = true → Drained s') : ErrAtEnd s' := by
  refine m.forall hown fun d call _ hcall => ⟨fun herr => (h d call hcall herr).step hl, ?_⟩
  rw [Pc.wake_isErr]
  exact fun herr => (h d call hcall herr).step hl

theorem ErrAtEnd.step (h : ErrAtEnd s) (hl : Docker.Ioutils.step l s = some s') : ErrAtEnd s' := by
  cases step_cases hl with
  | call op =>
    intro c call hc herr
    obtain hc | ⟨-, rfl⟩ := getElem?_concat_cases hc
    · exact (h c call hc herr).step hl
    · cases herr
  | setPool => exact fun c call hc herr => (h c call hc herr).step hl
  | enterWrite hc | writeClosed hc | writePart hc | writeWait hc | writeGrow hc | readWait hc
  | readEnter hc | readMore hc
  | readPanic hc => exact h.move hl (.of_goto hc rfl) nofun
  | writeAll hc | readFull hc | readEmpty hc | close hc =>
    exact h.move hl (.of_broadcast hc rfl) nofun
  | writeResume hc =>
    refine h.move hl (.of_goto hc rfl) fun herr => ?_
    split at herr <;> cases herr
  | readClosed hc hlock hlen hclosed =>
    exact h.move hl (.of_goto hc rfl) fun _ => ⟨hclosed, hlen, pending_of_none hlock⟩
  | readErr hc hpc =>
    refine h.move hl (.of_goto hc rfl) fun _ => ?_
    obtain hpc | ⟨k, -, hlock, hlen, hclosed⟩ := hpc
    · exact (h _ _ hc (by rw [hpc]; rfl)).step hl
    · exact ⟨hclosed, hlen, pending_of_none hlock⟩

/-! ## Every reachable state -/

structure Inv (s : State) : Prop where
  exclusive : Exclusive s
  fifo : Fifo s
  accounted : Accounted s
  errAtEnd : ErrAtEnd s

theorem Inv.of_reachable {pool : Pool} (h : Reachable step (.init pool) s) : Inv s :=
  h.inv (fun h hl => ⟨h.exclusive.step hl, h.fifo.step h.exclusive hl, h.accounted.step hl,
    h.errAtEnd.step hl⟩)
    ⟨fun _ _ hc => (by cases hc), .init pool, .init pool, fun _ _ hc => (by cases hc)⟩

theorem Fifo.length_unread (h : Fifo s) : s.pipe.unread.length = s.pipe.bufLen := by
  rw [h.bufLen, BytesPipe.unread, length_flatMap]
  simp [FixedBuffer.length_unread]

/-- While the lock is free, what was returned and what is in the `bufLen` bytes of the buffers is
what was accepted; a write that has returned `n` had exactly its first `n` bytes accepted; and a
read returns an error only after every accepted byte. -/
theorem lossless_of_reachable {pool : Pool} (h : Reachable step (.init pool) s) : (s.lock = none →
      s.returned.flatMap snd ++ s.pipe.unread = s.accepted.flatMap snd ∧
      s.pipe.bufLen = (s.pipe.buf.map FixedBuffer.len).sum) ∧
    (∀ (c : Nat) (p : Bytes) (n : Nat) (err : Option Error),
      s.calls[c]? = some ⟨.write p, .wrote n err⟩ →
      n = (s.acceptedOf c).length ∧ s.acceptedOf c = p.take n) ∧
    ∀ (c k : Nat) (data : Bytes) (e : Error), s.calls[c]? = some ⟨.read k, .didRead data (some e)⟩ →
      s.pipe.unread = [] ∧ s.returned.flatMap snd = s.accepted.flatMap snd := by
  have hinv := Inv.of_reachable h
  refine ⟨fun hlock => ⟨?_, hinv.fifo.bufLen⟩, fun c p n err hc => ?_, fun c k data e hc => ?_⟩
  · have hbytes := hinv.fifo.bytes
    rwa [pending_of_none hlock, append_nil] at hbytes
  · obtain ⟨rest, hop, rfl⟩ := hinv.accounted.calls c _ hc
    cases hop
    exact ⟨rfl, (take_left ..).symm⟩
  · have hdrained := hinv.errAtEnd c _ hc rfl
    have hnil : s.pipe.unread = [] :=
      eq_nil_of_length_eq_zero (hinv.fifo.length_unread.trans hdrained.bufLen)
    have hbytes := hinv.fifo.bytes
    rw [hnil, hdrained.pending, append_nil, append_nil] at hbytes
    exact ⟨hnil, hbytes⟩

/-- A read that waits for a write of three bytes, a read of what is left, and one behind the end. -/
theorem lossless_of_reachable_closed : ∃ s, run step
      [.call (.read 2), .run 0, .call (.write [1, 2, 3]), .run 1, .run 1, .run 0, .run 0,
        .call (.closeWithError none),
        .run 2, .call (.read 2), .run 3, .run 3, .run 3, .call (.read 2), .run 4,
          .run 4] (.init {}) = some s ∧
    s.returned = [(0, [1, 2]), (3, [3]), (4, [])] ∧ s.acceptedOf 1 = [1, 2, 3] ∧
      s.pipe.unread = [] := by
  refine exists_run (fun s => s.returned = [(0, [1, 2]), (3, [3]), (4, [])] ∧
      s.calls[1]? = some ⟨.write [1, 2, 3], .wrote 3 none⟩ ∧
        s.calls[4]? = some ⟨.read 2, .didRead [] (some .eof)⟩)
    (by decide +kernel) fun s hs ⟨hret, hwrote, hread⟩ => ?_
  obtain ⟨-, hwrites, hreads⟩ := lossless_of_reachable ⟨_, hs⟩
  exact ⟨hret, (hwrites 1 _ _ _ hwrote).2, (hreads 4 _ _ _ hread).1⟩

end Docker.Ioutils
