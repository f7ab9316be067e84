import Docker.Lib.Transition

/-!
# Health monitors

`daemon/health.go` and `container/health.go` for one container: the monitors, the handlers of
`StateChanged` that lock the container, and stop requests, which do not. A channel is the number of
its monitor. Every access that another goroutine can see is a step; a send on a channel takes place
together with its receipt.

A probe returns a result, takes longer than its timeout, and returns in the end. The out-of-memory
event, whose handler does not lock the container, is left out.
-/

namespace Docker.Health

/-- The events whose handlers call `updateHealthMonitor` or, for a start, `initHealthMonitor`. -/
inductive Event where
  | exit | restart | start | pause | resume
  deriving DecidableEq

inductive Op where
  | stateChanged (e : Event)
  /-- `stopHealthchecks` of a stop request -/
  | stop
  deriving DecidableEq

inductive After where
  | create | unlock | returned
  deriving DecidableEq

inductive Pc where
  | lock
  /-- A handler sets the fields of the container. -/
  | setState
  | stopHealthchecks
  /-- `if s.stop != nil` -/
  | ifStop (after : After)
  /-- `s.stop` is evaluated for the send. -/
  | getStop (after : After)
  | send (stop : Option Nat) (after : After)
  /-- `s.stop = nil` -/
  | clearStop (after : After)
  /-- `initHealthMonitor` makes the health state. -/
  | create
  | update
  | open
  | unlock
  | returned
  deriving DecidableEq

structure Call where
  op : Op
  pc : Pc
  deriving DecidableEq

/-- What a monitor does next; `timeout` says that the probe has not returned yet. -/
inductive Monitor where
  /-- It waits for the stop channel or the next probe. -/
  | idle
  /-- It waits for the stop channel, the result of the probe or its timeout. -/
  | probing
  /-- `handleProbeResult` locks the container. -/
  | lock (timeout : Bool)
  /-- `handleProbeResult` with the container locked -/
  | handle (timeout : Bool)
  | waitProbe
  | exited
  deriving DecidableEq

inductive Owner where
  | call (p : Nat)
  | monitor (m : Nat)
  deriving DecidableEq

structure State where
  /-- A probe is configured. -/
  probe : Bool
  running : Bool
  paused : Bool
  /-- `c.State.Health != nil` -/
  health : Bool
  /-- Who has locked the container. -/
  lock : Option Owner := none
  stop : Option Nat := none
  monitors : Nat → Monitor := fun _ => .exited
  opened : Nat := 0
  calls : Nat → Call := fun _ => ⟨.stop, .returned⟩
  started : Nat := 0

namespace State

variable (s : State) (p m : Nat)

@[simps] def setPc (pc : Pc) : State :=
  { s with calls := fun q => if q = p then { s.calls p with pc := pc } else s.calls q }

@[simps] def setMonitor (mon : Monitor) : State :=
  { s with monitors := fun k => if k = m then mon else s.monitors k }

@[simps] def setLock (lock : Option Owner) : State := { s with lock := lock }

@[simps] def setStop (stop : Option Nat) : State := { s with stop := stop }

@[simps] def newCall (op : Op) (pc : Pc) : State :=
  { s with
    calls := fun q => if q = s.started then ⟨op, pc⟩ else s.calls q
    started := s.started + 1 }

@[simps] def newMonitor : State :=
  { s with
    stop := some s.opened
    monitors := fun k => if k = s.opened then .idle else s.monitors k
    opened := s.opened + 1 }

@[simps] def setHealth : State := { s with health := true }

/-- `SetStopped`, `SetRestarting`, `SetRunning` and `Paused` -/
@[simps] def changed (e : Event) : State :=
  { s with
    running := match e with
      | .exit => false
      | .restart | .start => true
      | .pause | .resume => s.running
    paused := match e with
      | .exit | .start | .resume => false
      | .pause => true
      | .restart => s.paused }

def wantRunning : Bool := s.running && !s.paused && s.probe

end State

def After.pc : After → Pc
  | .create => .create
  | .unlock => .unlock
  | .returned => .returned

/-- Where a handler goes on when it has set the fields. -/
def Event.pc (e : Event) (probe health : Bool) : Pc :=
  match e with
  | .start => if probe then if health then .ifStop .create else .create else .unlock
  | _ => .update

def State.updatePc (s : State) : Pc :=
  if s.health = false then .unlock
  else if s.wantRunning then if s.stop = none then .open else .unlock
  else .ifStop .unlock

/-- The step of a call, unless it waits for its send. -/
def advance (p : Nat) (s : State) : Option State :=
  match (s.calls p).pc with
  | .lock => if s.lock = none then some ((s.setLock (some (.call p))).setPc p .setState) else none
  | .setState =>
    match (s.calls p).op with
    | .stateChanged e => some ((s.changed e).setPc p (e.pc s.probe s.health))
    | .stop => none
  | .stopHealthchecks => some (s.setPc p (if s.health then .ifStop .returned else .returned))
  | .ifStop a => some (s.setPc p (if s.stop = none then a.pc else .getStop a))
  | .getStop a => some (s.setPc p (.send s.stop a))
  | .send _ _ => none
  | .clearStop a => some ((s.setStop none).setPc p a.pc)
  | .create => some (s.setHealth.setPc p .update)
  | .update => some (s.setPc p s.updatePc)
  | .open => some (s.newMonitor.setPc p .unlock)
  | .unlock => some ((s.setLock none).setPc p .returned)
  | .returned => none

inductive Label where
  /-- `StateChanged` is called. -/
  | stateChanged (e : Event)
  /-- A stop request calls `stopHealthchecks`. -/
  | stop
  | advance (p : Nat)
  /-- The monitor of the channel receives from call `p`. -/
  | receive (p : Nat)
  /-- The interval is over. -/
  | tick (m : Nat)
  | result (m : Nat)
  | timeout (m : Nat)
  /-- `handleProbeResult` locks the container. -/
  | lock (m : Nat)
  | handled (m : Nat)
  | probeReturns (m : Nat)
  deriving DecidableEq

/-- The send of call `p` is received by the monitor of its channel. -/
def receive (p : Nat) (s : State) : Option State :=
  match (s.calls p).pc with
  | .send (some m) a =>
    if s.monitors m = .idle ∨ s.monitors m =
      .probing then some ((s.setMonitor m .exited).setPc p (.clearStop a))
    else none
  | _ => none

def handled (m : Nat) (s : State) : Option State :=
  match s.monitors m with
  | .handle timeout => some ((s.setLock none).setMonitor m (if timeout then .waitProbe else .idle))
  | _ => none

def lockMonitor (m : Nat) (s : State) : Option State :=
  match s.monitors m with
  | .lock timeout =>
    if s.lock = none then some ((s.setLock (some (.monitor m))).setMonitor m (.handle timeout))
      else none
  | _ => none

def step : Label → State → Option State
  | .stateChanged e, s => some (s.newCall (.stateChanged e) .lock)
  | .stop, s => some (s.newCall .stop .stopHealthchecks)
  | .advance p, s => advance p s
  | .receive p, s => receive p s
  | .tick m, s => if s.monitors m = .idle then some (s.setMonitor m .probing) else none
  | .result m, s => if s.monitors m = .probing then some (s.setMonitor m (.lock false)) else none
  | .timeout m, s => if s.monitors m = .probing then some (s.setMonitor m (.lock true)) else none
  | .lock m, s => lockMonitor m s
  | .handled m, s => handled m s
  | .probeReturns m, s => if s.monitors m = .waitProbe then some (s.setMonitor m .idle) else none

def State.init (probe running paused health : Bool) : State := { probe, running, paused, health }

/-! ## Deadlocks -/

def Call.sends (c : Call) : Bool :=
  match c.pc with
  | .send _ _ => true
  | _ => false

def Completes (s : State) (p : Nat) : Prop :=
  ∃ ls t, Transition.run step ls s = some t ∧ (t.calls p).sends = false

def Live (s : State) : Prop := ∀ p, (s.calls p).sends = true → Completes s p

/-! ## What a step can do -/

inductive Steps (s : State) : Label → State → Prop where
  | stateChanged (e : Event) : Steps s (.stateChanged e) (s.newCall (.stateChanged e) .lock)
  | stop : Steps s .stop (s.newCall .stop .stopHealthchecks)
  | lock (p : Nat) : (s.calls p).pc = .lock → s.lock = none →
    Steps s (.advance p) ((s.setLock (some (.call p))).setPc p .setState)
  | setState (p : Nat) (e : Event) : (s.calls p).pc = .setState → (s.calls p).op = .stateChanged e →
    Steps s (.advance p) ((s.changed e).setPc p (e.pc s.probe s.health))
  | stopHealthchecks (p : Nat) : (s.calls p).pc = .stopHealthchecks →
    Steps s (.advance p) (s.setPc p (if s.health then .ifStop .returned else .returned))
  | noStop (p : Nat) (a : After) : (s.calls p).pc = .ifStop a → s.stop = none →
    Steps s (.advance p) (s.setPc p a.pc)
  | ifStop (p : Nat) (a : After) : (s.calls p).pc = .ifStop a → s.stop ≠ none →
    Steps s (.advance p) (s.setPc p (.getStop a))
  | getStop (p : Nat) (a : After) : (s.calls p).pc = .getStop a →
    Steps s (.advance p) (s.setPc p (.send s.stop a))
  | clearStop (p : Nat) (a : After) : (s.calls p).pc = .clearStop a →
    Steps s (.advance p) ((s.setStop none).setPc p a.pc)
  | create (p : Nat) : (s.calls p).pc = .create → Steps s (.advance p) (s.setHealth.setPc p .update)
  | update (p : Nat) : (s.calls p).pc = .update → Steps s (.advance p) (s.setPc p s.updatePc)
  | open (p : Nat) : (s.calls p).pc = .open → Steps s (.advance p) (s.newMonitor.setPc p .unlock)
  | unlock (p : Nat) : (s.calls p).pc = .unlock →
    Steps s (.advance p) ((s.setLock none).setPc p .returned)
  | receive (p m : Nat) (a : After) : (s.calls p).pc = .send (some m) a →
    s.monitors m = .idle ∨ s.monitors m = .probing →
    Steps s (.receive p) ((s.setMonitor m .exited).setPc p (.clearStop a))
  | tick (m : Nat) : s.monitors m = .idle → Steps s (.tick m) (s.setMonitor m .probing)
  | result (m : Nat) : s.monitors m = .probing → Steps s (.result m) (s.setMonitor m (.lock false))
  | timeout (m : Nat) : s.monitors m = .probing → Steps s (.timeout m) (s.setMonitor m (.lock true))
  | lockMonitor (m : Nat) (timeout : Bool) : s.monitors m = .lock timeout → s.lock = none →
    Steps s (.lock m) ((s.setLock (some (.monitor m))).setMonitor m (.handle timeout))
  | handled (m : Nat) (timeout : Bool) : s.monitors m = .handle timeout →
    Steps s (.handled m) ((s.setLock none).setMonitor m (if timeout then .waitProbe else .idle))
  | probeReturns (m : Nat) : s.monitors m = .waitProbe →
    Steps s (.probeReturns m) (s.setMonitor m .idle)

variable {s t : State}

theorem steps_of_advance (h : advance p s = some t) : Steps s (.advance p) t := by
  unfold advance at h
  split at h
  · split at h <;> cases h
    exact .lock p ‹_› ‹_›
  · split at h <;> cases h
    exact .setState p _ ‹_› ‹_›
  · cases h; exact .stopHealthchecks p ‹_›
  · next a hpc =>
    cases h
    by_cases hs : s.stop = none
    · rw [if_pos hs]
      exact .noStop p a hpc hs
    · rw [if_neg hs]
      exact .ifStop p a hpc hs
  · cases h; exact .getStop p _ ‹_›
  · cases h
  · cases h; exact .clearStop p _ ‹_›
  · cases h; exact .create p ‹_›
  · cases h; exact .update p ‹_›
  · cases h; exact .open p ‹_›
  · cases h; exact .unlock p ‹_›
  · cases h

theorem steps_of_step (h : step l s = some t) : Steps s l t := by
  cases l with
  | stateChanged e => cases h; exact .stateChanged e
  | stop => cases h; exact .stop
  | advance p => exact steps_of_advance h
  | receive p =>
    simp only [step, receive] at h
    split at h
    · split at h <;> cases h
      exact .receive p _ _ ‹_› ‹_›
    · cases h
  | tick m =>
    simp only [step] at h
    split at h <;> cases h
    exact .tick m ‹_›
  | result m =>
    simp only [step] at h
    split at h <;> cases h
    exact .result m ‹_›
  | timeout m =>
    simp only [step] at h
    split at h <;> cases h
    exact .timeout m ‹_›
  | lock m =>
    simp only [step, lockMonitor] at h
    split at h
    · split at h <;> cases h
      exact .lockMonitor m _ ‹_› ‹_›
    · cases h
  | handled m =>
    simp only [step, handled] at h
    split at h <;> cases h
    exact .handled m _ ‹_›
  | probeReturns m =>
    simp only [step] at h
    split at h <;> cases h
    exact .probeReturns m ‹_›

/-! ## Who has locked the container -/

@[grind] def Call.holds (c : Call) : Bool :=
  match c.op, c.pc with
  | .stop, _ | .stateChanged _, .lock | .stateChanged _, .returned => false
  | .stateChanged _, _ => true

/-- Only handlers lock the container, and they unlock it before they return. -/
@[grind] def Call.wellFormed (c : Call) : Bool :=
  match c.op, c.pc with
  | .stateChanged _, .ifStop a | .stateChanged _, .getStop a | .stateChanged _, .send _ a
  | .stateChanged _, .clearStop a => a ≠ .returned
  | .stateChanged _, .stopHealthchecks => false
  | .stateChanged _, _ => true
  | .stop, .ifStop a | .stop, .getStop a | .stop, .send _ a | .stop, .clearStop a => a = .returned
  | .stop, .stopHealthchecks | .stop, .returned => true
  | .stop, _ => false

@[grind] def Monitor.handles : Monitor → Bool
  | .handle _ => true
  | _ => false

structure Locked (s : State) : Prop where
  call (p : Nat) : (s.calls p).holds = true ↔ s.lock = some (.call p)
  monitor (m : Nat) : (s.monitors m).handles = true ↔ s.lock = some (.monitor m)
  wellFormed (p : Nat) : (s.calls p).wellFormed = true
  new (p : Nat) : s.started ≤ p → s.calls p = ⟨.stop, .returned⟩
  newMonitor (m : Nat) : s.opened ≤ m → s.monitors m = .exited

open State List Transition

attribute [local grind =] setPc_lock setPc_calls setPc_monitors setLock_lock
  setLock_calls setLock_monitors setMonitor_lock setMonitor_calls setMonitor_monitors
  setStop_lock setStop_calls setStop_monitors newCall_lock newCall_calls newCall_monitors
  newMonitor_lock newMonitor_calls newMonitor_monitors setHealth_lock setHealth_calls
  setHealth_monitors changed_lock changed_calls changed_monitors
  setPc_stop setLock_stop setMonitor_stop setStop_stop newCall_stop newMonitor_stop
    setHealth_stop changed_stop
  setPc_started setLock_started setMonitor_started setStop_started newCall_started
    newMonitor_started setHealth_started changed_started
  setPc_opened setLock_opened setMonitor_opened setStop_opened newCall_opened newMonitor_opened
    setHealth_opened changed_opened

attribute [local grind cases] After

/-- A call may go on at `pc`, and has locked the container there if it had before. -/
structure Call.Goes (c : Call) (pc : Pc) : Prop where
  wellFormed : (Call.mk c.op pc).wellFormed = true
  holds : (Call.mk c.op pc).holds = c.holds
  pc : c.pc ≠ .returned

open Call

theorem Call.goes {c : Call} {pc pc' : Pc} (hw : c.wellFormed = true) (hpc : c.pc = pc)
    (hne : pc ≠ .returned)
    (h : ∀ op, (mk op pc).wellFormed = true →
      (mk op pc').wellFormed = true ∧ (mk op pc').holds = (mk op pc).holds) : c.Goes pc' := by
  obtain ⟨op, _⟩ := c
  cases hpc
  exact ⟨(h op hw).1, (h op hw).2, hne⟩

theorem Call.eq_handler {c : Call} {pc : Pc} (hw : c.wellFormed = true) (hpc : c.pc = pc)
    (hstop : (mk .stop pc).wellFormed ≠ true) : ∃ e, c = ⟨.stateChanged e, pc⟩ := by
  obtain ⟨op, _⟩ := c
  cases hpc
  cases op with
  | stop => exact absurd hw hstop
  | stateChanged e => exact ⟨e, rfl⟩

/-- What a step does to the calls, and to the lock for them. -/
inductive CallStep (s t : State) : Prop where
  | same : t.calls = s.calls → t.started = s.started →
    (∀ p, t.lock = some (.call p) ↔ s.lock = some (.call p)) →
    CallStep s t
  | new (op : Op) (pc : Pc) : t.calls = (s.newCall op pc).calls → t.started = s.started + 1 →
    t.lock = s.lock →
    (Call.mk op pc).wellFormed = true → (Call.mk op pc).holds = false → CallStep s t
  | goes (p : Nat) (pc : Pc) : t.calls = (s.setPc p pc).calls → t.started = s.started →
    t.lock = s.lock →
    (s.calls p).Goes pc → CallStep s t
  | locks (p : Nat) (e : Event) : s.calls p = ⟨.stateChanged e, .lock⟩ →
    t.calls = (s.setPc p .setState).calls →
    t.started = s.started → s.lock = none → t.lock = some (.call p) → CallStep s t
  | unlocks (p : Nat) (e : Event) : s.calls p = ⟨.stateChanged e, .unlock⟩ →
    t.calls = (s.setPc p .returned).calls →
    t.started = s.started → t.lock = none → CallStep s t

theorem Locked.callStep (h : Locked s) (hs : Steps s l t) : CallStep s t := by
  cases hs with
  | stateChanged e => exact .new (.stateChanged e) .lock rfl rfl rfl rfl rfl
  | stop => exact .new .stop .stopHealthchecks rfl rfl rfl rfl rfl
  | lock p hpc hl =>
    obtain ⟨e, he⟩ := eq_handler (h.wellFormed p) hpc nofun
    exact .locks p e he rfl rfl hl rfl
  | unlock p hpc =>
    obtain ⟨e, he⟩ := eq_handler (h.wellFormed p) hpc nofun
    exact .unlocks p e he rfl rfl rfl
  | setState p e hpc _ =>
    refine .goes p _ rfl rfl rfl (goes (h.wellFormed p) hpc nofun fun op hw => ?_)
    cases op with
    | stop => cases hw
    | stateChanged e' => cases e <;> cases s.probe <;> cases s.health <;> exact ⟨rfl, rfl⟩
  | stopHealthchecks p hpc =>
    refine .goes p _ rfl rfl rfl (goes (h.wellFormed p) hpc nofun fun op hw => ?_)
    cases op with
    | stop => cases s.health <;> exact ⟨rfl, rfl⟩
    | stateChanged e => cases hw
  | noStop p a hpc _ | clearStop p a hpc =>
    refine .goes p _ rfl rfl rfl (goes (h.wellFormed p) hpc nofun fun op hw => ?_)
    cases op <;> cases a <;> first | exact ⟨rfl, rfl⟩ | cases hw
  | ifStop p a hpc _ | getStop p a hpc | receive p m a hpc _ =>
    refine .goes p _ rfl rfl rfl (goes (h.wellFormed p) hpc nofun fun op hw => ?_)
    cases op <;> exact ⟨hw, rfl⟩
  | create p hpc | «open» p hpc =>
    refine .goes p _ rfl rfl rfl (goes (h.wellFormed p) hpc nofun fun op hw => ?_)
    cases op with
    | stop => cases hw
    | stateChanged e => exact ⟨rfl, rfl⟩
  | update p hpc =>
    refine .goes p _ rfl rfl rfl (goes (h.wellFormed p) hpc nofun fun op hw => ?_)
    cases op with
    | stop => cases hw
    | stateChanged e =>
      unfold updatePc
      split
      · exact ⟨rfl, rfl⟩
      · split
        · split <;> exact ⟨rfl, rfl⟩
        · exact ⟨rfl, rfl⟩
  | lockMonitor m timeout _ hl => exact .same rfl rfl fun p => by simp [hl]
  | handled m timeout hm =>
    have hl := (h.monitor m).1 (by rw [hm]; rfl)
    exact .same rfl rfl fun p => by simp [hl]
  | _ => exact .same rfl rfl fun _ => Iff.rfl

theorem Locked.call_step (h : Locked s) (hc : CallStep s t) (p : Nat) :
    (t.calls p).holds = true ↔ t.lock = some (.call p) := by
  cases hc with
  | same hcalls _ hlock =>
    rw [hcalls, hlock]
    exact h.call p
  | new op pc hcalls _ hlock _ hholds =>
    rw [hcalls, hlock, newCall_calls]
    split
    · next hp =>
      rw [hholds, ← h.call p, h.new p (Nat.le_of_eq hp.symm)]
      exact Iff.rfl
    · exact h.call p
  | goes q pc hcalls _ hlock hgoes =>
    rw [hcalls, hlock, setPc_calls]
    split
    · next hp => rw [hgoes.holds, hp, h.call q]
    · exact h.call p
  | locks q e hq hcalls _ hnone hlock =>
    have hp := h.call p
    rw [hnone] at hp
    rw [hcalls, hlock, setPc_calls, hq]
    split
    · next hp => simp [hp, holds]
    · next hne => simp [hp, Ne.symm hne]
  | unlocks q e hq hcalls _ hlock =>
    have hlocked := (h.call q).1 (by rw [hq]; rfl)
    rw [hcalls, hlock, setPc_calls, hq]
    split
    · simp [holds]
    · next hne => simp [h.call p, hlocked, Ne.symm hne]

theorem Locked.wellFormed_step (h : Locked s) (hc : CallStep s t) (p : Nat) :
    (t.calls p).wellFormed = true := by
  cases hc with
  | same hcalls _ _ =>
    rw [hcalls]
    exact h.wellFormed p
  | new op pc hcalls _ _ hw _ =>
    rw [hcalls, newCall_calls]
    split
    · exact hw
    · exact h.wellFormed p
  | goes q pc hcalls _ _ hgoes =>
    rw [hcalls, setPc_calls]
    split
    · exact hgoes.wellFormed
    · exact h.wellFormed p
  | locks q e hq hcalls _ _ _ | unlocks q e hq hcalls _ _ =>
    rw [hcalls, setPc_calls, hq]
    split
    · rfl
    · exact h.wellFormed p

theorem Locked.new_step (h : Locked s) (hc : CallStep s t) (p : Nat) (hp : t.started ≤ p) :
    t.calls p = ⟨.stop, .returned⟩ := by
  -- A call that has not begun does not move.
  have hmoved : ∀ {q pc}, (s.calls q).pc ≠ .returned → t.calls = (s.setPc q pc).calls →
      t.started = s.started →
      t.calls p = ⟨.stop, .returned⟩ := by
    intro q pc hpc hcalls hstarted
    have hnew := h.new p (hstarted ▸ hp)
    have hne : p ≠ q := by
      rintro rfl
      rw [hnew] at hpc
      exact hpc rfl
    rw [hcalls, setPc_calls, if_neg hne, hnew]
  cases hc with
  | same hcalls hstarted _ => rw [hcalls, h.new p (hstarted ▸ hp)]
  | new op pc hcalls hstarted _ _ _ =>
    rw [hcalls, newCall_calls, if_neg (by omega), h.new p (by omega)]
  | goes q pc hcalls hstarted _ hgoes => exact hmoved hgoes.pc hcalls hstarted
  | locks q e hq hcalls hstarted _ _ | unlocks q e hq hcalls hstarted _ =>
    exact hmoved (by rw [hq]; nofun) hcalls hstarted

theorem Locked.step (h : Locked s) (hs : Steps s l t) : Locked t := by
  have hc := h.callStep hs
  refine ⟨h.call_step hc, fun m => ?_, h.wellFormed_step hc, h.new_step hc, fun m hm => ?_⟩
  · have hcall := h.call
    have hmonitor := h.monitor
    have hwf := h.wellFormed
    cases hs <;> first | exact hmonitor m | grind
  · have hnew := h.newMonitor
    cases hs <;> first | exact hnew m hm | grind

theorem Locked.init {probe running paused health : Bool} :
    Locked (.init probe running paused health) where
  call _ := by simp [State.init, holds]
  monitor _ := by simp [State.init, Monitor.handles]
  wellFormed _ := rfl
  new _ _ := rfl
  newMonitor _ _ := rfl

/-! ## Sends that cannot complete -/

theorem Steps.le (hs : Steps s l t) : s.started ≤ t.started ∧ s.opened ≤ t.opened := by
  cases hs <;> simp

theorem Steps.sends {ch : Option Nat} (hs : Steps s l t) (h : (s.calls p).pc = .send ch a)
    (hp : p < s.started) :
    (t.calls p).pc = .send ch a ∨ ∃ m, ch = some m ∧
    (s.monitors m = .idle ∨ s.monitors m = .probing) := by
  cases hs <;> first | exact .inl h | grind

/-- The monitor of the channel has exited, or there is no channel any more. -/
def Deserted (p : Nat) (s : State) : Prop :=
  ∃ ch a, (s.calls p).pc = .send ch a ∧ p < s.started ∧ ∀ m, ch = some m → m < s.opened ∧
    s.monitors m = .exited

theorem Deserted.step (h : Deserted p s) (hs : Steps s l t) : Deserted p t := by
  obtain ⟨ch, a, hpc, hp, hm⟩ := h
  refine ⟨ch, a, ?_, by have := hs.le; omega, fun m hch => ?_⟩
  · rcases hs.sends hpc hp with hpc | ⟨m, hch, hlisten⟩
    · exact hpc
    · rw [(hm m hch).2] at hlisten
      rcases hlisten with h | h <;> cases h
  · obtain ⟨hlt, he⟩ := hm m hch
    refine ⟨by have := hs.le; omega, ?_⟩
    cases hs <;> first | exact he | grind

/-- The sender has locked the container, and the monitor of its channel waits for the lock. -/
def Blocked (p : Nat) (s : State) : Prop :=
  Locked s ∧ ∃ ch a timeout, (s.calls p).pc = .send (some ch) a ∧ p < s.started ∧ ch < s.opened ∧
    s.lock = some (.call p) ∧ s.monitors ch = .lock timeout

theorem Blocked.step (h : Blocked p s) (hs : Steps s l t) : Blocked p t := by
  obtain ⟨hl, ch, a, timeout, hpc, hp, hch, hlock, hm⟩ := h
  have hle := hs.le
  refine ⟨hl.step hs, ch, a, timeout, ?_, by omega, by omega, ?_, ?_⟩
  · rcases hs.sends hpc hp with hpc | ⟨m, hch, hlisten⟩
    · exact hpc
    · cases hch
      rw [hm] at hlisten
      rcases hlisten with h | h <;> cases h
  · -- Only the call or the monitor that has locked the container unlocks it.
    have hcall := hl.call
    have hmonitor := hl.monitor
    have hwf := hl.wellFormed
    cases hs <;> first | exact hlock | grind
  · cases hs <;> first | exact hm | grind

theorem not_completes_of_inv {I : State → Prop} (hsend : ∀ {s}, I s → (s.calls p).sends = true)
    (hstep : ∀ {l s t}, I s → Steps s l t → I t) (h : I s) : ¬ Completes s p := by
  rintro ⟨ls, t, hrun, ht⟩
  have : I t := run_inv (fun hs hl => hstep hs (steps_of_step hl)) h hrun
  rw [hsend this] at ht
  cases ht

theorem Deserted.not_completes (h : Deserted p s) : ¬ Completes s p :=
  not_completes_of_inv (fun ⟨_, _, hpc, _⟩ => by rw [sends, hpc]) Deserted.step h

theorem Blocked.not_completes (h : Blocked p s) : ¬ Completes s p :=
  not_completes_of_inv (fun ⟨_, _, _, _, hpc, _⟩ => by rw [sends, hpc]) Blocked.step h

/-- A container with a probe is started, and its monitor. -/
def startMonitor : List Label := .stateChanged .start :: replicate 6 (.advance 0)

def exitWhileProbing : List Label :=
  startMonitor ++ [.tick 0, .stateChanged .exit] ++ replicate 5 (.advance 1)

def exitWhileStopping : List Label :=
  startMonitor ++ [.stop, .stateChanged .exit] ++ replicate 3 (.advance 1) ++
    replicate 5 (.advance 2) ++ [.receive 2]

/-- The handler of the exit waits for a monitor that waits for its lock, and a stop request for a
monitor that was stopped. -/
theorem not_live_exit :
    (∃ s, run step (exitWhileProbing ++ [.result 0]) (.init true false false false) = some s ∧
      (s.calls 1).sends = true ∧ ¬ Completes s 1) ∧
    ∃ s, run step exitWhileStopping (.init true false false false) = some s ∧
      (s.calls 1).sends = true ∧ ¬ Completes s 1 := by
  constructor
  · refine ⟨_, rfl, rfl, Blocked.not_completes
      ⟨?_, 0, .unlock, false, rfl, by decide, by decide, rfl, rfl⟩⟩
    exact run_inv (fun hs hl => hs.step (steps_of_step hl)) .init
      (show run step (exitWhileProbing ++ [.result 0]) (.init true false false false) =
        some _ from rfl)
  · refine ⟨_, rfl, rfl, Deserted.not_completes ⟨some 0, .returned, rfl, by decide, fun m hm => ?_⟩⟩
    cases hm
    exact ⟨by decide, rfl⟩

/-! ## Sends that can -/

theorem Completes.of_step (h : Completes t p) (hs : step l s = some t) : Completes s p := by
  obtain ⟨ls, u, hrun, hu⟩ := h
  exact ⟨l :: ls, u, run_cons.2 ⟨t, hs, hrun⟩, hu⟩

section
variable (hpc : (s.calls p).pc = .send (some ch) a)
include hpc

theorem completes_of_listening (hm : s.monitors ch = .idle ∨ s.monitors ch = .probing) :
    Completes s p := by
  refine ⟨[.receive p], (s.setMonitor ch .exited).setPc p (.clearStop a), ?_, ?_⟩
  · simp only [Transition.run, step, receive, hpc, if_pos hm]
    rfl
  · simp [sends]

theorem completes_of_waitProbe (hm : s.monitors ch = .waitProbe) :
    Completes s p := by
  have h : Completes (s.setMonitor ch .idle) p := completes_of_listening hpc (by simp)
  exact h.of_step (l := .probeReturns ch) (by rw [step, if_pos hm])

theorem completes_of_handle (hm : s.monitors ch = .handle timeout) :
    Completes s p := by
  have h : Completes ((s.setLock none).setMonitor ch
      (if timeout then .waitProbe else .idle)) p := by
    cases timeout with
    | false => exact completes_of_listening hpc (by simp)
    | true => exact completes_of_waitProbe hpc (by simp)
  exact h.of_step (l := .handled ch) (by rw [step, handled, hm])

theorem completes_of_lock (hm : s.monitors ch = .lock timeout) (hlock : s.lock = none) :
    Completes s p := by
  have hm' : ((s.setLock (some (.monitor ch))).setMonitor ch (.handle timeout)).monitors ch =
      .handle timeout := by
    simp
  have h : Completes ((s.setLock (some (.monitor ch))).setMonitor ch (.handle timeout)) p :=
    completes_of_handle hpc hm'
  exact h.of_step (l := .lock ch) (by rw [step, lockMonitor, hm]; exact if_pos hlock)

end

/-- The send completes unless the monitor has exited, or waits for the lock that a handler has. -/
theorem Locked.completes (h : Locked s) (hpc : (s.calls p).pc = .send (some ch) a)
    (hm : s.monitors ch ≠ .exited)
    (hlock : (∃ q, s.lock = some (.call q)) → ∀ timeout, s.monitors ch ≠ .lock timeout) :
    Completes s p := by
  cases hmon : s.monitors ch with
  | idle => exact completes_of_listening hpc (.inl hmon)
  | probing => exact completes_of_listening hpc (.inr hmon)
  | waitProbe => exact completes_of_waitProbe hpc hmon
  | handle timeout => exact completes_of_handle hpc hmon
  | exited => exact absurd hmon hm
  | lock timeout =>
    cases hs : s.lock with
    | none => exact completes_of_lock hpc hmon hs
    | some o =>
      cases o with
      | call q => exact absurd hmon (hlock ⟨q, hs⟩ timeout)
      | monitor m =>
        -- An earlier monitor has the lock: it gives it back.
        have hhandles := (h.monitor m).2 hs
        cases hm' : s.monitors m with
        | handle t =>
          have hne : ch ≠ m := by
            rintro rfl
            rw [hmon] at hm'
            cases hm'
          have hmon' : ((s.setLock none).setMonitor m (if t then .waitProbe else .idle)).monitors
              ch = .lock timeout := by
            simp [hne, hmon]
          have hstep : Completes ((s.setLock none).setMonitor m
              (if t then .waitProbe else .idle)) p :=
            completes_of_lock hpc hmon' rfl
          exact hstep.of_step (l := .handled m) (by rw [Health.step, handled, hm'])
        | _ => simp [hm', Monitor.handles] at hhandles

/-! ## Runs without the two races -/

/-- A call in `CloseMonitorChannel` that has found a channel. -/
@[grind] def Call.closes (c : Call) : Bool :=
  match c.pc with
  | .getStop _ | .send _ _ | .clearStop _ => true
  | _ => false

def Monitor.locks : Monitor → Bool
  | .lock _ => true
  | _ => false

/-- No stop request closes the channel while a handler has the container locked or another stop
request closes it, nor a handler while a monitor has a result to report. -/
def cautious (s : State) : Label → Bool
  | .advance p =>
    match (s.calls p).pc, (s.calls p).op with
    | .lock, _ => decide (∀ q < s.started, (s.calls q).closes = false)
    | .ifStop _, .stop =>
      s.stop = none ∨ ∀ q < s.started, (s.calls q).holds = false ∧ (s.calls q).closes = false
    | .ifStop _, .stateChanged _ => s.stop = none ∨ ∀ m < s.opened, (s.monitors m).locks = false
    | _, _ => true
  | .result _ | .timeout _ =>
    decide (∀ q < s.started, (s.calls q).holds = true → (s.calls q).closes = false)
  | _ => true

section
variable (hs : Steps s l t)
include hs

theorem Steps.closes (h : (t.calls q).closes = true) : (t.calls q).op = (s.calls q).op ∧
    ((s.calls q).closes = true ∨ ∃ a, l = .advance q ∧ (s.calls q).pc = .ifStop a ∧
      s.stop ≠ none) := by
  cases hs <;> grind [After.pc, Event.pc, updatePc]

theorem Steps.holds (h : (t.calls q).holds = true) :
    (s.calls q).holds = true ∨ l = .advance q ∧ (s.calls q).pc = .lock ∧ s.lock = none := by
  cases hs <;> first | exact .inl h | grind

theorem Steps.locks (h : (t.monitors m).locks = true) :
    (s.monitors m).locks = true ∨ l = .result m ∨ l = .timeout m := by
  cases hs <;> first | exact .inl h | grind [Monitor.locks]

/-- The channel is set by who opens it and unset by who has closed it. -/
theorem Steps.stop_eq : t.stop = s.stop ∧ t.opened = s.opened ∨
    (∃ p a, l = .advance p ∧ (s.calls p).pc = .clearStop a ∧ t.stop = none ∧ t.opened = s.opened) ∨
    ∃ p, l = .advance p ∧ (s.calls p).pc = .open ∧ t.stop = some s.opened ∧
      t.opened = s.opened + 1 ∧
      t.monitors s.opened = .idle := by
  cases hs with
  | clearStop p a hpc => exact .inr (.inl ⟨p, a, rfl, hpc, rfl, rfl⟩)
  | «open» p hpc => exact .inr (.inr ⟨p, rfl, hpc, rfl, rfl, by simp⟩)
  | _ => exact .inl ⟨rfl, rfl⟩

theorem Steps.send {ch : Option Nat} (h : (t.calls p).pc = .send ch a) :
    (s.calls p).pc = .send ch a ∨ t.stop = s.stop ∧ ch = s.stop := by
  cases hs <;> grind [After.pc, Event.pc, updatePc]

theorem Steps.clears (h : (s.calls p).pc = .clearStop a) (hp : p < s.started) :
    (t.calls p).pc = .clearStop a ∧ l ≠ .advance p ∨ (t.calls p).closes = false ∧
      t.stop = none := by
  cases hs <;> grind [After.pc]

theorem Steps.exited (h : t.monitors m = .exited) :
    s.monitors m = .exited ∨ ∃ p a, (t.calls p).pc = .clearStop a := by
  cases hs with
  | receive p m' a => exact .inr ⟨p, a, by simp⟩
  | _ => exact .inl (by grind)

end

structure Closing (s : State) : Prop where
  /-- One call at a time closes the channel. -/
  one (p q : Nat) : (s.calls p).closes = true → (s.calls q).closes = true → p = q
  /-- A stop request does it while no handler has the container locked, -/
  alone (p q : Nat) : (s.calls p).closes = true → (s.calls p).op = .stop → (s.calls q).holds = false
  /-- and a handler while no monitor has a result to report. -/
  quiet (p m : Nat) : (s.calls p).closes = true → (s.calls p).op ≠ .stop →
    (s.monitors m).locks = false
  stop (p : Nat) : (s.calls p).closes = true → s.stop ≠ none
  channel (p : Nat) (ch : Option Nat) (a : After) : (s.calls p).pc = .send ch a → ch = s.stop
  /-- The monitor of the channel runs until the channel is closed. -/
  monitor (m : Nat) : s.stop = some m → m < s.opened ∧
    (s.monitors m = .exited → ∃ p a, (s.calls p).pc = .clearStop a)

theorem Call.holds_of_closes {c : Call} (h : c.closes = true) (hop : c.op ≠ .stop) :
    c.holds = true := by
  grind

theorem Locked.lt_of_closes (hl : Locked s) (h : (s.calls q).closes = true) : q < s.started := by
  by_contra hlt
  rw [hl.new q (by omega)] at h
  cases h

theorem Locked.lt_of_locks (hl : Locked s) (h : (s.monitors m).locks = true) : m < s.opened := by
  by_contra hlt
  rw [hl.newMonitor m (by omega)] at h
  cases h

namespace Closing

section
variable (hl : Locked s) (h : Closing s)
include hl h

theorem closes_eq_false_of_holds (hp : (s.calls p).holds = true)
    (hpc : (s.calls p).closes = false) : (s.calls q).closes = false := by
  refine Bool.eq_false_iff.2 fun hq => ?_
  by_cases hop : (s.calls q).op = .stop
  · rw [h.alone q p hq hop] at hp
    cases hp
  · -- Two handlers do not have the container locked at once.
    have hlock := (hl.call q).1 (holds_of_closes hq hop)
    rw [(hl.call p).1 hp] at hlock
    cases hlock
    rw [hpc] at hq
    cases hq

theorem closes_eq_false (hc : cautious s (.advance p) = true) (hpc : (s.calls p).pc = .ifStop a)
    (hstop : s.stop ≠ none) : (s.calls q).closes = false := by
  cases hop : (s.calls p).op with
  | stop =>
    refine Bool.eq_false_iff.2 fun hq => ?_
    simp only [cautious, hpc, hop, hstop, false_or, decide_eq_true_eq] at hc
    rw [(hc q (hl.lt_of_closes hq)).2] at hq
    cases hq
  | stateChanged e =>
    refine closes_eq_false_of_holds hl h (p := p) ?_ ?_
    · rw [holds, hpc, hop]
    · rw [closes, hpc]

theorem one_step (hc : cautious s l = true) (hs : Steps s l t) (p q : Nat)
    (hp : (t.calls p).closes = true) (hq : (t.calls q).closes = true) : p = q := by
  rcases hs.closes hp with ⟨-, hp | ⟨a, rfl, hpc, hstop⟩⟩ <;> rcases hs.closes hq
    with ⟨-, hq | ⟨a', hl', hpc', hstop'⟩⟩
  · exact h.one p q hp hq
  · subst hl'
    rw [closes_eq_false hl h hc hpc' hstop'] at hp
    cases hp
  · rw [closes_eq_false hl h hc hpc hstop] at hq
    cases hq
  · cases hl'
    rfl

theorem alone_step (hc : cautious s l = true) (hs : Steps s l t) (p q : Nat)
    (hp : (t.calls p).closes = true) (hop : (t.calls p).op = .stop) :
    (t.calls q).holds = false := by
  refine Bool.eq_false_iff.2 fun hq => ?_
  obtain ⟨hop', hp⟩ := hs.closes hp
  rw [hop'] at hop
  rcases hp with hp | ⟨a, rfl, hpc, hstop⟩ <;> rcases hs.holds hq with hq | ⟨hl', hpcq, -⟩
  · rw [h.alone p q hp hop] at hq
    cases hq
  · subst hl'
    simp only [cautious, hpcq, decide_eq_true_eq] at hc
    rw [hc p (hl.lt_of_closes hp)] at hp
    cases hp
  · simp only [cautious, hpc, hop, hstop, false_or, decide_eq_true_eq] at hc
    have hlt : q < s.started := by
      by_contra hlt
      rw [hl.new q (by omega)] at hq
      cases hq
    rw [(hc q hlt).1] at hq
    cases hq
  · cases hl'
    rw [hpc] at hpcq
    cases hpcq

theorem quiet_step (hc : cautious s l = true) (hs : Steps s l t) (p m : Nat)
    (hp : (t.calls p).closes = true) (hop : (t.calls p).op ≠ .stop) :
    (t.monitors m).locks = false := by
  refine Bool.eq_false_iff.2 fun hm => ?_
  obtain ⟨hop', hp⟩ := hs.closes hp
  rw [hop'] at hop
  rcases hp with hp | ⟨a, rfl, hpc, hstop⟩ <;> rcases hs.locks hm with hm | hl'
  · rw [h.quiet p m hp hop] at hm
    cases hm
  · have hc : ∀ q < s.started, (s.calls q).holds = true → (s.calls q).closes = false := by
      rcases hl' with rfl | rfl <;> exact of_decide_eq_true hc
    rw [hc p (hl.lt_of_closes hp) (holds_of_closes hp hop)] at hp
    cases hp
  · cases hop' : (s.calls p).op with
    | stop => exact hop hop'
    | stateChanged e =>
      simp only [cautious, hpc, hop', hstop, false_or, decide_eq_true_eq] at hc
      rw [hc m (hl.lt_of_locks hm)] at hm
      cases hm
  · rcases hl' with hl' | hl' <;> cases hl'

theorem stop_step (hs : Steps s l t) (p : Nat) (hp : (t.calls p).closes = true) :
    t.stop ≠ none := by
  rcases hs.stop_eq with ⟨hstop, -⟩ | ⟨q, a, rfl, hpc, hstop, -⟩ | ⟨q, -, -, hstop, -⟩
  · rw [hstop]
    rcases hs.closes hp with ⟨-, hp | ⟨-, -, -, hp⟩⟩
    · exact h.stop p hp
    · exact hp
  · rcases hs.closes hp with ⟨-, hold | ⟨a', hl', hpc', -⟩⟩
    · -- Only the call that has closed the channel unsets it.
      have hq : (s.calls q).closes = true := by rw [closes, hpc]
      cases h.one p q hold hq
      rcases hs.clears hpc (hl.lt_of_closes hq) with ⟨-, hne⟩ | ⟨hne, -⟩
      · exact absurd rfl hne
      · rw [hne] at hp
        cases hp
    · cases hl'
      rw [hpc] at hpc'
      cases hpc'
  · rw [hstop]
    nofun

theorem channel_step (hs : Steps s l t) (p : Nat) (ch : Option Nat) (a : After)
    (hp : (t.calls p).pc = .send ch a) : ch = t.stop := by
  rcases hs.send hp with hp | ⟨hstop, hch⟩
  · have hcl : (s.calls p).closes = true := by rw [closes, hp]
    rcases hs.stop_eq with ⟨hstop, -⟩ | ⟨q, a', -, hpc, -⟩ | ⟨q, -, hpc, -⟩
    · rw [hstop]
      exact h.channel p ch a hp
    · cases h.one p q hcl (by rw [closes, hpc])
      rw [hp] at hpc
      cases hpc
    · have hholds : (s.calls q).holds = true := by
        have := hl.wellFormed q
        grind
      rw [closes_eq_false_of_holds hl h hholds (by rw [closes, hpc])] at hcl
      cases hcl
  · rw [hstop, hch]

theorem monitor_step (hs : Steps s l t) (m : Nat) (hm : t.stop = some m) :
    m < t.opened ∧ (t.monitors m = .exited → ∃ p a, (t.calls p).pc = .clearStop a) := by
  rcases hs.stop_eq with ⟨hstop, hopened⟩ | ⟨q, a, -, -, hstop, -⟩ |
    ⟨q, -, -, hstop, hopened, hidle⟩
  · rw [hstop] at hm
    obtain ⟨hlt, hex⟩ := h.monitor m hm
    refine ⟨hopened ▸ hlt, fun he => ?_⟩
    rcases hs.exited he with he | he
    · obtain ⟨p, a, hpc⟩ := hex he
      rcases hs.clears hpc (hl.lt_of_closes (by rw [closes, hpc])) with ⟨hpc, -⟩ | ⟨-, hnone⟩
      · exact ⟨p, a, hpc⟩
      · rw [hstop, hm] at hnone
        cases hnone
    · exact he
  · rw [hstop] at hm
    cases hm
  · rw [hstop] at hm
    cases hm
    refine ⟨by omega, fun he => ?_⟩
    rw [hidle] at he
    cases he

theorem step (hc : cautious s l = true) (hs : Steps s l t) : Closing t where
  one := h.one_step hl hc hs
  alone := h.alone_step hl hc hs
  quiet := h.quiet_step hl hc hs
  stop := h.stop_step hl hs
  channel := h.channel_step hl hs
  monitor := h.monitor_step hl hs

end

theorem init {probe running paused health : Bool} :
    Closing (.init probe running paused health) where
  one _ _ := nofun
  alone _ _ := nofun
  quiet _ _ := nofun
  stop _ := nofun
  channel _ _ _ := nofun
  monitor _ := nofun

theorem live (hl : Locked s) (h : Closing s) : Live s := by
  intro p hp
  obtain ⟨ch, a, hpc⟩ : ∃ ch a, (s.calls p).pc = .send ch a := by
    cases hpc : (s.calls p).pc with
    | send ch a => exact ⟨ch, a, rfl⟩
    | _ => simp [sends, hpc] at hp
  have hcl : (s.calls p).closes = true := by rw [closes, hpc]
  cases h.channel p ch a hpc
  cases hstop : s.stop with
  | none => exact absurd hstop (h.stop p hcl)
  | some m =>
    rw [hstop] at hpc
    refine hl.completes hpc (fun he => ?_) ?_
    · obtain ⟨q, a', hq⟩ := (h.monitor m hstop).2 he
      cases h.one p q hcl (by rw [closes, hq])
      rw [hpc] at hq
      cases hq
    · rintro ⟨q, hq⟩ timeout hlock
      have hholds := (hl.call q).2 hq
      by_cases hop : (s.calls p).op = .stop
      · rw [h.alone p q hcl hop] at hholds
        cases hholds
      · have := h.quiet p m hcl hop
        rw [hlock] at this
        cases this

end Closing

/-- Nothing keeps a monitor from being stopped in a run whose steps are all cautious. -/
theorem live_of_cautious (probe running paused health : Bool)
    (h : Reachable (restrict step cautious) (.init probe running paused health) s) : Live s := by
  have hinv : Locked s ∧ Closing s := by
    refine h.inv (I := fun s => Locked s ∧ Closing s) (fun {l s t} hi hstep => ?_) ⟨.init, .init⟩
    obtain ⟨hc, hstep⟩ := restrict_eq_some.1 hstep
    have hs := steps_of_step hstep
    exact ⟨hi.1.step hs, hi.2.step hi.1 hc hs⟩
  exact hinv.2.live hinv.1

theorem live_of_cautious_exitWhileProbing :
    ∃ s, run (restrict step cautious) exitWhileProbing (.init true false false false) = some s ∧
      (s.calls 1).sends = true ∧ Live s :=
  ⟨_, rfl, rfl, live_of_cautious true false false false ⟨exitWhileProbing, rfl⟩⟩

end Docker.Health
