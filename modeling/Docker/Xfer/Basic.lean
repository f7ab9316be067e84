import Docker.Lib.Transition

/-!
# The transfer manager

`distribution/xfer/transfer.go`: `transferManager` schedules transfers and de-duplicates them by
key, and each `transfer` counts its watchers. A step is one section under `tm.mu` or `t.mu`, or one
channel operation between such sections, of

* a call of `Transfer` (`Pc`), which can hold `tm.mu` across the sections of `Watch` and `Release`
  and gives it up while it waits for a cancelled transfer to end;
* the clean-up goroutine of each transfer (`Cleanup`);
* the transfer function, which closes `inactive` and its progress channel whenever it likes, and
  `Broadcast`, which then closes `running`;
* the clients, which release watchers that `Transfer` returned, each at most once, and
  `SetConcurrency`.

The watcher goroutines are left out: they only decide how long `Release` blocks after its section.
Pointers and channels are numbers in the order of their allocation.
-/

namespace Docker.Xfer

open Option

/-- The goroutine of `Transfer` that waits for a transfer to become inactive or to end; whether its
`inactive` is nil. -/
inductive Cleanup where
  /-- At the `select`. -/
  | select (inactiveNil : Bool)
  /-- Received from `inactive`, about to lock `tm.mu`. -/
  | gotInactive
  /-- Received from `xfer.Done()`, about to lock `tm.mu`. -/
  | gotDone (inactiveNil : Bool)
  /-- Has removed the map entry, about to call `xfer.Close()`. -/
  | closing
  | exited
  deriving DecidableEq

/-- A `transfer` with its channels `start` and `inactive`. A channel that is only closed under a
guard is a flag; for the others the model counts the calls of `close`. -/
structure Transfer where
  key : String
  watchers : List Nat
  /-- `t.ctx` is cancelled. -/
  cancelled : Bool := false
  /-- The transfer function has closed its progress channel. -/
  progressClosed : Bool := false
  /-- `t.running` is open. -/
  running : Bool := true
  closed : Bool := false
  releasedCloses : Nat := 0
  startCloses : Nat := 0
  inactiveClosed : Bool := false
  cleanup : Cleanup := .select false
  deriving DecidableEq

namespace Transfer

def watch (w : Nat) (x : Transfer) : Transfer := { x with watchers := w :: x.watchers }

def release (w : Nat) (x : Transfer) : Transfer :=
  let x := { x with watchers := x.watchers.erase w }
  if x.watchers = [] then
    if x.closed then
      -- select { case <-t.released: default: close(t.released) }
      if x.releasedCloses = 0 then { x with releasedCloses := x.releasedCloses + 1 } else x
    else { x with cancelled := true }
  else x

def close (x : Transfer) : Transfer :=
  let x := { x with closed := true }
  if x.watchers = [] then { x with releasedCloses := x.releasedCloses + 1 } else x

theorem release_eq (w : Nat) (x : Transfer) : ∃ cancelled releasedCloses,
    x.release w = { x with watchers := x.watchers.erase w, cancelled, releasedCloses } := by
  simp only [release]
  split
  · split
    · split <;> exact ⟨_, _, rfl⟩
    · exact ⟨_, _, rfl⟩
  · exact ⟨_, _, rfl⟩

theorem close_eq (x : Transfer) : ∃ releasedCloses,
    x.close = { x with closed := true, releasedCloses } := by
  simp only [close]
  split <;> exact ⟨_, rfl⟩

/-- The manager has executed `tm.inactivate(start)` for the inactive signal of this transfer. -/
def inactivated (x : Transfer) : Bool :=
  match x.cleanup with
  | .select b | .gotDone b => b
  | _ => false

/-- The manager has dealt with the end of this transfer: the section that follows `xfer.Done()` has
removed the map entry. -/
def finished (x : Transfer) : Bool :=
  match x.cleanup with
  | .closing | .exited => true
  | _ => false

end Transfer

inductive Pc where
  /-- About to lock `tm.mu` and to look the key up. -/
  | call (key : String)
  /-- Holds `tm.mu`, has called `xfer.Watch`, about to look at `xfer.Context().Done()`. -/
  | watching (key : String) (t w : Nat)
  /-- Holds `tm.mu` and has seen that the transfer is cancelled, about to call `xfer.Release`. -/
  | releasing (key : String) (t w : Nat)
  /-- Holds `tm.mu`, in `xfer.Release` after its section. -/
  | unlocking (key : String) (t : Nat)
  /-- At `<-xfer.Done()`, without the lock. -/
  | waiting (key : String) (t : Nat)
  | returned (t w : Nat)
  deriving DecidableEq

/-- The manager, all transfers ever created and all calls of `Transfer`. The logs record which
transfers were queued and started from the queue, `maxLimit` and `unlimited` the limits so far,
`releasedWatchers` what clients passed to `Release`. -/
structure State where
  concurrencyLimit : Int
  activeTransfers : Int
  transfers : String → Option Nat
  waitingTransfers : List Nat
  xfer : Nat → Transfer
  next : Nat
  nextWatcher : Nat
  /-- The call that holds `tm.mu` between two steps. -/
  mu : Option Nat
  pc : Nat → Option Pc
  releasedWatchers : List Nat
  queueLog : List Nat
  startLog : List Nat
  maxLimit : Int
  unlimited : Bool

def newTransferManager (limit : Int) : State where
  concurrencyLimit := limit
  activeTransfers := 0
  transfers _ := none
  waitingTransfers := []
  xfer _ := { key := "", watchers := [] }
  next := 0
  nextWatcher := 0
  mu := none
  pc _ := none
  releasedWatchers := []
  queueLog := []
  startLog := []
  maxLimit := limit
  unlimited := limit = 0

namespace State

@[simps] def modify (s : State) (t : Nat) (f : Transfer → Transfer) : State :=
  { s with xfer := Function.update s.xfer t (f (s.xfer t)) }

@[simps] def setPc (s : State) (c : Nat) (p : Pc) : State :=
  { s with pc := Function.update s.pc c (some p) }

/-- `tm.inactivate(start)` for the channel `start` of `t`. -/
def inactivate (s : State) (t : Nat) : State :=
  if (s.xfer t).startCloses = 0 then s
  else
    match s.waitingTransfers with
    | [] => { s with activeTransfers := s.activeTransfers - 1 }
    | w :: ws =>
      { s.modify w fun x => { x with startCloses := x.startCloses + 1 } with
        waitingTransfers := ws
        startLog := s.startLog ++ [w] }

/-- `delete(tm.transfers, key)` of the clean-up goroutine of `t`, which then goes on to
`xfer.Close()`. -/
@[simps] def deleteEntry (s : State) (t : Nat) : State :=
  { s with
    transfers := Function.update s.transfers (s.xfer t).key none
    xfer := Function.update s.xfer t { s.xfer t with cleanup := .closing } }

/-- The test of `Transfer` whether a new transfer can start at once. -/
def hasSlot (s : State) : Bool :=
  decide (s.concurrencyLimit = 0 ∨ s.activeTransfers < s.concurrencyLimit)

/-- The part of `Transfer` after its loop: the call gets the new transfer, which nobody else knows
yet, and its first watcher. -/
def create (s : State) (c : Nat) (key : String) : State :=
  let s' := { s with
    transfers := Function.update s.transfers key (some s.next)
    xfer := Function.update s.xfer s.next
      { key, watchers := [s.nextWatcher], startCloses := if s.hasSlot then 1 else 0 }
    next := s.next + 1
    nextWatcher := s.nextWatcher + 1 }.setPc c (.returned s.next s.nextWatcher)
  if s.hasSlot then { s' with activeTransfers := s.activeTransfers + 1 }
  else { s' with
    waitingTransfers := s.waitingTransfers ++ [s.next]
    queueLog := s.queueLog ++ [s.next] }

section
variable (s : State) (c : Nat) (key : String)

@[simp] theorem create_transfers : (s.create c key).transfers = Function.update s.transfers key
    (some s.next) := by
  unfold create; split <;> rfl

@[simp] theorem create_next : (s.create c key).next = s.next + 1 := by
  unfold create; split <;> rfl

@[simp] theorem create_nextWatcher : (s.create c key).nextWatcher = s.nextWatcher + 1 := by
  unfold create; split <;> rfl

@[simp] theorem create_pc : (s.create c key).pc = Function.update s.pc c
    (some (.returned s.next s.nextWatcher)) := by
  unfold create; split <;> rfl

@[simp] theorem create_releasedWatchers :
    (s.create c key).releasedWatchers = s.releasedWatchers := by
  unfold create; split <;> rfl

@[simp] theorem create_xfer : (s.create c key).xfer = Function.update s.xfer s.next
      { key, watchers := [s.nextWatcher], startCloses := if s.hasSlot then 1 else 0 } := by
  unfold create; split <;> rfl

end

end State

/-- The steps of the goroutines. `c` is a call of `Transfer`, `t` a transfer. -/
inductive Label where
  | transfer (c : Nat) (key : String)
  | lookup (c : Nat)
  | checkDone (c : Nat)
  | releaseCancelled (c : Nat)
  | unlock (c : Nat)
  | wake (c : Nat)
  | release (c : Nat)
  | setConcurrency (limit : Int)
  | closeInactive (t : Nat)
  | finish (t : Nat)
  | broadcast (t : Nat)
  | receiveInactive (t : Nat)
  | receiveDone (t : Nat)
  | cleanup (t : Nat)
  | close (t : Nat)
  deriving DecidableEq

open State in
def step : Label → State → Option State
  -- A client calls `Transfer`.
  | .transfer c key, s => if s.pc c = none then some (s.setPc c (.call key)) else none
  -- `tm.mu.Lock()` and one turn of the loop up to the `select`, or the rest of `Transfer`.
  | .lookup c, s =>
    match s.pc c, s.mu with
    | some (.call key), none =>
      match s.transfers key with
      | none => some (s.create c key)
      | some t =>
        some { (s.modify t (·.watch s.nextWatcher)).setPc c (.watching key t s.nextWatcher) with
          nextWatcher := s.nextWatcher + 1
          mu := some c }
    | _, _ => none
  -- `select { case <-xfer.Context().Done(): … default: return xfer, watcher }`
  | .checkDone c, s =>
    match s.pc c with
    | some (.watching key t w) =>
      if (s.xfer t).cancelled then some (s.setPc c (.releasing key t w))
      else some { s.setPc c (.returned t w) with mu := none }
    | _ => none
  | .releaseCancelled c, s =>
    match s.pc c with
    | some (.releasing key t w) => some ((s.modify t (·.release w)).setPc c (.unlocking key t))
    | _ => none
  | .unlock c, s =>
    match s.pc c with
    | some (.unlocking key t) => some { s.setPc c (.waiting key t) with mu := none }
    | _ => none
  -- `<-xfer.Done()`
  | .wake c, s =>
    match s.pc c with
    | some (.waiting key t) => if (s.xfer t).running then none else some (s.setPc c (.call key))
    | _ => none
  -- The client calls `t.Release(w)` on what its call of `Transfer` returned.
  | .release c, s =>
    match s.pc c with
    | some (.returned t w) =>
      if w ∈ s.releasedWatchers then none
      else some { s.modify t (·.release w) with releasedWatchers := w :: s.releasedWatchers }
    | _ => none
  | .setConcurrency limit, s =>
    if s.mu = none then
      some { s with
        concurrencyLimit := limit
        maxLimit := max s.maxLimit limit
        unlimited := s.unlimited || limit = 0 }
    else none
  | .closeInactive t, s =>
    if t < s.next ∧ (s.xfer t).inactiveClosed = false ∧ (s.xfer t).progressClosed = false then
      some (s.modify t fun x => { x with inactiveClosed := true })
    else none
  | .finish t, s =>
    if t < s.next ∧ (s.xfer t).progressClosed = false then
      some (s.modify t fun x => { x with progressClosed := true })
    else none
  | .broadcast t, s =>
    if t < s.next ∧ (s.xfer t).progressClosed = true ∧ (s.xfer t).running = true then
      some (s.modify t fun x => { x with running := false })
    else none
  -- The two branches of the `select` of the clean-up goroutine.
  | .receiveInactive t, s =>
    if t < s.next ∧ (s.xfer t).cleanup = .select false ∧ (s.xfer t).inactiveClosed = true then
      some (s.modify t fun x => { x with cleanup := .gotInactive })
    else none
  | .receiveDone t, s =>
    match (s.xfer t).cleanup with
    | .select inactiveNil =>
      if t < s.next ∧ (s.xfer t).running = false then
        some (s.modify t fun x => { x with cleanup := .gotDone inactiveNil })
      else none
    | _ => none
  -- Its section under `tm.mu`.
  | .cleanup t, s =>
    if t < s.next ∧ s.mu = none then
      match (s.xfer t).cleanup with
      | .gotInactive =>
        some ((s.inactivate t).modify t fun x => { x with cleanup := .select true })
      | .gotDone inactiveNil =>
        some ((if inactiveNil then s else s.inactivate t).deleteEntry t)
      | _ => none
    else none
  | .close t, s =>
    if t < s.next ∧ (s.xfer t).cleanup = .closing then
      some (s.modify t fun x => { x.close with cleanup := .exited })
    else none

/-- The steps as a relation, one constructor for each branch of `step`. -/
inductive Step : Label → State → State → Prop where
  | transfer : s.pc c = none → Step (.transfer c key) s (s.setPc c (.call key))
  | create : s.pc c = some (.call key) → s.mu = none → s.transfers key = none →
    Step (.lookup c) s (s.create c key)
  | watch : s.pc c = some (.call key) → s.mu = none → s.transfers key = some t → Step (.lookup c) s
      { (s.modify t (·.watch s.nextWatcher)).setPc c (.watching key t s.nextWatcher) with
        nextWatcher := s.nextWatcher + 1
        mu := some c }
  | cancelled : s.pc c = some (.watching key t w) → (s.xfer t).cancelled = true →
    Step (.checkDone c) s (s.setPc c (.releasing key t w))
  | returned : s.pc c = some (.watching key t w) → (s.xfer t).cancelled = false →
    Step (.checkDone c) s { s.setPc c (.returned t w) with mu := none }
  | releaseCancelled : s.pc c = some (.releasing key t w) →
    Step (.releaseCancelled c) s ((s.modify t (·.release w)).setPc c (.unlocking key t))
  | unlock : s.pc c = some (.unlocking key t) →
    Step (.unlock c) s { s.setPc c (.waiting key t) with mu := none }
  | wake : s.pc c = some (.waiting key t) → (s.xfer t).running = false →
    Step (.wake c) s (s.setPc c (.call key))
  | release : s.pc c = some (.returned t w) → w ∉ s.releasedWatchers → Step (.release c) s
      { s.modify t (·.release w) with releasedWatchers := w :: s.releasedWatchers }
  | setConcurrency : s.mu = none → Step (.setConcurrency limit) s { s with
      concurrencyLimit := limit
      maxLimit := max s.maxLimit limit
      unlimited := s.unlimited || limit = 0 }
  | closeInactive : t < s.next → (s.xfer t).inactiveClosed = false →
    (s.xfer t).progressClosed = false →
    Step (.closeInactive t) s (s.modify t fun x => { x with inactiveClosed := true })
  | finish : t < s.next → (s.xfer t).progressClosed = false →
    Step (.finish t) s (s.modify t fun x => { x with progressClosed := true })
  | broadcast : t < s.next → (s.xfer t).progressClosed = true → (s.xfer t).running = true →
    Step (.broadcast t) s (s.modify t fun x => { x with running := false })
  | receiveInactive : t < s.next → (s.xfer t).cleanup = .select false →
    (s.xfer t).inactiveClosed = true →
    Step (.receiveInactive t) s (s.modify t fun x => { x with cleanup := .gotInactive })
  | receiveDone : t < s.next → (s.xfer t).cleanup = .select b → (s.xfer t).running = false →
    Step (.receiveDone t) s (s.modify t fun x => { x with cleanup := .gotDone b })
  | cleanupInactive : t < s.next → s.mu = none → (s.xfer t).cleanup = .gotInactive →
    Step (.cleanup t) s ((s.inactivate t).modify t fun x => { x with cleanup := .select true })
  | cleanupDone : t < s.next → s.mu = none → (s.xfer t).cleanup = .gotDone false →
    Step (.cleanup t) s ((s.inactivate t).deleteEntry t)
  | cleanupDoneNil : t < s.next → s.mu = none → (s.xfer t).cleanup = .gotDone true →
    Step (.cleanup t) s (s.deleteEntry t)
  | close : t < s.next → (s.xfer t).cleanup = .closing →
    Step (.close t) s (s.modify t fun x => { x.close with cleanup := .exited })

theorem step_cases (h : step l s = some s') : Step l s s' := by
  cases l with
  | transfer c key =>
    simp only [step, ite_none_right_eq_some, Option.some.injEq] at h
    obtain ⟨hpc, rfl⟩ := h
    exact .transfer hpc
  | lookup c =>
    simp only [step] at h
    split at h
    next key hpc hmu =>
      split at h <;> cases h
      next ht => exact .create hpc hmu ht
      next t ht => exact .watch hpc hmu ht
    next => cases h
  | checkDone c =>
    simp only [step] at h
    split at h
    next key t w hpc =>
      split at h <;> cases h
      next hc => exact .cancelled hpc hc
      next hc => exact .returned hpc (by simpa using hc)
    next => cases h
  | releaseCancelled c =>
    simp only [step] at h
    split at h <;> cases h
    exact .releaseCancelled ‹_›
  | unlock c =>
    simp only [step] at h
    split at h <;> cases h
    exact .unlock ‹_›
  | wake c =>
    simp only [step] at h
    split at h
    next key t hpc =>
      split at h <;> cases h
      next hr => exact .wake hpc (by simpa using hr)
    next => cases h
  | release c =>
    simp only [step] at h
    split at h
    next t w hpc =>
      split at h <;> cases h
      next hw => exact .release hpc hw
    next => cases h
  | setConcurrency limit =>
    simp only [step, ite_none_right_eq_some, Option.some.injEq] at h
    obtain ⟨hmu, rfl⟩ := h
    exact .setConcurrency hmu
  | closeInactive t =>
    simp only [step, ite_none_right_eq_some, Option.some.injEq] at h
    obtain ⟨⟨ht, hi, hp⟩, rfl⟩ := h
    exact .closeInactive ht hi hp
  | finish t =>
    simp only [step, ite_none_right_eq_some, Option.some.injEq] at h
    obtain ⟨⟨ht, hp⟩, rfl⟩ := h
    exact .finish ht hp
  | broadcast t =>
    simp only [step, ite_none_right_eq_some, Option.some.injEq] at h
    obtain ⟨⟨ht, hp, hr⟩, rfl⟩ := h
    exact .broadcast ht hp hr
  | receiveInactive t =>
    simp only [step, ite_none_right_eq_some, Option.some.injEq] at h
    obtain ⟨⟨ht, hc, hi⟩, rfl⟩ := h
    exact .receiveInactive ht hc hi
  | receiveDone t =>
    simp only [step] at h
    split at h
    next b hc =>
      simp only [ite_none_right_eq_some, Option.some.injEq] at h
      obtain ⟨⟨ht, hr⟩, rfl⟩ := h
      exact .receiveDone ht hc hr
    next => cases h
  | cleanup t =>
    simp only [step, ite_none_right_eq_some] at h
    obtain ⟨⟨ht, hmu⟩, h⟩ := h
    split at h <;> cases h
    next hc => exact .cleanupInactive ht hmu hc
    next b hc =>
      cases b
      · exact .cleanupDone ht hmu hc
      · exact .cleanupDoneNil ht hmu hc
  | close t =>
    simp only [step, ite_none_right_eq_some, Option.some.injEq] at h
    obtain ⟨⟨ht, hc⟩, rfl⟩ := h
    exact .close ht hc

end Docker.Xfer
