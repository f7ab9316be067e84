import Docker.Lib.Transition

/-!
# Named locks

`pkg/locker/locker.go` under any number of goroutines. Every access of one goroutine that another
one can see is a step of its own. Mutexes are locked by a goroutine that finds them unlocked, in any
order.

A lock keeps who has locked its mutex and the name it was made for, and a goroutine keeps which lock
it has locked for a name. The code keeps neither: `Unlock` looks the name up and unlocks what it
finds.
-/

namespace Docker.Locker

open Option

abbrev Name := String

structure LockCtr where
  name : Name
  /-- The goroutine that has locked the mutex, if it is locked. -/
  mu : Option Nat := none
  waiters : BitVec 32 := 0
  deriving Inhabited

inductive Pc where
  | idle
  -- `Lock(name)`
  | lockMu (name : Name)
  | lockLookup (name : Name)
  | inc (name : Name) (nameLock : Nat)
  | unlockMu (name : Name) (nameLock : Nat)
  | lock (name : Name) (nameLock : Nat)
  | dec (name : Name) (nameLock : Nat)
  -- `Unlock(name)`
  | lockMu' (name : Name)
  | unlockLookup (name : Name)
  | count (name : Name) (nameLock : Nat)
  | delete (name : Name) (nameLock : Nat)
  /-- `deleted` says whether the entry was deleted. -/
  | unlock (name : Name) (nameLock : Nat) (deleted : Bool)
  /-- `Unlock` unlocks `l.mu` and returns nil or `ErrNoSuchLock`. -/
  | unlockMu' (noSuchLock : Bool)
  /-- Unlocking a mutex that is not locked stops the program. -/
  | fatal
  deriving DecidableEq

structure Goroutine where
  pc : Pc := .idle
  /-- The names it has locked, each with the lock. -/
  held : List (Name × Nat) := []
  /-- `Unlock` has returned `ErrNoSuchLock`. -/
  noSuchLock : Bool := false

structure State where
  /-- The goroutine that has locked `l.mu`. -/
  mu : Option Nat := none
  locks : Name → Option Nat := fun _ => none
  /-- The locks in the order they are made. -/
  ctrs : Nat → LockCtr := fun _ => { name := "" }
  made : Nat := 0
  gs : Nat → Goroutine := fun _ => {}

namespace State

variable (s : State) (i c : Nat) (name : Name)

@[simps] def setPc (pc : Pc) : State :=
  { s with gs := Function.update s.gs i { s.gs i with pc := pc } }

@[simps] def setMu (mu : Option Nat) : State := { s with mu := mu }

@[simps] def modify (f : LockCtr → LockCtr) : State :=
  { s with ctrs := Function.update s.ctrs c (f (s.ctrs c)) }

@[simps] def make : State :=
  { s with
    locks := Function.update s.locks name (some s.made)
    ctrs := Function.update s.ctrs s.made { name := name }
    made := s.made + 1 }

@[simps] def erase : State := { s with locks := Function.update s.locks name none }

@[simps] def hold : State :=
  { s with gs := Function.update s.gs i { s.gs i with held := (name, c) :: (s.gs i).held } }

@[simps] def drop : State :=
  { s with gs := Function.update s.gs i { s.gs i with held := (s.gs i).held.erase (name, c) } }

@[simps] def returned (err : Bool) : State :=
  { s with gs := Function.update s.gs i { s.gs i with noSuchLock := (s.gs i).noSuchLock || err } }

attribute [grind =] setPc_mu setPc_locks setPc_ctrs setPc_made setPc_gs setMu_mu setMu_locks
  setMu_ctrs setMu_made
  setMu_gs modify_mu modify_locks modify_ctrs modify_made modify_gs make_mu make_locks make_ctrs
    make_made make_gs
  erase_mu erase_locks erase_ctrs erase_made erase_gs hold_mu hold_locks hold_ctrs hold_made
    hold_gs drop_mu
  drop_locks drop_ctrs drop_made drop_gs returned_mu returned_locks returned_ctrs
    returned_made returned_gs

end State

@[simps] def LockCtr.inc (l : LockCtr) : LockCtr := { l with waiters := l.waiters + 1 }

@[simps] def LockCtr.dec (l : LockCtr) : LockCtr := { l with waiters := l.waiters - 1 }

@[simps] def LockCtr.setMu (mu : Option Nat) (l : LockCtr) : LockCtr := { l with mu := mu }

attribute [grind =] LockCtr.inc_name LockCtr.inc_mu LockCtr.inc_waiters LockCtr.dec_name
  LockCtr.dec_mu
  LockCtr.dec_waiters LockCtr.setMu_name LockCtr.setMu_mu LockCtr.setMu_waiters

def advance (i : Nat) (s : State) : Option State :=
  match (s.gs i).pc with
  | .idle => none
  | .lockMu name =>
    if s.mu = none then some ((s.setMu (some i)).setPc i (.lockLookup name)) else none
  | .lockLookup name =>
    match s.locks name with
    | some c => some (s.setPc i (.inc name c))
    | none => some ((s.make name).setPc i (.inc name s.made))
  | .inc name c => some ((s.modify c .inc).setPc i (.unlockMu name c))
  | .unlockMu name c => some ((s.setMu none).setPc i (.lock name c))
  | .lock name c =>
    if (s.ctrs c).mu = none then some ((s.modify c (.setMu (some i))).setPc i (.dec name c))
      else none
  | .dec name c => some (((s.modify c .dec).hold i c name).setPc i .idle)
  | .lockMu' name =>
    if s.mu = none then some ((s.setMu (some i)).setPc i (.unlockLookup name)) else none
  | .unlockLookup name =>
    match s.locks name with
    | some c => some (s.setPc i (.count name c))
    | none => some (s.setPc i (.unlockMu' true))
  | .count name c =>
    if (s.ctrs c).waiters = 0 then some (s.setPc i (.delete name c))
      else some (s.setPc i (.unlock name c false))
  | .delete name c => some ((s.erase name).setPc i (.unlock name c true))
  | .unlock name c _ =>
    if (s.ctrs c).mu = none then some (s.setPc i .fatal)
    else some (((s.modify c (.setMu none)).drop i c name).setPc i (.unlockMu' false))
  | .unlockMu' err => some (((s.setMu none).returned i err).setPc i .idle)
  | .fatal => none

inductive Label where
  /-- Goroutine `i` calls `Lock(name)`. -/
  | lock (i : Nat) (name : Name)
  /-- Goroutine `i` calls `Unlock(name)` for a name it holds. -/
  | unlock (i : Nat) (name : Name)
  | advance (i : Nat)

def step (n : Nat) : Label → State → Option State
  | .lock i name, s => if i < n ∧ (s.gs i).pc = .idle then some (s.setPc i (.lockMu name)) else none
  | .unlock i name, s =>
    if i < n ∧ (s.gs i).pc = .idle ∧ name ∈ (s.gs i).held.map Prod.fst
      then some (s.setPc i (.lockMu' name)) else none
  | .advance i, s => if i < n then advance i s else none

/-! ## What a step can do -/

/-- What goroutine `i` can do, one constructor for each branch. -/
inductive Advances (i : Nat) (s : State) : State → Prop where
  | callLock (name : Name) : (s.gs i).pc = .idle → Advances i s (s.setPc i (.lockMu name))
  | callUnlock (name : Name) (c : Nat) : (s.gs i).pc = .idle → (name, c) ∈ (s.gs i).held →
    Advances i s (s.setPc i (.lockMu' name))
  | lockMu (name : Name) : (s.gs i).pc = .lockMu name → s.mu = none →
    Advances i s ((s.setMu (some i)).setPc i (.lockLookup name))
  | found (name : Name) (c : Nat) : (s.gs i).pc = .lockLookup name → s.locks name = some c →
    Advances i s (s.setPc i (.inc name c))
  | make (name : Name) : (s.gs i).pc = .lockLookup name → s.locks name = none →
    Advances i s ((s.make name).setPc i (.inc name s.made))
  | inc (name : Name) (c : Nat) : (s.gs i).pc = .inc name c →
    Advances i s ((s.modify c .inc).setPc i (.unlockMu name c))
  | unlockMu (name : Name) (c : Nat) : (s.gs i).pc = .unlockMu name c →
    Advances i s ((s.setMu none).setPc i (.lock name c))
  | lock (name : Name) (c : Nat) : (s.gs i).pc = .lock name c → (s.ctrs c).mu = none →
    Advances i s ((s.modify c (.setMu (some i))).setPc i (.dec name c))
  | dec (name : Name) (c : Nat) : (s.gs i).pc = .dec name c →
    Advances i s (((s.modify c .dec).hold i c name).setPc i .idle)
  | lockMu' (name : Name) : (s.gs i).pc = .lockMu' name → s.mu = none →
    Advances i s ((s.setMu (some i)).setPc i (.unlockLookup name))
  | foundAgain (name : Name) (c : Nat) : (s.gs i).pc = .unlockLookup name → s.locks name = some c →
    Advances i s (s.setPc i (.count name c))
  | notFound (name : Name) : (s.gs i).pc = .unlockLookup name → s.locks name = none →
    Advances i s (s.setPc i (.unlockMu' true))
  | noWaiters (name : Name) (c : Nat) : (s.gs i).pc = .count name c → (s.ctrs c).waiters = 0 →
    Advances i s (s.setPc i (.delete name c))
  | waiters (name : Name) (c : Nat) : (s.gs i).pc = .count name c → (s.ctrs c).waiters ≠ 0 →
    Advances i s (s.setPc i (.unlock name c false))
  | delete (name : Name) (c : Nat) : (s.gs i).pc = .delete name c →
    Advances i s ((s.erase name).setPc i (.unlock name c true))
  | unlock (name : Name) (c : Nat) (deleted : Bool) : (s.gs i).pc = .unlock name c deleted →
    (s.ctrs c).mu ≠ none →
    Advances i s (((s.modify c (.setMu none)).drop i c name).setPc i (.unlockMu' false))
  | fatal (name : Name) (c : Nat) (deleted : Bool) : (s.gs i).pc = .unlock name c deleted →
    (s.ctrs c).mu = none →
    Advances i s (s.setPc i .fatal)
  | unlockMu' (err : Bool) : (s.gs i).pc = .unlockMu' err →
    Advances i s (((s.setMu none).returned i err).setPc i .idle)

theorem advances_of_advance (h : advance i s = some s') : Advances i s s' := by
  unfold advance at h
  split at h
  · cases h
  · next name hpc =>
    split at h <;> cases h
    exact .lockMu name hpc ‹_›
  · next name hpc =>
    split at h <;> cases h
    · exact .found name _ hpc ‹_›
    · exact .make name hpc ‹_›
  · cases h; exact .inc _ _ ‹_›
  · cases h; exact .unlockMu _ _ ‹_›
  · next name c hpc =>
    split at h <;> cases h
    exact .lock name c hpc ‹_›
  · cases h; exact .dec _ _ ‹_›
  · next name hpc =>
    split at h <;> cases h
    exact .lockMu' name hpc ‹_›
  · next name hpc =>
    split at h <;> cases h
    · exact .foundAgain name _ hpc ‹_›
    · exact .notFound name hpc ‹_›
  · next name c hpc =>
    split at h <;> cases h
    · exact .noWaiters name c hpc ‹_›
    · exact .waiters name c hpc ‹_›
  · cases h; exact .delete _ _ ‹_›
  · next name c deleted hpc =>
    split at h <;> cases h
    · exact .fatal name c deleted hpc ‹_›
    · exact .unlock name c deleted hpc ‹_›
  · cases h; exact .unlockMu' _ ‹_›
  · cases h

theorem advances_of_step (h : step n l s = some s') : ∃ i < n, Advances i s s' := by
  cases l with
  | lock i name =>
    simp only [step, ite_none_right_eq_some, Option.some.injEq] at h
    obtain ⟨⟨hi, hpc⟩, rfl⟩ := h
    exact ⟨i, hi, .callLock name hpc⟩
  | unlock i name =>
    simp only [step, ite_none_right_eq_some, Option.some.injEq, List.mem_map] at h
    obtain ⟨⟨hi, hpc, ⟨⟨_, c⟩, hheld, rfl⟩⟩, rfl⟩ := h
    exact ⟨i, hi, .callUnlock _ c hpc hheld⟩
  | advance i =>
    simp only [step, ite_none_right_eq_some] at h
    exact ⟨i, h.1, advances_of_advance h.2⟩

theorem Advances.gs_other (h : Advances i s s') (hj : j ≠ i) : s'.gs j = s.gs j := by
  cases h <;> simp [Function.update_of_ne hj]

end Docker.Locker
