import Docker.Devmapper.Runs
import Docker.Lib.Transition

/-!
# Concurrent calls

`AddDevice` and `DeleteDevice` look their device up under the lock of the device set, give that lock
up, take the lock of the device and then the lock of the set again. So a `DeleteDevice` can go on
with a `devInfo` that is no longer registered, and delete the device that has got its id since.

The pool deletes a device that it has, and is never busy, so a call can keep the `devInfo` it has
found by value. Which one it is, and so which lock, is told by a number.
-/

namespace Docker.Devmapper

open Filepath Prog List Option

section Sections
variable (cfg : Config)

/-- The pool deletes a device that it has, and fails otherwise. -/
def honest : Env Call Answer Disk where
  ok c r disk := answered cfg c r disk ∧ match c, r with
    | .deleteDevice id, r => r = if id ∈ disk.pool then .ok else .failed false
    | _, _ => True
  after := Disk.after

end Sections

/-! ## The system -/

/-- A `devInfo` that a call has found. -/
structure Held where
  ref : Nat
  info : DevInfo
deriving DecidableEq

inductive Pc
  | start
  /-- It has looked its device up and waits for the lock of the device. -/
  | waiting (held : Held)
  /-- It has the lock of the device and waits for the lock of the set. `DeleteDevice` gives the lock
  of the set up when it has to wait for the device to be unused, and is here until it has it for
  good. -/
  | locked (held : Held)
  /-- `AddDevice` grows the file system of its device. -/
  | growing (held : Held)
  | done
deriving DecidableEq

inductive Caller
  | add (hash baseHash : Hash) (storageOpt : StorageOpt) (pc : Pc)
  | delete (hash : Hash) (syncDelete : Bool) (pc : Pc)
deriving DecidableEq

namespace Caller

def pc : Caller → Pc
  | add _ _ _ pc => pc
  | delete _ _ pc => pc

def looksUp : Caller → Hash
  | add _ baseHash _ _ => baseHash
  | delete hash _ _ => hash

def hashes : Caller → List Hash
  | add hash baseHash _ _ => [hash, baseHash]
  | delete hash _ _ => [hash]

def withPc (pc : Pc) : Caller → Caller
  | add hash baseHash storageOpt _ => add hash baseHash storageOpt pc
  | delete hash syncDelete _ => delete hash syncDelete pc

/-- Where the call goes on with what it has found. -/
def found (r : Option Held) : Caller → Pc
  | add _ _ _ _ =>
    match r with
    | none => .done
    | some held => if held.info.deleted then .done else .waiting held
  | delete _ _ _ =>
    match r with
    | none => .done
    | some held => .waiting held

def holds (c : Caller) (ref : Nat) : Bool :=
  match c.pc with
  | .locked held => held.ref == ref
  | .growing held => held.ref == ref
  | _ => false

def deleting : Caller → Option (Hash × Held)
  | add _ _ _ _ => none
  | delete hash _ (.waiting held) => some (hash, held)
  | delete hash _ (.locked held) => some (hash, held)
  | delete _ _ _ => none

end Caller

structure State where
  ds : DeviceSet := {}
  disk : Disk := {}
  /-- The number of the `devInfo` that a hash is registered with. -/
  refs : Hash → Nat := fun _ => 0
  nextRef : Nat := 0
  callers : List Caller := []

namespace State

/-- The state after something was done under the lock of the set that can register `hash`. -/
def under (s : State) (hash : Hash) (ds : DeviceSet) (disk : Disk) : State :=
  if s.ds.devices.lookup hash = none ∧ ds.devices.lookup hash ≠ none then
    { s with
      ds, disk, refs := fun h => if h = hash then s.nextRef else s.refs h
      nextRef := s.nextRef + 1 }
  else { s with ds, disk }

def goto (s : State) (i : Nat) (c : Caller) (pc : Pc) : State :=
  { s with callers := s.callers.set i (c.withPc pc) }

end State

/-- What a step is, as far as the order of calls is concerned. -/
inductive Event
  | call (c : Caller)
  /-- The deletion of a device by call `i`, and whether it succeeded. -/
  | delete (i : Nat) (hash : Hash) (ok : Bool)
  | other

/-- The steps, each under the lock of the set or of a device. -/
inductive Step (cfg : Config) : Event → State → State → Prop
  | call {s : State} {c : Caller} : c.pc = .start →
    Step cfg (.call c) s { s with callers := s.callers ++ [c] }
  | lookup {s : State} {i : Nat} {c : Caller} {r : Option DevInfo} {ds : DeviceSet} {disk : Disk} :
    s.callers[i]? = some c → c.pc = .start →
    (lookupDevice cfg s.ds c.looksUp).Ends (honest cfg) s.disk (r, ds) disk →
    Step cfg .other s ((s.under c.looksUp ds disk).goto i c
      (c.found (r.map fun info => ⟨(s.under c.looksUp ds disk).refs c.looksUp, info⟩)))
  | lock {s : State} {i : Nat} {c : Caller} {held : Held} : s.callers[i]? = some c →
    c.pc = .waiting held →
    s.callers.any (·.holds held.ref) = false → Step cfg .other s (s.goto i c (.locked held))
  | create {s : State} {i : Nat} {hash baseHash : Hash} {opt : StorageOpt} {held : Held}
    {r : Except Error Bool}
    {ds : DeviceSet} {disk : Disk} : s.callers[i]? = some (.add hash baseHash opt (.locked held)) →
    (addLocked cfg s.ds hash held.info opt).Ends (honest cfg) s.disk (r, ds) disk →
    Step cfg .other s ((s.under hash ds disk).goto i (.add hash baseHash opt (.locked held))
      (if r = .ok true then .growing held else .done))
  | grown {s : State} {i : Nat} {c : Caller} {held : Held} : s.callers[i]? = some c →
    c.pc = .growing held →
    Step cfg .other s (s.goto i c .done)
  /-- The device cannot be deactivated. -/
  | giveUp {s : State} {i : Nat} {hash : Hash} {sync : Bool} {held : Held} :
    s.callers[i]? = some (.delete hash sync (.locked held)) →
    Step cfg .other s (s.goto i (.delete hash sync (.locked held)) .done)
  | delete {s : State} {i : Nat} {hash : Hash} {sync : Bool} {held : Held} {r : Except Error Unit}
    {ds : DeviceSet}
    {disk : Disk} : s.callers[i]? = some (.delete hash sync (.locked held)) →
    (deleteTransaction cfg s.ds held.info sync).Ends (honest cfg) s.disk (r, ds) disk →
    Step cfg (.delete i hash r.isOk) s
      ((s.under hash ds disk).goto i (.delete hash sync (.locked held)) .done)

/-- The hashes of new calls have metadata files of their own, and no entry is removed while another
`DeleteDevice` has looked it up. -/
def Ordered (s : State) : Event → Prop
  | .call c => ∀ h ∈ c.hashes, Named h
  | .delete i hash ok =>
    ok = true → ∀ j c, j ≠ i → s.callers[j]? = some c → c.deleting.map Prod.fst ≠ some hash
  | .other => True

def OrderedStep (cfg : Config) (s s' : State) : Prop := ∃ e, Step cfg e s s' ∧ Ordered s e

/-! ## Only the right device is deleted -/

open Caller

open State

section Invariant
variable {cfg : Config} {s s' : State} {i : Nat} {c : Caller} {pc : Pc} {hash h : Hash}
  {held : Held} {ds : DeviceSet} {disk : Disk}

theorem ends_env {p : P α} (h : p.Ends (honest cfg) disk a disk') :
    p.Ends (env cfg) disk a disk' := by
  have hok : ∀ c r d, (honest cfg).ok c r d → (env cfg).ok c r d := fun _ _ _ h => h.1
  exact h.of_ok hok fun _ _ _ => rfl

@[simp] theorem State.ds_under : (s.under hash ds disk).ds = ds := by unfold under; split <;> rfl

@[simp] theorem State.disk_under : (s.under hash ds disk).disk = disk := by
  unfold under; split <;> rfl

@[simp] theorem State.callers_under : (s.under hash ds disk).callers = s.callers := by
  unfold under; split <;> rfl

@[simp] theorem Caller.hashes_withPc : (c.withPc pc).hashes = c.hashes := by cases c <;> rfl

/-- What a call is going to delete is registered as it has found it. -/
structure Inv (cfg : Config) (s : State) : Prop where
  consistent : Consistent cfg named s.ds s.disk
  named : ∀ c ∈ s.callers, ∀ h ∈ c.hashes, Named h
  current : ∀ (i : Nat) (c : Caller) (h : Hash) (held : Held), s.callers[i]? = some c →
    c.deleting = some (h, held) →
    s.ds.devices.lookup h = some held.info

/-- Call `i` does something under the lock of the set and goes on. -/
theorem Inv.goto_under (hinv : Inv cfg s) (hi : s.callers[i]? = some c)
    (hc : Consistent cfg Devmapper.named ds disk)
    (hother : ∀ (j : Nat) (c' : Caller) (h : Hash) (held : Held), j ≠ i → s.callers[j]? = some c' →
      c'.deleting = some (h, held) → ds.devices.lookup h = some held.info)
    (hnew : ∀ h held, (c.withPc pc).deleting = some (h, held) →
      ds.devices.lookup h = some held.info) :
    Inv cfg ((s.under hash ds disk).goto i c pc) where
  consistent := by simpa [goto] using hc
  named c' hc' := by
    rw [goto, callers_under] at hc'
    rcases mem_or_eq_of_mem_set hc' with hc' | rfl
    · exact hinv.named c' hc'
    · rw [hashes_withPc]
      exact hinv.named c (mem_of_getElem? hi)
  current j c' h held hj hd := by
    simp only [goto, callers_under, ds_under] at hj ⊢
    obtain ⟨rfl, rfl⟩ | ⟨hji, hj⟩ := Transition.getElem?_set_cases hj
    · exact hnew h held hd
    · exact hother j c' h held hji hj hd

theorem Inv.goto (hinv : Inv cfg s) (hi : s.callers[i]? = some c)
    (hnew : ∀ h held, (c.withPc pc).deleting = some (h, held) → c.deleting = some (h, held)) :
    Inv cfg (s.goto i c pc) := by
  have hsame : s.under [] s.ds s.disk = s := if_neg fun h => h.2 h.1
  rw [← hsame]
  exact hinv.goto_under hi hinv.consistent
    (fun j c' h held _ hj hd => hinv.current j c' h held hj hd)
    fun h held hd => hinv.current i c h held hi (hnew h held hd)

theorem Inv.step (hinv : Inv cfg s) (hstep : Step cfg e s s') (ho : Ordered s e) : Inv cfg s' := by
  have hc := hinv.consistent
  cases hstep with
  | @call _ c hpc =>
    refine ⟨hc, fun c' hc' => ?_, fun j c' h held hj hd => ?_⟩
    · rcases mem_append.1 hc' with hc' | hc'
      · exact hinv.named c' hc'
      · exact mem_singleton.1 hc' ▸ ho
    · obtain hj | ⟨-, rfl⟩ := Transition.getElem?_concat_cases hj
      · exact hinv.current j c' h held hj hd
      · cases c' with
        | add => cases hd
        | delete hash sync pc =>
          cases hpc
          cases hd
  | @lookup _ i c r ds disk hi hpc hend =>
    have hn : Named c.looksUp := by
      refine hinv.named c (mem_of_getElem? hi) _ ?_
      cases c <;> simp [looksUp, hashes]
    have hres := (during_lookupDevice (I := fun _ => True)
      (Q := fun r d => r = (s.ds.devices.lookup c.looksUp, s.ds) ∧ d = s.disk) hc hn
        trivial ⟨rfl, rfl⟩).of_ends
      (ends_env hend)
    obtain ⟨hr, rfl⟩ := hres
    cases hr
    refine hinv.goto_under hi hc (fun j c' h held _ hj hd => hinv.current j c' h held hj hd)
      fun h held hd => ?_
    cases c with
    | add => cases hd
    | delete hash sync pc =>
      cases hl : s.ds.devices.lookup hash with
      | none => simp [looksUp, found, withPc, deleting, hl] at hd
      | some info =>
        simp only [looksUp, found, withPc, deleting, hl, map_some,
          some_inj, Prod.mk.injEq] at hd
        obtain ⟨rfl, rfl⟩ := hd
        exact hl
  | @lock _ i c held hi hpc _ =>
    refine hinv.goto hi fun h held' hd => ?_
    cases c with
    | add => cases hd
    | delete hash sync pc =>
      cases hpc
      exact hd
  | @create _ i hash baseHash opt held r ds disk hi hend =>
    have hn : Named hash := hinv.named _ (mem_of_getElem? hi) hash (by simp [hashes])
    obtain ⟨hop, -⟩ := (during_addLocked hn (Operating.start hc)).of_ends (ends_env hend)
    refine hinv.goto_under hi hop.toConsistent (fun j c' h held' _ hj hd => ?_) fun h held' hd => by
      cases hd
    have hl := hinv.current j c' h held' hj hd
    by_cases he : h = hash
    · subst he
      have := (during_addLocked_of_mem (I := fun _ => True) hc hn hl trivial).of_ends
        (ends_env hend)
      cases this.1
      exact hl
    · rw [hop.lookup_eq hc (hc.entry h _ hl).1 he]
      exact hl
  | @grown _ i c held hi hpc =>
    refine hinv.goto hi fun h held' hd => ?_
    cases c <;> cases hd
  | giveUp hi => exact hinv.goto hi fun h held' hd => by cases hd
  | @delete _ i hash sync held r ds disk hi hend =>
    have hl := hinv.current i _ hash held hi rfl
    have hdel := (during_deleteTransaction (Operating.start hc) hl).of_ends (ends_env hend)
    have hop := hdel.operating
    refine hinv.goto_under hi hop.toConsistent (fun j c' h held' hji hj hd => ?_)
      fun h held' hd => by
      cases hd
    have hl' := hinv.current j c' h held' hj hd
    cases r with
    | error e =>
      have hkept : ds.devices = s.ds.devices := hdel.kept e rfl
      rw [hkept]
      exact hl'
    | ok u =>
      by_cases he : h = hash
      · exact absurd (by rw [hd, he]; rfl) (ho rfl j c' hji hj)
      · rw [hop.lookup_eq hc (hc.entry h _ hl').1 he]
        exact hl'

theorem Inv.run (hinv : Inv cfg s) (hrun : Relation.ReflTransGen (OrderedStep cfg) s s') :
    Inv cfg s' := by
  induction hrun with
  | refl => exact hinv
  | tail _ hstep ih =>
    obtain ⟨e, hstep, ho⟩ := hstep
    exact ih.step hstep ho

end Invariant

def calmHonest (cfg : Config) : (c : Call) → Disk → Answer c
  | .deleteDevice id, disk => if id ∈ disk.pool then DmResult.ok else DmResult.failed false
  | c, disk => calm cfg c disk

theorem calmHonest_ok (cfg : Config) (c : Call) (disk : Disk) :
    (honest cfg).ok c (calmHonest cfg c disk) disk := by
  have hcalm := calm_ok cfg c disk
  cases c with
  | deleteDevice id => exact ⟨trivial, rfl⟩
  | _ => exact ⟨hcalm, trivial⟩

inductive Move
  | call (c : Caller)
  | lookup (i : Nat)
  | lock (i : Nat)
  | create (i : Nat)
  | delete (i : Nat)

section Moves
variable (cfg : Config)

/-- What a program does when nothing fails. -/
def execCalm {α : Type} (p : P (α × DeviceSet)) (s : State) : (α × DeviceSet) × Disk :=
  execAll (calmHonest cfg) (honest cfg) p s.disk

def Move.next (s : State) : Move → Option (Event × State)
  | call c =>
    match c.pc with
    | .start => some (.call c, { s with callers := s.callers ++ [c] })
    | _ => none
  | lookup i =>
    match s.callers[i]? with
    | none => none
    | some c =>
      match c.pc with
      | .start =>
        let r := execCalm cfg (lookupDevice cfg s.ds c.looksUp) s
        let s' := s.under c.looksUp r.1.2 r.2
        some (.other, s'.goto i c (c.found (r.1.1.map fun info => ⟨s'.refs c.looksUp, info⟩)))
      | _ => none
  | lock i =>
    match s.callers[i]? with
    | none => none
    | some c =>
      match c.pc with
      | .waiting held =>
        if s.callers.any (·.holds held.ref) then none else some (.other, s.goto i c (.locked held))
      | _ => none
  | create i =>
    match s.callers[i]? with
    | some (.add hash baseHash opt (.locked held)) =>
      let r := execCalm cfg (addLocked cfg s.ds hash held.info opt) s
      some (.other, (s.under hash r.1.2 r.2).goto i (.add hash baseHash opt (.locked held))
        (if r.1.1 = .ok true then .growing held else .done))
    | _ => none
  | delete i =>
    match s.callers[i]? with
    | some (.delete hash sync (.locked held)) =>
      let r := execCalm cfg (deleteTransaction cfg s.ds held.info sync) s
      some (.delete i hash r.1.1.isOk, (s.under hash r.1.2 r.2).goto i
        (.delete hash sync (.locked held)) .done)
    | _ => none

variable {cfg}

theorem Move.step {m : Move} (h : m.next cfg s = some (e, s')) : Step cfg e s s' := by
  cases m with
  | call c =>
    simp only [next] at h
    split at h
    · next hpc =>
      cases h
      exact .call hpc
    · cases h
  | lookup i =>
    simp only [next] at h
    split at h
    · cases h
    · next c hi =>
      split at h
      · next hpc =>
        cases h
        exact .lookup hi hpc (ends_execAll (calmHonest_ok cfg) _ _)
      · cases h
  | lock i =>
    simp only [next] at h
    split at h
    · cases h
    · next c hi =>
      split at h
      · next held hpc =>
        split at h
        · cases h
        · next hfree =>
          cases h
          exact .lock hi hpc (Bool.eq_false_iff.2 hfree)
      · cases h
  | create i =>
    simp only [next] at h
    split at h
    · next hi =>
      cases h
      exact .create hi (ends_execAll (calmHonest_ok cfg) _ _)
    · cases h
  | delete i =>
    simp only [next] at h
    split at h
    · next hi =>
      cases h
      exact .delete hi (ends_execAll (calmHonest_ok cfg) _ _)
    · cases h

variable (cfg)

variable {cfg}

end Moves

/-- The base device and a layer `a` with id 2, after a restart: the next id to try is the one saved
with the base device. -/
def restarted : State :=
  let w := runCalm exampleConfig [.setupBaseImage, .addDevice "a".toList [] .none] {}
  { ds := { w.ds with nextDeviceID := 1 }, disk := w.disk
    refs := fun h => if h = [] then 0 else 1
    nextRef := 2 }

end Docker.Devmapper
